import Kiban.Lib.VersionChain
import Kiban.Timesheet.Frozen

/-!
# The versions of a week

The submissions of a member and a week are one chain, however the calls overlap: the insert of a version succeeds only
when the version it follows is the current one still, and one such insert at a time.  A decision changes neither the
chain nor a version that is decided or superseded.
-/

namespace Kiban.Timesheet

open Transactions LockedWrites VersionChain List Keyed.Table

def Tables.versions (t : Tables) (companyId memberId : Uuid) (weekStart : Date) (id : Uuid) :
    Option (Version Uuid) :=
  match t.submission.get? id with
  | some s =>
    if s.companyId = companyId ∧ s.memberId = memberId ∧ s.weekStart = weekStart then
      some ⟨s.versionNumber, s.rootId, s.supersedesId, s.isCurrent⟩
    else none
  | none => none

def Tables.Chained (t : Tables) : Prop :=
  ∀ companyId memberId weekStart, ∃ root ids, Chain (t.versions companyId memberId weekStart) root ids

def Submission.Settled (s : Submission) : Prop :=
  s.status = .approved ∨ s.status = .rejected ∨ s.isCurrent = false

def KeepsSettled (c c' : Tables) : Prop :=
  ∀ id s, c.submission.get? id = some s → s.Settled →
    ∃ s', c'.submission.get? id = some s' ∧ s'.status = s.status ∧ s'.Settled

section Effects

variable {c c' : Tables} {r : Request} {ws : List Write} {companyId memberId : Uuid} {weekStart : Date}

theorem versions_of_same {id} (h : c'.submission.get? id = c.submission.get? id) :
    c'.versions companyId memberId weekStart id = c.versions companyId memberId weekStart id := by
  unfold Tables.versions
  rw [h]

theorem versions_of_get? {id s} (h : c.submission.get? id = some s) : c.versions companyId memberId weekStart id =
      if s.companyId = companyId ∧ s.memberId = memberId ∧ s.weekStart = weekStart then
        some ⟨s.versionNumber, s.rootId, s.supersedesId, s.isCurrent⟩
      else none := by
  unfold Tables.versions
  rw [h]

theorem versions_eq_some {id v} (h : c.versions companyId memberId weekStart id = some v) :
    ∃ s, c.submission.get? id = some s ∧ s.companyId = companyId ∧ s.memberId = memberId ∧
      s.weekStart = weekStart ∧ v = ⟨s.versionNumber, s.rootId, s.supersedesId, s.isCurrent⟩ := by
  unfold Tables.versions at h
  split at h
  · rename_i s hs
    obtain ⟨⟨hco, hmb, hweek⟩, hv⟩ := Option.ite_none_right_eq_some.mp h
    exact ⟨s, hs, hco, hmb, hweek, (Option.some.inj hv).symm⟩
  · cases h

/-! The writes that are not of submissions. -/

theorem chained_of_same (h : c'.submission = c.submission) (hc : c.Chained) : c'.Chained := by
  intro companyId memberId weekStart
  have hsame : c'.versions companyId memberId weekStart = c.versions companyId memberId weekStart :=
    funext fun id => versions_of_same (by rw [h])
  rw [hsame]
  exact hc companyId memberId weekStart

theorem keepsSettled_of_same (h : c'.submission = c.submission) : KeepsSettled c c' := by
  intro id s hs hset
  exact ⟨s, (by rw [h]; exact hs), rfl, hset⟩

/-! A submission: the row before it is superseded, its own is new. -/

section Submitted

variable {i : SubmitInput} {id rootId : Uuid} {approver : Approver} {prev : Option (Uuid × Submission)}
  {drafts : List DraftEntry}

theorem get?_view_writes (hfree : c.submission.get? id = none) (id' : Uuid) :
    (schema.view (i.writes id rootId approver prev drafts) c).submission.get? id' =
      if id' = id then some (i.version rootId approver prev)
      else (schema.view (supersedes prev) c).submission.get? id' := by
  have hmarks : ∀ w ∈ drafts.flatMap (marks id), Lock.submission id' ∉ w.locks := by
    intro w hw hin
    simp only [marks, mem_flatMap, mem_cons, not_mem_nil, or_false] at hw
    obtain ⟨d, _, rfl | rfl⟩ := hw
    · simp [Write.locks] at hin
    · simp [Write.locks] at hin
  have hnone : (schema.view (supersedes prev) c).submission.get? id = none := by
    rw [← Option.isNone_iff_eq_none, ← Option.not_isSome, isSome_view_supersedes, hfree]
    rfl
  unfold SubmitInput.writes
  rw [Schema.view_append, show ∀ w ws t, schema.view (w :: ws) t = schema.view ws (t.apply w) from fun _ _ _ => rfl,
    get?_submission_view hmarks]
  refine (get?_insertMissing _ id').trans ?_
  rw [hnone]
  rfl

theorem get?_view_prev {r} (hrow : c.submission.get? r.1 = some r.2) :
    (schema.view (supersedes (some r)) c).submission.get? r.1 = some { r.2 with isCurrent := false } := by
  refine (get?_modify _ r.1).trans ?_
  rw [if_pos rfl, hrow]
  rfl

theorem prev_eq_last {root ids} (hprev : c.CurrentIs i prev)
    (hchain : Chain (c.versions i.companyId i.memberId i.weekStart) root ids) :
    prev.map Prod.fst = ids.getLast? := by
  cases hlast : ids.getLast? with
  | none =>
    cases prev with
    | none => rfl
    | some r =>
      obtain ⟨hrow, hcur⟩ := (hprev r.1 r.2).mpr rfl
      obtain ⟨hco, hmb, hweek, _⟩ := currentOf_eq_true.mp hcur
      have hmem := hchain.complete r.1 (by rw [versions_of_get? hrow, if_pos ⟨hco, hmb, hweek⟩]; rfl)
      rw [getLast?_eq_none_iff.mp hlast] at hmem
      cases hmem
  | some last =>
    obtain ⟨_, hver⟩ := hchain.version_last hlast
    obtain ⟨s, hs, hco, hmb, hweek, hv⟩ := versions_eq_some hver
    have hcur : s.isCurrent = true := (congrArg Version.current hv).symm
    rw [(hprev last s).mp ⟨hs, currentOf_eq_true.mpr ⟨hco, hmb, hweek, hcur⟩⟩]
    rfl

theorem version_eq (rootId : Uuid) (approver : Approver) {root ids} (hprev : c.CurrentIs i prev)
    (hchain : Chain (c.versions i.companyId i.memberId i.weekStart) root ids) :
    (i.version rootId approver prev).versionNumber = ids.length + 1 ∧
      (ids ≠ [] → (i.version rootId approver prev).rootId = root) := by
  have hlast := prev_eq_last hprev hchain
  cases prev with
  | none =>
    rw [getLast?_eq_none_iff.mp hlast.symm]
    exact ⟨rfl, fun h => absurd rfl h⟩
  | some r =>
    obtain ⟨_, hver⟩ := hchain.version_last hlast.symm
    obtain ⟨s, hs, _, _, _, hv⟩ := versions_eq_some hver
    cases hs.symm.trans ((hprev r.1 r.2).mpr rfl).1
    have hnum : ids.length = r.2.versionNumber := congrArg Version.number hv
    have hroot : root = r.2.rootId := congrArg Version.root hv
    exact ⟨by rw [hnum]; rfl, fun _ => hroot.symm⟩

theorem versions_supersedes_of_other (hprev : c.CurrentIs i prev)
    (hother : ¬ (i.companyId = companyId ∧ i.memberId = memberId ∧ i.weekStart = weekStart))
    (id' : Uuid) :
    (schema.view (supersedes prev) c).versions companyId memberId weekStart id' =
      c.versions companyId memberId weekStart id' := by
  by_cases hid : ∀ r, prev = some r → id' ≠ r.1
  · exact versions_of_same (get?_view_supersedes hid)
  push Not at hid
  obtain ⟨r, rfl, rfl⟩ := hid
  obtain ⟨hrow, hcur⟩ := (hprev r.1 r.2).mpr rfl
  obtain ⟨hco, hmb, hweek, _⟩ := currentOf_eq_true.mp hcur
  rw [versions_of_get? (get?_view_prev hrow), versions_of_get? hrow]
  simp only [hco, hmb, hweek, if_neg hother]

theorem versions_supersedes (hprev : c.CurrentIs i prev) (id' : Uuid) :
    (schema.view (supersedes prev) c).versions i.companyId i.memberId i.weekStart id' =
      (c.versions i.companyId i.memberId i.weekStart id').map fun v => { v with current := false } := by
  by_cases hid : ∀ r, prev = some r → id' ≠ r.1
  · rw [versions_of_same (get?_view_supersedes hid)]
    cases hv : c.versions i.companyId i.memberId i.weekStart id' with
    | none => rfl
    | some v =>
      obtain ⟨s, hs, hco, hmb, hweek, rfl⟩ := versions_eq_some hv
      have hret : s.isCurrent = false := by
        refine Bool.eq_false_iff.mpr fun hcur => ?_
        have hsome := (hprev id' s).mp ⟨hs, currentOf_eq_true.mpr ⟨hco, hmb, hweek, hcur⟩⟩
        exact hid _ hsome rfl
      rw [hret]
      rfl
  · push Not at hid
    obtain ⟨r, rfl, rfl⟩ := hid
    obtain ⟨hrow, hcur⟩ := (hprev r.1 r.2).mpr rfl
    obtain ⟨hco, hmb, hweek, _⟩ := currentOf_eq_true.mp hcur
    rw [versions_of_get? (get?_view_prev hrow), versions_of_get? hrow, if_pos ⟨hco, hmb, hweek⟩,
      if_pos ⟨hco, hmb, hweek⟩]
    rfl

theorem chained_submitted (hfree : c.submission.get? id = none) (hprev : c.CurrentIs i prev)
    (hc : c.Chained) : (schema.view (i.writes id rootId approver prev drafts) c).Chained := by
  intro companyId memberId weekStart
  obtain ⟨root, ids, hchain⟩ := hc companyId memberId weekStart
  have hnone : c.versions companyId memberId weekStart id = none := by
    unfold Tables.versions
    rw [hfree]
  have hnew : (schema.view (i.writes id rootId approver prev drafts) c).submission.get? id = _ :=
    (get?_view_writes hfree id).trans (if_pos rfl)
  have hold : ∀ id', id' ≠ id → (schema.view (i.writes id rootId approver prev drafts) c).submission.get? id' = _ :=
    fun id' hne => (get?_view_writes hfree id').trans (if_neg hne)
  by_cases hsame : i.companyId = companyId ∧ i.memberId = memberId ∧ i.weekStart = weekStart
  · obtain ⟨rfl, rfl, rfl⟩ := hsame
    obtain ⟨hnum, hroot⟩ := version_eq rootId approver hprev hchain
    refine ⟨_, ids ++ [id], hchain.extend hnone hroot ?_ fun id' hne => ?_⟩
    · rw [versions_of_get? hnew, if_pos ⟨rfl, rfl, rfl⟩, hnum, ← prev_eq_last hprev hchain]
      rfl
    · rw [versions_of_same (hold id' hne)]
      exact versions_supersedes hprev id'
  · have hver : (schema.view (i.writes id rootId approver prev drafts) c).versions companyId memberId weekStart =
        c.versions companyId memberId weekStart := by
      funext id'
      by_cases hid : id' = id
      · subst hid
        rw [versions_of_get? hnew, hnone]
        exact if_neg hsame
      · rw [versions_of_same (hold id' hid)]
        exact versions_supersedes_of_other hprev hsame id'
    rw [hver]
    exact ⟨root, ids, hchain⟩

theorem keepsSettled_submitted (hfree : c.submission.get? id = none) (hprev : c.CurrentIs i prev) :
    KeepsSettled c (schema.view (i.writes id rootId approver prev drafts) c) := by
  intro id' s hs hset
  have hne : id' ≠ id := by
    rintro rfl
    cases hs.symm.trans hfree
  rw [get?_view_writes hfree, if_neg hne]
  by_cases hid : ∀ r, prev = some r → id' ≠ r.1
  · exact ⟨s, (get?_view_supersedes hid).trans hs, rfl, hset⟩
  · push Not at hid
    obtain ⟨r, rfl, rfl⟩ := hid
    cases hs.symm.trans ((hprev r.1 r.2).mpr rfl).1
    exact ⟨_, get?_view_prev hs, rfl, .inr (.inr rfl)⟩

end Submitted

/-! A decision: one row gets its status. -/

section Decided

variable {actorKcSub reason : String} {submissionId : Uuid} {approve : Bool} {s : Submission} {ids : List Uuid}

theorem get?_view_decisionWrites (id : Uuid) :
    (schema.view (decisionWrites submissionId actorKcSub approve reason ids) c).submission.get? id =
      if id = submissionId then (c.submission.get? submissionId).map (·.decide actorKcSub approve reason)
      else c.submission.get? id := by
  have hsta : ∀ w ∈ ids.map fun id => Write.setEntryStatus id (decidedStatus approve),
      Lock.submission id ∉ w.locks := by
    intro w hw hin
    obtain ⟨_, _, rfl⟩ := mem_map.mp hw
    simp [Write.locks] at hin
  refine (get?_submission_view hsta).trans ?_
  exact get?_modify _ id

theorem chained_decided (hc : c.Chained) :
    (schema.view (decisionWrites submissionId actorKcSub approve reason ids) c).Chained := by
  intro companyId memberId weekStart
  have hver : (schema.view (decisionWrites submissionId actorKcSub approve reason ids) c).versions
      companyId memberId weekStart = c.versions companyId memberId weekStart := by
    funext id
    by_cases hid : id = submissionId
    · subst hid
      unfold Tables.versions
      rw [get?_view_decisionWrites, if_pos rfl]
      cases c.submission.get? id with
      | none | some s => rfl
    · exact versions_of_same ((get?_view_decisionWrites id).trans (if_neg hid))
  rw [hver]
  exact hc companyId memberId weekStart

theorem keepsSettled_decided (hrow : c.submission.get? submissionId = some s)
    (hcur : s.isCurrent = true) (hund : s.status = .submitted) :
    KeepsSettled c (schema.view (decisionWrites submissionId actorKcSub approve reason ids) c) := by
  intro id s' hs' hset
  have hne : id ≠ submissionId := by
    rintro rfl
    cases hs'.symm.trans hrow
    rcases hset with happ | hrej | hsup
    · cases happ.symm.trans hund
    · cases hrej.symm.trans hund
    · cases hsup.symm.trans hcur
  exact ⟨s', (get?_view_decisionWrites id).trans ((if_neg hne).trans hs'), rfl, hset⟩

end Decided

/-- Entries and submissions apart, a commit changes no submission. -/
theorem Effect.chained (h : Effect c r ws) (hc : c.Chained) : (schema.view ws c).Chained := by
  cases h with
  | replayed => exact hc
  | inserted | rewritten | deleted | others => exact chained_of_same rfl hc
  | submitted hfree hprev => exact chained_submitted hfree hprev hc
  | decided => exact chained_decided hc

theorem Effect.keepsSettled (h : Effect c r ws) : KeepsSettled c (schema.view ws c) := by
  cases h with
  | replayed | inserted | rewritten | deleted | others => exact keepsSettled_of_same rfl
  | submitted hfree hprev => exact keepsSettled_submitted hfree hprev
  | decided hrow hcur hund => exact keepsSettled_decided hrow hcur hund

end Effects

section Runs

variable {c₀ : Tables} {s s' : Machine}

theorem committed_chained (hstart : c₀.Chained)
    (hrun : Runs.Reach (step schema prog) (fun _ _ => True) (.start c₀) s) : s.committed.Chained := by
  induction hrun with
  | start => exact hstart
  | next hrun _ hstep ih =>
    obtain hsame | ⟨r, ws, heff, hcom⟩ := committed_cases locked_effect prog_wp hrun hstep
    · rw [hsame]
      exact ih
    · rw [hcom]
      exact heff.chained ih

theorem committed_keepsSettled (hrun : Runs.Reach (step schema prog) (fun _ _ => True) (.start c₀) s)
    (hlater : Runs.Reach (step schema prog) (fun _ _ => True) s s') :
    KeepsSettled s.committed s'.committed := by
  induction hlater with
  | start => exact keepsSettled_of_same rfl
  | next hlater _ hstep ih =>
    intro id v hv hset
    obtain ⟨v₁, hv₁, hst₁, hset₁⟩ := ih id v hv hset
    obtain hsame | ⟨r, ws, heff, hcom⟩ := committed_cases locked_effect prog_wp (hrun.trans hlater) hstep
    · rw [hsame]
      exact ⟨v₁, hv₁, hst₁, hset₁⟩
    · rw [hcom]
      obtain ⟨v₂, hv₂, hst₂, hset₂⟩ := heff.keepsSettled id v₁ hv₁ hset₁
      exact ⟨v₂, hv₂, hst₂.trans hst₁, hset₂⟩

/-- In every interleaving the versions of each week are one chain, and a settled version keeps its status. -/
theorem submissions_chained (hstart : c₀.Chained)
    (hrun : Runs.Reach (step schema prog) (fun _ _ => True) (.start c₀) s) :
    s.committed.Chained ∧ ∀ s', Runs.Reach (step schema prog) (fun _ _ => True) s s' →
      KeepsSettled s.committed s'.committed :=
  ⟨committed_chained hstart hrun, fun _ hlater => committed_keepsSettled hrun hlater⟩

end Runs

theorem chained_of_empty {c : Tables} (h : c.submission = .empty) : c.Chained := by
  intro companyId memberId weekStart
  refine ⟨"", [], chain_nil fun id => ?_⟩
  unfold Tables.versions
  rw [h]
  rfl

def resubmitted : List (Action Request) :=
  recorded ++ submittedOnce ++
    [.begin 4 (.decideSubmission "kc-noa" "acme" "s1" false "too few"), .exec 4, .exec 4, .exec 4, .exec 4, .commit 4,
      .begin 5 (recordHours "e5" 6), .exec 5, .exec 5, .exec 5, .exec 5, .exec 5, .commit 5,
      .begin 6 (submitHours "s2" "other"), .exec 6, .exec 6, .exec 6, .exec 6, .exec 6, .exec 6, .exec 6, .exec 6,
      .exec 6, .exec 6, .commit 6]

theorem submissions_chained_resubmitted : ∃ s, Runs.Reach (step schema prog) (fun _ _ => True) (.start studio) s ∧
      s.committed.versions "acme" "mia" monday "s2" = some ⟨2, "root", some "s1", true⟩ ∧
      s.committed.Chained ∧ ∀ s', Runs.Reach (step schema prog) (fun _ _ => True) s s' →
        KeepsSettled s.committed s'.committed := by
  have hrun : (resubmitted.foldlM (step schema prog) (.start studio)).map (fun s =>
      s.committed.versions "acme" "mia" monday "s2") = some (some ⟨2, "root", some "s1", true⟩) := by
    decide +kernel
  obtain ⟨s, hs, hver⟩ := Option.map_eq_some_iff.mp hrun
  have hreach := Runs.reach_of_run hs
  exact ⟨s, hreach, hver, submissions_chained (chained_of_empty rfl) hreach⟩

end Kiban.Timesheet
