import Kiban.Lib.Runs
import Kiban.Timesheet.Store

/-!
# What is approved was shown

A submission shows its approver the snapshot that was taken of the drafts, and the decision changes the status of all
submitted entries of the week.  The two are the same entries unless the submission superseded one that was still
undecided.
-/

namespace Kiban.Timesheet

open Fallible Keyed Runs List Keyed.Table Option

/-- The snapshot of the submission has the entry, with its project, date and hours. -/
def Tables.Shows (t : Tables) (submissionId : Uuid) (e : Entry) : Prop :=
  ∃ row ∈ t.submissionEntry, row.submissionId = submissionId ∧ row.projectId = e.projectId ∧
    row.entryDate = e.entryDate ∧ row.realHours = e.realHours ∧ row.billableHours = e.billableHours

def Submission.Covers (s : Submission) (e : Entry) : Prop :=
  s.companyId = e.companyId ∧ s.memberId = e.memberId ∧ s.weekStart = isoMonday e.entryDate

def Tables.ApprovedShown (t : Tables) : Prop :=
  ∀ id e, t.entry.get? id = some e → e.status = .approved →
    ∃ submissionId s, t.submission.get? submissionId = some s ∧ s.status = .approved ∧ s.Covers e ∧
      t.Shows submissionId e

/-- The submission superseded a version that nobody has decided on. -/
def Tables.SupersedesUndecided (t : Tables) (s : Submission) : Prop :=
  ∃ prevId prev, s.supersedesId = some prevId ∧ t.submission.get? prevId = some prev ∧
    prev.status = .submitted ∧ prev.isCurrent = false

/-! ## Histories -/

inductive Call where
  | upsertEntry (today : Date) (id : Uuid) (i : UpsertInput)
  | deleteEntry (companyId memberId entryId : Uuid)
  | submitWeek (id rootId : Uuid) (i : SubmitInput)
  | approveSubmission (actorKcSub : String) (companyId submissionId : Uuid)
  | rejectSubmission (actorKcSub : String) (companyId submissionId : Uuid) (reason : String)
  -- whatever the calls on configuration, projects and approvers make of their tables
  | others (configuration : Keyed.Table Uuid Config) (project : Keyed.Table Uuid Project)
      (approverAssignment : Keyed.Table (Uuid × Uuid) Approver)

/-- A call that fails is rolled back. -/
def Tables.after (t : Tables) : Except StoreError Tables → Tables
  | .ok t' => t'
  | .error _ => t

/-- The ids of new rows have not been used. -/
def Tables.step (t : Tables) : Call → Option Tables
  | .upsertEntry today id i =>
    if (t.entry.get? id).isSome then none else some (t.after ((t.upsertEntry today id i).map Prod.fst))
  | .deleteEntry companyId memberId entryId => some (t.after (t.deleteEntry companyId memberId entryId))
  | .submitWeek id rootId i =>
    if (t.submission.get? id).isSome then none
    else some (t.after ((t.handleSubmitWeek id rootId i).map Prod.fst))
  | .approveSubmission actorKcSub companyId submissionId =>
    some (t.after (t.approveSubmission actorKcSub companyId submissionId))
  | .rejectSubmission actorKcSub companyId submissionId reason =>
    some (t.after (t.rejectSubmission actorKcSub companyId submissionId reason))
  | .others configuration project approverAssignment =>
    some { t with configuration, project, approverAssignment }

def Tables.start : Tables := ⟨.empty, .empty, .empty, .empty, .empty, []⟩

/-- No approval of a version that superseded an undecided one. -/
def Tables.Decided (t : Tables) : Call → Prop
  | .approveSubmission _ _ submissionId =>
    ∀ s, t.submission.get? submissionId = some s → ¬ t.SupersedesUndecided s
  | _ => True

/-! ## The invariant -/

/-- A current and undecided version covers the entry, and shows it unless it superseded an undecided one. -/
def Tables.Awaits (t : Tables) (e : Entry) : Prop :=
  ∃ submissionId s, t.submission.get? submissionId = some s ∧ s.isCurrent = true ∧
    s.status = .submitted ∧ s.Covers e ∧ (t.Shows submissionId e ∨ t.SupersedesUndecided s)

structure Tracked (t : Tables) : Prop where
  monday : ∀ id s, t.submission.get? id = some s → isoMonday s.weekStart = s.weekStart
  single : ∀ companyId memberId weekStart id id' s s', t.submission.get? id = some s →
    t.submission.get? id' = some s' → s.currentOf companyId memberId weekStart = true →
      s'.currentOf companyId memberId weekStart = true → id = id'
  submitted : ∀ id e, t.entry.get? id = some e → e.status = .submitted → t.Awaits e
  approved : t.ApprovedShown

section Invariant

variable {t t' : Tables}
  {weekStart : Date} {id companyId memberId submissionId : Uuid} {i : SubmitInput} {s : Submission} {e : Entry}
  {approve : Bool}

theorem tracked_start : Tracked .start where
  monday _ _ h := nomatch h
  single _ _ _ _ _ _ _ h := nomatch h
  submitted _ _ h := nomatch h
  approved _ _ h := nomatch h

/-- Drafts come and go, and nothing else happens. -/
theorem tracked_drafts (hinv : Tracked t) (hsub : t'.submission = t.submission)
    (hshown : t'.submissionEntry = t.submissionEntry)
    (hentry : ∀ id e, t'.entry.get? id = some e → t.entry.get? id = some e ∨ e.status = .draft) :
    Tracked t' := by
  have hshows : ∀ submissionId e, t'.Shows submissionId e ↔ t.Shows submissionId e := by
    intro submissionId e
    rw [Tables.Shows, hshown, Tables.Shows]
  have hund : ∀ s, t'.SupersedesUndecided s ↔ t.SupersedesUndecided s := by
    intro s
    rw [Tables.SupersedesUndecided, hsub, Tables.SupersedesUndecided]
  constructor
  · rw [hsub]
    exact hinv.monday
  · rw [hsub]
    exact hinv.single
  · intro id e he hst
    rcases hentry id e he with hold | hdraft
    · simp only [Tables.Awaits, hsub, hshows, hund]
      exact hinv.submitted id e hold hst
    · cases hdraft.symm.trans hst
  · intro id e he hst
    rcases hentry id e he with hold | hdraft
    · simp only [hsub, hshows]
      exact hinv.approved id e hold hst
    · cases hdraft.symm.trans hst

theorem tracked_upsertEntry (hinv : Tracked t) {today i r}
    (h : t.upsertEntry today id i = .ok (t', r)) : Tracked t' := by
  unfold Tables.upsertEntry at h
  obtain ⟨_, _, h⟩ := bind_eq_ok.mp h
  obtain ⟨_, _, h⟩ := bind_eq_ok.mp h
  obtain ⟨_, _, h⟩ := bind_eq_ok.mp h
  dsimp only at h
  split at h
  · obtain ⟨_, h⟩ := ite_error_eq_ok.mp h
    cases h
    refine tracked_drafts hinv rfl rfl fun id' e he => ?_
    replace he := (get?_modify _ id').symm.trans he
    split at he
    · obtain ⟨_, _, rfl⟩ := map_eq_some_iff.mp he
      exact .inr rfl
    · exact .inl he
  · cases h
    refine tracked_drafts hinv rfl rfl fun id' e he => ?_
    replace he := (get?_insertMissing _ id').symm.trans he
    split at he
    · rename_i heq
      cases hid : t.entry.get? id with
      | none =>
        rw [hid] at he
        cases he
        exact .inr rfl
      | some old =>
        rw [hid] at he
        exact .inl (heq ▸ hid.trans he)
    · exact .inl he

theorem tracked_deleteEntry (hinv : Tracked t) {entryId}
    (h : t.deleteEntry companyId memberId entryId = .ok t') : Tracked t' := by
  unfold Tables.deleteEntry at h
  split at h
  · split at h
    · cases h
    split at h
    · cases h
    · cases h
      refine tracked_drafts hinv rfl rfl fun id e he => .inl ?_
      have herase := (get?_erase id).symm.trans he
      exact (ite_none_left_eq_some.mp herase).2
  · cases h

/-! ## Submitting a week -/

theorem mem_drafts {d} (h : d ∈ t.drafts companyId memberId weekStart) :
    t.entry.get? d.id = some d.entry ∧ d.entry.inWeek companyId memberId weekStart = true ∧
      d.entry.status = .draft := by
  obtain ⟨r, hr, hd⟩ := mem_filterMap.mp h
  obtain ⟨hdraft, hd⟩ := ite_none_right_eq_some.mp hd
  obtain ⟨p, _, rfl⟩ := map_eq_some_iff.mp hd
  exact ⟨get?_eq_some_iff.mpr hr, hdraft⟩

/-- What the loop over the drafts has done when it is through. -/
theorem foldl_submitDraft (id : Uuid) (drafts : List DraftEntry) (t : Tables) :
    (drafts.foldl (Tables.submitDraft id) t).submission = t.submission ∧
    (drafts.foldl (Tables.submitDraft id) t).submissionEntry =
      t.submissionEntry ++ drafts.map (DraftEntry.snapshot · id) ∧
    ∀ id', (drafts.foldl (Tables.submitDraft id) t).entry.get? id' = (t.entry.get? id').map fun e =>
        if ∃ d ∈ drafts, d.id = id' then { e with status := .submitted } else e := by
  induction drafts generalizing t with
  | nil =>
    refine ⟨rfl, (append_nil _).symm, fun id' => ?_⟩
    simp
  | cons d drafts ih =>
    obtain ⟨hsub, hshown, hentry⟩ := ih (t.submitDraft id d)
    rw [foldl_cons]
    refine ⟨hsub, ?_, fun id' => ?_⟩
    · rw [hshown, Tables.submitDraft, append_assoc]
      rfl
    rw [hentry, Tables.submitDraft, get?_modify]
    by_cases hid : id' = d.id
    · subst hid
      cases t.entry.get? d.id with
      | none => simp
      | some e => simp
    · have hne : ¬ d.id = id' := fun h => hid h.symm
      simp [hid, hne]

def SubmitInput.supersede (i : SubmitInput) (s : Submission) : Submission :=
  if s.currentOf i.companyId i.memberId i.weekStart then { s with isCurrent := false } else s

theorem get?_newVersion (hinv : Tracked t) (rootId : Uuid) (approver : Approver) (i : SubmitInput) (id : Uuid) :
    (t.newVersion rootId approver i).2.submission.get? id = (t.submission.get? id).map i.supersede := by
  unfold Tables.newVersion
  dsimp only
  split
  · rename_i prevId prev hprev
    have hmem : t.submission.get? prevId = some prev :=
      get?_eq_some_iff.mpr (mem_of_find?_eq_some hprev)
    have hcur := find?_some hprev
    rw [get?_modify_of_some hmem]
    by_cases hid : id = prevId
    · rw [if_pos hid, hid, hmem, map_some, SubmitInput.supersede, if_pos hcur]
    -- no other version of the week is current
    rw [if_neg hid]
    cases hs : t.submission.get? id with
    | none => rfl
    | some s =>
      have hnot : ¬ s.currentOf i.companyId i.memberId i.weekStart = true := fun hs' =>
        hid (hinv.single _ _ _ id prevId s prev hs hmem hs' hcur)
      rw [map_some, SubmitInput.supersede, if_neg hnot]
  · rename_i hprev
    cases hs : t.submission.get? id with
    | none => rfl
    | some s =>
      have hnot := find?_eq_none.mp hprev (id, s) (get?_eq_some_iff.mp hs)
      rw [map_some, SubmitInput.supersede, if_neg hnot]

theorem newVersion_eq (t : Tables) (rootId : Uuid) (approver : Approver) (i : SubmitInput) :
    (t.newVersion rootId approver i).2.entry = t.entry ∧
    (t.newVersion rootId approver i).2.submissionEntry = t.submissionEntry ∧
    (t.newVersion rootId approver i).1.supersedesId =
      (t.submission.rows.find? fun r => r.2.currentOf i.companyId i.memberId i.weekStart).map Prod.fst ∧
    (t.newVersion rootId approver i).1.currentOf i.companyId i.memberId i.weekStart = true ∧
    (t.newVersion rootId approver i).1.status = .submitted := by
  unfold Tables.newVersion
  dsimp only
  split
  · rename_i hprev
    refine ⟨rfl, rfl, ?_, decide_eq_true ⟨rfl, rfl, rfl, rfl⟩, rfl⟩
    rw [hprev]
  · rename_i hprev
    refine ⟨rfl, rfl, ?_, decide_eq_true ⟨rfl, rfl, rfl, rfl⟩, rfl⟩
    rw [hprev]

theorem supersede_eq (i : SubmitInput) (s : Submission) :
    i.supersede s = { s with isCurrent := (i.supersede s).isCurrent } := by
  unfold SubmitInput.supersede
  split
  · rfl
  · rfl

theorem currentOf_supersede : (i.supersede s).currentOf companyId memberId weekStart = true ↔
      s.currentOf companyId memberId weekStart = true ∧
        ¬ s.currentOf i.companyId i.memberId i.weekStart = true := by
  unfold SubmitInput.supersede
  by_cases hcur : s.currentOf i.companyId i.memberId i.weekStart = true
  · rw [if_pos hcur]
    exact ⟨fun h => absurd (of_decide_eq_true h).2.2.2 Bool.false_ne_true, fun h => absurd hcur h.2⟩
  · rw [if_neg hcur]
    exact ⟨fun h => ⟨h, hcur⟩, fun h => h.1⟩

theorem supersede_of_not_current (h : s.isCurrent = false) : i.supersede s = s := by
  refine if_neg fun hcur => ?_
  exact nomatch h.symm.trans (of_decide_eq_true hcur).2.2.2

theorem covers_of_inWeek
    (hweek : e.inWeek companyId memberId weekStart = true) (hmon : isoMonday weekStart = weekStart)
    (hs : s.currentOf companyId memberId weekStart = true) : s.Covers e := by
  obtain ⟨hco, hmb, hfrom, huntil⟩ := of_decide_eq_true hweek
  obtain ⟨hco', hmb', hstart, _⟩ := of_decide_eq_true hs
  refine ⟨hco'.trans hco.symm, hmb'.trans hmb.symm, ?_⟩
  rw [hstart, isoMonday_eq hmon hfrom huntil]

theorem shows_append {rows} (hshown : t'.submissionEntry = t.submissionEntry ++ rows)
    (h : t.Shows submissionId e) : t'.Shows submissionId e := by
  obtain ⟨row, hrow, heq⟩ := h
  refine ⟨row, ?_, heq⟩
  rw [hshown]
  exact mem_append_left rows hrow

/-- A new version of a week: the drafts become its snapshot, the version before it is superseded. -/
structure Submitted (t t' : Tables) (id : Uuid) (i : SubmitInput) (sub : Submission) : Prop where
  version : sub.currentOf i.companyId i.memberId i.weekStart = true ∧ sub.status = .submitted
  supersedes : sub.supersedesId =
    (t.submission.rows.find? fun r => r.2.currentOf i.companyId i.memberId i.weekStart).map Prod.fst
  submission : ∀ id', t'.submission.get? id' =
    if id' = id then some sub else (t.submission.get? id').map i.supersede
  shown : t'.submissionEntry =
    t.submissionEntry ++ (t.drafts i.companyId i.memberId i.weekStart).map (DraftEntry.snapshot · id)
  entry : ∀ id', t'.entry.get? id' = (t.entry.get? id').map fun e =>
    if ∃ d ∈ t.drafts i.companyId i.memberId i.weekStart, d.id = id' then { e with status := .submitted } else e

theorem submitWeek_ok (hinv : Tracked t) {rootId} (hid : t.submission.get? id = none) {r}
    (h : t.submitWeek id rootId i = .ok (t', r)) : t' = t ∨ ∃ sub, Submitted t t' id i sub := by
  unfold Tables.submitWeek at h
  split at h
  · obtain ⟨_, h⟩ := ite_error_eq_ok.mp h
    cases h
    exact .inl rfl
  split at h
  · cases h
  rename_i approver _
  obtain ⟨_, h⟩ := ite_error_eq_ok.mp h
  obtain ⟨hentry, hshown, hsup, hver⟩ := newVersion_eq t rootId approver i
  have hget := get?_newVersion hinv rootId approver i
  generalize t.newVersion rootId approver i = version at h hentry hshown hsup hver hget
  cases h
  obtain ⟨hsub, hshown', hentry'⟩ := foldl_submitDraft id (t.drafts i.companyId i.memberId i.weekStart)
    { version.2 with submission := version.2.submission.insertMissing id version.1 }
  refine .inr ⟨version.1, hver, hsup, fun id' => ?_, ?_, fun id' => ?_⟩
  · have hnone : version.2.submission.get? id = none := by
      rw [hget, hid]
      rfl
    rw [hsub, get?_insertMissing_of_none hnone, hget]
  · rw [hshown', hshown]
  · rw [hentry', hentry]

theorem find?_current (hinv : Tracked t)
    (hs : t.submission.get? id = some s) (hcur : s.currentOf companyId memberId weekStart = true) :
    (t.submission.rows.find? fun r => r.2.currentOf companyId memberId weekStart).map Prod.fst = some id := by
  cases hfind : t.submission.rows.find? fun r => r.2.currentOf companyId memberId weekStart with
  | none => exact absurd hcur (find?_eq_none.mp hfind (id, s) (get?_eq_some_iff.mp hs))
  | some r =>
    have hr := get?_eq_some_iff.mpr (mem_of_find?_eq_some hfind)
    have hrc := find?_some hfind
    have hid := hinv.single _ _ _ r.1 id r.2 s hr hs hrc hcur
    rw [map_some, hid]

theorem currentOf_of_covers (hcov : s.Covers e) (hcur : s.isCurrent = true) :
    s.currentOf e.companyId e.memberId (isoMonday e.entryDate) = true :=
  decide_eq_true ⟨hcov.1, hcov.2.1, hcov.2.2, hcur⟩

section Submitted

variable {sub : Submission} {id' : Uuid} (h : Submitted t t' id i sub)

include h

theorem Submitted.get?_new : t'.submission.get? id = some sub := (h.submission id).trans (if_pos rfl)

/-- The versions there were, as they are now. -/
theorem Submitted.get?_old (hid : t.submission.get? id = none) (hs : t.submission.get? id' = some s) :
    t'.submission.get? id' = some (i.supersede s) := by
  have hne : id' ≠ id := by
    rintro rfl
    cases hid.symm.trans hs
  rw [h.submission, if_neg hne, hs]
  rfl

theorem Submitted.new_or_old {s'} (hs' : t'.submission.get? id' = some s') :
    (id' = id ∧ s' = sub) ∨ ∃ s, t.submission.get? id' = some s ∧ s' = i.supersede s := by
  rw [h.submission] at hs'
  split at hs'
  · rename_i heq
    exact .inl ⟨heq, (Option.some.inj hs').symm⟩
  · obtain ⟨s, hs, heq⟩ := map_eq_some_iff.mp hs'
    exact .inr ⟨s, hs, heq.symm⟩

theorem Submitted.not_currentOf_old (hsub : sub.currentOf companyId memberId weekStart = true) :
    ¬ (i.supersede s).currentOf companyId memberId weekStart = true := by
  intro hs
  obtain ⟨hco, hmb, hweek, _⟩ := of_decide_eq_true h.version.1
  obtain ⟨rfl, rfl, rfl, _⟩ := of_decide_eq_true hsub
  rw [hco, hmb, hweek] at hs
  exact (currentOf_supersede.mp hs).2 (currentOf_supersede.mp hs).1

theorem Submitted.single (hinv : Tracked t) {id₁ id₂ s₁ s₂} (hs₁ : t'.submission.get? id₁ = some s₁)
    (hs₂ : t'.submission.get? id₂ = some s₂) (hcur₁ : s₁.currentOf companyId memberId weekStart = true)
    (hcur₂ : s₂.currentOf companyId memberId weekStart = true) : id₁ = id₂ := by
  rcases h.new_or_old hs₁ with ⟨rfl, rfl⟩ | ⟨r₁, hr₁, rfl⟩
  · rcases h.new_or_old hs₂ with ⟨rfl, rfl⟩ | ⟨r₂, hr₂, rfl⟩
    · rfl
    · exact absurd hcur₂ (h.not_currentOf_old hcur₁)
  · rcases h.new_or_old hs₂ with ⟨rfl, rfl⟩ | ⟨r₂, hr₂, rfl⟩
    · exact absurd hcur₁ (h.not_currentOf_old hcur₂)
    · exact hinv.single companyId memberId weekStart id₁ id₂ r₁ r₂ hr₁ hr₂ (currentOf_supersede.mp hcur₁).1
        (currentOf_supersede.mp hcur₂).1

theorem Submitted.awaits_draft (hmon : isoMonday i.weekStart = i.weekStart) {d}
    (hd : d ∈ t.drafts i.companyId i.memberId i.weekStart) : t'.Awaits { d.entry with status := .submitted } := by
  obtain ⟨_, hweek, _⟩ := mem_drafts hd
  obtain ⟨_, _, _, hcur⟩ := of_decide_eq_true h.version.1
  refine ⟨id, sub, h.get?_new, hcur, h.version.2, covers_of_inWeek hweek hmon h.version.1, .inl ?_⟩
  refine ⟨d.snapshot id, ?_, rfl, rfl, rfl, rfl, rfl⟩
  rw [h.shown]
  exact mem_append_right _ (mem_map_of_mem (f := (DraftEntry.snapshot · id)) hd)

theorem Submitted.awaits_old (hinv : Tracked t) (hid : t.submission.get? id = none) (he : t.Awaits e) :
    t'.Awaits e := by
  obtain ⟨submissionId, s, hs, hcur, hst, hcov, hwhere⟩ := he
  have hs' := h.get?_old hid hs
  by_cases hthis : s.currentOf i.companyId i.memberId i.weekStart = true
  · -- its version is the one superseded, and undecided
    obtain ⟨hco, hmb, hweek, hcurr⟩ := of_decide_eq_true h.version.1
    obtain ⟨hsc, hsm, hsw, _⟩ := of_decide_eq_true hthis
    have hcov' : sub.Covers e := by
      refine ⟨?_, ?_, ?_⟩
      · rw [hco, ← hsc, hcov.1]
      · rw [hmb, ← hsm, hcov.2.1]
      · rw [hweek, ← hsw, hcov.2.2]
    refine ⟨id, sub, h.get?_new, hcurr, h.version.2, hcov', .inr ⟨submissionId, i.supersede s, ?_, hs', ?_, ?_⟩⟩
    · rw [h.supersedes]
      exact find?_current hinv hs hthis
    · rw [supersede_eq]
      exact hst
    · rw [SubmitInput.supersede, if_pos hthis]
  · have hkept : i.supersede s = s := if_neg hthis
    refine ⟨submissionId, s, hkept ▸ hs', hcur, hst, hcov, ?_⟩
    rcases hwhere with hshows | ⟨prevId, prev, hprev, hget, hpre, hnot⟩
    · exact .inl (shows_append h.shown hshows)
    · refine .inr ⟨prevId, prev, hprev, ?_, hpre, hnot⟩
      rw [h.get?_old hid hget, supersede_of_not_current hnot]

theorem tracked_submitted (hinv : Tracked t) (hid : t.submission.get? id = none)
    (hmon : isoMonday i.weekStart = i.weekStart) : Tracked t' := by
  constructor
  · intro id' s' hs'
    rcases h.new_or_old hs' with ⟨_, rfl⟩ | ⟨s, hs, rfl⟩
    · obtain ⟨_, _, hweek, _⟩ := of_decide_eq_true h.version.1
      rw [hweek]
      exact hmon
    · rw [supersede_eq]
      exact hinv.monday id' s hs
  · intro companyId memberId weekStart id₁ id₂ s₁ s₂ hs₁ hs₂
    exact h.single hinv hs₁ hs₂
  · intro id' e' he' hsta
    obtain ⟨e, he, heq⟩ := map_eq_some_iff.mp ((h.entry id').symm.trans he')
    split at heq
    · rename_i hdra
      obtain ⟨d, hd, rfl⟩ := hdra
      rw [Option.some.inj (he.symm.trans (mem_drafts hd).1)] at heq
      exact heq ▸ h.awaits_draft hmon hd
    · subst heq
      exact h.awaits_old hinv hid (hinv.submitted id' e he hsta)
  · intro id' e' he' hsta
    obtain ⟨e, he, heq⟩ := map_eq_some_iff.mp ((h.entry id').symm.trans he')
    split at heq
    · subst heq
      cases hsta
    subst heq
    obtain ⟨submissionId, s, hs, hst, hcov, hshows⟩ := hinv.approved id' e he hsta
    refine ⟨submissionId, i.supersede s, h.get?_old hid hs, ?_, ?_, shows_append h.shown hshows⟩
    · rw [supersede_eq]
      exact hst
    · rw [supersede_eq]
      exact hcov

end Submitted

/-! ## Deciding -/

/-- The submission is decided, and with it the submitted entries of its week. -/
structure Decision (t t' : Tables) (submissionId : Uuid) (approve : Bool) (s s' : Submission) : Prop where
  found : t.submission.get? submissionId = some s
  current : s.isCurrent = true
  undecided : s.status = .submitted
  outcome : s' = { s with status := s'.status, decidedByKcSub := s'.decidedByKcSub,
                          rejectReason := s'.rejectReason } ∧
    s'.status = if approve then .approved else .rejected
  submission : ∀ id, t'.submission.get? id = if id = submissionId then some s' else t.submission.get? id
  shown : t'.submissionEntry = t.submissionEntry
  entry : ∀ id, t'.entry.get? id = (t.entry.get? id).map (s.settle approve)

theorem decideSubmission_ok {actorKcSub reason}
    (h : t.decideSubmission actorKcSub companyId submissionId approve reason = .ok t') :
    ∃ s s', Decision t t' submissionId approve s s' := by
  unfold Tables.decideSubmission at h
  split at h
  · cases h
  rename_i s hs
  obtain ⟨_, h⟩ := ite_error_eq_ok.mp h
  obtain ⟨_, h⟩ := ite_error_eq_ok.mp h
  obtain ⟨hcur, h⟩ := ite_error_eq_ok.mp h
  obtain ⟨hst, h⟩ := ite_error_eq_ok.mp h
  obtain ⟨_, h⟩ := ite_error_eq_ok.mp h
  cases h
  refine ⟨s, s.decide actorKcSub approve reason, hs, not_not.mp hcur, not_not.mp hst, ⟨rfl, rfl⟩, ?_, rfl, ?_⟩
  · exact get?_modify_of_some hs _
  · exact get?_mapRows _

theorem inWeek_of_covers (h : s.Covers e) : e.inWeek s.companyId s.memberId s.weekStart = true := by
  have hdays := isoMonday_le e.entryDate
  rw [← h.2.2] at hdays
  exact decide_eq_true ⟨h.1.symm, h.2.1.symm, hdays⟩

section Decision

variable {s' r : Submission} (h : Decision t t' submissionId approve s s')

include h

theorem Decision.shows (he : t.Shows id e) : t'.Shows id e :=
  shows_append (h.shown.trans (append_nil _).symm) he

/-- A version other than the decided one is as it was. -/
theorem Decision.get?_other (hr : t.submission.get? id = some r) (hrs : r ≠ s) : t'.submission.get? id = some r := by
  have hne : id ≠ submissionId := by
    rintro rfl
    exact hrs (Option.some.inj (hr.symm.trans h.found))
  rw [h.submission, if_neg hne, hr]

theorem Decision.exists_before {r'} (hr' : t'.submission.get? id = some r') : ∃ r, t.submission.get? id = some r ∧
    r'.weekStart = r.weekStart ∧ ∀ companyId memberId weekStart,
      r'.currentOf companyId memberId weekStart = r.currentOf companyId memberId weekStart := by
  rw [h.submission] at hr'
  split at hr'
  · rename_i heq
    cases hr'
    rw [heq, h.outcome.1]
    exact ⟨s, h.found, rfl, fun _ _ _ => rfl⟩
  · exact ⟨r', hr', rfl, fun _ _ _ => rfl⟩

/-- An entry that awaits its decision in another week goes on to do so. -/
theorem Decision.awaits (hwait : t.Awaits e) (hout : ¬ e.inWeek s.companyId s.memberId s.weekStart = true) :
    t'.Awaits e := by
  obtain ⟨sid, r, hr, hcur, hst, hcov, hwhere⟩ := hwait
  have hrs : r ≠ s := by
    rintro rfl
    exact hout (inWeek_of_covers hcov)
  refine ⟨sid, r, h.get?_other hr hrs, hcur, hst, hcov, ?_⟩
  rcases hwhere with hshown | ⟨prevId, prev, hprev, hget, hpre, hnot⟩
  · exact .inl (h.shows hshown)
  · refine .inr ⟨prevId, prev, hprev, h.get?_other hget ?_, hpre, hnot⟩
    rintro rfl
    cases hnot.symm.trans h.current

/-- The version of an entry that is decided is the one decided, and shows the entry. -/
theorem Decision.covers_shows (hinv : Tracked t) (hwait : t.Awaits e)
    (hin : e.inWeek s.companyId s.memberId s.weekStart = true) (hund : ¬ t.SupersedesUndecided s) :
    s.Covers e ∧ t.Shows submissionId e := by
  obtain ⟨sid, r, hr, hcur, hst, hcov, hwhere⟩ := hwait
  have hs := covers_of_inWeek hin (hinv.monday submissionId s h.found) (decide_eq_true ⟨rfl, rfl, rfl, h.current⟩)
  have hsid : sid = submissionId := hinv.single _ _ _ sid submissionId r s hr h.found
    (currentOf_of_covers hcov hcur) (currentOf_of_covers hs h.current)
  subst hsid
  rw [Option.some.inj (hr.symm.trans h.found)] at hwhere
  exact ⟨hs, hwhere.resolve_right hund⟩

theorem tracked_decision (hinv : Tracked t) (hdec : approve = true → ¬ t.SupersedesUndecided s) : Tracked t' := by
  constructor
  · intro id r' hr'
    obtain ⟨r, hr, hweek, _⟩ := h.exists_before hr'
    rw [hweek]
    exact hinv.monday id r hr
  · intro companyId memberId weekStart id₁ id₂ s₁ s₂ hs₁ hs₂ hcur₁ hcur₂
    obtain ⟨r₁, hr₁, _, hc₁⟩ := h.exists_before hs₁
    obtain ⟨r₂, hr₂, _, hc₂⟩ := h.exists_before hs₂
    rw [hc₁] at hcur₁
    rw [hc₂] at hcur₂
    exact hinv.single companyId memberId weekStart id₁ id₂ r₁ r₂ hr₁ hr₂ hcur₁ hcur₂
  · intro id e' he' hsta
    obtain ⟨e, he, heq⟩ := map_eq_some_iff.mp ((h.entry id).symm.trans he')
    unfold Submission.settle at heq
    split at heq
    · subst heq
      cases approve <;> cases hsta
    · rename_i hout
      subst heq
      exact h.awaits (hinv.submitted id e he hsta) fun hweek => hout ⟨hweek, hsta⟩
  · intro id e' he' hsta
    obtain ⟨e, he, heq⟩ := map_eq_some_iff.mp ((h.entry id).symm.trans he')
    unfold Submission.settle at heq
    split at heq
    · rename_i hin
      subst heq
      cases approve with
      | false => cases hsta
      | true =>
        obtain ⟨hcov, hshows⟩ :=
          h.covers_shows hinv (hinv.submitted id e he hin.2) hin.1 (hdec rfl)
        refine ⟨submissionId, s', (h.submission submissionId).trans (if_pos rfl), h.outcome.2, ?_, h.shows hshows⟩
        rw [h.outcome.1]
        exact hcov
    · subst heq
      obtain ⟨sid, r, hr, hst, hcov, hshown⟩ := hinv.approved id e he hsta
      refine ⟨sid, r, h.get?_other hr ?_, hst, hcov, h.shows hshown⟩
      rintro rfl
      cases h.undecided.symm.trans hst

end Decision

/-! ## Runs -/

theorem tracked_after (hinv : Tracked t) {r} (h : ∀ t', r = .ok t' → Tracked t') : Tracked (t.after r) := by
  cases r with
  | ok t' => exact h t' rfl
  | error e => exact hinv

theorem tracked_step (hinv : Tracked t) (c : Call) (hdec : t.Decided c)
    (hstep : t.step c = some t') : Tracked t' := by
  cases c with
  | upsertEntry today id i =>
    obtain ⟨_, hstep⟩ := ite_none_left_eq_some.mp hstep
    cases hstep
    refine tracked_after hinv fun t' h => ?_
    obtain ⟨⟨t₁, r⟩, hok, rfl⟩ := map_eq_ok.mp h
    exact tracked_upsertEntry hinv hok
  | deleteEntry companyId memberId entryId =>
    cases hstep
    exact tracked_after hinv fun t' h => tracked_deleteEntry hinv h
  | submitWeek id rootId i =>
    obtain ⟨hid, hstep⟩ := ite_none_left_eq_some.mp hstep
    cases hstep
    have hfree : t.submission.get? id = none := by simpa using hid
    refine tracked_after hinv fun t' h => ?_
    obtain ⟨⟨t₁, r⟩, hok, rfl⟩ := map_eq_ok.mp h
    unfold Tables.handleSubmitWeek at hok
    obtain ⟨hmon, hok⟩ := ite_error_eq_ok.mp hok
    obtain ⟨_, hok⟩ := ite_error_eq_ok.mp hok
    rcases submitWeek_ok hinv hfree hok with rfl | ⟨sub, hsub⟩
    · exact hinv
    · exact tracked_submitted hsub hinv hfree (not_not.mp hmon).symm
  | approveSubmission actorKcSub companyId submissionId =>
    cases hstep
    refine tracked_after hinv fun t' h => ?_
    obtain ⟨s, s', hdeci⟩ := decideSubmission_ok h
    exact tracked_decision hdeci hinv fun _ => hdec s hdeci.found
  | rejectSubmission actorKcSub companyId submissionId reason =>
    cases hstep
    refine tracked_after hinv fun t' h => ?_
    obtain ⟨s, s', hdeci⟩ := decideSubmission_ok h
    exact tracked_decision hdeci hinv fun happ => Bool.noConfusion happ
  | others configuration project approverAssignment =>
    cases hstep
    exact tracked_drafts hinv rfl rfl fun _ _ he => .inl he

end Invariant

theorem approvedShown_of_decided (t : Tables) (hrun : Reach Tables.step Tables.Decided .start t) :
    t.ApprovedShown :=
  (hrun.invariant tracked_start fun _ _ c hinv hdec hstep => tracked_step hinv c hdec hstep).approved

instance (t : Tables) (s : Submission) : Decidable (t.SupersedesUndecided s) :=
  decidable_of_iff (∃ prev ∈ s.supersedesId.bind t.submission.get?,
      prev.status = .submitted ∧ prev.isCurrent = false) <| by
    constructor
    · rintro ⟨prev, hprev, hopen⟩
      obtain ⟨prevId, hid, hget⟩ := bind_eq_some_iff.mp hprev
      exact ⟨prevId, prev, hid, hget, hopen⟩
    · rintro ⟨prevId, prev, hid, hget, hopen⟩
      exact ⟨prev, bind_eq_some_iff.mpr ⟨prevId, hid, hget⟩, hopen⟩

instance (t : Tables) : (c : Call) → Decidable (t.Decided c)
  | .approveSubmission _ _ submissionId =>
    inferInstanceAs (Decidable (∀ s ∈ t.submission.get? submissionId, ¬ t.SupersedesUndecided s))
  | .upsertEntry .. | .deleteEntry .. | .submitWeek .. | .rejectSubmission .. | .others .. =>
    inferInstanceAs (Decidable True)

/-! ## A week in two submissions -/

def office : Call :=
  .others .empty
    ((Keyed.Table.empty.insertMissing "build" ⟨"acme", "BUILD", "Build", "active"⟩).insertMissing "test"
      ⟨"acme", "TEST", "Test", "active"⟩)
    (Keyed.Table.empty.insertMissing ("acme", "mia") ⟨"noa", "kc-noa"⟩)

def record (id projectId : Uuid) (hours : ℚ) : Call :=
  .upsertEntry 4 id ⟨"acme", "mia", projectId, 4, hours, hours⟩

def submit (id : Uuid) : Call := .submitWeek id id ⟨"kc-mia", "acme", "mia", 4, ""⟩

/-- Rejected, corrected, submitted again and approved. -/
def correctedWeek : List Call :=
  [office, record "a" "build" 8, submit "v1", .rejectSubmission "kc-noa" "acme" "v1" "too much",
    record "c" "build" 7, record "b" "test" 1, submit "v2", .approveSubmission "kc-noa" "acme" "v2"]

theorem approvedShown_correctedWeek : ∃ t e, Reach Tables.step Tables.Decided .start t ∧
    t.entry.get? "a" = some e ∧ e.status = .approved ∧ e.realHours = 700 ∧ t.ApprovedShown := by
  have hrun : ((correctedWeek.foldlM (fun t c => if decide (t.Decided c) then t.step c else none)
      Tables.start).bind fun t => t.entry.get? "a") =
        some ⟨"acme", "mia", "build", 4, 700, 700, .approved⟩ := by decide +kernel
  obtain ⟨t, ht, hentry⟩ := bind_eq_some_iff.mp hrun
  have hreach : Reach Tables.step Tables.Decided .start t :=
    reach_of_checked (fun t c => decide (t.Decided c)) (fun _ _ => of_decide_eq_true) correctedWeek ht
  exact ⟨t, _, hreach, hentry, rfl, rfl, approvedShown_of_decided t hreach⟩

/-- The second submission is made while the first is undecided, and approved. -/
def splitWeek : List Call :=
  [office, record "a" "build" 8, submit "v1", record "b" "test" 1, submit "v2",
    .approveSubmission "kc-noa" "acme" "v2"]

theorem splitWeek_notShown : ∃ t, splitWeek.foldlM Tables.step .start = some t ∧ ¬ t.ApprovedShown := by
  have hrun : (splitWeek.foldlM Tables.step .start).map (fun t =>
      (t.entry.get? "a", (t.submission.get? "v1").map Submission.status,
        t.submissionEntry.map fun row => (row.projectId, row.submissionId))) =
      some (some ⟨"acme", "mia", "build", 4, 800, 800, .approved⟩, some .submitted,
        [("build", "v1"), ("test", "v2")]) := by decide +kernel
  obtain ⟨t, ht, hobs⟩ := map_eq_some_iff.mp hrun
  obtain ⟨hentry, hobs⟩ := Prod.mk.inj hobs
  obtain ⟨hv1, hshown⟩ := Prod.mk.inj hobs
  refine ⟨t, ht, fun happ => ?_⟩
  obtain ⟨sid, s, hs, hst, _, row, hrow, hsid, hpro, _⟩ := happ "a" _ hentry rfl
  -- the only snapshot with the project is that of the first submission
  have hpair : (row.projectId, row.submissionId) ∈ [("build", "v1"), ("test", "v2")] :=
    hshown ▸ mem_map_of_mem (f := fun row : SubmissionEntry => (row.projectId, row.submissionId)) hrow
  rw [hpro, hsid] at hpair
  have hsv1 : sid = "v1" := by simpa using hpair
  rw [hsv1] at hs
  rw [hs, map_some, hst] at hv1
  cases hv1

end Kiban.Timesheet
