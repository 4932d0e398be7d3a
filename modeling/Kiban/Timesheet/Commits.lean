import Kiban.Lib.LockedWrites
import Kiban.Timesheet.Statements

/-!
# What a commit does

A transaction holds the locks of the rows it writes, so what it found when it locked them still holds when
it commits.  `Effect` says for each call what its writes are and how they fit the rows committed at that
moment; every commit of every interleaving has it.
-/

namespace Kiban.Timesheet

open Transactions LockedWrites Fallible List Keyed.Table

/-! ## What locks protect -/

variable {c : Tables} {id : Uuid} {ws : List Write}

/-- The row is in the index on the current version, for that week. -/
def Tables.currentAt (t : Tables) (companyId memberId : Uuid) (weekStart : Date) (id : Uuid) : Bool :=
  (t.submission.get? id).any fun s => s.currentOf companyId memberId weekStart

def SameAt (c c' : Tables) : Lock → Prop
  | .entry id => c'.entry.get? id = c.entry.get? id
  | .submission id => c'.submission.get? id = c.submission.get? id
  | .current companyId memberId weekStart =>
    ∀ id, c'.currentAt companyId memberId weekStart id = c.currentAt companyId memberId weekStart id
  | _ => True

theorem SameAt.refl (c : Tables) (k : Lock) : SameAt c c k := by
  cases k with
  | entry id | submission id => rfl
  | current companyId memberId weekStart => exact fun _ => rfl
  | entryKey | idempotencyKey => trivial

theorem SameAt.trans {a b k} (hab : SameAt a b k) (hbc : SameAt b c k) : SameAt a c k := by
  cases k with
  | entry id | submission id => exact Eq.trans hbc hab
  | current companyId memberId weekStart => exact fun id => (hbc id).trans (hab id)
  | entryKey | idempotencyKey => trivial

/-- The locks that protect what is written. -/
def Write.locks : Write → List Lock
  | .insertEntry id _ => [.entry id]
  | .rewriteEntry id _ _ => [.entry id]
  | .setEntryStatus id _ => [.entry id]
  | .deleteEntry id => [.entry id]
  | .supersede id => [.submission id]
  | .insertSubmission id s => [.submission id, .current s.companyId s.memberId s.weekStart]
  | .decide id _ _ _ => [.submission id]
  | .insertSubmissionEntry _ => []
  | .others _ _ _ => []

theorem get?_entry_apply {w} (h : Lock.entry id ∉ w.locks) : (c.apply w).entry.get? id = c.entry.get? id := by
  cases w with
  | insertEntry id' e =>
    have hne : id ≠ id' := fun heq => h (heq ▸ mem_singleton_self _)
    exact (get?_insertMissing _ id).trans (if_neg hne)
  | rewriteEntry id' realHours billableHours | setEntryStatus id' status =>
    have hne : id ≠ id' := fun heq => h (heq ▸ mem_singleton_self _)
    exact (get?_modify _ id).trans (if_neg hne)
  | deleteEntry id' =>
    have hne : id ≠ id' := fun heq => h (heq ▸ mem_singleton_self _)
    exact (get?_erase id).trans (if_neg hne)
  | supersede | insertSubmission | decide | insertSubmissionEntry | others => rfl

theorem get?_submission_apply {w} (h : Lock.submission id ∉ w.locks) :
    (c.apply w).submission.get? id = c.submission.get? id := by
  cases w with
  | insertSubmission id' s =>
    have hne : id ≠ id' := fun heq => h (heq ▸ mem_cons_self)
    exact (get?_insertMissing _ id).trans (if_neg hne)
  | supersede id' | decide id' actorKcSub approve reason =>
    have hne : id ≠ id' := fun heq => h (heq ▸ mem_singleton_self _)
    exact (get?_modify _ id).trans (if_neg hne)
  | insertEntry | rewriteEntry | setEntryStatus | deleteEntry | insertSubmissionEntry | others => rfl

/-- A column of a part of the tables that none of the writes changes. -/
theorem view_eq_of_apply {β : Type} (part : Tables → β) (ws : List Write) (c : Tables)
    (h : ∀ w ∈ ws, ∀ c, part (c.apply w) = part c) : part (schema.view ws c) = part c := by
  unfold Schema.view
  induction ws generalizing c with
  | nil => rfl
  | cons w ws ih =>
    rw [foldl_cons, ih _ fun w' hw' => h w' (mem_cons_of_mem w hw')]
    exact h w mem_cons_self c

theorem get?_entry_view
    (h : ∀ w ∈ ws, Lock.entry id ∉ w.locks) : (schema.view ws c).entry.get? id = c.entry.get? id :=
  view_eq_of_apply (·.entry.get? id) ws c fun w hw _ => get?_entry_apply (h w hw)

theorem get?_submission_view (h : ∀ w ∈ ws, Lock.submission id ∉ w.locks) :
    (schema.view ws c).submission.get? id = c.submission.get? id :=
  view_eq_of_apply (·.submission.get? id) ws c fun w hw _ => get?_submission_apply (h w hw)

/-! ## Effects -/

/-- `prev` is the current version of the week, and the only one. -/
def Tables.CurrentIs (t : Tables) (i : SubmitInput) (prev : Option (Uuid × Submission)) : Prop :=
  ∀ id s, t.submission.get? id = some s ∧ s.currentOf i.companyId i.memberId i.weekStart = true ↔
    prev = some (id, s)

def Tables.HasDraft (t : Tables) (i : SubmitInput) (d : DraftEntry) : Prop :=
  t.entry.get? d.id = some d.entry ∧ d.entry.inWeek i.companyId i.memberId i.weekStart = true ∧
    d.entry.status = .draft

def Tables.HasSubmitted (t : Tables) (s : Submission) (id : Uuid) : Prop :=
  ∃ e, t.entry.get? id = some e ∧ e.inWeek s.companyId s.memberId s.weekStart = true ∧ e.status = .submitted

def supersedes (prev : Option (Uuid × Submission)) : List Write := prev.toList.map fun r => .supersede r.1

def marks (submissionId : Uuid) (d : DraftEntry) : List Write :=
  [.insertSubmissionEntry (d.snapshot submissionId), .setEntryStatus d.id .submitted]

def SubmitInput.writes (i : SubmitInput) (id rootId : Uuid) (approver : Approver)
    (prev : Option (Uuid × Submission)) (drafts : List DraftEntry) : List Write :=
  supersedes prev ++ .insertSubmission id (i.version rootId approver prev) :: drafts.flatMap (marks id)

def decisionWrites (submissionId : Uuid) (actorKcSub : String) (approve : Bool) (reason : String)
    (ids : List Uuid) : List Write :=
  .decide submissionId actorKcSub approve reason :: ids.map fun id => .setEntryStatus id (decidedStatus approve)

inductive Effect (c : Tables) : Request → List Write → Prop
  | replayed {id rootId : Uuid} {i : SubmitInput} : Effect c (.submitWeek id rootId i) []
  | inserted {today : Date} {id : Uuid} {i : UpsertInput} (hfree : c.entry.get? id = none) :
      Effect c (.upsertEntry today id i) [.insertEntry id i.entry]
  -- the row may have appeared after the check
  | rewritten {today : Date} {id existing : Uuid} {i : UpsertInput} {e : Entry}
      (hrow : c.entry.get? existing = some e) :
      Effect c (.upsertEntry today id i) [.rewriteEntry existing (hundredths i.real) (hundredths i.billable)]
  | deleted {companyId memberId entryId : Uuid} {e : Entry} (hrow : c.entry.get? entryId = some e)
      (hdraft : e.status = .draft) : Effect c (.deleteEntry companyId memberId entryId) [.deleteEntry entryId]
  | submitted {id rootId : Uuid} {i : SubmitInput} {approver : Approver} {prev : Option (Uuid × Submission)}
      {drafts : List DraftEntry} (hfree : c.submission.get? id = none) (hprev : c.CurrentIs i prev)
      (hdrafts : ∀ d ∈ drafts, c.HasDraft i d) :
      Effect c (.submitWeek id rootId i) (i.writes id rootId approver prev drafts)
  | decided {actorKcSub : String} {companyId submissionId : Uuid} {approve : Bool} {reason : String}
      {s : Submission} {ids : List Uuid} (hrow : c.submission.get? submissionId = some s)
      (hcurrent : s.isCurrent = true) (hundecided : s.status = .submitted)
      (hids : ∀ id ∈ ids, c.HasSubmitted s id) :
      Effect c (.decideSubmission actorKcSub companyId submissionId approve reason)
        (decisionWrites submissionId actorKcSub approve reason ids)
  | others {configuration : Keyed.Table Uuid Config} {project : Keyed.Table Uuid Project}
      {approverAssignment : Keyed.Table (Uuid × Uuid) Approver} :
      Effect c (.others configuration project approverAssignment) [.others configuration project approverAssignment]

theorem currentAt_eq_true {t : Tables} {companyId memberId : Uuid} {weekStart : Date} :
    t.currentAt companyId memberId weekStart id = true ↔
      ∃ s, t.submission.get? id = some s ∧ s.currentOf companyId memberId weekStart = true := by
  unfold Tables.currentAt
  rw [Option.any_eq_true]

theorem Tables.CurrentIs.of_sameAt {c' i} {prev : Option (Uuid × Submission)}
    (h : c.CurrentIs i prev) (hweek : SameAt c c' (.current i.companyId i.memberId i.weekStart))
    (hprev : ∀ r, prev = some r → SameAt c c' (.submission r.1)) : c'.CurrentIs i prev := by
  intro id s
  constructor
  · rintro ⟨hs, hcur⟩
    have hat := (hweek id).symm.trans (currentAt_eq_true.mpr ⟨s, hs, hcur⟩)
    obtain ⟨s₀, hs₀, hcur₀⟩ := currentAt_eq_true.mp hat
    have heq := (h id s₀).mp ⟨hs₀, hcur₀⟩
    have hsame : c'.submission.get? id = c.submission.get? id := hprev _ heq
    cases hs₀.symm.trans (hsame.symm.trans hs)
    exact heq
  · intro heq
    obtain ⟨hs, hcur⟩ := (h id s).mpr heq
    have hsame : c'.submission.get? id = c.submission.get? id := hprev _ heq
    exact ⟨hsame.trans hs, hcur⟩

section Writes

variable {c c' : Tables} {r : Request} {ws : List Write} {companyId memberId : Uuid} {weekStart : Date}

/-- What a transaction found under its locks it still finds. -/
theorem Effect.of_sameAt (h : Effect c r ws) (hsame : ∀ w ∈ ws, ∀ k ∈ w.locks, SameAt c c' k) :
    Effect c' r ws := by
  cases h with
  | replayed => exact .replayed
  | others => exact .others
  | inserted hfree =>
    have hid : SameAt c c' (.entry _) := hsame _ mem_cons_self _ mem_cons_self
    exact .inserted (Eq.trans hid hfree)
  | rewritten hrow =>
    have hid : SameAt c c' (.entry _) := hsame _ mem_cons_self _ mem_cons_self
    exact .rewritten (Eq.trans hid hrow)
  | deleted hrow hdraft =>
    have hid : SameAt c c' (.entry _) := hsame _ mem_cons_self _ mem_cons_self
    exact .deleted (Eq.trans hid hrow) hdraft
  | @submitted id rootId i approver prev drafts hfree hprev hdra =>
    have hins : Write.insertSubmission id (i.version rootId approver prev) ∈
        i.writes id rootId approver prev drafts := mem_append_right _ mem_cons_self
    have hid : SameAt c c' (.submission id) := hsame _ hins _ mem_cons_self
    have hweek : SameAt c c' (.current i.companyId i.memberId i.weekStart) :=
      hsame _ hins _ (mem_cons_of_mem _ mem_cons_self)
    refine .submitted (Eq.trans hid hfree) (hprev.of_sameAt hweek fun r hr => ?_) fun d hd => ?_
    · refine hsame (.supersede r.1) (mem_append_left _ ?_) _ mem_cons_self
      rw [hr]
      exact mem_singleton_self _
    have hmark : Write.setEntryStatus d.id .submitted ∈ drafts.flatMap (marks id) :=
      mem_flatMap.mpr ⟨d, hd, mem_cons_of_mem _ mem_cons_self⟩
    have hrow : SameAt c c' (.entry d.id) :=
      hsame _ (mem_append_right _ (mem_cons_of_mem _ hmark)) _ mem_cons_self
    exact ⟨Eq.trans hrow (hdra d hd).1, (hdra d hd).2⟩
  | decided hrow hcur hund hids =>
    have hid : SameAt c c' (.submission _) := hsame _ mem_cons_self _ mem_cons_self
    refine .decided (Eq.trans hid hrow) hcur hund fun id hin => ?_
    obtain ⟨e, he, hmatch⟩ := hids id hin
    have hentry : SameAt c c' (.entry id) :=
      hsame _ (mem_cons_of_mem _ (mem_map_of_mem hin)) _ mem_cons_self
    exact ⟨e, Eq.trans hentry he, hmatch⟩

theorem currentOf_eq_true {s : Submission} : s.currentOf companyId memberId weekStart = true ↔
      s.companyId = companyId ∧ s.memberId = memberId ∧ s.weekStart = weekStart ∧ s.isCurrent = true := by
  unfold Submission.currentOf
  rw [decide_eq_true_iff]

/-- Only superseding a version takes it out of the index of its week. -/
theorem currentAt_apply {w : Write}
    (h : Lock.current companyId memberId weekStart ∉ w.locks) (hw : ∀ id, w ≠ .supersede id) (id : Uuid) :
    (c.apply w).currentAt companyId memberId weekStart id = c.currentAt companyId memberId weekStart id := by
  cases w with
  | insertSubmission id' s =>
    unfold Tables.currentAt
    rw [show (c.apply (.insertSubmission id' s)).submission.get? id = _ from
      get?_insertMissing _ id]
    split
    · rename_i hid
      cases hrow : c.submission.get? id' with
      | some s' => rw [hid, hrow, Option.getD_some]
      | none =>
        rw [hid, hrow, Option.getD_none, Option.any_some, Option.any_none]
        refine Bool.eq_false_iff.mpr fun hcur => h ?_
        obtain ⟨hco, hmb, hweek, _⟩ := currentOf_eq_true.mp hcur
        rw [← hco, ← hmb, ← hweek]
        exact mem_cons_of_mem _ mem_cons_self
    · rfl
  | decide id' actorKcSub approve reason =>
    unfold Tables.currentAt
    rw [show (c.apply (.decide id' actorKcSub approve reason)).submission.get? id = _ from
      get?_modify _ id]
    split
    · rename_i hid
      rw [hid, Option.any_map]
      rfl
    · rfl
  | supersede id' => exact absurd rfl (hw id')
  | insertEntry | rewriteEntry | setEntryStatus | deleteEntry | insertSubmissionEntry | others => rfl

theorem currentAt_supersede {prevId : Uuid} {prev : Submission} (hrow : c.submission.get? prevId = some prev)
    (hother : prev.currentOf companyId memberId weekStart = false) (id : Uuid) :
    (c.apply (.supersede prevId)).currentAt companyId memberId weekStart id =
      c.currentAt companyId memberId weekStart id := by
  unfold Tables.currentAt
  rw [show (c.apply (.supersede prevId)).submission.get? id = _ from get?_modify_of_some hrow _ id]
  split
  · rename_i hid
    rw [hid, hrow, Option.any_some, Option.any_some, hother]
    refine Bool.eq_false_iff.mpr fun hcur => ?_
    cases (currentOf_eq_true.mp hcur).2.2.2
  · rfl

/-- What a transaction has not locked is as before. -/
theorem Effect.sameAt_view (h : Effect c r ws) {k : Lock} (hk : ∀ w ∈ ws, k ∉ w.locks) :
    SameAt c (schema.view ws c) k := by
  cases k with
  | entry id => exact get?_entry_view hk
  | submission id => exact get?_submission_view hk
  | entryKey | idempotencyKey => trivial
  | current companyId memberId weekStart =>
    intro id
    -- apart from a new version no effect supersedes anything
    have hplain : ∀ ws : List Write, (∀ w ∈ ws, Lock.current companyId memberId weekStart ∉ w.locks) →
        (∀ w ∈ ws, ∀ id, w ≠ .supersede id) → ∀ c, (schema.view ws c).currentAt companyId memberId weekStart id =
            c.currentAt companyId memberId weekStart id := fun ws hfree hws c =>
      view_eq_of_apply (·.currentAt companyId memberId weekStart id) ws c fun w hw _ =>
        currentAt_apply (hfree w hw) (hws w hw) id
    cases h with
    | @submitted newId rootId i approver prev drafts hfree hprev hdra =>
      have hrest : ∀ w ∈ Write.insertSubmission newId (i.version rootId approver prev) ::
          drafts.flatMap (marks newId), ∀ id, w ≠ .supersede id := by
        intro w hw id heq
        subst heq
        rcases mem_cons.mp hw with heq | hw
        · cases heq
        · obtain ⟨d, _, hw⟩ := mem_flatMap.mp hw
          simp [marks] at hw
      unfold SubmitInput.writes at hk ⊢
      rw [Schema.view_append, hplain _ (fun w hw => hk w (mem_append_right _ hw)) hrest]
      cases prev with
      | none => rfl
      | some prev =>
        obtain ⟨hrow, hcur⟩ := (hprev prev.1 prev.2).mpr rfl
        refine currentAt_supersede hrow (Bool.eq_false_iff.mpr fun hother => ?_) id
        -- the version superseded is of the week whose index entry is written
        obtain ⟨hc₁, hm₁, hw₁, _⟩ := currentOf_eq_true.mp hcur
        obtain ⟨hc₂, hm₂, hw₂, _⟩ := currentOf_eq_true.mp hother
        refine hk (.insertSubmission newId (i.version rootId approver (some prev)))
          (mem_append_right _ mem_cons_self) (mem_cons_of_mem _ ?_)
        rw [← hc₂, ← hm₂, ← hw₂, hc₁, hm₁, hw₁]
        exact mem_cons_self
    | replayed => exact hplain _ hk (by simp) c
    | inserted => exact hplain _ hk (by simp) c
    | rewritten => exact hplain _ hk (by simp) c
    | deleted => exact hplain _ hk (by simp) c
    | decided => exact hplain _ hk (by simp [decisionWrites]) c
    | others => exact hplain _ hk (by simp) c

end Writes

/-! ## Every transaction has its effect -/

theorem locked_effect : Locked schema SameAt Write.locks Effect where
  refl := .refl
  trans _ _ _ _ := .trans
  stable _ _ _ _ := .of_sameAt
  frame _ _ _ _ heff hfree := heff.sameAt_view hfree

abbrev Rely : Option Stmt → Trail Write Lock Stmt → Tables → Tables → Prop := LockedWrites.Rely SameAt

abbrev Done : Request → Trail Write Lock Stmt → Tables → Prop := LockedWrites.Done Write.locks Effect

section Programs

variable {r : Request} {tr : Trail Write Lock Stmt} {c c' : Tables} {α : Type} {i : UpsertInput} {today : Date}

theorem entryOn_eq_some {row} (h : c.entryOn i = some row) : c.entry.get? row.1 = some row.2 :=
  get?_eq_some_iff.mpr (mem_of_find?_eq_some h)

theorem upsertRow_wp {id} (hidle : tr.writes = []) :
    (upsertRow id i).wp schema Always Rely (fun _ => Done (.upsertEntry today id i)) tr c := by
  refine Prog.wp_exec fun c' a new _ _ hans => ?_
  rw [view_of_idle hidle] at hans ⊢
  cases hrow : c'.entryOn i with
  | some row =>
    simp only [hrow, hidle, Trail.extend] at hans ⊢
    cases hans
    refine ⟨.rewritten (entryOn_eq_some hrow), fun w hw k hk => ?_⟩
    cases mem_singleton.mp hw
    exact mem_append_right _ hk
  | none =>
    simp only [hrow, hidle, Trail.extend] at hans ⊢
    split at hans
    · cases hans
    rename_i hfree
    cases hans
    refine ⟨.inserted (Option.not_isSome_iff_eq_none.mp hfree), fun w hw k hk => ?_⟩
    cases mem_singleton.mp hw
    cases mem_singleton.mp hk
    exact mem_append_right _ mem_cons_self

theorem lockEntry_wp {R} {existing} {post : Option EntryStatus → Trail Write Lock Stmt → Tables → Prop}
    (hidle : tr.writes = []) (hheld : tr.held = [])
    (h : ∀ status tr c, tr.writes = [] →
      (∀ id, .entry id ∈ tr.held → ∃ e, c.entry.get? id = some e ∧ status = some e.status) → post status tr c) :
    (lockEntry i existing).wp schema Always R post tr c := by
  cases existing with
  | none => exact Prog.wp_ret (h none tr c hidle (by simp [hheld]))
  | some id =>
    unfold lockEntry
    refine Prog.wp_exec fun c₁ status new _ _ hans => ?_
    cases hans
    rw [Trail.extend, hheld, view_of_idle hidle]
    refine h _ _ _ (by rw [hidle]; rfl) fun id' hid' => ?_
    obtain ⟨e, he, hid⟩ := mem_map.mp hid'
    cases hid
    have hwith := Option.mem_toList.mp he
    refine ⟨e, ?_, congrArg (Option.map _) hwith⟩
    unfold Tables.entryWith at hwith
    split at hwith
    · rename_i hrow
      rw [(Option.ite_none_right_eq_some.mp hwith).2] at hrow
      exact hrow
    · cases hwith

/-- An upsert comes to its `INSERT` with no row locked but a draft. -/
theorem upsertEntry_wp {R} {id} {post : Unit → Trail Write Lock Stmt → Tables → Prop}
    (hrow : ∀ tr c, tr.writes = [] →
      (∀ id, .entry id ∈ tr.held → ∃ e, c.entry.get? id = some e ∧ e.status = .draft) →
      (upsertRow id i).wp schema Always R (fun _ => post ()) tr c) :
    (prog (.upsertEntry today id i)).wp schema Always R post .start c := by
  unfold prog upsertEntry getConfig getProject findEntry
  simp only [Prog.wp_bind, Prog.wp_pure]
  refine Prog.wp_read fun c₁ cfg _ _ _ => Prog.wp_ofExcept fun _ _ => Prog.wp_ofExcept fun _ _ =>
    Prog.wp_read fun c₂ project _ _ _ => Prog.wp_read fun c₃ existing _ _ _ =>
      lockEntry_wp rfl rfl fun status tr c hidle hlk => ?_
  split
  · split
    · exact Prog.wp_fail _
    · rename_i hdraft
      refine hrow tr c hidle fun id hid => ?_
      obtain ⟨e, he, hst⟩ := hlk id hid
      exact ⟨e, he, Option.some.inj hst ▸ not_not.mp hdraft⟩
  · refine hrow tr c hidle fun id hid => ?_
    obtain ⟨e, _, hst⟩ := hlk id hid
    cases hst

theorem deleteEntry_wp {companyId memberId entryId} : (deleteEntry companyId memberId entryId).wp schema Always Rely
      (fun _ => Done (.deleteEntry companyId memberId entryId)) .start c := by
  unfold deleteEntry lockEntryById
  rw [Prog.wp_bind]
  refine Prog.wp_exec fun c₁ status new _ _ hans => ?_
  -- the row that is found is locked
  have hfound : ∃ e, c₁.entry.get? entryId = some e ∧ e.status = status ∧ new = [] := by
    rw [show schema.view Trail.start.writes c₁ = c₁ from rfl] at hans
    split at hans
    · obtain ⟨_, hans⟩ := ite_error_eq_ok.mp hans
      cases hans
      exact ⟨_, ‹_›, rfl, rfl⟩
    · cases hans
  obtain ⟨e, he, rfl, rfl⟩ := hfound
  split
  · exact Prog.wp_fail _
  rename_i hdraft
  refine Prog.wp_exec fun c₂ _ new hR _ hans => ?_
  cases hans
  have hsame : SameAt c₁ c₂ (.entry entryId) := hR _ mem_cons_self
  refine ⟨.deleted (Eq.trans hsame he) (not_not.mp hdraft), fun w hw k hk => ?_⟩
  cases mem_singleton.mp hw
  exact mem_append_right _ hk

/-! A submission: the drafts and the version before it are locked, then the writes follow. -/

structure LockedDrafts (i : SubmitInput) (drafts : List DraftEntry) (tr : Trail Write Lock Stmt) (c : Tables) :
    Prop where
  held : ∀ d ∈ drafts, Lock.entry d.id ∈ tr.held
  draft : ∀ d ∈ drafts, c.HasDraft i d

structure LockedCurrent (i : SubmitInput) (prev : Option (Uuid × Submission)) (tr : Trail Write Lock Stmt)
    (c : Tables) : Prop where
  held : ∀ r, prev = some r → Lock.submission r.1 ∈ tr.held
  row : ∀ r, prev = some r → c.submission.get? r.1 = some r.2 ∧
    r.2.currentOf i.companyId i.memberId i.weekStart = true

variable {i : SubmitInput} {drafts : List DraftEntry} {prev : Option (Uuid × Submission)} {next : Option Stmt}
  {id rootId submissionId : Uuid} {approver : Approver} {s : Submission} {actorKcSub reason : String}
  {approve : Bool}

theorem LockedDrafts.rely (h : LockedDrafts i drafts tr c) (hR : Rely next tr c c') :
    LockedDrafts i drafts tr c' := by
  refine ⟨h.held, fun d hd => ?_⟩
  have hsame : SameAt c c' (.entry d.id) := hR _ (h.held d hd)
  exact ⟨Eq.trans hsame (h.draft d hd).1, (h.draft d hd).2⟩

theorem lockedDrafts_nil : LockedDrafts i [] tr c := by
  constructor
  · intro d hd
    cases hd
  · intro d hd
    cases hd

theorem LockedDrafts.mono (h : LockedDrafts i drafts tr c) {tr'}
    (hheld : ∀ k ∈ tr.held, k ∈ tr'.held) : LockedDrafts i drafts tr' c :=
  ⟨fun d hd => hheld _ (h.held d hd), h.draft⟩

theorem LockedCurrent.rely (h : LockedCurrent i prev tr c) (hR : Rely next tr c c') :
    LockedCurrent i prev tr c' := by
  refine ⟨h.held, fun r hr => ?_⟩
  have hsame : SameAt c c' (.submission r.1) := hR _ (h.held r hr)
  exact ⟨Eq.trans hsame (h.row r hr).1, (h.row r hr).2⟩

theorem draftAt_eq_some {d d'} (h : c.draftAt i d = some d') : d'.id = d.id ∧ c.HasDraft i d' := by
  unfold Tables.draftAt at h
  split at h
  · rename_i e he
    obtain ⟨hmatch, heq⟩ := Option.ite_none_right_eq_some.mp h
    cases heq
    exact ⟨rfl, he, hmatch.1, hmatch.2⟩
  · cases h

theorem lockDrafts_wp {seen} (hidle : tr.writes = []) (h : LockedDrafts i drafts tr c) :
    (lockDrafts i seen).wp schema Always Rely
      (fun locked tr' c' => tr'.writes = [] ∧ LockedDrafts i (drafts ++ locked) tr' c') tr c := by
  induction seen generalizing drafts tr c with
  | nil =>
    refine Prog.wp_ret ⟨hidle, ?_⟩
    rw [append_nil]
    exact h
  | cons d seen ih =>
    unfold lockDrafts lockDraft
    simp only [Prog.wp_bind, Prog.wp_pure]
    refine Prog.wp_exec fun c₁ locked new hR _ hans => ?_
    rw [view_of_idle hidle] at hans ⊢
    cases hans
    have hlk : LockedDrafts i (drafts ++ (c₁.draftAt i d).toList)
        (tr.extend [] ((c₁.draftAt i d).toList.map fun d => .entry d.id) .lockDraft) c₁ := by
      refine ⟨fun d' hd' => ?_, fun d' hd' => ?_⟩
      · rcases mem_append.mp hd' with hd' | hd'
        · exact mem_append_left _ (h.held d' hd')
        · exact mem_append_right _ (mem_map_of_mem hd')
      · rcases mem_append.mp hd' with hd' | hd'
        · exact (h.rely hR).draft d' hd'
        · exact (draftAt_eq_some (Option.mem_toList.mp hd')).2
    refine (ih (by rw [Trail.extend, hidle]; rfl) hlk).mono fun rest tr' c' hrest => ?_
    rw [append_assoc] at hrest
    exact hrest

theorem currentWith_eq_some {r} (h : c.currentWith i id = some r) :
    c.submission.get? r.1 = some r.2 ∧ r.2.currentOf i.companyId i.memberId i.weekStart = true := by
  unfold Tables.currentWith at h
  split at h
  · rename_i s hs
    obtain ⟨hcur, heq⟩ := Option.ite_none_right_eq_some.mp h
    cases heq
    exact ⟨hs, hcur⟩
  · cases h

theorem lockCurrent_wp {current} (hidle : tr.writes = []) (h : LockedDrafts i drafts tr c) :
    (lockCurrent i current).wp schema Always Rely
      (fun prev tr' c' => tr'.writes = [] ∧ LockedDrafts i drafts tr' c' ∧ LockedCurrent i prev tr' c') tr c := by
  cases current with
  | none =>
    refine Prog.wp_ret ⟨hidle, h, fun r hr => ?_, fun r hr => ?_⟩
    · cases hr
    · cases hr
  | some id =>
    unfold lockCurrent
    refine Prog.wp_exec fun c₁ prev new hR _ hans => ?_
    rw [view_of_idle hidle] at hans ⊢
    cases hans
    refine ⟨by rw [Trail.extend, hidle]; rfl, (h.rely hR).mono fun _ => mem_append_left _, fun r hr => ?_,
      fun r hr => currentWith_eq_some hr⟩
    exact mem_append_right _ (mem_map_of_mem (Option.mem_toList.mpr hr))

theorem supersede_wp (hidle : tr.writes = []) (h : LockedDrafts i drafts tr c) (hprev : LockedCurrent i prev tr c) :
    (supersede prev).wp schema Always Rely (fun _ tr' c' => tr'.writes = supersedes prev ∧
      LockedDrafts i drafts tr' c' ∧ LockedCurrent i prev tr' c') tr c := by
  cases prev with
  | none => exact Prog.wp_ret ⟨hidle, h, hprev⟩
  | some r =>
    unfold supersede
    refine Prog.wp_exec fun c₁ _ new hR _ hans => ?_
    cases hans
    refine ⟨by rw [Trail.extend, hidle]; rfl, (h.rely hR).mono fun _ => mem_append_left _, fun r' hr' => ?_,
      (hprev.rely hR).row⟩
    exact mem_append_left _ (hprev.held r' hr')

theorem get?_view_supersedes (hid : ∀ r, prev = some r → id ≠ r.1) :
    (schema.view (supersedes prev) c).submission.get? id = c.submission.get? id := by
  refine get?_submission_view fun w hw hlock => ?_
  obtain ⟨r, hr, rfl⟩ := mem_map.mp hw
  cases mem_singleton.mp hlock
  exact hid r (Option.mem_toList.mp hr) rfl

theorem isSome_view_supersedes :
    ((schema.view (supersedes prev) c).submission.get? id).isSome = (c.submission.get? id).isSome := by
  cases prev with
  | none => rfl
  | some r => exact isSome_get?_modify _ id

/-- The insert finds nothing that it clashes with: the locked version was the only current one. -/
theorem currentIs_of_clashes (hprev : LockedCurrent i prev tr c)
    (h : (schema.view (supersedes prev) c).clashes id (i.version rootId approver prev) = false) :
    c.CurrentIs i prev ∧ c.submission.get? id = none := by
  obtain ⟨hid, hrest⟩ := not_or.mp (of_decide_eq_false h)
  obtain ⟨hcur, _⟩ := not_or.mp hrest
  constructor
  · intro id' s
    constructor
    · rintro ⟨hs, hs'⟩
      by_contra hne
      -- another current version would have been seen
      refine hcur (any_eq_true.mpr ⟨(id', s), ?_, hs'⟩)
      refine get?_eq_some_iff.mp ((get?_view_supersedes ?_).trans hs)
      rintro r hr rfl
      cases (hprev.row r hr).1.symm.trans hs
      exact hne hr
    · exact fun heq => hprev.row _ heq
  · rw [isSome_view_supersedes] at hid
    exact Option.not_isSome_iff_eq_none.mp hid

theorem insertSubmission_wp (hws : tr.writes = supersedes prev)
    (h : LockedDrafts i drafts tr c) (hprev : LockedCurrent i prev tr c) :
    (insertSubmission id (i.version rootId approver prev)).wp schema Always Rely
      (fun _ tr' c' => tr'.writes = i.writes id rootId approver prev [] ∧
        Effect c' (.submitWeek id rootId i) (i.writes id rootId approver prev drafts) ∧
        ∀ w ∈ i.writes id rootId approver prev drafts, ∀ k ∈ w.locks, k ∈ tr'.held) tr c := by
  refine Prog.wp_exec fun c₁ _ new hR _ hans => ?_
  rw [hws] at hans
  rw [Trail.extend, hws]
  obtain ⟨hclash, hans⟩ := ite_error_eq_ok.mp hans
  cases hans
  obtain ⟨hcur, hfree⟩ := currentIs_of_clashes (hprev.rely hR) (Bool.eq_false_iff.mpr hclash)
  refine ⟨rfl, .submitted hfree hcur (h.rely hR).draft, fun w hw k hk => ?_⟩
  rcases mem_append.mp hw with hw | hw
  · obtain ⟨r, hr, rfl⟩ := mem_map.mp hw
    cases mem_singleton.mp hk
    exact mem_append_left _ (hprev.held r (Option.mem_toList.mp hr))
  rcases mem_cons.mp hw with rfl | hw
  · refine mem_append_right _ ?_
    rcases mem_cons.mp hk with rfl | hk
    · exact mem_cons_self
    · cases mem_singleton.mp hk
      exact mem_cons_of_mem _ mem_cons_self
  · obtain ⟨d, hd, hw⟩ := mem_flatMap.mp hw
    rcases mem_cons.mp hw with rfl | hw
    · cases hk
    · cases mem_singleton.mp hw
      cases mem_singleton.mp hk
      exact mem_append_left _ (h.held d hd)

/-- The loop writes what the effect says, draft after draft. -/
theorem submitDrafts_wp (hws : tr.writes = i.writes id rootId approver prev [])
    (heff : Effect c (.submitWeek id rootId i) (i.writes id rootId approver prev drafts))
    (hlk : ∀ w ∈ i.writes id rootId approver prev drafts, ∀ k ∈ w.locks, k ∈ tr.held) :
    (drafts.forM (submitDraft id)).wp schema Always Rely (fun _ => Done (.submitWeek id rootId i)) tr c := by
  let Q (rest : List DraftEntry) (tr : Trail Write Lock Stmt) (c : Tables) : Prop :=
    Effect c (.submitWeek id rootId i) (i.writes id rootId approver prev drafts) ∧
      (∀ w ∈ i.writes id rootId approver prev drafts, ∀ k ∈ w.locks, k ∈ tr.held) ∧
      ∃ marked, drafts = marked ++ rest ∧ tr.writes = i.writes id rootId approver prev marked
  have hstep : ∀ d rest tr c, Q (d :: rest) tr c →
      (submitDraft id d).wp schema Always Rely (fun _ => Q rest) tr c := by
    rintro d rest tr c ⟨heff, hlk, marked, hdra, hws⟩
    unfold submitDraft insertSubmissionEntry
    rw [Prog.wp_bind]
    refine Prog.wp_exec fun c₁ _ new hR₁ _ hans => ?_
    cases hans
    refine Prog.wp_exec fun c₂ _ new hR₂ _ hans => ?_
    cases hans
    have heff₁ := heff.of_sameAt fun w hw k hk => hR₁ k (hlk w hw k hk)
    have heff₂ := heff₁.of_sameAt fun w hw k hk =>
      hR₂ k (mem_append_left _ (hlk w hw k hk))
    refine ⟨heff₂, fun w hw k hk => ?_, marked ++ [d], ?_, ?_⟩
    · exact mem_append_left _ (mem_append_left _ (hlk w hw k hk))
    · rw [hdra, append_assoc]
      rfl
    · simp [hws, SubmitInput.writes, marks]
  refine (Prog.wp_forM drafts hstep ⟨heff, hlk, [], rfl, hws⟩).mono ?_
  rintro _ tr c ⟨heff, hlk, marked, hdra, hws⟩
  rw [append_nil] at hdra
  rw [← hdra] at hws
  rw [← hws] at heff hlk
  exact ⟨heff, hlk⟩

theorem submitWeek_wp :
    (submitWeek id rootId i).wp schema Always Rely (fun _ => Done (.submitWeek id rootId i)) .start c := by
  unfold submitWeek findSubmissionByIdempotencyKey
  rw [Prog.wp_bind]
  refine Prog.wp_read fun c₁ existing _ _ _ => ?_
  cases existing with
  | some existing =>
    dsimp only
    split
    · exact Prog.wp_fail _
    · exact Prog.wp_ret ⟨.replayed, fun w hw => by cases hw⟩
  | none =>
    unfold assignedApprover draftEntries currentSubmission
    simp only [Prog.wp_bind]
    refine Prog.wp_read fun c₂ approver _ _ _ => Prog.wp_read fun c₃ seen _ _ _ => ?_
    refine (lockDrafts_wp rfl lockedDrafts_nil).mono fun drafts tr₄ c₄ h₄ => ?_
    split
    · exact Prog.wp_fail _
    simp only [Prog.wp_bind]
    refine Prog.wp_read fun c₅ current hR _ _ => ?_
    have hdra : LockedDrafts i drafts ⟨tr₄.writes, tr₄.held, tr₄.log ++ [.currentSubmission]⟩ c₅ :=
      (h₄.2.rely hR).mono fun _ hk => hk
    refine (lockCurrent_wp (by exact h₄.1) hdra).mono fun prev tr₆ c₆ h₆ => ?_
    refine (supersede_wp h₆.1 h₆.2.1 h₆.2.2).mono fun _ tr₇ c₇ h₇ => ?_
    refine (insertSubmission_wp h₇.1 h₇.2.1 h₇.2.2).mono fun _ tr₈ c₈ h₈ => ?_
    exact (submitDrafts_wp h₈.1 h₈.2.1 h₈.2.2).mono fun _ _ _ hdone => Prog.wp_ret hdone

/-! A decision: the submission is locked, then the entries that are still submitted one by one. -/

theorem checkDecision_eq_ok {u} (h : s.checkDecision actorKcSub approve reason = .ok u) :
    s.isCurrent = true ∧ s.status = .submitted := by
  unfold Submission.checkDecision at h
  obtain ⟨_, h⟩ := ite_error_eq_ok.mp h
  obtain ⟨hcur, h⟩ := ite_error_eq_ok.mp h
  obtain ⟨hst, _⟩ := ite_error_eq_ok.mp h
  exact ⟨not_not.mp hcur, not_not.mp hst⟩

theorem get?_entry_statuses (ids : List Uuid) (status : EntryStatus) (id : Uuid) :
    (schema.view (ids.map fun id => .setEntryStatus id status) c).entry.get? id =
      if id ∈ ids then (c.entry.get? id).map fun e => { e with status } else c.entry.get? id := by
  unfold Schema.view
  induction ids generalizing c with
  | nil => rfl
  | cons id' ids ih =>
    have hrow : (c.apply (.setEntryStatus id' status)).entry.get? id = _ := get?_modify _ id
    rw [map_cons, foldl_cons, ih, show schema.apply c _ = c.apply _ from rfl, hrow]
    by_cases heq : id = id'
    · subst heq
      simp [Function.comp_def]
    · simp [heq]

theorem hasSubmitted_of_view {ids}
    (h : (schema.view (decisionWrites submissionId actorKcSub approve reason ids) c).submittedAt s id = true) :
    c.HasSubmitted s id := by
  have hrow : (schema.view (decisionWrites submissionId actorKcSub approve reason ids) c).entry.get? id = _ :=
    get?_entry_statuses ids (decidedStatus approve) id
  unfold Tables.submittedAt at h
  split at h
  · rename_i e he
    obtain ⟨hweek, hst⟩ := of_decide_eq_true h
    rw [hrow] at he
    split at he
    · obtain ⟨e₀, _, rfl⟩ := Option.map_eq_some_iff.mp he
      cases approve with
      | true | false => cases hst
    · exact ⟨e, he, hweek, hst⟩
  · cases h

/-- Before each turn of the loop the writes are those of the entries it has met. -/
structure Deciding (submissionId : Uuid) (actorKcSub : String) (approve : Bool) (reason : String) (s : Submission)
    (tr : Trail Write Lock Stmt) (c : Tables) : Prop where
  locked : ∀ w ∈ tr.writes, ∀ k ∈ w.locks, k ∈ tr.held
  row : c.submission.get? submissionId = some s
  met : ∃ done, (∀ id ∈ done, c.HasSubmitted s id) ∧
    tr.writes = decisionWrites submissionId actorKcSub approve reason done

theorem updateEntry_wp {tr} (h : Deciding submissionId actorKcSub approve reason s tr c) :
    (updateEntry s approve id).wp schema Always Rely
      (fun _ => Deciding submissionId actorKcSub approve reason s) tr c := by
  obtain ⟨hlk, hrow, done, hdone, hws⟩ := h
  refine Prog.wp_exec fun c' _ new hR _ hans => ?_
  cases hans
  rw [hws] at hlk
  rw [Trail.extend, hws]
  have hrow' : SameAt c c' (.submission submissionId) :=
    hR _ (hlk _ mem_cons_self _ mem_cons_self)
  have hdone' : ∀ id ∈ done, c'.HasSubmitted s id := by
    intro id hid
    have hheld := hlk _ (mem_cons_of_mem _ (mem_map_of_mem hid)) _ mem_cons_self
    have hsame : SameAt c c' (.entry id) := hR _ hheld
    obtain ⟨e, he, hmatch⟩ := hdone id hid
    exact ⟨e, Eq.trans hsame he, hmatch⟩
  by_cases hat : (schema.view (decisionWrites submissionId actorKcSub approve reason done) c').submittedAt s id
  · refine ⟨fun w hw k hk => ?_, Eq.trans hrow' hrow, done ++ [id], fun id' hid => ?_, ?_⟩
    · simp only [hat, if_true] at hw ⊢
      obtain hw | hw := mem_append.mp hw
      · exact mem_append_left _ (hlk w hw k hk)
      · cases mem_singleton.mp hw
        exact mem_append_right _ hk
    · obtain hid | hid := mem_append.mp hid
      · exact hdone' id' hid
      · cases mem_singleton.mp hid
        exact hasSubmitted_of_view hat
    · rw [if_pos hat]
      simp [decisionWrites]
  · refine ⟨fun w hw k hk => ?_, Eq.trans hrow' hrow, done, hdone', by simp [hat]⟩
    simp only [hat, Bool.false_eq_true, if_false, append_nil] at hw ⊢
    exact hlk w hw k hk

theorem decideSubmission_wp {companyId} :
    (decideSubmission actorKcSub companyId submissionId approve reason).wp schema Always Rely
      (fun _ => Done (.decideSubmission actorKcSub companyId submissionId approve reason)) .start c := by
  unfold decideSubmission lockSubmission updateSubmission submittedEntries
  simp only [Prog.wp_bind]
  refine Prog.wp_exec fun c₁ s new _ _ hans => Prog.wp_ofExcept fun _ hcheck => ?_
  have hfound : c₁.submission.get? submissionId = some s ∧ new = [] := by
    rw [show schema.view Trail.start.writes c₁ = c₁ from rfl] at hans
    split at hans
    · rename_i hs
      obtain ⟨_, hans⟩ := ite_error_eq_ok.mp hans
      cases hans
      exact ⟨hs, rfl⟩
    · cases hans
  obtain ⟨hs, rfl⟩ := hfound
  obtain ⟨hcur, hund⟩ := checkDecision_eq_ok hcheck
  refine Prog.wp_exec fun c₂ _ new hR₂ _ hans => Prog.wp_read fun c₃ ids hR₃ _ _ => ?_
  cases hans
  have hs₂ : SameAt c₁ c₂ (.submission submissionId) := hR₂ _ mem_cons_self
  have hs₃ : SameAt c₂ c₃ (.submission submissionId) := hR₃ _ mem_cons_self
  refine (Prog.wp_forM ids (Q := fun _ => Deciding submissionId actorKcSub approve reason s)
    (fun _ _ _ _ => updateEntry_wp)
    ⟨fun w hw k hk => ?_, Eq.trans hs₃ (Eq.trans hs₂ hs), [], fun id hid => ?_, rfl⟩).mono ?_
  · cases mem_singleton.mp hw
    exact mem_append_right _ hk
  · cases hid
  · rintro _ tr c ⟨hlk, hrow, done, hdone, hws⟩
    refine ⟨?_, hlk⟩
    rw [hws]
    exact .decided hrow hcur hund hdone

end Programs

theorem prog_wp (r : Request) (c : Tables) : (prog r).wp schema Always Rely (fun _ => Done r) .start c := by
  cases r with
  | upsertEntry today id i => exact upsertEntry_wp fun tr c hidle _ => upsertRow_wp hidle
  | deleteEntry companyId memberId entryId => exact deleteEntry_wp
  | submitWeek id rootId i =>
    unfold prog
    simp only [Prog.wp_bind, Prog.wp_pure]
    exact submitWeek_wp
  | decideSubmission actorKcSub companyId submissionId approve reason => exact decideSubmission_wp
  | others configuration project approverAssignment =>
    unfold prog
    refine Prog.wp_exec fun c' _ new _ _ hans => ?_
    cases hans
    refine ⟨.others, fun w hw k hk => ?_⟩
    cases mem_singleton.mp hw
    cases hk

end Kiban.Timesheet
