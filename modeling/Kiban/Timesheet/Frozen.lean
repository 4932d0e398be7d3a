import Kiban.Timesheet.Commits

/-!
# Submitted hours are frozen

What was submitted waits for its decision unchanged, and what was approved stays as it is.  Every commit keeps to that
but one kind: an upsert that found no row, and so locked none, rewrites the row that somebody else has inserted and
submitted since.
-/

namespace Kiban.Timesheet

open Transactions LockedWrites List Keyed.Table Option

def Request.DecidesOn (c : Tables) (e : Entry) : Request → Prop
  | .decideSubmission _ _ submissionId _ _ =>
    ∃ s, c.submission.get? submissionId = some s ∧ e.inWeek s.companyId s.memberId s.weekStart = true
  | _ => False

/-- What the commit of a call may do to the submitted and the approved entries. -/
structure Freezes (r : Request) (c c' : Tables) : Prop where
  submitted : ∀ id e, c.entry.get? id = some e → e.status = .submitted →
    ∃ e', c'.entry.get? id = some e' ∧ e'.realHours = e.realHours ∧ e'.billableHours = e.billableHours ∧
      (e'.status = .submitted ∨ r.DecidesOn c e)
  approved : ∀ id e, c.entry.get? id = some e → e.status = .approved → c'.entry.get? id = some e

def EntryStatus.isFrozen : EntryStatus → Bool
  | .submitted => true
  | .approved => true
  | _ => false

/-- The row that an `INSERT` of the input would meet is not submitted or approved, or it is locked. -/
def Tables.spared (c : Tables) (held : List Lock) (i : UpsertInput) : Bool :=
  (c.entryOn i).all fun row => !row.2.status.isFrozen || decide (.entry row.1 ∈ held)

/-- No `INSERT … ON CONFLICT DO UPDATE` meets a submitted or approved row that its transaction has not locked before. -/
def unovertaken (s : Machine) : Action Request → Bool
  | .exec t => (s.sessions.get? t).all fun ss =>
    match ss.rest.label? with
    | some (.upsertEntry i) => s.committed.spared ss.trail.held i
    | _ => true
  | _ => true

def Relied (next : Option Stmt) (tr : Trail Write Lock Stmt) (c c' : Tables) : Prop :=
  Rely next tr c c' ∧ ∀ i, next = some (.upsertEntry i) → c'.spared tr.held i = true

/-- The rows that an upsert rewrites are not submitted or approved. -/
def Spares (c : Tables) (ws : List Write) : Request → Prop
  | .upsertEntry .. => ∀ id realHours billableHours, .rewriteEntry id realHours billableHours ∈ ws →
      ∀ e, c.entry.get? id = some e → e.status.isFrozen = false
  | _ => True

section Effects

variable {c c' : Tables} {r : Request} {ws : List Write}

theorem freezes_of_kept (h : ∀ id e, c.entry.get? id = some e → e.status.isFrozen = true →
    c'.entry.get? id = some e) : Freezes r c c' where
  submitted id e he hst := ⟨e, h id e he (by rw [hst]; rfl), rfl, rfl, .inl hst⟩
  approved id e he hst := h id e he (by rw [hst]; rfl)

/-- The writes of a submission only mark the drafts it has found. -/
theorem entry_notMem_locks {i : SubmitInput} {id rootId : Uuid} {approver : Approver}
    {prev : Option (Uuid × Submission)} {drafts : List DraftEntry} {entryId : Uuid}
    (h : ∀ d ∈ drafts, d.id ≠ entryId) :
    ∀ w ∈ i.writes id rootId approver prev drafts, Lock.entry entryId ∉ w.locks := by
  intro w hw hin
  simp only [SubmitInput.writes, supersedes, marks, mem_append, mem_cons, List.mem_map,
    mem_flatMap, not_mem_nil, or_false] at hw
  rcases hw with ⟨_, _, rfl⟩ | rfl | ⟨d, hd, rfl | rfl⟩
  · simp [Write.locks] at hin
  · simp [Write.locks] at hin
  · simp [Write.locks] at hin
  · simp only [Write.locks, mem_singleton, Lock.entry.injEq] at hin
    exact h d hd hin.symm

theorem freezes_decided {actorKcSub reason companyId submissionId approve s ids}
    (hrow : c.submission.get? submissionId = some s) (hids : ∀ id ∈ ids, c.HasSubmitted s id) :
    Freezes (.decideSubmission actorKcSub companyId submissionId approve reason) c
      (schema.view (decisionWrites submissionId actorKcSub approve reason ids) c) := by
  have hview : ∀ id, (schema.view (decisionWrites submissionId actorKcSub approve reason ids) c).entry.get? id = _ :=
    fun id => get?_entry_statuses ids (decidedStatus approve) id
  constructor
  · intro id e he hst
    rw [hview]
    split
    · rename_i hid
      obtain ⟨e₀, he₀, hweek, _⟩ := hids id hid
      cases he.symm.trans he₀
      exact ⟨_, congrArg (Option.map _) he, rfl, rfl, .inr ⟨s, hrow, hweek⟩⟩
    · exact ⟨e, he, rfl, rfl, .inl hst⟩
  · intro id e he hst
    rw [hview]
    split
    · rename_i hid
      obtain ⟨e₀, he₀, _, hsub⟩ := hids id hid
      cases he.symm.trans he₀
      cases hst.symm.trans hsub
    · exact he

theorem Effect.freezes (h : Effect c r ws) (hspa : Spares c ws r) : Freezes r c (schema.view ws c) := by
  cases h with
  | replayed | others => exact freezes_of_kept fun _ _ he _ => he
  | inserted hfree =>
    refine freezes_of_kept fun id' e he _ => (get?_insertMissing _ id').trans ?_
    split
    · rename_i heq
      cases (heq ▸ he).symm.trans hfree
    · exact he
  | rewritten hrow =>
    refine freezes_of_kept fun id' e' he' hfro => (get?_modify _ id').trans ((if_neg ?_).trans he')
    rintro rfl
    cases hfro.symm.trans (hspa _ _ _ mem_cons_self e' he')
  | deleted hrow hdraft =>
    refine freezes_of_kept fun id e' he' hfro => (get?_erase id).trans ((if_neg ?_).trans he')
    rintro rfl
    cases he'.symm.trans hrow
    rw [hdraft] at hfro
    cases hfro
  | submitted hfree hprev hdra =>
    refine freezes_of_kept fun id' e he hfro => (get?_entry_view (entry_notMem_locks fun d hd heq => ?_)).trans he
    obtain ⟨hd', _, hdraft⟩ := hdra d hd
    cases he.symm.trans (heq ▸ hd')
    rw [hdraft] at hfro
    cases hfro
  | decided hrow hcur hund hids => exact freezes_decided hrow hids

end Effects

/-! ## Runs in which no upsert is overtaken -/

section Runs

variable {c c' : Tables} {r : Request} {ws : List Write} {tr : Trail Write Lock Stmt} {i : UpsertInput}

theorem relies : Relies schema SameAt (fun s a => unovertaken s a = true) Relied where
  held _ _ _ _ hR := hR.1
  exec s t ss hgood hget := by
    refine ⟨fun k _ => .refl _ k, fun i hi => ?_⟩
    simpa only [unovertaken, hget, all_some, hi] using hgood
  commit _ _ := ⟨fun k _ => .refl _ k, nofun⟩
  compatible _ _ _ _ _ _ _ _ _ _ _ hsame hR := ⟨fun k hk => (hsame k hk).trans (hR.1 k hk), hR.2⟩

theorem Spares.of_sameAt (h : Spares c ws r) (hsame : ∀ w ∈ ws, ∀ k ∈ w.locks, SameAt c c' k) : Spares c' ws r := by
  cases r with
  | upsertEntry today id i =>
    intro id realHours billableHours hw e he
    have hid : SameAt c c' (.entry id) := hsame _ hw _ mem_cons_self
    exact h id realHours billableHours hw e (Eq.trans (Eq.symm hid) he)
  | deleteEntry | submitWeek | decideSubmission | others => trivial

theorem locked_spares : Locked schema SameAt Write.locks fun c r ws => Effect c r ws ∧ Spares c ws r where
  refl := .refl
  trans _ _ _ _ := .trans
  stable _ _ _ _ h hsame := ⟨h.1.of_sameAt hsame, h.2.of_sameAt hsame⟩
  frame _ _ _ _ h hfree := h.1.sameAt_view hfree

/-- A row that is locked is the draft that the check has found, and any other is as the run promises. -/
theorem not_frozen_of_relied {next row}
    (hdraft : ∀ id, .entry id ∈ tr.held → ∃ e, c.entry.get? id = some e ∧ e.status = .draft)
    (hR : Relied next tr c c') (hnext : next = some (.upsertEntry i)) (hrow : c'.entryOn i = some row) :
    row.2.status.isFrozen = false := by
  have hspa := hR.2 i hnext
  rw [Tables.spared, hrow, all_some, Bool.or_eq_true, Bool.not_eq_true', decide_eq_true_eq] at hspa
  rcases hspa with hfree | hheld
  · exact hfree
  obtain ⟨e, he, hst⟩ := hdraft row.1 hheld
  have hsame : SameAt c c' (.entry row.1) := hR.1 _ hheld
  cases (Eq.trans hsame he).symm.trans (entryOn_eq_some hrow)
  rw [hst]
  rfl

theorem prog_spares (r : Request) (c : Tables) :
    (prog r).wp schema Always Relied (fun _ tr c => Spares c tr.writes r) .start c := by
  cases r with
  | upsertEntry today id i =>
    refine upsertEntry_wp fun tr c hidle hdraft => Prog.wp_exec fun c' a new hR _ hans => ?_
    rw [view_of_idle hidle] at hans
    rw [Trail.extend, hidle]
    intro id' realHours billableHours hw e he
    cases hrow : c'.entryOn i with
    | some row =>
      simp only [hrow] at hans
      cases hans
      cases mem_singleton.mp hw
      cases (entryOn_eq_some hrow).symm.trans he
      exact not_frozen_of_relied hdraft hR rfl hrow
    | none =>
      simp only [hrow] at hans
      obtain ⟨_, hans⟩ := Fallible.ite_error_eq_ok.mp hans
      cases hans
      cases mem_singleton.mp hw
  | deleteEntry | submitWeek | decideSubmission | others =>
    exact ((prog_wp _ c).mono fun _ _ _ _ => trivial).of_rely fun _ _ _ _ hR => hR.1

theorem prog_wp_spares (r : Request) (c : Tables) : (prog r).wp schema Always Relied
      (fun _ => LockedWrites.Done Write.locks (fun c r ws => Effect c r ws ∧ Spares c ws r) r) .start c :=
  (((prog_wp r c).of_rely fun _ _ _ _ hR => hR.1).and (prog_spares r c)).mono
    fun _ _ _ h => ⟨⟨h.1.effect, h.2⟩, h.1.locked⟩

end Runs

/-- In a run in which no upsert meets a submitted or approved row that it has not locked, every commit keeps the
submitted hours and the approved entries. -/
theorem submittedHours_frozen {c₀ : Tables} {s s' : Machine} {a : Action Request}
    (hrun : Runs.Reach (step schema prog) (fun s a => unovertaken s a = true) (.start c₀) s)
    (ha : unovertaken s a = true) (hstep : step schema prog s a = some s') : CommitsAs Freezes s a s' :=
  commitsAs_of_effect locked_spares relies prog_wp_spares (fun _ _ _ h => h.1.freezes h.2) hrun ha hstep

/-! ## Mia's week -/

def studio : Tables where
  configuration := .empty
  project := Keyed.Table.empty.insertMissing "web" ⟨"acme", "WEB", "Website", "active"⟩
  approverAssignment := Keyed.Table.empty.insertMissing ("acme", "mia") ⟨"noa", "kc-noa"⟩
  entry := .empty
  submission := .empty
  submissionEntry := []

def monday : Date := 4

def recordHours (id : Uuid) (hours : ℚ) : Request :=
  .upsertEntry monday id ⟨"acme", "mia", "web", monday, hours, hours⟩

def submitHours (id rootId : Uuid) : Request := .submitWeek id rootId ⟨"kc-mia", "acme", "mia", monday, ""⟩

def recorded : List (Action Request) :=
  [.begin 2 (recordHours "e2" 4), .exec 2, .exec 2, .exec 2, .exec 2, .commit 2]

def submittedOnce : List (Action Request) :=
  [.begin 3 (submitHours "s1" "root"), .exec 3, .exec 3, .exec 3, .exec 3, .exec 3, .exec 3, .exec 3, .exec 3,
    .commit 3]

/-- A draft is corrected. -/
def corrected : List (Action Request) :=
  recorded ++ [.begin 1 (recordHours "e1" 8), .exec 1, .exec 1, .exec 1, .exec 1, .exec 1]

theorem submittedHours_frozen_corrected :
    ∃ s s', corrected.foldlM (fun s a => if unovertaken s a then step schema prog s a else none) (.start studio) =
        some s ∧ step schema prog s (.commit 1) = some s' ∧
      s'.committed.entry.get? "e2" = some ⟨"acme", "mia", "web", monday, 800, 800, .draft⟩ ∧
      CommitsAs Freezes s (.commit 1) s' := by
  have hrun : (corrected.foldlM (fun s a => if unovertaken s a then step schema prog s a else none) (.start studio)).bind
      (fun s => (step schema prog s (.commit 1)).map fun s' => s'.committed.entry.get? "e2") =
      some (some ⟨"acme", "mia", "web", monday, 800, 800, .draft⟩) := by decide +kernel
  obtain ⟨s, hs, hseen⟩ := bind_eq_some_iff.mp hrun
  obtain ⟨s', hs', hentry⟩ := map_eq_some_iff.mp hseen
  have hreach := Runs.reach_of_checked unovertaken (fun _ _ h => h) corrected hs
  exact ⟨s, s', hs, hs', hentry, submittedHours_frozen hreach rfl hs'⟩

/-- An upsert of eight hours has found no row when one of four hours is recorded and submitted. -/
def overtaken : List (Action Request) :=
  [.begin 1 (recordHours "e1" 8), .exec 1, .exec 1, .exec 1] ++ recorded ++ submittedOnce ++ [.exec 1]

theorem overtaken_rewritesSubmitted : ∃ s₁ s₂, overtaken.foldlM (step schema prog) (.start studio) = some s₁ ∧
      step schema prog s₁ (.commit 1) = some s₂ ∧
      s₁.committed.entry.get? "e2" = some ⟨"acme", "mia", "web", monday, 400, 400, .submitted⟩ ∧
      s₂.committed.entry.get? "e2" = some ⟨"acme", "mia", "web", monday, 800, 800, .draft⟩ ∧
      ¬ CommitsAs Freezes s₁ (.commit 1) s₂ := by
  have hrun : (overtaken.foldlM (step schema prog) (.start studio)).map (fun s =>
      (s.committed.entry.get? "e2", (step schema prog s (.commit 1)).map fun s =>
        s.committed.entry.get? "e2")) =
      some (some ⟨"acme", "mia", "web", monday, 400, 400, .submitted⟩,
        some (some ⟨"acme", "mia", "web", monday, 800, 800, .draft⟩)) := by
    decide +kernel
  obtain ⟨s₁, hs₁, hseen⟩ := map_eq_some_iff.mp hrun
  obtain ⟨hbef, hseen⟩ := Prod.mk.inj hseen
  obtain ⟨s₂, hs₂, hafter⟩ := map_eq_some_iff.mp hseen
  refine ⟨s₁, s₂, hs₁, hs₂, hbef, hafter, fun hfro => ?_⟩
  obtain ⟨r, tr, hget, _, _⟩ := step_commit hs₂
  obtain ⟨e', he', hhours, _⟩ := (hfro _ hget).submitted "e2" _ hbef rfl
  cases hafter.symm.trans he'
  cases hhours

end Kiban.Timesheet
