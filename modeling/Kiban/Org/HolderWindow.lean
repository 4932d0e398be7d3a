import Kiban.Org.Operations

/-!
# Holder tuples and assignment windows

Whether an assignment confers its position depends on the date: its window covers today or it does not.
The tuple `position:p#holder @ member:m#mapped_user` is written when an assignment is made or ended, and
nothing is written when a date passes.
-/

namespace Kiban.Org

open Transactions OrgTx Fallible List Keyed.Table

namespace HolderWindow

abbrev Assignments := Keyed.Table Uuid Assignment

def HeldOn (T : Assignments) (d : Date) (positionId memberId : Uuid) : Prop :=
  ∃ id a, T.get? id = some a ∧ a.positionId = positionId ∧ a.memberId = memberId ∧ a.Covers d

/-- The holder tuples are exactly the assignments that cover the day. -/
def Projected (s : Database) (d : Date) : Prop :=
  ∀ positionId memberId, holderTuple positionId memberId ∈ s.authz.tuple ↔
    HeldOn s.assignments d positionId memberId

/-- What the constraint on the windows and the refusal of future dates give. -/
structure Tenures (T : Assignments) (d : Date) : Prop where
  started : ∀ id a, T.get? id = some a → a.validFrom ≤ d
  exclusive : ∀ id id' a a', T.get? id = some a → T.get? id' = some a' →
    a.positionId = a'.positionId → a.Overlaps a' → id = id'

/-- The exclusion constraint: no two windows of one position overlap. -/
def NoOverlap (T : Assignments) : Prop :=
  ∀ id id' a a', T.get? id = some a → T.get? id' = some a' → a.positionId = a'.positionId → a.Overlaps a' → id = id'

structure Clocked where
  db : Database
  today : Date

inductive Call where
  | assignNow (id : Uuid) (actor : String) (positionId memberId : Uuid)
  | endAssignment (id : Uuid) (actor : String)
  | handover (id : Uuid) (actor : String) (positionId memberId : Uuid) (expected : Option Uuid)
  | createAndAssign (actor : String) (n : NewPosition)

inductive Event where
  | call (c : Call)
  | clock (d : Date)

def prog (today : Date) : Call → OrgTx Unit
  | .assignNow id actor positionId memberId =>
    call (Org.assignNow id (.ok today) actor positionId memberId)
  | .endAssignment id actor => call (Org.endAssignment id (.ok today) actor)
  | .handover id actor positionId memberId expected =>
    call (Org.handover id (.ok today) actor positionId memberId expected)
  | .createAndAssign actor n => call (Org.createAndAssign (.ok today) actor n)

/-- The date only moves forward. -/
def step (s : Clocked) : Event → Option Clocked
  | .call c => (commit s.db (prog s.today c)).map fun db => ⟨db, s.today⟩
  | .clock d => if s.today ≤ d then some ⟨s.db, d⟩ else none

/-- The date passes the end of no assignment that covers it. -/
def PassesNoEnd (s : Clocked) : Event → Prop
  | .clock d => ∀ id a e, s.db.assignments.get? id = some a → a.Covers s.today → a.validTo = some e → d < e
  | .call _ => True

/-! ## Windows -/

section Windows

variable {T : Assignments} {d d' : Date} {id : Uuid} {a b : Assignment} {positionId memberId : Uuid}

theorem overlaps_of_covers (ha : a.Covers d) (hb : b.Covers d) : a.Overlaps b := by
  have hmax : max a.validFrom b.validFrom ≤ d := max_le ha.1 hb.1
  exact ⟨⟨le_max_left _ _, fun e he => lt_of_le_of_lt hmax (ha.2 e he)⟩,
    ⟨le_max_right _ _, fun e he => lt_of_le_of_lt hmax (hb.2 e he)⟩⟩

theorem covers_mono (hstart : a.validFrom ≤ d) (hle : d ≤ d') (h : a.Covers d') : a.Covers d :=
  ⟨hstart, fun e he => lt_of_le_of_lt hle (h.2 e he)⟩

theorem not_covers_endAt : ¬ (a.endAt d).Covers d := fun h => absurd (h.2 d rfl) (lt_irrefl d)

theorem overlaps_of_endAt (ha : a.Covers d) (h : (a.endAt d).Overlaps b) : a.Overlaps b := by
  refine ⟨⟨h.1.1, fun e he => ?_⟩, h.2⟩
  have hbef := h.1.2 d rfl
  have hafter := ha.2 e he
  exact lt_trans hbef hafter

theorem overlaps_symm (h : a.Overlaps b) : b.Overlaps a := by
  unfold Assignment.Overlaps at h ⊢
  rw [max_comm]
  exact ⟨h.2, h.1⟩

theorem Tenures.eq_of_covers (hT : Tenures T d) {id'} (ha : T.get? id = some a)
    (hb : T.get? id' = some b) (hpos : a.positionId = b.positionId) (hca : a.Covers d)
    (hcb : b.Covers d) : id = id' :=
  hT.exclusive id id' a b ha hb hpos (overlaps_of_covers hca hcb)

/-! A new assignment. -/

theorem NoOverlap.insert (hT : NoOverlap T) (hfresh : T.get? id = none)
    (hapart : ∀ id' a', T.get? id' = some a' → a'.positionId = a.positionId → ¬ a'.Overlaps a) :
    NoOverlap (T.insertMissing id a) := by
  have hget := get?_insertMissing_of_none hfresh a
  intro i j x y hx hy hpos hover
  rw [hget] at hx hy
  split at hx
  · rename_i hi
    cases hx
    split at hy
    · rename_i hj
      exact hi.trans hj.symm
    · exact absurd (overlaps_symm hover) (hapart j y hy hpos.symm)
  · split at hy
    · cases hy
      exact absurd hover (hapart i x hx hpos)
    · exact hT i j x y hx hy hpos hover

theorem Tenures.insert (hT : Tenures T d) (hfresh : T.get? id = none) (hstart : a.validFrom ≤ d)
    (hapart : ∀ id' a', T.get? id' = some a' → a'.positionId = a.positionId → ¬ a'.Overlaps a) :
    Tenures (T.insertMissing id a) d := by
  have hget := get?_insertMissing_of_none hfresh a
  refine ⟨fun i x hx => ?_, NoOverlap.insert hT.exclusive hfresh hapart⟩
  rw [hget] at hx
  split at hx
  · cases hx
    exact hstart
  · exact hT.started i x hx

theorem heldOn_insert (hfresh : T.get? id = none) : HeldOn (T.insertMissing id a) d positionId memberId ↔
      HeldOn T d positionId memberId ∨ (a.positionId = positionId ∧ a.memberId = memberId ∧ a.Covers d) := by
  have hget := get?_insertMissing_of_none hfresh a
  constructor
  · rintro ⟨i, x, hx, hheld⟩
    rw [hget] at hx
    split at hx
    · cases hx
      exact .inr hheld
    · exact .inl ⟨i, x, hx, hheld⟩
  · rintro (⟨i, x, hx, hheld⟩ | hnew)
    · refine ⟨i, x, ?_, hheld⟩
      rw [hget, if_neg]
      · exact hx
      · rintro rfl
        cases hx.symm.trans hfresh
    · exact ⟨id, a, by rw [hget, if_pos rfl], hnew⟩

/-! An assignment that ends today. -/

theorem NoOverlap.endAt (hT : NoOverlap T) (ha : T.get? id = some a)
    (hapart : ∀ id' a', T.get? id' = some a' → id' ≠ id → a'.positionId = a.positionId → ¬ a'.Overlaps (a.endAt d)) :
    NoOverlap (T.modify id fun x => x.endAt d) := by
  have hget := get?_modify_of_some ha fun x => x.endAt d
  intro i j x y hx hy hpos hover
  rw [hget] at hx hy
  split at hx
  · rename_i hi
    cases hx
    split at hy
    · rename_i hj
      exact hi.trans hj.symm
    · rename_i hj
      exact absurd (overlaps_symm hover) (hapart j y hy hj hpos.symm)
  · rename_i hi
    split at hy
    · cases hy
      exact absurd hover (hapart i x hx hi hpos)
    · exact hT i j x y hx hy hpos hover

theorem Tenures.endAt (hT : Tenures T d) (ha : T.get? id = some a) (hcov : a.Covers d) :
    Tenures (T.modify id fun x => x.endAt d) d := by
  have hget := get?_modify_of_some ha fun x => x.endAt d
  refine ⟨fun i x hx => ?_, NoOverlap.endAt hT.exclusive ha fun i x hx hne hpos hover => hne ?_⟩
  · rw [hget] at hx
    split at hx
    · cases hx
      exact hcov.1
    · exact hT.started i x hx
  · exact hT.exclusive i id x a hx ha hpos (overlaps_symm (overlaps_of_endAt hcov (overlaps_symm hover)))

theorem heldOn_endAt (hT : Tenures T d) (ha : T.get? id = some a) (hcov : a.Covers d) :
    HeldOn (T.modify id fun x => x.endAt d) d positionId memberId ↔
      HeldOn T d positionId memberId ∧ ¬ (positionId = a.positionId ∧ memberId = a.memberId) := by
  have hget := get?_modify_of_some ha fun x => x.endAt d
  constructor
  · rintro ⟨i, x, hx, hpos, hmem, hx'⟩
    rw [hget] at hx
    split at hx
    · cases hx
      exact absurd hx' not_covers_endAt
    · rename_i hne
      refine ⟨⟨i, x, hx, hpos, hmem, hx'⟩, fun hsame => hne ?_⟩
      exact hT.eq_of_covers hx ha (hpos.trans hsame.1) hx' hcov
  · rintro ⟨⟨i, x, hx, hpos, hmem, hx'⟩, hother⟩
    refine ⟨i, x, ?_, hpos, hmem, hx'⟩
    rw [hget, if_neg]
    · exact hx
    · rintro rfl
      cases ha.symm.trans hx
      exact hother ⟨hpos.symm, hmem.symm⟩

end Windows

/-! ## What the calls do -/

section Effects

variable {s s' : Database} {d : Date} {actor : String}
  {positionId memberId id : Uuid} {a : Assignment} {r : Uuid × Assignment} {expected : Option Uuid}

theorem holderTuple_inj {positionId' memberId'}
    (h : holderTuple positionId memberId = holderTuple positionId' memberId') :
    positionId = positionId' ∧ memberId = memberId' :=
  ⟨congrArg Tuple.objectId h, congrArg Tuple.subjectId h⟩

structure Kept (s s' : Database) (d : Date) : Prop where
  tenures : Tenures s'.assignments d
  projected : Projected s d → Projected s' d

theorem Kept.trans {s₁} (h : Kept s s₁ d) (h' : Kept s₁ s' d) : Kept s s' d :=
  ⟨h'.tenures, fun hproj => h'.projected (h.projected hproj)⟩

theorem kept_insert (hT : Tenures s.assignments d) (hfresh : s.assignments.get? id = none)
    (hapart : ∀ id' a', s.assignments.get? id' = some a' → a'.positionId = a.positionId → ¬ a'.Overlaps a)
    (hstart : a.validFrom ≤ d) (hass : s'.assignments = s.assignments.insertMissing id a)
    (hmem : ∀ t, t ∈ s'.authz.tuple ↔ t ∈ s.authz.tuple ∨ (a.Covers d ∧ t = holderTuple a.positionId a.memberId)) :
    Kept s s' d := by
  refine ⟨hass ▸ hT.insert hfresh hstart hapart, fun hproj p m => ?_⟩
  rw [hmem, hproj, hass, heldOn_insert hfresh]
  refine or_congr_right ⟨fun ⟨hcov, heq⟩ => ?_, fun ⟨hp, hm, hcov⟩ => ⟨hcov, by rw [hp, hm]⟩⟩
  obtain ⟨hp, hm⟩ := holderTuple_inj heq
  exact ⟨hp.symm, hm.symm, hcov⟩

theorem kept_endAt (hT : Tenures s.assignments d) (ha : s.assignments.get? id = some a) (hcov : a.Covers d)
    (hass : s'.assignments = s.assignments.modify id fun x => x.endAt d)
    (hmem : ∀ t, t ∈ s'.authz.tuple ↔ t ∈ s.authz.tuple ∧ t ≠ holderTuple a.positionId a.memberId) :
    Kept s s' d := by
  refine ⟨hass ▸ hT.endAt ha hcov, fun hproj p m => ?_⟩
  rw [hmem, hproj, hass, heldOn_endAt hT ha hcov]
  refine and_congr_right fun _ => not_congr ⟨fun heq => holderTuple_inj heq, fun ⟨hp, hm⟩ => by rw [hp, hm]⟩

structure Created (s s' : Database) (id : Uuid) (a : Assignment) : Prop where
  checked : Database.CheckedAssignment s id a
  assignments : s'.assignments = s.assignments.insertMissing id a
  tuples : ∀ t, t ∈ s'.authz.tuple ↔ t ∈ s.authz.tuple ∨ t = holderTuple a.positionId a.memberId

theorem created_of_run
    (h : (createAssignmentTx id actor positionId memberId d).run Database.apply s = .ok (r, s')) :
    r = (id, ⟨positionId, memberId, d, none⟩) ∧ Created s s' id ⟨positionId, memberId, d, none⟩ := by
  unfold createAssignmentTx insertAssignment at h
  simp only [Prog.run_bind_eq_ok, run_write, run_audit] at h
  obtain ⟨_, _, ⟨hchk, rfl⟩, _, _, hgrant, _, _, rfl, hret⟩ := h
  cases hret
  obtain ⟨z, rfl, _, hmem⟩ := run_grant hgrant
  exact ⟨rfl, Database.checkInsertAssignment_eq_ok hchk, rfl, hmem⟩

theorem createAssignmentTx_run (hT : Tenures s.assignments d)
    (h : (createAssignmentTx id actor positionId memberId d).run Database.apply s = .ok (r, s')) :
    Kept s s' d := by
  obtain ⟨_, hcre⟩ := created_of_run h
  have hcov : Assignment.Covers ⟨positionId, memberId, d, none⟩ d := ⟨le_refl d, nofun⟩
  refine kept_insert hT hcre.checked.fresh hcre.checked.apart (le_refl d) hcre.assignments fun t => ?_
  rw [hcre.tuples, and_iff_right hcov]

def OnlyOpen (T : Assignments) (id : Uuid) (a : Assignment) : Prop :=
  ∀ id' a', T.get? id' = some a' → id' ≠ id → a'.positionId = a.positionId → a'.memberId = a.memberId →
    a'.validTo ≠ none

theorem countOtherOpen_eq_zero (honly : OnlyOpen s.assignments id a) :
    ((s.assignments.modify id fun x => x.endAt d).rows.filter fun r =>
      r.2.positionId = a.positionId ∧ r.2.memberId = a.memberId ∧ r.2.validTo = none ∧ r.1 ≠ id).length = 0 := by
  rw [length_eq_zero_iff, filter_eq_nil_iff]
  intro r hr hopen
  obtain ⟨hpos, hmem, hnone, hne⟩ := of_decide_eq_true hopen
  have hget := get?_eq_some_iff.mpr hr
  rw [get?_modify, if_neg hne] at hget
  exact honly r.1 r.2 hget hne hpos hmem hnone

structure Ended (s s' : Database) (id : Uuid) (a : Assignment) (d : Date) : Prop where
  found : s.assignments.get? id = some a
  apart : ∀ id' a', s.assignments.get? id' = some a' → id' ≠ id → a'.positionId = a.positionId →
    ¬ a'.Overlaps (a.endAt d)
  assignments : s'.assignments = s.assignments.modify id fun x => x.endAt d
  tuples : OnlyOpen s.assignments id a →
    ∀ t, t ∈ s'.authz.tuple ↔ t ∈ s.authz.tuple ∧ t ≠ holderTuple a.positionId a.memberId

theorem ended_of_run (h : (endAssignmentTx id actor d).run Database.apply s = .ok (r, s')) :
    ∃ a, r = (id, a.endAt d) ∧ Ended s s' id a d := by
  unfold endAssignmentTx endAssignmentRow countOtherOpenAssignments at h
  simp only [Prog.run_bind_eq_ok, run_update, run_query, run_whenever, run_audit] at h
  obtain ⟨_, _, ⟨a, ha, hwin, rfl, rfl⟩, n, _, ⟨hcount, rfl⟩, _, _, hrev, _, _, rfl, hret⟩ := h
  cases hret
  have hapart : ∀ id' a', s.assignments.get? id' = some a' → id' ≠ id → a'.positionId = a.positionId →
      ¬ a'.Overlaps (a.endAt d) := fun _ _ hget hne hpos => Database.checkWindow_eq_ok hwin hget hne hpos
  rcases hrev with ⟨_, hrev⟩ | ⟨hother, rfl⟩
  · obtain ⟨z, rfl, hmem⟩ := run_revoke hrev
    exact ⟨a, rfl, ha, hapart, rfl, fun _ => hmem⟩
  · refine ⟨a, rfl, ha, hapart, rfl, fun honly => ?_⟩
    have hzero : n = 0 := hcount.symm.trans (countOtherOpen_eq_zero honly)
    exact absurd hzero hother

theorem Tenures.onlyOpen {T} (hT : Tenures T d) (ha : T.get? id = some a) (hcov : a.Covers d) :
    OnlyOpen T id a := by
  intro id' a' hget hne hpos _ hnone
  have hcov' : a'.Covers d := ⟨hT.started id' a' hget, fun e he => nomatch hnone.symm.trans he⟩
  exact hne (hT.eq_of_covers hget ha hpos hcov' hcov)

theorem endAssignmentTx_run (hT : Tenures s.assignments d) (ha : s.assignments.get? id = some a) (hcov : a.Covers d)
    (h : (endAssignmentTx id actor d).run Database.apply s = .ok (r, s')) : Kept s s' d := by
  obtain ⟨a', _, hended⟩ := ended_of_run h
  cases hended.found.symm.trans ha
  exact kept_endAt hT ha hcov hended.assignments (hended.tuples (hT.onlyOpen ha hcov))

theorem assignNow_run (hT : Tenures s.assignments d)
    (h : (Org.assignNow id (.ok d) actor positionId memberId).run Database.apply s = .ok (r, s')) :
    Kept s s' d := by
  unfold Org.assignNow getAssignmentOnDate at h
  simp only [Prog.run_bind_eq_ok, run_lockOrgTree, Prog.run_ofExcept_eq_ok, run_query] at h
  obtain ⟨_, _, rfl, _, _, hcheck, _, _, ⟨hd, rfl⟩, held, _, ⟨_, rfl⟩, h⟩ := h
  obtain ⟨rfl, _⟩ := checkAssignee_run hcheck
  cases hd
  cases held with
  | some r => cases h
  | none => exact createAssignmentTx_run hT h

theorem endAssignment_run (hT : Tenures s.assignments d)
    (h : (Org.endAssignment id (.ok d) actor).run Database.apply s = .ok (r, s')) : Kept s s' d := by
  unfold Org.endAssignment at h
  simp only [Prog.run_bind_eq_ok, run_get, run_failIf, Prog.run_ofExcept_eq_ok] at h
  obtain ⟨a, _, ⟨ha, rfl⟩, _, _, ⟨hopen, rfl⟩, _, _, ⟨hd, rfl⟩, _, _, ⟨_, rfl⟩, h⟩ := h
  cases hd
  have hcov : a.Covers d := by
    refine ⟨hT.started id a ha, fun e he => ?_⟩
    cases (not_not.mp hopen).symm.trans he
  exact endAssignmentTx_run hT ha hcov h

/-- What a `Handover` that commits has met: the member may be assigned, and the position has a holder, who
is the member or whose assignment ends and is followed by the member's. -/
theorem handover_cases {today r}
    (h : (Org.handover id today actor positionId memberId expected).run Database.apply s = .ok (r, s')) :
    (∃ p m, s.positions.get? positionId = some p ∧ s.members.get? memberId = some m ∧ m.isActive = true ∧
      p.companyId = m.companyId) ∧
    ∃ d held, today = .ok d ∧ s.assignments.get? held.1 = some held.2 ∧ held.2.positionId = positionId ∧
      held.2.Covers d ∧
      ((held.2.memberId = memberId ∧ r = (none, held) ∧ s' = s) ∨
        (held.2.memberId ≠ memberId ∧ (expected = none ∨ expected = some held.1) ∧
          r = (some (held.1, held.2.endAt d), (id, ⟨positionId, memberId, d, none⟩)) ∧
          ∃ s₁, Ended s s₁ held.1 held.2 d ∧ Created s₁ s' id ⟨positionId, memberId, d, none⟩)) := by
  unfold Org.handover getAssignmentOnDate at h
  simp only [Prog.run_bind_eq_ok, run_lockOrgTree, Prog.run_ofExcept_eq_ok, run_query] at h
  obtain ⟨_, _, rfl, _, _, hcheck, d, _, ⟨hd, rfl⟩, held, _, ⟨hfind, rfl⟩, h⟩ := h
  obtain ⟨rfl, hok⟩ := checkAssignee_run hcheck
  refine ⟨hok, ?_⟩
  cases held with
  | none => cases h
  | some held =>
    have ha := get?_eq_some_iff.mpr (mem_of_find?_eq_some hfind)
    have hfound : held.2.positionId = positionId ∧ held.2.Covers d := by
      simpa using find?_some hfind
    refine ⟨d, held, hd, ha, hfound.1, hfound.2, ?_⟩
    dsimp only at h
    split at h
    · rename_i hsame
      cases h
      exact .inl ⟨hsame, rfl, rfl⟩
    rename_i hdiff
    simp only [Prog.run_bind_eq_ok, run_failIf] at h
    obtain ⟨_, _, ⟨hexp, rfl⟩, _, s₁, hfirst, _, _, hsec, hret⟩ := h
    cases hret
    obtain ⟨a, rfl, hended⟩ := ended_of_run hfirst
    obtain ⟨rfl, hcre⟩ := created_of_run hsec
    obtain rfl : a = held.2 := Option.some.inj (hended.found.symm.trans ha)
    have hexp : expected = none ∨ expected = some held.1 := by
      by_contra hnor
      exact hexp (not_or.mp hnor)
    exact .inr ⟨hdiff, hexp, rfl, s₁, hended, hcre⟩

theorem handover_run {r} (hT : Tenures s.assignments d)
    (h : (Org.handover id (.ok d) actor positionId memberId expected).run Database.apply s = .ok (r, s')) :
    Kept s s' d := by
  obtain ⟨_, _, held, hd, ha, _, hcov, hcases⟩ := handover_cases h
  cases hd
  rcases hcases with ⟨_, _, rfl⟩ | ⟨_, _, _, s₁, hended, hcre⟩
  · exact ⟨hT, fun hproj => hproj⟩
  have hfirst := kept_endAt hT ha hcov hended.assignments (hended.tuples (hT.onlyOpen ha hcov))
  have hcov' : Assignment.Covers ⟨positionId, memberId, d, none⟩ d := ⟨le_refl d, nofun⟩
  refine hfirst.trans (kept_insert hfirst.tenures hcre.checked.fresh hcre.checked.apart (le_refl d)
    hcre.assignments fun t => ?_)
  rw [hcre.tuples, and_iff_right hcov']

theorem createAndAssign_run {n r} (hT : Tenures s.assignments d)
    (h : (Org.createAndAssign (.ok d) actor n).run Database.apply s = .ok (r, s')) :
    Kept s s' d := by
  unfold Org.createAndAssign orgUnitUnderCompany memberCompanyID insertPosition insertAssignment at h
  simp only [Prog.run_bind_eq_ok, run_failIf, run_lockOrgTree, Prog.run_ofExcept_eq_ok, run_query, run_write,
    run_whenever, run_audit] at h
  obtain ⟨_, _, ⟨-, rfl⟩, _, _, ⟨-, rfl⟩, _, _, ⟨hd, rfl⟩, _, _, ⟨hpast, rfl⟩, _, _, rfl, h⟩ := h
  obtain ⟨_, _, ⟨-, rfl⟩, _, _, ⟨-, rfl⟩, _, _, ⟨-, rfl⟩, _, _, ⟨-, rfl⟩, _, _, ⟨-, rfl⟩, h⟩ := h
  obtain ⟨_, _, ⟨hchk, rfl⟩, _, _, hgrant, _, _, rfl, hret⟩ := h
  cases hret
  cases hd
  have hstart : n.validFrom ≤ d := not_lt.mp hpast
  have hchk' := Database.checkInsertAssignment_eq_ok hchk
  rcases hgrant with ⟨hcov, hgrant⟩ | ⟨hnot, rfl⟩
  · obtain ⟨z, rfl, _, hmem⟩ := run_grant hgrant
    refine kept_insert hT hchk'.fresh hchk'.apart hstart rfl fun t => ?_
    rw [hmem, and_iff_right hcov]
    rfl
  · refine kept_insert hT hchk'.fresh hchk'.apart hstart rfl fun t => ?_
    exact (or_iff_left fun h => hnot h.1).symm

end Effects

/-! ## The tuples over a run -/

variable {s s' : Clocked} {d : Date}

theorem kept_call {s c s'} (hT : Tenures s.assignments d) (h : commit s (prog d c) = some s') :
    Kept s s' d := by
  cases c with
  | assignNow id actor positionId memberId =>
    obtain ⟨r, hr⟩ := commit_call.mp h
    exact assignNow_run hT hr
  | endAssignment id actor =>
    obtain ⟨r, hr⟩ := commit_call.mp h
    exact endAssignment_run hT hr
  | handover id actor positionId memberId expected =>
    obtain ⟨r, hr⟩ := commit_call.mp h
    exact handover_run hT hr
  | createAndAssign actor n =>
    obtain ⟨r, hr⟩ := commit_call.mp h
    exact createAndAssign_run hT hr

theorem step_call {c} (h : step s (.call c) = some s') :
    ∃ db, commit s.db (prog s.today c) = some db ∧ s' = ⟨db, s.today⟩ := by
  obtain ⟨db, hdb, heq⟩ := Option.map_eq_some_iff.mp h
  exact ⟨db, hdb, heq.symm⟩

theorem step_clock (h : step s (.clock d) = some s') : s.today ≤ d ∧ s' = ⟨s.db, d⟩ := by
  simp only [step] at h
  split at h
  · rename_i hle
    exact ⟨hle, (Option.some.inj h).symm⟩
  · cases h

theorem tenures_step {e} (hT : Tenures s.db.assignments s.today) (h : step s e = some s') :
    Tenures s'.db.assignments s'.today := by
  cases e with
  | call c =>
    obtain ⟨db, hdb, rfl⟩ := step_call h
    exact (kept_call hT hdb).tenures
  | clock d =>
    obtain ⟨hle, rfl⟩ := step_clock h
    exact ⟨fun id a ha => (hT.started id a ha).trans hle, hT.exclusive⟩

/-- When the date moves, the tuples stay as they are. -/
theorem projected_clock_iff {s d'} (hT : Tenures s.assignments d) (hproj : Projected s d) (hle : d ≤ d') :
    Projected s d' ↔ ∀ id a e, s.assignments.get? id = some a → a.Covers d → a.validTo = some e → d' < e := by
  constructor
  · intro hproj' id a e ha hcov he
    have hheld : HeldOn s.assignments d' a.positionId a.memberId :=
      (hproj' _ _).mp ((hproj _ _).mpr ⟨id, a, ha, rfl, rfl, hcov⟩)
    obtain ⟨id', a', ha', hpos, _, hcov'⟩ := hheld
    -- the assignment that covers the later day is the one that covers the earlier
    have hear := covers_mono (hT.started id' a' ha') hle hcov'
    obtain rfl := hT.eq_of_covers ha' ha hpos hear hcov
    cases ha'.symm.trans ha
    exact hcov'.2 e he
  · intro hends p m
    rw [hproj]
    constructor
    · rintro ⟨id, a, ha, hpos, hmem, hcov⟩
      exact ⟨id, a, ha, hpos, hmem, hcov.1.trans hle, fun e he => hends id a e ha hcov he⟩
    · rintro ⟨id, a, ha, hpos, hmem, hcov⟩
      exact ⟨id, a, ha, hpos, hmem, covers_mono (hT.started id a ha) hle hcov⟩

theorem projected_step_iff {e} (hT : Tenures s.db.assignments s.today)
    (hproj : Projected s.db s.today) (h : step s e = some s') :
    Projected s'.db s'.today ↔ PassesNoEnd s e := by
  cases e with
  | call c =>
    obtain ⟨db, hdb, rfl⟩ := step_call h
    exact iff_of_true ((kept_call hT hdb).projected hproj) trivial
  | clock d =>
    obtain ⟨hle, rfl⟩ := step_clock h
    exact projected_clock_iff hT hproj hle

/-- Along a run of calls and of dates moving forward, the holder tuples are all the time those of the
assignments that cover the date exactly when the date passes the end of no assignment that covers it. -/
theorem holder_iff_covered {s₀ s : Clocked} (hT : Tenures s₀.db.assignments s₀.today)
    (hproj : Projected s₀.db s₀.today) (events : List Event) (hrun : events.foldlM step s₀ = some s) :
    (∀ pre post s', events = pre ++ post → pre.foldlM step s₀ = some s' →
      ∀ positionId memberId, holderTuple positionId memberId ∈ s'.db.authz.tuple ↔
        ∃ id a, s'.db.assignments.get? id = some a ∧ a.positionId = positionId ∧ a.memberId = memberId ∧
          a.Covers s'.today) ↔
      ∀ pre e post s', events = pre ++ e :: post → pre.foldlM step s₀ = some s' → PassesNoEnd s' e :=
  Runs.foldlM_all_iff (fun s : Clocked => Tenures s.db.assignments s.today)
    (fun s => Projected s.db s.today) hT hproj (fun _ _ _ hs => tenures_step hs)
    (fun _ _ _ hs hp => projected_step_iff hs hp) events hrun

def staffed : Database :=
  { office with
    members := ⟨[("mia", ⟨"acme", "M1", "Mia", none, none, true, false⟩),
      ("noa", ⟨"acme", "M2", "Noa", none, none, true, false⟩)], by decide⟩ }

def hireMia (validTo : Option Date) : Event :=
  .call (.createAndAssign "admin" ⟨"desk", "acme", "DESK", "Front desk", "acme", "a1", "mia", 0, validTo⟩)

theorem get?_staffed (id : Uuid) : staffed.assignments.get? id = none := rfl

theorem tenures_staffed : Tenures staffed.assignments 0 where
  started id _ ha := nomatch (get?_staffed id).symm.trans ha
  exclusive id _ _ _ ha := nomatch (get?_staffed id).symm.trans ha

theorem projected_staffed : Projected staffed 0 := fun _ _ =>
  ⟨nofun, fun ⟨id, _, ha, _⟩ => nomatch (get?_staffed id).symm.trans ha⟩

/-- Mia takes a new position, hands it over to Noa ten days later, and Noa's assignment ends. -/
def handedOver : List Event :=
  [hireMia none, .clock 10, .call (.handover "a2" "admin" "desk" "noa" none),
    .clock 20, .call (.endAssignment "a2" "admin")]

theorem holder_iff_covered_handedOver : ∃ s, handedOver.foldlM step ⟨staffed, 0⟩ = some s ∧
      ((∀ pre post s', handedOver = pre ++ post → pre.foldlM step ⟨staffed, 0⟩ = some s' →
        ∀ positionId memberId, holderTuple positionId memberId ∈ s'.db.authz.tuple ↔
          ∃ id a, s'.db.assignments.get? id = some a ∧ a.positionId = positionId ∧
            a.memberId = memberId ∧ a.Covers s'.today) ↔
        ∀ pre e post s', handedOver = pre ++ e :: post → pre.foldlM step ⟨staffed, 0⟩ = some s' →
          PassesNoEnd s' e) := by
  have hrun : (handedOver.foldlM step ⟨staffed, 0⟩).isSome = true := by decide +kernel
  obtain ⟨s, hs⟩ := Option.isSome_iff_exists.mp hrun
  exact ⟨s, hs, holder_iff_covered tenures_staffed projected_staffed handedOver hs⟩

/-- Mia's assignment has an end from the start, and the day comes. -/
def lapsed : List Event := [hireMia (some 5), .clock 10]

theorem lapsed_keepsTuple : Tenures staffed.assignments 0 ∧ Projected staffed 0 ∧
      ∃ s, lapsed.foldlM step ⟨staffed, 0⟩ = some s ∧ holderTuple "desk" "mia" ∈ s.db.authz.tuple ∧
        ¬ ∃ id a, s.db.assignments.get? id = some a ∧ a.positionId = "desk" ∧ a.memberId = "mia" ∧
          a.Covers s.today := by
  have hrun : (lapsed.foldlM step ⟨staffed, 0⟩).map (fun s =>
      (decide (holderTuple "desk" "mia" ∈ s.db.authz.tuple),
        s.db.assignments.rows.all fun r => ¬ r.2.Covers s.today)) = some (true, true) := by decide +kernel
  obtain ⟨s, hs, hsees⟩ := Option.map_eq_some_iff.mp hrun
  obtain ⟨htuple, hnone⟩ := Prod.mk.inj hsees
  refine ⟨tenures_staffed, projected_staffed, s, hs, of_decide_eq_true htuple, ?_⟩
  rintro ⟨id, a, ha, _, _, hcov⟩
  have hnot := all_eq_true.mp hnone (id, a) (get?_eq_some_iff.mp ha)
  exact of_decide_eq_true hnot hcov

end HolderWindow

end Kiban.Org
