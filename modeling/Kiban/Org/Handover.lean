import Kiban.Lib.OneLock
import Kiban.Org.HolderWindow

/-!
# Handing a position over

`Handover` ends the assignment of today's holder and makes the next one in one transaction.  It takes the tree lock
first, as the other writers of assignments do, so it meets the assignments as they are until it commits.  Every call
has its own idea of today.
-/

namespace Kiban.Org.Handover

open Transactions OrgTx HolderWindow Keyed.Table

inductive Call where
  | assignNow (id : Uuid) (today : Except OrgError Date) (actor : String) (positionId memberId : Uuid)
  | endAssignment (id : Uuid) (today : Except OrgError Date) (actor : String)
  | handover (id : Uuid) (today : Except OrgError Date) (actor : String) (positionId memberId : Uuid)
      (expected : Option Uuid)
  | createAndAssign (today : Except OrgError Date) (actor : String) (n : NewPosition)

def prog : Call → OrgTx Unit
  | .assignNow id today actor positionId memberId => call (Org.assignNow id today actor positionId memberId)
  | .endAssignment id today actor => call (Org.endAssignment id today actor)
  | .handover id today actor positionId memberId expected =>
    call (Org.handover id today actor positionId memberId expected)
  | .createAndAssign today actor n => call (Org.createAndAssign today actor n)

/-- The position has passed from the holder of the ended assignment to the member, on the day. -/
structure HandedOver (c c' : Database) (d : Date) (positionId memberId : Uuid) (ended : Uuid × Assignment) :
    Prop where
  previous : ∃ a, c.assignments.get? ended.1 = some a ∧ a.positionId = positionId ∧ a.Covers d ∧
    a.memberId ≠ memberId ∧ ended.2 = a.endAt d
  ends : c'.assignments.get? ended.1 = some ended.2
  since : ∀ d', d ≤ d' → ∀ m, HeldOn c'.assignments d' positionId m ↔ m = memberId
  before : ∀ d', d' < d → ∀ m, HeldOn c'.assignments d' positionId m ↔ HeldOn c.assignments d' positionId m
  elsewhere : ∀ p, p ≠ positionId → ∀ d' m, HeldOn c'.assignments d' p m ↔ HeldOn c.assignments d' p m
  revoked : holderTuple positionId ended.2.memberId ∉ c'.authz.tuple
  granted : holderTuple positionId memberId ∈ c'.authz.tuple

def Assignable (c : Database) (positionId memberId : Uuid) : Prop :=
  ∃ p m, c.positions.get? positionId = some p ∧ c.members.get? memberId = some m ∧ m.isActive = true ∧
    p.companyId = m.companyId

/-- What a `Handover` that answers has done.  With no ended assignment in the answer, the member holds the
position already. -/
def Answered (c c' : Database) (d : Date) (positionId memberId : Uuid) (expected : Option Uuid) :
    Option (Uuid × Assignment) × (Uuid × Assignment) → Prop
  | (none, _) => HeldOn c.assignments d positionId memberId ∧ c' = c
  | (some ended, created) =>
    (expected = none ∨ expected = some ended.1) ∧ created.2 = ⟨positionId, memberId, d, none⟩ ∧
      HandedOver c c' d positionId memberId ended

/-! ## Windows on other days -/

section Windows

variable {T : Assignments} {d d' : Date} {id : Uuid} {a : Assignment} {positionId memberId : Uuid}

theorem heldOn_modify (ha : T.get? id = some a) {f}
    (hsame : (f a).positionId = positionId ∧ (f a).memberId = memberId ∧ (f a).Covers d ↔
      a.positionId = positionId ∧ a.memberId = memberId ∧ a.Covers d) :
    HeldOn (T.modify id f) d positionId memberId ↔ HeldOn T d positionId memberId := by
  have hget := get?_modify_of_some ha f
  constructor
  · rintro ⟨i, x, hx, hheld⟩
    rw [hget] at hx
    split at hx
    · cases hx
      exact ⟨id, a, ha, hsame.mp hheld⟩
    · exact ⟨i, x, hx, hheld⟩
  · rintro ⟨i, x, hx, hheld⟩
    by_cases hi : i = id
    · subst hi
      cases hx.symm.trans ha
      exact ⟨i, f a, by rw [hget, if_pos rfl], hsame.mpr hheld⟩
    · exact ⟨i, x, by rw [hget, if_neg hi]; exact hx, hheld⟩

/-- An end today changes nothing about the days before. -/
theorem covers_endAt_of_lt (hcov : a.Covers d) (hlt : d' < d) : (a.endAt d).Covers d' ↔ a.Covers d' := by
  refine ⟨fun h => ⟨h.1, fun e he => hlt.trans (hcov.2 e he)⟩, fun h => ⟨h.1, fun e he => ?_⟩⟩
  cases he
  exact hlt

theorem not_covers_of_lt (hlt : d' < d) : ¬ Assignment.Covers ⟨positionId, memberId, d, none⟩ d' := fun h =>
  absurd h.1 (not_le.mpr hlt)

theorem covers_of_le (hle : d ≤ d') : Assignment.Covers ⟨positionId, memberId, d, none⟩ d' :=
  ⟨hle, nofun⟩

end Windows

/-! ## A handover alone -/

section Alone

variable {c c₁ c' : Database} {d : Date} {actor : String} {id positionId memberId : Uuid} {held : Uuid × Assignment}

/-- The new window has no end, so that nobody else's is open when it is let in. -/
theorem onlyOpen_of_created (hended : Ended c c₁ held.1 held.2 d) (hpos : held.2.positionId = positionId)
    (hcre : Created c₁ c' id ⟨positionId, memberId, d, none⟩) :
    OnlyOpen c.assignments held.1 held.2 := by
  intro id' a' hget hne hpos' _ hnone
  have hget' : c₁.assignments.get? id' = some a' := by
    rw [hended.assignments, get?_modify, if_neg hne]
    exact hget
  refine hcre.checked.apart id' a' hget' (hpos'.trans hpos) ?_
  have hopen : a'.Covers (max a'.validFrom d) := ⟨le_max_left _ _, fun e he => nomatch hnone.symm.trans he⟩
  exact ⟨hopen, covers_of_le (le_max_right _ _)⟩

theorem heldOn_since (hcre : Created c₁ c' id ⟨positionId, memberId, d, none⟩) {d'}
    (hle : d ≤ d') (m : Uuid) : HeldOn c'.assignments d' positionId m ↔ m = memberId := by
  rw [hcre.assignments, heldOn_insert hcre.checked.fresh]
  constructor
  · rintro (⟨i, x, hx, hpos, _, hcov⟩ | ⟨_, hmem, _⟩)
    · exact absurd (overlaps_of_covers hcov (covers_of_le hle)) (hcre.checked.apart i x hx hpos)
    · exact hmem.symm
  · rintro rfl
    exact .inr ⟨rfl, rfl, covers_of_le hle⟩

theorem heldOn_before (hended : Ended c c₁ held.1 held.2 d) (hcov : held.2.Covers d)
    (hcre : Created c₁ c' id ⟨positionId, memberId, d, none⟩) {d'} (hlt : d' < d) (p m : Uuid) :
    HeldOn c'.assignments d' p m ↔ HeldOn c.assignments d' p m := by
  rw [hcre.assignments, heldOn_insert hcre.checked.fresh, hended.assignments,
    or_iff_left fun h => not_covers_of_lt hlt h.2.2]
  refine heldOn_modify hended.found ?_
  rw [covers_endAt_of_lt hcov hlt]
  exact Iff.rfl

theorem heldOn_elsewhere (hended : Ended c c₁ held.1 held.2 d) (hpos : held.2.positionId = positionId)
    (hcre : Created c₁ c' id ⟨positionId, memberId, d, none⟩) {p} (hne : p ≠ positionId)
    (d' : Date) (m : Uuid) : HeldOn c'.assignments d' p m ↔ HeldOn c.assignments d' p m := by
  rw [hcre.assignments, heldOn_insert hcre.checked.fresh, hended.assignments, or_iff_left fun h => hne h.1.symm]
  have hother : held.2.positionId ≠ p := fun h => hne (h.symm.trans hpos)
  exact heldOn_modify hended.found (iff_of_false (fun h => hother h.1) fun h => hother h.1)

theorem handedOver (ha : c.assignments.get? held.1 = some held.2)
    (hpos : held.2.positionId = positionId) (hcov : held.2.Covers d)
    (hdiff : held.2.memberId ≠ memberId) (hended : Ended c c₁ held.1 held.2 d)
    (hcre : Created c₁ c' id ⟨positionId, memberId, d, none⟩) :
    HandedOver c c' d positionId memberId (held.1, held.2.endAt d) := by
  have hheld : c₁.assignments.get? held.1 = some (held.2.endAt d) := by
    rw [hended.assignments, get?_modify_of_some ha, if_pos rfl]
  have htup := hended.tuples (onlyOpen_of_created hended hpos hcre)
  refine ⟨⟨held.2, ha, hpos, hcov, hdiff, rfl⟩, ?_, fun _ hle m => heldOn_since hcre hle m,
    fun _ hlt m => heldOn_before hended hcov hcre hlt _ m,
    fun _ hne d' m => heldOn_elsewhere hended hpos hcre hne d' m, ?_, ?_⟩
  · rw [hcre.assignments, get?_insertMissing_of_none hcre.checked.fresh, if_neg]
    · exact hheld
    · intro heq
      cases (hcre.checked.fresh.symm.trans (congrArg _ heq.symm)).trans hheld
  · rw [hcre.tuples, htup]
    rintro (⟨_, hnew⟩ | hnew)
    · exact hnew (by rw [hpos]; rfl)
    · exact hdiff (holderTuple_inj hnew).2
  · rw [hcre.tuples]
    exact .inr rfl

theorem eq_of_heldOn (hapart : NoOverlap c.assignments) (ha : c.assignments.get? held.1 = some held.2)
    (hpos : held.2.positionId = positionId) (hcov : held.2.Covers d)
    (h : HeldOn c.assignments d positionId memberId) : held.2.memberId = memberId := by
  obtain ⟨i, x, hx, hpos', hmem, hcov'⟩ := h
  have hi := hapart i held.1 x held.2 hx ha (hpos'.trans hpos.symm) (overlaps_of_covers hcov' hcov)
  subst hi
  cases hx.symm.trans ha
  exact hmem

theorem answered_of_run {today expected r} (hapart : NoOverlap c.assignments)
    (h : (Org.handover id today actor positionId memberId expected).run Database.apply c = .ok (r, c')) :
    Assignable c positionId memberId ∧ ∃ d, today = .ok d ∧ Answered c c' d positionId memberId expected r ∧
      (HeldOn c.assignments d positionId memberId → c' = c) := by
  obtain ⟨hok, d, held, hd, ha, hpos, hcov, hcases⟩ := handover_cases h
  refine ⟨hok, d, hd, ?_⟩
  rcases hcases with ⟨hsame, rfl, rfl⟩ | ⟨hdiff, hexp, rfl, c₁, hended, hcre⟩
  · exact ⟨⟨⟨held.1, held.2, ha, hpos, hsame, hcov⟩, rfl⟩, fun _ => rfl⟩
  · refine ⟨⟨hexp, rfl, handedOver ha hpos hcov hdiff hended hcre⟩, fun hholds => ?_⟩
    exact absurd (eq_of_heldOn hapart ha hpos hcov hholds) hdiff

end Alone

/-! ## Beside others -/

def Promise (r : Call) (c c' : Database) : Prop :=
  match r with
  | .handover id today actor positionId memberId expected =>
    ∃ r, (Org.handover id today actor positionId memberId expected).run Database.apply c = .ok (r, c') ∧
      Assignable c positionId memberId ∧ ∃ d, today = .ok d ∧ Answered c c' d positionId memberId expected r ∧
        (HeldOn c.assignments d positionId memberId → c' = c)
  | _ => True

def Apart (c : Database) : Prop := NoOverlap c.assignments

section Locks

variable {c c' : Database} {d : Date} {actor : String} {id positionId memberId : Uuid}

theorem Apart.created {a} (h : Apart c) (hcre : Created c c' id a) : Apart c' := by
  unfold Apart
  rw [hcre.assignments]
  exact NoOverlap.insert h hcre.checked.fresh hcre.checked.apart

theorem Apart.ended {a} (h : Apart c) (hended : Ended c c' id a d) : Apart c' := by
  unfold Apart
  rw [hended.assignments]
  exact NoOverlap.endAt h hended.found hended.apart

theorem starts_lockOrgTree : OneLock.Starts Lock.tree lockOrgTree :=
  OneLock.starts_exec fun _ _ _ => List.mem_singleton.mpr rfl

theorem starts_failIf {α : Type} {p : Prop} [Decidable p] {e} {f : Unit → OrgTx α}
    (hf : ∀ u, OneLock.Starts Lock.tree (f u)) : OneLock.Starts Lock.tree (failIf p e >>= f) := by
  unfold failIf
  split
  · exact OneLock.starts_fail e
  · exact hf ()

theorem apart_assignNow {today r} (h : Apart c)
    (hrun : (Org.assignNow id today actor positionId memberId).run Database.apply c = .ok (r, c')) :
    Apart c' := by
  unfold Org.assignNow getAssignmentOnDate at hrun
  simp only [Prog.run_bind_eq_ok, run_lockOrgTree, Prog.run_ofExcept_eq_ok, run_query] at hrun
  obtain ⟨_, _, rfl, _, _, hcheck, _, _, ⟨_, rfl⟩, held, _, ⟨_, rfl⟩, hrun⟩ := hrun
  obtain ⟨rfl, _⟩ := checkAssignee_run hcheck
  cases held with
  | some r => cases hrun
  | none => exact h.created (created_of_run hrun).2

theorem apart_handover {today expected r} (h : Apart c)
    (hrun : (Org.handover id today actor positionId memberId expected).run Database.apply c = .ok (r, c')) :
    Apart c' := by
  obtain ⟨_, d, held, _, _, _, _, hcases⟩ := handover_cases hrun
  rcases hcases with ⟨_, _, rfl⟩ | ⟨_, _, _, c₁, hended, hcre⟩
  · exact h
  · exact (h.ended hended).created hcre

theorem apart_createAndAssign {today n r} (h : Apart c)
    (hrun : (Org.createAndAssign today actor n).run Database.apply c = .ok (r, c')) : Apart c' := by
  unfold Org.createAndAssign orgUnitUnderCompany memberCompanyID insertPosition insertAssignment at hrun
  simp only [Prog.run_bind_eq_ok, run_failIf, run_lockOrgTree, Prog.run_ofExcept_eq_ok, run_query, run_write,
    run_whenever, run_audit] at hrun
  obtain ⟨_, _, ⟨-, rfl⟩, _, _, ⟨-, rfl⟩, _, _, ⟨-, rfl⟩, _, _, ⟨-, rfl⟩, _, _, rfl, hrun⟩ := hrun
  obtain ⟨_, _, ⟨-, rfl⟩, _, _, ⟨-, rfl⟩, _, _, ⟨-, rfl⟩, _, _, ⟨-, rfl⟩, _, _, ⟨-, rfl⟩, hrun⟩ := hrun
  obtain ⟨_, _, ⟨hchk, rfl⟩, _, _, hgrant, _, _, rfl, hret⟩ := hrun
  cases hret
  have hchk' := Database.checkInsertAssignment_eq_ok hchk
  have hins := NoOverlap.insert h hchk'.fresh hchk'.apart
  rcases hgrant with ⟨_, hgrant⟩ | ⟨_, rfl⟩
  · obtain ⟨z, rfl, _, _⟩ := run_grant hgrant
    exact hins
  · exact hins

variable (today : Except OrgError Date)

/-- `EndAssignment` looks at its row before it has the lock; the update takes it. -/
theorem endAssignment_fromLock : OneLock.FromLock Lock.tree (OneLock.Alone schema Apart fun _ _ => True)
      (Org.endAssignment id today actor) := by
  unfold Org.endAssignment
  refine OneLock.fromLock_read fun a => ?_
  have hstart : ∀ d, OneLock.Starts Lock.tree (endAssignmentTx id actor d) := by
    intro d
    refine OneLock.Starts.bind (OneLock.starts_exec fun s r hans => ?_) _
    cases hrow : s.assignments.get? id with
    | none =>
      simp only [hrow] at hans
      cases hans
    | some row =>
      simp only [hrow]
      exact List.mem_cons_self
  have htail : ∀ d, OneLock.FromLock Lock.tree (OneLock.Alone schema Apart fun _ _ => True)
      (endAssignmentTx id actor d) := fun d => (hstart d).fromLock fun s r s' hs hrun => by
    obtain ⟨_, _, hended⟩ := ended_of_run hrun
    exact ⟨hs.ended hended, trivial⟩
  unfold failIf
  split
  · exact OneLock.fromLock_fail _
  · refine OneLock.fromLock_ofExcept (x := today) fun d => ?_
    split
    · exact OneLock.fromLock_fail _
    · exact htail d

theorem starts_assignNow : OneLock.Starts Lock.tree (Org.assignNow id today actor positionId memberId) := by
  unfold Org.assignNow
  exact starts_lockOrgTree.bind _

theorem starts_handover (expected : Option Uuid) :
    OneLock.Starts Lock.tree (Org.handover id today actor positionId memberId expected) := by
  unfold Org.handover
  exact starts_lockOrgTree.bind _

theorem starts_createAndAssign (n : NewPosition) :
    OneLock.Starts Lock.tree (Org.createAndAssign today actor n) := by
  unfold Org.createAndAssign
  dsimp only
  refine OneLock.starts_ofExcept fun _ => OneLock.starts_ofExcept fun _ => ?_
  refine OneLock.starts_ofExcept fun _ => starts_failIf fun _ => ?_
  exact starts_lockOrgTree.bind _

theorem fromLock_prog (r : Call) :
    OneLock.FromLock Lock.tree (OneLock.Alone schema Apart (Promise r)) (prog r) := by
  cases r with
  | assignNow id today actor positionId memberId =>
    refine OneLock.FromLock.map ((starts_assignNow today).fromLock fun s r s' hs hrun => ?_) _
    exact ⟨apart_assignNow hs hrun, trivial⟩
  | endAssignment id today actor => exact (endAssignment_fromLock today).map _
  | handover id today actor positionId memberId expected =>
    refine OneLock.FromLock.map ((starts_handover today expected).fromLock fun s r s' hs hrun => ?_) _
    exact ⟨apart_handover hs hrun, r, hrun, answered_of_run hs hrun⟩
  | createAndAssign today actor n =>
    refine OneLock.FromLock.map ((starts_createAndAssign today n).fromLock fun s r s' hs hrun => ?_) _
    exact ⟨apart_createAndAssign hs hrun, trivial⟩

end Locks

/-- In every run of assignments, ends and handovers side by side, from rows of which no two of a position
overlap: the commit of a handover is what the handover does alone to the rows committed before it, the
position passing from one member to the other on the day or staying as it was where the member holds it;
while a handover has the lock nothing else is committed; and one that has failed commits nothing. -/
theorem handover_atomic {c₀ : Database} (hapart : NoOverlap c₀.assignments)
    (as : List (Action Call)) {s s' : State Database Write Lock Stmt OrgError Call}
    (hrun : as.foldlM (Transactions.step schema prog) (.start c₀) = some s) {t : Nat}
    {ss : Session Database Write Lock Stmt OrgError Call} (hget : s.sessions.get? t = some ss)
    {id positionId memberId : Uuid} {today : Except OrgError Date} {actor : String}
    {expected : Option Uuid}
    (hrequest : ss.request = .handover id today actor positionId memberId expected)
    {a : Action Call} (hstep : Transactions.step schema prog s a = some s') :
    (a = .commit t → ∃ d r, today = .ok d ∧
      (Org.handover id today actor positionId memberId expected).run Database.apply s.committed =
        .ok (r, s'.committed) ∧
      Assignable s.committed positionId memberId ∧
      Answered s.committed s'.committed d positionId memberId expected r ∧
      (HeldOn s.committed.assignments d positionId memberId → s'.committed = s.committed)) ∧
    (a ≠ .commit t → Lock.tree ∈ ss.trail.held → s'.committed = s.committed) ∧
    ((∃ e, ss.rest = .fail e) → a ≠ .commit t) ∧
    (a.isCommit = false → s'.committed = s.committed) := by
  have hreach : Runs.Reach (Transactions.step schema prog) (fun _ _ => True) (.start c₀) s :=
    Runs.reach_of_foldlM as hrun fun _ _ _ => trivial
  refine ⟨?_, fun ha hheld => ?_, ?_, fun ha => step_committed hstep ha⟩
  · rintro rfl
    have hpro := OneLock.commit fromLock_prog hapart hreach hget hstep
    rw [hrequest] at hpro
    obtain ⟨r, hr, hass, d, hd, hans⟩ := hpro
    exact ⟨d, r, hd, hr, hass, hans⟩
  · exact OneLock.committed_of_held fromLock_prog hapart hreach hget hheld ha hstep
  · rintro ⟨e, he⟩ rfl
    obtain ⟨r, tr, hget', _, _⟩ := step_commit hstep
    cases hget.symm.trans hget'
    cases he

/-- Mia has taken the desk, and on the tenth day her assignment is about to be ended while the desk is
handed over to Noa. -/
def deskToNoa : List (Action Call) :=
  [.begin 0 (.createAndAssign (.ok 0) "admin"
      ⟨"desk", "acme", "DESK", "Front desk", "acme", "a1", "mia", 0, none⟩)] ++
    List.replicate 8 (.exec 0) ++
    [.commit 0, .begin 1 (.endAssignment "a1" (.ok 10) "admin"), .exec 1,
      .begin 2 (.handover "a2" (.ok 10) "admin" "desk" "noa" (some "a1"))] ++
    List.replicate 12 (.exec 2)

theorem noOverlap_staffed : NoOverlap staffed.assignments := fun id _ _ _ ha =>
  nomatch (get?_staffed id).symm.trans ha

theorem handover_atomic_deskToNoa :
    ∃ s s', deskToNoa.foldlM (Transactions.step schema prog) (.start staffed) = some s ∧
      Transactions.step schema prog s (Action.commit 2) = some s' ∧
      ∃ d r, (Except.ok 10 : Except OrgError Date) = .ok d ∧
        (Org.handover "a2" (.ok 10) "admin" "desk" "noa" (some "a1")).run Database.apply s.committed =
          .ok (r, s'.committed) ∧
        Assignable s.committed "desk" "noa" ∧
        Answered s.committed s'.committed d "desk" "noa" (some "a1") r ∧
        (HeldOn s.committed.assignments d "desk" "noa" → s'.committed = s.committed) := by
  have hdone : ((deskToNoa ++ [Action.commit 2]).foldlM (Transactions.step schema prog)
      (.start staffed)).isSome = true := by decide +kernel
  obtain ⟨s', hs'⟩ := Option.isSome_iff_exists.mp hdone
  rw [List.foldlM_append] at hs'
  obtain ⟨s, hs, hlast⟩ := Option.bind_eq_some_iff.mp hs'
  have hstep : Transactions.step schema prog s (Action.commit 2) = some s' := by simpa using hlast
  have hreq : ((deskToNoa.foldlM (Transactions.step schema prog) (.start staffed)).bind
      fun s => (s.sessions.get? 2).map Session.request) =
        some (.handover "a2" (.ok 10) "admin" "desk" "noa" (some "a1")) := rfl
  obtain ⟨r, tr, hget, _, _⟩ := step_commit hstep
  rw [hs, Option.bind_some, hget] at hreq
  have hcom := (handover_atomic noOverlap_staffed deskToNoa hs hget (Option.some.inj hreq) hstep).1 rfl
  exact ⟨s, s', hs, hstep, hcom⟩

end Kiban.Org.Handover
