import Kiban.Org.Operations

/-!
# Integrity of the org forest

What the tree lock, the triggers and the foreign keys are there for: the org units form a forest whose
roots are the companies, a position sits below its own company, and a position or a group has members of
its own company only.  Here is what each write does to that, on one database.
-/

namespace Kiban.Org

open Forest Fallible List Keyed.Table Function

structure Integrity (s : Database) : Prop where
  acyclic : Acyclic s.node
  roots : ∀ id u, s.units.get? id = some u → (u.parentId = none ↔ s.unitTypes.get? u.typeKey = some true)
  positions : ∀ id p, s.positions.get? id = some p →
    Reaches s.node p.orgUnitId p.companyId ∧ IsRoot s.node p.companyId
  assigned : ∀ id a, s.assignments.get? id = some a → ∃ p m, s.positions.get? a.positionId = some p ∧
    s.members.get? a.memberId = some m ∧ m.companyId = p.companyId
  grouped : ∀ k row, s.groupMembers.get? k = some row → ∃ g m, s.groups.get? k.1 = some g ∧
    s.members.get? k.2 = some m ∧ m.companyId = g.companyId

/-- What the foreign keys say of the units: a parent exists, and so do a position's unit and company. -/
structure Linked (s : Database) : Prop where
  parents : Closed s.node
  positions : ∀ id p, s.positions.get? id = some p → s.node p.companyId ≠ none ∧ s.node p.orgUnitId ≠ none

structure Shrinks (c d : Database) : Prop where
  units : ∀ id u, d.units.get? id = some u → c.units.get? id = some u
  positions : d.positions = c.positions

/-- Nothing listed here ever writes these tables. -/
structure Fixed (c d : Database) : Prop where
  unitTypes : d.unitTypes = c.unitTypes
  members : d.members = c.members
  groups : d.groups = c.groups

section Relations

variable {a b c : Database}

theorem Fixed.refl (c : Database) : Fixed c c := ⟨rfl, rfl, rfl⟩

theorem Fixed.trans (hab : Fixed a b) (hbc : Fixed b c) : Fixed a c :=
  ⟨hbc.unitTypes.trans hab.unitTypes, hbc.members.trans hab.members, hbc.groups.trans hab.groups⟩

theorem Shrinks.refl (c : Database) : Shrinks c c := ⟨fun _ _ => id, rfl⟩

theorem Shrinks.trans (hab : Shrinks a b) (hbc : Shrinks b c) : Shrinks a c :=
  ⟨fun id u hu => hab.units id u (hbc.units id u hu), hbc.positions.trans hab.positions⟩

end Relations

section Node

variable {s c d : Database} {id : Uuid} {u : OrgUnit} {p : Option Uuid}

theorem node_of_get? (h : s.units.get? id = some u) : s.node id = some u.parentId := by
  rw [Database.node, h]
  rfl

theorem node_eq_some (h : s.node id = some p) :
    ∃ u, s.units.get? id = some u ∧ u.parentId = p := Option.map_eq_some_iff.mp h

theorem node_ne_none : s.node id ≠ none ↔ (s.units.get? id).isSome = true := by
  rw [← Option.isSome_iff_ne_none, Database.node, Option.isSome_map]

theorem mem_unitIds (h : s.node id ≠ none) : id ∈ s.unitIds := by
  obtain ⟨u, hu⟩ := Option.isSome_iff_exists.mp (node_ne_none.mp h)
  exact mem_map_of_mem (f := Prod.fst) (get?_eq_some_iff.mp hu)

theorem mem_children {a b} (h : Up s.node b a) : b ∈ s.children a := by
  obtain ⟨u, hu, hpar⟩ := node_eq_some h
  refine mem_map_of_mem (f := Prod.fst) (List.mem_filter.mpr ⟨get?_eq_some_iff.mp hu, ?_⟩)
  exact decide_eq_true hpar

theorem linked_of_foreignKeys (h : s.foreignKeys = true) : Linked s := by
  unfold Database.foreignKeys at h
  simp only [decide_eq_true_eq, all_eq_true, Option.all_eq_true] at h
  obtain ⟨hunits, _, hpos, _⟩ := h
  refine ⟨fun a b hup => ?_, fun id p hp => ?_⟩
  · obtain ⟨u, hu, hpar⟩ := node_eq_some hup
    exact node_ne_none.mpr ((hunits _ (get?_eq_some_iff.mp hu)).2 b hpar)
  · obtain ⟨hco, hunit⟩ := hpos _ (get?_eq_some_iff.mp hp)
    exact ⟨node_ne_none.mpr hco, node_ne_none.mpr hunit⟩

theorem Shrinks.node (h : Shrinks c d) (hd : d.node id = some p) : c.node id = some p := by
  obtain ⟨u, hu, rfl⟩ := node_eq_some hd
  exact node_of_get? (h.units id u hu)

end Node

/-! ## The recursive queries -/

section Queries

variable {s : Database} {a r : Uuid}

theorem rootOf_eq_some (h : Integrity s) (hreach : Reaches s.node a r) (hroot : IsRoot s.node r) :
    s.rootOf a = some r := by
  have hr : r ∈ s.chain a := mem_walk_of_reaches h.acyclic (fun _ => mem_unitIds) hreach (by rw [hroot]; nofun)
  cases hfind : s.rootOf a with
  | none =>
    have hnot := find?_eq_none.mp hfind r hr
    exact absurd hroot (by simpa [IsRoot] using hnot)
  | some r' =>
    have hroot' : IsRoot s.node r' := by simpa [IsRoot] using find?_some hfind
    rw [root_unique hreach hroot (reaches_of_mem_walk (mem_of_find?_eq_some hfind)) hroot']

theorem reaches_of_rootOf (h : s.rootOf a = some r) : Reaches s.node a r :=
  reaches_of_mem_walk (mem_of_find?_eq_some h)

theorem mem_subtree {id} (h : Integrity s) (hid : s.node id ≠ none) (hreach : Reaches s.node a id) :
    a ∈ s.subtree s.unitIds.length id := by
  unfold Database.subtree
  rw [if_pos (node_ne_none.mp hid)]
  exact mem_descend_of_mem_walk (fun _ _ => mem_children)
    (mem_walk_of_reaches h.acyclic (fun _ => mem_unitIds) hreach hid)

end Queries

/-! ## The writes -/

section Writes

variable {c d : Database} {id : Uuid} {u old : OrgUnit}

/-- A database whose units, types, positions, members and groups are those of another. -/
structure SameForest (c d : Database) : Prop where
  units : ∀ id, d.units.get? id = c.units.get? id
  positions : d.positions = c.positions
  fixed : Fixed c d

theorem SameForest.node (h : SameForest c d) : d.node = c.node :=
  funext fun id => congrArg (Option.map OrgUnit.parentId) (h.units id)

theorem SameForest.linked (h : SameForest c d) (hd : Linked d) : Linked c := by
  refine ⟨h.node ▸ hd.parents, fun id p hp => ?_⟩
  rw [← h.positions] at hp
  rw [← h.node]
  exact hd.positions id p hp

theorem SameForest.shrinks (h : SameForest c d) : Shrinks c d :=
  ⟨fun id _ hu => (h.units id).symm.trans hu, h.positions⟩

theorem SameForest.trans {b} (hcd : SameForest c d) (hdb : SameForest d b) : SameForest c b :=
  ⟨fun id => (hdb.units id).trans (hcd.units id), hdb.positions.trans hcd.positions, hcd.fixed.trans hdb.fixed⟩

/-- Assignments and group members change, and the forest does not. -/
theorem Integrity.of_sameForest (h : Integrity c) (hsame : SameForest c d)
    (hass : ∀ id a, d.assignments.get? id = some a → ∃ p m, c.positions.get? a.positionId = some p ∧
      c.members.get? a.memberId = some m ∧ m.companyId = p.companyId)
    (hgro : ∀ k row, d.groupMembers.get? k = some row → ∃ g m, c.groups.get? k.1 = some g ∧
      c.members.get? k.2 = some m ∧ m.companyId = g.companyId) :
    Integrity d where
  acyclic := hsame.node ▸ h.acyclic
  roots := by
    intro id u hu
    rw [hsame.units] at hu
    rw [hsame.fixed.unitTypes]
    exact h.roots id u hu
  positions := by
    rw [hsame.positions, hsame.node]
    exact h.positions
  assigned := by
    rw [hsame.positions, hsame.fixed.members]
    exact hass
  grouped := by
    rw [hsame.fixed.groups, hsame.fixed.members]
    exact hgro

theorem Integrity.endAssignment (h : Integrity c) (validTo : Date) :
    Integrity (c.apply (.endAssignment id validTo)) := by
  refine h.of_sameForest ⟨fun _ => rfl, rfl, rfl, rfl, rfl⟩ (fun id' a ha => ?_) h.grouped
  change (c.assignments.modify id _).get? id' = some a at ha
  rw [get?_modify] at ha
  split at ha
  · obtain ⟨old, hold, rfl⟩ := Option.map_eq_some_iff.mp ha
    exact h.assigned id old hold
  · exact h.assigned id' a ha

theorem Integrity.insertAssignment (h : Integrity c) {a}
    (ha : ∃ p m, c.positions.get? a.positionId = some p ∧ c.members.get? a.memberId = some m ∧
      m.companyId = p.companyId) :
    Integrity (c.apply (.insertAssignment id a)) := by
  refine h.of_sameForest ⟨fun _ => rfl, rfl, rfl, rfl, rfl⟩ (fun id' a' ha' => ?_) h.grouped
  rcases mem_insertMissing (get?_eq_some_iff.mp ha') with hold | hnew
  · exact h.assigned id' a' (get?_eq_some_iff.mpr hold)
  · cases hnew
    exact ha

theorem Integrity.insertGroupMember (h : Integrity c) {groupId memberId row}
    (hk : ∃ g m, c.groups.get? groupId = some g ∧ c.members.get? memberId = some m ∧ m.companyId = g.companyId) :
    Integrity (c.apply (.insertGroupMember groupId memberId row)) := by
  refine h.of_sameForest ⟨fun _ => rfl, rfl, rfl, rfl, rfl⟩ h.assigned fun k row' hrow' => ?_
  rcases mem_insertMissing (get?_eq_some_iff.mp hrow') with hold | hnew
  · exact h.grouped k row' (get?_eq_some_iff.mpr hold)
  · cases hnew
    exact hk

theorem Integrity.deleteOrgUnit (h : Integrity c) (hd : Linked (c.apply (.deleteOrgUnit id))) :
    Integrity (c.apply (.deleteOrgUnit id)) := by
  have hsub : ∀ a p, (c.apply (.deleteOrgUnit id)).node a = some p → c.node a = some p := by
    intro a p ha
    obtain ⟨u, hu, rfl⟩ := node_eq_some ha
    refine node_of_get? ?_
    change (c.units.erase id).get? a = some u at hu
    rw [get?_erase] at hu
    split at hu
    · cases hu
    · exact hu
  refine ⟨h.acyclic.mono hsub, fun id' u hu => ?_, fun pid p hp => ?_, h.assigned, h.grouped⟩
  · change (c.units.erase id).get? id' = some u at hu
    rw [get?_erase] at hu
    split at hu
    · cases hu
    · exact h.roots id' u hu
  · obtain ⟨hreach, hroot⟩ := h.positions pid p hp
    obtain ⟨hco, hunit⟩ := hd.positions pid p hp
    obtain ⟨q, hq⟩ := Option.ne_none_iff_exists'.mp hco
    exact ⟨hreach.restrict hsub hd.parents hunit, hq.trans ((hsub _ q hq).symm.trans hroot)⟩

theorem node_insertOrgUnit (hnew : c.units.get? id = none) :
    (c.apply (.insertOrgUnit id u)).node = Function.update c.node id (some u.parentId) := by
  funext a
  refine (congrArg (Option.map OrgUnit.parentId) (get?_insertMissing_of_none hnew u a)).trans ?_
  by_cases ha : a = id
  · rw [if_pos ha, ha, update_self]
    rfl
  · rw [if_neg ha, update_of_ne ha]
    rfl

theorem Integrity.insertOrgUnit (h : Integrity c) (hc : Linked c)
    (hd : Linked (c.apply (.insertOrgUnit id u))) (hnew : c.units.get? id = none)
    (hpar : u.parentId ≠ some id)
    (hroot : u.parentId = none ↔ c.unitTypes.get? u.typeKey = some true) :
    Integrity (c.apply (.insertOrgUnit id u)) := by
  have hnode := node_insertOrgUnit (u := u) hnew
  have hnone : c.node id = none := by
    rw [Database.node, hnew]
    rfl
  -- nothing that exists gets to a unit that does not
  have havoid : ∀ a, c.node a ≠ none → ¬ Reaches c.node a id := fun a ha hreach =>
    exists_of_reaches hc.parents ha hreach hnone
  refine ⟨?_, fun id' u' hu' => ?_, fun pid p hp => ?_, h.assigned, h.grouped⟩
  · rw [hnode]
    refine acyclic_update h.acyclic hc.parents (fun _ => mem_unitIds) fun b hb => ?_
    have hne : b ≠ id := fun heq => hpar (heq ▸ hb)
    have hexi : c.node b ≠ none := by
      have hup : Up (c.apply (.insertOrgUnit id u)).node id b := by
        rw [Up, hnode, update_self, hb]
      have hb' := hd.parents id b hup
      rwa [hnode, update_of_ne hne] at hb'
    exact ⟨hexi, havoid b hexi⟩
  · change (c.units.insertMissing id u).get? id' = some u' at hu'
    rw [get?_insertMissing_of_none hnew] at hu'
    split at hu'
    · cases hu'
      exact hroot
    · exact h.roots id' u' hu'
  · obtain ⟨hreach, hco⟩ := h.positions pid p hp
    have hexi := (hc.positions pid p hp).2
    have hne : p.companyId ≠ id := by
      intro heq
      exact havoid _ hexi (heq ▸ hreach)
    rw [hnode]
    exact ⟨reaches_update_of_avoids hreach (havoid _ hexi), (isRoot_update_of_ne hne).mpr hco⟩

theorem node_updateOrgUnit (hold : c.units.get? id = some old) (parentId : Option Uuid)
    (code name : String) (isActive : Bool) :
    (c.apply (.updateOrgUnit id parentId code name isActive)).node = Function.update c.node id (some parentId) := by
  funext a
  refine (congrArg (Option.map OrgUnit.parentId) (get?_modify_of_some hold _ a)).trans ?_
  by_cases ha : a = id
  · rw [if_pos ha, ha, update_self]
    rfl
  · rw [if_neg ha, update_of_ne ha]
    rfl

/-- What the checks of a move establish: the new parent is not below the unit, and the positions below the
unit are of the company above the new parent. -/
structure Movable (c : Database) (id : Uuid) (parentId : Option Uuid) : Prop where
  avoids : ∀ b, parentId = some b → ¬ Reaches c.node b id
  company : ∀ pid p, c.positions.get? pid = some p → Reaches c.node p.orgUnitId id →
    (parentId = none → p.companyId = id) ∧ ∀ b, parentId = some b → Reaches c.node b p.companyId

theorem Integrity.updateOrgUnit {parentId code name isActive} (h : Integrity c) (hc : Linked c)
    (hd : Linked (c.apply (.updateOrgUnit id parentId code name isActive)))
    (hold : c.units.get? id = some old)
    (hroot : parentId = none ↔ c.unitTypes.get? old.typeKey = some true)
    (hmove : old.parentId = parentId ∨ Movable c id parentId) :
    Integrity (c.apply (.updateOrgUnit id parentId code name isActive)) := by
  have hnode := node_updateOrgUnit hold parentId code name isActive
  have hroots : ∀ id' u, (c.apply (.updateOrgUnit id parentId code name isActive)).units.get? id' = some u →
      (u.parentId = none ↔ c.unitTypes.get? u.typeKey = some true) := by
    intro id' u hu
    change (c.units.modify id _).get? id' = some u at hu
    rw [get?_modify_of_some hold] at hu
    split at hu
    · cases hu
      exact hroot
    · exact h.roots id' u hu
  rcases hmove with hsame | hmove
  · have hnode' : (c.apply (.updateOrgUnit id parentId code name isActive)).node = c.node := by
      rw [hnode, ← hsame, ← node_of_get? hold, update_eq_self]
    refine ⟨hnode' ▸ h.acyclic, hroots, fun pid p hp => ?_, h.assigned, h.grouped⟩
    rw [hnode']
    exact h.positions pid p hp
  · refine ⟨?_, hroots, fun pid p hp => ?_, h.assigned, h.grouped⟩
    · rw [hnode]
      refine acyclic_update h.acyclic hc.parents (fun _ => mem_unitIds) fun b hb => ⟨?_, hmove.avoids b hb⟩
      have hne : b ≠ id := by
        rintro rfl
        exact hmove.avoids b hb .refl
      have hup : Up (c.apply (.updateOrgUnit id parentId code name isActive)).node id b := by
        rw [Up, hnode, update_self, hb]
      have hb' := hd.parents id b hup
      rwa [hnode, update_of_ne hne] at hb'
    · obtain ⟨hreach, hco⟩ := h.positions pid p hp
      rw [hnode]
      by_cases hbelow : Reaches c.node p.orgUnitId id
      · obtain ⟨htop, hunder⟩ := hmove.company pid p hp hbelow
        cases hpar : parentId with
        | none =>
          rw [htop hpar]
          exact ⟨reaches_update_self hbelow, update_self id _ c.node⟩
        | some b =>
          exact reaches_update_root hbelow (hunder b hpar) hco (hmove.avoids b hpar)
      · have hne : p.companyId ≠ id := fun heq => hbelow (heq ▸ hreach)
        exact ⟨reaches_update_of_avoids hreach hbelow, (isRoot_update_of_ne hne).mpr hco⟩

theorem Integrity.insertPosition {p} (h : Integrity c) (hnew : c.positions.get? id = none)
    (hreach : Reaches c.node p.orgUnitId p.companyId) (hroot : IsRoot c.node p.companyId) :
    Integrity (c.apply (.insertPosition id p)) := by
  have hget : ∀ pid, (c.apply (.insertPosition id p)).positions.get? pid =
      if pid = id then some p else c.positions.get? pid :=
    get?_insertMissing_of_none hnew p
  refine ⟨h.acyclic, h.roots, fun pid q hq => ?_, fun aid a ha => ?_, h.grouped⟩
  · rw [hget] at hq
    split at hq
    · cases hq
      exact ⟨hreach, hroot⟩
    · exact h.positions pid q hq
  · obtain ⟨q, m, hq, hm, hco⟩ := h.assigned aid a ha
    refine ⟨q, m, ?_, hm, hco⟩
    have hne : a.positionId ≠ id := by
      intro heq
      rw [heq, hnew] at hq
      cases hq
    exact (hget _).trans ((if_neg hne).trans hq)

theorem Integrity.updatePosition {old title orgUnitId} (h : Integrity c)
    (hold : c.positions.get? id = some old) (hreach : Reaches c.node orgUnitId old.companyId) :
    Integrity (c.apply (.updatePosition id title orgUnitId)) := by
  have hget : ∀ pid, (c.apply (.updatePosition id title orgUnitId)).positions.get? pid =
      if pid = id then some (old.update title orgUnitId) else c.positions.get? pid :=
    get?_modify_of_some hold _
  refine ⟨h.acyclic, h.roots, fun pid q hq => ?_, fun aid a ha => ?_, h.grouped⟩
  · rw [hget] at hq
    split at hq
    · cases hq
      exact ⟨hreach, (h.positions id old hold).2⟩
    · exact h.positions pid q hq
  · obtain ⟨q, m, hq, hm, hco⟩ := h.assigned aid a ha
    rw [hget]
    by_cases heq : a.positionId = id
    · rw [heq, hold] at hq
      cases hq
      exact ⟨old.update title orgUnitId, m, if_pos heq, hm, hco⟩
    · exact ⟨q, m, (if_neg heq).trans hq, hm, hco⟩

end Writes

/-! ## The checks -/

section Checks

variable {s c : Database} {id : Uuid} {v : Unit} {p : Position} {parentId : Option Uuid}

theorem checkInsertOrgUnit_eq_ok {u} (h : s.checkInsertOrgUnit id u = .ok v) :
    s.units.get? id = none ∧ u.parentId ≠ some id := by
  unfold Database.checkInsertOrgUnit at h
  obtain ⟨_, _, h⟩ := bind_eq_ok.mp h
  obtain ⟨_, _, h⟩ := bind_eq_ok.mp h
  obtain ⟨_, hfree, h⟩ := bind_eq_ok.mp h
  unfold Database.checkOrgUnit at h
  obtain ⟨_, _, h⟩ := bind_eq_ok.mp h
  obtain ⟨_, _, h⟩ := bind_eq_ok.mp h
  obtain ⟨_, hself, _⟩ := bind_eq_ok.mp h
  refine ⟨Option.isNone_iff_eq_none.mp (unique_eq_ok.mp hfree), ?_⟩
  exact of_decide_eq_true (not_not.mp (refuseIf_eq_ok.mp hself))

/-- A unit with a position below it has the position's company above it. -/
theorem reaches_company (h : Integrity s) {pid} (hp : s.positions.get? pid = some p)
    (hbelow : Reaches s.node p.orgUnitId id) : Reaches s.node id p.companyId := by
  obtain ⟨hreach, hroot⟩ := h.positions pid p hp
  rcases Relation.ReflTransGen.total_of_right_unique up_unique hbelow hreach with hup | hdown
  · exact hup
  · rw [eq_of_isRoot_of_reaches hroot hdown]

theorem movable_of_checks (h : Integrity s) (hid : s.node id ≠ none) {v'}
    (hcycle : s.checkCycle id parentId = .ok v)
    (hmove : s.validateOrgUnitMoveCompany id parentId = .ok v') : Movable s id parentId := by
  refine ⟨fun b hb => ?_, fun pid p hp hbelow => ?_⟩
  · subst hb
    have hmeets : Forest.meets s.node id (s.unitIds.length + 1) b [] = false :=
      Bool.eq_false_iff.mpr (refuseIf_eq_ok.mp hcycle)
    exact not_reaches_of_meets h.acyclic (fun _ => mem_unitIds) hid hmeets
  · have holdR : s.rootOf id = some p.companyId :=
      rootOf_eq_some h (reaches_company h hp hbelow) (h.positions pid p hp).2
    -- the position is in the subtree, so its company is the new root whether the root changes or not
    have hblk : ∀ root, root ≠ some p.companyId → (s.rootOf id ≠ root ∧ s.positions.rows.any fun r =>
        r.2.orgUnitId ∈ s.subtree s.unitIds.length id ∧ some r.2.companyId ≠ root) := by
      intro root hne
      rw [holdR]
      refine ⟨Ne.symm hne, any_eq_true.mpr ⟨(pid, p), get?_eq_some_iff.mp hp, ?_⟩⟩
      exact decide_eq_true ⟨mem_subtree h hid hbelow, Ne.symm hne⟩
    have hok := refuseIf_eq_ok.mp hmove
    cases parentId with
    | none =>
      have htop : some id = some p.companyId := by_contra fun hne => hok (hblk _ hne)
      exact ⟨fun _ => (Option.some.inj htop).symm, nofun⟩
    | some b =>
      have hroot : s.rootOf b = some p.companyId := by_contra fun hne => hok (hblk _ hne)
      refine ⟨nofun, fun b' hb' => ?_⟩
      cases hb'
      exact reaches_of_rootOf hroot

theorem checkUpdateOrgUnit_eq_ok (h : Integrity s) {old new} (hold : s.units.get? id = some old)
    (hcheck : s.checkUpdateOrgUnit id old new = .ok v) :
    old.parentId = new.parentId ∨ Movable s id new.parentId := by
  unfold Database.checkUpdateOrgUnit at hcheck
  obtain ⟨_, _, hcheck⟩ := bind_eq_ok.mp hcheck
  obtain ⟨_, hmoved, _⟩ := bind_eq_ok.mp hcheck
  unfold Database.checkMoved at hmoved
  by_cases hsame : old.parentId = new.parentId
  · exact .inl hsame
  rw [if_neg hsame] at hmoved
  obtain ⟨_, hcycle, hmove⟩ := bind_eq_ok.mp hmoved
  refine .inr (movable_of_checks h ?_ hcycle hmove)
  rw [node_of_get? hold]
  nofun

/-- Where units have only gone, what was movable still is, if the new parent is still there. -/
theorem Movable.shrinks (h : Movable s id parentId) (hsub : Shrinks s c)
    (hc : Linked c) (hpar : ∀ b, parentId = some b → c.node b ≠ none) : Movable c id parentId := by
  have hnode : ∀ a p, c.node a = some p → s.node a = some p := fun _ _ => hsub.node
  refine ⟨fun b hb hreach => h.avoids b hb (hreach.mono hnode), fun pid p hp hbelow => ?_⟩
  rw [hsub.positions] at hp
  obtain ⟨htop, hunder⟩ := h.company pid p hp (hbelow.mono hnode)
  exact ⟨htop, fun b hb => (hunder b hb).restrict hnode hc.parents (hpar b hb)⟩

theorem isRoot_of_companyTyped (h : Integrity s) (htyped : s.companyTyped id = true) : IsRoot s.node id := by
  unfold Database.companyTyped at htyped
  split at htyped
  · cases htyped
  rename_i u hu
  rw [IsRoot, node_of_get? hu, (h.roots id u hu).mpr]
  cases htype : s.unitTypes.get? u.typeKey with
  | none =>
    rw [htype] at htyped
    cases htyped
  | some b =>
    rw [htype] at htyped
    rw [show b = true from htyped]

theorem checkPosition_eq_ok (h : s.checkPosition id p = .ok v) :
    s.companyTyped p.companyId = true ∧ Reaches s.node p.orgUnitId p.companyId := by
  unfold Database.checkPosition at h
  obtain ⟨_, _, h⟩ := bind_eq_ok.mp h
  obtain ⟨_, hvalid, _⟩ := bind_eq_ok.mp h
  unfold Database.validatePositionCompany at hvalid
  obtain ⟨_, htyped, hunder⟩ := bind_eq_ok.mp hvalid
  exact ⟨not_not.mp (refuseIf_eq_ok.mp htyped), reaches_of_mem_walk (not_not.mp (refuseIf_eq_ok.mp hunder))⟩

theorem checkInsertPosition_eq_ok (h : s.checkInsertPosition id p = .ok v) :
    s.positions.get? id = none ∧ s.companyTyped p.companyId = true ∧ Reaches s.node p.orgUnitId p.companyId := by
  unfold Database.checkInsertPosition at h
  obtain ⟨_, hpos, hfree⟩ := bind_eq_ok.mp h
  exact ⟨Option.isNone_iff_eq_none.mp (unique_eq_ok.mp hfree), checkPosition_eq_ok hpos⟩

theorem under_of_shrinks (hsub : Shrinks s c) (hfixed : Fixed s c) (hc : Linked c)
    (hint : Integrity c) (htyped : s.companyTyped p.companyId = true)
    (hreach : Reaches s.node p.orgUnitId p.companyId) (hunit : c.node p.orgUnitId ≠ none)
    (hco : c.node p.companyId ≠ none) :
    Reaches c.node p.orgUnitId p.companyId ∧ IsRoot c.node p.companyId := by
  refine ⟨hreach.restrict (fun _ _ => hsub.node) hc.parents hunit, isRoot_of_companyTyped hint ?_⟩
  obtain ⟨u, hu⟩ := Option.isSome_iff_exists.mp (node_ne_none.mp hco)
  unfold Database.companyTyped at htyped ⊢
  rw [hsub.units _ u hu] at htyped
  rw [hu, hfixed.unitTypes]
  exact htyped

theorem checkInsertGroupMember_eq_ok {groupId memberId row}
    (h : s.checkInsertGroupMember groupId memberId row = .ok v) :
    ∃ g m, s.groups.get? groupId = some g ∧ s.members.get? memberId = some m ∧ m.companyId = g.companyId := by
  unfold Database.checkInsertGroupMember at h
  obtain ⟨_, _, h⟩ := bind_eq_ok.mp h
  obtain ⟨_, hsame, h⟩ := bind_eq_ok.mp h
  obtain ⟨_, hgroup, _⟩ := bind_eq_ok.mp h
  have hsame := not_not.mp (refuseIf_eq_ok.mp hsame)
  have hgroup := not_not.mp (refuseIf_eq_ok.mp hgroup)
  obtain ⟨g, hg⟩ := Option.isSome_iff_exists.mp (Option.isSome_map.symm.trans hgroup)
  rw [hg, Option.map_some] at hsame
  obtain ⟨m, hm, hco⟩ := Option.map_eq_some_iff.mp hsame.symm
  exact ⟨g, m, hg, hm, hco⟩

end Checks

end Kiban.Org
