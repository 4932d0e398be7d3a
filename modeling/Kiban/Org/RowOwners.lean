import Kiban.Org.Handlers

/-!
# Whose rows a write changes

A row of the structure is of one company, and so is what it names.  Each operation of the store that a company's
administrator can use changes rows of one company only, and none of these comes to name a row of another one.
-/

namespace Kiban.Org

open PercentPath Transactions OrgTx Fallible List Keyed.Table Option

/-! ## Whose a row is -/

inductive Row where
  | unit (id : Uuid)
  | record (r : Record)
  | groupMember (groupId memberId : Uuid)
  deriving DecidableEq

namespace Database

variable (s : Database)

/-- The company a row is of: a unit is below it in the tree, and the membership in a group is the
group's. -/
def Owns (companyId : Uuid) : Row → Prop
  | .unit id => Forest.Reaches s.node id companyId ∧ s.companyTyped companyId = true
  | .record r => s.Belongs r companyId
  | .groupMember groupId _ => s.Belongs (.group groupId) companyId

def refs : Row → List Row
  | .unit id => ((s.units.get? id).bind OrgUnit.parentId).toList.map .unit
  | .record (.member id) => (s.members.get? id).toList.map fun m => .unit m.companyId
  | .record (.position id) => (s.positions.get? id).toList.flatMap fun p => [.unit p.companyId, .unit p.orgUnitId]
  | .record (.assignment id) => (s.assignments.get? id).toList.flatMap fun a =>
    [.record (.position a.positionId), .record (.member a.memberId)]
  | .record (.group id) => (s.groups.get? id).toList.map fun g => .unit g.companyId
  | .groupMember groupId memberId => (s.groupMembers.get? (groupId, memberId)).toList.flatMap fun _ =>
    [.record (.group groupId), .record (.member memberId)]

def Has : Row → Prop
  | .unit id => (s.units.get? id).isSome
  | .record (.member id) => (s.members.get? id).isSome
  | .record (.position id) => (s.positions.get? id).isSome
  | .record (.assignment id) => (s.assignments.get? id).isSome
  | .record (.group id) => (s.groups.get? id).isSome
  | .groupMember groupId memberId => (s.groupMembers.get? (groupId, memberId)).isSome

def Same (s' : Database) : Row → Prop
  | .unit id => s'.units.get? id = s.units.get? id
  | .record (.member id) => s'.members.get? id = s.members.get? id
  | .record (.position id) => s'.positions.get? id = s.positions.get? id
  | .record (.assignment id) => s'.assignments.get? id = s.assignments.get? id
  | .record (.group id) => s'.groups.get? id = s.groups.get? id
  | .groupMember groupId memberId =>
    s'.groupMembers.get? (groupId, memberId) = s.groupMembers.get? (groupId, memberId)

/-- From `s` to `s'` only rows of the company change, and these name no row of another company that they
did not name before. -/
def Confined (companyId : Uuid) (s s' : Database) : Prop :=
  ∀ row, ¬ s.Same s' row → (s.Has row → s.Owns companyId row) ∧ (s'.Has row → s'.Owns companyId row) ∧
      ∀ r ∈ s'.refs row, r ∉ s.refs row → s'.Owns companyId r

/-- Only rows of the company of this one. -/
def ConfinedWith (r : Record) (s s' : Database) : Prop := ∃ companyId, s.Belongs r companyId ∧ Confined companyId s s'

theorem same_self (row : Row) : s.Same s row := by
  rcases row with unit | (i | i | i | i) | ⟨groupId, memberId⟩ <;> rfl

end Database

open Database

/-! ## One table at a time

The rows of one table change, and the tuples. -/

section Tables

variable {s : Database} {companyId id : Uuid} {z : Store}

theorem confined_members {t} (hother : ∀ i, i ≠ id → t.get? i = s.members.get? i)
    (hold : ∀ m, s.members.get? id = some m → m.companyId = companyId)
    (hnew : ∀ m, t.get? id = some m → m.companyId = companyId)
    (hunit : (s.members.get? id).isSome ∨ s.companyTyped companyId = true) :
    Confined companyId s { s with members := t, authz := z } := by
  rintro (unit | (i | i | i | i) | ⟨groupId, memberId⟩) hchg
  case record.member =>
      obtain rfl : i = id := by
        by_contra hne
        exact hchg (hother i hne)
      refine ⟨fun hhas => ?_, fun hhas => ?_, fun r hr hnot => ?_⟩
      · obtain ⟨m, hm⟩ := isSome_iff_exists.mp hhas
        exact ⟨m, hm, hold m hm⟩
      · obtain ⟨m, hm⟩ := isSome_iff_exists.mp hhas
        exact ⟨m, hm, hnew m hm⟩
      · obtain ⟨m, hm, rfl⟩ := mem_map.mp hr
        rw [hnew m (mem_toList.mp hm)] at hnot ⊢
        rcases hunit with hhas | htyped
        · obtain ⟨old, hold'⟩ := isSome_iff_exists.mp hhas
          refine absurd (mem_map.mpr ⟨old, mem_toList.mpr hold', ?_⟩) hnot
          rw [hold old hold']
        · exact ⟨.refl, htyped⟩
  all_goals exact absurd rfl hchg

theorem confined_positions {t} (hother : ∀ i, i ≠ id → t.get? i = s.positions.get? i)
    (hold : ∀ p, s.positions.get? id = some p → p.companyId = companyId)
    (hnew : ∀ p, t.get? id = some p → p.companyId = companyId ∧ s.companyTyped companyId = true ∧
      Forest.Reaches s.node p.orgUnitId companyId) :
    Confined companyId s { s with positions := t, authz := z } := by
  rintro (unit | (i | i | i | i) | ⟨groupId, memberId⟩) hchg
  case record.position =>
      obtain rfl : i = id := by
        by_contra hne
        exact hchg (hother i hne)
      refine ⟨fun hhas => ?_, fun hhas => ?_, fun r hr _ => ?_⟩
      · obtain ⟨p, hp⟩ := isSome_iff_exists.mp hhas
        exact ⟨p, hp, hold p hp⟩
      · obtain ⟨p, hp⟩ := isSome_iff_exists.mp hhas
        exact ⟨p, hp, (hnew p hp).1⟩
      · obtain ⟨p, hp, hr⟩ := mem_flatMap.mp hr
        obtain ⟨hco, htyped, hreach⟩ := hnew p (mem_toList.mp hp)
        rw [hco, mem_pair] at hr
        rcases hr with rfl | rfl
        · exact ⟨.refl, htyped⟩
        · exact ⟨hreach, htyped⟩
  all_goals exact absurd rfl hchg

/-- Assignments of one position change.  Who is assigned was so before, or is of the position's
company. -/
theorem confined_assignments {t positionId p} (hp : s.positions.get? positionId = some p)
    (hold : ∀ i a, t.get? i ≠ s.assignments.get? i → s.assignments.get? i = some a → a.positionId = positionId)
    (hnew : ∀ i a, t.get? i ≠ s.assignments.get? i → t.get? i = some a → a.positionId = positionId ∧
      ((∃ old, s.assignments.get? i = some old ∧ old.memberId = a.memberId) ∨
      s.Belongs (.member a.memberId) p.companyId)) :
    Confined p.companyId s { s with assignments := t, authz := z } := by
  rintro (unit | (i | i | i | i) | ⟨groupId, memberId⟩) hchg
  case record.assignment =>
      refine ⟨fun hhas => ?_, fun hhas => ?_, fun r hr hnot => ?_⟩
      · obtain ⟨a, ha⟩ := isSome_iff_exists.mp hhas
        obtain rfl := hold i a hchg ha
        exact ⟨a, p, ha, hp, rfl⟩
      · obtain ⟨a, ha⟩ := isSome_iff_exists.mp hhas
        obtain ⟨rfl, _⟩ := hnew i a hchg ha
        exact ⟨a, p, ha, hp, rfl⟩
      · obtain ⟨a, ha, hr⟩ := mem_flatMap.mp hr
        obtain ⟨hpos, hmb⟩ := hnew i a hchg (mem_toList.mp ha)
        rw [mem_pair] at hr
        rcases hr with rfl | rfl
        · exact ⟨p, hpos ▸ hp, rfl⟩
        rcases hmb with ⟨old, hget, hsame⟩ | hmb
        · refine absurd (mem_flatMap.mpr ⟨old, mem_toList.mpr hget, ?_⟩) hnot
          rw [hsame]
          exact mem_cons_of_mem _ (mem_singleton_self _)
        · exact hmb
  all_goals exact absurd rfl hchg

theorem confined_groups {t g} (hco : g.companyId = companyId)
    (htyped : s.companyTyped companyId = true) (hfree : s.groups.get? id = none)
    (hother : ∀ i, t.get? i = if i = id then some g else s.groups.get? i) :
    Confined companyId s { s with groups := t, authz := z } := by
  rintro (unit | (i | i | i | i) | ⟨groupId, memberId⟩) hchg
  case record.group =>
      obtain rfl : i = id := by
        by_contra hne
        exact hchg ((hother i).trans (if_neg hne))
      have hg : t.get? i = some g := (hother i).trans (if_pos rfl)
      refine ⟨fun hhas => ?_, fun _ => ⟨g, hg, hco⟩, fun r hr _ => ?_⟩
      · rw [Database.Has, hfree] at hhas
        cases hhas
      · obtain ⟨g', hg', rfl⟩ := mem_map.mp hr
        cases hg.symm.trans (mem_toList.mp hg')
        rw [hco]
        exact ⟨.refl, htyped⟩
  all_goals exact absurd rfl hchg

/-- One membership in a group of the company changes; a new one is of a member of the company. -/
theorem confined_groupMembers {t groupId memberId} (hgroup : s.Belongs (.group groupId) companyId)
    (hother : ∀ k, k ≠ (groupId, memberId) → t.get? k = s.groupMembers.get? k)
    (hnew : (t.get? (groupId, memberId)).isSome → s.Belongs (.member memberId) companyId) :
    Confined companyId s { s with groupMembers := t, authz := z } := by
  rintro (unit | (i | i | i | i) | ⟨groupId', memberId'⟩) hchg
  case groupMember =>
      obtain ⟨rfl, rfl⟩ : groupId' = groupId ∧ memberId' = memberId := by
        by_contra hne
        exact hchg (hother _ fun heq => hne (Prod.mk.inj heq))
      refine ⟨fun _ => hgroup, fun _ => hgroup, fun r hr _ => ?_⟩
      obtain ⟨row, hrow, hr⟩ := mem_flatMap.mp hr
      rw [mem_pair] at hr
      rcases hr with rfl | rfl
      · exact hgroup
      · exact hnew (isSome_iff_exists.mpr ⟨row, mem_toList.mp hrow⟩)
  all_goals exact absurd rfl hchg

end Tables

/-! ## The store's operations -/

section Operations

variable {s s' : Database} {actor : String} {id companyId : Uuid}
  {context code displayName email title name : String} {p : Position} {u : Unit} {m : Member} {isActive : Bool}
  {z : Store} {orgUnitId positionId memberId groupId : Uuid} {validTo validFrom : Date} {r : Uuid × Assignment}
  {today : Except OrgError Date} {g : Group}

/-- Whatever the authz store does, only the tuples change. -/
theorem authz_of_run {α : Type} {p : AuthzTx α} {a : α}
    (h : (authz context p).run Database.apply s = .ok (a, s')) : ∃ z, s' = { s with authz := z } := by
  obtain ⟨z, _, rfl⟩ := run_authz.mp h
  exact ⟨z, rfl⟩

theorem authz_of_whenever {c : Prop} [Decidable c] {p : AuthzTx Unit}
    (h : (c ∧ (authz context p).run Database.apply s = .ok (u, s')) ∨ (¬ c ∧ s = s')) :
    ∃ z, s' = { s with authz := z } := by
  rcases h with ⟨_, h⟩ | ⟨_, rfl⟩
  · exact authz_of_run h
  · exact ⟨s.authz, rfl⟩

theorem checkInsertMember_companyTyped {m} (h : s.checkInsertMember id m = .ok u) :
    s.companyTyped m.companyId = true := by
  obtain ⟨_, _, h⟩ := bind_eq_ok.mp h
  obtain ⟨_, htyped, _⟩ := bind_eq_ok.mp h
  exact not_not.mp (refuseIf_eq_ok.mp htyped)

theorem createMember_confined {isGuest}
    (h : (createMember id actor companyId code displayName email isActive isGuest).run Database.apply s =
      .ok (m, s')) :
    Confined companyId s s' := by
  unfold createMember insertMember at h
  simp only [Prog.run_bind_eq_ok, Prog.run_ofExcept_eq_ok, run_write, run_whenever, run_audit] at h
  obtain ⟨_, _, ⟨_, rfl⟩, _, _, ⟨_, rfl⟩, _, s₁, ⟨hrfs, rfl⟩, _, s₂, hgrant, _, _, rfl, hret⟩ := h
  cases hret
  obtain ⟨z, rfl⟩ := authz_of_whenever hgrant
  have hfree := Database.checkInsertMember_eq_ok hrfs
  have hget := get?_insertMissing_of_none hfree
    ⟨companyId, normalizeCode code, trimSpace displayName, strOrNil email, none, isActive, isGuest⟩
  refine confined_members (fun i hi => (hget i).trans (if_neg hi)) (fun m hm => ?_) (fun m hm => ?_)
    (.inr (checkInsertMember_companyTyped hrfs))
  · cases hfree.symm.trans hm
  · cases ((hget id).trans (if_pos rfl)).symm.trans hm
    rfl

theorem confined_modify_member {m f} (hm : s.members.get? id = some m) (hf : (f m).companyId = m.companyId) :
    ConfinedWith (.member id) s { s with members := s.members.modify id f, authz := z } := by
  refine ⟨m.companyId, ⟨m, hm, rfl⟩, ?_⟩
  have hget := get?_modify_of_some hm f
  refine confined_members (fun i hi => (hget i).trans (if_neg hi)) (fun m' hm' => ?_) (fun m' hm' => ?_)
    (.inl (isSome_iff_exists.mpr ⟨m, hm⟩))
  · cases hm.symm.trans hm'
    rfl
  · cases ((hget id).trans (if_pos rfl)).symm.trans hm'
    exact hf

theorem projectMembership_run {before after : Member}
    (h : (projectMembership actor before after).run Database.apply s = .ok (u, s')) :
    ∃ z, s' = { s with authz := z } := by
  unfold projectMembership at h
  split at h
  · exact authz_of_run h
  · split at h
    · exact authz_of_run h
    · cases h
      exact ⟨s.authz, rfl⟩

theorem updateMember_confined {isGuest}
    (h : (updateMember id actor displayName email isActive isGuest).run Database.apply s = .ok (m, s')) :
    ConfinedWith (.member id) s s' := by
  unfold updateMember getMember updateMemberRow at h
  simp only [Prog.run_bind_eq_ok, Prog.run_ofExcept_eq_ok, run_get, run_update, run_audit] at h
  obtain ⟨_, _, ⟨_, rfl⟩, _, _, ⟨_, rfl⟩, _, s₁, ⟨row, hrow, _, _, rfl⟩, _, s₂, hpro, _, _, rfl, hret⟩ := h
  cases hret
  obtain ⟨z, rfl⟩ := projectMembership_run hpro
  exact confined_modify_member hrow rfl

theorem linkUser_confined {confirmed : Bool} {kcSub : String}
    (h : (linkUser actor confirmed id kcSub).run Database.apply s = .ok (m, s')) :
    ConfinedWith (.member id) s s' := by
  unfold linkUser getMember linkMemberUser setMemberUser at h
  simp only [Prog.run_bind_eq_ok, run_failIf, run_get, run_update, run_audit] at h
  obtain ⟨_, _, ⟨_, rfl⟩, _, _, ⟨_, rfl⟩, _, _, ⟨_, rfl⟩, _, _, ⟨row, hrow, _, _, rfl⟩, _, _, hgrant, _, _, rfl,
    hret⟩ := h
  cases hret
  obtain ⟨z, rfl⟩ := authz_of_run hgrant
  exact confined_modify_member hrow rfl

theorem unlinkUser_confined (h : (unlinkUser actor id).run Database.apply s = .ok (m, s')) :
    ConfinedWith (.member id) s s' := by
  unfold unlinkUser getMemberWithUser unlinkMemberUser setMemberUser at h
  simp only [Prog.run_bind_eq_ok, run_get, run_update, run_whenever, run_audit] at h
  obtain ⟨_, _, ⟨_, rfl⟩, _, _, ⟨row, hrow, _, _, rfl⟩, _, _, hrev, _, _, rfl, hret⟩ := h
  cases hret
  obtain ⟨z, rfl⟩ := authz_of_whenever hrev
  exact confined_modify_member hrow rfl

theorem createPosition_confined
    (h : (createPosition id actor companyId code title orgUnitId).run Database.apply s = .ok (p, s')) :
    Confined companyId s s' := by
  unfold createPosition orgUnitUnderCompany insertPosition at h
  simp only [Prog.run_bind_eq_ok, Prog.run_ofExcept_eq_ok, run_lockOrgTree, run_query, run_failIf, run_write,
    run_audit] at h
  obtain ⟨_, _, ⟨_, rfl⟩, _, _, ⟨_, rfl⟩, _, _, rfl, _, _, ⟨_, rfl⟩, _, _, ⟨_, rfl⟩, _, _, ⟨hrfs, rfl⟩, _, _,
    hgrant, _, _, rfl, hret⟩ := h
  cases hret
  obtain ⟨z, rfl⟩ := authz_of_run hgrant
  obtain ⟨hfree, htyped, hreach⟩ := checkInsertPosition_eq_ok hrfs
  have hget := get?_insertMissing_of_none hfree
    ⟨companyId, normalizeCode code, trimSpace title, orgUnitId⟩
  refine confined_positions (fun i hi => (hget i).trans (if_neg hi)) (fun p hp => ?_) (fun p hp => ?_)
  · cases hfree.symm.trans hp
  · cases ((hget id).trans (if_pos rfl)).symm.trans hp
    exact ⟨rfl, htyped, hreach⟩

theorem updatePosition_confined (h : (updatePosition id title orgUnitId).run Database.apply s = .ok (p, s')) :
    ConfinedWith (.position id) s s' := by
  unfold updatePosition getPosition orgUnitUnderCompany updatePositionRow at h
  simp only [Prog.run_bind_eq_ok, Prog.run_ofExcept_eq_ok, run_lockOrgTree, run_get, run_query, run_failIf,
    run_update, run_audit] at h
  obtain ⟨_, _, ⟨_, rfl⟩, _, _, rfl, _, _, ⟨_, rfl⟩, _, _, ⟨_, rfl⟩, _, _, ⟨_, rfl⟩, _, _,
    ⟨old, hold, hrfs, _, rfl⟩, _, _, rfl, hret⟩ := h
  cases hret
  obtain ⟨htyped, hreach⟩ := checkPosition_eq_ok hrfs
  have hget := get?_modify_of_some hold fun p => p.update (trimSpace title) orgUnitId
  refine ⟨_, ⟨old, hold, rfl⟩, ?_⟩
  refine @confined_positions s _ id s.authz _ (fun i hi => (hget i).trans (if_neg hi)) (fun p hp => ?_)
    (fun p hp => ?_)
  · cases hold.symm.trans hp
    rfl
  · cases ((hget id).trans (if_pos rfl)).symm.trans hp
    exact ⟨rfl, htyped, hreach⟩

theorem endAssignmentTx_effect (h : (endAssignmentTx id actor validTo).run Database.apply s = .ok (r, s')) :
    ∃ z, s' = { s with assignments := s.assignments.modify id fun a => a.endAt validTo, authz := z } := by
  unfold endAssignmentTx endAssignmentRow countOtherOpenAssignments at h
  simp only [Prog.run_bind_eq_ok, run_update, run_query, run_whenever, run_audit] at h
  obtain ⟨_, _, ⟨_, _, _, _, rfl⟩, _, _, ⟨_, rfl⟩, _, _, hrev, _, _, rfl, hret⟩ := h
  cases hret
  obtain ⟨z, rfl⟩ := authz_of_whenever hrev
  exact ⟨z, rfl⟩

theorem createAssignmentTx_effect
    (h : (createAssignmentTx id actor positionId memberId validFrom).run Database.apply s = .ok (r, s')) :
    CheckedAssignment s id ⟨positionId, memberId, validFrom, none⟩ ∧ ∃ z, s' = { s with
      assignments := s.assignments.insertMissing id ⟨positionId, memberId, validFrom, none⟩, authz := z } := by
  unfold createAssignmentTx insertAssignment at h
  simp only [Prog.run_bind_eq_ok, run_write, run_audit] at h
  obtain ⟨_, _, ⟨hrfs, rfl⟩, _, _, hgrant, _, _, rfl, hret⟩ := h
  cases hret
  obtain ⟨z, rfl⟩ := authz_of_run hgrant
  exact ⟨checkInsertAssignment_eq_ok hrfs, z, rfl⟩

theorem confined_endAt {a} (ha : s.assignments.get? id = some a) (hp : s.positions.get? a.positionId = some p) :
    Confined p.companyId s
      { s with assignments := s.assignments.modify id fun a => a.endAt validTo, authz := z } := by
  have hget := get?_modify_of_some ha fun a => a.endAt validTo
  refine confined_assignments hp (fun i b hchg hb => ?_) (fun i b hchg hb => ?_)
  all_goals
    obtain rfl : i = id := by
      by_contra hne
      exact hchg ((hget i).trans (if_neg hne))
  · cases ha.symm.trans hb
    rfl
  · cases ((hget i).trans (if_pos rfl)).symm.trans hb
    exact ⟨rfl, .inl ⟨a, ha, rfl⟩⟩

theorem endAssignment_confined (h : (endAssignment id today actor).run Database.apply s = .ok (r, s')) :
    ∃ a, s.assignments.get? id = some a ∧
      ∀ p, s.positions.get? a.positionId = some p → Confined p.companyId s s' := by
  unfold endAssignment at h
  simp only [Prog.run_bind_eq_ok, Prog.run_ofExcept_eq_ok, run_get, run_failIf] at h
  obtain ⟨a, _, ⟨ha, rfl⟩, _, _, ⟨_, rfl⟩, _, _, ⟨_, rfl⟩, _, _, ⟨_, rfl⟩, h⟩ := h
  obtain ⟨z, rfl⟩ := endAssignmentTx_effect h
  exact ⟨a, ha, fun p hp => confined_endAt ha hp⟩

/-- An assignment to the position is added to those of another state, in which some assignments of the
position may have ended. -/
theorem confined_assign {t : Keyed.Table Uuid Assignment}
    (hp : s.positions.get? positionId = some p) (hmb : s.Belongs (.member memberId) p.companyId)
    (hfree : t.get? id = none) (hfresh : s.assignments.get? id = none)
    (hended : ∀ i, t.get? i = s.assignments.get? i ∨ ∃ a b, s.assignments.get? i = some a ∧
      t.get? i = some b ∧ a.positionId = positionId ∧ b.positionId = positionId ∧ b.memberId = a.memberId) :
    Confined p.companyId s
      { s with assignments := t.insertMissing id ⟨positionId, memberId, validFrom, none⟩, authz := z } := by
  have hget := get?_insertMissing_of_none hfree ⟨positionId, memberId, validFrom, none⟩
  refine confined_assignments hp (fun i a hchg ha => ?_) (fun i a hchg ha => ?_)
  · have hne : i ≠ id := by
      rintro rfl
      cases hfresh.symm.trans ha
    rw [hget, if_neg hne] at hchg
    rcases hended i with hsame | ⟨a', b, ha', _, hpos, _⟩
    · exact absurd hsame hchg
    · cases ha'.symm.trans ha
      exact hpos
  · rw [hget] at ha hchg
    split at ha
    · cases ha
      exact ⟨rfl, .inr hmb⟩
    rename_i hne
    rw [if_neg hne] at hchg
    rcases hended i with hsame | ⟨a', b, ha', hb, _, hpos, hsame⟩
    · exact absurd hsame hchg
    · cases hb.symm.trans ha
      exact ⟨hpos, .inl ⟨a', ha', hsame.symm⟩⟩

theorem assignNow_confined (h : (assignNow id today actor positionId memberId).run Database.apply s = .ok (r, s')) :
    ConfinedWith (.position positionId) s s' := by
  unfold assignNow getAssignmentOnDate at h
  simp only [Prog.run_bind_eq_ok, run_lockOrgTree, Prog.run_ofExcept_eq_ok, run_query] at h
  obtain ⟨_, _, rfl, _, _, hcheck, _, _, ⟨_, rfl⟩, held, _, ⟨_, rfl⟩, h⟩ := h
  obtain ⟨rfl, p, m, hp, hm, _, hco⟩ := checkAssignee_run hcheck
  cases held with
  | some r => cases h
  | none =>
    obtain ⟨hchk, z, rfl⟩ := createAssignmentTx_effect h
    exact ⟨_, ⟨p, hp, rfl⟩, confined_assign hp ⟨m, hm, hco.symm⟩ hchk.fresh hchk.fresh fun _ => .inl rfl⟩

theorem handover_confined {expected : Option Uuid} {r : Option (Uuid × Assignment) × (Uuid × Assignment)}
    (h : (handover id today actor positionId memberId expected).run Database.apply s = .ok (r, s')) :
    ConfinedWith (.position positionId) s s' := by
  unfold handover getAssignmentOnDate at h
  simp only [Prog.run_bind_eq_ok, run_lockOrgTree, Prog.run_ofExcept_eq_ok, run_query] at h
  obtain ⟨_, _, rfl, _, _, hcheck, today, _, ⟨_, rfl⟩, held, _, ⟨hfind, rfl⟩, h⟩ := h
  obtain ⟨rfl, p, m, hp, hm, _, hco⟩ := checkAssignee_run hcheck
  refine ⟨_, ⟨p, hp, rfl⟩, ?_⟩
  cases held with
  | none => cases h
  | some held =>
    have ha := get?_eq_some_iff.mpr (mem_of_find?_eq_some hfind)
    have hheld := find?_some hfind
    have hpos : held.2.positionId = positionId := (of_decide_eq_true hheld).1
    dsimp only at h
    split at h
    · -- the member holds the position already
      cases h
      exact fun row hchg => absurd (s.same_self row) hchg
    simp only [Prog.run_bind_eq_ok, run_failIf] at h
    obtain ⟨_, _, ⟨_, rfl⟩, _, _, hended, _, _, hcre, hret⟩ := h
    cases hret
    obtain ⟨z, rfl⟩ := endAssignmentTx_effect hended
    obtain ⟨hchk, z', rfl⟩ := createAssignmentTx_effect hcre
    have hget := get?_modify_of_some ha fun a => a.endAt today
    have hfree : (s.assignments.modify held.1 fun a => a.endAt today).get? id = none := hchk.fresh
    refine confined_assign hp ⟨m, hm, hco.symm⟩ hfree ?_ fun i => ?_
    · rw [hget] at hfree
      split at hfree
      · cases hfree
      · exact hfree
    · rw [hget]
      split
      · rename_i hi
        exact .inr ⟨held.2, _, hi ▸ ha, rfl, hpos, hpos, rfl⟩
      · exact .inl rfl

theorem checkInsertGroup_eq_ok (h : s.checkInsertGroup id g = .ok u) :
    s.companyTyped g.companyId = true ∧ s.groups.get? id = none := by
  unfold Database.checkInsertGroup at h
  simp only [bind_eq_ok, refuseIf_eq_ok, unique_eq_ok, not_not] at h
  obtain ⟨_, _, _, htyped, _, _, _, _, _, _, _, hfree, _⟩ := h
  exact ⟨htyped, isNone_iff_eq_none.mp hfree⟩

theorem createGroup_effect (h : createGroup id actor companyId code name s = .ok (g, s')) :
    s.companyTyped g.companyId = true ∧ s.groups.get? id = none ∧ g.companyId = companyId ∧
      ∃ z, s' = { s with groups := s.groups.insertMissing id g, authz := z } := by
  unfold createGroup at h
  simp only [bind_eq_ok, mapError_eq_ok] at h
  obtain ⟨_, _, _, _, _, hrfs, granted, hgrant, hret⟩ := h
  cases hret
  obtain ⟨z, hz⟩ := authz_of_run hgrant
  obtain ⟨htyped, hfree⟩ := checkInsertGroup_eq_ok hrfs
  exact ⟨htyped, hfree, rfl, z, hz⟩

theorem createGroup_confined
    (h : createGroup id actor companyId code name s = .ok (g, s')) : Confined companyId s s' := by
  obtain ⟨htyped, hfree, rfl, z, rfl⟩ := createGroup_effect h
  exact confined_groups rfl htyped hfree (get?_insertMissing_of_none hfree g)

/-- What a position was deleted from: no assignment names it. -/
theorem deletePosition_effect (h : deletePosition actor id s = .ok s') :
    (∀ i a, s.assignments.get? i = some a → a.positionId ≠ id) ∧
      ∃ z, s' = { s with positions := s.positions.erase id, authz := z } := by
  unfold deletePosition at h
  split at h
  · cases h
  dsimp only at h
  split at h
  · cases h
  obtain ⟨⟨_, s₁⟩, hrev, h⟩ := bind_eq_ok.mp h
  obtain ⟨z, rfl⟩ := authz_of_run (mapError_eq_ok.mp hrev)
  split at h
  · rename_i hunu
    cases h
    refine ⟨fun i a ha => ?_, z, rfl⟩
    exact of_decide_eq_true (all_eq_true.mp hunu (i, a) (get?_eq_some_iff.mp ha))
  · cases h

theorem insertGroupMember_run {row inserted}
    (h : (insertGroupMember groupId memberId row).run Database.apply s = .ok (inserted, s')) :
    s' = s ∨ s' = s.apply (.insertGroupMember groupId memberId row) := by
  unfold insertGroupMember at h
  rw [Prog.run_exec] at h
  obtain ⟨⟨_, writes⟩, hans, heq⟩ := map_eq_ok.mp h
  cases heq
  split at hans
  · cases hans
  split at hans
  · cases hans
    exact .inl rfl
  · cases hans
    exact .inr rfl

theorem addGroupMember_confined {now : Int} {m}
    (h : (addGroupMember now actor groupId memberId).run Database.apply s = .ok (m, s')) :
    ConfinedWith (.group groupId) s s' := by
  unfold addGroupMember getGroup getMember getGroupMember at h
  simp only [Prog.run_bind_eq_ok, run_get, run_failIf, run_whenever, run_audit] at h
  obtain ⟨g, _, ⟨hg, rfl⟩, _, _, ⟨_, rfl⟩, row, _, ⟨hrow, rfl⟩, _, _, ⟨_, rfl⟩, _, _, ⟨hco, rfl⟩, _, s₁,
    hins, _, _, ⟨_, rfl⟩, _, s₂, hgrant, _, s₃, haudit, hret⟩ := h
  cases hret
  obtain rfl : s₂ = s' := by
    rcases haudit with ⟨_, rfl⟩ | ⟨_, rfl⟩
    · rfl
    · rfl
  obtain ⟨z, rfl⟩ := authz_of_run hgrant
  have hmb : s.Belongs (.member memberId) g.companyId := ⟨row, hrow, not_not.mp hco⟩
  refine ⟨_, ⟨g, hg, rfl⟩, ?_⟩
  rcases insertGroupMember_run hins with rfl | rfl
  · exact confined_groupMembers ⟨g, hg, rfl⟩ (fun _ _ => rfl) fun _ => hmb
  · refine confined_groupMembers ⟨g, hg, rfl⟩ (fun k hk => ?_) fun _ => hmb
    rw [Database.apply, get?_insertMissing, if_neg hk]

theorem deleteGroupMember_run (h : (deleteGroupMember groupId memberId).run Database.apply s = .ok (u, s')) :
    s' = s.apply (.deleteGroupMember groupId memberId) := by
  unfold deleteGroupMember at h
  rw [Prog.run_exec] at h
  obtain ⟨⟨_, writes⟩, hans, heq⟩ := map_eq_ok.mp h
  cases heq
  split at hans
  · cases hans
    rfl
  · cases hans

theorem removeGroupMember_confined
    (h : (removeGroupMember actor groupId memberId).run Database.apply s = .ok (u, s')) :
    ConfinedWith (.group groupId) s s' := by
  unfold removeGroupMember getGroup at h
  simp only [Prog.run_bind_eq_ok, run_get, run_failIf, run_audit] at h
  obtain ⟨g, _, ⟨hg, rfl⟩, _, _, ⟨_, rfl⟩, _, s₁, hdel, _, _, hrev, rfl⟩ := h
  obtain rfl := deleteGroupMember_run hdel
  obtain ⟨z, rfl⟩ := authz_of_run hrev
  refine ⟨_, ⟨g, hg, rfl⟩, @confined_groupMembers s _ z _ groupId memberId ⟨g, hg, rfl⟩ (fun k hk => ?_) fun hhas => ?_⟩
  · rw [Database.apply, get?_erase, if_neg hk]
  · rw [Database.apply, get?_erase, if_pos rfl] at hhas
    cases hhas

end Operations

end Kiban.Org
