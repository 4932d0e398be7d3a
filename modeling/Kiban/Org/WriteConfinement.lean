import Kiban.Org.RowOwners

/-!
# Writes stay in the company

A request that commits was allowed to the superadmin, or to the administrator of one company.  In the second case every
row it changes is of that company, and so is every row that a changed row comes to name.  What others commit after the
handler has looked a row up gives it to no other company.
-/

namespace Kiban.Org

open PercentPath Transactions OrgTx Database Fallible Keyed.Table

/-! ## Between the look and the transaction -/

/-- The row a statement adds. -/
def Write.inserts : Write → Option Record
  | .insertMember id _ => some (.member id)
  | .insertPosition id _ => some (.position id)
  | .insertAssignment id _ => some (.assignment id)
  | _ => none

/-- What the statements of others may have made of the database since: a new row has an id that no row
had. -/
inductive Later (seen : Database) : Database → Prop
  | start : Later seen seen
  | write {s : Database} {w : Write} (hs : Later seen s)
      (hnew : ∀ r, w.inserts = some r → ¬ seen.Has (.record r)) : Later seen (s.apply w)
  | createGroup {s s' : Database} {id companyId : Uuid} {actor code name : String} {g : Group}
      (hs : Later seen s) (hnew : ¬ seen.Has (.record (.group id)))
      (h : createGroup id actor companyId code name s = .ok (g, s')) : Later seen s'
  | deletePosition {s s' : Database} {id : Uuid} {actor : String} (hs : Later seen s)
      (h : deletePosition actor id s = .ok s') : Later seen s'
  -- other services write what is not of the structure
  | elsewhere {s : Database} (hs : Later seen s) (accounts : Accounts) (enabledModules : List String)
      (z : Store) :
      Later seen { s with accounts := accounts, enabledModules := enabledModules, authz := z }

def Database.KeepsCompanies (seen s : Database) : Prop :=
  ∀ r companyId, seen.Belongs r companyId → s.Has (.record r) → s.Belongs r companyId

section Between

variable {seen s s' : Database} {r : Record} {companyId : Uuid} {w : Write} {id : Uuid} {actor : String}

theorem has_of_belongs (h : s.Belongs r companyId) : s.Has (.record r) := by
  cases r with
  | member i | position i | group i => exact Option.isSome_iff_exists.mpr ⟨h.choose, h.choose_spec.1⟩
  | assignment i =>
    obtain ⟨a, _, ha, _⟩ := h
    exact Option.isSome_iff_exists.mpr ⟨a, ha⟩

/-! No statement gives a row to another company. -/

theorem member_apply {m} (h : s.members.get? id = some m) (w : Write) :
    ∃ m', (s.apply w).members.get? id = some m' ∧ m'.companyId = m.companyId := by
  cases w with
  | insertMember i row => exact ⟨m, get?_insertMissing_of_some h i row, rfl⟩
  | updateMember i displayName email isActive isGuest =>
    exact exists_get?_modify MemberRow.companyId
      (fun m => m.update displayName email isActive isGuest) (fun _ => rfl) h i
  | setMemberUser i userId =>
    exact exists_get?_modify MemberRow.companyId (fun m => m.setUser userId) (fun _ => rfl) h i
  | _ => exact ⟨m, h, rfl⟩

theorem position_apply {p} (h : s.positions.get? id = some p) (w : Write) :
    ∃ p', (s.apply w).positions.get? id = some p' ∧ p'.companyId = p.companyId := by
  cases w with
  | insertPosition i row => exact ⟨p, get?_insertMissing_of_some h i row, rfl⟩
  | updatePosition i title orgUnitId =>
    exact exists_get?_modify Position.companyId (fun p => p.update title orgUnitId) (fun _ => rfl) h i
  | _ => exact ⟨p, h, rfl⟩

theorem assignment_apply {a} (h : s.assignments.get? id = some a) (w : Write) :
    ∃ a', (s.apply w).assignments.get? id = some a' ∧ a'.positionId = a.positionId := by
  cases w with
  | insertAssignment i row => exact ⟨a, get?_insertMissing_of_some h i row, rfl⟩
  | endAssignment i validTo =>
    exact exists_get?_modify Assignment.positionId (fun a => a.endAt validTo) (fun _ => rfl) h i
  | _ => exact ⟨a, h, rfl⟩

theorem belongs_apply (w : Write) (h : s.Belongs r companyId) : (s.apply w).Belongs r companyId := by
  cases r with
  | member id =>
    obtain ⟨m, hm, rfl⟩ := h
    exact member_apply hm w
  | position id =>
    obtain ⟨p, hp, rfl⟩ := h
    exact position_apply hp w
  | assignment id =>
    obtain ⟨a, p, ha, hp, rfl⟩ := h
    obtain ⟨a', ha', hpos⟩ := assignment_apply ha w
    obtain ⟨p', hp', hco⟩ := position_apply hp w
    exact ⟨a', p', ha', hpos ▸ hp', hco⟩
  | group id => cases w <;> exact h

theorem has_of_apply (h : (s.apply w).Has (.record r)) : s.Has (.record r) ∨ w.inserts = some r := by
  cases w with
  | insertMember i row =>
    cases r with
    | member id =>
      rcases isSome_get?_insertMissing h with hold | rfl
      · exact .inl hold
      · exact .inr rfl
    | _ => exact .inl h
  | insertPosition i row =>
    cases r with
    | position id =>
      rcases isSome_get?_insertMissing h with hold | rfl
      · exact .inl hold
      · exact .inr rfl
    | _ => exact .inl h
  | insertAssignment i row =>
    cases r with
    | assignment id =>
      rcases isSome_get?_insertMissing h with hold | rfl
      · exact .inl hold
      · exact .inr rfl
    | _ => exact .inl h
  | updateMember i displayName email isActive isGuest | setMemberUser i userId =>
    cases r with
    | member id => exact .inl ((isSome_get?_modify _ id).symm.trans h)
    | _ => exact .inl h
  | updatePosition i title orgUnitId =>
    cases r with
    | position id => exact .inl ((isSome_get?_modify _ id).symm.trans h)
    | _ => exact .inl h
  | endAssignment i validTo =>
    cases r with
    | assignment id => exact .inl ((isSome_get?_modify _ id).symm.trans h)
    | _ => exact .inl h
  | _ => exact .inl (by cases r <;> exact h)

theorem Database.KeepsCompanies.apply (h : seen.KeepsCompanies s)
    (hnew : ∀ r, w.inserts = some r → ¬ seen.Has (.record r)) : seen.KeepsCompanies (s.apply w) := by
  intro r companyId hseen hhas
  rcases has_of_apply hhas with hold | hins
  · exact belongs_apply w (h r companyId hseen hold)
  · exact absurd (has_of_belongs hseen) (hnew r hins)

theorem Database.KeepsCompanies.createGroup {code name g} (h : seen.KeepsCompanies s)
    (hnew : ¬ seen.Has (.record (.group id)))
    (hcre : Org.createGroup id actor companyId code name s = .ok (g, s')) :
    seen.KeepsCompanies s' := by
  obtain ⟨_, _, _, z, rfl⟩ := createGroup_effect hcre
  intro r company hseen hhas
  cases r with
  | group i =>
    rcases isSome_get?_insertMissing hhas with hold | rfl
    · obtain ⟨g', hg', hco⟩ := h (.group i) company hseen hold
      exact ⟨g', get?_insertMissing_of_some hg' _ _, hco⟩
    · exact absurd (has_of_belongs hseen) hnew
  | _ => exact h _ company hseen hhas

theorem Database.KeepsCompanies.deletePosition (h : seen.KeepsCompanies s)
    (hdel : Org.deletePosition actor id s = .ok s') : seen.KeepsCompanies s' := by
  obtain ⟨hunu, z, rfl⟩ := deletePosition_effect hdel
  have hget : ∀ i, i ≠ id → (s.positions.erase id).get? i = s.positions.get? i := by
    intro i hi
    rw [get?_erase, if_neg hi]
  intro r company hseen hhas
  cases r with
  | position i =>
    have hne : i ≠ id := by
      rintro rfl
      change ((s.positions.erase i).get? i).isSome = true at hhas
      rw [get?_erase, if_pos rfl] at hhas
      cases hhas
    obtain ⟨p, hp, hco⟩ := h (.position i) company hseen ((congrArg _ (hget i hne)).symm.trans hhas)
    exact ⟨p, (hget i hne).trans hp, hco⟩
  | assignment i =>
    obtain ⟨a, p, ha, hp, hco⟩ := h (.assignment i) company hseen hhas
    exact ⟨a, p, ha, (hget _ (hunu i a ha)).trans hp, hco⟩
  | _ => exact h _ company hseen hhas

theorem Later.keepsCompanies (h : Later seen s) : seen.KeepsCompanies s := by
  induction h with
  | start => exact fun _ _ hbel _ => hbel
  | write _ hnew ih => exact ih.apply hnew
  | createGroup _ hnew h ih => exact ih.createGroup hnew h
  | deletePosition _ h ih => exact ih.deletePosition h
  | elsewhere _ _ _ _ ih =>
    intro r companyId hseen hhas
    cases r <;> exact ih _ companyId hseen hhas

end Between

/-! ## The handlers -/

section Handlers

variable {svc : Service} {bearer : String} {seen s s' : Database} {v : View} {id : Bytes}
  {α : Type} {body : Option MemberRequest} {memberId : Option String} {action : String}

theorem found_eq_ok {row : Option α} {missing a} : found row missing = .ok a ↔ row = some a := by
  cases row with
  | none => exact ⟨nofun, nofun⟩
  | some b => simp [found]

theorem transact_eq_ok {p} {r : α × Database} :
    transact s p = .ok r ↔ p.run Database.apply s = .ok r := mapError_eq_ok

/-- What a handler that asks about one company comes to. -/
def ConfinedIn (svc : Service) (bearer action : String) (s s' : Database) : Prop :=
  ∃ companyId, svc.authz.canInCompany bearer action companyId = .allowed ∧ Confined companyId s s'

/-- The company that was asked for is the one of the row the transaction found. -/
theorem confinedIn_of_seen {r companyId} (hkept : seen.KeepsCompanies s) (hseen : seen.Belongs r companyId)
    (hauth : svc.authz.canInCompany bearer action companyId = .allowed) (h : ConfinedWith r s s') :
    ConfinedIn svc bearer action s s' := by
  obtain ⟨companyId', hfound, hcon⟩ := h
  refine ⟨companyId, hauth, ?_⟩
  rwa [belongs_unique (hkept r companyId hseen (has_of_belongs hfound)) hfound]

theorem handleCreateMember_confined (h : handleCreateMember svc bearer s body = .ok (v, s')) :
    ConfinedIn svc bearer "org.member.create" s s' := by
  unfold handleCreateMember authorizeInCompany at h
  simp only [bind_eq_ok, finishAuthorize_eq_ok, transact_eq_ok] at h
  obtain ⟨req, _, companyId, _, _, hauth, ⟨member, s₁⟩, hrun, hret⟩ := h
  cases hret
  exact ⟨companyId, hauth, createMember_confined hrun⟩

theorem handleUpdateMember_confined (hkept : seen.KeepsCompanies s)
    (h : handleUpdateMember svc bearer seen s id body = .ok (v, s')) :
    ConfinedIn svc bearer "org.member.update" s s' := by
  unfold handleUpdateMember authorizeInCompany at h
  simp only [bind_eq_ok, finishAuthorize_eq_ok, transact_eq_ok, found_eq_ok] at h
  obtain ⟨memberId, _, existing, hseen, _, hauth, req, _, ⟨member, s₁⟩, hrun, hret⟩ := h
  cases hret
  exact confinedIn_of_seen (r := .member memberId) hkept ⟨existing, hseen, rfl⟩ hauth (updateMember_confined hrun)

theorem handleLinkUser_confined {kcSub : Option String} (hkept : seen.KeepsCompanies s)
    (h : handleLinkUser svc bearer seen s id kcSub = .ok (v, s')) :
    ConfinedIn svc bearer "org.member.link_user" s s' := by
  unfold handleLinkUser authorizeInCompany at h
  simp only [bind_eq_ok, finishAuthorize_eq_ok, transact_eq_ok, found_eq_ok] at h
  obtain ⟨memberId, _, existing, hseen, _, hauth, kcSub, _, ⟨member, s₁⟩, hrun, hret⟩ := h
  cases hret
  exact confinedIn_of_seen (r := .member memberId) hkept ⟨existing, hseen, rfl⟩ hauth (linkUser_confined hrun)

theorem handleUnlinkUser_confined (hkept : seen.KeepsCompanies s)
    (h : handleUnlinkUser svc bearer seen s id = .ok (v, s')) :
    ConfinedIn svc bearer "org.member.unlink_user" s s' := by
  unfold handleUnlinkUser authorizeInCompany at h
  simp only [bind_eq_ok, finishAuthorize_eq_ok, transact_eq_ok, found_eq_ok] at h
  obtain ⟨memberId, _, existing, hseen, _, hauth, ⟨member, s₁⟩, hrun, hret⟩ := h
  cases hret
  exact confinedIn_of_seen (r := .member memberId) hkept ⟨existing, hseen, rfl⟩ hauth (unlinkUser_confined hrun)

theorem handleAdminCreatePosition_confined {body : Option AdminCreatePositionRequest}
    (h : handleAdminCreatePosition svc bearer s id body = .ok (v, s')) :
    ConfinedIn svc bearer "org.position.create" s s' := by
  unfold handleAdminCreatePosition authorizeInCompany at h
  simp only [bind_eq_ok, finishAuthorize_eq_ok, transact_eq_ok] at h
  obtain ⟨companyId, _, _, hauth, req, _, _, _, orgUnitId, _, ⟨position, s₁⟩, hrun, hret⟩ := h
  cases hret
  exact ⟨companyId, hauth, createPosition_confined hrun⟩

theorem handleAdminUpdatePosition_confined {body : Option AdminUpdatePositionRequest}
    (hkept : seen.KeepsCompanies s)
    (h : handleAdminUpdatePosition svc bearer seen s id body = .ok (v, s')) :
    ConfinedIn svc bearer "org.position.update" s s' := by
  unfold handleAdminUpdatePosition authorizeInCompany at h
  simp only [bind_eq_ok, finishAuthorize_eq_ok, transact_eq_ok, found_eq_ok] at h
  obtain ⟨positionId, _, existing, hseen, _, hauth, req, _, orgUnitId, _, ⟨position, s₁⟩, hrun, hret⟩ := h
  cases hret
  exact confinedIn_of_seen (r := .position positionId) hkept ⟨existing, hseen, rfl⟩ hauth (updatePosition_confined hrun)

theorem handleEndAssignment_confined (hkept : seen.KeepsCompanies s)
    (h : handleEndAssignment svc bearer seen s id = .ok (v, s')) :
    ConfinedIn svc bearer "org.assignment.end" s s' := by
  unfold handleEndAssignment assignmentCompany authorizeInCompany at h
  simp only [bind_eq_ok, finishAuthorize_eq_ok, transact_eq_ok, found_eq_ok] at h
  obtain ⟨assignmentId, _, companyId, ⟨a, ha, p, hp, hco⟩, _, hauth, ⟨assignment, s₁⟩, hrun, hret⟩ := h
  cases hret
  cases hco
  obtain ⟨a', ha', hcon⟩ := endAssignment_confined hrun
  -- the assignment is at the same position still
  obtain ⟨a'', p', ha'', hp', hco⟩ := hkept (.assignment assignmentId) _ ⟨a, p, ha, hp, rfl⟩
    (Option.isSome_iff_exists.mpr ⟨a', ha'⟩)
  cases ha'.symm.trans ha''
  exact ⟨_, hauth, hco ▸ hcon p' hp'⟩

theorem handleAssignNow_confined (hkept : seen.KeepsCompanies s)
    (h : handleAssignNow svc bearer seen s id memberId = .ok (v, s')) :
    ConfinedIn svc bearer "org.assignment.create" s s' := by
  unfold handleAssignNow authorizeInCompany at h
  simp only [bind_eq_ok, finishAuthorize_eq_ok, transact_eq_ok, found_eq_ok] at h
  obtain ⟨positionId, _, existing, hseen, _, hauth, _, _, memberId, _, ⟨assignment, s₁⟩, hrun, hret⟩ := h
  cases hret
  exact confinedIn_of_seen (r := .position positionId) hkept ⟨existing, hseen, rfl⟩ hauth (assignNow_confined hrun)

theorem handleHandover_confined {body : Option HandoverRequest} (hkept : seen.KeepsCompanies s)
    (h : handleHandover svc bearer seen s id body = .ok (v, s')) :
    ConfinedIn svc bearer "org.assignment.create" s s' := by
  unfold handleHandover authorizeInCompany at h
  simp only [bind_eq_ok, finishAuthorize_eq_ok, transact_eq_ok, found_eq_ok] at h
  obtain ⟨positionId, _, existing, hseen, _, hauth, req, _, memberId, _, expected, _, ⟨⟨ended, created⟩, s₁⟩, hrun,
    hret⟩ := h
  cases hret
  exact confinedIn_of_seen (r := .position positionId) hkept ⟨existing, hseen, rfl⟩ hauth (handover_confined hrun)

theorem handleAdminCreateGroup_confined {body} (h : handleAdminCreateGroup svc bearer s id body = .ok (v, s')) :
    ConfinedIn svc bearer "org.group.create" s s' := by
  unfold handleAdminCreateGroup authorizeInCompany at h
  simp only [bind_eq_ok, finishAuthorize_eq_ok, mapError_eq_ok] at h
  obtain ⟨companyId, _, _, hauth, req, _, _, _, ⟨group, s₁⟩, hrun, hret⟩ := h
  cases hret
  exact ⟨companyId, hauth, createGroup_confined hrun⟩

theorem handleAddGroupMember_confined (hkept : seen.KeepsCompanies s)
    (h : handleAddGroupMember svc bearer seen s id memberId = .ok (v, s')) :
    ConfinedIn svc bearer "org.group.member_add" s s' := by
  unfold handleAddGroupMember authorizeInCompany at h
  simp only [bind_eq_ok, finishAuthorize_eq_ok, transact_eq_ok, found_eq_ok] at h
  obtain ⟨groupId, _, existing, hseen, _, hauth, _, _, memberId, _, ⟨member, s₁⟩, hrun, hret⟩ := h
  cases hret
  exact confinedIn_of_seen (r := .group groupId) hkept ⟨existing, hseen, rfl⟩ hauth (addGroupMember_confined hrun)

theorem handleRemoveGroupMember_confined {memberId : Bytes} (hkept : seen.KeepsCompanies s)
    (h : handleRemoveGroupMember svc bearer seen s id memberId = .ok (v, s')) :
    ConfinedIn svc bearer "org.group.member_remove" s s' := by
  unfold handleRemoveGroupMember authorizeInCompany at h
  simp only [bind_eq_ok, finishAuthorize_eq_ok, transact_eq_ok, found_eq_ok] at h
  obtain ⟨groupId, _, memberId, _, existing, hseen, _, hauth, ⟨_, s₁⟩, hrun, hret⟩ := h
  cases hret
  exact confinedIn_of_seen (r := .group groupId) hkept ⟨existing, hseen, rfl⟩ hauth (removeGroupMember_confined hrun)

/-! The superadmin's routes. -/

theorem allowed_of_authorize {rest : Unit → Except ApiError α} {a}
    (h : (authorize svc bearer action >>= rest) = .ok a) :
    svc.authz.can bearer action = .allowed := by
  obtain ⟨_, hauth, _⟩ := bind_eq_ok.mp h
  exact finishAuthorize_eq_ok.mp hauth

theorem allowed_of_parse {rest : Uuid → Unit → Except ApiError α} {a} {parsed : Except ApiError Uuid}
    (h : (parsed >>= fun id => authorize svc bearer action >>= rest id) = .ok a) :
    svc.authz.can bearer action = .allowed := by
  obtain ⟨_, _, h⟩ := bind_eq_ok.mp h
  exact allowed_of_authorize h

/-- A request that commits was allowed to the superadmin, or to the administrator of a company in which
it stays. -/
theorem writes_confined {r : WriteRequest} (hlater : Later seen s)
    (h : handleWrite svc bearer seen s r = .ok (v, s')) :
    svc.authz.can bearer r.action = .allowed ∨
      ∃ companyId, svc.authz.canInCompany bearer r.action companyId = .allowed ∧
        Confined companyId s s' := by
  have hkept := hlater.keepsCompanies
  cases r with
  | createUnit body | createPosition body | createAndAssign body => exact .inl (allowed_of_authorize h)
  | updateUnit id body | deleteUnit id | updatePosition id body
  | deletePosition id => exact .inl (allowed_of_parse h)
  | createMember body => exact .inr (handleCreateMember_confined h)
  | updateMember id body => exact .inr (handleUpdateMember_confined hkept h)
  | linkUser id kcSub => exact .inr (handleLinkUser_confined hkept h)
  | unlinkUser id => exact .inr (handleUnlinkUser_confined hkept h)
  | adminCreatePosition id body => exact .inr (handleAdminCreatePosition_confined h)
  | adminUpdatePosition id body => exact .inr (handleAdminUpdatePosition_confined hkept h)
  | endAssignment id => exact .inr (handleEndAssignment_confined hkept h)
  | assignNow id memberId => exact .inr (handleAssignNow_confined hkept h)
  | handover id body => exact .inr (handleHandover_confined hkept h)
  | adminCreateGroup id body => exact .inr (handleAdminCreateGroup_confined h)
  | addGroupMember id memberId => exact .inr (handleAddGroupMember_confined hkept h)
  | removeGroupMember id memberId => exact .inr (handleRemoveGroupMember_confined hkept h)

end Handlers

def twoCompanies : Database :=
  { office with
    units := ⟨[("00000000-0000-4000-8000-00000000000a", ⟨"company", none, "ACME", "Acme", true⟩),
      ("00000000-0000-4000-8000-00000000000b", ⟨"company", none, "BOLT", "Bolt", true⟩)], by decide⟩
    members := ⟨[("00000000-0000-4000-8000-0000000000a1",
      ⟨"00000000-0000-4000-8000-00000000000a", "M1", "Mia", none, none, true, false⟩)], by decide⟩
    groups := ⟨[("00000000-0000-4000-8000-0000000000a2",
      ⟨"00000000-0000-4000-8000-00000000000a", "STAFF", "Staff", "kiban", none, true⟩)], by decide⟩ }

/-- The administrator of the first company is the only one who may do anything. -/
def acmeOnly : Service where
  authz := ⟨fun _ _ => .denied "PLATFORM_ROLE_REQUIRED", fun bearer _ companyId =>
    if bearer = "alice" ∧ companyId = "00000000-0000-4000-8000-00000000000a" then .allowed
    else .denied "COMPANY_ROLE_REQUIRED"⟩
  actorFor bearer := bearer
  confirmed _ := false
  parseDate _ := none
  newId := "00000000-0000-4000-8000-0000000000c1"
  newAssignmentId := "00000000-0000-4000-8000-0000000000c2"
  today := .ok 0
  now := 0

def addMia : WriteRequest :=
  .addGroupMember (ascii "00000000-0000-4000-8000-0000000000a2") (some "00000000-0000-4000-8000-0000000000a1")

theorem writes_confined_addMia :
    ∃ v s', handleWrite acmeOnly "alice" twoCompanies twoCompanies addMia = .ok (v, s') ∧
      (acmeOnly.authz.can "alice" addMia.action = .allowed ∨
        ∃ companyId, acmeOnly.authz.canInCompany "alice" addMia.action companyId = .allowed ∧
          Confined companyId twoCompanies s') := by
  have hrun : (handleWrite acmeOnly "alice" twoCompanies twoCompanies addMia).isOk = true := by
    decide +kernel
  obtain ⟨⟨v, s'⟩, h⟩ := exists_ok_of_isOk hrun
  exact ⟨v, s', h, writes_confined .start h⟩

end Kiban.Org
