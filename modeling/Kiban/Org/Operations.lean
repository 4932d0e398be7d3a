import Kiban.Org.Tables

/-!
# The org service's transactions

Each write of the service is one transaction, statement by statement.  An error rolls it back.  What is
decided outside the database is an argument: the ids of new rows, what `today()` answers, and whether
identity has confirmed an account.
-/

namespace Kiban.Org

open Transactions OrgTx

/-! ## Tuples -/

def companyMemberTuple (companyId memberId : Uuid) : Tuple :=
  ⟨"company", companyId, "member", "member", memberId, "mapped_user"⟩

def orgObjectCompanyTuple (objType : String) (id companyId : Uuid) : Tuple :=
  ⟨objType, id, "company", "company", companyId, ""⟩

def mappedUserTuple (memberId : Uuid) (kcSub : String) : Tuple :=
  ⟨"member", memberId, "mapped_user", "user", kcSub, ""⟩

def holderTuple (positionId memberId : Uuid) : Tuple :=
  ⟨"position", positionId, "holder", "member", memberId, "mapped_user"⟩

def groupMemberTuple (groupId memberId : Uuid) : Tuple :=
  ⟨"group", groupId, "member", "member", memberId, "mapped_user"⟩

def author (actor : String) : Author := ⟨actor, ""⟩

/-! ## Org units -/

def checkCompanyIsRoot (isCompany : Bool) (parentId : Option Uuid) : Except OrgError Unit :=
  if isCompany ∧ parentId ≠ none then
    .error (.validation "parentId" "a company org unit cannot have a parent")
  else if ¬ isCompany ∧ parentId = none then
    .error (.validation "parentId" "only a company org unit can be a root; give this unit a parent")
  else .ok ()

def getOrgUnitType (typeKey : String) (missing : OrgError) : OrgTx Bool :=
  get .getOrgUnitType (fun s => s.unitTypes.get? typeKey) missing

def defaultGrantActor : String := "org-default"

def enabledModuleKeysTx : OrgTx (List String) := query .enabledModuleKeys Database.enabledModules

def defaultGrantNewCompanyTx (companyId : Uuid) : OrgTx Unit := do
  let moduleKeys ← enabledModuleKeysTx
  moduleKeys.forM fun moduleKey => do
    let _ ← authz ("org: default module-access grant module " ++ moduleKey)
      (.ensureDefaultGrant (author defaultGrantActor) companyId moduleKey)
    pure ()

def insertOrgUnit (id : Uuid) (u : OrgUnit) : OrgTx Unit :=
  write .createOrgUnit [.tree, .unit id, .unitCode u.parentId u.code]
    (fun s => s.checkInsertOrgUnit id u) (.insertOrgUnit id u)

def createOrgUnit (id : Uuid) (typeKey : String) (parentId : Option Uuid) (code name : String)
    (isActive : Bool) : OrgTx OrgUnit := do
  let code := normalizeCode code
  let name := trimSpace name
  .ofExcept (validateCode "code" code)
  .ofExcept (validateNameLen "name" name 2 120)
  let isCompany ← getOrgUnitType typeKey (.validation "typeKey" "unknown org unit type")
  .ofExcept (checkCompanyIsRoot isCompany parentId)
  let unit : OrgUnit := ⟨typeKey, parentId, code, name, isActive⟩
  insertOrgUnit id unit
  audit
  whenever (isActive ∧ isCompany) (defaultGrantNewCompanyTx id)
  return unit

def resolveRootCompany (id : Uuid) : OrgTx Uuid :=
  get .resolveRootCompany (fun s => s.rootOf id) (.internal "org: resolve root company: no rows in result set")

/-- The checks before a unit moves: positions stay in their company. -/
def checkMove (id : Uuid) (parentId : Option Uuid) : OrgTx Unit := do
  let oldRoot ← resolveRootCompany id
  let newRoot ← match parentId with
    | none => pure id
    | some p => resolveRootCompany p
  whenever (oldRoot ≠ newRoot) do
    let hasPositions ← query .subtreeHasPositions fun s =>
      s.positions.rows.any fun r => r.2.orgUnitId ∈ s.subtree s.unitIds.length id
    failIf hasPositions (.validation "parentId" ("cannot move this org unit under a different company " ++
      "while its subtree still holds position(s) — reassign or delete them first"))

def updateOrgUnitRow (id : Uuid) (parentId : Option Uuid) (code name : String) (isActive : Bool) : OrgTx OrgUnit :=
  update .updateOrgUnit (fun s => s.units.get? id)
    (fun _ => [.tree, .unit id, .unitCode parentId code]) .orgUnitNotFound
    (fun u => u.update parentId code name isActive)
    (fun s u => s.checkUpdateOrgUnit id u (u.update parentId code name isActive))
    (.updateOrgUnit id parentId code name isActive)

def updateOrgUnit (id : Uuid) (parentId : Option Uuid) (code name : String) (isActive : Bool) :
    OrgTx OrgUnit := do
  let code := normalizeCode code
  let name := trimSpace name
  .ofExcept (validateCode "code" code)
  .ofExcept (validateNameLen "name" name 2 120)
  failIf (parentId = some id) (.validation "parentId" "an org unit cannot be its own parent")
  lockOrgTree
  whenever (parentId ≠ none) do
    -- the query stops 32 levels down
    let subtree ← query .subtreeOrgUnits fun s => s.subtree 32 id
    failIf (parentId ∈ subtree.map some) (.validation "parentId"
      "would create a cycle: candidate parent is already in this unit's subtree")
  let existing ← get .getOrgUnit (fun s => s.units.get? id) .orgUnitNotFound
  let isCompany ← getOrgUnitType existing.typeKey
    (.internal ("org: look up org_unit_type \"" ++ existing.typeKey ++ "\": no rows in result set"))
  .ofExcept (checkCompanyIsRoot isCompany parentId)
  whenever (existing.parentId ≠ parentId) (checkMove id parentId)
  let unit ← updateOrgUnitRow id parentId code name isActive
  audit
  whenever (isCompany ∧ ¬ existing.isActive ∧ unit.isActive) (defaultGrantNewCompanyTx id)
  return unit

def deleteOrgUnitRow (id : Uuid) : OrgTx Unit :=
  .exec .deleteOrgUnit (fun _ => []) (fun s => if (s.units.get? id).isSome then [.unit id] else []) fun s =>
      if (s.units.get? id).isSome then
        ((s.checkDeleteOrgUnit id).map fun _ => ((), [.deleteOrgUnit id])).mapError classifyDeleteError
      else .error .orgUnitNotFound

def deleteOrgUnit (id : Uuid) : OrgTx Unit := do
  -- `SELECT 1 … FOR UPDATE`
  .exec .lockOrgUnit (fun _ => []) (fun s => if (s.units.get? id).isSome then [.unit id] else [])
    fun _ => .ok ((), [])
  let children ← query .countOrgUnitChildren fun s => (s.children id).length
  failIf (children > 0) .orgUnitHasChildren
  let members ← query .countMembersForCompany fun s =>
    (s.members.rows.filter fun r => r.2.companyId = id).length
  failIf (members > 0) .orgUnitHasMembers
  deleteOrgUnitRow id
  audit

/-! ## Members -/

/-- A member as the service answers it, with the account it is linked to. -/
structure Member where
  (id companyId : Uuid)
  (code displayName email : String)
  userId : Option Uuid
  (isActive isGuest : Bool)
  (userKcSub userEmail userPreferredUsername userLifecycle userKind : String)

def memberFromRow (id : Uuid) (r : MemberRow) : Member :=
  ⟨id, r.companyId, r.code, r.displayName, r.email.getD "", r.userId, r.isActive, r.isGuest,
    "", "", "", "", ""⟩

def Member.withUser (m : Member) (a : Account) : Member :=
  { m with
    userKcSub := a.kcSub, userEmail := a.email.getD ""
    userPreferredUsername := a.preferredUsername.getD "", userLifecycle := a.lifecycle
    userKind := a.kind }

/-- The row is joined with the account it links to, where there is one. -/
def memberFromJoinRow (id : Uuid) (r : MemberRow) (user : Option Account) : Member :=
  match user with
  | none => memberFromRow id r
  | some a => (memberFromRow id r).withUser a

def getMember (id : Uuid) : OrgTx MemberRow :=
  get .getMember (fun s => s.members.get? id) .memberNotFound

def insertMember (id : Uuid) (m : MemberRow) : OrgTx Unit :=
  write .createMember [.member id, .memberCode m.companyId m.code]
    (fun s => s.checkInsertMember id m) (.insertMember id m)

def createMember (id : Uuid) (actor : String) (companyId : Uuid) (code displayName email : String)
    (isActive isGuest : Bool) : OrgTx Member := do
  let code := normalizeCode code
  let displayName := trimSpace displayName
  .ofExcept (validateCode "code" code)
  .ofExcept (validateNameLen "displayName" displayName 1 120)
  let row : MemberRow := ⟨companyId, code, displayName, strOrNil email, none, isActive, isGuest⟩
  insertMember id row
  let after := memberFromRow id row
  whenever after.isActive
    (authz "org: grant company member tuple" (.grant (author actor) [companyMemberTuple companyId id]))
  audit
  return after

def updateMemberRow (id : Uuid) (displayName : String) (email : Option String) (isActive : Bool)
    (isGuest : Option Bool) : OrgTx MemberRow :=
  update (.updateMember id isActive) (fun s => s.members.get? id) (fun _ => [.member id])
    (classifyPgError noRows) (fun m => m.update displayName email isActive isGuest)
    (fun s m => do
      checkText [displayName, email.getD ""]
      s.checkMember id (m.update displayName email isActive isGuest))
    (.updateMember id displayName email isActive isGuest)

/-- What `UpdateMember` does to the membership fact: it compares the row it read with the one it
wrote. -/
def projectMembership (actor : String) (before after : Member) : OrgTx Unit :=
  if ¬ before.isActive ∧ after.isActive then
    authz "org: grant company member tuple" (.grant (author actor) [companyMemberTuple after.companyId after.id])
  else if before.isActive ∧ ¬ after.isActive then
    authz "org: revoke company member tuple"
      (.revokePositionOrMemberTuple (author actor) (companyMemberTuple after.companyId after.id))
  else pure ()

def updateMember (id : Uuid) (actor displayName email : String) (isActive : Bool)
    (isGuest : Option Bool) : OrgTx Member := do
  let displayName := trimSpace displayName
  .ofExcept (validateNameLen "displayName" displayName 1 120)
  let beforeRow ← getMember id
  let before := memberFromRow id beforeRow
  let row ← updateMemberRow id displayName (strOrNil email) isActive isGuest
  let after := memberFromRow id row
  projectMembership actor before after
  audit
  return after

def setMemberUser (label : Stmt) (id : Uuid) (userId : Option Uuid) : OrgTx MemberRow :=
  update label (fun s => s.members.get? id)
    (fun m => .member id :: (userId.map (Lock.memberUser m.companyId)).toList)
    (classifyPgError noRows) (fun m => m.setUser userId)
    (fun s m => s.checkMember id (m.setUser userId))
    (.setMemberUser id userId)

def linkMemberUser (id userId : Uuid) : OrgTx MemberRow := setMemberUser .linkMemberUser id (some userId)

def unlinkMemberUser (id : Uuid) : OrgTx MemberRow := setMemberUser .unlinkMemberUser id none

/-- `confirmed` is what identity's state endpoint answered, `false` where it could not be asked. -/
def linkUser (actor : String) (confirmed : Bool) (memberId : Uuid) (kcSub : String) : OrgTx Member := do
  failIf (¬ confirmed) .userNotConfirmed
  let identityUser ← get .getIdentityUserByKcSub
    (fun s => s.accounts.rows.find? fun r => r.2.kcSub = kcSub) .userNotConfirmed
  let _ ← getMember memberId
  let row ← linkMemberUser memberId identityUser.1
  let after := (memberFromRow memberId row).withUser identityUser.2
  authz "org: grant member mapped_user tuple"
    (.grant (author actor) [mappedUserTuple memberId identityUser.2.kcSub])
  audit
  return after

def getMemberWithUser (id : Uuid) : OrgTx Member :=
  get .getMemberWithUser (fun s => (s.members.get? id).map fun r =>
      memberFromJoinRow id r (r.userId.bind fun u => s.accounts.get? u))
    .memberNotFound

def unlinkUser (actor : String) (memberId : Uuid) : OrgTx Member := do
  let before ← getMemberWithUser memberId
  let row ← unlinkMemberUser memberId
  let after := memberFromRow memberId row
  whenever (before.userId ≠ none ∧ before.userKcSub ≠ "") (authz "org: revoke member mapped_user tuple"
      (.revokePositionOrMemberTuple (author actor) (mappedUserTuple memberId before.userKcSub)))
  audit
  return after

/-! ## Positions -/

def getPosition (id : Uuid) : OrgTx Position :=
  get .getPosition (fun s => s.positions.get? id) .positionNotFound

def orgUnitUnderCompany (orgUnitId companyId : Uuid) : OrgTx Bool :=
  query .orgUnitUnderCompany fun s => companyId ∈ s.chain orgUnitId

def insertPosition (id : Uuid) (p : Position) : OrgTx Unit :=
  write .createPosition [.tree, .position id, .positionCode p.companyId p.code]
    (fun s => s.checkInsertPosition id p) (.insertPosition id p)

def createPosition (id : Uuid) (actor : String) (companyId : Uuid) (code title : String)
    (orgUnitId : Uuid) : OrgTx Position := do
  let code := normalizeCode code
  let title := trimSpace title
  .ofExcept (validateCode "code" code)
  .ofExcept (validateNameLen "title" title 1 120)
  lockOrgTree
  let under ← orgUnitUnderCompany orgUnitId companyId
  failIf (¬ under) (.validation "orgUnitId" "org unit must sit beneath companyId in the org_unit tree")
  let position : Position := ⟨companyId, code, title, orgUnitId⟩
  insertPosition id position
  authz "org: grant position company tuple" (.grant (author actor) [orgObjectCompanyTuple "position" id companyId])
  audit
  return position

def updatePositionRow (id : Uuid) (title : String) (orgUnitId : Uuid) : OrgTx Position :=
  update .updatePosition (fun s => s.positions.get? id) (fun _ => [.tree, .position id])
    .positionNotFound (fun p => p.update title orgUnitId)
    (fun s p => s.checkPosition id (p.update title orgUnitId)) (.updatePosition id title orgUnitId)

def updatePosition (id : Uuid) (title : String) (orgUnitId : Uuid) : OrgTx Position := do
  let title := trimSpace title
  .ofExcept (validateNameLen "title" title 1 120)
  lockOrgTree
  let existing ← getPosition id
  let under ← orgUnitUnderCompany orgUnitId existing.companyId
  failIf (¬ under) (.validation "orgUnitId"
    "org unit must sit beneath the position's companyId in the org_unit tree")
  let position ← updatePositionRow id title orgUnitId
  audit
  return position

/-! ## Assignments -/

def insertAssignment (id : Uuid) (a : Assignment) : OrgTx Unit :=
  write .createAssignment [.tree, .assignment id] (fun s => s.checkInsertAssignment id a) (.insertAssignment id a)

/-- The exclusion constraint leaves at most one row to find. -/
def getAssignmentOnDate (positionId : Uuid) (d : Date) : OrgTx (Option (Uuid × Assignment)) :=
  query .getAssignmentOnDate fun s =>
    s.assignments.rows.find? fun r => r.2.positionId = positionId ∧ r.2.Covers d

def createAssignmentTx (id : Uuid) (actor : String) (positionId memberId : Uuid) (validFrom : Date) :
    OrgTx (Uuid × Assignment) := do
  let assignment : Assignment := ⟨positionId, memberId, validFrom, none⟩
  insertAssignment id assignment
  authz "org: grant position holder tuple" (.grant (author actor) [holderTuple positionId memberId])
  audit
  return (id, assignment)

def checkAssignee (positionId memberId : Uuid) : OrgTx Unit := do
  let member ← getMember memberId
  failIf (¬ member.isActive) .memberInactive
  let position ← getPosition positionId
  failIf (position.companyId ≠ member.companyId) .crossCompanyAssignment

def assignNow (id : Uuid) (today : Except OrgError Date) (actor : String) (positionId memberId : Uuid) :
    OrgTx (Uuid × Assignment) := do
  lockOrgTree
  checkAssignee positionId memberId
  let validFrom ← .ofExcept today
  let held ← getAssignmentOnDate positionId validFrom
  match held with
  | some r => .fail (.positionHeld r.1 r.2.memberId)
  | none => createAssignmentTx id actor positionId memberId validFrom

def endAssignmentRow (id : Uuid) (validTo : Date) : OrgTx Assignment :=
  update .endAssignment (fun s => s.assignments.get? id) (fun _ => [.tree, .assignment id])
    .assignmentNotFound (fun a => a.endAt validTo) (fun s a => s.checkWindow id (a.endAt validTo))
    (.endAssignment id validTo)

def countOtherOpenAssignments (id positionId memberId : Uuid) : OrgTx Nat :=
  query .countOtherOpenAssignments fun s =>
    (s.assignments.rows.filter fun r => r.2.positionId = positionId ∧ r.2.memberId = memberId ∧
      r.2.validTo = none ∧ r.1 ≠ id).length

def endAssignmentTx (id : Uuid) (actor : String) (validTo : Date) : OrgTx (Uuid × Assignment) := do
  let assignment ← endAssignmentRow id validTo
  let otherOpen ← countOtherOpenAssignments id assignment.positionId assignment.memberId
  whenever (otherOpen = 0) (authz "org: revoke position holder tuple" (.revokePositionOrMemberTuple (author actor)
        (holderTuple assignment.positionId assignment.memberId)))
  audit
  return (id, assignment)

def endAssignment (id : Uuid) (today : Except OrgError Date) (actor : String) : OrgTx (Uuid × Assignment) := do
  let existing ← get .getAssignment (fun s => s.assignments.get? id) .assignmentNotFound
  failIf (existing.validTo ≠ none) .assignmentAlreadyEnded
  let validTo ← .ofExcept today
  failIf (validTo < existing.validFrom) (.validation "validTo" "cannot end an assignment before it starts")
  endAssignmentTx id actor validTo

/-- The answer is the ended assignment, if any, and the current one. -/
def handover (id : Uuid) (today : Except OrgError Date) (actor : String) (positionId memberId : Uuid)
    (expected : Option Uuid) : OrgTx (Option (Uuid × Assignment) × (Uuid × Assignment)) := do
  lockOrgTree
  checkAssignee positionId memberId
  let today ← .ofExcept today
  let heldRow ← getAssignmentOnDate positionId today
  match heldRow with
  | none =>
    .fail (.validation "positionId" "position has no current holder; assign instead of handing over")
  | some held =>
    if held.2.memberId = memberId then return (none, held)
    else do
      failIf (expected ≠ none ∧ expected ≠ some held.1) (.positionHeld held.1 held.2.memberId)
      let ended ← endAssignmentTx held.1 actor today
      let created ← createAssignmentTx id actor positionId memberId today
      return (some ended, created)

def memberCompanyID (memberId : Uuid) : OrgTx (Option Uuid) :=
  query .memberCompanyID fun s => (s.members.get? memberId).map MemberRow.companyId

structure NewPosition where
  (id companyId : Uuid)
  (code title : String)
  (orgUnitId assignmentId memberId : Uuid)
  validFrom : Date
  validTo : Option Date

def createAndAssign (today : Except OrgError Date) (actor : String) (n : NewPosition) :
    OrgTx (Position × (Uuid × Assignment)) := do
  let code := normalizeCode n.code
  let title := trimSpace n.title
  .ofExcept (validateCode "code" code)
  .ofExcept (validateNameLen "title" title 1 120)
  let todayDate ← .ofExcept today
  failIf (n.validFrom > todayDate) (.validation "validFrom" "future-dated create-and-assign is not supported (v1)")
  lockOrgTree
  let under ← orgUnitUnderCompany n.orgUnitId n.companyId
  failIf (¬ under) (.validation "orgUnitId" "org unit must sit beneath companyId in the org_unit tree")
  let memberCompany ← memberCompanyID n.memberId
  failIf (memberCompany ≠ none ∧ memberCompany ≠ some n.companyId) .crossCompanyAssignment
  let position : Position := ⟨n.companyId, code, title, n.orgUnitId⟩
  insertPosition n.id position
  let assignment : Assignment := ⟨n.id, n.memberId, n.validFrom, n.validTo⟩
  insertAssignment n.assignmentId assignment
  whenever (assignment.Covers todayDate)
    (authz "org: grant position holder tuple" (.grant (author actor) [holderTuple n.id n.memberId]))
  audit
  return (position, (n.assignmentId, assignment))

/-! ## Groups -/

def getGroup (id : Uuid) : OrgTx Group := get .getGroup (fun s => s.groups.get? id) .groupNotFound

/-- `INSERT … ON CONFLICT DO NOTHING`, with the number of rows as a flag.  It waits for whoever inserts
or deletes the pair, and locks it only when it inserts. -/
def insertGroupMember (groupId memberId : Uuid) (row : GroupMemberRow) : OrgTx Bool :=
  .exec .addGroupMember (fun _ => [.groupMember groupId memberId])
    (fun s => if (s.groupMembers.get? (groupId, memberId)).isSome then [] else [.groupMember groupId memberId])
    fun s =>
      match s.checkInsertGroupMember groupId memberId row with
      | .error e => .error (classifyPgError e)
      | .ok () =>
        if (s.groupMembers.get? (groupId, memberId)).isSome then .ok (false, [])
        else .ok (true, [.insertGroupMember groupId memberId row])

def getGroupMember (groupId memberId : Uuid) : OrgTx GroupMemberRow :=
  get .getGroupMember (fun s => s.groupMembers.get? (groupId, memberId))
    (.internal "org: read group member: no rows in result set")

structure GroupMember where
  (groupId memberId : Uuid)
  addedBy : String
  addedAt : Int
  memberDisplayName : String
  memberEmail : Option String

/-- `now` is the time of the transaction, the default of `added_at`. -/
def addGroupMember (now : Int) (actor : String) (groupId memberId : Uuid) : OrgTx GroupMember := do
  let group ← getGroup groupId
  failIf (¬ group.isKibanManaged) .groupExternallyManaged
  let row ← getMember memberId
  let member := memberFromRow memberId row
  failIf (¬ member.isActive) .memberInactive
  failIf (member.companyId ≠ group.companyId) .crossCompanyAssignment
  let inserted ← insertGroupMember groupId memberId ⟨actor, now⟩
  let stored ← getGroupMember groupId memberId
  authz "org: grant group member tuple" (.grant (author actor) [groupMemberTuple groupId memberId])
  whenever inserted audit
  return ⟨groupId, memberId, stored.addedBy, stored.addedAt, member.displayName, strOrNil member.email⟩

-- a DELETE waits only for a row it sees
def deleteGroupMember (groupId memberId : Uuid) : OrgTx Unit :=
  .exec .removeGroupMember (fun _ => [])
    (fun s => if (s.groupMembers.get? (groupId, memberId)).isSome then [.groupMember groupId memberId] else [])
    fun s =>
      if (s.groupMembers.get? (groupId, memberId)).isSome then
        .ok ((), [.deleteGroupMember groupId memberId])
      else .error .groupMemberNotFound

def removeGroupMember (actor : String) (groupId memberId : Uuid) : OrgTx Unit := do
  let group ← getGroup groupId
  failIf (¬ group.isKibanManaged) .groupExternallyManaged
  deleteGroupMember groupId memberId
  authz "org: revoke group member tuple"
    (.revokePositionOrMemberTuple (author actor) (groupMemberTuple groupId memberId))
  audit

theorem checkAssignee_run {s s' positionId memberId u}
    (h : (checkAssignee positionId memberId).run Database.apply s = .ok (u, s')) :
    s = s' ∧ ∃ p m, s.positions.get? positionId = some p ∧ s.members.get? memberId = some m ∧
      m.isActive = true ∧ p.companyId = m.companyId := by
  unfold checkAssignee getMember getPosition at h
  simp only [Prog.run_bind_eq_ok, run_get, run_failIf] at h
  obtain ⟨m, _, ⟨hm, rfl⟩, _, _, ⟨hact, rfl⟩, p, _, ⟨hp, rfl⟩, hco, rfl⟩ := h
  exact ⟨rfl, p, m, hp, hm, not_not.mp hact, not_not.mp hco⟩

section Beside

variable {Inv : Database → Prop} {R : Option Stmt → Past → Database → Database → Prop} {tr : Past} {c : Database}
  {groupId memberId : Uuid}

theorem deleteOrgUnitRow_wp {id} {done : Unit → Past → Database → Prop}
    (h : ∀ c', R (some .deleteOrgUnit) tr c c' → Inv c' →
      done () (tr.extend [.deleteOrgUnit id] [.unit id] .deleteOrgUnit) c') :
    (deleteOrgUnitRow id).wp schema Inv R done tr c := by
  refine Prog.wp_exec fun c' u new hR hInv hans => ?_
  by_cases hin : ((schema.view tr.writes c').units.get? id).isSome = true
  · rw [if_pos hin] at hans ⊢
    obtain ⟨_, _, heq⟩ := Fallible.map_eq_ok.mp (Fallible.mapError_eq_ok.mp hans)
    cases heq
    exact h c' hR hInv
  · rw [if_neg hin] at hans
    cases hans

theorem insertGroupMember_wp {row} {post : Bool → Past → Database → Prop}
    (hold : Yields schema Inv R post tr c .addGroupMember
      (fun s => (s.groupMembers.get? (groupId, memberId)).isSome = true) false [] [])
    (hnew : Yields schema Inv R post tr c .addGroupMember
      (fun s => (s.groupMembers.get? (groupId, memberId)).isSome = false ∧
        s.checkInsertGroupMember groupId memberId row = .ok ()) true
      [.insertGroupMember groupId memberId row] [.groupMember groupId memberId]) :
    (insertGroupMember groupId memberId row).wp schema Inv R post tr c := by
  refine Prog.wp_exec fun c' inserted new hR hInv hans => ?_
  split at hans
  · cases hans
  rename_i hcheck
  by_cases hin : ((schema.view tr.writes c').groupMembers.get? (groupId, memberId)).isSome = true
  · rw [if_pos hin] at hans ⊢
    cases hans
    exact hold c' hR hInv hin
  · rw [if_neg hin] at hans ⊢
    cases hans
    exact hnew c' hR hInv ⟨Bool.eq_false_iff.mpr hin, hcheck⟩

theorem deleteGroupMember_wp {done : Unit → Past → Database → Prop}
    (h : Yields schema Inv R done tr c .removeGroupMember
      (fun s => (s.groupMembers.get? (groupId, memberId)).isSome = true) ()
      [.deleteGroupMember groupId memberId] [.groupMember groupId memberId]) :
    (deleteGroupMember groupId memberId).wp schema Inv R done tr c := by
  refine Prog.wp_exec fun c' u new hR hInv hans => ?_
  by_cases hin : ((schema.view tr.writes c').groupMembers.get? (groupId, memberId)).isSome = true
  · rw [if_pos hin] at hans ⊢
    cases hans
    exact h c' hR hInv hin
  · rw [if_neg hin] at hans
    cases hans

end Beside

/-! ## A small office, for runs on fixed data -/

def office : Database where
  unitTypes := ⟨[("company", true), ("territory", false)], by decide⟩
  units := ⟨[("acme", ⟨"company", none, "ACME", "Acme", true⟩)], by decide⟩
  members := .empty
  positions := .empty
  assignments := .empty
  groups := ⟨[("staff", ⟨"acme", "STAFF", "Staff", "kiban", none, true⟩)], by decide⟩
  groupMembers := .empty
  accounts :=
    { rows := [("u1", ⟨"alice", none, none, "active", "person"⟩),
        ("u2", ⟨"bob", none, none, "active", "person"⟩)]
      nodup := by decide
      unique := by decide }
  enabledModules := []
  authz := .empty

end Kiban.Org
