import Kiban.Org.Reads

/-!
# The org service's writes over HTTP

The handlers of the routes that write.  A handler asks whether the bearer is the superadmin, or the administrator of
one company: the one its path or its body names, or the one that the row it is for belongs to.  Only then it runs the
store's transaction.

A row is looked up for its company before the transaction, and so in another state: `seen` here, where the transaction
runs in `s`.  A body is `none` if it does not decode.
-/

namespace Kiban.Org

open PercentPath Transactions OrgTx

/-! ## Errors -/

/-- `errenv.APIError` with its status -/
structure ApiError where
  status : Nat
  (code message : String)
  details : List (String × String) := []
  deriving DecidableEq

def badRequest (message : String) (details : List (String × String)) : ApiError :=
  ⟨400, "BAD_REQUEST", message, details⟩

def invalidField (field : String) : ApiError := badRequest ("invalid " ++ field) [("field", field)]

/-- The errors of the store, with the one of a position that modules still name. -/
inductive StoreFailure where
  | org (e : OrgError)
  | positionBound (count : Nat)

def notFound : ApiError := ⟨404, "NOT_FOUND", "not found", []⟩

def writeStoreError : StoreFailure → ApiError
  | .org (.validation field message) => ⟨422, "VALIDATION_ERROR", message, [("field", field)]⟩
  | .org .orgUnitNotFound | .org .memberNotFound | .org .positionNotFound | .org .assignmentNotFound
  | .org .groupNotFound | .org .groupMemberNotFound => notFound
  | .org .assignmentAlreadyEnded => ⟨409, "ASSIGNMENT_ALREADY_ENDED", "assignment already ended", []⟩
  | .org .groupExternallyManaged =>
    ⟨409, "GROUP_EXTERNALLY_MANAGED", "group is externally managed — membership is read-only here", []⟩
  | .org .orgUnitHasChildren => ⟨422, "VALIDATION_ERROR", "org unit has children", [("field", "id")]⟩
  | .org .orgUnitHasMembers => ⟨422, "VALIDATION_ERROR", "org unit has members", [("field", "id")]⟩
  | .org (.positionHeld assignmentId memberId) =>
    ⟨409, "POSITION_HELD", "position is held; end the current assignment first",
      [("assignmentId", assignmentId), ("memberId", memberId)]⟩
  | .positionBound count =>
    ⟨409, "CONFLICT", "position is bound to " ++ toString count ++ " module grant(s)",
      [("count", toString count)]⟩
  | .org (.referenced table) =>
    ⟨409, "CONFLICT", "still referenced by org." ++ table, [("field", table)]⟩
  | .org (.conflict _) => ⟨409, "CONFLICT", "conflict", []⟩
  | .org (.store _ _) | .org (.internal _) => ⟨500, "INTERNAL_ERROR", "internal error", []⟩

/-! ## The two writes that are no transaction of others -/

/-- `org.group`: the trigger, the CHECKs, the key and the references. -/
def Database.checkInsertGroup (s : Database) (id : Uuid) (g : Group) : Except PgError Unit := do
  checkText [g.code, g.name]
  -- `validate_group_company`
  refuseIf (¬ s.companyTyped g.companyId)
    (raised ("org.group.company_id must reference a company-typed org_unit (got " ++ g.companyId ++ ")"))
  check "group_code_check" "group" (codeNamePattern g.code)
  check "group_name_check" "group" (charLengthBetween g.name 1 120)
  check "group_check" "group" (decide (g.isKibanManaged = g.externalRef.isNone))
  unique "group_pkey" (s.groups.get? id).isNone
  unique "group_company_id_code_key" (s.groups.rows.all fun r => r.2.companyId ≠ g.companyId ∨ r.2.code ≠ g.code)

/-- The source of a group that is created here is always Kiban itself. -/
def createGroup (id : Uuid) (actor : String) (companyId : Uuid) (code name : String) (s : Database) :
    Except OrgError (Group × Database) := do
  let code := normalizeCode code
  let name := trimSpace name
  validateCode "code" code
  validateNameLen "name" name 1 120
  let group : Group := ⟨companyId, code, name, "kiban", none, true⟩
  (s.checkInsertGroup id group).mapError classifyPgError
  let s := { s with groups := s.groups.insertMissing id group }
  let granted ← (authz "org: grant group company tuple"
    (.grant (author actor) [orgObjectCompanyTuple "group" id companyId])).run Database.apply s
  return (group, granted.2)

/-- The tuples that give someone the holder of the position for a subject. -/
def holderBindings (s : Database) (id : Uuid) : Nat :=
  (s.authz.tuple.rows.filter fun t =>
    t.subjectType = "position" ∧ t.subjectId = id ∧ t.subjectRelation = "holder").length

def deletePosition (actor : String) (id : Uuid) (s : Database) : Except StoreFailure Database := do
  match s.positions.get? id with
  | none => .error (.org .positionNotFound)
  | some position =>
    let boundCount := holderBindings s id
    if boundCount > 0 then .error (.positionBound boundCount)
    else
      let revoked ← ((authz "org: revoke position company tuple" (.revokePositionOrMemberTuple (author actor)
          (orgObjectCompanyTuple "position" id position.companyId))).run Database.apply s).mapError .org
      if revoked.2.assignments.rows.all fun r => r.2.positionId ≠ id then
        return { revoked.2 with positions := revoked.2.positions.erase id }
      else .error (.org (classifyDeleteError (.foreignKeyViolation "position_assignment"
        "position_assignment_position_id_fkey")))

/-! ## The authorizer -/

/-- An answer of the authorizer; only the first one is a yes. -/
inductive Verdict where
  | allowed
  | denied (reason : String)
  | unavailable
  deriving DecidableEq

/-- `AdminAuthorizer`: the two questions about a bearer. -/
structure AdminAuthorizer where
  can : (bearer action : String) → Verdict
  canInCompany : (bearer action : String) → (companyId : Uuid) → Verdict

def finishAuthorize : Verdict → Except ApiError Unit
  | .allowed => .ok ()
  | .denied reason =>
    .error ⟨403, "AUTHORIZATION_DENIED", "authorization denied: " ++ reason, [("reason", reason)]⟩
  | .unavailable => .error ⟨503, "AUTHORIZATION_UNAVAILABLE", "authorization is unavailable", []⟩

theorem finishAuthorize_eq_ok {v u} : finishAuthorize v = .ok u ↔ v = .allowed := by
  cases v <;> simp [finishAuthorize]

/-- The service, and what is decided outside the database while it answers one request. -/
structure Service where
  authz : AdminAuthorizer
  /-- the subject a bearer claims -/
  actorFor : String → String
  /-- what identity answers of an account -/
  confirmed : String → Bool
  parseDate : String → Option Date
  (newId newAssignmentId : Uuid)
  today : Except OrgError Date
  now : Int

/-! ## Bodies -/

structure UnitRequest where
  typeKey : String
  parentId : Option String
  (code name : String)
  isActive : Option Bool

structure MemberRequest where
  (companyId code displayName email : String)
  (isActive isGuest : Option Bool)

structure PositionRequest where
  (companyId code title orgUnitId : String)

structure AdminCreatePositionRequest where
  (code title : String)
  (companyId orgUnitId : Option String)

structure AdminUpdatePositionRequest where
  (title orgUnitId : Option String)

structure CreateAndAssignRequest where
  (companyId code title orgUnitId memberId validFrom : String)
  validTo : Option String

structure HandoverRequest where
  (memberId expectedAssignmentId : String)

structure AdminCreateGroupRequest where
  (code name : String)
  companyId : Option String

inductive View where
  | unit (id : Uuid) (u : OrgUnit)
  | member (m : Member)
  | position (id : Uuid) (p : Position)
  | assignment (a : Uuid × Assignment)
  | positionAndAssignment (id : Uuid) (p : Position) (a : Uuid × Assignment)
  | handover (ended : Option (Uuid × Assignment)) (current : Uuid × Assignment)
  | group (id : Uuid) (g : Group)
  | groupMember (m : GroupMember)
  | deleted (id : Uuid)
  | removed (groupId memberId : Uuid)

/-! ## Shared steps -/

def parsePathUUID (value : Bytes) (name : String) : Except ApiError Uuid :=
  ((parseUuid value).map Except.ok).getD (.error (invalidField name))

def parseBodyUUID (value field : String) : Except ApiError Uuid := parsePathUUID (utf8 value) field

/-- A field that is absent or empty is no id. -/
def parseOptionalUUID (value : Option String) (field : String) : Except ApiError (Option Uuid) :=
  match value with
  | none => .ok none
  | some text => if text = "" then .ok none else (parseBodyUUID text field).map some

def decodeJSON {α : Type} (body : Option α) : Except ApiError α :=
  (body.map Except.ok).getD (.error (badRequest "invalid request body" []))

/-- A company that the body of a request for a company's route names. -/
def refuseBodyCompany (companyId : Option String) : Except ApiError Unit :=
  if companyId = none ∨ companyId = some "" then .ok ()
  else .error ⟨422, "VALIDATION_ERROR", "companyId is derived from the path and must not be set in the body",
    [("field", "companyId")]⟩

def found {α : Type} (row : Option α) (missing : OrgError) : Except ApiError α :=
  (row.map Except.ok).getD (.error (writeStoreError (.org missing)))

def transact {α : Type} (s : Database) (p : OrgTx α) : Except ApiError (α × Database) :=
  (p.run Database.apply s).mapError fun e => writeStoreError (.org e)

/-! ## The handlers -/

section Handlers

variable (svc : Service) (bearer : String) (seen s : Database)

def authorize (action : String) : Except ApiError Unit := finishAuthorize (svc.authz.can bearer action)

def authorizeInCompany (action : String) (companyId : Uuid) : Except ApiError Unit :=
  finishAuthorize (svc.authz.canInCompany bearer action companyId)

def handleCreateUnit (body : Option UnitRequest) : Except ApiError (View × Database) := do
  authorize svc bearer "org.unit.create"
  let req ← decodeJSON body
  let parentId ← parseOptionalUUID req.parentId "parentId"
  let (unit, s) ← transact s
    (createOrgUnit svc.newId req.typeKey parentId req.code req.name (req.isActive.getD true))
  return (.unit svc.newId unit, s)

def handleUpdateUnit (id : Bytes) (body : Option UnitRequest) : Except ApiError (View × Database) := do
  let id ← parsePathUUID id "id"
  authorize svc bearer "org.unit.update"
  let req ← decodeJSON body
  let parentId ← parseOptionalUUID req.parentId "parentId"
  let (unit, s) ← transact s (updateOrgUnit id parentId req.code req.name (req.isActive.getD true))
  return (.unit id unit, s)

def handleDeleteUnit (id : Bytes) : Except ApiError (View × Database) := do
  let id ← parsePathUUID id "id"
  authorize svc bearer "org.unit.delete"
  let ((), s) ← transact s (deleteOrgUnit id)
  return (.deleted id, s)

/-- The company is the body's, and so the body is read before the question. -/
def handleCreateMember (body : Option MemberRequest) : Except ApiError (View × Database) := do
  let req ← decodeJSON body
  let companyId ← parseBodyUUID req.companyId "companyId"
  authorizeInCompany svc bearer "org.member.create" companyId
  let (member, s) ← transact s (createMember svc.newId (svc.actorFor bearer) companyId req.code
    req.displayName req.email (req.isActive.getD true) (req.isGuest.getD false))
  return (.member member, s)

def handleUpdateMember (id : Bytes) (body : Option MemberRequest) : Except ApiError (View × Database) := do
  let id ← parsePathUUID id "id"
  let existing ← found (seen.members.get? id) .memberNotFound
  authorizeInCompany svc bearer "org.member.update" existing.companyId
  let req ← decodeJSON body
  let (member, s) ← transact s (updateMember id (svc.actorFor bearer) req.displayName req.email
    (req.isActive.getD true) req.isGuest)
  return (.member member, s)

def handleLinkUser (id : Bytes) (kcSub : Option String) : Except ApiError (View × Database) := do
  let id ← parsePathUUID id "id"
  let existing ← found (seen.members.get? id) .memberNotFound
  authorizeInCompany svc bearer "org.member.link_user" existing.companyId
  let kcSub ← decodeJSON kcSub
  let (member, s) ← transact s (linkUser (svc.actorFor bearer) (svc.confirmed kcSub) id kcSub)
  return (.member member, s)

def handleUnlinkUser (id : Bytes) : Except ApiError (View × Database) := do
  let id ← parsePathUUID id "id"
  let existing ← found (seen.members.get? id) .memberNotFound
  authorizeInCompany svc bearer "org.member.unlink_user" existing.companyId
  let (member, s) ← transact s (unlinkUser (svc.actorFor bearer) id)
  return (.member member, s)

def handleCreatePosition (body : Option PositionRequest) : Except ApiError (View × Database) := do
  authorize svc bearer "org.position.create"
  let req ← decodeJSON body
  match parseUuid (utf8 req.companyId), parseUuid (utf8 req.orgUnitId) with
  | some companyId, some orgUnitId =>
    let (position, s) ← transact s
      (createPosition svc.newId (svc.actorFor bearer) companyId req.code req.title orgUnitId)
    return (.position svc.newId position, s)
  | _, _ => .error (badRequest "invalid companyId/orgUnitId" [])

/-- Without a unit the position sits at the company itself. -/
def handleAdminCreatePosition (id : Bytes) (body : Option AdminCreatePositionRequest) :
    Except ApiError (View × Database) := do
  let companyId ← parsePathUUID id "id"
  authorizeInCompany svc bearer "org.position.create" companyId
  let req ← decodeJSON body
  refuseBodyCompany req.companyId
  let orgUnitId ← parseOptionalUUID req.orgUnitId "orgUnitId"
  let (position, s) ← transact s (createPosition svc.newId (svc.actorFor bearer) companyId req.code req.title
    (orgUnitId.getD companyId))
  return (.position svc.newId position, s)

/-- An absent field keeps what the handler has read. -/
def handleAdminUpdatePosition (id : Bytes) (body : Option AdminUpdatePositionRequest) :
    Except ApiError (View × Database) := do
  let id ← parsePathUUID id "id"
  let position ← found (seen.positions.get? id) .positionNotFound
  authorizeInCompany svc bearer "org.position.update" position.companyId
  let req ← decodeJSON body
  let orgUnitId ← parseOptionalUUID req.orgUnitId "orgUnitId"
  let (updated, s) ← transact s
    (updatePosition id (req.title.getD position.title) (orgUnitId.getD position.orgUnitId))
  return (.position id updated, s)

def handleUpdatePosition (id : Bytes) (body : Option PositionRequest) : Except ApiError (View × Database) := do
  let id ← parsePathUUID id "id"
  authorize svc bearer "org.position.update"
  let req ← decodeJSON body
  let orgUnitId ← parseBodyUUID req.orgUnitId "orgUnitId"
  let (position, s) ← transact s (updatePosition id req.title orgUnitId)
  return (.position id position, s)

def handleDeletePosition (id : Bytes) : Except ApiError (View × Database) := do
  let id ← parsePathUUID id "id"
  authorize svc bearer "org.position.delete"
  let s ← (deletePosition (svc.actorFor bearer) id s).mapError writeStoreError
  return (.deleted id, s)

def parseDay (value field : String) : Except ApiError Date :=
  ((svc.parseDate value).map Except.ok).getD
    (.error (badRequest ("invalid " ++ field ++ " (want YYYY-MM-DD)") [("field", field)]))

def handleCreateAndAssign (body : Option CreateAndAssignRequest) : Except ApiError (View × Database) := do
  authorize svc bearer "org.position.create_and_assign"
  let req ← decodeJSON body
  match parseUuid (utf8 req.companyId), parseUuid (utf8 req.orgUnitId), parseUuid (utf8 req.memberId) with
  | some companyId, some orgUnitId, some memberId =>
    let validFrom ← parseDay svc req.validFrom "validFrom"
    let validTo ← match req.validTo with
      | none => pure none
      | some text => if text = "" then pure none else (parseDay svc text "validTo").map some
    let ((position, assignment), s) ← transact s (createAndAssign svc.today (svc.actorFor bearer)
      ⟨svc.newId, companyId, req.code, req.title, orgUnitId, svc.newAssignmentId, memberId, validFrom, validTo⟩)
    return (.positionAndAssignment svc.newId position assignment, s)
  | _, _, _ => .error (badRequest "invalid companyId/orgUnitId/memberId" [])

/-- The company of an assignment is its position's. -/
def assignmentCompany (id : Uuid) : Except ApiError Uuid := do
  let a ← found (seen.assignments.get? id) .assignmentNotFound
  let p ← found (seen.positions.get? a.positionId) .positionNotFound
  return p.companyId

def handleEndAssignment (id : Bytes) : Except ApiError (View × Database) := do
  let id ← parsePathUUID id "id"
  let companyId ← assignmentCompany seen id
  authorizeInCompany svc bearer "org.assignment.end" companyId
  let (assignment, s) ← transact s (endAssignment id svc.today (svc.actorFor bearer))
  return (.assignment assignment, s)

def handleAssignNow (id : Bytes) (memberId : Option String) : Except ApiError (View × Database) := do
  let positionId ← parsePathUUID id "id"
  let position ← found (seen.positions.get? positionId) .positionNotFound
  authorizeInCompany svc bearer "org.assignment.create" position.companyId
  let memberId ← decodeJSON memberId
  let memberId ← parseBodyUUID memberId "memberId"
  let (assignment, s) ← transact s
    (assignNow svc.newAssignmentId svc.today (svc.actorFor bearer) positionId memberId)
  return (.assignment assignment, s)

def handleHandover (id : Bytes) (body : Option HandoverRequest) : Except ApiError (View × Database) := do
  let positionId ← parsePathUUID id "id"
  let position ← found (seen.positions.get? positionId) .positionNotFound
  authorizeInCompany svc bearer "org.assignment.create" position.companyId
  let req ← decodeJSON body
  let memberId ← parseBodyUUID req.memberId "memberId"
  let expected ← parseOptionalUUID (some req.expectedAssignmentId) "expectedAssignmentId"
  let ((ended, created), s) ← transact s
    (handover svc.newAssignmentId svc.today (svc.actorFor bearer) positionId memberId expected)
  return (.handover ended created, s)

def handleAdminCreateGroup (id : Bytes) (body : Option AdminCreateGroupRequest) :
    Except ApiError (View × Database) := do
  let companyId ← parsePathUUID id "id"
  authorizeInCompany svc bearer "org.group.create" companyId
  let req ← decodeJSON body
  refuseBodyCompany req.companyId
  let (group, s) ← (createGroup svc.newId (svc.actorFor bearer) companyId req.code req.name s).mapError
    fun e => writeStoreError (.org e)
  return (.group svc.newId group, s)

def handleAddGroupMember (id : Bytes) (memberId : Option String) : Except ApiError (View × Database) := do
  let groupId ← parsePathUUID id "id"
  let group ← found (seen.groups.get? groupId) .groupNotFound
  authorizeInCompany svc bearer "org.group.member_add" group.companyId
  let memberId ← decodeJSON memberId
  let memberId ← parseBodyUUID memberId "memberId"
  let (member, s) ← transact s (addGroupMember svc.now (svc.actorFor bearer) groupId memberId)
  return (.groupMember member, s)

def handleRemoveGroupMember (id memberId : Bytes) : Except ApiError (View × Database) := do
  let groupId ← parsePathUUID id "id"
  let memberId ← parsePathUUID memberId "memberId"
  let group ← found (seen.groups.get? groupId) .groupNotFound
  authorizeInCompany svc bearer "org.group.member_remove" group.companyId
  let ((), s) ← transact s (removeGroupMember (svc.actorFor bearer) groupId memberId)
  return (.removed groupId memberId, s)

end Handlers

/-! ## The routes that write -/

/-- A request to one of the routes, with its path values and its body. -/
inductive WriteRequest where
  | createUnit (body : Option UnitRequest)
  | updateUnit (id : Bytes) (body : Option UnitRequest)
  | deleteUnit (id : Bytes)
  | createMember (body : Option MemberRequest)
  | updateMember (id : Bytes) (body : Option MemberRequest)
  | linkUser (id : Bytes) (kcSub : Option String)
  | unlinkUser (id : Bytes)
  | createPosition (body : Option PositionRequest)
  | adminCreatePosition (id : Bytes) (body : Option AdminCreatePositionRequest)
  | adminUpdatePosition (id : Bytes) (body : Option AdminUpdatePositionRequest)
  | updatePosition (id : Bytes) (body : Option PositionRequest)
  | deletePosition (id : Bytes)
  | createAndAssign (body : Option CreateAndAssignRequest)
  | endAssignment (id : Bytes)
  | assignNow (id : Bytes) (memberId : Option String)
  | handover (id : Bytes) (body : Option HandoverRequest)
  | adminCreateGroup (id : Bytes) (body : Option AdminCreateGroupRequest)
  | addGroupMember (id : Bytes) (memberId : Option String)
  | removeGroupMember (id memberId : Bytes)

def WriteRequest.action : WriteRequest → String
  | .createUnit _ => "org.unit.create"
  | .updateUnit _ _ => "org.unit.update"
  | .deleteUnit _ => "org.unit.delete"
  | .createMember _ => "org.member.create"
  | .updateMember _ _ => "org.member.update"
  | .linkUser _ _ => "org.member.link_user"
  | .unlinkUser _ => "org.member.unlink_user"
  | .createPosition _ | .adminCreatePosition _ _ => "org.position.create"
  | .adminUpdatePosition _ _ | .updatePosition _ _ => "org.position.update"
  | .deletePosition _ => "org.position.delete"
  | .createAndAssign _ => "org.position.create_and_assign"
  | .endAssignment _ => "org.assignment.end"
  | .assignNow _ _ | .handover _ _ => "org.assignment.create"
  | .adminCreateGroup _ _ => "org.group.create"
  | .addGroupMember _ _ => "org.group.member_add"
  | .removeGroupMember _ _ => "org.group.member_remove"

/-- The view of the response and the database after it, or the error with nothing written. -/
def handleWrite (svc : Service) (bearer : String) (seen s : Database) :
    WriteRequest → Except ApiError (View × Database)
  | .createUnit body => handleCreateUnit svc bearer s body
  | .updateUnit id body => handleUpdateUnit svc bearer s id body
  | .deleteUnit id => handleDeleteUnit svc bearer s id
  | .createMember body => handleCreateMember svc bearer s body
  | .updateMember id body => handleUpdateMember svc bearer seen s id body
  | .linkUser id kcSub => handleLinkUser svc bearer seen s id kcSub
  | .unlinkUser id => handleUnlinkUser svc bearer seen s id
  | .createPosition body => handleCreatePosition svc bearer s body
  | .adminCreatePosition id body => handleAdminCreatePosition svc bearer s id body
  | .adminUpdatePosition id body => handleAdminUpdatePosition svc bearer seen s id body
  | .updatePosition id body => handleUpdatePosition svc bearer s id body
  | .deletePosition id => handleDeletePosition svc bearer s id
  | .createAndAssign body => handleCreateAndAssign svc bearer s body
  | .endAssignment id => handleEndAssignment svc bearer seen s id
  | .assignNow id memberId => handleAssignNow svc bearer seen s id memberId
  | .handover id body => handleHandover svc bearer seen s id body
  | .adminCreateGroup id body => handleAdminCreateGroup svc bearer s id body
  | .addGroupMember id memberId => handleAddGroupMember svc bearer seen s id memberId
  | .removeGroupMember id memberId => handleRemoveGroupMember svc bearer seen s id memberId

end Kiban.Org
