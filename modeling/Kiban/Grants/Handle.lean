import Kiban.Decision.Evaluate
import Kiban.Fragment.Load
import Kiban.Store.Store

/-!
# The grants route

`handleGrants` writes or removes tuples of one company and one module.  Its rules are passes over the tuples of the
request, made against committed state; a request that passes them is written in one transaction.  The body has been
decoded and the bearer verified.
-/

namespace Kiban

/-! ## What a request sees -/

structure Claims where
  (subject clientId : String)

structure GrantsRequest where
  (op companyId : String)
  tuples : List Tuple
  correlationId : String

/-- One behaviour of the services a request asks.  `isUuid` is what the UUID parser accepts;
`appOwners` maps a registered app's module to its service client, and is absent without apps. -/
structure Services where
  isUuid : String → Bool
  subject : String → Except String SubjectResult
  keycloak : String → Except String KCState
  company : String → Except String CompanyState
  membership : String → String → Except String MembershipState
  moduleState : String → Except String Bool
  appOwners : Option (Except String (List (String × String)))

/-- One behaviour of the database during a request.  Each engine check runs its own queries, so the
rows may come in another order for each question. -/
structure Reads where
  db : Node → String → String → String → Db
  anchorOf : String → String → Except String String
  memberOfCompany : String → String → Except String Bool

/-- `anchorOfSQL`: any anchor row of the object counts, whatever its subject relation. -/
def TupleTable.anchorRow? (T : TupleTable) (objectType objectId : String) : Option Tuple :=
  T.rows.find? fun t => t.IsAnchorRow ∧ t.OnObject objectType objectId

def TupleTable.anchorOf (T : TupleTable) (objectType objectId : String) : String :=
  ((T.anchorRow? objectType objectId).map Tuple.subjectId).getD ""

def companyMember (companyId memberId : String) : Tuple :=
  ⟨"company", companyId, "member", "member", memberId, "mapped_user"⟩

/-- What is read is the committed table, as far as the queries succeed. -/
structure Reads.Of (rd : Reads) (T : TupleTable) : Prop where
  serves : ∀ n subjType subjId companyId, (rd.db n subjType subjId companyId).Serves T.toTable
  anchorOf : ∀ objectType objectId a, rd.anchorOf objectType objectId = .ok a → a = T.anchorOf objectType objectId
  memberOfCompany : ∀ companyId memberId b, rd.memberOfCompany companyId memberId = .ok b →
    (b = true ↔ companyMember companyId memberId ∈ T)

def CheckError.text : CheckError → String
  | .depthExceeded n =>
    "DEPTH_EXCEEDED: check(" ++ n.objType ++ ":" ++ n.objId ++ "#" ++ n.rel ++ ") exceeded max depth 32"
  | .unknownType objType => "UNKNOWN_TYPE: object type \"" ++ objType ++ "\" not in model"
  | .unknownRelation rel objType =>
    "UNKNOWN_RELATION: relation \"" ++ rel ++ "\" not defined on type \"" ++ objType ++ "\""

def EvalError.text : EvalError → String
  | .check e => e.text
  | .query cause => "query tuple rows: " ++ cause

inductive InternalError where
  | load (message : String)
  | store (e : StoreError)
  | transaction (cause : String)

inductive Refusal where
  | badRequest (message : String)
  | validationFailed (message : String)
  | denied (message : String) (reason : Reason) (evidence : List Evidence)
  | unavailable (dependency step : String)
  | internal (e : InternalError)

def Reason.code : Reason → String
  | .allowed => "ALLOWED"
  | .authUserNotFound => "AUTH_USER_NOT_FOUND"
  | .keycloakDisabled => "KEYCLOAK_DISABLED"
  | .userLifecycleDisabled => "USER_LIFECYCLE_DISABLED"
  | .companyInactive => "COMPANY_INACTIVE"
  | .companyMembershipRequired => "COMPANY_MEMBERSHIP_REQUIRED"
  | .companyAccessBlocked => "COMPANY_ACCESS_BLOCKED"
  | .moduleDisabled => "MODULE_DISABLED"
  | .platformRoleRequired => "PLATFORM_ROLE_REQUIRED"
  | .companyRoleRequired => "COMPANY_ROLE_REQUIRED"
  | .engineDenied => "ENGINE_DENIED"
  | .businessEligibilityDenied => "BUSINESS_ELIGIBILITY_DENIED"
  | .dependencyUnavailable => "DEPENDENCY_UNAVAILABLE"

/-! ## The decider of a request -/

def superadminRole : String := "kiban-superadmin"

section Checker

variable (l : Fragment.Loaded) (rd : Reads)

def checkerCheck (n : Node) (subjType subjId : String) : Except String Bool :=
  (l.check (rd.db n subjType subjId "") n subjType subjId).mapError EvalError.text

def checkerCheckInCompany (n : Node) (subjType subjId companyId : String) : Except String Bool :=
  (l.checkInCompany (rd.db n subjType subjId companyId) n subjType subjId companyId).mapError EvalError.text

/-- `enginePlatformRoleSource.HasRole`: the one platform role there is. -/
def enginePlatformRole (subjectId role : String) : Except String Bool :=
  if role ≠ superadminRole then .ok false
  else checkerCheck l rd ⟨"system", systemPlatformId, "superadmin"⟩ "user" subjectId

def engineCompanyRole (companyId subjectId role : String) : Except String Bool :=
  checkerCheck l rd ⟨"company", companyId, role⟩ "user" subjectId

/-- The dependencies `buildDeciderAndChecker` wires. -/
def Services.deps (sv : Services) : Deps where
  subject := sv.subject
  keycloak := sv.keycloak
  platformRole := enginePlatformRole l rd
  company := sv.company
  membership := sv.membership
  companyRole := engineCompanyRole l rd
  moduleState := sv.moduleState
  check := checkerCheck l rd
  checkInCompany := some (checkerCheckInCompany l rd)
  model := some l.model.defines
  eligibility := none

end Checker

/-! ## The passes -/

/-- An answer a pass cannot go on without. -/
def need {α : Type} (answer : Except String α) (dependency step : String) : Except Refusal α :=
  answer.mapError fun _ => .unavailable dependency step

def Decision.refusal (dec : Decision) (message : String) (evidence : List Evidence) : Refusal :=
  if dec.reason = .dependencyUnavailable then .unavailable dec.dependency dec.step
  else .denied message dec.reason evidence

def GrantsRequest.validate (sv : Services) (req : GrantsRequest) : Except Refusal GrantOp :=
  if req.op ≠ "grant" ∧ req.op ≠ "revoke" then
    .error (.badRequest "op must be \"grant\" or \"revoke\"")
  else if req.tuples = [] then .error (.badRequest "tuples must not be empty")
  else if sv.isUuid req.companyId = false then
    .error (.badRequest "companyId is required and must be a UUID")
  else .ok (if req.op = "grant" then .grant else .revoke)

def Tuple.IsAppointment (companyId : String) (t : Tuple) : Prop :=
  t.objectType = "company" ∧ t.objectId = companyId ∧ t.relation = "admin" ∧ t.subjectType = "user" ∧
    t.subjectId ≠ "" ∧ t.subjectRelation = ""

instance (companyId : String) (t : Tuple) : Decidable (t.IsAppointment companyId) :=
  inferInstanceAs (Decidable (_ ∧ _))

def GrantsRequest.IsCompanyAdminAppointment (req : GrantsRequest) : Prop :=
  ∀ t ∈ req.tuples, t.IsAppointment req.companyId

instance (req : GrantsRequest) : Decidable req.IsCompanyAdminAppointment :=
  inferInstanceAs (Decidable (∀ t ∈ req.tuples, _))

def appointmentRequest (claims : Claims) (req : GrantsRequest) : Request where
  subjectId := claims.subject
  featureKey := foundationModuleKey ++ ".company_administration.appoint"
  moduleKey := foundationModuleKey
  scope := .global
  companyId := ""
  requiredPlatformRole := superadminRole
  allowPlatformOperatorCompanyScope := false
  requiredCompanyRole := ""
  object := ⟨"", ""⟩
  relation := ""
  requiresEligibility := false
  correlationId := req.correlationId

def trimPrefix (s pre : String) : String :=
  if pre.toList <+: s.toList then String.ofList (s.toList.drop pre.toList.length) else s

section Passes

variable (sv : Services) (l : Fragment.Loaded) (rd : Reads) (claims : Claims) (req : GrantsRequest)

def appointment : Except Refusal Unit :=
  let dec := (sv.deps l rd).evaluate (appointmentRequest claims req)
  if dec.allowed then .ok ()
  else .error (dec.refusal "appointing a company administrator requires superadmin access" [])

/-! Rule 1: every object resolves to one module. -/

def objectModule (t : Tuple) : Except Refusal String :=
  if t.objectType = "company_module" then
    let m := trimPrefix t.objectId (req.companyId ++ "/")
    if m = t.objectId ∨ l.knownEnabled m = none then
      .error (.validationFailed ("company_module object " ++ t.objectId ++ " is not <companyId>/<module> for a known module"))
    else .ok m
  else
    let m := (l.typeOwner.lookup t.objectType).getD ""
    if m = "" then
      .error (.validationFailed ("object type " ++ t.objectType ++ " is not declared by an enabled module fragment"))
    else .ok m

def resolveModule : List Tuple → String → Except Refusal String
  | [], moduleKey => .ok moduleKey
  | t :: ts, moduleKey => do
    let m ← objectModule l req t
    if moduleKey ≠ "" ∧ m ≠ moduleKey then
      throw (.validationFailed ("tuples must all belong to one module (got " ++ moduleKey ++ " and " ++ m ++ ")"))
    else resolveModule ts m

/-! The subjects of a grant. -/

def subjectShape (t : Tuple) : Except Refusal Unit :=
  if t.subjectRelation = "" then .ok ()
  else
    match l.model.lookup t.subjectType with
    | none =>
      .error (.validationFailed ("subjectRelation " ++ t.subjectRelation ++ " names unknown subject type " ++ t.subjectType))
    | some rels =>
      if (rels.lookup t.subjectRelation).isNone then
        .error (.validationFailed ("subjectRelation " ++ t.subjectRelation ++ " is not a relation defined on subject type " ++ t.subjectType))
      else .ok ()

-- subjects of other types belong to no company and are not asked about
def subjectIn (t : Tuple) : Except String Bool :=
  if t.subjectType = "position" ∨ t.subjectType = "group" then
    checkerCheck l rd ⟨t.subjectType, t.subjectId, "company"⟩ "company" req.companyId
  else if t.subjectType = "member" then rd.memberOfCompany req.companyId t.subjectId
  else .ok true

def subjectBelongs (t : Tuple) : Except Refusal Unit := do
  if ← need (subjectIn l rd req t) "engine" "grants_subject" then return ()
  else throw (.validationFailed ("subject " ++ t.subjectType ++ ":" ++ t.subjectId ++ " does not belong to company " ++ req.companyId))

def subjects (op : GrantOp) : Except Refusal Unit :=
  match op with
  | .grant => do
    req.tuples.forM (subjectShape l)
    req.tuples.forM (subjectBelongs l rd req)
  | .revoke => .ok ()

/-! The owner rule and rule 3. -/

structure Ownership where
  (ownerCall registeredApp : Bool)

def ownership (moduleKey : String) : Except Refusal Ownership :=
  if claims.clientId = "" then .ok ⟨false, false⟩
  else
    match sv.appOwners with
    | none => .ok ⟨false, false⟩
    | some answer => do
      let owners ← need answer "registry" "grants_owner"
      return ⟨(owners.lookup moduleKey).getD "" = claims.clientId, owners.any (·.2 = claims.clientId)⟩

def ownerEnabled (own : Ownership) (moduleKey : String) : Except Refusal Unit :=
  if own.ownerCall then do
    if ← need (sv.moduleState moduleKey) "registry" "grants_owner" then return ()
    else throw (.denied ("grants denied: " ++ Reason.moduleDisabled.code) .moduleDisabled [])
  else .ok ()

def grantsDecisionRequest (own : Ownership) (moduleKey : String) : Request where
  subjectId := claims.subject
  featureKey := moduleKey ++ ".grants"
  moduleKey := moduleKey
  scope := .company
  companyId := req.companyId
  requiredPlatformRole := superadminRole
  allowPlatformOperatorCompanyScope := true
  requiredCompanyRole := if own.registeredApp then "admin" else ""
  object := ⟨"", ""⟩
  relation := ""
  requiresEligibility := false
  correlationId := req.correlationId

def grantsDecision (own : Ownership) (moduleKey : String) : Except Refusal Unit :=
  if own.ownerCall then .ok ()
  else
    let dec := (sv.deps l rd).evaluate (grantsDecisionRequest claims req own moduleKey)
    if dec.allowed then .ok ()
    else .error (dec.refusal ("grants denied: " ++ dec.reason.code) dec.evidence)

/-! Rules 2 and 4: module objects are anchored, `company_module` tuples need its admin. -/

def GrantsRequest.anchorId (moduleKey : String) : String := moduleObjectId req.companyId moduleKey

def adminHeld (anchorId : String) : Except Refusal Unit := do
  if ← need (checkerCheck l rd ⟨"company_module", anchorId, "admin"⟩ "user" claims.subject)
      "engine" "grants_admin" then return ()
  else throw (.denied ("grants on company_module:" ++ anchorId ++ " require its admin relation") .engineDenied [])

end Passes

/-- The anchor a grant request sets itself. -/
def Tuple.IsAnchorAt (anchorId : String) (t : Tuple) : Prop :=
  t.relation = "company_module" ∧ t.subjectType = "company_module" ∧ t.subjectId = anchorId ∧ t.subjectRelation = ""

instance (anchorId : String) (t : Tuple) : Decidable (t.IsAnchorAt anchorId) :=
  inferInstanceAs (Decidable (_ ∧ _))

def Tuple.objectKey (t : Tuple) : String := t.objectType ++ ":" ++ t.objectId

-- a Go map: which objects, not how often
def inRequestAnchor (op : GrantOp) (anchorId : String) (ts : List Tuple) : List String :=
  match op with
  | .grant => (ts.filter (·.IsAnchorAt anchorId)).map Tuple.objectKey
  | .revoke => []

/-- `strings.Cut` at the first colon. -/
def cutColon (key : String) : String × String :=
  (String.ofList (key.toList.takeWhile (· ≠ ':')), String.ofList ((key.toList.dropWhile (· ≠ ':')).drop 1))

def anchorFree (rd : Reads) (anchorId key : String) : Except Refusal Unit := do
  let existing ← need (rd.anchorOf (cutColon key).1 (cutColon key).2) "engine" "grants_anchor"
  if existing ≠ "" ∧ existing ≠ anchorId then
    throw (.validationFailed ("object " ++ key ++ " is already anchored to company_module:" ++ existing))
  else return ()

section Objects

variable (l : Fragment.Loaded) (rd : Reads) (claims : Claims) (op : GrantOp) (ownerCall : Bool)
  (anchorId : String) (anchors : List String)

def notAnchored (t : Tuple) : Refusal :=
  .validationFailed ("object " ++ t.objectType ++ ":" ++ t.objectId ++ " is not anchored to company_module:" ++ anchorId)

-- the owning app may clean up an object whose anchor is gone
def cleanup (t : Tuple) : Except Refusal Unit :=
  if op = .revoke ∧ ownerCall = true then do
    let existing ← need (rd.anchorOf t.objectType t.objectId) "engine" "grants_anchor"
    if existing = "" then return () else throw (notAnchored anchorId t)
  else .error (notAnchored anchorId t)

def objectAnchored (t : Tuple) : Except Refusal Unit :=
  if t.relation = "company_module" ∧ t.objectKey ∉ anchors ∧ op = .grant then
    .error (.validationFailed ("company_module anchor on " ++ t.objectType ++ ":" ++ t.objectId ++ " must point at company_module:" ++ anchorId))
  else if t.objectKey ∈ anchors then .ok ()
  else do
    if ← need (checkerCheck l rd ⟨t.objectType, t.objectId, "company_module"⟩ "company_module" anchorId)
        "engine" "grants_anchor" then return ()
    else cleanup rd op ownerCall anchorId t

/-- The last loop; the admin relation is asked for once. -/
def checkObjects : List Tuple → Bool → Except Refusal Unit
  | [], _ => .ok ()
  | t :: ts, adminChecked =>
    if t.objectType = "company_module" then
      if adminChecked then checkObjects ts true
      else do
        adminHeld l rd claims anchorId
        checkObjects ts true
    else do
      objectAnchored l rd op ownerCall anchorId anchors t
      checkObjects ts adminChecked

end Objects

/-! ## The route -/

structure Authorized where
  op : GrantOp
  moduleKey : String

section Route

variable (sv : Services) (l : Fragment.Loaded) (rd : Reads) (claims : Claims) (req : GrantsRequest)

def moduleGrants (op : GrantOp) : Except Refusal Authorized := do
  let moduleKey ← resolveModule l req req.tuples ""
  subjects l rd req op
  let own ← ownership sv claims moduleKey
  ownerEnabled sv own moduleKey
  grantsDecision sv l rd claims req own moduleKey
  let anchorId := req.anchorId moduleKey
  let anchors := inRequestAnchor op anchorId req.tuples
  anchors.forM (anchorFree rd anchorId)
  checkObjects l rd claims op own.ownerCall anchorId anchors req.tuples false
  return ⟨op, moduleKey⟩

def appointmentGrants (op : GrantOp) : Except Refusal Authorized := do
  appointment sv l rd claims req
  return ⟨op, foundationModuleKey⟩

/-- Everything `handleGrants` does before it opens a transaction. -/
def checkGrants (loaded : Except String Fragment.Loaded) : Except Refusal Authorized := do
  let op ← req.validate sv
  let l ← loaded.mapError fun message => .internal (.load message)
  if req.IsCompanyAdminAppointment then appointmentGrants sv l rd claims req op
  else moduleGrants sv l rd claims req op

end Route

def StoreError.refusal : StoreError → Refusal
  | .anchorConflict t =>
    .validationFailed ("object " ++ t.objectType ++ ":" ++ t.objectId ++ " is already anchored to another company_module")
  | e => .internal (.store e)

/-- The transaction; `tx` is how opening it, recording the audit row and committing went. -/
def writeGrants (claims : Claims) (req : GrantsRequest) (op : GrantOp) (order : RowOrder)
    (tx : Except String Unit) (s : Store) : Except Refusal Store := do
  let au : Author := ⟨claims.subject, req.correlationId⟩
  let s' ← (match op with
    | .grant => s.grant au req.tuples
    | .revoke => s.revoke au order req.tuples).mapError StoreError.refusal
  tx.mapError fun cause => .internal (.transaction cause)
  return s'

def handleGrants (sv : Services) (loaded : Except String Fragment.Loaded) (rd : Reads)
    (claims : Claims) (req : GrantsRequest) (order : RowOrder) (tx : Except String Unit) (s : Store) :
    Except Refusal Store := do
  let auth ← checkGrants sv rd claims req loaded
  writeGrants claims req auth.op order tx s

end Kiban
