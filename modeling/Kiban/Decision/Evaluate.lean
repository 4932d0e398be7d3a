import Kiban.Engine.Tuple

/-!
# The effective-access decision

`Evaluate` asks its dependencies in a fixed order and stops at the first answer that is not a plain yes.  One value of
`Deps` is one behaviour of all of them; a computation in `Except Decision` stops with the decision it throws.
-/

namespace Kiban

def foundationModuleKey : String := "auth"

inductive Reason where
  | allowed
  | authUserNotFound
  | keycloakDisabled
  | userLifecycleDisabled
  | companyInactive
  | companyMembershipRequired
  | companyAccessBlocked
  | moduleDisabled
  | platformRoleRequired
  | companyRoleRequired
  | engineDenied
  | businessEligibilityDenied
  | dependencyUnavailable
deriving DecidableEq, Repr

structure Evidence where
  (key value : String)
deriving DecidableEq, Repr

-- `dependency` and `step` are set only when a dependency was unavailable
structure Decision where
  allowed : Bool
  reason : Reason
  evidence : List Evidence
  dependency : String := ""
  step : String := ""
deriving DecidableEq, Repr

def deny (reason : Reason) (ev : List Evidence) (kv : List Evidence) : Decision :=
  { allowed := false, reason := reason, evidence := ev ++ kv }

def unavailable (dependency step : String) (ev : List Evidence) : Decision :=
  { allowed := false, reason := .dependencyUnavailable
    evidence := ev ++ [⟨"dependency", dependency⟩, ⟨"step", step⟩]
    dependency := dependency, step := step }

def allow (ev : List Evidence) (kv : List Evidence) : Decision :=
  { allowed := true, reason := .allowed, evidence := ev ++ kv }

/-! ## Dependencies and requests -/

structure SubjectResult where
  (found lifecycleActive : Bool)

inductive KCState where
  | true
  | false
  | unknown
deriving DecidableEq

structure CompanyState where
  (isPresent active : Bool)

structure MembershipState where
  (isMember blocked : Bool)

inductive EligibilityOutcome where
  | allow
  | denial
  | error
deriving DecidableEq

structure ObjectRef where
  (type id : String)
deriving DecidableEq, Repr

inductive DecisionScope where
  | global
  | company
deriving DecidableEq, Repr

structure Request where
  (subjectId featureKey moduleKey : String)
  scope : DecisionScope
  (companyId requiredPlatformRole : String)
  allowPlatformOperatorCompanyScope : Bool
  requiredCompanyRole : String
  object : ObjectRef
  relation : String
  requiresEligibility : Bool
  correlationId : String
deriving DecidableEq, Repr

-- the callback's own answer, and whether its deadline had passed by then
structure EligibilityAnswer where
  outcome : Except String EligibilityOutcome
  timedOut : Bool

/-- One behaviour of the dependencies.  The engine may or may not offer the company-bound check, and
a decider may be built without a model or an eligibility source. -/
structure Deps where
  subject : String → Except String SubjectResult
  keycloak : String → Except String KCState
  platformRole : String → String → Except String Bool
  company : String → Except String CompanyState
  membership : String → String → Except String MembershipState
  companyRole : String → String → String → Except String Bool
  moduleState : String → Except String Bool
  check : Node → String → String → Except String Bool
  checkInCompany : Option (Node → String → String → String → Except String Bool)
  model : Option (String → String → Bool)
  eligibility : Option (Request → EligibilityAnswer)

/-! ## The steps -/

def ask {α : Type} (answer : Except String α) (dependency step : String) (ev : List Evidence) : Except Decision α :=
  match answer with
  | .ok a => .ok a
  | .error _ => .error (unavailable dependency step ev)

namespace Deps

variable (d : Deps) (req : Request) (ev : List Evidence)

def subjectLookup : Except Decision SubjectResult := do
  let subj ← ask (d.subject req.subjectId) "identity" "subject_lookup" ev
  if subj.found then return subj
  else throw (deny .authUserNotFound ev [⟨"subjectFound", "false"⟩])

def keycloakEnabled : Except Decision (List Evidence) := do
  match ← ask (d.keycloak req.subjectId) "keycloak" "keycloak_enabled" ev with
  | .unknown => throw (unavailable "keycloak" "keycloak_enabled" ev)
  | .false => throw (deny .keycloakDisabled ev [⟨"kcEnabled", "false"⟩])
  | .true => return ev ++ [⟨"kcEnabled", "true"⟩]

def lifecycleActive (subj : SubjectResult) (ev : List Evidence) : Except Decision (List Evidence) :=
  if subj.lifecycleActive then return ev ++ [⟨"lifecycleActive", "true"⟩]
  else throw (deny .userLifecycleDisabled ev [⟨"lifecycleActive", "false"⟩])

-- step 4, the whole decision at global scope
def globalRole : Except Decision Decision := do
  if ← ask (d.platformRole req.subjectId req.requiredPlatformRole) "engine" "platform_role" ev then
    return allow ev [⟨"scope", "global"⟩, ⟨"platformRole", req.requiredPlatformRole⟩]
  else throw (deny .platformRoleRequired ev [⟨"requiredPlatformRole", req.requiredPlatformRole⟩])

def companyActive : Except Decision (List Evidence) := do
  let cs ← ask (d.company req.companyId) "org" "company_state" ev
  if !cs.isPresent || !cs.active then throw (deny .companyInactive ev [⟨"companyActive", "false"⟩])
  else return ev ++ [⟨"companyActive", "true"⟩]

def operatorException : Except Decision (Bool × List Evidence) :=
  if req.allowPlatformOperatorCompanyScope then do
    if ← ask (d.platformRole req.subjectId req.requiredPlatformRole) "engine"
        "platform_operator_exception" ev then
      return (true, ev ++ [⟨"platformOperatorException", "true"⟩])
    else return (false, ev)
  else return (false, ev)

def companyMembership : Except Decision (List Evidence) := do
  let ms ← ask (d.membership req.companyId req.subjectId) "org" "company_membership" ev
  if !ms.isMember then throw (deny .companyMembershipRequired ev [⟨"isMember", "false"⟩])
  else if ms.blocked then throw (deny .companyAccessBlocked ev [⟨"accessBlocked", "true"⟩])
  else return ev ++ [⟨"isMember", "true"⟩]

def companyRoleHeld : Except Decision (List Evidence) := do
  if ← ask (d.companyRole req.companyId req.subjectId req.requiredCompanyRole) "org" "company_role" ev then
    return ev ++ [⟨"companyRole", req.requiredCompanyRole⟩]
  else throw (deny .companyRoleRequired ev [⟨"requiredCompanyRole", req.requiredCompanyRole⟩])

-- step 5; the operator exception skips membership and company role
def companyScope : Except Decision (List Evidence) := do
  let ev ← d.companyActive req ev
  let (exempt, ev) ← d.operatorException req ev
  let ev ← if exempt then pure ev else d.companyMembership req ev
  if req.requiredCompanyRole ≠ "" ∧ exempt = false then d.companyRoleHeld req ev else pure ev

-- step 6; the platform's own module has no catalog entry and is never disabled
def moduleEnabled : Except Decision (List Evidence) := do
  let enabled ← if req.moduleKey = foundationModuleKey then pure true
    else ask (d.moduleState req.moduleKey) "registry" "module_state" ev
  if enabled then return ev ++ [⟨"moduleEnabled", "true"⟩]
  else throw (deny .moduleDisabled ev [⟨"moduleEnabled", "false"⟩])

def defines (objType relation : String) : Bool :=
  match d.model with
  | some f => f objType relation
  | none => false

variable (obj : ObjectRef)

/-- Whether the object is bound to the company of the request, by the first of the relations
`company` and `company_module` its type defines. -/
def bound : Except String Bool :=
  if obj.type = "company" then .ok (obj.id = req.companyId)
  else if obj.type = "company_module" then .ok (obj.id = req.companyId ++ "/" ++ req.moduleKey)
  else if d.defines obj.type "company" then
    d.check ⟨obj.type, obj.id, "company"⟩ "company" req.companyId
  else if d.defines obj.type "company_module" then
    d.check ⟨obj.type, obj.id, "company_module"⟩ "company_module" (req.companyId ++ "/" ++ req.moduleKey)
  else .ok false

def objectCompany (ev : List Evidence) : Except Decision (List Evidence) :=
  match req.scope with
  | .global => return ev
  | .company => do
    if ← ask (d.bound req obj) "engine" "relation_check" ev then
      return ev ++ [⟨"objectCompany", "true"⟩]
    else throw (deny .engineDenied ev [⟨"objectCompany", "false"⟩, ⟨"object", obj.type ++ ":" ++ obj.id⟩])

/-- The engine's answer to the relation, bound to the company where the engine can do that. -/
def relationAllowed (relation : String) : Except String Bool :=
  match req.scope, d.checkInCompany with
  | .company, some bound => bound ⟨obj.type, obj.id, relation⟩ "user" req.subjectId req.companyId
  | _, _ => d.check ⟨obj.type, obj.id, relation⟩ "user" req.subjectId

-- step 7
def relationCheck (relation : String) (ev : List Evidence) : Except Decision (List Evidence) := do
  let ev ← d.objectCompany req obj ev
  if ← ask (d.relationAllowed req obj relation) "engine" "relation_check" ev then
    return ev ++ [⟨"relation", relation⟩]
  else throw (deny .engineDenied ev [⟨"relation", relation⟩, ⟨"object", obj.type ++ ":" ++ obj.id⟩])

-- step 8
def checkEligibility : Except Decision (List Evidence) :=
  match d.eligibility with
  | none => throw (unavailable "module-eligibility" "business_eligibility" ev)
  | some callback =>
    let answer := callback req
    if answer.timedOut then throw (unavailable "module-eligibility" "business_eligibility" ev)
    else do
      match ← ask answer.outcome "module-eligibility" "business_eligibility" ev with
      | .denial => throw (deny .businessEligibilityDenied ev [⟨"eligible", "false"⟩])
      | .error => throw (unavailable "module-eligibility" "business_eligibility" ev)
      | .allow => return ev ++ [⟨"eligible", "true"⟩]

-- a feature without an object leg names no relation
def relationStep (relation : String) (ev : List Evidence) : Except Decision (List Evidence) :=
  if relation ≠ "" then d.relationCheck req obj relation ev else return ev

def eligibilityStep : Except Decision (List Evidence) :=
  if req.requiresEligibility then d.checkEligibility req ev else return ev

-- steps 1 to 3
def identify : Except Decision (List Evidence) := do
  let ev := [⟨"featureKey", req.featureKey⟩, ⟨"subjectId", req.subjectId⟩]
  let subj ← d.subjectLookup req ev
  let ev ← d.keycloakEnabled req ev
  lifecycleActive subj ev

def evaluateSteps : Except Decision Decision := do
  let ev ← d.identify req
  match req.scope with
  | .global => d.globalRole req ev
  | .company => do
    let ev ← d.companyScope req ev
    let ev ← d.moduleEnabled req ev
    let ev ← d.relationStep req req.object req.relation ev
    let ev ← d.eligibilityStep req ev
    return allow ev [⟨"scope", "company"⟩]

end Deps

def decided : Except Decision Decision → Decision
  | .ok dec => dec
  | .error dec => dec

def Deps.evaluate (d : Deps) (req : Request) : Decision := decided (d.evaluateSteps req)

/-! ## Batches of one request -/

structure AccessItem where
  object : ObjectRef
  relation : String
deriving DecidableEq, Repr

structure AccessResult where
  item : AccessItem
  decision : Decision

def Deps.evaluateSteps7And8 (d : Deps) (base : Request) (it : AccessItem) (ev : List Evidence) :
    Except Decision Decision := do
  let ev ← d.relationStep base it.object it.relation ev
  let ev ← d.eligibilityStep { base with object := it.object, relation := it.relation } ev
  return allow ev []

def Deps.evaluateBatch (d : Deps) (base : Request) (items : List AccessItem) : List AccessResult :=
  let shared := d.evaluate { base with relation := "", requiresEligibility := false }
  items.map fun it =>
    if shared.reason ≠ .allowed then ⟨it, shared⟩
    else ⟨it, decided (d.evaluateSteps7And8 base it shared.evidence)⟩

end Kiban
