import Kiban.Decision.AccessBatch
import Kiban.Lib.Keyed
import Kiban.Registry.Registry

/-!
# The effective-access endpoints

A check at company scope names a feature and may name a module.  With one, the module gate and the declared features
are those of the named module, whatever module the feature key starts with.
-/

namespace Kiban

open Fallible List Keyed.Table

/-! ## The registry -/

structure ModuleEntry where
  (enabled external : Bool)
  features : List String

/-- The catalog by module key; the table checks every key against the pattern. -/
structure ModuleRegistry where
  modules : Keyed.Table String ModuleEntry
  keyed : ∀ key entry, modules.get? key = some entry → Registry.moduleKeyPattern key = true

namespace ModuleRegistry

variable (r : ModuleRegistry)

/-- `RegistryClient.Enabled`: a module that is not in the catalog is not enabled. -/
def enabled (moduleKey : String) : Bool := (r.modules.get? moduleKey).any (·.enabled)

/-- A registered app is restricted to its features even if it has none. -/
def restricted : List (String × ModuleEntry) :=
  r.modules.rows.filter fun m => m.2.external || m.2.features ≠ []

def appFeatures : Keyed.Table String (List String) :=
  r.restricted.foldl (fun apps m => apps.upsert m.1 m.2.features) .empty

end ModuleRegistry

/-- One behaviour of what the endpoints ask, with the registry in one state.  Each call may fail. -/
structure CanServices where
  registry : ModuleRegistry
  featuresAnswered : Bool
  moduleStateAnswered : String → Bool
  -- what the decider is built from, apart from the state of the modules
  decider : Except String Deps

def CanServices.deps (svc : CanServices) (d : Deps) : Deps :=
  { d with
    moduleState := fun moduleKey =>
      if svc.moduleStateAnswered moduleKey then .ok (svc.registry.enabled moduleKey) else .error "registry" }

/-! ## Requests -/

structure CanRequest where
  (actorOverride featureKey moduleKey scope companyId requiredPlatformRole : String)
  allowPlatformOperator : Bool
  requiredCompanyRole : String
  object : ObjectRef
  relation : String
  requiresEligibility : Bool
  correlationId : String

inductive CanRefusal where
  | error (status : Nat) (code message : String) (details : List (String × String))
  | unavailable (dec : Decision)

def CanRequest.toDecisionRequest (w : CanRequest) (subjectId : String) : Request where
  subjectId := subjectId
  featureKey := w.featureKey
  moduleKey := w.moduleKey
  scope := if w.scope = "global" then .global else .company
  companyId := w.companyId
  requiredPlatformRole := w.requiredPlatformRole
  allowPlatformOperatorCompanyScope := w.allowPlatformOperator
  requiredCompanyRole := w.requiredCompanyRole
  object := w.object
  relation := w.relation
  requiresEligibility := w.requiresEligibility
  correlationId := w.correlationId

def beforeDot (featureKey : String) : Option String :=
  if '.' ∈ featureKey.toList then some (.ofList (featureKey.toList.takeWhile (· ≠ '.'))) else none

def moduleOrFeaturePrefix (moduleKey featureKey : String) : String :=
  if moduleKey ≠ "" then moduleKey
  else
    match beforeDot featureKey with
    | some start => if start ≠ "" then start else moduleKey
    | none => moduleKey

def validateCanRequest (sub : String) (req : CanRequest) : Except CanRefusal Unit :=
  if req.actorOverride ≠ "" ∧ req.actorOverride ≠ sub then
    .error (.error 400 "BAD_REQUEST" "actorId must match the bearer subject, or be omitted" [])
  else if req.requiresEligibility then
    .error (.error 400 "VALIDATION_ERROR" "requiresEligibility is not supported by this deployment"
      [("field", "requiresEligibility")])
  else if req.scope = "global" ∧ req.requiredPlatformRole = "" then
    .error (.error 400 "VALIDATION_ERROR" "requiredPlatformRole is required for global scope"
      [("field", "requiredPlatformRole")])
  else .ok ()

/-- A feature that the module does not declare is refused. -/
def CanServices.featureDeclared (svc : CanServices) (moduleKey featureKey : String) : Except CanRefusal Unit :=
  if moduleKey = "" then .ok ()
  else if svc.featuresAnswered then
    match svc.registry.appFeatures.get? moduleKey with
    | none => .ok ()
    | some declared =>
      if featureKey ≠ moduleKey ++ ".access" ∧ featureKey ∉ declared then
        .error (.error 422 "VALIDATION_FAILED" ("feature " ++ featureKey ++ " is not declared by " ++ moduleKey) [])
      else .ok ()
  else .error (.unavailable ⟨false, .dependencyUnavailable, [], "registry", "features"⟩)

def writeDecision (dec : Decision) : Except CanRefusal Decision :=
  if dec.reason = .dependencyUnavailable then .error (.unavailable dec) else .ok dec

def CanServices.buildDecider (svc : CanServices) : Except CanRefusal Deps :=
  match svc.decider with
  | .ok d => .ok (svc.deps d)
  | .error message => .error (.error 500 "INTERNAL_ERROR" message [])

/-- The request with the module that it is about. -/
def CanRequest.resolved (req : CanRequest) : CanRequest :=
  { req with moduleKey := moduleOrFeaturePrefix req.moduleKey req.featureKey }

def CanServices.screen (svc : CanServices) (sub : String) (req : CanRequest) : Except CanRefusal Unit := do
  validateCanRequest sub req
  svc.featureDeclared req.resolved.moduleKey req.featureKey

def handleCan (svc : CanServices) (sub : String) (req : CanRequest) : Except CanRefusal Decision := do
  svc.screen sub req
  let d ← svc.buildDecider
  writeDecision (d.evaluate (req.resolved.toDecisionRequest sub))

def maxBatchItems : Nat := 100

def handleBatchCan (svc : CanServices) (sub : String) (req : CanRequest) (items : List AccessItem) :
    Except CanRefusal (List AccessResult) := do
  svc.screen sub req
  if items.length > maxBatchItems then
    .error (.error 400 "VALIDATION_ERROR" "items must not exceed 100 entries" [("field", "items"), ("max", "100")])
  else
    let d ← svc.buildDecider
    return d.evaluateBatch (req.resolved.toDecisionRequest sub) items

/-! ## The gate of the module that the feature key names -/

/-- The module is enabled and, if it declares features, the feature key is one of them or its access key. -/
def ModuleRegistry.Gate (r : ModuleRegistry) (featureKey : String) : Prop :=
  ∀ moduleKey entry, beforeDot featureKey = some moduleKey → r.modules.get? moduleKey = some entry →
    entry.enabled = true ∧ (entry.features ≠ [] → featureKey ∈ entry.features ∨ featureKey = moduleKey ++ ".access")

def CanGated (svc : CanServices) (sub : String) (req : CanRequest) : Prop :=
  ∀ dec, handleCan svc sub req = .ok dec → dec.allowed = true → svc.registry.Gate req.featureKey

def BatchGated (svc : CanServices) (sub : String) (req : CanRequest) (items : List AccessItem) : Prop :=
  ∀ results, handleBatchCan svc sub req items = .ok results → ∀ r ∈ results, r.decision.allowed = true →
    svc.registry.Gate req.featureKey

/-- The feature key names nothing that can be a module, or the request is about the module that it names, which is not
the platform's own, or about one that cannot be in the catalog. -/
def CanRequest.Consistent (req : CanRequest) : Prop :=
  ∀ moduleKey, beforeDot req.featureKey = some moduleKey → Registry.moduleKeyPattern moduleKey = true →
    ((req.moduleKey = "" ∨ req.moduleKey = moduleKey) ∧ moduleKey ≠ foundationModuleKey) ∨
      (req.moduleKey ≠ "" ∧ Registry.moduleKeyPattern req.moduleKey = false)

/-- The id alone says that the object is of another company or module, so it cannot be bound. -/
def CanRequest.Misplaced (req : CanRequest) (object : ObjectRef) (relation : String) : Prop :=
  relation ≠ "" ∧ ((object.type = "company" ∧ object.id ≠ req.companyId) ∨
    (object.type = "company_module" ∧ object.id ≠ req.companyId ++ "/" ++ req.resolved.moduleKey))

/-! ## Requests that are about the module they name -/

section Gates

variable {svc : CanServices} {sub : String} {req : CanRequest} {d : Deps} {r : ModuleRegistry}
  {moduleKey disabled : String} {entry : ModuleEntry} {it : AccessItem} {items : List AccessItem}

theorem scope_resolved (sub : String) (hscope : req.scope ≠ "global") :
    (req.resolved.toDecisionRequest sub).scope = .company :=
  if_neg hscope

theorem beforeDot_resolved {start} (hdot : beforeDot req.featureKey = some start) (hne : start ≠ "")
    (hmod : req.moduleKey = "" ∨ req.moduleKey = start) : req.resolved.moduleKey = start := by
  change moduleOrFeaturePrefix req.moduleKey req.featureKey = start
  unfold moduleOrFeaturePrefix
  by_cases hempty : req.moduleKey = ""
  · rw [if_neg (not_not.mpr hempty), hdot]
    exact if_pos hne
  · rw [if_pos hempty]
    exact hmod.resolve_left hempty

theorem ModuleRegistry.get?_appFeatures (hentry : r.modules.get? moduleKey = some entry)
    (hfea : entry.features ≠ []) : r.appFeatures.get? moduleKey = some entry.features := by
  have hnodup : (r.restricted.map Prod.fst).Nodup :=
    r.modules.nodup.sublist (filter_sublist.map Prod.fst)
  have hmem : (moduleKey, entry) ∈ r.restricted := by
    apply List.mem_filter.mpr
    exact ⟨get?_eq_some_iff.mp hentry, by simp [hfea]⟩
  exact get?_foldl_upsert_of_mem hnodup hmem

theorem CanServices.declared_of_screen (hscr : svc.screen sub req = .ok ()) (hkey : req.resolved.moduleKey ≠ "")
    (hentry : svc.registry.modules.get? req.resolved.moduleKey = some entry)
    (hfea : entry.features ≠ []) :
    req.featureKey ∈ entry.features ∨ req.featureKey = req.resolved.moduleKey ++ ".access" := by
  obtain ⟨_, _, hdecl⟩ := bind_eq_ok.mp hscr
  unfold CanServices.featureDeclared at hdecl
  rw [if_neg hkey] at hdecl
  by_cases hans : svc.featuresAnswered = true
  · rw [if_pos hans, ModuleRegistry.get?_appFeatures hentry hfea] at hdecl
    have hnot := (ite_error_eq_ok.mp hdecl).1
    by_contra hnor
    rw [not_or] at hnor
    exact hnot ⟨hnor.2, hnor.1⟩
  · rw [if_neg hans] at hdecl
    cases hdecl

/-- The module that an allowed request is about is the platform's own or enabled. -/
theorem CanServices.enabled_of_decision (it : AccessItem) (hscope : req.scope ≠ "global")
    (hok : ((svc.deps d).evaluate ((req.resolved.toDecisionRequest sub).forItem it)).allowed = true) :
    req.resolved.moduleKey = foundationModuleKey ∨ svc.registry.enabled req.resolved.moduleKey = true := by
  have hco : ((req.resolved.toDecisionRequest sub).forItem it).scope = .company := scope_resolved sub hscope
  apply (enabled_of_allowed hco hok).imp_right
  intro hstate
  change (if svc.moduleStateAnswered req.resolved.moduleKey then _ else _) = _ at hstate
  split at hstate
  · exact Except.ok.inj hstate
  · cases hstate

theorem ModuleRegistry.pattern_of_enabled (h : r.enabled moduleKey = true) :
    Registry.moduleKeyPattern moduleKey = true := by
  obtain ⟨entry, hentry, _⟩ := (Option.any_eq_true _ _).mp h
  exact r.keyed moduleKey entry hentry

/-- A decision of the service's own decider about this request, for whichever object. -/
theorem CanServices.gate_of_allowed (it : AccessItem)
    (hscope : req.scope ≠ "global") (hscr : svc.screen sub req = .ok ()) (hreq : req.Consistent)
    (hok : ((svc.deps d).evaluate ((req.resolved.toDecisionRequest sub).forItem it)).allowed = true) :
    svc.registry.Gate req.featureKey := by
  intro moduleKey entry hdot hentry
  have hpat := svc.registry.keyed moduleKey entry hentry
  have hstate := svc.enabled_of_decision it hscope hok
  rcases hreq moduleKey hdot hpat with ⟨hmod, hfnd⟩ | ⟨hgiven, hfor⟩
  case inr =>
    -- what is not in the catalog is not enabled, and the platform's own key is one that could be
    rw [show req.resolved.moduleKey = req.moduleKey from if_pos hgiven] at hstate
    rcases hstate with hstate | hstate
    · exact absurd hfor (by rw [hstate]; decide)
    · exact absurd hfor (by rw [svc.registry.pattern_of_enabled hstate]; decide)
  have hne : moduleKey ≠ "" := by
    rintro rfl
    cases hpat
  have hres := beforeDot_resolved hdot hne hmod
  constructor
  · have hena := hstate.resolve_left fun heq => hfnd (hres.symm.trans heq)
    rw [hres, ModuleRegistry.enabled, hentry] at hena
    exact hena
  · intro hfea
    have hdecl := svc.declared_of_screen hscr (by rwa [hres]) (by rwa [hres]) hfea
    rwa [hres] at hdecl

theorem bound_of_misplaced (hmis : req.Misplaced it.object it.relation) :
    d.bound ((req.resolved.toDecisionRequest sub).forItem it) it.object = .ok false := by
  unfold Deps.bound
  rcases hmis.2 with ⟨htype, hid⟩ | ⟨htype, hid⟩
  · rw [if_pos htype]
    exact congrArg Except.ok (decide_eq_false hid)
  · rw [if_neg (by rw [htype]; decide), if_pos htype]
    exact congrArg Except.ok (decide_eq_false hid)

theorem denied_of_misplaced (it : AccessItem)
    (hscope : req.scope ≠ "global") (hmis : req.Misplaced it.object it.relation) :
    (d.evaluate ((req.resolved.toDecisionRequest sub).forItem it)).allowed = false := by
  have hco : ((req.resolved.toDecisionRequest sub).forItem it).scope = .company := scope_resolved sub hscope
  apply Bool.eq_false_iff.mpr
  intro hok
  have hbound := bound_of_allowed hco hmis.1 hok
  rw [show ((req.resolved.toDecisionRequest sub).forItem it).object = it.object from rfl,
    bound_of_misplaced hmis] at hbound
  cases hbound

/-! ## Dependencies that grant everything -/

-- every type hangs on its company, and every check succeeds
def openDeps : Deps where
  subject := fun _ => .ok ⟨true, true⟩
  keycloak := fun _ => .ok .true
  platformRole := fun _ _ => .ok true
  company := fun _ => .ok ⟨true, true⟩
  membership := fun _ _ => .ok ⟨true, false⟩
  companyRole := fun _ _ _ => .ok true
  moduleState := fun _ => .ok true
  check := fun _ _ _ => .ok true
  checkInCompany := some fun _ _ _ _ => .ok true
  model := some fun _ relation => relation = "company"
  eligibility := none

def enabledBeside (moduleKey disabled : String) (hm : Registry.moduleKeyPattern moduleKey = true)
    (hd : Registry.moduleKeyPattern disabled = true) : ModuleRegistry where
  modules := (Keyed.Table.empty.upsert moduleKey ⟨true, false, []⟩).upsert disabled ⟨false, false, []⟩
  keyed := by
    intro key entry hentry
    simp only [get?_upsert] at hentry
    split at hentry
    · rename_i heq
      rwa [heq]
    · split at hentry
      · rename_i heq
        rwa [heq]
      · cases hentry

def openServices (registry : ModuleRegistry) : CanServices where
  registry := registry
  featuresAnswered := true
  moduleStateAnswered := fun _ => true
  decider := .ok openDeps

theorem openDeps_bound (hrel : it.relation ≠ "")
    (hpla : ¬ req.Misplaced it.object it.relation) (r : ModuleRegistry) :
    ((openServices r).deps openDeps).bound ((req.resolved.toDecisionRequest sub).forItem it) it.object = .ok true := by
  unfold Deps.bound
  by_cases hco : it.object.type = "company"
  · rw [if_pos hco]
    have hid : it.object.id = req.companyId := by
      by_contra hne
      exact hpla ⟨hrel, .inl ⟨hco, hne⟩⟩
    exact congrArg Except.ok (decide_eq_true hid)
  · rw [if_neg hco]
    by_cases hmod : it.object.type = "company_module"
    · rw [if_pos hmod]
      have hid : it.object.id = req.companyId ++ "/" ++ req.resolved.moduleKey := by
        by_contra hne
        exact hpla ⟨hrel, .inr ⟨hmod, hne⟩⟩
      exact congrArg Except.ok (decide_eq_true hid)
    · rw [if_neg hmod]
      rfl

theorem openDeps_allowed (it : AccessItem) (hscope : req.scope ≠ "global") (helig : req.requiresEligibility = false)
    (hpla : ¬ req.Misplaced it.object it.relation)
    (hmod : req.resolved.moduleKey = foundationModuleKey ∨ r.enabled req.resolved.moduleKey = true) :
    (((openServices r).deps openDeps).evaluate ((req.resolved.toDecisionRequest sub).forItem it)).allowed = true := by
  have hco : ((req.resolved.toDecisionRequest sub).forItem it).scope = .company := scope_resolved sub hscope
  have helig' : ((req.resolved.toDecisionRequest sub).forItem it).requiresEligibility = false := helig
  rw [Deps.evaluate_allowed_iff]
  intro n happ
  cases n with
  | platformRole => simp [Deps.applies, hco] at happ
  | eligibility => simp [Deps.applies, helig'] at happ
  | moduleState =>
    unfold Deps.outcome
    by_cases hfnd : req.resolved.moduleKey = foundationModuleKey
    · exact if_pos hfnd
    · have hena := hmod.resolve_left hfnd
      refine (if_neg hfnd).trans ?_
      rw [of_unless_eq_pass_iff]
      exact congrArg Except.ok hena
  | objectBinding =>
    have hrel : it.relation ≠ "" := by
      simp only [Deps.applies, decide_eq_true_eq] at happ
      exact happ.2
    unfold Deps.outcome
    rw [of_unless_eq_pass_iff, ← Deps.bound_eq_binding]
    exact openDeps_bound hrel hpla r
  | relationCheck =>
    unfold Deps.outcome
    rw [of_unless_eq_pass_iff]
    rfl
  | subject | keycloak | lifecycle | companyState | operatorException | membership | companyRole => rfl

theorem enabledBeside_restricted (hm : Registry.moduleKeyPattern moduleKey = true)
    (hd : Registry.moduleKeyPattern disabled = true) :
    (enabledBeside moduleKey disabled hm hd).restricted = [] := by
  apply filter_eq_nil_iff.mpr
  rintro ⟨key, entry⟩ hrow
  have hentry : (enabledBeside moduleKey disabled hm hd).modules.get? key = some entry :=
    get?_eq_some_iff.mpr hrow
  simp only [enabledBeside, get?_upsert] at hentry
  split at hentry
  · simp [← Option.some.inj hentry]
  · split at hentry
    · simp [← Option.some.inj hentry]
    · cases hentry

theorem not_gate_enabledBeside {featureKey} (hm : Registry.moduleKeyPattern moduleKey = true)
    (hd : Registry.moduleKeyPattern disabled = true)
    (hdot : beforeDot featureKey = some disabled) :
    ¬ (enabledBeside moduleKey disabled hm hd).Gate featureKey := by
  intro hgate
  have hentry : (enabledBeside moduleKey disabled hm hd).modules.get? disabled = some ⟨false, false, []⟩ :=
    (get?_upsert _ _).trans (if_pos rfl)
  exact Bool.false_ne_true (hgate disabled _ hdot hentry).1

theorem openServices_screen (hacc : validateCanRequest sub req = .ok ())
    (hr : r.restricted = []) : (openServices r).screen sub req = .ok () := by
  have hfea : r.appFeatures.get? req.resolved.moduleKey = none := by
    rw [ModuleRegistry.appFeatures, hr]
    rfl
  have hdecl : (openServices r).featureDeclared req.resolved.moduleKey req.featureKey = .ok () := by
    unfold CanServices.featureDeclared
    split
    · rfl
    · change (match r.appFeatures.get? req.resolved.moduleKey with
        | none => _
        | some declared => _) = _
      rw [hfea]
  exact bind_eq_ok.mpr ⟨(), hacc, hdecl⟩

/-! ## When no decision skips a gate -/

theorem requiresEligibility_of_accepted
    (hacc : validateCanRequest sub req = .ok ()) : req.requiresEligibility = false := by
  have hrest := (ite_error_eq_ok.mp hacc).2
  exact Bool.eq_false_iff.mpr (ite_error_eq_ok.mp hrest).1

theorem handleCan_eq_ok {dec} (h : handleCan svc sub req = .ok dec) : svc.screen sub req = .ok () ∧
      ∃ d, svc.decider = .ok d ∧ dec = (svc.deps d).evaluate (req.resolved.toDecisionRequest sub) := by
  obtain ⟨_, hscr, hrest⟩ := bind_eq_ok.mp h
  obtain ⟨deps, hbuilt, hwri⟩ := bind_eq_ok.mp hrest
  refine ⟨hscr, ?_⟩
  unfold CanServices.buildDecider at hbuilt
  unfold writeDecision at hwri
  cases hdeci : svc.decider with
  | error message =>
    rw [hdeci] at hbuilt
    cases hbuilt
  | ok d =>
    rw [hdeci] at hbuilt
    have hdec := Except.ok.inj (ite_error_eq_ok.mp hwri).2
    exact ⟨d, rfl, by rw [← hdec, Except.ok.inj hbuilt]⟩

theorem handleBatchCan_eq_ok {results} (h : handleBatchCan svc sub req items = .ok results) :
    svc.screen sub req = .ok () ∧ ∃ d, svc.decider = .ok d ∧
      results = (svc.deps d).evaluateBatch (req.resolved.toDecisionRequest sub) items := by
  obtain ⟨_, hscr, hrest⟩ := bind_eq_ok.mp h
  obtain ⟨deps, hbuilt, hdone⟩ := bind_eq_ok.mp (ite_error_eq_ok.mp hrest).2
  refine ⟨hscr, ?_⟩
  unfold CanServices.buildDecider at hbuilt
  cases hdec : svc.decider with
  | error message =>
    rw [hdec] at hbuilt
    cases hbuilt
  | ok d =>
    rw [hdec] at hbuilt
    exact ⟨d, rfl, by rw [← Except.ok.inj hdone, Except.ok.inj hbuilt]⟩

theorem gate_of_decision (it : AccessItem) (hscope : req.scope ≠ "global") (hscr : svc.screen sub req = .ok ())
    (hreq : req.Consistent ∨ req.Misplaced it.object it.relation)
    (hok : ((svc.deps d).evaluate ((req.resolved.toDecisionRequest sub).forItem it)).allowed = true) :
    svc.registry.Gate req.featureKey := by
  rcases hreq with hcon | hmis
  · exact svc.gate_of_allowed it hscope hscr hcon hok
  · rw [denied_of_misplaced it hscope hmis] at hok
    cases hok

theorem exists_batchDecision {r} (hscope : req.scope ≠ "global")
    (hr : r ∈ d.evaluateBatch (req.resolved.toDecisionRequest sub) items) :
    ∃ it ∈ items, r.decision.allowed = (d.evaluate ((req.resolved.toDecisionRequest sub).forItem it)).allowed := by
  rw [Deps.evaluateBatch_eq] at hr
  obtain ⟨it, hit, rfl⟩ := mem_map.mp hr
  exact ⟨it, hit, (d.agrees_of_company _ it (scope_resolved sub hscope)).1⟩

/-- Two modules are enough to let a request past the gate of the module that its feature key names. -/
theorem exists_skipping (hacc : validateCanRequest sub req = .ok ()) (hreq : ¬ req.Consistent) :
    ∃ r, (openServices r).screen sub req = .ok () ∧ ¬ r.Gate req.featureKey ∧
      (req.resolved.moduleKey = foundationModuleKey ∨ r.enabled req.resolved.moduleKey = true) := by
  unfold CanRequest.Consistent at hreq
  push Not at hreq
  obtain ⟨start, hdot, hstart, hother, hfor⟩ := hreq
  have hne : start ≠ "" := by
    rintro rfl
    cases hstart
  have hkey : Registry.moduleKeyPattern req.resolved.moduleKey = true := by
    by_cases hempty : req.moduleKey = ""
    · rwa [beforeDot_resolved hdot hne (.inl hempty)]
    · rw [show req.resolved.moduleKey = req.moduleKey from if_pos hempty]
      exact Bool.not_eq_false _ ▸ hfor hempty
  refine ⟨enabledBeside req.resolved.moduleKey start hkey hstart,
    openServices_screen hacc (enabledBeside_restricted hkey hstart), not_gate_enabledBeside hkey hstart hdot, ?_⟩
  by_cases hsame : req.resolved.moduleKey = start
  · left
    rw [hsame]
    apply hother
    by_contra hmod
    rw [not_or] at hmod
    rw [show req.resolved.moduleKey = req.moduleKey from if_pos hmod.1] at hsame
    exact hmod.2 hsame
  · right
    simp [ModuleRegistry.enabled, enabledBeside, get?_upsert, hsame]

theorem handleCan_open (hscr : (openServices r).screen sub req = .ok ())
    (hok : (((openServices r).deps openDeps).evaluate (req.resolved.toDecisionRequest sub)).allowed = true) :
    handleCan (openServices r) sub req =
      .ok (((openServices r).deps openDeps).evaluate (req.resolved.toDecisionRequest sub)) := by
  refine bind_eq_ok.mpr ⟨(), hscr, bind_eq_ok.mpr ⟨_, rfl, if_neg ?_⟩⟩
  rw [Deps.reason_of_allowed _ _ hok]
  decide

theorem handleBatchCan_open
    (hscr : (openServices r).screen sub req = .ok ()) (hlen : items.length ≤ maxBatchItems) :
    handleBatchCan (openServices r) sub req items =
      .ok (((openServices r).deps openDeps).evaluateBatch (req.resolved.toDecisionRequest sub) items) :=
  bind_eq_ok.mpr ⟨(), hscr, (if_neg (Nat.not_lt.mpr hlen)).trans rfl⟩

end Gates

/-- Whatever the dependencies answer, no decision about an accepted request at company scope skips the gate of the
module that its feature key names, exactly when the request is consistent or its objects cannot be bound. -/
theorem handlers_gated_iff (sub : String) (req : CanRequest) (items : List AccessItem)
    (hscope : req.scope ≠ "global") (haccepted : validateCanRequest sub req = .ok ()) :
    ((∀ svc, CanGated svc sub req) ↔ req.Consistent ∨ req.Misplaced req.object req.relation) ∧
    (items.length ≤ maxBatchItems → ((∀ svc, BatchGated svc sub req items) ↔
      req.Consistent ∨ ∀ it ∈ items, req.Misplaced it.object it.relation)) := by
  have helig := requiresEligibility_of_accepted haccepted
  refine ⟨⟨fun hgated => ?_, fun hreq svc dec hdec hok => ?_⟩,
    fun hlen => ⟨fun hgated => ?_, fun hreq svc results hres r hr hok => ?_⟩⟩
  · by_contra hnor
    rw [not_or] at hnor
    obtain ⟨r, hscr, hskips, hmod⟩ := exists_skipping haccepted hnor.1
    have hok : (((openServices r).deps openDeps).evaluate (req.resolved.toDecisionRequest sub)).allowed = true :=
      openDeps_allowed ⟨req.object, req.relation⟩ hscope helig hnor.2 hmod
    exact hskips (hgated (openServices r) _ (handleCan_open hscr hok) hok)
  · obtain ⟨hscr, d, _, rfl⟩ := handleCan_eq_ok hdec
    exact gate_of_decision ⟨req.object, req.relation⟩ hscope hscr hreq hok
  · by_contra hnor
    push Not at hnor
    obtain ⟨hinc, it, hit, hpla⟩ := hnor
    obtain ⟨r, hscr, hskips, hmod⟩ := exists_skipping haccepted hinc
    have hres := hgated (openServices r) _ (handleBatchCan_open hscr hlen)
    rw [Deps.evaluateBatch_eq] at hres
    refine hskips (hres _ (mem_map_of_mem hit) ?_)
    exact (Deps.agrees_of_company _ _ it (scope_resolved sub hscope)).1.trans (openDeps_allowed it hscope helig hpla hmod)
  · obtain ⟨hscr, d, _, rfl⟩ := handleBatchCan_eq_ok hres
    obtain ⟨it, hit, hsame⟩ := exists_batchDecision hscope hr
    exact gate_of_decision it hscope hscr (hreq.imp_right fun h => h it hit) (hsame.symm.trans hok)

def approveElsewhere : CanRequest where
  actorOverride := ""
  featureKey := "timesheet.approve"
  moduleKey := "auth"
  scope := "company"
  companyId := "c1"
  requiredPlatformRole := ""
  allowPlatformOperator := false
  requiredCompanyRole := ""
  object := ⟨"", ""⟩
  relation := ""
  requiresEligibility := false
  correlationId := ""

theorem handlers_gated_iff_timesheet :
    (∀ svc, CanGated svc "u1" { approveElsewhere with moduleKey := "timesheet" }) ∧
      ∀ svc, BatchGated svc "u1" { approveElsewhere with moduleKey := "timesheet" } [⟨⟨"company", "c1"⟩, "member"⟩] := by
  have hcon : CanRequest.Consistent { approveElsewhere with moduleKey := "timesheet" } := by
    intro moduleKey hdot _
    have hkey : moduleKey = "timesheet" := Option.some.inj (hdot.symm.trans (by decide +kernel))
    exact .inl ⟨.inr hkey.symm, by rw [hkey]; decide⟩
  have hgated := handlers_gated_iff "u1" { approveElsewhere with moduleKey := "timesheet" }
    [⟨⟨"company", "c1"⟩, "member"⟩] (by decide) rfl
  exact ⟨hgated.1.mpr (.inl hcon), (hgated.2 (by decide)).mpr (.inl hcon)⟩

/-- A member of the company is allowed a feature of a module that is disabled. -/
theorem handlers_skip_gate :
    ∃ svc, svc.registry.enabled "timesheet" = false ∧ (svc.registry.modules.get? "timesheet").isSome = true ∧
      validateCanRequest "u1" approveElsewhere = .ok () ∧ ¬ CanGated svc "u1" approveElsewhere ∧
      ¬ BatchGated svc "u1" approveElsewhere [⟨⟨"", ""⟩, ""⟩] := by
  let r := enabledBeside "helpdesk" "timesheet" (by decide +kernel) (by decide +kernel)
  have hscope : approveElsewhere.scope ≠ "global" := by decide
  have hscr : (openServices r).screen "u1" approveElsewhere = .ok () :=
    openServices_screen rfl (enabledBeside_restricted _ _)
  have hok : (((openServices r).deps openDeps).evaluate
      ((approveElsewhere.resolved.toDecisionRequest "u1").forItem ⟨⟨"", ""⟩, ""⟩)).allowed = true :=
    openDeps_allowed _ hscope rfl (fun h => h.1 rfl) (.inl rfl)
  have hskips : ¬ r.Gate approveElsewhere.featureKey := not_gate_enabledBeside _ _ (by decide +kernel)
  refine ⟨openServices r, by decide +kernel, by decide +kernel, rfl, fun hgated => ?_, fun hgated => ?_⟩
  · exact hskips (hgated _ (handleCan_open hscr hok) hok)
  · have hres := hgated _ (handleBatchCan_open hscr (by decide))
    rw [Deps.evaluateBatch_eq] at hres
    refine hskips (hres _ (mem_singleton.mpr rfl) ?_)
    exact (Deps.agrees_of_company _ _ _ (scope_resolved "u1" hscope)).1.trans hok

end Kiban
