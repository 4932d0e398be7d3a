import Kiban.Lib.JavaScript
import Kiban.Web.Routes

/-!
# The gate before a module's pages

`computeModuleAccess` composes what a caller can reach, and `resolveModuleRoute` decides from it what a URL of the
shell shows.  The maps from companies to keys are plain objects, and the company id of a URL is any text: where it
names something that objects inherit, the test of the keys throws.
-/

namespace Kiban.Web

open List

open JavaScript (truthy)

/-! ## What the caller can reach -/

structure Capability where
  module : String
  (installed enabled : Bool)
  missingDependencies : List String

structure CatalogEntry where
  (moduleKey scopeType : String)
  isActive : Bool

structure EffectiveAccessSummary where
  featureKeys : List String

structure OrgMeCompany where
  id : String

structure PlatformComposition where
  capabilities : List Capability
  catalog : List CatalogEntry
  globalSummary : Option EffectiveAccessSummary
  meCompanies : List OrgMeCompany
  companySummaries : Keyed.Table String (Option EffectiveAccessSummary)

structure ModuleAccess where
  (availableModuleKeys globalFeatureKeys : List String)
  (moduleKeysByCompany featureKeysByCompany : JavaScript.Record)

def isCapabilityEnabled (capability : Capability) : Bool :=
  capability.installed && capability.enabled && capability.missingDependencies.length = 0

namespace PlatformComposition

variable (data : PlatformComposition)

def catalogByKey : Keyed.Table String CatalogEntry :=
  data.catalog.foldl (fun entries entry => entries.upsert entry.moduleKey entry) .empty

def availableModuleKeys : List String :=
  ((data.capabilities.filter isCapabilityEnabled).map Capability.module).eraseDups.filter fun key =>
    (data.catalogByKey.get? key).any CatalogEntry.isActive

def companyScopedAvailableModuleKeys : List String :=
  data.availableModuleKeys.filter fun key => (data.catalogByKey.get? key).any fun entry => entry.scopeType = "company"

/-- `companySummaries.get(id)?.featureKeys ?? []` -/
def companyFeatureKeys (id : String) : List String :=
  ((data.companySummaries.get? id).join.map EffectiveAccessSummary.featureKeys).getD []

end PlatformComposition

def computeModuleAccess (data : PlatformComposition) : ModuleAccess where
  availableModuleKeys := data.availableModuleKeys
  globalFeatureKeys := (data.globalSummary.map EffectiveAccessSummary.featureKeys).getD []
  moduleKeysByCompany := data.meCompanies.foldl (fun keys company =>
    keys.set company.id data.companyScopedAvailableModuleKeys) .empty
  featureKeysByCompany := data.meCompanies.foldl (fun keys company =>
    keys.set company.id (data.companyFeatureKeys company.id)) .empty

/-! ## The resolver -/

structure ModuleRouteRequest extends ModuleAccess where
  hostScope : ModuleScope
  companyId : Option String
  moduleKey : String
  modulePath : Option String

inductive ModuleRouteOutcome where
  | moduleUnavailable (moduleKey : String)
  | routeNotFound (moduleKey modulePath : String)
  | accessDenied (moduleKey featureKey : String)
  | ready (m : ModuleDefinition) (route : ModuleRouteDefinition) (params : Params) (companyId : Option String)

/-- Stage 4: a company host asks for the module in that company. -/
def ModuleRouteRequest.reachesModule (request : ModuleRouteRequest) (m : ModuleDefinition) : Except String Bool :=
  match request.hostScope with
  | .global => .ok true
  | .company =>
    match truthy request.companyId with
    | none => .ok false
    | some companyId => (request.moduleKeysByCompany.get companyId).includes m.moduleKey

/-- Stage 5: the feature key is granted at the host's scope. -/
def ModuleRouteRequest.grants (request : ModuleRouteRequest) (route : ModuleRouteDefinition) : Except String Bool :=
  match request.hostScope with
  | .global => .ok (route.featureKey ∈ request.globalFeatureKeys)
  | .company =>
    match truthy request.companyId with
    | none => .ok false
    | some companyId => (request.featureKeysByCompany.get companyId).includes route.featureKey

def ModuleRouteRequest.allows (request : ModuleRouteRequest) (m : ModuleDefinition) (route : ModuleRouteDefinition) :
    Except String Bool := do
  let reached ← request.reachesModule m
  if reached then request.grants route else .ok false

def resolveModuleRoute (catalog : ModuleCatalog) (request : ModuleRouteRequest) :
    Except String ModuleRouteOutcome :=
  match catalog.find? fun candidate => candidate.moduleKey = request.moduleKey with
  | none => .ok (.moduleUnavailable request.moduleKey)
  | some m =>
    if m.scope ≠ request.hostScope ∨ m.moduleKey ∉ request.availableModuleKeys then
      .ok (.moduleUnavailable request.moduleKey)
    else
      match matchModuleRoute m.routes (some (normalizeModulePath request.modulePath)) with
      | none => .ok (.routeNotFound m.moduleKey (normalizeModulePath request.modulePath))
      | some (route, params) => do
        let allowed ← request.allows m route
        -- both stages refuse with the same outcome
        .ok (if allowed then .ready m route params (truthy request.companyId)
          else .accessDenied m.moduleKey route.featureKey)

/-! ## The gate as it is meant -/

section Gate

variable (catalog : ModuleCatalog) (data : PlatformComposition) (request : ModuleRouteRequest)

def Available (key : String) : Prop :=
  (∃ capability ∈ data.capabilities, capability.module = key ∧ isCapabilityEnabled capability = true) ∧
    ∃ entry, data.catalogByKey.get? key = some entry ∧ entry.isActive = true

def CompanyScoped (key : String) : Prop :=
  ∃ entry, data.catalogByKey.get? key = some entry ∧ entry.scopeType = "company"

/-- The module of the request exists in the host's scope and is available. -/
structure Offered (m : ModuleDefinition) : Prop where
  mem : m ∈ catalog
  key : m.moduleKey = request.moduleKey
  scope : m.scope = request.hostScope
  available : Available data m.moduleKey

def ModuleRouteRequest.segments : List String := splitPath (normalizeModulePath request.modulePath)

/-- The caller may open the route: at the company host in one of their companies. -/
def Granted (m : ModuleDefinition) (route : ModuleRouteDefinition) : Prop :=
  match request.hostScope with
  | .global => ∃ summary, data.globalSummary = some summary ∧ route.featureKey ∈ summary.featureKeys
  | .company => ∃ companyId, request.companyId = some companyId ∧
      companyId ∈ data.meCompanies.map OrgMeCompany.id ∧ CompanyScoped data m.moduleKey ∧
      route.featureKey ∈ data.companyFeatureKeys companyId

/-- The outcome of the first stage that fails, or a page that is ready. -/
inductive Gate : ModuleRouteOutcome → Prop
  | moduleUnavailable (h : ∀ m, ¬ Offered catalog data request m) : Gate (.moduleUnavailable request.moduleKey)
  | routeNotFound {m : ModuleDefinition} (hm : Offered catalog data request m)
      (hnone : ∀ route ∈ m.routes, ¬ Matches route request.segments) :
      Gate (.routeNotFound m.moduleKey (normalizeModulePath request.modulePath))
  | accessDenied {m : ModuleDefinition} {route : ModuleRouteDefinition} (hm : Offered catalog data request m)
      (hroute : BestMatch m.routes request.segments route) (hdenied : ¬ Granted data request m route) :
      Gate (.accessDenied m.moduleKey route.featureKey)
  | ready {m : ModuleDefinition} {route : ModuleRouteDefinition} {params : Params}
      (hm : Offered catalog data request m) (hroute : BestMatch m.routes request.segments route)
      (hparams : matchRoute route request.segments = some params) (hgranted : Granted data request m route) :
      Gate (.ready m route params (truthy request.companyId))

/-- What has become the prototype of a map from companies to keys. -/
def companyPrototype (keys : List String) : Option (List String) :=
  if "__proto__" ∈ data.meCompanies.map OrgMeCompany.id then some keys else none

/-- What the test of a company id comes to that is no company of the caller, from what the maps inherit. -/
def inheritedGrant (m : ModuleDefinition) (route : ModuleRouteDefinition) (companyId : String) :
    Except String Bool := do
  let moduleKeys := JavaScript.inherited (companyPrototype data data.companyScopedAvailableModuleKeys) companyId
  let featureKeys := JavaScript.inherited (companyPrototype data (data.companyFeatureKeys "__proto__")) companyId
  let reached ← moduleKeys.includes m.moduleKey
  if reached then featureKeys.includes route.featureKey else .ok false

/-- The company id is read as it is meant: no company of the caller has the empty id, and an id that is no company
of theirs is refused by what the maps inherit under it. -/
structure PlainCompanyId (m : ModuleDefinition) (route : ModuleRouteDefinition) (companyId : String) : Prop where
  empty : companyId = "" → companyId ∈ data.meCompanies.map OrgMeCompany.id → CompanyScoped data m.moduleKey →
    route.featureKey ∉ data.companyFeatureKeys companyId
  foreign : companyId ≠ "" → companyId ∉ data.meCompanies.map OrgMeCompany.id →
    inheritedGrant data m route companyId = .ok false

end Gate

section Proofs

variable {catalog : ModuleCatalog} {data : PlatformComposition} {request : ModuleRouteRequest}
  {m m' : ModuleDefinition} {route : ModuleRouteDefinition} {key companyId : String}

theorem mem_availableModuleKeys : key ∈ data.availableModuleKeys ↔ Available data key := by
  unfold PlatformComposition.availableModuleKeys Available
  rw [List.mem_filter, mem_eraseDups, mem_map]
  refine and_congr ?_ (Option.any_eq_true _ _)
  refine exists_congr fun capability => ?_
  rw [List.mem_filter]
  tauto

theorem mem_companyScopedAvailableModuleKeys :
    key ∈ data.companyScopedAvailableModuleKeys ↔ Available data key ∧ CompanyScoped data key := by
  unfold PlatformComposition.companyScopedAvailableModuleKeys CompanyScoped
  rw [List.mem_filter, mem_availableModuleKeys, Option.any_eq_true]
  simp

/-! ## The maps under a company id -/

theorem moduleKeys_of_mem (h : companyId ∈ data.meCompanies.map OrgMeCompany.id) :
    (computeModuleAccess data).moduleKeysByCompany.get companyId = .array data.companyScopedAvailableModuleKeys :=
  @JavaScript.get_foldl_set_of_mem _ _ _ (fun _ => data.companyScopedAvailableModuleKeys) _ h

theorem featureKeys_of_mem (h : companyId ∈ data.meCompanies.map OrgMeCompany.id) :
    (computeModuleAccess data).featureKeysByCompany.get companyId = .array (data.companyFeatureKeys companyId) :=
  @JavaScript.get_foldl_set_of_mem _ _ _ data.companyFeatureKeys _ h

theorem moduleKeys_of_notMem (h : companyId ∉ data.meCompanies.map OrgMeCompany.id) :
    (computeModuleAccess data).moduleKeysByCompany.get companyId =
      JavaScript.inherited (companyPrototype data data.companyScopedAvailableModuleKeys) companyId :=
  @JavaScript.get_foldl_set_of_notMem _ _ _ (fun _ => data.companyScopedAvailableModuleKeys) _ h

theorem featureKeys_of_notMem (h : companyId ∉ data.meCompanies.map OrgMeCompany.id) :
    (computeModuleAccess data).featureKeysByCompany.get companyId =
      JavaScript.inherited (companyPrototype data (data.companyFeatureKeys "__proto__")) companyId :=
  @JavaScript.get_foldl_set_of_notMem _ _ _ data.companyFeatureKeys _ h

/-! ## Stages 4 and 5 -/

theorem allows_global (hacc : request.toModuleAccess = computeModuleAccess data)
    (hhost : request.hostScope = .global) :
    ∃ b, request.allows m route = .ok b ∧ (b = true ↔ Granted data request m route) := by
  refine ⟨route.featureKey ∈ request.globalFeatureKeys, ?_, ?_⟩
  · unfold ModuleRouteRequest.allows ModuleRouteRequest.reachesModule ModuleRouteRequest.grants
    rw [hhost]
    rfl
  unfold Granted
  rw [hhost, hacc, decide_eq_true_iff]
  simp only [computeModuleAccess]
  cases data.globalSummary with
  | none | some summary => simp

theorem allows_noCompany (hhost : request.hostScope = .company)
    (hnone : truthy request.companyId = none) : request.allows m route = .ok false := by
  unfold ModuleRouteRequest.allows ModuleRouteRequest.reachesModule
  rw [hhost, hnone]
  rfl

theorem allows_of_mem (hacc : request.toModuleAccess = computeModuleAccess data)
    (hhost : request.hostScope = .company) (hid : truthy request.companyId = some companyId)
    (hmem : companyId ∈ data.meCompanies.map OrgMeCompany.id) :
    request.allows m route = .ok (decide (m.moduleKey ∈ data.companyScopedAvailableModuleKeys) &&
      decide (route.featureKey ∈ data.companyFeatureKeys companyId)) := by
  unfold ModuleRouteRequest.allows ModuleRouteRequest.reachesModule ModuleRouteRequest.grants
  rw [hhost, hid, hacc]
  simp only [moduleKeys_of_mem hmem, featureKeys_of_mem hmem, JavaScript.Value.includes]
  by_cases hkey : m.moduleKey ∈ data.companyScopedAvailableModuleKeys
  · simp [hkey, bind, Except.bind]
  · simp [hkey, bind, Except.bind]

theorem allows_of_notMem (hacc : request.toModuleAccess = computeModuleAccess data)
    (hhost : request.hostScope = .company) (hid : truthy request.companyId = some companyId)
    (hmem : companyId ∉ data.meCompanies.map OrgMeCompany.id) :
    request.allows m route = inheritedGrant data m route companyId := by
  unfold ModuleRouteRequest.allows ModuleRouteRequest.reachesModule ModuleRouteRequest.grants inheritedGrant
  rw [hhost, hid, hacc]
  simp only [moduleKeys_of_notMem hmem, featureKeys_of_notMem hmem]

theorem truthy_eq_some : truthy request.companyId = some companyId ↔
    request.companyId = some companyId ∧ companyId ≠ "" := by
  unfold JavaScript.truthy
  rw [Option.filter_eq_some_iff]
  simp

theorem allows_company_iff (hacc : request.toModuleAccess = computeModuleAccess data)
    (hhost : request.hostScope = .company) (hava : Available data m.moduleKey) :
    (∃ b, request.allows m route = .ok b ∧ (b = true ↔ Granted data request m route)) ↔
      ∀ companyId, request.companyId = some companyId → PlainCompanyId data m route companyId := by
  have hgra : Granted data request m route ↔ ∃ companyId, request.companyId = some companyId ∧
      companyId ∈ data.meCompanies.map OrgMeCompany.id ∧ CompanyScoped data m.moduleKey ∧
      route.featureKey ∈ data.companyFeatureKeys companyId := by
    unfold Granted
    rw [hhost]
  cases hid : request.companyId with
  | none =>
    have hnone : truthy request.companyId = none := by rw [hid]; rfl
    refine iff_of_true ⟨false, allows_noCompany hhost hnone, ?_⟩ (by simp)
    rw [hgra, hid]
    simp
  | some companyId =>
    rw [hid] at hgra
    simp only [Option.some.injEq, exists_eq_left', forall_eq'] at hgra ⊢
    by_cases hempty : companyId = ""
    · -- the empty id counts as none
      have hnone : truthy request.companyId = none := by rw [hid, hempty]; rfl
      rw [allows_noCompany hhost hnone, hgra]
      constructor
      · rintro ⟨b, hb, hiff⟩
        cases hb
        refine ⟨fun _ hmem hsco hkey => ?_, fun hne => absurd hempty hne⟩
        cases hiff.mpr ⟨hmem, hsco, hkey⟩
      · intro hplain
        refine ⟨false, rfl, iff_of_false Bool.false_ne_true ?_⟩
        rintro ⟨hmem, hsco, hkey⟩
        exact hplain.empty hempty hmem hsco hkey
    · have htru : truthy request.companyId = some companyId := truthy_eq_some.mpr ⟨hid, hempty⟩
      by_cases hmem : companyId ∈ data.meCompanies.map OrgMeCompany.id
      · refine iff_of_true ⟨_, allows_of_mem hacc hhost htru hmem, ?_⟩
          ⟨fun h => absurd h hempty, fun _ h => absurd hmem h⟩
        rw [hgra, Bool.and_eq_true, decide_eq_true_iff, decide_eq_true_iff, mem_companyScopedAvailableModuleKeys]
        tauto
      · rw [allows_of_notMem hacc hhost htru hmem, hgra]
        constructor
        · rintro ⟨b, hb, hiff⟩
          refine ⟨fun h => absurd h hempty, fun _ _ => ?_⟩
          cases b with
          | true => exact absurd (hiff.mp rfl).1 hmem
          | false => exact hb
        · intro hplain
          exact ⟨false, hplain.foreign hempty hmem, iff_of_false Bool.false_ne_true fun h => hmem h.1⟩

theorem allows_iff (hacc : request.toModuleAccess = computeModuleAccess data) (hava : Available data m.moduleKey) :
    (∃ b, request.allows m route = .ok b ∧ (b = true ↔ Granted data request m route)) ↔
      (request.hostScope = .company →
        ∀ companyId, request.companyId = some companyId → PlainCompanyId data m route companyId) := by
  cases hhost : request.hostScope with
  | global => exact iff_of_true (allows_global hacc hhost) (by simp)
  | company =>
    rw [allows_company_iff hacc hhost hava]
    simp

/-! ## The stages before -/

theorem Offered.unique (hnodup : (catalog.map ModuleDefinition.moduleKey).Nodup)
    (h : Offered catalog data request m) (h' : Offered catalog data request m') : m = m' :=
  inj_on_of_nodup_map hnodup h.mem h'.mem (h.key.trans h'.key.symm)

theorem find?_of_offered (hnodup : (catalog.map ModuleDefinition.moduleKey).Nodup)
    (h : Offered catalog data request m) :
    catalog.find? (fun candidate => candidate.moduleKey = request.moduleKey) = some m := by
  cases hfind : catalog.find? (fun candidate => candidate.moduleKey = request.moduleKey) with
  | none => exact absurd (find?_eq_none.mp hfind m h.mem) (by simp [h.key])
  | some m' =>
    have hkey : m'.moduleKey = request.moduleKey := by simpa using find?_some hfind
    rw [inj_on_of_nodup_map hnodup (mem_of_find?_eq_some hfind) h.mem (hkey.trans h.key.symm)]

theorem resolve_of_notOffered (hacc : request.toModuleAccess = computeModuleAccess data)
    (h : ∀ m, ¬ Offered catalog data request m) :
    resolveModuleRoute catalog request = .ok (.moduleUnavailable request.moduleKey) := by
  unfold resolveModuleRoute
  split
  · rfl
  rename_i m hfind
  refine if_pos ?_
  by_contra hnor
  rw [not_or, not_not, not_not, hacc] at hnor
  have hkey : m.moduleKey = request.moduleKey := by simpa using find?_some hfind
  exact h m ⟨mem_of_find?_eq_some hfind, hkey, hnor.1, mem_availableModuleKeys.mp hnor.2⟩

theorem resolve_of_offered (hacc : request.toModuleAccess = computeModuleAccess data)
    (hnodup : (catalog.map ModuleDefinition.moduleKey).Nodup) (h : Offered catalog data request m) :
    resolveModuleRoute catalog request =
      (match matchModuleRoute m.routes (some (normalizeModulePath request.modulePath)) with
      | none => .ok (.routeNotFound m.moduleKey (normalizeModulePath request.modulePath))
      | some (route, params) => request.allows m route >>= fun allowed =>
        .ok (if allowed then .ready m route params (truthy request.companyId)
          else .accessDenied m.moduleKey route.featureKey)) := by
  have hstays : ¬ (m.scope ≠ request.hostScope ∨ m.moduleKey ∉ request.availableModuleKeys) := by
    rw [not_or, not_not, not_not, hacc]
    exact ⟨h.scope, mem_availableModuleKeys.mpr h.available⟩
  unfold resolveModuleRoute
  rw [find?_of_offered hnodup h]
  exact if_neg hstays

theorem gate_page_iff {params} (hnodup : (catalog.map ModuleDefinition.moduleKey).Nodup)
    (hm : Offered catalog data request m) (hroute : BestMatch m.routes request.segments route)
    (hpars : matchRoute route request.segments = some params) (b : Bool) :
    Gate catalog data request (if b then .ready m route params (truthy request.companyId)
        else .accessDenied m.moduleKey route.featureKey) ↔
      (b = true ↔ Granted data request m route) := by
  cases b with
  | true =>
    refine ⟨fun h => ?_, fun h => .ready hm hroute hpars (h.mp rfl)⟩
    cases h with
    | ready _ _ _ hgra => exact iff_of_true rfl hgra
  | false =>
    refine ⟨fun h => ?_, fun h => .accessDenied hm hroute fun hgra => Bool.false_ne_true (h.mpr hgra)⟩
    generalize hout : ModuleRouteOutcome.accessDenied m.moduleKey route.featureKey = outcome at h
    cases h with
    | accessDenied hm' hroute' hden =>
      cases hm.unique hnodup hm'
      cases hroute.unique hroute'
      exact iff_of_false Bool.false_ne_true hden
    | moduleUnavailable => cases hout
    | routeNotFound => cases hout
    | ready => cases hout

theorem page_iff {params} (hnodup : (catalog.map ModuleDefinition.moduleKey).Nodup)
    (hm : Offered catalog data request m) (hroute : BestMatch m.routes request.segments route)
    (hpars : matchRoute route request.segments = some params) :
    (∃ outcome, (request.allows m route >>= fun allowed =>
        .ok (if allowed then .ready m route params (truthy request.companyId)
          else .accessDenied m.moduleKey route.featureKey)) = .ok outcome ∧ Gate catalog data request outcome) ↔
      ∃ b, request.allows m route = .ok b ∧ (b = true ↔ Granted data request m route) := by
  have hgate := gate_page_iff hnodup hm hroute hpars
  constructor
  · rintro ⟨outcome, hpage, hout⟩
    obtain ⟨b, hb, hsame⟩ := Fallible.bind_eq_ok.mp hpage
    cases hsame
    exact ⟨b, hb, (hgate b).mp hout⟩
  · rintro ⟨b, hb, hiff⟩
    exact ⟨_, Fallible.bind_eq_ok.mpr ⟨b, hb, rfl⟩, (hgate b).mpr hiff⟩

/-- In an accepted catalog, with what `computeModuleAccess` says of the caller, the resolver gives the outcome of the
first stage that fails, or the page, exactly when a company host that comes to the last stages has a company id that
is read as it is meant. -/
theorem resolveModuleRoute_gate_iff (hvalid : assertValidModuleCatalog catalog = .ok ())
    (haccess : request.toModuleAccess = computeModuleAccess data) :
    (∃ outcome, resolveModuleRoute catalog request = .ok outcome ∧ Gate catalog data request outcome) ↔
      ∀ m route companyId, Offered catalog data request m → BestMatch m.routes request.segments route →
        request.hostScope = .company → request.companyId = some companyId →
        PlainCompanyId data m route companyId := by
  obtain ⟨hapart, hnodup, _⟩ := validateModules_toldApart hvalid
  by_cases hoff : ∃ m, Offered catalog data request m
  · obtain ⟨m, hm⟩ := hoff
    rw [resolve_of_offered haccess hnodup hm]
    cases hmatch : matchModuleRoute m.routes (some (normalizeModulePath request.modulePath)) with
    | none =>
      have hnone := matchModuleRoute_eq_none.mp hmatch
      refine iff_of_true ⟨_, rfl, .routeNotFound hm hnone⟩ fun m' route _ hm' hroute => ?_
      cases hm.unique hnodup hm'
      exact absurd hroute.fits (hnone route hroute.mem)
    | some result =>
      obtain ⟨route, params⟩ := result
      obtain ⟨hroute, hpars⟩ := matchModuleRoute_eq_some (hapart m hm.mem) hmatch
      rw [page_iff hnodup hm hroute hpars, allows_iff haccess hm.available]
      constructor
      · intro hplain m' route' companyId hm' hroute' hhost hid
        cases hm.unique hnodup hm'
        cases hroute.unique hroute'
        exact hplain hhost companyId hid
      · intro hplain hhost companyId hid
        exact hplain m route companyId hm hroute hhost hid
  · have hnone : ∀ m, ¬ Offered catalog data request m := fun m hm => hoff ⟨m, hm⟩
    refine iff_of_true ⟨_, resolve_of_notOffered haccess hnone, .moduleUnavailable hnone⟩ fun m _ _ hm => ?_
    exact absurd hm (hnone m)

/-- As long as no company of the caller is called `__proto__`, the id of another company is read as it is meant
unless every object has something under it. -/
theorem plainCompanyId_iff (hproto : "__proto__" ∉ data.meCompanies.map OrgMeCompany.id)
    (hfor : companyId ∉ data.meCompanies.map OrgMeCompany.id) (hempty : companyId ≠ "") :
    PlainCompanyId data m route companyId ↔ companyId ≠ "__proto__" ∧ companyId ∉ JavaScript.objectMethods := by
  have hgrant : inheritedGrant data m route companyId = .ok false ↔
      companyId ≠ "__proto__" ∧ companyId ∉ JavaScript.objectMethods := by
    unfold inheritedGrant companyPrototype
    simp only [if_neg hproto, Fallible.bind_eq_ok, JavaScript.includes_inherited_none]
    constructor
    · rintro ⟨_, ⟨_, hplain⟩, _⟩
      exact hplain
    · intro hplain
      exact ⟨false, ⟨rfl, hplain⟩, rfl⟩
  exact ⟨fun h => hgrant.mp (h.foreign hempty hfor),
    fun h => ⟨fun hnone => absurd hnone hempty, fun _ _ => hgrant.mpr h⟩⟩

end Proofs

/-! ## A caller of one company -/

def ticketsCatalog : ModuleCatalog := [⟨"tickets", .company, [⟨"home", "/", "tickets.read", "Home"⟩]⟩]

def acmeMember : PlatformComposition where
  capabilities := [⟨"tickets", true, true, []⟩]
  catalog := [⟨"tickets", "company", true⟩]
  globalSummary := none
  meCompanies := [⟨"acme"⟩]
  companySummaries := Keyed.Table.empty.upsert "acme" (some ⟨["tickets.read"]⟩)

def ticketsOf (companyId : String) : ModuleRouteRequest where
  toModuleAccess := computeModuleAccess acmeMember
  hostScope := .company
  companyId := some companyId
  moduleKey := "tickets"
  modulePath := none

theorem resolveModuleRoute_gate_acme : assertValidModuleCatalog ticketsCatalog = .ok () ∧
    ∃ outcome, resolveModuleRoute ticketsCatalog (ticketsOf "acme") = .ok outcome ∧
      Gate ticketsCatalog acmeMember (ticketsOf "acme") outcome := by
  refine ⟨rfl, (resolveModuleRoute_gate_iff rfl rfl).mpr fun m route companyId _ _ _ hid => ?_⟩
  cases hid
  have hmem : "acme" ∈ acmeMember.meCompanies.map OrgMeCompany.id := mem_cons_self
  exact ⟨fun hempty => absurd hempty (by decide), fun _ hfor => absurd hmem hfor⟩

/-- A URL of the company host with `constructor` in the place of the company. -/
theorem ticketsOf_constructor_throws : assertValidModuleCatalog ticketsCatalog = .ok () ∧
    resolveModuleRoute ticketsCatalog (ticketsOf "constructor") =
      .error "TypeError: includes is not a function" := ⟨rfl, rfl⟩

end Kiban.Web
