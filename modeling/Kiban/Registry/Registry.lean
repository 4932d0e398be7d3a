import Kiban.Fragment.Load
import Kiban.Lib.Keyed

/-!
# The module registry

The catalog of modules, which of them are installed and enabled, and the fragment each declares.  `Seed` writes the
built-in modules at every boot, `RegisterApp` an app at runtime, and `SetEnabled` turns a module on and off.  `Seed` is
no transaction, but the runs here are of operations that succeed.
-/

namespace Kiban.Registry

/-! ## Names -/

def keyRune (c : Char) : Bool := c.isLower || c.isDigit || c == '_'

/-- `^[a-z][…]{1,max}$` -/
def keyPattern (rune : Char → Bool) (max : Nat) (s : String) : Bool :=
  match s.toList with
  | [] => false
  | c :: cs => c.isLower && decide (1 ≤ cs.length) && decide (cs.length ≤ max) && cs.all rune

def moduleKeyPattern : String → Bool := keyPattern keyRune 31

def serviceClientIDPattern : String → Bool := keyPattern (fun c => keyRune c || c == '-') 63

def featureSegment : List Char → Bool
  | [] => false
  | c :: cs => c.isLower && cs.all keyRune

/-- `^[a-z][a-z0-9_]*(\.[a-z][a-z0-9_]*)+$` -/
def featureKeyPattern (s : String) : Bool :=
  let segments := s.toList.splitOn '.'
  decide (2 ≤ segments.length) && segments.all featureSegment

/-! ## Manifests -/

structure AppManifest where
  (key displayName version serviceClientId : String)
  features : List String
  authzFragment : Option Json

structure ModuleManifest where
  moduleKey : String
  mandatory : Bool
  (basePath healthPath : String)
  port : Int
  authzFragment : Option Json
  (requiredOrgUnitTypes dependencies : List String)

inductive RegistryError where
  | invalidManifest (field msg : String)
  | moduleNotFound
  | mandatoryModule
  | moduleNotInstalled
  | failed (msg : String)

-- a feature shorter than the key makes the slice of the source panic, which is no acceptance either
def featureOf (key feature : String) : Bool :=
  featureKeyPattern feature && (key ++ ".").toList.isPrefixOf feature.toList

def AppManifest.validate (m : AppManifest) : Except RegistryError Unit :=
  if ¬ moduleKeyPattern m.key then
    .error (.invalidManifest "key" "must match ^[a-z][a-z0-9_]\x7b1,31\x7d$")
  else if m.displayName = "" then .error (.invalidManifest "displayName" "required")
  else if m.version = "" then .error (.invalidManifest "version" "required")
  else if ¬ serviceClientIDPattern m.serviceClientId then
    .error (.invalidManifest "serviceClientId" "must match ^[a-z][a-z0-9_-]\x7b1,63\x7d$")
  else if m.authzFragment.isNone then .error (.invalidManifest "authzFragment" "required")
  else
    match m.features.find? fun f => ¬ featureOf m.key f with
    | some f =>
      .error (.invalidManifest "features" ("each feature key must be <key>.<name>, got " ++ f))
    | none => .ok ()

def knownKey (known : List ModuleManifest) (key : String) : Bool :=
  known.any fun m => decide (m.moduleKey = key)

def checkDependency (known : List ModuleManifest) (m : ModuleManifest) (dep : String) : Except String Unit :=
  if dep = m.moduleKey then
    .error ("registry: seed: module \"" ++ m.moduleKey ++ "\" depends on itself")
  else if ¬ knownKey known dep then
    .error ("registry: seed: module \"" ++ m.moduleKey ++ "\" depends on unknown module \"" ++ dep ++ "\"")
  else .ok ()

/-- The checks of `validateKnownManifests` on one manifest, up to its uniqueness. -/
def checkManifest (known : List ModuleManifest) (m : ModuleManifest) : Except String Unit :=
  if ¬ moduleKeyPattern m.moduleKey then
    .error ("registry: seed: invalid module key \"" ++ m.moduleKey ++ "\"")
  else if m.basePath ≠ "/api/" ++ m.moduleKey then
    .error ("registry: seed: module \"" ++ m.moduleKey ++ "\" basePath \"" ++ m.basePath ++ "\" must be \"/api/" ++ m.moduleKey ++ "\"")
  else if m.port < 1 ∨ 65535 < m.port then
    .error ("registry: seed: module \"" ++ m.moduleKey ++ "\" port " ++ toString m.port ++ " must be in 1..65535")
  else if ¬ "/".toList.isPrefixOf m.healthPath.toList then
    .error ("registry: seed: module \"" ++ m.moduleKey ++ "\" healthPath \"" ++ m.healthPath ++ "\" must be an absolute path")
  else m.dependencies.forM (checkDependency known m)

def ModuleManifest.claimed (m : ModuleManifest) : List String :=
  ["key:" ++ m.moduleKey, "basePath:" ++ m.basePath, "port:" ++ toString m.port]

/-- The loop over what one manifest claims; `seen` maps a claim to the module that made it. -/
def claim (moduleKey : String) : List String → List (String × String) → Except String (List (String × String))
  | [], seen => .ok seen
  | kv :: kvs, seen =>
    match seen.lookup kv with
    | some other =>
      .error ("registry: seed: modules \"" ++ other ++ "\" and \"" ++ moduleKey ++ "\" both claim " ++ kv)
    | none => claim moduleKey kvs ((kv, moduleKey) :: seen)

def validateKnownManifests (known : List ModuleManifest) : Except String Unit := do
  let _ ← known.foldlM (fun seen m => do
    checkManifest known m
    claim m.moduleKey m.claimed seen) []
  return ()

def checkOrgUnitTaxonomy (taxonomy : List String) (known : List ModuleManifest) : Except String Unit :=
  known.forM fun m => m.requiredOrgUnitTypes.forM fun t =>
    if t ∈ taxonomy then .ok ()
    else .error ("registry: seed: module \"" ++ m.moduleKey ++ "\" requires org unit type \"" ++ t ++ "\", which the deployment taxonomy (org.org_unit_type) does not define")

/-! ## Tables -/

structure CatalogEntry where
  mandatory : Bool

structure Installation where
  (installed enabled : Bool)

structure StoredFragment where
  fragment : Json
  active : Bool

def fragmentRow (r : String × StoredFragment) : Fragment.Row := ⟨r.1, r.2.fragment, r.2.active⟩

structure State where
  catalog : Keyed.Table String CatalogEntry
  installation : Keyed.Table String Installation
  /-- `app_registration`, with the service client of each app -/
  apps : Keyed.Table String String
  fragments : Keyed.Table String StoredFragment

namespace State

def empty : State := ⟨.empty, .empty, .empty, .empty⟩

def enabled (s : State) (key : String) : Bool :=
  match s.installation.get? key with
  | some i => i.installed && i.enabled
  | none => false

/-- What `GET /api/platform/capabilities` tells the authorization service. -/
def knownEnabled (s : State) : Fragment.KnownEnabled :=
  fun key => (s.catalog.get? key).map fun _ => s.enabled key

def fragmentRows (s : State) : List Fragment.Row := s.fragments.rows.map fragmentRow

end State

/-! ## Fragments -/

/-- The `?|` operator: one of the strings is a top-level key, or an element of an array, or the
string itself. -/
def existsAny (keys : List String) : Json → Bool
  | .obj ms => ms.any fun m => decide (m.1 ∈ keys)
  | .arr items => items.any fun
      | .str s => decide (s ∈ keys)
      | _ => false
  | .str s => decide (s ∈ keys)
  | _ => false

def refuseBaseTypes (moduleKey : String) (m : Model) : Except String Unit :=
  match m.find? fun p => isBaseType p.1 with
  | some p =>
    .error ("registry: seed: module \"" ++ moduleKey ++ "\" authz fragment declares object type \"" ++ p.1 ++ "\", which is a platform base type — fragments may reference base relations but never redefine a base type")
  | none => .ok ()

/-- The query over the other modules' rows, active or not. -/
def refuseOwnedTypes (moduleKey : String) (types : List String)
    (t : Keyed.Table String StoredFragment) : Except String Unit :=
  match t.rows.find? fun r => decide (r.1 ≠ moduleKey) && existsAny types r.2.fragment with
  | some r =>
    .error ("registry: seed: module \"" ++ moduleKey ++ "\" authz fragment declares an object type module \"" ++ r.1 ++ "\" already declares ([" ++ " ".intercalate types ++ "]) — one module owns a type")
  | none => .ok ()

def upsertAuthzFragment (moduleKey : String) (fragment : Option Json) (active : Bool)
    (t : Keyed.Table String StoredFragment) :
    Except String (Keyed.Table String StoredFragment) :=
  match fragment with
  -- not every module declares one
  | none => .ok t
  | some j => do
    let m ← (loadModel j).mapError
      ("registry: seed: module \"" ++ moduleKey ++ "\" authz fragment failed the subset wall: " ++ ·)
    m.validateCompanyModuleAnchor.mapError ("registry: seed: module \"" ++ moduleKey ++ "\" authz fragment: " ++ ·)
    refuseBaseTypes moduleKey m
    refuseOwnedTypes moduleKey (m.map Prod.fst) t
    if ¬ j.storable then
      .error ("registry: seed: upsert model_fragment \"" ++ moduleKey ++ "\": unsupported Unicode escape sequence")
    else .ok (t.upsert moduleKey ⟨j.jsonb, active⟩)

def setAuthzFragmentActive (moduleKey : String) (active : Bool)
    (t : Keyed.Table String StoredFragment) : Keyed.Table String StoredFragment :=
  t.modify moduleKey fun f => { f with active := active }

/-! ## Operations -/

/-- The registration row, which holds the manifest too; a service client belongs to one app. -/
def registration (m : AppManifest) (apps : Keyed.Table String String) :
    Except RegistryError (Keyed.Table String String) :=
  if ¬ m.authzFragment.all Json.storable then
    .error (.failed "registry: register app: registration: unsupported Unicode escape sequence")
  else if apps.rows.any fun r => decide (r.1 ≠ m.key ∧ r.2 = m.serviceClientId) then
    .error (.failed "registry: register app: registration: duplicate key value violates unique constraint")
  else .ok (apps.upsert m.key m.serviceClientId)

def catalogRow (m : AppManifest) (catalog : Keyed.Table String CatalogEntry) :
    Except RegistryError (Keyed.Table String CatalogEntry) :=
  if ¬ (IsText m.displayName ∧ IsText m.version) then
    .error (.failed "registry: register app: catalog: invalid byte sequence for encoding \"UTF8\": 0x00")
  else .ok (catalog.upsert m.key ⟨false⟩)

def registerApp (m : AppManifest) (s : State) : Except RegistryError State := do
  m.validate
  let catalog ← catalogRow m s.catalog
  -- the enabled state of an app that is there stays
  let installation :=
    (s.installation.insertMissing m.key ⟨true, false⟩).modify m.key fun i => { i with installed := true }
  let apps ← registration m s.apps
  match installation.get? m.key with
  | none => .error (.failed "registry: register app: read enabled: no rows in result set")
  | some i =>
    let fragments ← (upsertAuthzFragment m.key m.authzFragment i.enabled s.fragments).mapError
      (.invalidManifest "authzFragment" ·)
    return ⟨catalog, installation, apps, fragments⟩

/-- What `SetEnabled` reads before it writes. -/
def mayChange (s : State) (moduleKey : String) (enabled : Bool) : Except RegistryError Unit :=
  if enabled then
    match s.installation.get? moduleKey with
    | some i => if ¬ i.installed then .error .moduleNotInstalled else .ok ()
    | none => .ok ()
  else
    match s.catalog.get? moduleKey with
    | some c => if c.mandatory then .error .mandatoryModule else .ok ()
    | none => .error .moduleNotFound

def setEnabled (moduleKey : String) (enabled : Bool) (s : State) : Except RegistryError State := do
  mayChange s moduleKey enabled
  if (s.installation.get? moduleKey).isNone then .error .moduleNotFound
  else
    return { s with
      installation := s.installation.modify moduleKey fun i => { i with enabled := enabled }
      fragments := setAuthzFragmentActive moduleKey enabled s.fragments }

/-- The catalog and installation rows of one module.  A row that was never installed is installed
once its module is listed; any other keeps the state an administrator gave it. -/
def seedModule (installedKeys : List String) (s : State) (m : ModuleManifest) : State :=
  let listed := decide (m.moduleKey ∈ installedKeys)
  let installation := s.installation.insertMissing m.moduleKey ⟨listed, listed⟩
  { s with
    catalog := s.catalog.upsert m.moduleKey ⟨m.mandatory⟩
    installation :=
      if listed then installation.modify m.moduleKey fun i => if i.installed then i else ⟨true, true⟩
      else installation }

def seed (known : List ModuleManifest) (installedKeys taxonomy : List String) (s : State) :
    Except RegistryError State := do
  (validateKnownManifests known).mapError .failed
  (checkOrgUnitTaxonomy taxonomy known).mapError .failed
  let s := known.foldl (seedModule installedKeys) s
  let fragmentKeys := (known.filter fun m => m.authzFragment.isSome).map ModuleManifest.moduleKey
  let fragments ← (fragmentKeys.foldlM (fun t key =>
    let fragment := (known.find? fun m => decide (m.moduleKey = key)).bind ModuleManifest.authzFragment
    upsertAuthzFragment key fragment (s.enabled key) t) s.fragments).mapError .failed
  return { s with fragments := fragments }

/-! ## The built-in modules -/

def notificationAuthzRelations : Json :=
  .obj [("notification_channel", .obj [("company_module", thisDef), ("owner", thisDef),
    ("editor", unionOf [thisDef, computed "owner"]),
    ("viewer", unionOf [thisDef, computed "editor", via "company_module" "member"])])]

def docsAuthzRelations : Json :=
  .obj [("docs_document", .obj [("company_module", thisDef), ("owner", thisDef),
    ("editor", unionOf [thisDef, computed "owner"]),
    ("viewer", unionOf [thisDef, computed "editor"])])]

def builtinModules : List ModuleManifest := [
  { moduleKey := "notification", mandatory := false, basePath := "/api/notification",
    healthPath := "/health", port := 8150, authzFragment := some notificationAuthzRelations,
    requiredOrgUnitTypes := ["company"], dependencies := [] },
  { moduleKey := "timesheet", mandatory := false, basePath := "/api/timesheet",
    healthPath := "/health", port := 8160, authzFragment := none,
    requiredOrgUnitTypes := ["company"], dependencies := [] },
  { moduleKey := "docs", mandatory := false, basePath := "/api/docs",
    healthPath := "/health", port := 8170, authzFragment := some docsAuthzRelations,
    requiredOrgUnitTypes := ["company"], dependencies := [] },
  { moduleKey := "helpdesk", mandatory := false, basePath := "/api/helpdesk",
    healthPath := "/health", port := 8180, authzFragment := none,
    requiredOrgUnitTypes := ["company"], dependencies := [] }]

inductive Op where
  | registerApp (m : AppManifest)
  | setEnabled (moduleKey : String) (enabled : Bool)
  | seed (installedKeys taxonomy : List String)

def step (s : State) : Op → Option State
  | .registerApp m => (registerApp m s).toOption
  | .setEnabled moduleKey enabled => (setEnabled moduleKey enabled s).toOption
  | .seed installedKeys taxonomy => (seed builtinModules installedKeys taxonomy s).toOption

end Kiban.Registry
