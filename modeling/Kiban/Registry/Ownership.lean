import Kiban.Registry.EffectiveModel

/-!
# Who owns a module key

`Seed` gives every built-in module its catalog row, its installation row and its fragment, and an app that registers at
runtime writes the same rows by the same key.  Nothing in `RegisterApp` asks whose key it is, and `SetEnabled` protects
a mandatory module by a flag that `RegisterApp` clears.
-/

namespace Kiban.Registry

open Fallible Runs List Keyed.Table

/-! ## The rest of the catalog row -/

variable {known : List ModuleManifest} {installedKeys taxonomy : List String} {t : Keyed.Table String StoredFragment}
  {s : State} {key : String} {seen seen' : List (String × String)} {m : ModuleManifest}

inductive ScopeType where
  | global
  | company
  deriving DecidableEq

inductive LicenseClass where
  | foundation
  | «open»
  | commercial
  deriving DecidableEq

structure Metadata where
  scopeType : ScopeType
  port : Int
  licenseClass : LicenseClass
  deriving DecidableEq

structure Manifest extends ModuleManifest where
  scopeType : ScopeType
  licenseClass : LicenseClass

def Manifest.metadata (m : Manifest) : Metadata := ⟨m.scopeType, m.port, m.licenseClass⟩

-- an app serves itself, so it has no port
def appMetadata : Metadata := ⟨.company, 0, .open⟩

structure Store extends State where
  metadata : Keyed.Table String Metadata
  /-- Not in the database: the manifest that `Seed` last had for each key. -/
  manifests : Keyed.Table String Manifest

def Store.empty : Store := ⟨.empty, .empty, .empty⟩

/-! ## Seed, with what it leaves behind -/

def fragmentKeys (known : List ModuleManifest) : List String :=
  (known.filter fun m => m.authzFragment.isSome).map ModuleManifest.moduleKey

def fragmentOf (known : List ModuleManifest) (key : String) : Option Json :=
  (known.find? fun m => decide (m.moduleKey = key)).bind ModuleManifest.authzFragment

/-- The loop over the fragments ends at the first one that is refused. -/
def seedFragments (known : List ModuleManifest) (enabled : String → Bool) :
    List String → Keyed.Table String StoredFragment → Keyed.Table String StoredFragment
  | [], t => t
  | key :: keys, t =>
    match upsertAuthzFragment key (fragmentOf known key) (enabled key) t with
    | .ok t => seedFragments known enabled keys t
    | .error _ => t

/-- The rows after `Seed`, whether or not it returned an error on the way. -/
def seedWrites (known : List ModuleManifest) (installedKeys : List String) (s : State) : State :=
  let s := known.foldl (seedModule installedKeys) s
  { s with fragments := seedFragments known s.enabled (fragmentKeys known) s.fragments }

/-- The checks of `upsertAuthzFragment` that read nothing but the fragment. -/
def fragmentAccepted (m : ModuleManifest) : Bool :=
  m.authzFragment.all fun j => (upsertAuthzFragment m.moduleKey (some j) false .empty).isOk

def typesOf (j : Json) : List String :=
  match loadModel j with
  | .ok m => m.map Prod.fst
  | .error _ => []

def typesFree (m : ModuleManifest) (doc : Json) : Bool :=
  m.authzFragment.all fun j => !existsAny (typesOf j) doc

/-- A set of manifests that nothing in it keeps `Seed` from installing. -/
def validManifests (taxonomy : List String) (known : List ModuleManifest) : Bool :=
  (validateKnownManifests known).isOk && (checkOrgUnitTaxonomy taxonomy known).isOk && known.all fragmentAccepted &&
    known.all fun m => known.all fun m' =>
      decide (m'.moduleKey = m.moduleKey) || m'.authzFragment.all fun j => typesFree m j.jsonb

/-! ## Calls -/

inductive Call where
  | registerApp (m : AppManifest)
  | setEnabled (moduleKey : String) (enabled : Bool)
  | seed (known : List Manifest) (installedKeys taxonomy : List String)

def modules (known : List Manifest) : List ModuleManifest := known.map Manifest.toModuleManifest

def Store.seeded (s : Store) (known : List Manifest) (installedKeys : List String) : Store where
  toState := seedWrites (modules known) installedKeys s.toState
  metadata := known.foldl (fun t m => t.upsert m.moduleKey m.metadata) s.metadata
  manifests := known.foldl (fun t m => t.upsert m.moduleKey m) s.manifests

def Store.step (s : Store) : Call → Option Store
  | .registerApp m => do
    let s' ← (registerApp m s.toState).toOption
    return { s with toState := s', metadata := s.metadata.upsert m.key appMetadata }
  | .setEnabled moduleKey enabled => do
    let s' ← (setEnabled moduleKey enabled s.toState).toOption
    return { s with toState := s' }
  | .seed known installedKeys taxonomy =>
    if validManifests taxonomy (modules known) then some (s.seeded known installedKeys) else none

/-- The key has what its manifest says, and no app. -/
structure Store.Keeps (s : Store) (key : String) (m : Manifest) : Prop where
  mandatory : s.catalog.get? key = some ⟨m.mandatory⟩
  metadata : s.metadata.get? key = some m.metadata
  fragment : (s.fragments.get? key).map StoredFragment.fragment = m.authzFragment.map Json.jsonb
  noApp : s.apps.get? key = none

/-- A manifest finds its key unclaimed: no app has it, none of its types is another module's, and where
it brings no fragment there is none to replace. -/
def Store.unclaimed (s : Store) (m : ModuleManifest) : Bool :=
  (s.apps.get? m.moduleKey).isNone && (m.authzFragment.isSome || (s.fragments.get? m.moduleKey).isNone) &&
    s.fragments.rows.all fun r => decide (r.1 = m.moduleKey) || typesFree m r.2.fragment

/-- By the last manifest that `Seed` had for the key. -/
def Store.mandatory (s : Store) (key : String) : Bool := (s.manifests.get? key).any fun m => m.mandatory

/-- Apps and built-in modules stay out of each other's keys. -/
def Call.apart (s : Store) : Call → Bool
  | .registerApp m => (s.manifests.get? m.key).isNone
  | .setEnabled _ _ => true
  | .seed known _ _ => known.all fun m => s.unclaimed m.toModuleManifest

/-! ## Valid sets of manifests -/

theorem claim_eq_ok {moduleKey kvs} (h : claim moduleKey kvs seen = .ok seen') :
    (∀ kv ∈ kvs, seen.lookup kv = none) ∧ (∀ kv, seen'.lookup kv = none → seen.lookup kv = none ∧ kv ∉ kvs) := by
  induction kvs generalizing seen with
  | nil =>
    cases h
    exact ⟨forall_mem_nil _, fun kv hkv => ⟨hkv, not_mem_nil⟩⟩
  | cons kv kvs ih =>
    unfold claim at h
    split at h
    · cases h
    rename_i hnone
    obtain ⟨hfresh, hback⟩ := ih h
    have hlook : ∀ kv', ((kv, moduleKey) :: seen).lookup kv' = none → seen.lookup kv' = none ∧ kv' ≠ kv := by
      intro kv' hkv'
      rw [lookup_cons] at hkv'
      split at hkv'
      · cases hkv'
      · rename_i hne
        exact ⟨hkv', beq_eq_false_iff_ne.mp hne⟩
    refine ⟨?_, fun kv' hkv' => ?_⟩
    · rw [forall_mem_cons]
      exact ⟨hnone, fun kv' hkv' => (hlook kv' (hfresh kv' hkv')).1⟩
    · obtain ⟨hseen, hnot⟩ := hback kv' hkv'
      obtain ⟨hseen, hne⟩ := hlook kv' hseen
      exact ⟨hseen, fun hmem => (mem_cons.mp hmem).elim hne hnot⟩

-- the claims `key:…` that were made before rule their keys out for the rest
theorem nodup_of_claimed {all : List ModuleManifest} (h : known.foldlM (fun seen m => do
      checkManifest all m
      claim m.moduleKey m.claimed seen) seen = .ok seen') :
    (known.map ModuleManifest.moduleKey).Nodup ∧ ∀ m ∈ known, seen.lookup ("key:" ++ m.moduleKey) = none := by
  induction known generalizing seen with
  | nil => exact ⟨nodup_nil, forall_mem_nil _⟩
  | cons m known ih =>
    rw [foldlM_cons] at h
    obtain ⟨seen₁, hm, hrest⟩ := bind_eq_ok.mp h
    obtain ⟨_, _, hclaim⟩ := bind_eq_ok.mp hm
    obtain ⟨hfresh, hback⟩ := claim_eq_ok hclaim
    obtain ⟨hnodup, hseen₁⟩ := ih hrest
    have hown : "key:" ++ m.moduleKey ∈ m.claimed := mem_cons_self
    rw [map_cons, nodup_cons, forall_mem_cons]
    refine ⟨⟨fun hmem => ?_, hnodup⟩, hfresh _ hown, fun m' hm' => (hback _ (hseen₁ m' hm')).1⟩
    obtain ⟨m', hm', hkey⟩ := mem_map.mp hmem
    have hnot := (hback _ (hseen₁ m' hm')).2
    rw [hkey] at hnot
    exact hnot hown

theorem nodup_of_validateKnownManifests (h : (validateKnownManifests known).isOk = true) :
    (known.map ModuleManifest.moduleKey).Nodup := by
  obtain ⟨_, hok⟩ := exists_ok_of_isOk h
  obtain ⟨_, hfold, _⟩ := bind_eq_ok.mp hok
  exact (nodup_of_claimed hfold).1

structure ValidManifests (known : List ModuleManifest) : Prop where
  nodup : (known.map ModuleManifest.moduleKey).Nodup
  accepted : ∀ m ∈ known, fragmentAccepted m = true
  apart : ∀ m ∈ known, ∀ m' ∈ known, m'.moduleKey ≠ m.moduleKey →
    ∀ j, m'.authzFragment = some j → typesFree m j.jsonb = true

theorem ValidManifests.of_valid (h : validManifests taxonomy known = true) : ValidManifests known := by
  unfold validManifests at h
  rw [Bool.and_eq_true, Bool.and_eq_true, Bool.and_eq_true] at h
  obtain ⟨⟨⟨hvalid, _⟩, hacc⟩, hapart⟩ := h
  refine ⟨nodup_of_validateKnownManifests hvalid, all_eq_true.mp hacc, ?_⟩
  intro m hm m' hm' hne j hj
  have hpair := all_eq_true.mp (all_eq_true.mp hapart m hm) m' hm'
  rw [hj] at hpair
  simpa [hne] using hpair

theorem fragmentOf_eq (hnodup : (known.map ModuleManifest.moduleKey).Nodup) (hm : m ∈ known) :
    fragmentOf known m.moduleKey = m.authzFragment := by
  unfold fragmentOf
  cases hfind : known.find? fun m' => decide (m'.moduleKey = m.moduleKey) with
  | none =>
    have hnot := find?_eq_none.mp hfind m hm
    simp at hnot
  | some m' =>
    have hkey : m'.moduleKey = m.moduleKey := by simpa using find?_some hfind
    rw [inj_on_of_nodup_map hnodup (mem_of_find?_eq_some hfind) hm hkey]
    rfl

/-! ## What Seed writes -/

theorem upsertAuthzFragment_of_free {j} (active : Bool) (hm : fragmentAccepted m = true)
    (hj : m.authzFragment = some j)
    (hfree : ∀ r ∈ t.rows, r.1 ≠ m.moduleKey → typesFree m r.2.fragment = true) :
    upsertAuthzFragment m.moduleKey (some j) active t = .ok (t.upsert m.moduleKey ⟨j.jsonb, active⟩) := by
  unfold fragmentAccepted at hm
  rw [hj] at hm
  obtain ⟨_, hok⟩ := exists_ok_of_isOk hm
  unfold upsertAuthzFragment at hok
  obtain ⟨model, hload, hok⟩ := bind_eq_ok.mp hok
  obtain ⟨_, hanc, hok⟩ := bind_eq_ok.mp hok
  obtain ⟨_, hbase, hok⟩ := bind_eq_ok.mp hok
  obtain ⟨_, _, hok⟩ := bind_eq_ok.mp hok
  have hsto := (ite_error_eq_ok.mp hok).1
  have htypes : typesOf j = model.map Prod.fst := by
    unfold typesOf
    rw [mapError_eq_ok.mp hload]
  have howned : refuseOwnedTypes m.moduleKey (model.map Prod.fst) t = .ok () := by
    have hnone : t.rows.find? (fun r =>
        decide (r.1 ≠ m.moduleKey) && existsAny (model.map Prod.fst) r.2.fragment) = none := by
      refine find?_eq_none.mpr fun r hr => ?_
      have hr := hfree r hr
      unfold typesFree at hr
      rw [hj, Option.all_some, htypes] at hr
      by_cases hne : r.1 = m.moduleKey
      · simp [hne]
      · simpa [hne] using hr hne
    unfold refuseOwnedTypes
    rw [hnone]
  unfold upsertAuthzFragment
  refine bind_eq_ok.mpr ⟨model, hload, bind_eq_ok.mpr ⟨(), hanc, bind_eq_ok.mpr ⟨(), hbase,
    bind_eq_ok.mpr ⟨(), howned, ?_⟩⟩⟩⟩
  rw [if_neg hsto]

/-- Every row is one that was there or the fragment of a manifest of the set, so no row of another
module has a type of a manifest that found its types free. -/
theorem seedFragments_eq (hvalid : ValidManifests known)
    (enabled : String → Bool) (l : List ModuleManifest) (hl : ∀ m ∈ l, m ∈ known)
    (hsome : ∀ m ∈ l, m.authzFragment.isSome = true)
    (ht : ∀ m ∈ known, ∀ r ∈ t.rows, r.1 ≠ m.moduleKey → typesFree m r.2.fragment = true) :
    seedFragments known enabled (l.map ModuleManifest.moduleKey) t = l.foldl (fun t m => t.upsert m.moduleKey
        ⟨(m.authzFragment.map Json.jsonb).getD .null, enabled m.moduleKey⟩) t := by
  induction l generalizing t with
  | nil => rfl
  | cons m l ih =>
    rw [forall_mem_cons] at hl hsome
    obtain ⟨j, hj⟩ := Option.isSome_iff_exists.mp hsome.1
    have hfra : fragmentOf known m.moduleKey = some j := by
      rw [fragmentOf_eq hvalid.nodup hl.1, hj]
    have hup := upsertAuthzFragment_of_free (enabled m.moduleKey) (hvalid.accepted m hl.1) hj (ht m hl.1)
    rw [map_cons, seedFragments, hfra, hup, foldl_cons, hj]
    refine ih hl.2 hsome.2 fun m' hm' r hr hne => ?_
    rcases mem_upsert hr with rfl | ⟨hold, _⟩
    · exact hvalid.apart m' hm' m hl.1 hne j hj
    · exact ht m' hm' r hold hne

theorem foldl_seedModule_catalog (installedKeys : List String) (known : List ModuleManifest) (s : State) :
    (known.foldl (seedModule installedKeys) s).catalog =
      known.foldl (fun t m => t.upsert m.moduleKey ⟨m.mandatory⟩) s.catalog := by
  induction known generalizing s with
  | nil => rfl
  | cons m known ih => exact ih _

theorem foldl_seedModule_apps (installedKeys : List String) (known : List ModuleManifest) (s : State) :
    (known.foldl (seedModule installedKeys) s).apps = s.apps := by
  induction known generalizing s with
  | nil => rfl
  | cons m known ih => exact ih _

theorem State.enabled_eq_true : s.enabled key = true ↔
      ∃ i, s.installation.get? key = some i ∧ i.installed = true ∧ i.enabled = true := by
  unfold State.enabled
  cases s.installation.get? key with
  | none | some i => simp

-- only a row that was never installed changes
theorem seedModule_enabled (h : s.enabled key = true) : (seedModule installedKeys s m).enabled key = true := by
  obtain ⟨i, hi, hinst, hena⟩ := State.enabled_eq_true.mp h
  refine State.enabled_eq_true.mpr ⟨i, ?_, hinst, hena⟩
  have hins : ∀ v, (s.installation.insertMissing m.moduleKey v).get? key = some i := by
    intro v
    rw [get?_insertMissing]
    split
    · rename_i hkey
      rw [← hkey, hi]
      rfl
    · exact hi
  simp only [seedModule]
  split
  · rw [get?_modify]
    split
    · rename_i hkey
      have hget := hins
      rw [hkey] at hget
      rw [hget, Option.map_some, if_pos hinst]
    · exact hins _
  · exact hins _

theorem foldl_seedModule_enabled (known : List ModuleManifest) (h : s.enabled key = true) :
    (known.foldl (seedModule installedKeys) s).enabled key = true := by
  induction known generalizing s with
  | nil => exact h
  | cons m known ih => exact ih (seedModule_enabled h)

section SeedKeeps

variable {known : List ModuleManifest} {installedKeys : List String} {s : Store}

theorem seedWrites_fragments (hvalid : ValidManifests known) (hfree : ∀ m ∈ known, s.unclaimed m = true) :
    (seedWrites known installedKeys s.toState).fragments =
      (known.filter fun m => m.authzFragment.isSome).foldl (fun t m => t.upsert m.moduleKey
        ⟨(m.authzFragment.map Json.jsonb).getD .null,
          (known.foldl (seedModule installedKeys) s.toState).enabled m.moduleKey⟩) s.fragments := by
  have hrows : ∀ m ∈ known, ∀ r ∈ s.fragments.rows, r.1 ≠ m.moduleKey → typesFree m r.2.fragment = true := by
    intro m hm r hr hne
    have hm := hfree m hm
    unfold Store.unclaimed at hm
    rw [Bool.and_eq_true] at hm
    simpa [hne] using all_eq_true.mp hm.2 r hr
  have hloop := seedFragments_eq hvalid (known.foldl (seedModule installedKeys) s.toState).enabled
    (known.filter fun m => m.authzFragment.isSome)
    (fun m hm => (List.mem_filter.mp hm).1) (fun m hm => (List.mem_filter.mp hm).2) hrows
  rw [← hloop]
  simp only [seedWrites, foldl_seedModule_fragments]
  rfl

theorem seedWrites_fragment_of_mem (hvalid : ValidManifests known)
    (hfree : ∀ m ∈ known, s.unclaimed m = true) {m} (hm : m ∈ known) :
    ((seedWrites known installedKeys s.toState).fragments.get? m.moduleKey).map StoredFragment.fragment =
      m.authzFragment.map Json.jsonb := by
  rw [seedWrites_fragments hvalid hfree]
  have hnodup : ((known.filter fun m => m.authzFragment.isSome).map ModuleManifest.moduleKey).Nodup :=
    hvalid.nodup.sublist (filter_sublist.map _)
  cases hj : m.authzFragment with
  | some j =>
    have hmem : m ∈ known.filter fun m => m.authzFragment.isSome :=
      List.mem_filter.mpr ⟨hm, by rw [hj]; rfl⟩
    rw [get?_foldl_upsert_of_mem hnodup hmem, hj]
    rfl
  | none =>
    have hnot : m.moduleKey ∉ (known.filter fun m => m.authzFragment.isSome).map ModuleManifest.moduleKey := by
      intro hmem
      obtain ⟨m', hm', hkey⟩ := mem_map.mp hmem
      obtain ⟨hm', hsome⟩ := List.mem_filter.mp hm'
      rw [inj_on_of_nodup_map hvalid.nodup hm' hm hkey, hj] at hsome
      cases hsome
    rw [get?_foldl_upsert_of_notMem hnot]
    have hm := hfree m hm
    unfold Store.unclaimed at hm
    rw [Bool.and_eq_true, Bool.and_eq_true, hj] at hm
    have hnone : s.fragments.get? m.moduleKey = none := by simpa using hm.1.2
    rw [hnone]
    rfl

theorem seedWrites_fragment_of_notMem (hvalid : ValidManifests known)
    (hfree : ∀ m ∈ known, s.unclaimed m = true) {key}
    (hkey : key ∉ known.map ModuleManifest.moduleKey) :
    (seedWrites known installedKeys s.toState).fragments.get? key = s.fragments.get? key := by
  rw [seedWrites_fragments hvalid hfree]
  exact get?_foldl_upsert_of_notMem fun hmem =>
    hkey ((filter_sublist.map _).subset hmem)

end SeedKeeps

variable {known : List Manifest} {s s' : Store} {m : Manifest} {key moduleKey : String} {enabled : Bool} {call : Call}

theorem step_seed_eq_some {installedKeys taxonomy} (h : s.step (.seed known installedKeys taxonomy) = some s') :
    ValidManifests (modules known) ∧ s' = s.seeded known installedKeys := by
  obtain ⟨hset, hs'⟩ := Option.ite_none_right_eq_some.mp h
  exact ⟨.of_valid hset, (Option.some.inj hs').symm⟩

theorem seeded_keeps (installedKeys : List String) (hs : ∀ key m, s.manifests.get? key = some m → s.Keeps key m)
    (hvalid : ValidManifests (modules known))
    (hfree : ∀ m ∈ known, s.unclaimed m.toModuleManifest = true) :
    ∀ key m, (s.seeded known installedKeys).manifests.get? key = some m →
      (s.seeded known installedKeys).Keeps key m := by
  unfold Store.seeded
  have hkeys : (modules known).map ModuleManifest.moduleKey = known.map fun m => m.moduleKey := by
    unfold modules
    rw [map_map]
    rfl
  have hnodup : (known.map fun m => m.moduleKey).Nodup := hkeys ▸ hvalid.nodup
  have hunc : ∀ m ∈ modules known, s.unclaimed m = true := by
    intro m hm
    obtain ⟨m₀, hm₀, rfl⟩ := mem_map.mp hm
    exact hfree m₀ hm₀
  intro key m hm
  by_cases hmem : key ∈ known.map fun m => m.moduleKey
  · -- the key of a manifest of this set has that manifest
    obtain ⟨m₀, hm₀, rfl⟩ := mem_map.mp hmem
    rw [get?_foldl_upsert_of_mem hnodup hm₀] at hm
    cases hm
    have hmod : m.toModuleManifest ∈ modules known := mem_map_of_mem hm₀
    have hfre := hunc _ hmod
    unfold Store.unclaimed at hfre
    rw [Bool.and_eq_true, Bool.and_eq_true] at hfre
    refine ⟨?_, ?_, ?_, ?_⟩
    · simp only [seedWrites, foldl_seedModule_catalog]
      exact get?_foldl_upsert_of_mem hvalid.nodup hmod
    · exact get?_foldl_upsert_of_mem hnodup hm₀
    · exact seedWrites_fragment_of_mem hvalid hunc hmod
    · simp only [seedWrites, foldl_seedModule_apps]
      exact Option.isNone_iff_eq_none.mp hfre.1.1
  · -- any other key keeps all of its rows
    rw [get?_foldl_upsert_of_notMem hmem] at hm
    have hold := hs key m hm
    have hmem' : key ∉ (modules known).map ModuleManifest.moduleKey := hkeys ▸ hmem
    refine ⟨?_, ?_, ?_, ?_⟩
    · simp only [seedWrites, foldl_seedModule_catalog]
      rw [get?_foldl_upsert_of_notMem hmem']
      exact hold.mandatory
    · rw [get?_foldl_upsert_of_notMem hmem]
      exact hold.metadata
    · rw [seedWrites_fragment_of_notMem hvalid hunc hmem']
      exact hold.fragment
    · simp only [seedWrites, foldl_seedModule_apps]
      exact hold.noApp

/-! ## The other calls -/

/-- What a call leaves of a key's rows; the fragment may be switched on or off. -/
structure SameRows (s s' : State) (key : String) : Prop where
  catalog : s'.catalog.get? key = s.catalog.get? key
  apps : s'.apps.get? key = s.apps.get? key
  fragment : (s'.fragments.get? key).map StoredFragment.fragment =
    (s.fragments.get? key).map StoredFragment.fragment

theorem registerApp_frame {m s s'} (h : registerApp m s = .ok s') (hkey : key ≠ m.key) :
    SameRows s s' key ∧ s'.enabled key = s.enabled key := by
  unfold registerApp at h
  obtain ⟨_, _, h⟩ := bind_eq_ok.mp h
  obtain ⟨catalog, hcata, h⟩ := bind_eq_ok.mp h
  obtain ⟨apps, happs, h⟩ := bind_eq_ok.mp h
  split at h
  case h_1 => cases h
  obtain ⟨fragments, hfra, h⟩ := bind_eq_ok.mp h
  cases h
  have hcat := (ite_error_eq_ok.mp hcata).2
  have hreg := (ite_error_eq_ok.mp (ite_error_eq_ok.mp happs).2).2
  cases hcat
  cases hreg
  refine ⟨⟨?_, ?_, ?_⟩, ?_⟩
  · rw [get?_upsert, if_neg hkey]
  · rw [get?_upsert, if_neg hkey]
  · have hup := mapError_eq_ok.mp hfra
    cases hj : m.authzFragment with
    | none =>
      rw [hj] at hup
      cases hup
      rfl
    | some j =>
      rw [hj] at hup
      obtain ⟨_, _, _, _, _, rfl⟩ := upsertAuthzFragment_eq_ok hup
      rw [get?_upsert, if_neg hkey]
  · simp only [State.enabled, get?_modify, get?_insertMissing, if_neg hkey]

theorem setEnabled_frame {s s'} (h : setEnabled moduleKey enabled s = .ok s') (key : String) :
    SameRows s s' key := by
  unfold setEnabled at h
  obtain ⟨_, _, h⟩ := bind_eq_ok.mp h
  have hok := (ite_error_eq_ok.mp h).2
  cases hok
  refine ⟨rfl, rfl, ?_⟩
  simp only [setAuthzFragmentActive, get?_modify]
  split
  · rename_i hkey
    rw [hkey, Option.map_map]
    rfl
  · rfl

-- the flag in the catalog is what stands between a mandatory module and its disabling
theorem setEnabled_enabled {s s'} (h : setEnabled moduleKey enabled s = .ok s')
    (hmand : s.catalog.get? key = some ⟨true⟩) (hkey : s.enabled key = true) :
    s'.enabled key = true := by
  unfold setEnabled at h
  obtain ⟨_, hmay, h⟩ := bind_eq_ok.mp h
  have hok := (ite_error_eq_ok.mp h).2
  cases hok
  obtain ⟨i, hi, hinst, hena⟩ := State.enabled_eq_true.mp hkey
  by_cases hsame : key = moduleKey
  · subst hsame
    cases enabled with
    | false =>
      unfold mayChange at hmay
      rw [hmand] at hmay
      cases hmay
    | true =>
      refine State.enabled_eq_true.mpr ⟨{ i with enabled := true }, ?_, hinst, rfl⟩
      exact (get?_modify_of_some hi _ key).trans (if_pos rfl)
  · refine State.enabled_eq_true.mpr ⟨i, ?_, hinst, hena⟩
    rw [get?_modify, if_neg hsame]
    exact hi

theorem Store.Keeps.of_sameRows (hs : s.Keeps key m) (hsame : SameRows s.toState s'.toState key)
    (hmet : s'.metadata.get? key = s.metadata.get? key) : s'.Keeps key m where
  mandatory := hsame.catalog.trans hs.mandatory
  metadata := hmet.trans hs.metadata
  fragment := hsame.fragment.trans hs.fragment
  noApp := hsame.apps.trans hs.noApp

/-! ## Every run -/

theorem ne_key_of_apart {app} (hm : s.manifests.get? key = some m)
    (hapart : Call.apart s (.registerApp app) = true) : key ≠ app.key := by
  intro hkey
  have hnone : s.manifests.get? app.key = none := Option.isNone_iff_eq_none.mp hapart
  rw [← hkey, hm] at hnone
  cases hnone

theorem step_keeps_manifest
    (hs : ∀ key m, s.manifests.get? key = some m → s.Keeps key m) (hapart : Call.apart s call = true)
    (hstep : s.step call = some s') : ∀ key m, s'.manifests.get? key = some m → s'.Keeps key m := by
  cases call with
  | registerApp app =>
    obtain ⟨t, ht, hstep⟩ := Option.bind_eq_some_iff.mp hstep
    cases hstep
    intro key m hm
    have hne := ne_key_of_apart hm hapart
    refine (hs key m hm).of_sameRows (registerApp_frame (toOption_eq_some.mp ht) hne).1 ?_
    rw [get?_upsert, if_neg hne]
  | setEnabled moduleKey enabled =>
    obtain ⟨t, ht, hstep⟩ := Option.bind_eq_some_iff.mp hstep
    cases hstep
    intro key m hm
    exact (hs key m hm).of_sameRows (setEnabled_frame (toOption_eq_some.mp ht) key) rfl
  | seed known installedKeys taxonomy =>
    obtain ⟨hvalid, rfl⟩ := step_seed_eq_some hstep
    exact seeded_keeps installedKeys hs hvalid (all_eq_true.mp hapart)

theorem step_enabled (hm : s.manifests.get? key = some m) (hs : s.Keeps key m)
    (hmand : m.mandatory = true) (hapart : Call.apart s call = true)
    (hstep : s.step call = some s') (hkey : s.enabled key = true) : s'.enabled key = true := by
  cases call with
  | registerApp app =>
    obtain ⟨t, ht, hstep⟩ := Option.bind_eq_some_iff.mp hstep
    cases hstep
    have hne := ne_key_of_apart hm hapart
    exact (registerApp_frame (toOption_eq_some.mp ht) hne).2.trans hkey
  | setEnabled moduleKey enabled =>
    obtain ⟨t, ht, hstep⟩ := Option.bind_eq_some_iff.mp hstep
    cases hstep
    have hflag := hs.mandatory
    rw [hmand] at hflag
    exact setEnabled_enabled (toOption_eq_some.mp ht) hflag hkey
  | seed known installedKeys taxonomy =>
    obtain ⟨_, rfl⟩ := step_seed_eq_some hstep
    exact foldl_seedModule_enabled (modules known) hkey

/-- While apps and built-in modules stay apart, a key that `Seed` owns has what its manifest says, and
once enabled it is enabled for as long as its manifest is mandatory. -/
theorem builtin_not_taken_over {s : Store}
    (hreach : Reach Store.step (fun s call => Call.apart s call = true) Store.empty s) {key : String}
    {m : Manifest} (hm : s.manifests.get? key = some m) :
    s.Keeps key m ∧ ∀ s', Reach Store.step (fun s call => Call.apart s call = true ∧ s.mandatory key = true) s s' →
        s.enabled key = true → s'.enabled key = true := by
  have hkeeps : ∀ key m, s.manifests.get? key = some m → s.Keeps key m :=
    hreach.invariant (fun _ _ hm => nomatch hm) fun _ _ _ hs hapart hstep =>
      step_keeps_manifest hs hapart hstep
  refine ⟨hkeeps key m hm, fun s' hrun hena => ?_⟩
  have hboth : (∀ key m, s'.manifests.get? key = some m → s'.Keeps key m) ∧ s'.enabled key = true := by
    induction hrun with
    | start => exact ⟨hkeeps, hena⟩
    | next _ hgood hstep ih =>
      obtain ⟨hrows, hon⟩ := ih
      obtain ⟨m', hm', hmand⟩ := (Option.any_eq_true _ _).mp hgood.2
      exact ⟨step_keeps_manifest hrows hgood.1 hstep, step_enabled hm' (hrows key m' hm') hmand hgood.1 hstep hon⟩
  exact hboth.2

/-! ## An app under the key of a built-in module -/

def builtinManifests : List Manifest := builtinModules.map fun m => ⟨m, .company, .foundation⟩

def seedBuiltin : Call := .seed builtinManifests ["notification", "docs"] ["company"]

-- no type of the built-in modules, so that the write gate has nothing to object to
def docsApp : AppManifest where
  key := "docs"
  displayName := "Docs NG"
  version := "2.0.0"
  serviceClientId := "docs-ng"
  features := []
  authzFragment := some (.obj [("docs_page", .obj [("company_module", thisDef),
    ("viewer", unionOf [thisDef, via "company_module" "member"])])])

def mandatoryDocs : Manifest where
  moduleKey := "docs"
  mandatory := true
  basePath := "/api/docs"
  healthPath := "/health"
  port := 8170
  authzFragment := some docsAuthzRelations
  requiredOrgUnitTypes := ["company"]
  dependencies := []
  scopeType := .company
  licenseClass := .foundation

def seedMandatory : Call := .seed [mandatoryDocs] ["docs"] ["company"]

def crmBesideDocs : List Call := [seedMandatory, .registerApp (crm "member"), .setEnabled "crm" true]

theorem builtin_not_taken_over_docs :
    ∃ s m, Reach Store.step (fun s call => Call.apart s call = true) Store.empty s ∧
      s.manifests.get? "docs" = some m ∧ s.mandatory "docs" = true ∧ s.enabled "docs" = true ∧
      s.Keeps "docs" m ∧
      ∀ s', Reach Store.step (fun s call => Call.apart s call = true ∧ s.mandatory "docs" = true) s s' →
        s.enabled "docs" = true → s'.enabled "docs" = true := by
  have hrun : ((crmBesideDocs.foldlM
      (fun s call => if Call.apart s call then Store.step s call else none) Store.empty).map
        fun s => (s.mandatory "docs", s.enabled "docs")) = some (true, true) := by
    decide +kernel
  obtain ⟨s, hs, hseen⟩ := Option.map_eq_some_iff.mp hrun
  obtain ⟨hmand, hena⟩ := Prod.mk.inj hseen
  have hreach : Reach Store.step (fun s call => Call.apart s call = true) Store.empty s :=
    reach_of_checked Call.apart (fun _ _ h => h) crmBesideDocs hs
  obtain ⟨m, hm, _⟩ := (Option.any_eq_true _ _).mp hmand
  exact ⟨s, m, hreach, hm, hmand, hena, builtin_not_taken_over hreach hm⟩

/-- An app takes the key, the port and the licence of a built-in module, and a mandatory one is disabled. -/
theorem docsApp_takesOver : (∃ s m, [seedBuiltin, .registerApp docsApp].foldlM Store.step Store.empty = some s ∧
      s.manifests.get? "docs" = some m ∧ m.metadata = ⟨.company, 8170, .foundation⟩ ∧
      s.metadata.get? "docs" = some ⟨.company, 0, .open⟩ ∧ s.apps.get? "docs" = some "docs-ng" ∧
      ¬ s.Keeps "docs" m) ∧
    ∃ s s', Store.empty.step seedMandatory = some s ∧ s.enabled "docs" = true ∧
      [.registerApp docsApp, .setEnabled "docs" false].foldlM Store.step s = some s' ∧
      s'.mandatory "docs" = true ∧ s'.enabled "docs" = false := by
  have hrun : (([seedBuiltin, .registerApp docsApp].foldlM Store.step Store.empty).map fun s =>
        ((s.manifests.get? "docs").map fun m => m.metadata, s.metadata.get? "docs",
          s.apps.get? "docs")) =
        some (some ⟨.company, 8170, .foundation⟩, some ⟨.company, 0, .open⟩, some "docs-ng") ∧
      ((Store.empty.step seedMandatory).bind fun s =>
        ([.registerApp docsApp, .setEnabled "docs" false].foldlM Store.step s).map fun s' =>
          (s.enabled "docs", s'.mandatory "docs", s'.enabled "docs")) = some (true, true, false) := by
    decide +kernel
  constructor
  · obtain ⟨s, hs, hseen⟩ := Option.map_eq_some_iff.mp hrun.1
    obtain ⟨hm, hseen⟩ := Prod.mk.inj hseen
    obtain ⟨hmet, happ⟩ := Prod.mk.inj hseen
    obtain ⟨m, hget, hmeta⟩ := Option.map_eq_some_iff.mp hm
    refine ⟨s, m, hs, hget, hmeta, hmet, happ, fun hkeeps => ?_⟩
    rw [hkeeps.noApp] at happ
    cases happ
  · obtain ⟨s, hs, hrest⟩ := Option.bind_eq_some_iff.mp hrun.2
    obtain ⟨s', hs', hseen⟩ := Option.map_eq_some_iff.mp hrest
    obtain ⟨hena, hafter⟩ := Prod.mk.inj hseen
    exact ⟨s, s', hs, hena, hs', Prod.mk.inj hafter⟩

end Kiban.Registry
