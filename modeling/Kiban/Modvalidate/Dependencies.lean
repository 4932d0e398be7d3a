import Kiban.Lib.CycleSearch
import Kiban.Lib.Keyed

/-!
# The dependency graph of a validate batch

`validateDependencyGraph` resolves what the modules of a batch depend on among the batch and the entries of a
catalog snapshot, and looks for a dependency cycle.  A snapshot entry has no dependencies here, so a cycle runs
through modules of the batch only.
-/

namespace Kiban.Modvalidate

open Relation List

structure ManifestDependency where
  (moduleKey versionRange : String)
deriving DecidableEq

structure Manifest where
  (moduleKey version : String)
  dependencies : List ManifestDependency

structure CatalogEntry where
  (moduleKey version : String)

/-- A module of the batch, or a snapshot entry as a leaf. -/
structure DepNode where
  version : String
  dependencies : List ManifestDependency

abbrev Nodes := Keyed.Table String DepNode

namespace Nodes

def next (nodes : Nodes) (key : String) : List String :=
  match nodes.get? key with
  | some node => node.dependencies.map (·.moduleKey)
  | none => []

def keys (nodes : Nodes) : List String := nodes.rows.map Prod.fst

def reached (nodes : Nodes) : List String :=
  nodes.rows.flatMap fun r => r.1 :: r.2.dependencies.map (·.moduleKey)

def DependsOn (nodes : Nodes) (a b : String) : Prop :=
  (∃ node, nodes.get? a = some node ∧ b ∈ node.dependencies.map (·.moduleKey)) ∧ (nodes.get? b).isSome = true

end Nodes

open CycleSearch

/-- The first cycle as a path, or nothing; the outer option is nothing when the search has not ended. -/
def findDependencyCycle (nodes : Nodes) : Option (Option (List String)) :=
  search (visit nodes.next nodes.reached.length) nodes.keys.mergeSort State.start

def formatCycle : List String → String
  | [] => ""
  | [p] => p
  | p :: ps => p ++ " -> " ++ formatCycle ps

inductive Rule where
  | dependencyUnknown
  | dependencyRange
  | dependencyCycle
deriving DecidableEq

structure ValidationError where
  moduleKey : String
  rule : Rule
  message : String
deriving DecidableEq

/-- What is called of `semver` and `fmt`. -/
structure Calls where
  /-- Whether a version is in a range; nothing when one of them does not parse. -/
  satisfies : (versionRange version : String) → Option Bool
  quote : String → String

/-- A nil manifest is a module whose manifest could not be read. -/
def dependencyNodes (modules : List (Option Manifest)) (snapshot : List CatalogEntry) : Nodes :=
  let batch := modules.foldl (fun nodes manifest? =>
    match manifest? with
    | some m => Keyed.Table.upsert nodes m.moduleKey ⟨m.version, m.dependencies⟩
    | none => nodes) (Keyed.Table.empty : Nodes)
  -- the batch wins over a snapshot entry of the same key
  snapshot.foldl (fun nodes e => Keyed.Table.insertMissing nodes e.moduleKey ⟨e.version, []⟩) batch

def checkDependency (calls : Calls) (nodes : Nodes) (mk : String) (dep : ManifestDependency) :
    List ValidationError :=
  match nodes.get? dep.moduleKey with
  | none =>
    [⟨mk, .dependencyUnknown, "module.manifest.json: dependencies[].moduleKey " ++ calls.quote dep.moduleKey ++
      " is not a known module (in this batch or the supplied catalog snapshot)"⟩]
  | some target =>
    if calls.satisfies dep.versionRange target.version = some false then
      [⟨mk, .dependencyRange, "module.manifest.json: dependency " ++ calls.quote dep.moduleKey ++
        " requires versionRange " ++ calls.quote dep.versionRange ++ ", but its resolved version is " ++
        calls.quote target.version ++ " (unsatisfiable)"⟩]
    else []

def checkDependencies (calls : Calls) (nodes : Nodes) (modules : List (Option Manifest)) : List ValidationError :=
  modules.flatMap fun manifest? =>
    match manifest? with
    | some m => m.dependencies.flatMap (checkDependency calls nodes m.moduleKey)
    | none => []

def validateDependencyGraph (calls : Calls) (modules : List (Option Manifest)) (snapshot : List CatalogEntry) :
    Option (List ValidationError) :=
  let nodes := dependencyNodes modules snapshot
  let errs := checkDependencies calls nodes modules
  match findDependencyCycle nodes with
  | none => none
  | some none => some errs
  | some (some path) =>
    some (errs ++ [⟨path.headD "", .dependencyCycle, "module.manifest.json: dependency cycle detected: " ++
      formatCycle path⟩])

/-! ## The search over the table -/

section Search

variable {nodes : Nodes} {a b : String}

theorem mem_next_iff : b ∈ nodes.next a ↔
    ∃ node, nodes.get? a = some node ∧ b ∈ node.dependencies.map (·.moduleKey) := by
  unfold Nodes.next
  cases nodes.get? a with
  | none | some node => simp

theorem dependsOn_iff : nodes.DependsOn a b ↔ Edge nodes.next a b ∧ (nodes.get? b).isSome = true :=
  and_congr_left' mem_next_iff.symm

theorem isSome_of_mem_next (h : Edge nodes.next a b) : (nodes.get? a).isSome = true := by
  obtain ⟨node, hnode, _⟩ := mem_next_iff.mp h
  rw [hnode]
  rfl

theorem mem_reached_of_mem_next (h : b ∈ nodes.next a) : b ∈ nodes.reached := by
  obtain ⟨node, hnode, hdep⟩ := mem_next_iff.mp h
  exact mem_flatMap.mpr ⟨(a, node), Keyed.Table.get?_eq_some_iff.mp hnode, mem_cons_of_mem _ hdep⟩

theorem mem_reached_of_mem_keys (h : a ∈ nodes.keys) : a ∈ nodes.reached := by
  obtain ⟨row, hrow, rfl⟩ := mem_map.mp h
  exact mem_flatMap.mpr ⟨row, hrow, mem_cons_self⟩

theorem mem_keys_of_transGen (h : TransGen nodes.DependsOn a b) : a ∈ nodes.keys := by
  obtain ⟨c, ⟨⟨node, hnode, _⟩, _⟩, _⟩ := TransGen.head'_iff.mp h
  exact mem_map.mpr ⟨(a, node), Keyed.Table.get?_eq_some_iff.mp hnode, rfl⟩

end Search

theorem exists_findDependencyCycle (nodes : Nodes) : ∃ r, findDependencyCycle nodes = some r ∧
      (r = none → ∀ a, ¬ TransGen nodes.DependsOn a a) ∧
      ∀ path, r = some path → ClosedWalk nodes.DependsOn path := by
  have hkeys : ∀ k ∈ nodes.keys.mergeSort, k ∈ nodes.reached :=
    fun k hk => mem_reached_of_mem_keys (mem_mergeSort.mp hk)
  have hnext : ∀ a, ∀ b ∈ nodes.next a, b ∈ nodes.reached := fun _ _ hb => mem_reached_of_mem_next hb
  have hfuel : whites nodes.reached State.start ≤ nodes.reached.length := countP_le_length
  obtain ⟨r, hr, hwalk, hnone⟩ := search_spec hnext _ hkeys good_start rfl hfuel
  refine ⟨r, hr, fun hr' a hcycle => ?_, fun path hpath => ?_⟩
  · have hmem : a ∈ nodes.keys.mergeSort := mem_mergeSort.mpr (mem_keys_of_transGen hcycle)
    exact hnone hr' a hmem (TransGen.mono (fun _ _ h => (dependsOn_iff.mp h).1) a a hcycle)
  -- a key that is not in the table has no dependencies, so it is on no closed walk
  have hlea : ∀ a b, Edge nodes.next a b → (nodes.get? a).isSome = true := fun _ _ h => isSome_of_mem_next h
  have hedges : nodes.DependsOn = fun a b => Edge nodes.next a b ∧ (nodes.get? b).isSome = true := by
    funext a b
    exact propext dependsOn_iff
  rw [hedges]
  exact (hwalk path hpath).within hlea

/-- The search ends, with a closed walk along dependencies exactly when there is a cycle among the nodes. -/
theorem findDependencyCycle_correct (nodes : Nodes) : ∃ r, findDependencyCycle nodes = some r ∧
      (r ≠ none ↔ ∃ a, TransGen nodes.DependsOn a a) ∧
      ∀ path, r = some path → path ≠ [] ∧ ClosedWalk nodes.DependsOn path := by
  obtain ⟨r, hr, hnone, hwalk⟩ := exists_findDependencyCycle nodes
  refine ⟨r, hr, ⟨fun hsome => ?_, ?_⟩, fun path hpath => ⟨?_, hwalk path hpath⟩⟩
  · obtain ⟨path, hpath⟩ := Option.ne_none_iff_exists'.mp hsome
    obtain ⟨a, _, hcycle⟩ := (hwalk path hpath).exists_transGen
    exact ⟨a, hcycle⟩
  · rintro ⟨a, hcycle⟩ hr'
    exact hnone hr' a hcycle
  · have hsteps := (hwalk path hpath).steps
    rintro rfl
    cases hsteps

theorem checkDependency_eq_nil_iff {calls nodes mk dep} : checkDependency calls nodes mk dep = [] ↔
    ∃ target, nodes.get? dep.moduleKey = some target ∧ calls.satisfies dep.versionRange target.version ≠ some false := by
  unfold checkDependency
  cases nodes.get? dep.moduleKey with
  | none | some target => simp

theorem checkDependencies_eq_nil_iff {calls nodes modules} : checkDependencies calls nodes modules = [] ↔
    ∀ m, some m ∈ modules → ∀ dep ∈ m.dependencies, checkDependency calls nodes m.moduleKey dep = [] := by
  unfold checkDependencies
  rw [flatMap_eq_nil_iff]
  constructor
  · intro h m hm
    exact flatMap_eq_nil_iff.mp (h (some m) hm)
  · intro h manifest? hm
    cases manifest? with
    | none => rfl
    | some m => exact flatMap_eq_nil_iff.mpr (h m hm)

end Kiban.Modvalidate
