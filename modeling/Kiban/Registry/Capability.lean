import Kiban.Lib.RecursiveUnion
import Kiban.Registry.Registry
import Mathlib.Data.List.Nodup
import Mathlib.Logic.Relation

/-!
# The capability of a module

`Capability` tells whether a module is installed and enabled and which of the modules that it depends on, over any
number of steps, are not.  The dependencies come from a recursive query that follows a dependency only to keys
that are not on its path yet.
-/

namespace Kiban.Registry

open Relation RecursiveUnion List

/-! ## Tables -/

/-- The columns of `module_catalog` that a capability shows. -/
structure ModuleRow where
  port : Nat
  features : List String

/-- `module_dependency`, with its primary key and its check. -/
structure DependencyTable where
  rows : List (String × String)
  nodup : rows.Nodup
  check : ∀ r ∈ rows, r.1 ≠ r.2

structure CapabilityTables where
  catalog : Keyed.Table String ModuleRow
  installation : Keyed.Table String Installation
  /-- `app_registration`, with the service client of each app -/
  apps : Keyed.Table String String
  dependency : DependencyTable

/-! ## The recursive query -/

/-- A key, and the keys from the module on to it. -/
abbrev DepRow := String × List String

namespace DependencyTable

def firstDeps (t : DependencyTable) (moduleKey : String) : List DepRow :=
  (t.rows.filter fun md => md.1 = moduleKey).map fun md => (md.2, [md.1, md.2])

def nextDeps (t : DependencyTable) (d : DepRow) : List DepRow :=
  (t.rows.filter fun md => md.1 = d.1 ∧ md.2 ∉ d.2).map fun md => (md.2, d.2 ++ [md.2])

/-- No path is longer than the table, so this fuel is enough for every round. -/
def listTransitiveDependencyKeys (t : DependencyTable) (moduleKey : String) : Option (List String) :=
  (evaluate t.nextDeps (t.rows.length + 2) (t.firstDeps moduleKey)).map fun deps => (deps.map Prod.fst).dedup

def DependsOn (t : DependencyTable) (a b : String) : Prop := (a, b) ∈ t.rows

end DependencyTable

/-! ## The function -/

structure Capability where
  module : String
  (installed enabled : Bool)
  (dependencies missingDependencies : List String)
  external : Bool
  serviceClientID : String
  features : List String

inductive CapabilityCode where
  | moduleNotInstalled
  | moduleDisabled
  | moduleDependencyMissing
deriving DecidableEq

inductive CapabilityError where
  | moduleNotFound
deriving DecidableEq

namespace CapabilityTables

def listInstallationStatusForKeys (db : CapabilityTables) (keys : List String) : Keyed.Table String Installation :=
  db.installation.filter fun k _ => keys.contains k

/-- The status of a key; the zero value when there is none. -/
def statusOf (statuses : Keyed.Table String Installation) (key : String) : Installation :=
  (statuses.get? key).getD ⟨false, false⟩

def describe (db : CapabilityTables) (moduleKey : String) (entry : ModuleRow) (depKeys : List String) : Capability :=
  let statuses := db.listInstallationStatusForKeys (moduleKey :: depKeys)
  let self := statusOf statuses moduleKey
  let ready := fun dk => (statusOf statuses dk).installed && (statusOf statuses dk).enabled
  { module := moduleKey
    installed := self.installed
    enabled := self.installed && self.enabled
    dependencies := depKeys
    missingDependencies := depKeys.filter fun dk => !ready dk
    external := entry.port == 0
    serviceClientID := if entry.port = 0 then (db.apps.get? moduleKey).getD "" else ""
    features := entry.features }

def codeOf (c : Capability) : Option CapabilityCode :=
  if !c.installed then some .moduleNotInstalled
  else if !c.enabled then some .moduleDisabled
  else if 0 < c.missingDependencies.length then some .moduleDependencyMissing
  else none

/-- The outer option is nothing when the recursive query does not end. -/
def capability (db : CapabilityTables) (moduleKey : String) :
    Option (Except CapabilityError (Capability × Option CapabilityCode)) :=
  match db.catalog.get? moduleKey with
  | none => some (.error .moduleNotFound)
  | some entry =>
    match db.dependency.listTransitiveDependencyKeys moduleKey with
    | none => none
    | some depKeys =>
      let result := db.describe moduleKey entry depKeys
      some (.ok (result, codeOf result))

/-! ## What a capability says -/

/-- A row of the installation table says so. -/
def Installed (db : CapabilityTables) (key : String) : Prop := ∃ i, db.installation.get? key = some i ∧ i.installed

def Enabled (db : CapabilityTables) (key : String) : Prop :=
  ∃ i, db.installation.get? key = some i ∧ i.installed ∧ i.enabled

/-- Reached from the module over one or more dependencies, and not the module itself. -/
def Needs (db : CapabilityTables) (moduleKey key : String) : Prop :=
  key ≠ moduleKey ∧ TransGen db.dependency.DependsOn moduleKey key

/-- When a code is due, whether or not one before it is. -/
def Applies (db : CapabilityTables) (moduleKey : String) : CapabilityCode → Prop
  | .moduleNotInstalled => ¬ db.Installed moduleKey
  | .moduleDisabled => ¬ db.Enabled moduleKey
  | .moduleDependencyMissing => ∃ key, db.Needs moduleKey key ∧ ¬ db.Enabled key

open Classical in
noncomputable def firstCode (db : CapabilityTables) (moduleKey : String) : Option CapabilityCode :=
  [.moduleNotInstalled, .moduleDisabled, .moduleDependencyMissing].find? fun code => decide (db.Applies moduleKey code)

structure Describes (db : CapabilityTables) (moduleKey : String) (entry : ModuleRow) (c : Capability) : Prop where
  module : c.module = moduleKey
  installed : c.installed = true ↔ db.Installed moduleKey
  enabled : c.enabled = true ↔ db.Enabled moduleKey
  dependencies : ∀ key, key ∈ c.dependencies ↔ db.Needs moduleKey key
  dependencies_nodup : c.dependencies.Nodup
  missing : ∀ key, key ∈ c.missingDependencies ↔ db.Needs moduleKey key ∧ ¬ db.Enabled key
  missing_nodup : c.missingDependencies.Nodup
  external : c.external = true ↔ entry.port = 0
  serviceClientID : c.serviceClientID = if entry.port = 0 then (db.apps.get? moduleKey).getD "" else ""
  features : c.features = entry.features

end CapabilityTables

/-! ## The rows of the query -/

namespace DependencyTable

variable {t : DependencyTable} {moduleKey : String} {d : DepRow}

theorem mem_firstDeps_iff : d ∈ t.firstDeps moduleKey ↔
    ∃ key, t.DependsOn moduleKey key ∧ d = (key, [moduleKey, key]) := by
  unfold firstDeps
  rw [mem_map]
  constructor
  · rintro ⟨⟨a, b⟩, hmem, rfl⟩
    obtain ⟨hrow, rfl⟩ : (a, b) ∈ t.rows ∧ a = moduleKey := by simpa using hmem
    exact ⟨b, hrow, rfl⟩
  · rintro ⟨key, hrow, rfl⟩
    have hmem : (moduleKey, key) ∈ t.rows.filter fun md => md.1 = moduleKey :=
      List.mem_filter.mpr ⟨hrow, decide_eq_true rfl⟩
    exact ⟨(moduleKey, key), hmem, rfl⟩

theorem mem_nextDeps_iff {d'} : d' ∈ t.nextDeps d ↔
    ∃ key, t.DependsOn d.1 key ∧ key ∉ d.2 ∧ d' = (key, d.2 ++ [key]) := by
  unfold nextDeps
  rw [mem_map]
  constructor
  · rintro ⟨⟨a, b⟩, hmem, rfl⟩
    obtain ⟨hrow, rfl, hnew⟩ : (a, b) ∈ t.rows ∧ a = d.1 ∧ b ∉ d.2 := by simpa using hmem
    exact ⟨b, hrow, hnew, rfl⟩
  · rintro ⟨key, hrow, hnew, rfl⟩
    have hmem : (d.1, key) ∈ t.rows.filter fun md => md.1 = d.1 ∧ md.2 ∉ d.2 :=
      List.mem_filter.mpr ⟨hrow, decide_eq_true ⟨rfl, hnew⟩⟩
    exact ⟨(d.1, key), hmem, rfl⟩

structure Path (t : DependencyTable) (moduleKey : String) (d : DepRow) : Prop where
  reached : TransGen t.DependsOn moduleKey d.1
  start : moduleKey ∈ d.2
  ne : d.1 ≠ moduleKey
  simple : d.2.Nodup
  keys : d.2 ⊆ moduleKey :: t.rows.map Prod.snd

theorem path_of_derived (h : Derived t.nextDeps (t.firstDeps moduleKey) d) : t.Path moduleKey d := by
  induction h with
  | base hbase =>
    obtain ⟨key, hrow, rfl⟩ := mem_firstDeps_iff.mp hbase
    -- the table has no row of a module that depends on itself
    have hne : moduleKey ≠ key := t.check _ hrow
    refine ⟨TransGen.single hrow, mem_cons_self, hne.symm, by simp [hne], ?_⟩
    exact cons_subset_cons _ (cons_subset.mpr ⟨mem_map_of_mem hrow, nil_subset _⟩)
  | step _ hstep ih =>
    obtain ⟨key, hrow, hnew, rfl⟩ := mem_nextDeps_iff.mp hstep
    have hne : key ≠ moduleKey := by
      rintro rfl
      exact hnew ih.start
    refine ⟨ih.reached.tail hrow, mem_append_left _ ih.start, hne, ?_, ?_⟩
    · rw [nodup_append]
      refine ⟨ih.simple, nodup_singleton key, ?_⟩
      rintro a ha b hb rfl
      exact hnew (mem_singleton.mp hb ▸ ha)
    · refine append_subset.mpr ⟨ih.keys, cons_subset.mpr ⟨?_, nil_subset _⟩⟩
      exact mem_cons_of_mem _ (mem_map_of_mem hrow)

/-- Every key of a path but the first has a row of its own. -/
theorem derived_of_mem_path (h : Derived t.nextDeps (t.firstDeps moduleKey) d) {key}
    (hkey : key ∈ d.2) (hne : key ≠ moduleKey) :
    ∃ path, Derived t.nextDeps (t.firstDeps moduleKey) (key, path) := by
  induction h with
  | base hbase =>
    obtain ⟨dep, hrow, rfl⟩ := mem_firstDeps_iff.mp hbase
    have hdep : key = dep := by simpa [hne] using hkey
    exact ⟨_, .base (mem_firstDeps_iff.mpr ⟨key, hdep ▸ hrow, rfl⟩)⟩
  | step hprev hstep ih =>
    obtain ⟨dep, hrow, hnew, rfl⟩ := mem_nextDeps_iff.mp hstep
    rcases mem_append.mp hkey with hold | hlast
    · exact ih hold
    · rw [mem_singleton.mp hlast]
      exact ⟨_, .step hprev hstep⟩

/-- The query loses no key by following simple paths only. -/
theorem exists_derived_iff {key} : (∃ path, Derived t.nextDeps (t.firstDeps moduleKey) (key, path)) ↔
      key ≠ moduleKey ∧ TransGen t.DependsOn moduleKey key := by
  constructor
  · rintro ⟨path, h⟩
    exact ⟨(path_of_derived h).ne, (path_of_derived h).reached⟩
  rintro ⟨hne, hreach⟩
  induction hreach with
  | single hrow => exact ⟨_, .base (mem_firstDeps_iff.mpr ⟨_, hrow, rfl⟩)⟩
  | @tail b c _ hrow ih =>
    by_cases hb : b = moduleKey
    · -- a walk that came back to the module
      exact ⟨_, .base (mem_firstDeps_iff.mpr ⟨c, hb ▸ hrow, rfl⟩)⟩
    · obtain ⟨path, h⟩ := ih hb
      by_cases hc : c ∈ path
      · exact derived_of_mem_path h hc hne
      · exact ⟨_, .step h (mem_nextDeps_iff.mpr ⟨c, hrow, hc, rfl⟩)⟩

theorem exists_listTransitiveDependencyKeys (t : DependencyTable) (moduleKey : String) :
    ∃ keys, t.listTransitiveDependencyKeys moduleKey = some keys ∧ keys.Nodup ∧
      ∀ key, key ∈ keys ↔ key ≠ moduleKey ∧ TransGen t.DependsOn moduleKey key := by
  have hlon : ∀ d, ∀ d' ∈ t.nextDeps d, d.2.length < d'.2.length := by
    intro d d' hd'
    obtain ⟨key, _, _, rfl⟩ := mem_nextDeps_iff.mp hd'
    simp
  have hshort : ∀ d, Derived t.nextDeps (t.firstDeps moduleKey) d → d.2.length < t.rows.length + 2 := by
    intro d hd
    have hpath := path_of_derived hd
    have hlen := (subperm_of_subset hpath.simple hpath.keys).length_le
    rw [length_cons, length_map] at hlen
    omega
  obtain ⟨deps, hdeps⟩ := exists_evaluate hlon hshort
  refine ⟨(deps.map Prod.fst).dedup, ?_, nodup_dedup _, fun key => ?_⟩
  · rw [listTransitiveDependencyKeys, hdeps]
    rfl
  rw [← exists_derived_iff, mem_dedup, mem_map]
  constructor
  · rintro ⟨⟨_, path⟩, hd, rfl⟩
    exact ⟨path, (mem_evaluate_iff hdeps _).mp hd⟩
  · rintro ⟨path, hd⟩
    exact ⟨(key, path), (mem_evaluate_iff hdeps _).mpr hd, rfl⟩

end DependencyTable

namespace CapabilityTables

variable {db : CapabilityTables} {keys : List String} {key : String}

theorem statusOf_installed_iff (hkey : key ∈ keys) :
    (statusOf (db.listInstallationStatusForKeys keys) key).installed = true ↔ db.Installed key := by
  unfold statusOf listInstallationStatusForKeys Installed
  rw [Keyed.Table.get?_filter]
  cases db.installation.get? key with
  | none => simp
  | some i => simp [Option.filter, hkey]

theorem statusOf_enabled_iff (hkey : key ∈ keys) :
    ((statusOf (db.listInstallationStatusForKeys keys) key).installed &&
      (statusOf (db.listInstallationStatusForKeys keys) key).enabled) = true ↔ db.Enabled key := by
  unfold statusOf listInstallationStatusForKeys Enabled
  rw [Keyed.Table.get?_filter]
  cases db.installation.get? key with
  | none => simp
  | some i => simp [Option.filter, hkey]

variable {moduleKey : String} {entry : ModuleRow} {depKeys : List String}

theorem describes_describe (hnodup : depKeys.Nodup) (hkeys : ∀ key, key ∈ depKeys ↔ db.Needs moduleKey key) :
    db.Describes moduleKey entry (db.describe moduleKey entry depKeys) where
  module := rfl
  installed := statusOf_installed_iff mem_cons_self
  enabled := statusOf_enabled_iff mem_cons_self
  dependencies := hkeys
  dependencies_nodup := hnodup
  missing key := by
    unfold describe
    rw [List.mem_filter, ← hkeys]
    refine and_congr_right fun hkey => ?_
    rw [Bool.not_eq_true', ← Bool.not_eq_true]
    exact not_congr (statusOf_enabled_iff (mem_cons_of_mem _ hkey))
  missing_nodup := hnodup.filter _
  external := beq_iff_eq
  serviceClientID := rfl
  features := rfl

theorem Describes.codeOf_eq {c} (h : db.Describes moduleKey entry c) : codeOf c = db.firstCode moduleKey := by
  have hinst : (!c.installed) = true ↔ db.Applies moduleKey .moduleNotInstalled := by
    rw [Bool.not_eq_true', ← Bool.not_eq_true]
    exact not_congr h.installed
  have hena : (!c.enabled) = true ↔ db.Applies moduleKey .moduleDisabled := by
    rw [Bool.not_eq_true', ← Bool.not_eq_true]
    exact not_congr h.enabled
  have hmiss : 0 < c.missingDependencies.length ↔ db.Applies moduleKey .moduleDependencyMissing := by
    rw [length_pos_iff_exists_mem]
    exact exists_congr h.missing
  unfold codeOf firstCode
  by_cases hnot : db.Applies moduleKey .moduleNotInstalled
  · rw [if_pos (hinst.mpr hnot), find?_cons_of_pos (by simpa using hnot)]
  rw [if_neg (mt hinst.mp hnot), find?_cons_of_neg (by simpa using hnot)]
  by_cases hdis : db.Applies moduleKey .moduleDisabled
  · rw [if_pos (hena.mpr hdis), find?_cons_of_pos (by simpa using hdis)]
  rw [if_neg (mt hena.mp hdis), find?_cons_of_neg (by simpa using hdis)]
  by_cases hlac : db.Applies moduleKey .moduleDependencyMissing
  · rw [if_pos (hmiss.mpr hlac), find?_cons_of_pos (by simpa using hlac)]
  rw [if_neg (mt hmiss.mp hlac), find?_cons_of_neg (by simpa using hlac), find?_nil]

/-- The answer for every module of the catalog; the query ends whether or not the dependencies are cyclic. -/
theorem capability_correct (db : CapabilityTables) (moduleKey : String) :
    ∃ answer, db.capability moduleKey = some answer ∧
      match answer with
      | .error .moduleNotFound => db.catalog.get? moduleKey = none
      | .ok (c, code) => ∃ entry, db.catalog.get? moduleKey = some entry ∧ db.Describes moduleKey entry c ∧
          code = db.firstCode moduleKey := by
  unfold capability
  cases hentry : db.catalog.get? moduleKey with
  | none => exact ⟨_, rfl, rfl⟩
  | some entry =>
    obtain ⟨depKeys, hquery, hnodup, hkeys⟩ := db.dependency.exists_listTransitiveDependencyKeys moduleKey
    have hdes : db.Describes moduleKey entry (db.describe moduleKey entry depKeys) :=
      describes_describe hnodup hkeys
    rw [hquery]
    exact ⟨_, rfl, entry, rfl, hdes, hdes.codeOf_eq⟩

end CapabilityTables

end Kiban.Registry
