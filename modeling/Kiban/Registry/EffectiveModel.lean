import Kiban.Fragment.Loadable
import Kiban.Lib.Runs
import Kiban.Registry.Registry

/-!
# The effective model of a registry

Every fragment in the registry was checked on the way in, alone and against the types of the others.  The check leaves
out whether the targets of its `tupleToUserset` definitions exist, which `Load` asks of the merged model at every
request, and whether the document still means the same once `jsonb` has stored it.
-/

namespace Kiban.Registry

open Fallible Fragment Runs List Keyed.Table

variable {moduleKey : String} {m : Model} {t : Keyed.Table String StoredFragment} {j : Json}

/-- `modvalidate`'s check: the fragment and the base model define every target of the fragment. -/
def targetsDefined (j : Json) : Bool :=
  match loadModel j with
  | .ok m => (baseModel ++ m).validateTupleToUsersetTargets.isOk
  | .error _ => true

def fragmentSound (j : Json) : Bool := modelPlain j && targetsDefined j

/-- An app comes with a sound fragment; the other operations bring none of their own. -/
def Op.sound : Op → Bool
  | .registerApp m => m.authzFragment.all fragmentSound
  | _ => true

/-! ## The write gate -/

theorem refuseBaseTypes_eq_ok (h : refuseBaseTypes moduleKey m = .ok ()) : ∀ p ∈ m, isBaseType p.1 = false := by
  unfold refuseBaseTypes at h
  split at h
  · cases h
  · rename_i hnone
    intro p hp
    simpa using find?_eq_none.mp hnone p hp

theorem refuseOwnedTypes_eq_ok {types} (h : refuseOwnedTypes moduleKey types t = .ok ()) :
    ∀ r ∈ t.rows, r.1 ≠ moduleKey → existsAny types r.2.fragment = false := by
  unfold refuseOwnedTypes at h
  split at h
  · cases h
  · rename_i hnone
    intro r hr hne
    simpa [hne] using find?_eq_none.mp hnone r hr

theorem upsertAuthzFragment_eq_ok {active t'} (h : upsertAuthzFragment moduleKey (some j) active t = .ok t') :
    ∃ m, loadModel j = .ok m ∧ m.validateCompanyModuleAnchor = .ok () ∧ (∀ p ∈ m, isBaseType p.1 = false) ∧
      (∀ r ∈ t.rows, r.1 ≠ moduleKey → existsAny (m.map Prod.fst) r.2.fragment = false) ∧
      t' = t.upsert moduleKey ⟨j.jsonb, active⟩ := by
  unfold upsertAuthzFragment at h
  obtain ⟨m, hm, h⟩ := bind_eq_ok.mp h
  obtain ⟨_, hanc, h⟩ := bind_eq_ok.mp h
  obtain ⟨_, hbase, h⟩ := bind_eq_ok.mp h
  obtain ⟨_, howned, h⟩ := bind_eq_ok.mp h
  have hok := ite_error_eq_ok.mp h
  exact ⟨m, mapError_eq_ok.mp hm, mapError_eq_ok.mp hanc, refuseBaseTypes_eq_ok hbase,
    refuseOwnedTypes_eq_ok howned, (Except.ok.inj hok.2).symm⟩

theorem existsAny_of_type (h : loadModel j = .ok m) {typ} (htyp : typ ∈ m.map Prod.fst) {keys}
    (hkeys : typ ∈ keys) : existsAny keys j = true := by
  obtain ⟨p, hp, rfl⟩ := mem_map.mp htyp
  have hdec := (loadModel_eq_ok h).1
  unfold decodeModel at hdec
  split at hdec
  · cases hdec
    cases hp
  · obtain ⟨ds, hds, rfl⟩ := map_eq_ok.mp hdec
    obtain ⟨v, hv, _⟩ := decodeMap_mem hds (mem_of_mem_entries hp)
    exact any_eq_true.mpr ⟨(p.1, v), hv, decide_eq_true hkeys⟩
  · cases hdec

/-! ## What the stored fragments keep -/

structure FragmentsSound (t : Keyed.Table String StoredFragment) : Prop where
  sound : ∀ r ∈ t.rows, (fragmentRow r).Sound
  apart : ∀ r ∈ t.rows, ∀ r' ∈ t.rows, r.1 ≠ r'.1 → (fragmentRow r).Apart (fragmentRow r')

theorem empty_fragmentsSound : FragmentsSound .empty :=
  ⟨forall_mem_nil _, forall_mem_nil _⟩

theorem mergeable_of_fragmentSound (hj : fragmentSound j = true)
    (hload : loadModel j = .ok m) (hanc : m.validateCompanyModuleAnchor = .ok ())
    (hbase : ∀ p ∈ m, isBaseType p.1 = false) : Mergeable m := by
  rw [fragmentSound, Bool.and_eq_true, targetsDefined, hload] at hj
  exact ⟨hbase, hanc, (exists_ok_of_isOk hj.2).choose_spec⟩

section Keep

variable {t t' : Keyed.Table String StoredFragment} {moduleKey : String} {active : Bool}

-- the new row is read back as the model that was checked, and no other row has its types
theorem upsertAuthzFragment_keeps {fragment} (ht : FragmentsSound t) (hsound : fragment.all fragmentSound = true)
    (h : upsertAuthzFragment moduleKey fragment active t = .ok t') : FragmentsSound t' := by
  cases fragment with
  | none =>
    cases h
    exact ht
  | some j =>
    have hj : fragmentSound j = true := hsound
    have hplain : modelPlain j = true := (Bool.and_eq_true _ _ ▸ hj).1
    obtain ⟨m, hload, hanc, hbase, hother, rfl⟩ := upsertAuthzFragment_eq_ok h
    have hback := loadModel_jsonb hplain hload
    have hm := mergeable_of_fragmentSound hj hload hanc hbase
    have hnew : ∀ r ∈ t.rows, r.1 ≠ moduleKey →
        (fragmentRow (moduleKey, ⟨j.jsonb, active⟩)).Apart (fragmentRow r) := by
      intro r hr hne typ htyp htyp'
      obtain ⟨m', hload', _⟩ := ht.sound r hr
      rw [Row.types_eq hback] at htyp
      rw [Row.types_eq hload'] at htyp'
      have hexi := existsAny_of_type hload' htyp' htyp
      rw [show (fragmentRow r).fragment = r.2.fragment from rfl, hother r hr hne] at hexi
      cases hexi
    refine ⟨fun r hr => ?_, fun r hr r' hr' hne => ?_⟩
    · rcases mem_upsert hr with rfl | ⟨hold, _⟩
      · exact ⟨m, hback, hm⟩
      · exact ht.sound r hold
    rcases mem_upsert hr with rfl | ⟨hold, hkey⟩
    · rcases mem_upsert hr' with rfl | ⟨hold', hkey'⟩
      · exact absurd rfl hne
      · exact hnew r' hold' hkey'
    · rcases mem_upsert hr' with rfl | ⟨hold', _⟩
      · exact (hnew r hold hkey).symm
      · exact ht.apart r hold r' hold' hne

theorem setAuthzFragmentActive_keeps (ht : FragmentsSound t) :
    FragmentsSound (setAuthzFragmentActive moduleKey active t) := by
  -- a row keeps its key and its document
  have hrow : ∀ r ∈ (setAuthzFragmentActive moduleKey active t).rows,
      ∃ r₀ ∈ t.rows, r₀.1 = r.1 ∧ r₀.2.fragment = r.2.fragment := by
    intro r hr
    rcases mem_modify hr with ⟨f, hf, rfl⟩ | ⟨hold, _⟩
    · exact ⟨_, hf, rfl, rfl⟩
    · exact ⟨r, hold, rfl, rfl⟩
  refine ⟨fun r hr => ?_, fun r hr r' hr' hne => ?_⟩
  · obtain ⟨r₀, hr₀, _, hdoc⟩ := hrow r hr
    obtain ⟨m, hload, hm⟩ := ht.sound r₀ hr₀
    refine ⟨m, ?_, hm⟩
    change loadModel r.2.fragment = .ok m
    rw [← hdoc]
    exact hload
  · obtain ⟨r₀, hr₀, hkey, hdoc⟩ := hrow r hr
    obtain ⟨r₀', hr₀', hkey', hdoc'⟩ := hrow r' hr'
    have hapart := ht.apart r₀ hr₀ r₀' hr₀' (by rw [hkey, hkey']; exact hne)
    simp only [Row.Apart, Row.types, fragmentRow, hdoc, hdoc'] at hapart
    exact hapart

end Keep

/-! ## Operations -/

section Ops

variable {s s' : State}

theorem registerApp_keeps {m} (hs : FragmentsSound s.fragments)
    (hm : m.authzFragment.all fragmentSound = true) (h : registerApp m s = .ok s') :
    FragmentsSound s'.fragments := by
  unfold registerApp at h
  obtain ⟨_, _, h⟩ := bind_eq_ok.mp h
  obtain ⟨_, _, h⟩ := bind_eq_ok.mp h
  obtain ⟨_, _, h⟩ := bind_eq_ok.mp h
  split at h
  · cases h
  · obtain ⟨t, ht, h⟩ := bind_eq_ok.mp h
    cases h
    exact upsertAuthzFragment_keeps hs hm (mapError_eq_ok.mp ht)

theorem setEnabled_keeps {moduleKey enabled} (hs : FragmentsSound s.fragments)
    (h : setEnabled moduleKey enabled s = .ok s') : FragmentsSound s'.fragments := by
  unfold setEnabled at h
  obtain ⟨_, _, h⟩ := bind_eq_ok.mp h
  have hok := ite_error_eq_ok.mp h
  cases hok.2
  exact setAuthzFragmentActive_keeps hs

theorem foldl_seedModule_fragments (installedKeys : List String) (known : List ModuleManifest) :
    (known.foldl (seedModule installedKeys) s).fragments = s.fragments := by
  induction known generalizing s with
  | nil => rfl
  | cons m known ih =>
    rw [foldl_cons, ih]
    rfl

theorem seed_keeps {known installedKeys taxonomy} (hs : FragmentsSound s.fragments)
    (hknown : ∀ m ∈ known, m.authzFragment.all fragmentSound = true)
    (h : seed known installedKeys taxonomy s = .ok s') : FragmentsSound s'.fragments := by
  unfold seed at h
  obtain ⟨_, _, h⟩ := bind_eq_ok.mp h
  obtain ⟨_, _, h⟩ := bind_eq_ok.mp h
  obtain ⟨t, ht, h⟩ := bind_eq_ok.mp h
  cases h
  refine foldlM_invariant (fun key _ t t' hkeep hup => ?_) ?_ (mapError_eq_ok.mp ht)
  · refine upsertAuthzFragment_keeps hkeep ?_ hup
    cases hfind : known.find? fun m => decide (m.moduleKey = key) with
    | none => rfl
    | some m => exact hknown m (mem_of_find?_eq_some hfind)
  · rw [foldl_seedModule_fragments]
    exact hs

theorem builtinModules_sound : ∀ m ∈ builtinModules, m.authzFragment.all fragmentSound = true := by
  decide +kernel

theorem step_keeps {op} (hs : FragmentsSound s.fragments) (hop : op.sound = true)
    (h : step s op = some s') : FragmentsSound s'.fragments := by
  cases op with
  | registerApp m => exact registerApp_keeps hs hop (toOption_eq_some.mp h)
  | setEnabled moduleKey enabled => exact setEnabled_keeps hs (toOption_eq_some.mp h)
  | seed installedKeys taxonomy =>
    exact seed_keeps hs builtinModules_sound (toOption_eq_some.mp h)

end Ops

/-! ## Every run -/

theorem fragmentRows_apart {s : State} (hs : FragmentsSound s.fragments) : s.fragmentRows.Pairwise Row.Apart := by
  have hkeys : s.fragments.rows.Pairwise fun r r' => r.1 ≠ r'.1 :=
    pairwise_map.mp s.fragments.nodup
  unfold State.fragmentRows
  rw [pairwise_map]
  exact hkeys.imp_of_mem fun hr hr' hne => hs.apart _ hr _ hr' hne

/-- However the rows come back from the query, the fragments of the enabled modules load. -/
theorem effectiveModel_loads {s : State}
    (hreach : Reach step (fun _ op => op.sound = true) State.empty s) {rows : List Row}
    (hrows : rows.Perm s.fragmentRows) : ∃ l, Fragment.load rows s.knownEnabled = .ok l := by
  have hs : FragmentsSound s.fragments :=
    hreach.invariant empty_fragmentsSound fun _ _ _ hs hop hstep => step_keeps hs hop hstep
  have hsound : ∀ r ∈ rows, r.Sound := by
    intro r hr
    obtain ⟨q, hq, rfl⟩ := mem_map.mp (hrows.mem_iff.mp hr)
    exact hs.sound q hq
  have hapart : rows.Pairwise Row.Apart :=
    (hrows.pairwise_iff fun h => h.symm).mpr (fragmentRows_apart hs)
  exact load_of_apart s.knownEnabled hsound hapart

/-! ## An app beside the built-in modules -/

def crm (target : String) : AppManifest where
  key := "crm"
  displayName := "CRM"
  version := "1.0.0"
  serviceClientId := "crm-backend"
  features := ["crm.leads.view"]
  authzFragment := some (.obj [("crm_lead", .obj [("company_module", thisDef),
    ("viewer", unionOf [thisDef, via "company_module" target])])])

def seedAll : Op := .seed ["notification", "timesheet", "docs", "helpdesk"] ["company"]

def memberHistory : List Op :=
  [seedAll, .registerApp (crm "member"), .setEnabled "crm" true, .setEnabled "docs" false,
    .registerApp (crm "member"), seedAll]

theorem effectiveModel_loads_crm : ∃ s, memberHistory.foldlM step State.empty = some s ∧
      ∃ l, Fragment.load s.fragmentRows s.knownEnabled = .ok l := by
  obtain ⟨hrun, hsound⟩ : (memberHistory.foldlM step State.empty).isSome = true ∧
      ∀ op ∈ memberHistory, op.sound = true := by decide +kernel
  obtain ⟨s, hs⟩ := Option.isSome_iff_exists.mp hrun
  have hreach : Reach step (fun _ op => op.sound = true) State.empty s :=
    reach_of_foldlM memberHistory hs fun op hop _ => hsound op hop
  exact ⟨s, hs, effectiveModel_loads hreach (List.Perm.refl _)⟩

def strayHistory : List Op := [seedAll, .registerApp (crm "stray"), .setEnabled "crm" true]

/-- An app whose fragment follows a relation no type defines is registered and enabled, and then no
model loads at all. -/
theorem strayHistory_load : ∃ s, strayHistory.foldlM step State.empty = some s ∧
      Fragment.load s.fragmentRows s.knownEnabled = .error
        "effective model: model: crm_lead#viewer: tupleToUserset computedUserset \"stray\" is not defined on any type of the effective model" := by
  have hrun : ((strayHistory.foldlM step State.empty).bind fun s =>
      match Fragment.load s.fragmentRows s.knownEnabled with
      | .ok _ => none
      | .error e => some e) = some
        "effective model: model: crm_lead#viewer: tupleToUserset computedUserset \"stray\" is not defined on any type of the effective model" := by
    decide +kernel
  obtain ⟨s, hs, hload⟩ := Option.bind_eq_some_iff.mp hrun
  refine ⟨s, hs, ?_⟩
  split at hload
  · cases hload
  · rename_i e he
    rw [he, Option.some.inj hload]

end Kiban.Registry
