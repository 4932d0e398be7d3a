import Kiban.Engine.BaseModel
import Kiban.Engine.CheckHolds

/-!
# Loading module fragments

The effective model is the base model with the fragment of every module the registry reports as known
and enabled.  A fragment of any other module adds nothing but the names of its types: a check on an
object of such a type answers `false`.
-/

namespace Kiban.Fragment

open Fallible List

/-- A row of `authz.model_fragment`; the document is what the `jsonb` column gives back. -/
structure Row where
  moduleKey : String
  fragment : Json
  active : Bool

abbrev KnownEnabled := String → Option Bool

structure Loaded where
  model : Model
  allowedTypes : List String
  typeOwner : List (String × String)
  knownEnabled : KnownEnabled

-- a document that is no object is an error here, which `Load` ignores
def harvestTypeNames : Json → List String
  | .obj ms => ms.map Prod.fst
  | _ => []

/-- The variables of the loop of `Load`. -/
structure Merged where
  model : Model
  allowedTypes : List String
  typeOwner : List (String × String)

def Merged.start : Merged := ⟨baseModel, baseModel.map Prod.fst, []⟩

def ownTypes (moduleKey : String) : Model → List (String × String) → Except String (List (String × String))
  | [], owner => .ok owner
  | p :: ps, owner =>
    if isBaseType p.1 then
      .error ("module \"" ++ moduleKey ++ "\": fragment declares object type \"" ++ p.1 ++ "\", which is a platform base type — fragments may reference base relations but never redefine a base type")
    else
      match owner.lookup p.1 with
      | some prev =>
        .error ("module \"" ++ moduleKey ++ "\": fragment declares object type \"" ++ p.1 ++ "\", which module \"" ++ prev ++ "\" already declares — one module owns a type")
      | none => ownTypes moduleKey ps ((p.1, moduleKey) :: owner)

def mergeFragment (acc : Merged) (r : Row) : Except String Merged := do
  let m ← (loadModel r.fragment).mapError ("module \"" ++ r.moduleKey ++ "\": subset-wall/validation failed: " ++ ·)
  let owner ← ownTypes r.moduleKey m acc.typeOwner
  m.validateCompanyModuleAnchor.mapError ("module \"" ++ r.moduleKey ++ "\": " ++ ·)
  let merged ← (acc.model.merge m).mapError ("module \"" ++ r.moduleKey ++ "\": " ++ ·)
  return { acc with model := merged, typeOwner := owner }

def mergeRow (known : KnownEnabled) (acc : Merged) (r : Row) : Except String Merged :=
  let named := { acc with allowedTypes := acc.allowedTypes ++ harvestTypeNames r.fragment }
  -- an unknown or disabled module's fragment is inert
  if known r.moduleKey ≠ some true ∨ r.active = false then .ok named
  else mergeFragment named r

/-- `Load` over the stored rows, in whatever order the query returned them. -/
def load (rows : List Row) (known : KnownEnabled) : Except String Loaded := do
  let acc ← rows.foldlM (mergeRow known) Merged.start
  acc.model.validateTupleToUsersetTargets.mapError ("effective model: " ++ ·)
  return ⟨acc.model, acc.allowedTypes, acc.typeOwner, known⟩

/-! ## Checks against the effective model -/

namespace Loaded

variable (l : Loaded)

-- the type belongs to a fragment that is not in effect
def inert (objType : String) : Bool :=
  (l.model.lookup objType).isNone && decide (objType ∈ l.allowedTypes)

def check (db : Db) (n : Node) (subjType subjId : String) : Except EvalError Bool :=
  if l.inert n.objType then .ok false else engineCheck l.model db n subjType subjId

def checkInCompany (db : Db) (n : Node) (subjType subjId companyId : String) : Except EvalError Bool :=
  if l.inert n.objType then .ok false
  else engineCheckInCompany l.model db n subjType subjId companyId

end Loaded

/-! ## What a loaded model owns -/

variable {typ : String} {acc acc' : Merged} {r : Row} {a b : Model} {rows : List Row} {known : KnownEnabled}

theorem ownTypes_eq_ok {moduleKey} (m : Model) {owner owner'} (h : ownTypes moduleKey m owner = .ok owner') :
    (∀ p ∈ m, isBaseType p.1 = false ∧ owner.lookup p.1 = none) ∧
      ∀ q, q ∈ owner' ↔ q ∈ owner ∨ (q.2 = moduleKey ∧ q.1 ∈ m.map Prod.fst) := by
  induction m generalizing owner with
  | nil =>
    cases h
    simp
  | cons p ps ih =>
    unfold ownTypes at h
    have hok := ite_error_eq_ok.mp h
    cases hlook : owner.lookup p.1 with
    | some prev =>
      rw [hlook] at hok
      cases hok.2
    | none =>
      rw [hlook] at hok
      have hps := ih hok.2
      refine ⟨?_, ?_⟩
      · rw [forall_mem_cons]
        refine ⟨⟨by simpa using hok.1, hlook⟩, fun q hq => ⟨(hps.1 q hq).1, ?_⟩⟩
        have hq' := (hps.1 q hq).2
        rw [lookup_cons] at hq'
        split at hq'
        · cases hq'
        · exact hq'
      · intro q
        rw [hps.2 q, mem_cons, map_cons, mem_cons]
        constructor
        · rintro ((rfl | hold) | ⟨hkey, htyp⟩)
          · exact .inr ⟨rfl, .inl rfl⟩
          · exact .inl hold
          · exact .inr ⟨hkey, .inr htyp⟩
        · rintro (hold | ⟨hkey, heq | htyp⟩)
          · exact .inl (.inr hold)
          · exact .inl (.inl (Prod.ext heq hkey))
          · exact .inr ⟨hkey, htyp⟩

structure Declares (rows : List Row) (known : KnownEnabled) (moduleKey typ : String) : Prop where
  enabled : known moduleKey = some true
  declared : ∃ r ∈ rows, r.moduleKey = moduleKey ∧ r.active = true ∧
    ∃ m, loadModel r.fragment = .ok m ∧ typ ∈ m.map Prod.fst

-- what the loop keeps: an owned type is no base type and has the plain anchor in the merged model
structure Merged.Owned (rows : List Row) (known : KnownEnabled) (acc : Merged) : Prop where
  notBase : ∀ q ∈ acc.typeOwner, isBaseType q.1 = false
  anchor : ∀ q ∈ acc.typeOwner, acc.model.relation? q.1 "company_module" = some .this
  declares : ∀ q ∈ acc.typeOwner, Declares rows known q.2 q.1

theorem mergeFragment_eq_ok (h : mergeFragment acc r = .ok acc') :
    ∃ m, loadModel r.fragment = .ok m ∧ ownTypes r.moduleKey m acc.typeOwner = .ok acc'.typeOwner ∧
      m.validateCompanyModuleAnchor = .ok () ∧ acc.model.merge m = .ok acc'.model ∧
      acc'.allowedTypes = acc.allowedTypes := by
  unfold mergeFragment at h
  obtain ⟨m, hm, h⟩ := bind_eq_ok.mp h
  obtain ⟨owner, howner, h⟩ := bind_eq_ok.mp h
  obtain ⟨_, hanc, h⟩ := bind_eq_ok.mp h
  obtain ⟨merged, hmer, h⟩ := bind_eq_ok.mp h
  cases h
  exact ⟨m, mapError_eq_ok.mp hm, howner, mapError_eq_ok.mp hanc, mapError_eq_ok.mp hmer, rfl⟩

theorem relation_append_left {rel e} (h : a.relation? typ rel = some e) : (a ++ b).relation? typ rel = some e := by
  obtain ⟨rels, htyp, hrel⟩ := Option.bind_eq_some_iff.mp h
  unfold Model.relation?
  rw [lookup_append, htyp]
  exact hrel

theorem relation_append_anchor (ha : a.lookup typ = none)
    (hb : ∀ p ∈ b, p.2.lookup "company_module" = some .this) (htyp : typ ∈ b.map Prod.fst) :
    (a ++ b).relation? typ "company_module" = some .this := by
  unfold Model.relation?
  rw [lookup_append, ha, Option.none_or]
  cases hlook : b.lookup typ with
  | none =>
    obtain ⟨p, hp, hpt⟩ := mem_map.mp htyp
    exact absurd (lookup_eq_none_iff.mp hlook p hp) (by simp [hpt])
  | some rels => exact hb _ (lookup_mem hlook)

theorem mergeFragment_owned (hr : r ∈ rows) (hact : r.active = true) (hknown : known r.moduleKey = some true)
    (howned : acc.Owned rows known) (h : mergeFragment acc r = .ok acc') : acc'.Owned rows known := by
  obtain ⟨m, hm, htypes, hanc, hmerge, _⟩ := mergeFragment_eq_ok h
  have hmer := Model.merge_eq_ok.mp hmerge
  have hown := ownTypes_eq_ok m htypes
  have hthis := Model.validateCompanyModuleAnchor_eq_ok.mp hanc
  have hnew : ∀ q : String × String, q.2 = r.moduleKey ∧ q.1 ∈ m.map Prod.fst →
      isBaseType q.1 = false ∧ acc'.model.relation? q.1 "company_module" = some .this ∧
        Declares rows known q.2 q.1 := by
    intro q ⟨hkey, htyp⟩
    obtain ⟨p, hp, hpt⟩ := mem_map.mp htyp
    refine ⟨hpt ▸ (hown.1 p hp).1, ?_, ?_⟩
    · rw [hmer.1]
      exact relation_append_anchor (hpt ▸ hmer.2 p hp) hthis htyp
    · rw [hkey]
      exact ⟨hknown, r, hr, rfl, hact, m, hm, htyp⟩
  refine ⟨fun q hq => ?_, fun q hq => ?_, fun q hq => ?_⟩
  · rcases (hown.2 q).mp hq with hold | hq'
    · exact howned.notBase q hold
    · exact (hnew q hq').1
  · rcases (hown.2 q).mp hq with hold | hq'
    · rw [hmer.1]
      exact relation_append_left (howned.anchor q hold)
    · exact (hnew q hq').2.1
  · rcases (hown.2 q).mp hq with hold | hq'
    · exact howned.declares q hold
    · exact (hnew q hq').2.2

theorem mergeRow_owned (hr : r ∈ rows) (howned : acc.Owned rows known)
    (h : mergeRow known acc r = .ok acc') : acc'.Owned rows known := by
  have hnamed : ({ acc with allowedTypes := acc.allowedTypes ++ harvestTypeNames r.fragment } :
      Merged).Owned rows known := ⟨howned.notBase, howned.anchor, howned.declares⟩
  unfold mergeRow at h
  by_cases hinert : known r.moduleKey ≠ some true ∨ r.active = false
  · rw [if_pos hinert] at h
    cases h
    exact hnamed
  · rw [if_neg hinert] at h
    simp only [not_or, not_not, Bool.not_eq_false] at hinert
    exact mergeFragment_owned hr hinert.2 hinert.1 hnamed h

/-- The type an enabled fragment declares, as the grants route sees it. -/
def Loaded.Owns (l : Loaded) (moduleKey typ : String) : Prop := l.typeOwner.lookup typ = some moduleKey

section

variable {rows : List Row} {known : KnownEnabled} {l : Loaded} {moduleKey typ : String}

theorem load_eq_ok (h : load rows known = .ok l) :
    rows.foldlM (mergeRow known) Merged.start = .ok ⟨l.model, l.allowedTypes, l.typeOwner⟩ ∧
      l.model.validateTupleToUsersetTargets = .ok () ∧ l.knownEnabled = known := by
  unfold load at h
  obtain ⟨acc, hacc, h⟩ := bind_eq_ok.mp h
  obtain ⟨_, htar, h⟩ := bind_eq_ok.mp h
  cases h
  exact ⟨hacc, mapError_eq_ok.mp htar, rfl⟩

theorem load_owned (h : load rows known = .ok l) :
    (⟨l.model, l.allowedTypes, l.typeOwner⟩ : Merged).Owned rows known := by
  have hstart : Merged.start.Owned rows known :=
    ⟨forall_mem_nil _, forall_mem_nil _, forall_mem_nil _⟩
  exact foldlM_invariant (fun r hr _ _ howned => mergeRow_owned hr howned) hstart (load_eq_ok h).1

theorem Loaded.Owns.notBase (h : load rows known = .ok l) (ho : l.Owns moduleKey typ) : isBaseType typ = false :=
  (load_owned h).notBase (typ, moduleKey) (lookup_mem ho)

theorem Loaded.Owns.anchor (h : load rows known = .ok l) (ho : l.Owns moduleKey typ) :
    l.model.relation? typ "company_module" = some .this :=
  (load_owned h).anchor (typ, moduleKey) (lookup_mem ho)

theorem Loaded.Owns.declares (h : load rows known = .ok l) (ho : l.Owns moduleKey typ) :
    Declares rows known moduleKey typ :=
  (load_owned h).declares (typ, moduleKey) (lookup_mem ho)

end

end Kiban.Fragment
