import Kiban.Engine.KnownTypes
import Kiban.Fragment.Load

/-!
# Types that are not in effect

A fragment of a disabled or unknown module leaves the names of its types behind.  `Check` answers `false` for a root
object of such a type, but below it a userset or tupleset row that names one ends the check with `UNKNOWN_TYPE`.
-/

namespace Kiban.Fragment

open Fallible MemoProg List

def Named (rows : List Row) (typ : String) : Prop :=
  isBaseType typ = true ∨ ∃ r ∈ rows, typ ∈ harvestTypeNames r.fragment

instance (rows : List Row) (typ : String) : Decidable (Named rows typ) :=
  inferInstanceAs (Decidable (_ ∨ _))

def Row.defines (r : Row) (typ rel : String) : Bool :=
  match loadModel r.fragment with
  | .ok m => m.defines typ rel
  | .error _ => false

def DefinedBy (rows : List Row) (typ rel : String) : Prop :=
  baseModel.defines typ rel = true ∨ ∃ r ∈ rows, r.defines typ rel = true

instance (rows : List Row) (typ rel : String) : Decidable (DefinedBy rows typ rel) :=
  inferInstanceAs (Decidable (_ ∨ _))

structure TuplesNamed (rows : List Row) (T : Table) : Prop where
  object : ∀ t ∈ T, Named rows t.objectType ∧ DefinedBy rows t.objectType t.relation
  subject : ∀ t ∈ T, Named rows t.subjectType ∧
    (t.subjectRelation ≠ "" → DefinedBy rows t.subjectType t.subjectRelation)

/-! ## What the loop of `Load` keeps -/

structure Merged.Extends (acc acc' : Merged) (rs : List Row) : Prop where
  model : ∃ rest, acc'.model = acc.model ++ rest
  allowedTypes : ∀ typ, typ ∈ acc'.allowedTypes ↔
    typ ∈ acc.allowedTypes ∨ ∃ r ∈ rs, typ ∈ harvestTypeNames r.fragment

theorem mergeRow_extends {known acc acc' r} (h : mergeRow known acc r = .ok acc') : acc.Extends acc' [r] := by
  unfold mergeRow at h
  by_cases hinert : known r.moduleKey ≠ some true ∨ r.active = false
  · rw [if_pos hinert] at h
    cases h
    exact ⟨⟨[], (append_nil _).symm⟩, by simp⟩
  rw [if_neg hinert] at h
  obtain ⟨m, _, _, _, hmerge, hok⟩ := mergeFragment_eq_ok h
  refine ⟨⟨m, (Model.merge_eq_ok.mp hmerge).1⟩, ?_⟩
  rw [hok]
  simp

theorem foldlM_extends {known} (rs : List Row) {acc acc'}
    (h : rs.foldlM (mergeRow known) acc = .ok acc') : acc.Extends acc' rs := by
  induction rs generalizing acc with
  | nil =>
    cases h
    exact ⟨⟨[], (append_nil _).symm⟩, by simp⟩
  | cons r rs ih =>
    rw [foldlM_cons] at h
    obtain ⟨acc₁, hstep, hrest⟩ := bind_eq_ok.mp h
    have hfirst := mergeRow_extends hstep
    have hlast := ih hrest
    obtain ⟨m, hm⟩ := hfirst.model
    obtain ⟨rest, hmodel⟩ := hlast.model
    refine ⟨⟨m ++ rest, by rw [hmodel, hm, append_assoc]⟩, fun typ => ?_⟩
    rw [hlast.allowedTypes, hfirst.allowedTypes]
    simp only [mem_singleton, exists_eq_left, exists_mem_cons_iff, or_assoc]

section

variable {rows : List Row} {known : KnownEnabled} {l : Loaded}

theorem load_extends (h : load rows known = .ok l) :
    Merged.start.Extends ⟨l.model, l.allowedTypes, l.typeOwner⟩ rows :=
  foldlM_extends rows (load_eq_ok h).1

theorem mem_allowedTypes_iff (h : load rows known = .ok l) {typ} : typ ∈ l.allowedTypes ↔ Named rows typ := by
  have hext := (load_extends h).allowedTypes typ
  rw [show Merged.start.allowedTypes = baseModel.map Prod.fst from rfl, baseModel_types, ← isBaseType_iff] at hext
  exact hext

theorem lookup_of_base (h : load rows known = .ok l) {typ rels}
    (hbase : baseModel.lookup typ = some rels) : l.model.lookup typ = some rels := by
  obtain ⟨rest, hmodel⟩ := (load_extends h).model
  rw [show l.model = baseModel ++ rest from hmodel, lookup_append, hbase]
  rfl

theorem lookup_isSome_of_named (h : load rows known = .ok l) {typ} (hn : Named rows typ)
    (hin : l.inert typ = false) : (l.model.lookup typ).isSome = true := by
  have hok := (mem_allowedTypes_iff h).mpr hn
  unfold Loaded.inert at hin
  rw [decide_eq_true hok, Bool.and_true] at hin
  exact Option.isNone_eq_false_iff.mp hin

end

/-! ## Checks -/

/-- What a check returns where objects of types not in effect count as `false`: never
`UNKNOWN_TYPE`, and an answer is that of the effective model's fixpoint, to which such objects add
nothing. -/
structure CountsInertFalse (cx : EvalCtx) (T : Table) (n : Node) (answer : Except EvalError Bool) : Prop where
  known : ∀ typ, answer ≠ .error (.check (.unknownType typ))
  answers : ∀ b, answer = .ok b → (b = true ↔ n ∈ Holds cx T)

section

variable {rows : List Row} {known : KnownEnabled} {l : Loaded} {T : Table}

theorem notMem_holds_of_inert {cx n} (h : cx.model.lookup n.objType = none) : n ∉ Holds cx T := by
  intro hold
  obtain ⟨e, he, _⟩ := CutFixpoint.mem_of_mem_lfp _ hold
  rw [Model.relation?, h] at he
  cases he

theorem inert_lookup {typ} (h : l.inert typ = true) : l.model.lookup typ = none := by
  unfold Loaded.inert at h
  rw [Bool.and_eq_true, Option.isNone_iff_eq_none] at h
  exact h.1

theorem TuplesNamed.row (hT : TuplesNamed rows T) (n : Node) (r : TupleRow) (hr : r ∈ T.rowsFor n) :
    Named rows r.subjectType :=
  (hT.subject _ (Table.mem_rowsFor.mp hr)).1

theorem checkInCompany_countsInertFalse (hload : load rows known = .ok l) (hT : TuplesNamed rows T)
    {db} (hdb : db.Serves T) {n} (hn : Named rows n.objType) {subjType subjId companyId}
    (hmeets : l.inert n.objType = true ∨ ∀ a, Meets ⟨l.model, subjType, subjId, companyId⟩ T n a →
      l.inert a.objType = false) :
    CountsInertFalse ⟨l.model, subjType, subjId, companyId⟩ T n
      (l.checkInCompany db n subjType subjId companyId) := by
  unfold Loaded.checkInCompany
  by_cases hinert : l.inert n.objType = true
  · rw [if_pos hinert]
    refine ⟨nofun, fun b hb => ?_⟩
    obtain rfl := Except.ok.inj hb
    exact iff_of_false (by decide) (notMem_holds_of_inert (inert_lookup hinert))
  · rw [if_neg hinert]
    have hall := hmeets.resolve_left hinert
    refine ⟨run_ne_unknownType hdb fun a ha => ?_, fun b hb => run_ok_iff hdb hb⟩
    exact lookup_isSome_of_named hload (objType_of_meets hT.row hn ha) (hall a ha)

/-! A base object whose tupleset names an object of a type that is not in effect. -/

def strayDirectory (typ : String) : Tuple := ⟨"project", "p", "directory", typ, "x", ""⟩

def strayTable (typ : String) (h : IsText typ) : Table where
  rows := [strayDirectory typ]
  nodup := nodup_singleton _
  text := by
    intro t ht
    have hconst : IsText "project" ∧ IsText "p" ∧ IsText "directory" ∧ IsText "x" ∧ IsText "" := by
      decide
    rw [mem_singleton.mp ht]
    exact ⟨hconst.1, hconst.2.1, hconst.2.2.1, h, hconst.2.2.2.1, hconst.2.2.2.2⟩

def opensWith (ts cu : String) : Expr → Bool
  | .union (.tupleToUserset ts' cu' :: _) => ts' = ts ∧ cu' = cu
  | _ => false

theorem opensWith_eq_true {ts cu e} (h : opensWith ts cu e = true) :
    ∃ es, e = .union (.tupleToUserset ts cu :: es) := by
  unfold opensWith at h
  split at h
  · obtain ⟨rfl, rfl⟩ := of_decide_eq_true h
    exact ⟨_, rfl⟩
  · cases h

theorem strayTable_unknownType (hload : load rows known = .ok l) {typ} (htext : IsText typ)
    (hinert : l.inert typ = true) :
    TuplesNamed rows (strayTable typ htext) ∧
      l.check ((strayTable typ htext).serve fun _ => false) ⟨"project", "p", "owner"⟩ "user" "u" =
        .error (.check (.unknownType typ)) := by
  obtain ⟨hbase, hdef, hpro, hopens⟩ : isBaseType "project" = true ∧
      baseModel.defines "project" "directory" = true ∧
      (baseModel.lookup "project").isSome = true ∧
      (baseModel.relation? "project" "owner").map (opensWith "directory" "owner") = some true := by
    decide +kernel
  obtain ⟨rels, hrels⟩ := Option.isSome_iff_exists.mp hpro
  obtain ⟨e, he, hopen⟩ := Option.map_eq_some_iff.mp hopens
  obtain ⟨es, rfl⟩ := opensWith_eq_true hopen
  have hlook := lookup_of_base hload hrels
  have hunk := inert_lookup hinert
  have howner : l.model.relation? "project" "owner" =
      some (.union (.tupleToUserset "directory" "owner" :: es)) := by
    rw [Model.relation?, hrels] at he
    rw [Model.relation?, hlook]
    exact he
  have hne : typ ≠ "project" := by
    rintro rfl
    rw [hlook] at hunk
    cases hunk
  constructor
  · have hok : typ ∈ l.allowedTypes := by
      unfold Loaded.inert at hinert
      rw [Bool.and_eq_true, decide_eq_true_eq] at hinert
      exact hinert.2
    refine ⟨fun t ht => ?_, fun t ht => ?_⟩
    · rw [mem_singleton.mp ht]
      exact ⟨.inl hbase, .inl hdef⟩
    · rw [mem_singleton.mp ht]
      exact ⟨(mem_allowedTypes_iff hload).mp hok, fun h => absurd rfl h⟩
  · have hroot : l.inert "project" = false := by
      unfold Loaded.inert
      rw [hlook]
      rfl
    have hkey : memoKey ((strayDirectory typ).row.hop "owner") ≠ memoKey ⟨"project", "p", "owner"⟩ := by
      intro h
      have hx : IsText "x" := by decide
      exact hne (Node.mk.inj (memoKey_inj_of_text htext hx (by decide) (by decide) h)).1
    have hrows : ((strayTable typ htext).serve fun _ => false) 0 ⟨"project", "p", "directory"⟩ =
        .ok [(strayDirectory typ).row] := rfl
    unfold Loaded.check
    rw [hroot]
    exact run_tupleset_unknownType howner hrows rfl hkey hunk

/-- Objects of types not in effect count as `false` in every check over every table exactly when every
stored type is in effect; with types that are not, they do in each check that meets none of their
objects below its root. -/
theorem check_countsInertFalse_iff (rows : List Row) (known : KnownEnabled) (l : Loaded)
    (hload : load rows known = .ok l) :
    ((∀ T, TuplesNamed rows T → ∀ db : Db, db.Serves T → ∀ n : Node, Named rows n.objType →
        ∀ subjType subjId companyId,
          CountsInertFalse ⟨l.model, subjType, subjId, ""⟩ T n (l.check db n subjType subjId) ∧
          CountsInertFalse ⟨l.model, subjType, subjId, companyId⟩ T n
            (l.checkInCompany db n subjType subjId companyId)) ↔
      ∀ typ, IsText typ → l.inert typ = false) ∧
    ∀ T, TuplesNamed rows T → ∀ db : Db, db.Serves T → ∀ n : Node, Named rows n.objType →
      ∀ subjType subjId companyId, ((l.inert n.objType = true ∨
            ∀ a, Meets ⟨l.model, subjType, subjId, ""⟩ T n a → l.inert a.objType = false) →
          CountsInertFalse ⟨l.model, subjType, subjId, ""⟩ T n (l.check db n subjType subjId)) ∧
        ((l.inert n.objType = true ∨
            ∀ a, Meets ⟨l.model, subjType, subjId, companyId⟩ T n a → l.inert a.objType = false) →
          CountsInertFalse ⟨l.model, subjType, subjId, companyId⟩ T n
            (l.checkInCompany db n subjType subjId companyId)) := by
  -- `Check` is `CheckInCompany` without a company
  have hcheck : ∀ T, TuplesNamed rows T → ∀ db : Db, db.Serves T → ∀ n : Node,
      Named rows n.objType → ∀ subjType subjId,
      (l.inert n.objType = true ∨ ∀ a, Meets ⟨l.model, subjType, subjId, ""⟩ T n a → l.inert a.objType = false) →
      CountsInertFalse ⟨l.model, subjType, subjId, ""⟩ T n (l.check db n subjType subjId) :=
    fun T hT db hdb n hn _ _ hmeets => checkInCompany_countsInertFalse hload hT hdb hn hmeets
  refine ⟨⟨fun hall typ htext => ?_, fun heff T hT db hdb n hn subjType subjId companyId => ?_⟩,
    fun T hT db hdb n hn subjType subjId companyId =>
      ⟨hcheck T hT db hdb n hn subjType subjId, checkInCompany_countsInertFalse hload hT hdb hn⟩⟩
  · by_contra hinert
    rw [Bool.not_eq_false] at hinert
    obtain ⟨hnamed, hstray⟩ := strayTable_unknownType hload htext hinert
    have hpro : Named rows "project" := .inl (by decide +kernel)
    have hcou := hall _ hnamed _ (Table.serve_serves _ fun _ => false) ⟨"project", "p", "owner"⟩ hpro "user" "u" ""
    exact hcou.1.known typ hstray
  · -- the types below the root come from rows, which are text
    have hmeets : ∀ c, l.inert n.objType = true ∨
        ∀ a, Meets ⟨l.model, subjType, subjId, c⟩ T n a → l.inert a.objType = false := by
      intro c
      by_cases hroot : l.inert n.objType = true
      · exact .inl hroot
      refine .inr fun a ha => ?_
      have hrow : ∀ n, ∀ r ∈ T.rowsFor n, l.inert r.subjectType = false :=
        fun _ _ hr => heff _ (textObject_hop hr "").1
      exact objType_of_meets (P := fun typ => l.inert typ = false) hrow (Bool.eq_false_iff.mpr hroot) ha
    exact ⟨hcheck T hT db hdb n hn subjType subjId (hmeets ""),
      checkInCompany_countsInertFalse hload hT hdb hn (hmeets companyId)⟩

end

/-! Documents shared with a team of another module. -/

def teamRows : List Row :=
  [⟨"docs", .obj [("docs_document", .obj [("company_module", thisDef), ("viewer", thisDef)])], true⟩,
    ⟨"crm", .obj [("crm_team", .obj [("company_module", thisDef), ("member", thisDef)])], true⟩]

def teamTable : Table where
  rows := [⟨"docs_document", "d", "viewer", "crm_team", "t", "member"⟩,
    ⟨"crm_team", "t", "member", "user", "u", ""⟩]
  nodup := by decide
  text := by decide

theorem teamTable_named : TuplesNamed teamRows teamTable := by
  have hall : ∀ t ∈ teamTable.rows, (Named teamRows t.objectType ∧
      DefinedBy teamRows t.objectType t.relation) ∧ Named teamRows t.subjectType ∧
      (t.subjectRelation ≠ "" → DefinedBy teamRows t.subjectType t.subjectRelation) := by
    decide +kernel
  exact ⟨fun t ht => (hall t ht).1, fun t ht => (hall t ht).2⟩

-- the registry with the team's module enabled or not
def teamModules (crm : Bool) : KnownEnabled := fun moduleKey =>
  if moduleKey = "docs" then some true else if moduleKey = "crm" then some crm else none

def teamCheck (crm : Bool) : Option (Except EvalError Bool) :=
  (load teamRows (teamModules crm)).toOption.map fun l =>
    l.check (teamTable.serve fun _ => false) ⟨"docs_document", "d", "viewer"⟩ "user" "u"

theorem check_countsInertFalse_enabled :
    ∃ l, load teamRows (teamModules true) = .ok l ∧ (∀ typ, IsText typ → l.inert typ = false) ∧
      CountsInertFalse ⟨l.model, "user", "u", ""⟩ teamTable ⟨"docs_document", "d", "viewer"⟩
        (l.check (teamTable.serve fun _ => false) ⟨"docs_document", "d", "viewer"⟩ "user" "u") := by
  obtain ⟨hload, hnamed⟩ : ((load teamRows (teamModules true)).toOption.map fun l =>
      l.allowedTypes.all fun typ => (l.model.lookup typ).isSome) = some true ∧
      Named teamRows "docs_document" := by decide +kernel
  obtain ⟨l, hl, hall⟩ := Option.map_eq_some_iff.mp hload
  have hl := toOption_eq_some.mp hl
  rw [all_eq_true] at hall
  have heff : ∀ typ, IsText typ → l.inert typ = false := by
    intro typ _
    unfold Loaded.inert
    by_cases hmem : typ ∈ l.allowedTypes
    · rw [Option.isNone_eq_false_iff.mpr (hall typ hmem), Bool.false_and]
    · rw [decide_eq_false hmem, Bool.and_false]
  have hiff := (check_countsInertFalse_iff teamRows (teamModules true) l hl).1
  exact ⟨l, hl, heff, (hiff.mpr heff teamTable teamTable_named _ (Table.serve_serves _ _)
    ⟨"docs_document", "d", "viewer"⟩ hnamed "user" "u" "").1⟩

/-- A document shared with a team: while the team's module is enabled its member may view the
document; once the module is disabled the same check fails with `UNKNOWN_TYPE`. -/
theorem teamCheck_disabled : TuplesNamed teamRows teamTable ∧ Named teamRows "docs_document" ∧
      teamCheck true = some (.ok true) ∧
      teamCheck false = some (.error (.check (.unknownType "crm_team"))) := by
  refine ⟨teamTable_named, ?_⟩
  decide +kernel

end Kiban.Fragment
