import Kiban.Grants.Accepted
import Kiban.Store.Effects

/-!
# The write gate of the grants route

What a committed grant leaves behind, for any mix of tuples in the request, and which base-type
tuples the route can touch at all.
-/

namespace Kiban

open Fallible List

/-! ## What the gate is for -/

-- the anchor of the module and no other row on the anchor relation
def AnchoredOnly (T : TupleTable) (objectType objectId anchorId : String) : Prop :=
  anchorOn objectType objectId anchorId ∈ T ∧
    ∀ t ∈ T, t.OnObject objectType objectId → t.relation = "company_module" →
      t = anchorOn objectType objectId anchorId

/-- A grant on one module: `T` is the table the checks read, `T'` the one after the commit. -/
structure ModuleWrite (sv : Services) (rows : List Fragment.Row) (l : Fragment.Loaded) (rd : Reads)
    (claims : Claims) (req : GrantsRequest) (T T' : TupleTable) (moduleKey : String) : Prop where
  object : ∀ t ∈ req.tuples, (t.OnObject "company_module" (req.anchorId moduleKey) ∧
      AdminOf l T claims (req.anchorId moduleKey)) ∨
    (l.Owns moduleKey t.objectType ∧ Fragment.Declares rows l.knownEnabled moduleKey t.objectType ∧
      AnchoredOnly T' t.objectType t.objectId (req.anchorId moduleKey))
  shape : ∀ t ∈ req.tuples, t.subjectRelation ≠ "" → l.model.defines t.subjectType t.subjectRelation = true
  belongs : ∀ t ∈ req.tuples, Belongs l.model T.toTable req.companyId t.subjectType t.subjectId
  caller : MayWrite sv l rd claims req moduleKey

def GrantGated (sv : Services) (rows : List Fragment.Row) (l : Fragment.Loaded) (rd : Reads)
    (claims : Claims) (req : GrantsRequest) (T T' : TupleTable) : Prop :=
  AppointmentAccepted sv l rd claims req ∨ ∃ moduleKey, ModuleWrite sv rows l rd claims req T T' moduleKey

/-- The condition on request and table: only anchors are granted or stored on the anchor relation of
the objects written to, and an object whose `type:id` is also that of an object anchored by the
request has an anchor of its own. -/
structure AnchorsPlain (l : Fragment.Loaded) (req : GrantsRequest) (T : TupleTable) : Prop where
  granted : ∀ t ∈ req.tuples, ∀ m, l.Owns m t.objectType → t.relation = "company_module" →
    t = anchorOn t.objectType t.objectId (req.anchorId m)
  stored : ∀ t ∈ req.tuples, ∀ m, l.Owns m t.objectType → ∀ t' ∈ T,
    t'.OnObject t.objectType t.objectId → t'.relation = "company_module" →
      t' = anchorOn t.objectType t.objectId (req.anchorId m)
  apart : ∀ t ∈ req.tuples, ∀ m, l.Owns m t.objectType →
    ∀ u ∈ req.tuples, u.IsAnchorAt (req.anchorId m) → u.objectKey = t.objectKey →
      anchorOn t.objectType t.objectId (req.anchorId m) ∈ req.tuples ∨
        anchorOn t.objectType t.objectId (req.anchorId m) ∈ T

/-! ## Commits -/

section

variable {sv : Services} {rows : List Fragment.Row} {known : Fragment.KnownEnabled}
  {l : Fragment.Loaded} {rd : Reads} {claims : Claims} {req : GrantsRequest} {order : RowOrder}
  {tx : Except String Unit} {s s' : Store} {moduleKey : String}

theorem mem_writeGrants_grant (h : writeGrants claims req .grant order tx s = .ok s') (t : Tuple) :
    t ∈ s'.tuple ↔ t ∈ s.tuple ∨ t ∈ req.tuples := by
  unfold writeGrants at h
  obtain ⟨s₁, hs₁, h⟩ := bind_eq_ok.mp h
  obtain ⟨_, _, h⟩ := bind_eq_ok.mp h
  cases h
  exact mem_grant (mapError_eq_ok.mp hs₁) t

theorem mem_writeGrants_revoke (h : writeGrants claims req .revoke order tx s = .ok s') (t : Tuple) :
    t ∈ s'.tuple ↔ t ∈ s.tuple ∧ ∀ u ∈ req.tuples, ¬ s.tuple.TakenBy u t := by
  unfold writeGrants at h
  obtain ⟨s₁, hs₁, h⟩ := bind_eq_ok.mp h
  obtain ⟨_, _, h⟩ := bind_eq_ok.mp h
  cases h
  exact mem_revoke (mapError_eq_ok.mp hs₁) t

-- a tuple the write changes is on the object of a tuple of the request
theorem exists_onObject_of_changed {op t} (h : writeGrants claims req op order tx s = .ok s')
    (hchg : ¬ (t ∈ s'.tuple ↔ t ∈ s.tuple)) :
    t ∈ req.tuples ∨ ∃ u ∈ req.tuples, u.IsAnchorRow ∧ t.OnObject u.objectType u.objectId := by
  cases op with
  | grant =>
    rw [mem_writeGrants_grant h] at hchg
    by_contra hnone
    rw [not_or] at hnone
    exact hchg (or_iff_left hnone.1)
  | revoke =>
    rw [mem_writeGrants_revoke h] at hchg
    by_contra hnone
    refine hchg (and_iff_left fun u hu htaken => hnone ?_)
    rcases htaken with rfl | ⟨_, hanc, hobj⟩
    · exact .inl hu
    · exact .inr ⟨u, hu, hanc, hobj⟩

theorem objectType_ne_of_owns {typ base} (hload : Fragment.load rows known = .ok l)
    (howns : l.Owns moduleKey typ) (hbase : isBaseType base = true) : typ ≠ base := by
  intro heq
  rw [← heq, howns.notBase hload] at hbase
  exact Bool.false_ne_true hbase

theorem owns_unique {typ m m'} (h : l.Owns m typ) (h' : l.Owns m' typ) : m = m' :=
  Option.some.inj (h.symm.trans h')

-- what acceptance leaves to the condition: an anchor of the object's own, in request or table
theorem anchorOn_mem_of_accepted {T t} (hload : Fragment.load rows known = .ok l)
    (hplain : AnchorsPlain l req T) (hacc : ModuleAccepted sv l rd claims req T .grant moduleKey)
    (ht : t ∈ req.tuples) (howns : l.Owns moduleKey t.objectType) :
    anchorOn t.objectType t.objectId (req.anchorId moduleKey) ∈ req.tuples ∨
      anchorOn t.objectType t.objectId (req.anchorId moduleKey) ∈ T := by
  have htype := objectType_ne_of_owns hload howns isBaseType_companyModule
  rcases hacc.anchored rfl t ht htype with hkey | ⟨_, hholds⟩
  · obtain ⟨u, hu, hanc, hsame⟩ := mem_inRequestAnchor.mp hkey
    exact hplain.apart t ht moduleKey howns u hu hanc hsame
  rcases anchorHolds_row (howns.anchor hload) hholds with hrow | ⟨u, hu, hobj, hrel, huser⟩
  · exact .inr hrow
  · have hanc := hplain.stored t ht moduleKey howns u hu hobj hrel
    rw [hanc] at huser
    exact absurd rfl huser

theorem moduleWrite_of_plain {T T'} (hload : Fragment.load rows known = .ok l)
    (hmem : ∀ t, t ∈ T' ↔ t ∈ T ∨ t ∈ req.tuples) (hplain : AnchorsPlain l req T)
    (hacc : ModuleAccepted sv l rd claims req T .grant moduleKey) :
    ModuleWrite sv rows l rd claims req T T' moduleKey := by
  refine ⟨fun t ht => ?_, hacc.shape rfl, hacc.belongs rfl, hacc.caller⟩
  rcases hacc.object t ht with hmod | ⟨_, howns⟩
  · exact .inl ⟨hmod.1, hmod.2.2⟩
  have hdec := howns.declares hload
  rw [← (Fragment.load_eq_ok hload).2.2] at hdec
  refine .inr ⟨howns, hdec, ?_, fun t' ht' hobj hrel => ?_⟩
  · exact (hmem _).mpr (anchorOn_mem_of_accepted hload hplain hacc ht howns).symm
  rcases (hmem t').mp ht' with hold | hnew
  · exact hplain.stored t ht moduleKey howns t' hold hobj hrel
  have howns' : l.Owns moduleKey t'.objectType := by
    rw [hobj.1]
    exact howns
  have hanc := hplain.granted t' hnew moduleKey howns' hrel
  rw [hobj.1, hobj.2] at hanc
  exact hanc

theorem anchorsPlain_of_moduleWrite {T T'} (hload : Fragment.load rows known = .ok l)
    (hmem : ∀ t, t ∈ T' ↔ t ∈ T ∨ t ∈ req.tuples)
    (hwrite : ModuleWrite sv rows l rd claims req T T' moduleKey) : AnchorsPlain l req T := by
  have honly : ∀ t ∈ req.tuples, ∀ m, l.Owns m t.objectType →
      AnchoredOnly T' t.objectType t.objectId (req.anchorId m) := by
    intro t ht m howns
    rcases hwrite.object t ht with hmod | ⟨howns', _, hanc⟩
    · exact absurd hmod.1.1 (objectType_ne_of_owns hload howns isBaseType_companyModule)
    · rw [owns_unique howns howns']
      exact hanc
  refine ⟨fun t ht m howns hrel => ?_, fun t ht m howns t' ht' hobj hrel => ?_, fun t ht m howns _ _ _ _ => ?_⟩
  · exact (honly t ht m howns).2 t ((hmem t).mpr (.inr ht)) ⟨rfl, rfl⟩ hrel
  · exact (honly t ht m howns).2 t' ((hmem t').mpr (.inl ht')) hobj hrel
  · exact ((hmem _).mp (honly t ht m howns).1).symm

theorem anchorsPlain_of_appointment {T} (hload : Fragment.load rows known = .ok l)
    (hapt : req.IsCompanyAdminAppointment) : AnchorsPlain l req T := by
  have hnone : ∀ t ∈ req.tuples, ∀ m, ¬ l.Owns m t.objectType := by
    intro t ht m howns
    exact objectType_ne_of_owns hload howns isBaseType_company (hapt t ht).1
  exact ⟨fun t ht m howns => absurd howns (hnone t ht m), fun t ht m howns => absurd howns (hnone t ht m),
    fun t ht m howns => absurd howns (hnone t ht m)⟩

/-- For a grant that passed the checks and was written, the gate holds exactly under the
condition. -/
theorem grantGated_iff {T T'} (hload : Fragment.load rows known = .ok l)
    (hmem : ∀ t, t ∈ T' ↔ t ∈ T ∨ t ∈ req.tuples)
    (hacc : AppointmentAccepted sv l rd claims req ∨ ModuleAccepted sv l rd claims req T .grant moduleKey) :
    GrantGated sv rows l rd claims req T T' ↔ AnchorsPlain l req T := by
  constructor
  · rintro (hapt | ⟨m, hwrite⟩)
    · exact anchorsPlain_of_appointment hload hapt.tuples
    · exact anchorsPlain_of_moduleWrite hload hmem hwrite
  · intro hplain
    rcases hacc with hapt | hmod
    · exact .inl hapt
    · exact .inr ⟨moduleKey, moduleWrite_of_plain hload hmem hplain hmod⟩

/-! ## Base types -/

/-- The route changes no base-type tuple but appointments of the company and tuples on the module's
own object. -/
def OnlyGatedBaseTuples (req : GrantsRequest) (moduleKey : String) (T T' : TupleTable) : Prop :=
  ∀ t, isBaseType t.objectType = true → ¬ t.IsAppointment req.companyId →
    ¬ t.OnObject "company_module" (req.anchorId moduleKey) → (t ∈ T' ↔ t ∈ T)

theorem onlyGatedBaseTuples_of_appointment {op} (h : writeGrants claims req op order tx s = .ok s')
    (hapt : req.IsCompanyAdminAppointment) (m : String) :
    OnlyGatedBaseTuples req m s.tuple s'.tuple := by
  intro t _ hnot _
  by_contra hchg
  rcases exists_onObject_of_changed h hchg with hin | ⟨u, hu, hanc, _⟩
  · exact hnot (hapt t hin)
  · have hadmin := (hapt u hu).2.2.1
    rw [hanc.1] at hadmin
    exact absurd hadmin (by decide)

theorem onlyGatedBaseTuples_of_module {op} (hload : Fragment.load rows known = .ok l)
    (h : writeGrants claims req op order tx s = .ok s')
    (hacc : ModuleAccepted sv l rd claims req s.tuple op moduleKey) :
    OnlyGatedBaseTuples req moduleKey s.tuple s'.tuple := by
  -- an object the request names is the module's or of an owned type
  have hobje : ∀ u ∈ req.tuples, ∀ t : Tuple, isBaseType t.objectType = true →
      t.OnObject u.objectType u.objectId → t.OnObject "company_module" (req.anchorId moduleKey) := by
    intro u hu t hbase hobj
    rcases hacc.object u hu with hmod | ⟨_, howns⟩
    · exact ⟨hobj.1.trans hmod.1.1, hobj.2.trans hmod.1.2⟩
    · exact absurd hobj.1.symm (objectType_ne_of_owns hload howns hbase)
  intro t hbase _ hout
  by_contra hchg
  rcases exists_onObject_of_changed h hchg with hin | ⟨u, hu, _, hobj⟩
  · exact hout (hobje t hin t hbase ⟨rfl, rfl⟩)
  · exact hout (hobje u hu t hbase hobj)

theorem handleGrants_eq_ok (hload : Fragment.load rows known = .ok l) (hkeys : known "" = none)
    (hrd : rd.Of s.tuple)
    (h : handleGrants sv (Fragment.load rows known) rd claims req order tx s = .ok s') :
    ∃ auth : Authorized, (req.op = "grant" ↔ auth.op = .grant) ∧
      writeGrants claims req auth.op order tx s = .ok s' ∧
      (AppointmentAccepted sv l rd claims req ∨
        ModuleAccepted sv l rd claims req s.tuple auth.op auth.moduleKey) := by
  rw [hload] at h
  unfold handleGrants at h
  obtain ⟨auth, hauth, hwrite⟩ := bind_eq_ok.mp h
  have hacc := checkGrants_accepted hload hkeys hrd hauth
  exact ⟨auth, hacc.1, hwrite, hacc.2⟩

theorem grantGated_iff_of_handleGrants (hload : Fragment.load rows known = .ok l)
    (hkeys : known "" = none) (hrd : rd.Of s.tuple)
    (h : handleGrants sv (Fragment.load rows known) rd claims req order tx s = .ok s')
    (hop : req.op = "grant") :
    GrantGated sv rows l rd claims req s.tuple s'.tuple ↔ AnchorsPlain l req s.tuple := by
  obtain ⟨auth, hgrant, hwrite, hacc⟩ := handleGrants_eq_ok hload hkeys hrd h
  rw [hgrant.mp hop] at hwrite hacc
  exact grantGated_iff hload (mem_writeGrants_grant hwrite) hacc

end

/-- The gate of the route.  For every loaded model, caller, request and table, a grant that commits
is gated exactly when the anchor relation of the objects it writes to carries anchors only; and no
request, grant or revoke, changes any base-type tuple outside the gate. -/
theorem handleGrants_gated_iff (rows : List Fragment.Row) (known : Fragment.KnownEnabled)
    (l : Fragment.Loaded) (hload : Fragment.load rows known = .ok l) (hkeys : known "" = none)
    (sv : Services) (rd : Reads) (claims : Claims) (req : GrantsRequest) (order : RowOrder)
    (tx : Except String Unit) (s s' : Store) (hrd : rd.Of s.tuple)
    (h : handleGrants sv (Fragment.load rows known) rd claims req order tx s = .ok s') :
    (req.op = "grant" → (GrantGated sv rows l rd claims req s.tuple s'.tuple ↔ AnchorsPlain l req s.tuple)) ∧
    ∃ moduleKey, OnlyGatedBaseTuples req moduleKey s.tuple s'.tuple := by
  refine ⟨grantGated_iff_of_handleGrants hload hkeys hrd h, ?_⟩
  obtain ⟨auth, _, hwrite, hacc⟩ := handleGrants_eq_ok hload hkeys hrd h
  rcases hacc with hapt | hmod
  · exact ⟨auth.moduleKey, onlyGatedBaseTuples_of_appointment hwrite hapt.tuples _⟩
  · exact ⟨auth.moduleKey, onlyGatedBaseTuples_of_module hload hwrite hmod⟩

/-! ## A module with one type of objects -/

def docsFragment : Json :=
  .obj [("docs_document", .obj [("company_module", thisDef), ("viewer", thisDef)])]

def docsRows : List Fragment.Row := [⟨"docs", docsFragment, true⟩]

def docsKnown : Fragment.KnownEnabled := fun m => if m = "docs" then some true else none

def docsLoaded : Fragment.Loaded :=
  match Fragment.load docsRows docsKnown with
  | .ok l => l
  | .error _ => ⟨[], [], [], docsKnown⟩

theorem load_docsRows : Fragment.load docsRows docsKnown = .ok docsLoaded := by
  have hok : (Fragment.load docsRows docsKnown).isOk = true := by decide +kernel
  obtain ⟨l, hl⟩ := exists_ok_of_isOk hok
  unfold docsLoaded
  rw [hl]

theorem eq_docs_of_known {m} (h : docsKnown m ≠ none) : m = "docs" := by
  unfold docsKnown at h
  split at h
  · assumption
  · exact absurd rfl h

def acme : String := "0b9f7c1e-5a3d-4c8e-9f21-6d2a7b4c1e90"

def globex : String := "7d3c2b1a-8e4f-4a6b-b5c9-1f0e2d3c4b5a"

def everyoneIn : Services where
  isUuid := fun id => id = acme ∨ id = globex
  subject := fun _ => .ok ⟨true, true⟩
  keycloak := fun _ => .ok .true
  company := fun _ => .ok ⟨true, true⟩
  membership := fun _ _ => .ok ⟨true, false⟩
  moduleState := fun m => .ok (docsKnown m = some true)
  appOwners := none

def editor : Claims := ⟨"editor", ""⟩

theorem typeOwner_docs : docsLoaded.typeOwner = [("docs_document", "docs")] := by decide +kernel

theorem owns_docs {m typ} (h : docsLoaded.Owns m typ) : m = "docs" ∧ typ = "docs_document" := by
  unfold Fragment.Loaded.Owns at h
  rw [typeOwner_docs, lookup_cons] at h
  split at h
  · rename_i heq
    exact ⟨(Option.some.inj h).symm, by simpa using heq⟩
  · cases h

theorem owns_docsDocument : docsLoaded.Owns "docs" "docs_document" := by
  unfold Fragment.Loaded.Owns
  rw [typeOwner_docs]
  rfl

def shareDocument : GrantsRequest :=
  ⟨"grant", acme, [anchorOn "docs_document" "1" (acme ++ "/docs"),
    ⟨"docs_document", "1", "viewer", "user", "reader", ""⟩], ""⟩

theorem anchorsPlain_shareDocument : AnchorsPlain docsLoaded shareDocument Store.empty.tuple where
  granted := by
    intro t ht m howns hrel
    rw [(owns_docs howns).1]
    rcases mem_cons.mp ht with rfl | hrest
    · rfl
    · rw [mem_singleton.mp hrest] at hrel
      exact absurd hrel (by decide)
  stored := by
    intro t _ m _ t' ht'
    exact absurd ht' not_mem_nil
  apart := by
    intro t ht m howns _ _ _ _
    rw [(owns_docs howns).1]
    rcases mem_cons.mp ht with rfl | hrest
    · exact .inl mem_cons_self
    · rw [mem_singleton.mp hrest]
      exact .inl mem_cons_self

theorem handleGrants_gated_iff_shareDocument :
    ∃ s', handleGrants everyoneIn (Fragment.load docsRows docsKnown) Store.empty.tuple.reads editor
        shareDocument ⟨id, List.Perm.refl⟩ (.ok ()) Store.empty = .ok s' ∧
      s'.tuple.rows = shareDocument.tuples ∧
      GrantGated everyoneIn docsRows docsLoaded Store.empty.tuple.reads editor shareDocument
        Store.empty.tuple s'.tuple := by
  have hrun : ((handleGrants everyoneIn (Fragment.load docsRows docsKnown) Store.empty.tuple.reads
      editor shareDocument ⟨id, List.Perm.refl⟩ (.ok ()) Store.empty).toOption.map
        fun s => s.tuple.rows) = some shareDocument.tuples := by decide +kernel
  obtain ⟨s', hs', hrows⟩ := Option.map_eq_some_iff.mp hrun
  have hok := toOption_eq_some.mp hs'
  refine ⟨s', hok, hrows, ?_⟩
  exact ((handleGrants_gated_iff docsRows docsKnown docsLoaded load_docsRows rfl everyoneIn _ editor
    shareDocument _ _ Store.empty s' (TupleTable.reads_of _) hok).1 rfl).mpr anchorsPlain_shareDocument

/-- The anchor of a document and, beside it, every anchor of another document. -/
def borrowAnchor : GrantsRequest :=
  ⟨"grant", acme, [anchorOn "docs_document" "1" (acme ++ "/docs"),
    ⟨"docs_document", "1", "company_module", "docs_document", "2", "company_module"⟩], ""⟩

-- the rule on anchors asks whether the object has one in the request, not whether the tuple is one
theorem handleGrants_userset_anchor :
    ∃ s', handleGrants everyoneIn (Fragment.load docsRows docsKnown) Store.empty.tuple.reads editor
        borrowAnchor ⟨id, List.Perm.refl⟩ (.ok ()) Store.empty = .ok s' ∧
      s'.tuple.rows = borrowAnchor.tuples ∧
      ¬ GrantGated everyoneIn docsRows docsLoaded Store.empty.tuple.reads editor borrowAnchor
        Store.empty.tuple s'.tuple := by
  have hrun : ((handleGrants everyoneIn (Fragment.load docsRows docsKnown) Store.empty.tuple.reads
      editor borrowAnchor ⟨id, List.Perm.refl⟩ (.ok ()) Store.empty).toOption.map
        fun s => s.tuple.rows) = some borrowAnchor.tuples := by decide +kernel
  obtain ⟨s', hs', hrows⟩ := Option.map_eq_some_iff.mp hrun
  have hok := toOption_eq_some.mp hs'
  refine ⟨s', hok, hrows, fun hgated => ?_⟩
  have hplain := (grantGated_iff_of_handleGrants load_docsRows rfl (TupleTable.reads_of _) hok rfl).mp hgated
  have hanc := hplain.granted _ (mem_cons_of_mem _ mem_cons_self) "docs" owns_docsDocument rfl
  exact absurd (congrArg Tuple.subjectRelation hanc) (by decide)

end Kiban
