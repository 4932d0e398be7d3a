import Kiban.Decision.FirstFailure
import Kiban.Grants.History

/-!
# Companies cannot reach each other's module objects

The decision binds an object to a company through a relation of its type; the grants route guards the anchor relation
of the objects it writes to.  Over whole histories an object a company may use through a module is anchored there.
-/

namespace Kiban

open Fallible Runs List

/-! ## The anchor rows of a history -/

/-- A request that anchors an object puts nothing else on the object's anchor relation. -/
def GrantsRequest.PlainAnchors (l : Fragment.Loaded) (req : GrantsRequest) : Prop :=
  ∀ t ∈ req.tuples, ∀ u ∈ req.tuples, ∀ m, l.Owns m t.objectType →
    t.OnObject u.objectType u.objectId → t.relation = "company_module" → u.IsAnchorAt (req.anchorId m) → t = u

def GrantsEvent.Plain (l : Fragment.Loaded) : GrantsEvent → Prop
  | .check _ _ _ req => req.op = "grant" → req.KeysApart ∧ req.PlainAnchors l
  | .write _ _ => True
  | .org _ => True

/-- On the anchor relation of an owned type, the tuple is an anchor at the owner in some company. -/
def Tuple.AnchoredAtOwner (l : Fragment.Loaded) (t : Tuple) : Prop :=
  ∀ m, l.Owns m t.objectType → t.relation = "company_module" →
    ∃ companyId, t = anchorOn t.objectType t.objectId (moduleObjectId companyId m)

structure AnchorRows (l : Fragment.Loaded) (st : GrantsState) : Prop where
  stored : ∀ t ∈ st.store.tuple, t.AnchoredAtOwner l
  pending : ∀ p ∈ st.pending, p.op = .grant → ∀ t ∈ p.req.tuples, t.AnchoredAtOwner l

section

variable {rows : List Fragment.Row} {known : Fragment.KnownEnabled} {l : Fragment.Loaded}
  {st st' : GrantsState} {sv : Services} {rd : Reads} {claims : Claims} {req : GrantsRequest} {T : TupleTable}

-- the route lets a tuple on the anchor relation through only beside the object's anchor
theorem anchoredAtOwner_of_accepted {moduleKey} (hload : Fragment.load rows known = .ok l)
    (hapart : req.KeysApart) (hplain : req.PlainAnchors l)
    (hacc : AppointmentAccepted sv l rd claims req ∨ ModuleAccepted sv l rd claims req T .grant moduleKey)
    (t : Tuple) (ht : t ∈ req.tuples) : t.AnchoredAtOwner l := by
  intro m howns hrel
  have hmod := moduleAccepted_of_owns hload hacc ht howns
  have htype := objectType_ne_of_owns hload howns isBaseType_companyModule
  rw [hmod.2] at howns ⊢
  rcases hmod.1.anchored rfl t ht htype with hkey | ⟨hne, _⟩
  · have hanc := anchorOn_mem_of_key hapart ht hkey
    exact ⟨req.companyId, hplain t ht _ hanc moduleKey howns ⟨rfl, rfl⟩ hrel ⟨rfl, rfl, rfl, rfl⟩⟩
  · exact absurd hrel hne

theorem anchorRows_check (hload : Fragment.load rows known = .ok l) (hkeys : known "" = none)
    (hinv : AnchorRows l st) (hrd : rd.Of st.store.tuple)
    (hplain : req.op = "grant" → req.KeysApart ∧ req.PlainAnchors l)
    (h : st.check (.ok l) sv rd claims req = some st') : AnchorRows l st' := by
  obtain ⟨auth, hauth, rfl⟩ := check_eq_some h
  have hacce := checkGrants_accepted hload hkeys hrd hauth
  refine ⟨hinv.stored, fun p hp hop => ?_⟩
  rcases mem_append.mp hp with hold | hnew
  · exact hinv.pending p hold hop
  rw [mem_singleton.mp hnew] at hop ⊢
  have hgrant := hplain (hacce.1.mpr hop)
  have hacc := hacce.2
  rw [show auth.op = .grant from hop] at hacc
  exact anchoredAtOwner_of_accepted hload hgrant.1 hgrant.2 hacc

theorem anchorRows_write {i order} (hinv : AnchorRows l st) (h : st.write i order = some st') :
    AnchorRows l st' := by
  obtain ⟨p, hp, hwrite, hpend, _⟩ := write_eq_some h
  refine ⟨fun t ht => ?_, fun q hq => hinv.pending q (hpend q hq)⟩
  cases hop : p.op with
  | grant =>
    rw [hop] at hwrite
    rcases (mem_writeGrants_grant hwrite t).mp ht with hold | hnew
    · exact hinv.stored t hold
    · exact hinv.pending p (mem_of_getElem? hp) hop t hnew
  | revoke =>
    rw [hop] at hwrite
    exact hinv.stored t ((mem_writeGrants_revoke hwrite t).mp ht).1

theorem anchorRows_org (hload : Fragment.load rows known = .ok l) {op} (hop : op.OnBaseTypes)
    (hinv : AnchorRows l st) (h : st.step (.ok l) (.org op) = some st') : AnchorRows l st' := by
  obtain ⟨hper, hpend, _⟩ := org_eq_some h
  refine ⟨fun t ht m howns => ?_, hpend ▸ hinv.pending⟩
  have hold := (mem_perform_of_base hop hper (howns.notBase hload)).mp ht
  exact hinv.stored t hold m howns

theorem anchorRows_of_reach (hload : Fragment.load rows known = .ok l) (hkeys : known "" = none)
    (hreach : Reach (GrantsState.step (Fragment.load rows known))
      (fun st e => st.Admits e ∧ e.Plain l) GrantsState.empty st) :
    AnchorRows l st := by
  rw [hload] at hreach
  have hstart : AnchorRows l GrantsState.empty :=
    ⟨fun t ht => absurd ht not_mem_nil, forall_mem_nil _⟩
  refine hreach.invariant hstart fun s s' e hinv hgood hstep => ?_
  cases e with
  | check sv rd claims req => exact anchorRows_check hload hkeys hinv hgood.1 hgood.2 hstep
  | write i order => exact anchorRows_write hinv hstep
  | org op => exact anchorRows_org hload hgood.1 hinv hstep

/-! ## The binding of a decision -/

-- a type of a module that has no `company` of its own is bound by its anchor
theorem anchorHolds_of_bound {r m} (hload : Fragment.load rows known = .ok l) (hrd : rd.Of T)
    (howns : l.Owns m r.object.type) (hco : l.model.defines r.object.type "company" = false)
    (hbound : (sv.deps l rd).bound r r.object = .ok true) :
    ⟨r.object.type, r.object.id, "company_module"⟩ ∈
      Holds ⟨l.model, "company_module", moduleObjectId r.companyId r.moduleKey, ""⟩ T.toTable := by
  have hdef : l.model.defines r.object.type "company_module" = true := by
    unfold Model.defines
    rw [howns.anchor hload]
    rfl
  unfold Deps.bound at hbound
  rw [if_neg (objectType_ne_of_owns hload howns isBaseType_company),
    if_neg (objectType_ne_of_owns hload howns isBaseType_companyModule)] at hbound
  change (if l.model.defines r.object.type "company" = true then _
    else if l.model.defines r.object.type "company_module" = true then
      checkerCheck l rd ⟨r.object.type, r.object.id, "company_module"⟩ "company_module"
        (moduleObjectId r.companyId r.moduleKey) else _) = _ at hbound
  rw [hco, if_neg Bool.false_ne_true, if_pos hdef] at hbound
  exact (checkerCheck_ok_iff hrd hbound).mp rfl

end

/-- In every history whose grants anchor an object by its anchor alone, an object of a module a
decision allows at company scope is anchored at the company and module of the decision, and the
module is the one that declares its type. -/
theorem evaluate_allowed_anchored (rows : List Fragment.Row) (known : Fragment.KnownEnabled)
    (l : Fragment.Loaded) (hload : Fragment.load rows known = .ok l)
    (hkeys : ∀ m, known m ≠ none → m ≠ "" ∧ '/' ∉ m.toList) (st : GrantsState)
    (hreach : Reach (GrantsState.step (Fragment.load rows known))
      (fun st e => st.Admits e ∧ e.Plain l) GrantsState.empty st)
    (sv : Services) (hstate : ∀ m, sv.moduleState m = .ok true → '/' ∉ m.toList) (rd : Reads)
    (hrd : rd.Of st.store.tuple) (r : Request) (hscope : r.scope = .company)
    (hrel : r.relation ≠ "") (m : String) (howns : l.Owns m r.object.type)
    (hcompany : l.model.defines r.object.type "company" = false)
    (hallowed : ((sv.deps l rd).evaluate r).allowed = true) :
    anchorOn r.object.type r.object.id (moduleObjectId r.companyId r.moduleKey) ∈ st.store.tuple ∧
      (∀ t ∈ st.store.tuple, t.OnObject r.object.type r.object.id → t.IsAnchorRow →
        t = anchorOn r.object.type r.object.id (moduleObjectId r.companyId r.moduleKey)) ∧
      Fragment.Declares rows known r.moduleKey r.object.type := by
  have hempty : known "" = none := by
    by_contra hne
    exact (hkeys "" hne).1 rfl
  have hrows := anchorRows_of_reach hload hempty hreach
  have hholds := anchorHolds_of_bound hload hrd howns hcompany (bound_of_allowed hscope hrel hallowed)
  -- any row on the anchor relation is direct, so the check passed on the anchor itself
  have hmem : anchorOn r.object.type r.object.id (moduleObjectId r.companyId r.moduleKey) ∈ st.store.tuple := by
    rcases anchorHolds_row (t := anchorOn r.object.type r.object.id "") (howns.anchor hload) hholds
      with hrow | ⟨u, hu, hobj, hurel, huser⟩
    · exact hrow
    · obtain ⟨companyId, hanc⟩ := hrows.stored u hu m (hobj.1 ▸ howns) hurel
      rw [hanc] at huser
      exact absurd rfl huser
  refine ⟨hmem, fun t ht hobj hanc => ?_, ?_⟩
  · exact st.store.tuple.one_anchor t ht _ hmem hanc ⟨rfl, rfl⟩ hobj
  -- the stored anchor ends in the owner, and neither module name has a slash
  obtain ⟨companyId, hanc⟩ := hrows.stored _ hmem m howns rfl
  have hid := congrArg Tuple.subjectId hanc
  have hknown := (howns.declares hload).enabled
  have howner : '/' ∉ m.toList := (hkeys m (by rw [hknown]; exact Option.some_ne_none _)).2
  have hmod : '/' ∉ r.moduleKey.toList := by
    rcases enabled_of_allowed hscope hallowed with hfnd | hena
    · rw [hfnd]
      decide
    · exact hstate r.moduleKey hena
  have hsep : ("/" : String).toList = ['/'] := by decide
  have hsplit := Separator.split_right hsep hmod howner hid
  rw [hsplit.2]
  exact howns.declares hload

/-! ## A document of one company -/

def viewDocument (companyId : String) : Request where
  subjectId := "reader"
  featureKey := "docs.document.view"
  moduleKey := "docs"
  scope := .company
  companyId := companyId
  requiredPlatformRole := ""
  allowPlatformOperatorCompanyScope := false
  requiredCompanyRole := ""
  object := ⟨"docs_document", "1"⟩
  relation := "viewer"
  requiresEligibility := false
  correlationId := ""

def sharedTable : TupleTable where
  rows := shareDocument.tuples
  nodup := by decide
  text := by decide
  one_anchor := by decide

theorem plain_shareDocument : (GrantsState.empty.checkEvent shareDocument).Plain docsLoaded := by
  intro _
  refine ⟨by unfold GrantsRequest.KeysApart; decide, fun t ht u hu m howns hobj hrel hanc => ?_⟩
  have hall : ∀ t ∈ shareDocument.tuples, ∀ u ∈ shareDocument.tuples, t.relation = "company_module" →
      u.relation = "company_module" → t = u := by decide
  exact hall t ht u hu hrel hanc.1

theorem evaluate_allowed_anchored_shareDocument :
    ∃ st, GrantsState.empty.alone (Fragment.load docsRows docsKnown) shareDocument = some st ∧
      ((everyoneIn.deps docsLoaded sharedTable.reads).evaluate (viewDocument acme)).allowed = true ∧
      anchorOn "docs_document" "1" (acme ++ "/docs") ∈ st.store.tuple ∧
      Fragment.Declares docsRows docsKnown "docs" "docs_document" := by
  -- one evaluation for all three, which share the loaded model
  obtain ⟨hrun, hok, hco⟩ : (GrantsState.empty.alone (Fragment.load docsRows docsKnown) shareDocument).map
        (fun st => st.store.tuple.rows) = some shareDocument.tuples ∧
      ((everyoneIn.deps docsLoaded sharedTable.reads).evaluate (viewDocument acme)).allowed = true ∧
      docsLoaded.model.defines "docs_document" "company" = false := by decide +kernel
  obtain ⟨st, hst, hrows⟩ := Option.map_eq_some_iff.mp hrun
  have htable : st.store.tuple = sharedTable := TupleTable.eq_of_rows hrows
  have hreach : Reach (GrantsState.step (Fragment.load docsRows docsKnown))
      (fun st e => st.Admits e ∧ e.Plain docsLoaded) GrantsState.empty st :=
    reach_alone Reach.start hst ⟨TupleTable.reads_of _, plain_shareDocument⟩ fun _ _ =>
      ⟨trivial, trivial⟩
  have hkeys : ∀ m, docsKnown m ≠ none → m ≠ "" ∧ '/' ∉ m.toList := by
    intro m hm
    rw [eq_docs_of_known hm]
    decide
  have hstate : ∀ m, everyoneIn.moduleState m = .ok true → '/' ∉ m.toList := by
    intro m hm
    have hena : docsKnown m = some true := of_decide_eq_true (Except.ok.inj hm)
    exact (hkeys m (by rw [hena]; exact Option.some_ne_none true)).2
  have hrd : sharedTable.reads.Of st.store.tuple := by
    rw [htable]
    exact sharedTable.reads_of
  have hanc := evaluate_allowed_anchored docsRows docsKnown docsLoaded load_docsRows hkeys st
    hreach everyoneIn hstate sharedTable.reads hrd (viewDocument acme) rfl (by decide) "docs"
    owns_docsDocument hco hok
  exact ⟨st, hst, hok, hanc.1, hanc.2.2⟩

def companyFragment : Json :=
  .obj [("docs_document", .obj [("company_module", thisDef), ("company", thisDef), ("viewer", thisDef)])]

def companyRows : List Fragment.Row := [⟨"docs", companyFragment, true⟩]

def companyLoaded : Fragment.Loaded :=
  match Fragment.load companyRows docsKnown with
  | .ok l => l
  | .error _ => ⟨[], [], [], docsKnown⟩

/-- The document is anchored at acme and names globex. -/
def lendDocument : GrantsRequest :=
  ⟨"grant", acme, [anchorOn "docs_document" "1" (acme ++ "/docs"),
    ⟨"docs_document", "1", "company", "company", globex, ""⟩,
    ⟨"docs_document", "1", "viewer", "user", "reader", ""⟩], ""⟩

def lentTable : TupleTable where
  rows := lendDocument.tuples
  nodup := by decide
  text := by decide
  one_anchor := by decide

-- a `company` relation is asked before the anchor, and the route does not guard it
theorem evaluate_lent_document : Fragment.load companyRows docsKnown = .ok companyLoaded ∧
    companyLoaded.typeOwner.lookup "docs_document" = some "docs" ∧
    ∃ st, Reach (GrantsState.step (Fragment.load companyRows docsKnown)) GrantsState.Admits GrantsState.empty st ∧
      ((everyoneIn.deps companyLoaded st.store.tuple.reads).evaluate (viewDocument globex)).allowed = true ∧
      anchorOn "docs_document" "1" (acme ++ "/docs") ∈ st.store.tuple ∧
      anchorOn "docs_document" "1" (globex ++ "/docs") ∉ st.store.tuple := by
  obtain ⟨hok, howner, hrun, hall⟩ : (Fragment.load companyRows docsKnown).isOk = true ∧
      companyLoaded.typeOwner.lookup "docs_document" = some "docs" ∧
      (GrantsState.empty.alone (Fragment.load companyRows docsKnown) lendDocument).map
        (fun st => st.store.tuple.rows) = some lendDocument.tuples ∧
      ((everyoneIn.deps companyLoaded lentTable.reads).evaluate
        (viewDocument globex)).allowed = true := by decide +kernel
  refine ⟨?_, howner, ?_⟩
  · obtain ⟨l, hl⟩ := exists_ok_of_isOk hok
    unfold companyLoaded
    rw [hl]
  obtain ⟨st, hst, hrows⟩ := Option.map_eq_some_iff.mp hrun
  have htable : st.store.tuple = lentTable := TupleTable.eq_of_rows hrows
  refine ⟨st, reach_alone Reach.start hst (TupleTable.reads_of _) fun _ _ => trivial, ?_⟩
  rw [htable]
  exact ⟨hall, by decide, by decide⟩

end Kiban
