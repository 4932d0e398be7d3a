import Kiban.Grants.History

/-!
# No orphan grants

A tuple on an object of a module lives and dies with the object's anchor.  The anchor is checked
outside the transaction that writes, so this holds as far as the anchors a request saw are still
there when it writes.
-/

namespace Kiban

open Fallible Runs List Option

/-! ## The condition on a step -/

/-- The anchors the checks saw on the objects of the request are still there. -/
def PendingGrant.AnchorsStand (p : PendingGrant) (T : TupleTable) : Prop :=
  ∀ t ∈ p.req.tuples, ∀ a, anchorOn t.objectType t.objectId a ∈ p.seen → anchorOn t.objectType t.objectId a ∈ T

def GrantsState.Steady (st : GrantsState) : GrantsEvent → Prop
  | .check _ _ _ req => req.op = "grant" → req.KeysApart
  | .write i _ => ∀ p, st.pending[i]? = some p → p.op = .grant → p.AnchorsStand st.store.tuple
  | .org _ => True

/-! ## Tuples and their anchors -/

def TupleTable.Anchored (l : Fragment.Loaded) (T : TupleTable) : Prop :=
  ∀ t ∈ T, ∀ m, l.Owns m t.objectType → ∃ a, anchorOn t.objectType t.objectId a ∈ T

/-- The grant sets the anchor of the object itself, or its checks saw one. -/
def PendingGrant.Backed (p : PendingGrant) (t : Tuple) : Prop :=
  anchorOn t.objectType t.objectId p.anchorId ∈ p.req.tuples ∨ ∃ a, anchorOn t.objectType t.objectId a ∈ p.seen

structure GrantedUnderAnchor (l : Fragment.Loaded) (st : GrantsState) : Prop where
  stored : ∀ t ∈ st.store.tuple, ∀ m, l.Owns m t.objectType →
    ∃ a, anchorOn t.objectType t.objectId a ∈ st.store.tuple ∧ st.granted t = some a
  seen : ∀ p ∈ st.pending, p.seen.Anchored l
  backed : ∀ p ∈ st.pending, p.op = .grant → ∀ t ∈ p.req.tuples, ∀ m, l.Owns m t.objectType → p.Backed t

section

variable {rows : List Fragment.Row} {known : Fragment.KnownEnabled} {l : Fragment.Loaded} {st st' : GrantsState}
  {T : TupleTable} {m : String} {t : Tuple} {p : PendingGrant} {sv : Services} {claims : Claims}
  {req : GrantsRequest} {order : RowOrder}

theorem GrantedUnderAnchor.anchored (hinv : GrantedUnderAnchor l st) : st.store.tuple.Anchored l := by
  intro t ht m howns
  obtain ⟨a, ha, _⟩ := hinv.stored t ht m howns
  exact ⟨a, ha⟩

theorem anchorRow_eq_some {objectType objectId u} (h : T.anchorRow? objectType objectId = some u) :
    u ∈ T ∧ u.IsAnchorRow ∧ u.OnObject objectType objectId := by
  have hu := find?_some h
  rw [decide_eq_true_eq] at hu
  exact ⟨mem_of_find?_eq_some h, hu⟩

-- the authority of a grant is the anchor its checks saw, when they saw one
theorem authority_of_seen {a} (h : anchorOn t.objectType t.objectId a ∈ p.seen) : p.authority t = a := by
  unfold PendingGrant.authority
  cases hrow : p.seen.anchorRow? t.objectType t.objectId with
  | none =>
    have hnone := find?_eq_none.mp hrow _ h
    rw [decide_eq_true_eq] at hnone
    exact absurd ⟨⟨rfl, rfl⟩, rfl, rfl⟩ hnone
  | some u =>
    have hu := anchorRow_eq_some hrow
    rw [p.seen.one_anchor u hu.1 _ h hu.2.1 ⟨rfl, rfl⟩ hu.2.2]
    rfl

theorem authority_of_unseen (hseen : p.seen.Anchored l) (howns : l.Owns m t.objectType)
    (h : ∀ a, anchorOn t.objectType t.objectId a ∉ p.seen) : p.authority t = p.anchorId := by
  unfold PendingGrant.authority
  cases hrow : p.seen.anchorRow? t.objectType t.objectId with
  | none => rfl
  | some u =>
    have hu := anchorRow_eq_some hrow
    obtain ⟨a, ha⟩ := hseen u hu.1 m (hu.2.2.1 ▸ howns)
    rw [hu.2.2.1, hu.2.2.2] at ha
    exact absurd ha (h a)

/-! ## Each step -/

theorem backed_of_accepted {rd moduleKey} (hload : Fragment.load rows known = .ok l)
    (hapart : req.KeysApart) (hanc : T.Anchored l)
    (hacc : AppointmentAccepted sv l rd claims req ∨ ModuleAccepted sv l rd claims req T .grant moduleKey)
    (ht : t ∈ req.tuples) (howns : l.Owns m t.objectType) :
    (⟨claims, req, .grant, moduleKey, T⟩ : PendingGrant).Backed t := by
  have hmod := moduleAccepted_of_owns hload hacc ht howns
  have htype := objectType_ne_of_owns hload howns isBaseType_companyModule
  rcases hmod.1.anchored rfl t ht htype with hkey | ⟨_, hholds⟩
  · exact .inl (anchorOn_mem_of_key hapart ht hkey)
  rcases anchorHolds_row (howns.anchor hload) hholds with hrow | ⟨u, hu, hobj, _, _⟩
  · exact .inr ⟨_, hrow⟩
  · -- a userset on the anchor relation is itself a tuple on the object
    obtain ⟨a, ha⟩ := hanc u hu m (hobj.1 ▸ howns)
    rw [hobj.1, hobj.2] at ha
    exact .inr ⟨a, ha⟩

theorem grantedUnderAnchor_check (hload : Fragment.load rows known = .ok l)
    (hkeys : known "" = none) {rd} (hinv : GrantedUnderAnchor l st) (hrd : rd.Of st.store.tuple)
    (hapart : req.op = "grant" → req.KeysApart) (h : st.check (.ok l) sv rd claims req = some st') :
    GrantedUnderAnchor l st' := by
  obtain ⟨auth, hauth, rfl⟩ := check_eq_some h
  have hacce := checkGrants_accepted hload hkeys hrd hauth
  refine ⟨hinv.stored, fun p hp => ?_, fun p hp hop t ht m howns => ?_⟩
  · rcases mem_append.mp hp with hold | hnew
    · exact hinv.seen p hold
    · rw [mem_singleton.mp hnew]
      exact hinv.anchored
  · rcases mem_append.mp hp with hold | hnew
    · exact hinv.backed p hold hop t ht m howns
    rw [mem_singleton.mp hnew] at hop ht ⊢
    have hgrant : auth.op = .grant := hop
    have hacc := hacce.2
    rw [hgrant] at hacc ⊢
    exact backed_of_accepted hload (hapart (hacce.1.mpr hgrant)) hinv.anchored hacc ht howns

theorem record_of_mem (h : t ∈ st.store.tuple) : st.record p t = st.granted t := by
  unfold GrantsState.record
  rw [if_neg (fun hand => hand.2.2 h)]

theorem record_of_revoke (h : p.op = .revoke) : st.record p t = st.granted t := by
  unfold GrantsState.record
  rw [h, if_neg (fun hand => nomatch hand.1)]

theorem record_of_granted (hop : p.op = .grant)
    (ht : t ∈ p.req.tuples) (hnew : t ∉ st.store.tuple) : st.record p t = some (p.authority t) := by
  unfold GrantsState.record
  rw [if_pos ⟨hop, ht, hnew⟩]

theorem stored_of_grant (hinv : GrantedUnderAnchor l st) (hp : p ∈ st.pending) (hop : p.op = .grant)
    (hstand : p.AnchorsStand st.store.tuple)
    (hwrite : writeGrants p.claims p.req .grant order (.ok ()) st.store = .ok st'.store)
    (hrec : st'.granted = st.record p) (ht : t ∈ st'.store.tuple) (howns : l.Owns m t.objectType) :
    ∃ a, anchorOn t.objectType t.objectId a ∈ st'.store.tuple ∧ st'.granted t = some a := by
  have hmem := mem_writeGrants_grant hwrite
  rw [hrec]
  by_cases hold : t ∈ st.store.tuple
  · obtain ⟨a, ha, hgra⟩ := hinv.stored t hold m howns
    rw [record_of_mem hold]
    exact ⟨a, (hmem _).mpr (.inl ha), hgra⟩
  have hnew : t ∈ p.req.tuples := ((hmem t).mp ht).resolve_left hold
  rw [record_of_granted hop hnew hold]
  by_cases hseen : ∃ a, anchorOn t.objectType t.objectId a ∈ p.seen
  · obtain ⟨a, ha⟩ := hseen
    rw [authority_of_seen ha]
    exact ⟨a, (hmem _).mpr (.inl (hstand t hnew a ha)), rfl⟩
  · rw [authority_of_unseen (hinv.seen p hp) howns (not_exists.mp hseen)]
    have hset := (hinv.backed p hp hop t hnew m howns).resolve_right hseen
    exact ⟨p.anchorId, (hmem _).mpr (.inr hset), rfl⟩

-- what takes the anchor of an object takes every tuple on the object
theorem stored_of_revoke (hinv : GrantedUnderAnchor l st) (hop : p.op = .revoke)
    (hwrite : writeGrants p.claims p.req .revoke order (.ok ()) st.store = .ok st'.store)
    (hrec : st'.granted = st.record p) (ht : t ∈ st'.store.tuple) (howns : l.Owns m t.objectType) :
    ∃ a, anchorOn t.objectType t.objectId a ∈ st'.store.tuple ∧ st'.granted t = some a := by
  have hmem := mem_writeGrants_revoke hwrite
  have hkept := (hmem t).mp ht
  obtain ⟨a, ha, hgra⟩ := hinv.stored t hkept.1 m howns
  rw [hrec, record_of_revoke hop]
  refine ⟨a, (hmem _).mpr ⟨ha, fun u hu htaken => hkept.2 u hu ?_⟩, hgra⟩
  rcases htaken with heq | ⟨hin, hanc, hobj⟩
  · rw [← heq]
    exact .inr ⟨ha, ⟨rfl, rfl⟩, rfl, rfl⟩
  · exact .inr ⟨hin, hanc, hobj⟩

theorem grantedUnderAnchor_write {i} (hinv : GrantedUnderAnchor l st)
    (hste : st.Steady (.write i order)) (h : st.write i order = some st') :
    GrantedUnderAnchor l st' := by
  obtain ⟨p, hp, hwrite, hpend, hrec⟩ := write_eq_some h
  have hin := mem_of_getElem? hp
  refine ⟨fun t ht m howns => ?_, fun q hq => hinv.seen q (hpend q hq), fun q hq => hinv.backed q (hpend q hq)⟩
  cases hop : p.op with
  | grant =>
    rw [hop] at hwrite
    exact stored_of_grant hinv hin hop (hste p hp hop) hwrite hrec ht howns
  | revoke =>
    rw [hop] at hwrite
    exact stored_of_revoke hinv hop hwrite hrec ht howns

theorem grantedUnderAnchor_org (hload : Fragment.load rows known = .ok l) {op}
    (hop : op.OnBaseTypes) (hinv : GrantedUnderAnchor l st)
    (h : st.step (.ok l) (.org op) = some st') : GrantedUnderAnchor l st' := by
  obtain ⟨hper, hpend, hgra⟩ := org_eq_some h
  refine ⟨fun t ht m howns => ?_, hpend ▸ hinv.seen, hpend ▸ hinv.backed⟩
  have hsame : ∀ u : Tuple, u.objectType = t.objectType → (u ∈ st'.store.tuple ↔ u ∈ st.store.tuple) := by
    intro u hu
    exact mem_perform_of_base hop hper (hu ▸ howns.notBase hload)
  obtain ⟨a, ha, hunder⟩ := hinv.stored t ((hsame t rfl).mp ht) m howns
  rw [hgra]
  exact ⟨a, (hsame (anchorOn t.objectType t.objectId a) rfl).mpr ha, hunder⟩

theorem grantedUnderAnchor_of_reach (hload : Fragment.load rows known = .ok l) (hkeys : known "" = none)
    (hreach : Reach (GrantsState.step (Fragment.load rows known))
      (fun st e => st.Admits e ∧ st.Steady e) GrantsState.empty st) :
    GrantedUnderAnchor l st := by
  rw [hload] at hreach
  have hstart : GrantedUnderAnchor l GrantsState.empty :=
    ⟨fun t ht => absurd ht not_mem_nil, forall_mem_nil _, forall_mem_nil _⟩
  refine hreach.invariant hstart fun s s' e hinv hgood hstep => ?_
  cases e with
  | check sv rd claims req => exact grantedUnderAnchor_check hload hkeys hinv hgood.1 hgood.2 hstep
  | write i order => exact grantedUnderAnchor_write hinv hgood.2 hstep
  | org op => exact grantedUnderAnchor_org hload hgood.1 hinv hstep

end

/-- In every interleaving whose grants find the anchors they were checked against, a tuple on an
object of a module stands beside the object's one anchor and was granted under it; an object without
an anchor has no tuple, so nothing granted before its anchor was revoked comes back with a new one. -/
theorem stored_grantedUnderAnchor (rows : List Fragment.Row) (known : Fragment.KnownEnabled)
    (l : Fragment.Loaded) (hload : Fragment.load rows known = .ok l) (hkeys : known "" = none)
    (st : GrantsState)
    (hreach : Reach (GrantsState.step (Fragment.load rows known))
      (fun st e => st.Admits e ∧ st.Steady e) GrantsState.empty st)
    (m objectType objectId : String) (howns : l.Owns m objectType) :
    (∀ t ∈ st.store.tuple, t.OnObject objectType objectId →
      ∃ a, anchorOn objectType objectId a ∈ st.store.tuple ∧ st.granted t = some a) ∧
    (∀ a, anchorOn objectType objectId a ∈ st.store.tuple →
      ∀ t ∈ st.store.tuple, t.OnObject objectType objectId → st.granted t = some a) ∧
    ((∀ a, anchorOn objectType objectId a ∉ st.store.tuple) →
      ∀ t ∈ st.store.tuple, ¬ t.OnObject objectType objectId) := by
  have hinv := grantedUnderAnchor_of_reach hload hkeys hreach
  have hsto : ∀ t ∈ st.store.tuple, t.OnObject objectType objectId →
      ∃ a, anchorOn objectType objectId a ∈ st.store.tuple ∧ st.granted t = some a := by
    intro t ht hobj
    obtain ⟨a, ha⟩ := hinv.stored t ht m (hobj.1 ▸ howns)
    rw [hobj.1, hobj.2] at ha
    exact ⟨a, ha⟩
  refine ⟨hsto, fun a ha t ht hobj => ?_, fun hnone t ht hobj => ?_⟩
  · obtain ⟨a', ha', hgra⟩ := hsto t ht hobj
    have heq := st.store.tuple.one_anchor _ ha' _ ha ⟨rfl, rfl⟩ ⟨rfl, rfl⟩ ⟨rfl, rfl⟩
    rw [hgra, show a' = a from congrArg Tuple.subjectId heq]
  · obtain ⟨a, ha, _⟩ := hsto t ht hobj
    exact hnone a ha

/-! ## A document that changes company -/

def unshareDocument : GrantsRequest :=
  ⟨"revoke", acme, [anchorOn "docs_document" "1" (acme ++ "/docs")], ""⟩

def moveDocument : GrantsRequest :=
  ⟨"grant", globex, [anchorOn "docs_document" "1" (globex ++ "/docs")], ""⟩

def docsModel : Except String Fragment.Loaded := Fragment.load docsRows docsKnown

def movedHistory : Option GrantsState :=
  ((GrantsState.empty.alone docsModel shareDocument).bind
    (·.alone docsModel unshareDocument)).bind (·.alone docsModel moveDocument)

theorem steady_alone {st st' req}
    (hreach : Reach (GrantsState.step docsModel) (fun st e => st.Admits e ∧ st.Steady e) GrantsState.empty st)
    (hapart : req.KeysApart) (h : st.alone docsModel req = some st') :
    Reach (GrantsState.step docsModel) (fun st e => st.Admits e ∧ st.Steady e) GrantsState.empty st' := by
  refine reach_alone hreach h ⟨TupleTable.reads_of _, fun _ => hapart⟩ fun op moduleKey =>
    ⟨trivial, fun p hp _ t _ a ha => ?_⟩
  -- the table is still the one the checks read
  rw [getElem?_append_right (Nat.le_refl _), Nat.sub_self] at hp
  rw [← Option.some.inj hp] at ha
  exact ha

theorem stored_grantedUnderAnchor_moved : ∃ st, movedHistory = some st ∧ st.store.tuple.rows = moveDocument.tuples ∧
      ∀ t ∈ st.store.tuple, t.OnObject "docs_document" "1" → st.granted t = some (globex ++ "/docs") := by
  have hrun : movedHistory.map (fun st => st.store.tuple.rows) = some moveDocument.tuples := by
    decide +kernel
  obtain ⟨st, hst, hrows⟩ := map_eq_some_iff.mp hrun
  obtain ⟨st₂, h₂, h₃⟩ := bind_eq_some_iff.mp hst
  obtain ⟨st₁, h₁, h₂⟩ := bind_eq_some_iff.mp h₂
  have hapart : shareDocument.KeysApart ∧ unshareDocument.KeysApart ∧ moveDocument.KeysApart := by
    unfold GrantsRequest.KeysApart
    decide
  have hreach := steady_alone (steady_alone (steady_alone Reach.start hapart.1 h₁) hapart.2.1 h₂) hapart.2.2 h₃
  have hmem : anchorOn "docs_document" "1" (globex ++ "/docs") ∈ st.store.tuple.rows := by
    rw [hrows]
    exact mem_singleton.mpr rfl
  exact ⟨st, hst, hrows, (stored_grantedUnderAnchor docsRows docsKnown docsLoaded load_docsRows rfl st
    hreach "docs" "docs_document" "1" owns_docsDocument).2.1 _ hmem⟩

def lateViewer : GrantsRequest :=
  ⟨"grant", acme, [⟨"docs_document", "1", "viewer", "user", "late", ""⟩], ""⟩

/-- The late viewer is checked, the anchor is revoked with all that is on the document, and the late
viewer is written. -/
def racedHistory : Option GrantsState :=
  (((GrantsState.empty.alone docsModel shareDocument).bind fun st =>
    st.step docsModel (st.checkEvent lateViewer)).bind (·.alone docsModel unshareDocument)).bind
      (·.step docsModel (.write 0 keepOrder))

theorem racedHistory_reach {st} (h : racedHistory = some st) :
    Reach (GrantsState.step docsModel) GrantsState.Admits GrantsState.empty st := by
  obtain ⟨st₃, h₃, h₄⟩ := bind_eq_some_iff.mp h
  obtain ⟨st₂, h₂, h₃⟩ := bind_eq_some_iff.mp h₃
  obtain ⟨st₁, h₁, h₂⟩ := bind_eq_some_iff.mp h₂
  have hreach₁ : Reach (GrantsState.step docsModel) GrantsState.Admits GrantsState.empty st₁ :=
    reach_alone Reach.start h₁ (TupleTable.reads_of _) fun _ _ => trivial
  have hlate : st₁.Admits (st₁.checkEvent lateViewer) := TupleTable.reads_of _
  have hreach₃ := reach_alone (hreach₁.next hlate h₂) h₃ (TupleTable.reads_of _) fun _ _ => trivial
  have hwrite : st₃.Admits (.write 0 keepOrder) := trivial
  exact hreach₃.next hwrite h₄

-- the document has a viewer and no anchor; anchored again elsewhere, it still has that viewer
theorem viewer_outlives_anchor :
    ∃ st st', Reach (GrantsState.step docsModel) GrantsState.Admits GrantsState.empty st ∧
      st.store.tuple.rows = lateViewer.tuples ∧
      Reach (GrantsState.step docsModel) GrantsState.Admits GrantsState.empty st' ∧
      st'.store.tuple.rows = lateViewer.tuples ++ moveDocument.tuples ∧
      docsLoaded.Owns "docs" "docs_document" := by
  have hrun : ((racedHistory.bind fun st => (st.alone docsModel moveDocument).map fun st' =>
      (st, st')).map fun p => (p.1.store.tuple.rows, p.2.store.tuple.rows)) =
        some (lateViewer.tuples, lateViewer.tuples ++ moveDocument.tuples) := by decide +kernel
  obtain ⟨⟨st, st'⟩, hp, hrows⟩ := map_eq_some_iff.mp hrun
  obtain ⟨st₁, hst, hp⟩ := bind_eq_some_iff.mp hp
  obtain ⟨st₂, hst', heq⟩ := map_eq_some_iff.mp hp
  cases heq
  have hreach := racedHistory_reach hst
  exact ⟨st, st', hreach, congrArg Prod.fst hrows,
    reach_alone hreach hst' (TupleTable.reads_of _) fun _ _ => trivial, congrArg Prod.snd hrows,
    owns_docsDocument⟩

end Kiban
