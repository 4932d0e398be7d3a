import Kiban.Engine.BaseModel
import Kiban.Store.Ledger

/-!
# What the operations do to the table

A grant adds the granted tuples; a revoke takes the revoked ones and, with an anchor, everything else
on its object.  The platform's own writers stay on base types.
-/

namespace Kiban

open Fallible List

variable {T T' : TupleTable} {t t' : Tuple} {au : Author} {s s' : Store} {ts : List Tuple} {order : RowOrder}

theorem insertTuple_eq_none (h : T.insertTuple t = .ok none) : t ∈ T := by
  unfold TupleTable.insertTuple at h
  split at h
  · split at h
    · assumption
    · split at h <;> cases h
  · cases h

theorem deleteTuple_some_mem (h : T.deleteTuple t = .ok (some T')) : t ∈ T := by
  unfold TupleTable.deleteTuple at h
  split at h
  · split at h
    · assumption
    · cases h
  · cases h

theorem mem_of_contents_eq_insert (h : T'.contents = insert t T.contents) : t' ∈ T' ↔ t' ∈ T ∨ t' = t := by
  rw [← TupleTable.mem_contents, h, Finset.mem_insert, TupleTable.mem_contents, or_comm]

theorem mem_of_contents_eq_erase (h : T'.contents = T.contents.erase t) : t' ∈ T' ↔ t' ∈ T ∧ t' ≠ t := by
  rw [← TupleTable.mem_contents, h, Finset.mem_erase, TupleTable.mem_contents, and_comm]

/-! ## `Grant` -/

theorem mem_grantTuple (h : Store.grantTuple au s t = .ok s') (t' : Tuple) :
    t' ∈ s'.tuple ↔ t' ∈ s.tuple ∨ t' = t := by
  unfold Store.grantTuple at h
  obtain ⟨T', hT', h⟩ := bind_eq_ok.mp (ite_error_eq_ok.mp h).2
  cases T' with
  | none =>
    have hin := insertTuple_eq_none hT'
    cases h
    exact ⟨.inl, fun hor => hor.elim id fun heq => heq ▸ hin⟩
  | some T' =>
    rw [insertLedger_eq_ok h]
    exact mem_of_contents_eq_insert (insertTuple_eq_some hT').2

theorem mem_foldlM_grantTuple (ts : List Tuple) (h : ts.foldlM (Store.grantTuple au) s = .ok s')
    (t' : Tuple) : t' ∈ s'.tuple ↔ t' ∈ s.tuple ∨ t' ∈ ts := by
  induction ts generalizing s with
  | nil =>
    cases h
    simp
  | cons t ts ih =>
    rw [foldlM_cons] at h
    obtain ⟨s₁, hs₁, h⟩ := bind_eq_ok.mp h
    rw [ih h, mem_grantTuple hs₁, mem_cons, or_assoc]

theorem mem_grant (h : s.grant au ts = .ok s') (t' : Tuple) : t' ∈ s'.tuple ↔ t' ∈ s.tuple ∨ t' ∈ ts :=
  mem_foldlM_grantTuple ts (ite_error_eq_ok.mp h).2 t'

/-! ## `Revoke` -/

/-- Revoking `t` takes `t'` away: it is `t`, or `t` is the anchor `t'` depends on. -/
def TupleTable.TakenBy (T : TupleTable) (t t' : Tuple) : Prop :=
  t' = t ∨ (t ∈ T ∧ t.IsAnchorRow ∧ t'.OnObject t.objectType t.objectId)

theorem mem_revokeObjectRest {objectType objectId}
    (h : s.revokeObjectRest au order objectType objectId = .ok s') (t' : Tuple) :
    t' ∈ s'.tuple ↔ t' ∈ s.tuple ∧ ¬ t'.OnObject objectType objectId := by
  rw [insertLedger_eq_ok h]
  change t' ∈ s.tuple.filter (fun t => ¬ t.OnObject objectType objectId) ↔ _
  rw [TupleTable.mem_filter, decide_eq_true_eq]

theorem mem_revokeTuple (h : Store.revokeTuple au order s t = .ok s') (t' : Tuple) :
    t' ∈ s'.tuple ↔ t' ∈ s.tuple ∧ ¬ s.tuple.TakenBy t t' := by
  unfold Store.revokeTuple at h
  obtain ⟨T', hT', h⟩ := bind_eq_ok.mp (ite_error_eq_ok.mp h).2
  cases T' with
  | none =>
    have habs := deleteTuple_eq_none hT'
    cases h
    refine ⟨fun hin => ⟨hin, ?_⟩, And.left⟩
    rintro (rfl | ⟨hin', _⟩)
    · exact habs hin
    · exact habs hin'
  | some T' =>
    obtain ⟨s₁, hs₁, h⟩ := bind_eq_ok.mp h
    have hmem : t' ∈ s₁.tuple ↔ t' ∈ s.tuple ∧ t' ≠ t := by
      rw [insertLedger_eq_ok hs₁]
      exact mem_of_contents_eq_erase (deleteTuple_eq_some hT')
    by_cases hanc : t.IsAnchorRow
    · rw [if_pos hanc] at h
      rw [mem_revokeObjectRest h, hmem, and_assoc]
      have hin := deleteTuple_some_mem hT'
      simp only [TupleTable.TakenBy, hin, hanc, true_and, not_or, ne_eq]
    · rw [if_neg hanc] at h
      cases h
      rw [hmem]
      simp only [TupleTable.TakenBy, hanc, false_and, and_false, or_false, ne_eq]

-- an anchor the first revocation already took can take nothing that is still there
theorem takenBy_of_revoked {T₁ : TupleTable} {u : Tuple}
    (hT₁ : ∀ v, v ∈ T₁ ↔ v ∈ T ∧ ¬ T.TakenBy t v) (ht' : ¬ T.TakenBy t t') :
    T₁.TakenBy u t' ↔ T.TakenBy u t' := by
  unfold TupleTable.TakenBy
  refine or_congr_right ⟨fun h => ⟨((hT₁ u).mp h.1).1, h.2⟩, fun h => ⟨(hT₁ u).mpr ⟨h.1, ?_⟩, h.2⟩⟩
  rintro (rfl | ⟨hin, hanc, hobj⟩)
  · exact ht' (.inr h)
  · exact ht' (.inr ⟨hin, hanc, h.2.2.1.trans hobj.1, h.2.2.2.trans hobj.2⟩)

theorem mem_foldlM_revokeTuple (ts : List Tuple)
    (h : ts.foldlM (Store.revokeTuple au order) s = .ok s') (t' : Tuple) :
    t' ∈ s'.tuple ↔ t' ∈ s.tuple ∧ ∀ t ∈ ts, ¬ s.tuple.TakenBy t t' := by
  induction ts generalizing s with
  | nil =>
    cases h
    simp
  | cons t ts ih =>
    rw [foldlM_cons] at h
    obtain ⟨s₁, hs₁, h⟩ := bind_eq_ok.mp h
    rw [ih h, mem_revokeTuple hs₁, forall_mem_cons, and_assoc]
    refine and_congr_right fun _ => and_congr_right fun hkept => ?_
    exact forall₂_congr fun u _ => not_congr (takenBy_of_revoked (mem_revokeTuple hs₁) hkept)

theorem mem_revoke (h : s.revoke au order ts = .ok s') (t' : Tuple) :
    t' ∈ s'.tuple ↔ t' ∈ s.tuple ∧ ∀ t ∈ ts, ¬ s.tuple.TakenBy t t' :=
  mem_foldlM_revokeTuple ts (ite_error_eq_ok.mp h).2 t'

/-! ## Operations on base types -/

/-- The operation names objects of base types only, as those of org do. -/
def StoreOp.OnBaseTypes : StoreOp → Prop
  | .grant _ ts => ∀ t ∈ ts, isBaseType t.objectType = true
  | .revoke _ _ ts => ∀ t ∈ ts, isBaseType t.objectType = true
  | .ensureDefaultGrant _ _ _ => True
  | .ensureCompanyModuleAnchor _ _ _ => True
  | .revokePositionOrMember _ _ => True

theorem isBaseType_company : isBaseType "company" = true := isBaseType_iff.mpr (by decide)

theorem isBaseType_companyModule : isBaseType "company_module" = true :=
  isBaseType_iff.mpr (by decide)

theorem isBaseType_of_orgOwned (h : t.OrgOwned) : isBaseType t.objectType = true := by
  rw [isBaseType_iff]
  rcases h with h | h | h | h | h | h <;> rw [h.1] <;> decide

section

variable {s s' : Store} {au : Author} {t : Tuple} {ts : List Tuple} {companyId moduleKey : String}

theorem mem_grant_of_base (hts : ∀ t ∈ ts, isBaseType t.objectType = true)
    (h : s.grant au ts = .ok s') (ht : isBaseType t.objectType = false) :
    t ∈ s'.tuple ↔ t ∈ s.tuple := by
  have hout : t ∉ ts := fun hin => Bool.false_ne_true (ht.symm.trans (hts t hin))
  rw [mem_grant h, or_iff_left hout]

theorem mem_revoke_of_base {order} (hts : ∀ t ∈ ts, isBaseType t.objectType = true)
    (h : s.revoke au order ts = .ok s') (ht : isBaseType t.objectType = false) :
    t ∈ s'.tuple ↔ t ∈ s.tuple := by
  rw [mem_revoke h]
  refine and_iff_left fun u hu htaken => ?_
  have hbase := hts u hu
  rcases htaken with rfl | ⟨_, _, hobj⟩
  · exact Bool.false_ne_true (ht.symm.trans hbase)
  · rw [← hobj.1, ht] at hbase
    exact Bool.false_ne_true hbase

theorem mem_ensureCompanyModuleAnchor (h : s.ensureCompanyModuleAnchor au companyId moduleKey = .ok s')
    (ht : isBaseType t.objectType = false) : t ∈ s'.tuple ↔ t ∈ s.tuple := by
  unfold Store.ensureCompanyModuleAnchor at h
  split at h
  · cases h
    rfl
  · have hbase : ∀ u ∈ [companyAnchor companyId moduleKey], isBaseType u.objectType = true :=
      forall_mem_singleton.mpr isBaseType_companyModule
    exact mem_grant_of_base hbase h ht

theorem mem_ensureDefaultGrant {res} (h : s.ensureDefaultGrant au companyId moduleKey = .ok res)
    (ht : isBaseType t.objectType = false) : t ∈ res.1.tuple ↔ t ∈ s.tuple := by
  unfold Store.ensureDefaultGrant at h
  obtain ⟨s₁, hs₁, h⟩ := bind_eq_ok.mp (ite_error_eq_ok.mp h).2
  rw [← mem_ensureCompanyModuleAnchor hs₁ ht]
  split at h
  · cases h
  split at h
  · cases h
    rfl
  obtain ⟨s₂, hs₂, h⟩ := bind_eq_ok.mp h
  cases h
  have hbase : ∀ u ∈ [systemAnchor companyId moduleKey], isBaseType u.objectType = true :=
    forall_mem_singleton.mpr isBaseType_companyModule
  have hgrant := mem_grant_of_base hbase hs₂ ht
  exact hgrant

theorem mem_revokePositionOrMemberTuple {u} (h : s.revokePositionOrMemberTuple au u = .ok s')
    (t : Tuple) : t ∈ s'.tuple ↔ t ∈ s.tuple ∧ t ≠ u := by
  unfold Store.revokePositionOrMemberTuple at h
  have hok := ite_error_eq_ok.mp (ite_error_eq_ok.mp h).2
  obtain ⟨T', hT', h⟩ := bind_eq_ok.mp hok.2
  cases T' with
  | none =>
    rw [insertLedger_eq_ok h]
    refine (and_iff_left_of_imp fun hin heq => ?_).symm
    exact deleteTuple_eq_none hT' (heq ▸ hin)
  | some T' =>
    rw [insertLedger_eq_ok h]
    exact mem_of_contents_eq_erase (deleteTuple_eq_some hT')

theorem mem_revokePositionOrMemberTuple_of_base {u}
    (h : s.revokePositionOrMemberTuple au u = .ok s') (ht : isBaseType t.objectType = false) :
    t ∈ s'.tuple ↔ t ∈ s.tuple := by
  rw [mem_revokePositionOrMemberTuple h]
  refine and_iff_left ?_
  rintro rfl
  unfold Store.revokePositionOrMemberTuple at h
  have howned := not_not.mp (ite_error_eq_ok.mp (ite_error_eq_ok.mp h).2).1
  exact Bool.false_ne_true (ht.symm.trans (isBaseType_of_orgOwned howned))

theorem mem_perform_of_base {op} (hop : op.OnBaseTypes) (h : s.perform op = .ok s')
    (ht : isBaseType t.objectType = false) : t ∈ s'.tuple ↔ t ∈ s.tuple := by
  cases op with
  | grant au ts => exact mem_grant_of_base hop h ht
  | revoke au order ts => exact mem_revoke_of_base hop h ht
  | ensureDefaultGrant au companyId moduleKey =>
    obtain ⟨res, hres, heq⟩ := map_eq_ok.mp h
    rw [← heq]
    exact mem_ensureDefaultGrant hres ht
  | ensureCompanyModuleAnchor au companyId moduleKey => exact mem_ensureCompanyModuleAnchor h ht
  | revokePositionOrMember au t => exact mem_revokePositionOrMemberTuple_of_base h ht

end

end Kiban
