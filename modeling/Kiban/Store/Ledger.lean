import Kiban.Lib.Fallible
import Kiban.Lib.Journal
import Kiban.Lib.Runs
import Kiban.Store.Store

/-!
# The ledger is the history of the table

Every committed operation appends to `authz.grant_ledger` a faithful record of what it did to
`authz.tuple`, so replaying the ledger from nothing gives the table.
-/

namespace Kiban

open Fallible Journal List

variable {T T' : TupleTable} {t : Tuple} {s s' : Store} {au : Author} {op : StoreOp} {ts : List Tuple}
  {order : RowOrder} {companyId moduleKey : String}

def LedgerRow.entry (r : LedgerRow) : Entry Tuple :=
  match r.op with
  | .grant => .add r.tuple
  | .revoke => .remove r.tuple

def TupleTable.contents (T : TupleTable) : Finset Tuple := T.rows.toFinset

theorem TupleTable.mem_contents : t ∈ T.contents ↔ t ∈ T :=
  mem_toFinset

def replayLedger (rows : List LedgerRow) : Finset Tuple := replay ∅ (rows.map LedgerRow.entry)

/-- What the ledger gained from `s` to `s'` records what happened to the table. -/
def Recorded (s s' : Store) : Prop :=
  ∃ rows, s'.ledger = s.ledger ++ rows ∧ Records s.tuple.contents (rows.map LedgerRow.entry) s'.tuple.contents

theorem Recorded.refl (s : Store) : Recorded s s :=
  ⟨[], (append_nil _).symm, Records.nil _⟩

theorem Recorded.trans {s''} (h : Recorded s s') (h' : Recorded s' s'') : Recorded s s'' := by
  obtain ⟨rows, hrows, hrec⟩ := h
  obtain ⟨rows', hrows', hrec'⟩ := h'
  refine ⟨rows ++ rows', ?_, ?_⟩
  · rw [hrows', hrows, append_assoc]
  · rw [map_append]
    exact hrec.append hrec'

theorem recorded_foldlM {f : Store → Tuple → Except StoreError Store}
    (hf : ∀ s t s', f s t = .ok s' → Recorded s s') (ts : List Tuple)
    (h : ts.foldlM f s = .ok s') : Recorded s s' := by
  induction ts generalizing s with
  | nil =>
    cases h
    exact Recorded.refl _
  | cons t ts ih =>
    rw [foldlM_cons] at h
    obtain ⟨s₁, hs₁, h⟩ := bind_eq_ok.mp h
    exact (hf s t s₁ hs₁).trans (ih h)

/-! ## Statements -/

theorem insertLedger_eq_ok {op} (h : s.insertLedger au op ts = .ok s') :
    s' = { s with ledger := s.ledger ++ ts.map (au.row op) } := by
  unfold Store.insertLedger at h
  split at h
  · exact (Except.ok.inj h).symm
  · cases h

theorem insertTuple_eq_some (h : T.insertTuple t = .ok (some T')) : t ∉ T ∧ T'.contents = insert t T.contents := by
  unfold TupleTable.insertTuple at h
  split at h
  · split at h
    · cases h
    rename_i hin
    split at h
    · cases h
    cases h
    refine ⟨hin, ?_⟩
    ext t'
    rw [TupleTable.mem_contents, TupleTable.mem_insert, Finset.mem_insert, TupleTable.mem_contents, or_comm]
  · cases h

theorem deleteTuple_eq_some (h : T.deleteTuple t = .ok (some T')) : T'.contents = T.contents.erase t := by
  unfold TupleTable.deleteTuple at h
  split at h
  · split at h
    · cases h
      ext t'
      rw [TupleTable.mem_contents, TupleTable.mem_filter, Finset.mem_erase, TupleTable.mem_contents,
        and_comm, decide_eq_true_eq]
    · cases h
  · cases h

theorem deleteTuple_eq_none (h : T.deleteTuple t = .ok none) : t ∉ T := by
  unfold TupleTable.deleteTuple at h
  split at h
  · split at h
    · cases h
    · assumption
  · cases h

theorem map_entry_grant (au : Author) (t : Tuple) : ([t].map (au.row .grant)).map LedgerRow.entry = [.add t] := rfl

theorem map_entry_revoke (au : Author) (ts : List Tuple) :
    (ts.map (au.row .revoke)).map LedgerRow.entry = ts.map .remove := by
  rw [map_map]
  rfl

/-! ## Operations -/

theorem grantTuple_recorded (s : Store) (t : Tuple) (s' : Store)
    (h : Store.grantTuple au s t = .ok s') : Recorded s s' := by
  unfold Store.grantTuple at h
  obtain ⟨T', hT', h⟩ := bind_eq_ok.mp (ite_error_eq_ok.mp h).2
  cases T' with
  | none =>
    cases h
    exact Recorded.refl s
  | some T' =>
    have hins := insertTuple_eq_some hT'
    rw [insertLedger_eq_ok h]
    refine ⟨_, rfl, ?_⟩
    rw [map_entry_grant]
    change Records s.tuple.contents [.add t] T'.contents
    rw [hins.2]
    exact Records.add fun hmem => hins.1 (TupleTable.mem_contents.mp hmem)

theorem revokeObjectRest_recorded {objectType objectId}
    (h : s.revokeObjectRest au order objectType objectId = .ok s') : Recorded s s' := by
  rw [insertLedger_eq_ok h]
  refine ⟨_, rfl, ?_⟩
  rw [map_entry_revoke]
  have hgone : (s.tuple.filter fun t => ¬ t.OnObject objectType objectId).contents =
      s.tuple.contents \ (order.arrange
        (s.tuple.rows.filter fun t => t.OnObject objectType objectId)).toFinset := by
    ext t
    rw [TupleTable.mem_contents, TupleTable.mem_filter, Finset.mem_sdiff, TupleTable.mem_contents,
      mem_toFinset, (order.perm _).mem_iff, List.mem_filter]
    simp only [decide_eq_true_eq]
    exact and_congr_right fun ht => not_congr (and_iff_right ht).symm
  change Records s.tuple.contents _ (s.tuple.filter fun t => ¬ t.OnObject objectType objectId).contents
  rw [hgone]
  exact Records.removes _ _

-- one deletion and its row in the ledger
theorem deleted_recorded (hT' : T'.contents = s.tuple.contents.erase t)
    (h : Store.insertLedger { s with tuple := T' } au .revoke [t] = .ok s') : Recorded s s' := by
  rw [insertLedger_eq_ok h]
  refine ⟨_, rfl, ?_⟩
  rw [map_entry_revoke]
  change Records s.tuple.contents [.remove t] T'.contents
  rw [hT']
  exact Records.remove _ t

theorem revokeTuple_recorded (s : Store) (t : Tuple) (s' : Store)
    (h : Store.revokeTuple au order s t = .ok s') : Recorded s s' := by
  unfold Store.revokeTuple at h
  obtain ⟨T', hT', h⟩ := bind_eq_ok.mp (ite_error_eq_ok.mp h).2
  cases T' with
  | none =>
    cases h
    exact Recorded.refl s
  | some T' =>
    obtain ⟨s₁, hs₁, h⟩ := bind_eq_ok.mp h
    have hfirst : Recorded s s₁ := deleted_recorded (deleteTuple_eq_some hT') hs₁
    by_cases hanc : t.IsAnchorRow
    · rw [if_pos hanc] at h
      exact hfirst.trans (revokeObjectRest_recorded h)
    · rw [if_neg hanc] at h
      cases h
      exact hfirst

theorem grant_recorded (h : s.grant au ts = .ok s') : Recorded s s' :=
  recorded_foldlM grantTuple_recorded ts (ite_error_eq_ok.mp h).2

theorem revoke_recorded (h : s.revoke au order ts = .ok s') : Recorded s s' :=
  recorded_foldlM revokeTuple_recorded ts (ite_error_eq_ok.mp h).2

theorem ensureCompanyModuleAnchor_recorded
    (h : s.ensureCompanyModuleAnchor au companyId moduleKey = .ok s') : Recorded s s' := by
  unfold Store.ensureCompanyModuleAnchor at h
  split at h
  · cases h
    exact Recorded.refl s
  · exact grant_recorded h

theorem ensureDefaultGrant_recorded {res}
    (h : s.ensureDefaultGrant au companyId moduleKey = .ok res) : Recorded s res.1 := by
  unfold Store.ensureDefaultGrant at h
  obtain ⟨s₁, hs₁, h⟩ := bind_eq_ok.mp (ite_error_eq_ok.mp h).2
  have hanc := ensureCompanyModuleAnchor_recorded hs₁
  split at h
  · cases h
  split at h
  · cases h
    exact hanc
  obtain ⟨s₂, hs₂, h⟩ := bind_eq_ok.mp h
  cases h
  -- the claim on the pair is no part of table or ledger
  have hgrant := grant_recorded hs₂
  have hcla : Recorded s₁ s₂ := hgrant
  exact hanc.trans hcla

theorem revokePositionOrMemberTuple_recorded (h : s.revokePositionOrMemberTuple au t = .ok s') : Recorded s s' := by
  unfold Store.revokePositionOrMemberTuple at h
  obtain ⟨T', hT', h⟩ := bind_eq_ok.mp (ite_error_eq_ok.mp (ite_error_eq_ok.mp h).2).2
  cases T' with
  | none =>
    -- a row without a deletion: removing what is absent changes nothing
    have habs : s.tuple.contents = s.tuple.contents.erase t := by
      rw [Finset.erase_eq_of_notMem fun hmem =>
        deleteTuple_eq_none hT' (TupleTable.mem_contents.mp hmem)]
    exact deleted_recorded habs h
  | some T' => exact deleted_recorded (deleteTuple_eq_some hT') h

theorem perform_recorded (h : s.perform op = .ok s') : Recorded s s' := by
  cases op with
  | grant au ts => exact grant_recorded h
  | revoke au order ts => exact revoke_recorded h
  | ensureDefaultGrant au companyId moduleKey =>
    obtain ⟨res, hres, heq⟩ := map_eq_ok.mp h
    rw [← heq]
    exact ensureDefaultGrant_recorded hres
  | ensureCompanyModuleAnchor au companyId moduleKey => exact ensureCompanyModuleAnchor_recorded h
  | revokePositionOrMember au t => exact revokePositionOrMemberTuple_recorded h

theorem commit_recorded (h : s.commit op = some s') : Recorded s s' := by
  unfold Store.commit at h
  cases hper : s.perform op with
  | error e =>
    rw [hper] at h
    cases h
  | ok s₁ =>
    rw [hper] at h
    cases h
    exact perform_recorded hper

/-- After any committed operations from an empty store the ledger replays to the table, and every
grant in it was of a tuple that was not there. -/
theorem replayLedger_eq_contents (ops : List StoreOp) (s : Store)
    (hrun : ops.foldlM Store.commit Store.empty = some s) :
    replayLedger s.ledger = s.tuple.contents ∧
      ∀ before row after, s.ledger = before ++ row :: after → row.op = .grant →
        row.tuple ∉ replayLedger before := by
  have hrec : Recorded Store.empty s :=
    Runs.foldlM_invariant ops hrun (Recorded.refl Store.empty) fun _ _ _ hold hstep =>
      hold.trans (commit_recorded hstep)
  obtain ⟨rows, hrows, hrecs⟩ := hrec
  have hled : s.ledger = rows := hrows
  refine ⟨?_, ?_⟩
  · rw [hled]
    exact hrecs.replay
  intro before row after hsplit hop
  have hfresh := hrecs.fresh
  rw [← hled, hsplit, map_append, map_cons] at hfresh
  have hentry : row.entry = .add row.tuple := by
    unfold LedgerRow.entry
    rw [hop]
  rw [hentry] at hfresh
  exact notMem_replay_of_fresh hfresh

-- a document is anchored and shared, then its anchor is revoked together with a tuple the cascade
-- has already removed by then
def documentAnchor : Tuple := ⟨"docs_document", "1", "company_module", "company_module", "c/docs", ""⟩

def documentViewer : Tuple := ⟨"docs_document", "1", "viewer", "user", "u", ""⟩

def documentOps : List StoreOp :=
  [.ensureDefaultGrant ⟨"admin", ""⟩ "c" "docs",
    .grant ⟨"admin", "r1"⟩ [documentAnchor, documentViewer, documentViewer],
    .ensureDefaultGrant ⟨"admin", ""⟩ "c" "docs",
    .revokePositionOrMember ⟨"admin", ""⟩ ⟨"member", "m", "mapped_user", "user", "u", ""⟩,
    .revoke ⟨"admin", "r2"⟩ ⟨List.reverse, reverse_perm⟩ [documentAnchor, documentViewer]]

theorem replayLedger_eq_contents_document :
    (documentOps.foldlM Store.commit Store.empty).map (fun s => s.ledger.map LedgerRow.op) =
      some [.grant, .grant, .grant, .grant, .revoke, .revoke, .revoke] ∧
    ∃ s, documentOps.foldlM Store.commit Store.empty = some s ∧ replayLedger s.ledger = s.tuple.contents := by
  have hops : (documentOps.foldlM Store.commit Store.empty).map (fun s => s.ledger.map LedgerRow.op) =
      some [.grant, .grant, .grant, .grant, .revoke, .revoke, .revoke] := by decide
  obtain ⟨s, hrun, _⟩ := Option.map_eq_some_iff.mp hops
  exact ⟨hops, s, hrun, (replayLedger_eq_contents documentOps s hrun).1⟩

end Kiban
