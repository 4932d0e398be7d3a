import Kiban.Lib.Transactions
import Kiban.Store.Effects

/-!
# The store's statements

`Grant`, `Revoke` and `EnsureDefaultGrant` statement by statement, as they run inside a caller's
transaction while other transactions run: the rows each statement waits for and locks, and what it
writes.  Run alone, each program is the operation of the store (`run_grant`, `run_revoke`, …).
-/

namespace Kiban

open Transactions List

variable {T : TupleTable} {t t' : Tuple}

inductive AuthzLock where
  | tuple (t : Tuple)
  -- an entry of the index `tuple_one_anchor_per_object`
  | anchor (objectType objectId : String)
  | defaultGrant (companyId moduleKey : String)
  | platformRole
deriving DecidableEq

inductive AuthzStmt where
  | insertTuple (t : Tuple)
  | deleteTuple (t : Tuple)
  | deleteObjectTuples (objectType objectId : String)
  | revokePositionOrMemberTuple (t : Tuple)
  | insertLedger
  | anchorPrecheck (companyId moduleKey : String)
  | insertDefaultGrant (companyId moduleKey : String)
  | platformRoleLock
  | tupleHeld (t : Tuple)
  | countSuperadmins
  | audit
deriving DecidableEq

inductive AuthzWrite where
  | insertTuple (t : Tuple)
  | deleteTuple (t : Tuple)
  | insertLedger (row : LedgerRow)
  | insertDefaultGrant (companyId moduleKey : String)
deriving DecidableEq

def TupleTable.put (T : TupleTable) (t : Tuple) : TupleTable :=
  match T.insertTuple t with
  | .ok (some T') => T'
  | _ => T

theorem mem_put (h : t' ∈ T) : t' ∈ T.put t := by
  unfold TupleTable.put
  split
  · rename_i T' hT'
    exact (mem_of_contents_eq_insert (insertTuple_eq_some hT').2).mpr (.inl h)
  · exact h

theorem mem_of_mem_put (h : t' ∈ T.put t) : t' ∈ T ∨ t' = t := by
  unfold TupleTable.put at h
  split at h
  · rename_i T' hT'
    exact (mem_of_contents_eq_insert (insertTuple_eq_some hT').2).mp h
  · exact .inl h

theorem mem_put_self (htext : t.IsText) (hanc : ¬ t.IsAnchorRow) : t ∈ T.put t := by
  unfold TupleTable.put TupleTable.insertTuple
  rw [dif_pos htext]
  by_cases hin : t ∈ T
  · rw [dif_pos hin]
    exact hin
  · rw [dif_neg hin, dif_neg fun h => hanc h.1]
    exact TupleTable.mem_insert.mpr (.inr rfl)

def Store.apply (s : Store) : AuthzWrite → Store
  | .insertTuple t => { s with tuple := s.tuple.put t }
  | .deleteTuple t => { s with tuple := s.tuple.filter (· ≠ t) }
  | .insertLedger row => { s with ledger := s.ledger ++ [row] }
  | .insertDefaultGrant companyId moduleKey =>
    if (companyId, moduleKey) ∈ s.defaultGrant then s
    else { s with defaultGrant := s.defaultGrant ++ [(companyId, moduleKey)] }

abbrev AuthzTx (α : Type) := Prog Store AuthzWrite AuthzLock AuthzStmt StoreError α

def Tuple.locks (t : Tuple) : List AuthzLock :=
  if t.IsAnchorRow then [.tuple t, .anchor t.objectType t.objectId] else [.tuple t]

namespace AuthzTx

/-- `insertTupleSQL`, with the number of rows as a flag.  It waits for whoever is writing the row or
its index entry, and locks only what it writes. -/
def insertTuple (t : Tuple) : AuthzTx Bool :=
  .exec (.insertTuple t) (fun _ => t.locks) (fun s => if t ∈ s.tuple then [] else t.locks) fun s =>
    match s.tuple.insertTuple t with
    | .error e => .error e
    | .ok none => .ok (false, [])
    | .ok (some _) => .ok (true, [.insertTuple t])

-- a DELETE waits only for a row it sees
def deleteTuple (t : Tuple) : AuthzTx Bool :=
  .exec (.deleteTuple t) (fun _ => []) (fun s => if t ∈ s.tuple then t.locks else []) fun s =>
    match s.tuple.deleteTuple t with
    | .error e => .error e
    | .ok none => .ok (false, [])
    | .ok (some _) => .ok (true, [.deleteTuple t])

def deleteObjectTuples (order : RowOrder) (objectType objectId : String) : AuthzTx (List Tuple) :=
  .exec (.deleteObjectTuples objectType objectId) (fun _ => [])
    (fun s => (s.tuple.rows.filter fun t => t.OnObject objectType objectId).flatMap Tuple.locks)
    fun s =>
      let gone := (s.tuple.deleteObjectTuples order objectType objectId).2
      .ok (gone, gone.map .deleteTuple)

/-- The ledger rows of one operation; nothing reads or locks them. -/
def insertLedger (au : Author) (op : GrantOp) (ts : List Tuple) : AuthzTx Unit :=
  .exec .insertLedger (fun _ => []) (fun _ => []) fun _ =>
    if au.IsText ∨ ts = [] then .ok ((), ts.map fun t => .insertLedger (au.row op t))
    else .error invalidText

def grantTuple (au : Author) (t : Tuple) : AuthzTx Unit :=
  if t.HasEmptyField then .fail (.emptyField .grant t)
  else do
    let inserted ← insertTuple t
    if inserted then insertLedger au .grant [t] else pure ()

def revokeObjectRest (au : Author) (order : RowOrder) (objectType objectId : String) :
    AuthzTx Unit := do
  let gone ← deleteObjectTuples order objectType objectId
  insertLedger au .revoke gone

def revokeTuple (au : Author) (order : RowOrder) (t : Tuple) : AuthzTx Unit :=
  if t.HasEmptyField then .fail (.emptyField .revoke t)
  else do
    let deleted ← deleteTuple t
    if deleted then do
      insertLedger au .revoke [t]
      if t.IsAnchorRow then revokeObjectRest au order t.objectType t.objectId else pure ()
    else pure ()

def grant (au : Author) (ts : List Tuple) : AuthzTx Unit :=
  if ts = [] then .fail (.noTuples .grant) else ts.forM (grantTuple au)

def revoke (au : Author) (order : RowOrder) (ts : List Tuple) : AuthzTx Unit :=
  if ts = [] then .fail (.noTuples .revoke) else ts.forM (revokeTuple au order)

def ensureCompanyModuleAnchor (au : Author) (companyId moduleKey : String) : AuthzTx Unit := do
  let existed ← .read (.anchorPrecheck companyId moduleKey) fun s =>
    .ok (decide (companyAnchor companyId moduleKey ∈ s.tuple))
  if existed then pure () else grant au [companyAnchor companyId moduleKey]

/-- `INSERT … ON CONFLICT (company_id, module_key) DO NOTHING RETURNING company_id` -/
def insertDefaultGrant (au : Author) (companyId moduleKey : String) : AuthzTx Bool :=
  .exec (.insertDefaultGrant companyId moduleKey) (fun _ => [.defaultGrant companyId moduleKey])
    (fun s => if (companyId, moduleKey) ∈ s.defaultGrant then [] else [.defaultGrant companyId moduleKey])
    fun s =>
      if ¬ IsText au.actor then .error invalidText
      else if (companyId, moduleKey) ∈ s.defaultGrant then .ok (false, [])
      else .ok (true, [.insertDefaultGrant companyId moduleKey])

def ensureDefaultGrant (au : Author) (companyId moduleKey : String) : AuthzTx Bool :=
  if companyId = "" ∨ moduleKey = "" then .fail .idsRequired
  else do
    ensureCompanyModuleAnchor au companyId moduleKey
    let claimed ← insertDefaultGrant au companyId moduleKey
    if claimed then do
      grant au [systemAnchor companyId moduleKey]
      return true
    else return false

/-- The function in the database deletes and writes the ledger in one statement. -/
def revokePositionOrMemberTuple (au : Author) (t : Tuple) : AuthzTx Unit :=
  if t.HasEmptyField then .fail (.emptyField .revoke t)
  else
    .exec (.revokePositionOrMemberTuple t) (fun _ => []) (fun s => if t ∈ s.tuple then t.locks else []) fun s =>
        if ¬ t.OrgOwned then .error (.shapeNotPermitted t)
        else
          match s.tuple.deleteTuple t with
          | .error e => .error e
          | .ok deleted =>
            if au.IsText then
              .ok ((), (if deleted.isSome then [.deleteTuple t] else []) ++ [.insertLedger (au.row .revoke t)])
            else .error invalidText

/-! ## The programs alone -/

section Run

variable {au : Author} {order : RowOrder} {s : Store} {t : Tuple}

theorem apply_insertTuple {T} (h : s.tuple.insertTuple t = .ok (some T)) :
    s.apply (.insertTuple t) = { s with tuple := T } := by
  simp only [Store.apply, TupleTable.put, h]

theorem deleteTuple_eq_filter {T T' : TupleTable} (h : T.deleteTuple t = .ok (some T')) :
    T' = T.filter (· ≠ t) := by
  unfold TupleTable.deleteTuple at h
  split at h
  · split at h
    · exact (Option.some.inj (Except.ok.inj h)).symm
    · cases h
  · cases h

theorem foldl_insertLedger (rows : List LedgerRow) (s : Store) :
    (rows.map AuthzWrite.insertLedger).foldl Store.apply s = { s with ledger := s.ledger ++ rows } := by
  induction rows generalizing s with
  | nil => simp
  | cons row rows ih => simp [ih, Store.apply]

theorem filter_filter_ne (T : TupleTable) (t : Tuple) (ts : List Tuple) :
    (T.filter (· ≠ t)).filter (· ∉ ts) = T.filter (· ∉ t :: ts) := by
  unfold TupleTable.filter
  simp only [filter_filter, TupleTable.mk.injEq, Table.mk.injEq, mem_cons, not_or]
  exact filter_congr fun r _ => by simp [Bool.and_comm]

theorem foldl_deleteTuple (ts : List Tuple) (s : Store) : (ts.map AuthzWrite.deleteTuple).foldl Store.apply s =
      { s with tuple := s.tuple.filter (· ∉ ts) } := by
  induction ts generalizing s with
  | nil => simp [TupleTable.filter]
  | cons t ts ih =>
    rw [map_cons, foldl_cons, ih]
    simp only [Store.apply, filter_filter_ne]

theorem filter_gone (T : TupleTable) (objectType objectId : String) :
    T.filter (· ∉ (T.deleteObjectTuples order objectType objectId).2) =
      (T.deleteObjectTuples order objectType objectId).1 := by
  unfold TupleTable.deleteObjectTuples TupleTable.filter
  simp only [TupleTable.mk.injEq, Table.mk.injEq]
  refine filter_congr fun r hr => ?_
  rw [decide_eq_decide, (order.perm _).mem_iff, List.mem_filter]
  simp [hr]

theorem run_insertLedger (op : GrantOp) (ts : List Tuple) : (insertLedger au op ts).run Store.apply s =
      (s.insertLedger au op ts).map fun s' => ((), s') := by
  unfold insertLedger Store.insertLedger
  rw [Prog.run_exec]
  split
  · change Except.ok ((), _) = Except.ok ((), _)
    rw [← foldl_insertLedger, map_map]
    rfl
  · rfl

theorem run_grantTuple :
    (grantTuple au t).run Store.apply s = (Store.grantTuple au s t).map fun s' => ((), s') := by
  unfold grantTuple Store.grantTuple
  split
  · rfl
  rw [Prog.run_bind, insertTuple, Prog.run_exec]
  cases hins : s.tuple.insertTuple t with
  | error e => rfl
  | ok T =>
    cases T with
    | none => rfl
    | some T =>
      change (insertLedger au .grant [t]).run Store.apply (s.apply (.insertTuple t)) = _
      rw [run_insertLedger, apply_insertTuple hins]
      rfl

theorem run_revokeObjectRest (objectType objectId : String) :
    (revokeObjectRest au order objectType objectId).run Store.apply s =
      (s.revokeObjectRest au order objectType objectId).map fun s' => ((), s') := by
  unfold revokeObjectRest Store.revokeObjectRest
  rw [Prog.run_bind, deleteObjectTuples, Prog.run_exec]
  change (insertLedger au .revoke (s.tuple.deleteObjectTuples order objectType objectId).2).run
    Store.apply (((s.tuple.deleteObjectTuples order objectType objectId).2.map
      AuthzWrite.deleteTuple).foldl Store.apply s) = _
  rw [foldl_deleteTuple, filter_gone, run_insertLedger]

theorem run_revokeTuple : (revokeTuple au order t).run Store.apply s =
      (Store.revokeTuple au order s t).map fun s' => ((), s') := by
  unfold revokeTuple Store.revokeTuple
  split
  · rfl
  rw [Prog.run_bind, deleteTuple, Prog.run_exec]
  cases hdel : s.tuple.deleteTuple t with
  | error e => rfl
  | ok T =>
    cases T with
    | none => rfl
    | some T =>
      change (insertLedger au .revoke [t] >>= fun _ => if t.IsAnchorRow then
        revokeObjectRest au order t.objectType t.objectId else pure ()).run Store.apply
          { s with tuple := s.tuple.filter (· ≠ t) } = _
      rw [Prog.run_bind, run_insertLedger, ← deleteTuple_eq_filter hdel]
      cases hled : Store.insertLedger { s with tuple := T } au .revoke [t] with
      | error e => simp [hled, Except.map, bind, Except.bind]
      | ok s₁ =>
        simp only [hled, Except.map, bind, Except.bind]
        split
        · exact run_revokeObjectRest t.objectType t.objectId
        · rfl

theorem run_forM {α : Type} {f : α → AuthzTx Unit} {g : Store → α → Except StoreError Store}
    (h : ∀ t s, (f t).run Store.apply s = (g s t).map fun s' => ((), s')) (ts : List α)
    (s : Store) : (ts.forM f).run Store.apply s = (ts.foldlM g s).map fun s' => ((), s') := by
  induction ts generalizing s with
  | nil => rfl
  | cons t ts ih =>
    change (f t >>= fun _ => ts.forM f).run Store.apply s = _
    rw [Prog.run_bind, h, foldlM_cons]
    cases g s t with
    | error e => rfl
    | ok s₁ => exact ih s₁

theorem run_grant (ts : List Tuple) : (grant au ts).run Store.apply s = (s.grant au ts).map fun s' => ((), s') := by
  unfold grant Store.grant
  split
  · rfl
  · exact run_forM (fun _ _ => run_grantTuple) ts s

theorem run_revoke (ts : List Tuple) :
    (revoke au order ts).run Store.apply s = (s.revoke au order ts).map fun s' => ((), s') := by
  unfold revoke Store.revoke
  split
  · rfl
  · exact run_forM (fun _ _ => run_revokeTuple) ts s

theorem run_revokePositionOrMemberTuple : (revokePositionOrMemberTuple au t).run Store.apply s =
      (s.revokePositionOrMemberTuple au t).map fun s' => ((), s') := by
  unfold revokePositionOrMemberTuple Store.revokePositionOrMemberTuple
  split
  · rfl
  rw [Prog.run_exec]
  split
  · rfl
  cases hdel : s.tuple.deleteTuple t with
  | error e => rfl
  | ok T =>
    cases T with
    | none =>
      simp only [Store.insertLedger]
      by_cases hau : au.IsText
      · simp [hau, Except.map, bind, Except.bind, Store.apply]
      · simp [hau, Except.map, bind, Except.bind]
    | some T =>
      rw [deleteTuple_eq_filter hdel]
      simp only [Store.insertLedger]
      by_cases hau : au.IsText
      · simp [hau, Except.map, bind, Except.bind, Store.apply]
      · simp [hau, Except.map, bind, Except.bind]

theorem run_ensureCompanyModuleAnchor (companyId moduleKey : String) :
    (ensureCompanyModuleAnchor au companyId moduleKey).run Store.apply s =
      (s.ensureCompanyModuleAnchor au companyId moduleKey).map fun s' => ((), s') := by
  unfold ensureCompanyModuleAnchor Store.ensureCompanyModuleAnchor
  rw [Prog.run_bind, Prog.run_read]
  by_cases hin : companyAnchor companyId moduleKey ∈ s.tuple
  · simp [hin, Except.map, bind, Except.bind, Prog.run_pure]
  · simp only [hin, decide_false, Except.map, bind, Except.bind, if_false, Bool.false_eq_true]
    exact run_grant [companyAnchor companyId moduleKey]

theorem run_ensureDefaultGrant (companyId moduleKey : String) :
    (ensureDefaultGrant au companyId moduleKey).run Store.apply s =
      (s.ensureDefaultGrant au companyId moduleKey).map fun r => (r.2, r.1) := by
  unfold ensureDefaultGrant Store.ensureDefaultGrant
  split
  · rfl
  rw [Prog.run_bind, run_ensureCompanyModuleAnchor]
  cases s.ensureCompanyModuleAnchor au companyId moduleKey with
  | error e => rfl
  | ok s₁ =>
    change (insertDefaultGrant au companyId moduleKey >>= _).run Store.apply s₁ = _
    rw [Prog.run_bind, insertDefaultGrant, Prog.run_exec]
    by_cases hau : IsText au.actor
    · by_cases hcla : (companyId, moduleKey) ∈ s₁.defaultGrant
      · simp [hau, hcla, Except.map, bind, Except.bind, Prog.run, pure, Except.pure]
      simp only [hau, hcla, not_true_eq_false, if_false, bind, Except.bind, Except.map]
      change (grant au [systemAnchor companyId moduleKey] >>= fun _ => pure true).run Store.apply
        (s₁.apply (.insertDefaultGrant companyId moduleKey)) = _
      rw [Prog.run_bind, run_grant]
      simp only [Store.apply, hcla, if_false]
      cases Store.grant { s₁ with defaultGrant := s₁.defaultGrant ++ [(companyId, moduleKey)] } au
          [systemAnchor companyId moduleKey] with
      | error e => rfl
      | ok s₂ => rfl
    · simp [hau, Except.map, bind, Except.bind, throw, throwThe, MonadExceptOf.throw]

def ofOp : StoreOp → AuthzTx Unit
  | .grant au ts => grant au ts
  | .revoke au order ts => revoke au order ts
  | .ensureDefaultGrant au companyId moduleKey => do
    let _ ← ensureDefaultGrant au companyId moduleKey
  | .ensureCompanyModuleAnchor au companyId moduleKey => ensureCompanyModuleAnchor au companyId moduleKey
  | .revokePositionOrMember au t => revokePositionOrMemberTuple au t

theorem run_ofOp (op : StoreOp) (s : Store) :
    (ofOp op).run Store.apply s = (s.perform op).map fun s' => ((), s') := by
  cases op with
  | grant au ts => exact run_grant ts
  | revoke au order ts => exact run_revoke ts
  | ensureDefaultGrant au companyId moduleKey =>
    change (ensureDefaultGrant au companyId moduleKey >>= fun _ => pure ()).run Store.apply s = _
    rw [Prog.run_bind, run_ensureDefaultGrant, Store.perform]
    cases s.ensureDefaultGrant au companyId moduleKey with
    | error e => rfl
    | ok r => rfl
  | ensureCompanyModuleAnchor au companyId moduleKey => exact run_ensureCompanyModuleAnchor companyId moduleKey
  | revokePositionOrMember au t => exact run_revokePositionOrMemberTuple

/-- Statement by statement, a transaction of store operations does what the operations do one after the other, and
fails where one of them does. -/
theorem run_ops_refines (ops : List StoreOp) (s : Store) :
    (ops.forM ofOp).run Store.apply s = (ops.foldlM Store.perform s).map fun s' => ((), s') :=
  run_forM run_ofOp ops s

end Run

theorem writes_insertLedger {P : AuthzWrite → Prop} {au op ts} (h : ∀ row, P (.insertLedger row)) :
    (insertLedger au op ts).Writes P := by
  refine Prog.writes_exec fun s r hr w hw => ?_
  split at hr
  · cases hr
    obtain ⟨t, _, rfl⟩ := mem_map.mp hw
    exact h _
  · cases hr

/-! ## The programs inside a transaction that runs beside others -/

section Lifted

variable {σ ω κ ℓ ε : Type} {part : σ → Store} {write : AuthzWrite → ω} {key : AuthzLock → κ}
  {name : AuthzStmt → ℓ} {err : StoreError → ε} {db : Schema σ ω} {Inv : σ → Prop}
  {R : Option ℓ → Trail ω κ ℓ → σ → σ → Prop} {tr : Trail ω κ ℓ} {c : σ} {t : Tuple} {au : Author}
  {post : Unit → Trail ω κ ℓ → σ → Prop}

theorem insertTuple_wp {post : Bool → Trail ω κ ℓ → σ → Prop}
    (hold : Yields db Inv R post tr c (name (.insertTuple t)) (fun s => t ∈ (part s).tuple) false [] [])
    (hnew : Yields db Inv R post tr c (name (.insertTuple t)) (fun s => t ∉ (part s).tuple ∧ t.IsText) true
      [write (.insertTuple t)] (t.locks.map key)) :
    ((insertTuple t).lift part write key name err).wp db Inv R post tr c := by
  unfold insertTuple
  refine Prog.wp_lift_exec fun c' a new hR hInv hans => ?_
  cases hins : (part (db.view tr.writes c')).tuple.insertTuple t with
  | error e =>
    rw [hins] at hans
    cases hans
  | ok T =>
    rw [hins] at hans
    cases T with
    | none =>
      cases hans
      have hin := insertTuple_eq_none hins
      rw [if_pos hin]
      exact hold c' hR hInv hin
    | some T =>
      cases hans
      obtain ⟨hout, hcon⟩ := insertTuple_eq_some hins
      rw [if_neg hout]
      exact hnew c' hR hInv ⟨hout, T.text t ((mem_of_contents_eq_insert hcon).mpr (.inr rfl))⟩

theorem insertLedger_wp {op ts} (h : ∀ c', R (some (name .insertLedger)) tr c c' → Inv c' →
      post () (tr.extend (ts.map (fun t => write (.insertLedger (au.row op t)))) [] (name .insertLedger)) c') :
    ((insertLedger au op ts).lift part write key name err).wp db Inv R post tr c := by
  unfold insertLedger
  refine Prog.wp_lift_exec fun c' a new hR hInv hans => ?_
  split at hans
  · cases hans
    rw [map_map]
    exact h c' hR hInv
  · cases hans

/-- `Grant` of one tuple: the row is there already, or is written and recorded. -/
theorem grant_wp
    (hold : Yields db Inv R post tr c (name (.insertTuple t)) (fun s => t ∈ (part s).tuple) () [] [])
    (hnew : Yields db Inv R (fun _ => ((insertLedger au .grant [t]).lift part write key name err).wp db Inv R post)
      tr c (name (.insertTuple t)) (fun s => t ∉ (part s).tuple ∧ t.IsText) () [write (.insertTuple t)]
      (t.locks.map key)) :
    ((grant au [t]).lift part write key name err).wp db Inv R post tr c := by
  unfold grant grantTuple
  rw [if_neg (cons_ne_nil t [])]
  change (((if t.HasEmptyField then Prog.fail (.emptyField .grant t) else do
    let inserted ← insertTuple t
    if inserted then insertLedger au .grant [t] else pure ()) >>= fun _ => pure ()).lift part write key
      name err).wp db Inv R post tr c
  by_cases hempty : t.HasEmptyField
  · rw [if_pos hempty]
    exact Prog.wp_fail _
  rw [if_neg hempty]
  simp only [Prog.lift_bind, Prog.wp_bind]
  change ((insertTuple t).lift part write key name err).wp db Inv R (fun inserted =>
    ((if inserted then insertLedger au .grant [t] else pure ()).lift part write key name err).wp db Inv R
      fun _ => (pure () : Prog σ ω κ ℓ ε Unit).wp db Inv R post) tr c
  rw [Prog.wp_pure]
  refine insertTuple_wp (fun c' hR hInv hin => ?_) fun c' hR hInv hout => ?_
  · exact Prog.wp_ret (hold c' hR hInv hin)
  · exact hnew c' hR hInv hout

theorem revokePositionOrMemberTuple_wp
    (hold : Yields db Inv R post tr c (name (.revokePositionOrMemberTuple t)) (fun s => t ∈ (part s).tuple) ()
      [write (.deleteTuple t), write (.insertLedger (au.row .revoke t))] (t.locks.map key))
    (hnone : Yields db Inv R post tr c (name (.revokePositionOrMemberTuple t)) (fun s => t ∉ (part s).tuple) ()
      [write (.insertLedger (au.row .revoke t))] []) :
    ((revokePositionOrMemberTuple au t).lift part write key name err).wp db Inv R post tr c := by
  unfold revokePositionOrMemberTuple
  split
  · exact Prog.wp_fail _
  refine Prog.wp_lift_exec fun c' a new hR hInv hans => ?_
  split at hans
  · cases hans
  cases hdel : (part (db.view tr.writes c')).tuple.deleteTuple t with
  | error e =>
    rw [hdel] at hans
    cases hans
  | ok T =>
    rw [hdel] at hans
    dsimp only at hans
    split at hans
    · cases hans
      cases T with
      | none =>
        have hout := deleteTuple_eq_none hdel
        rw [if_neg hout]
        exact hnone c' hR hInv hout
      | some T =>
        have hin := deleteTuple_some_mem hdel
        rw [if_pos hin]
        exact hold c' hR hInv hin
    · cases hans

end Lifted

end AuthzTx

end Kiban
