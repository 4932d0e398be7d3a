import Kiban.Store.Statements

/-!
# The platform role

The tuple `system:platform#superadmin @ user:<subjectId>` is the platform role's only record.
`writePlatformRole` changes it in one transaction, under an advisory lock that keeps every other
change of the role waiting until it has committed or rolled back.
-/

namespace Kiban

open Transactions Fallible List

def superadminTuple (subjectId : String) : Tuple :=
  ⟨"system", systemPlatformId, "superadmin", "user", subjectId, ""⟩

/-- The rows `countSuperadminsSQL` counts. -/
def Tuple.IsSuperadminRow (t : Tuple) : Prop :=
  t.objectType = "system" ∧ t.objectId = systemPlatformId ∧ t.relation = "superadmin" ∧
    t.subjectType = "user" ∧ t.subjectRelation = ""

instance (t : Tuple) : Decidable t.IsSuperadminRow := inferInstanceAs (Decidable (_ ∧ _))

def Store.countSuperadmins (s : Store) : Nat := (s.tuple.rows.filter fun t => t.IsSuperadminRow).length

namespace PlatformRole

inductive Error where
  | store (e : StoreError)
  | notHeld
  | lastSuperadmin
deriving DecidableEq

abbrev RoleTx (α : Type) := Prog Store AuthzWrite AuthzLock AuthzStmt Error α

def store {α : Type} (p : AuthzTx α) : RoleTx α := p.lift id id id id .store

def lockPlatformRole : RoleTx Unit :=
  .exec .platformRoleLock (fun _ => []) (fun _ => [.platformRole]) fun _ => .ok ((), [])

def tupleHeld (t : Tuple) : RoleTx Bool :=
  .read (.tupleHeld t) fun s =>
    if t.IsText then .ok (decide (t ∈ s.tuple)) else .error (.store invalidText)

def countSuperadmins : RoleTx Nat := .read .countSuperadmins fun s => .ok s.countSuperadmins

/-- The audit row is in a table that nothing here reads. -/
def audit : RoleTx Unit := .read .audit fun _ => .ok ()

structure Request where
  (actor subjectId : String)
  op : GrantOp
  order : RowOrder

def changeRole (r : Request) : RoleTx Unit :=
  match r.op with
  | .grant => store (.grant ⟨r.actor, ""⟩ [superadminTuple r.subjectId])
  | .revoke => do
    let held ← tupleHeld (superadminTuple r.subjectId)
    if ¬ held then .fail .notHeld
    else do
      let n ← countSuperadmins
      if n ≤ 1 then .fail .lastSuperadmin
      else store (.revoke ⟨r.actor, ""⟩ r.order [superadminTuple r.subjectId])

def writePlatformRole (r : Request) : RoleTx Unit := do
  lockPlatformRole
  changeRole r
  audit

def db : Schema Store AuthzWrite := ⟨Store.apply, fun _ => true⟩

abbrev RoleState := State Store AuthzWrite AuthzLock AuthzStmt Error Request

/-! ## What a change does -/

theorem not_isAnchorRow_superadminTuple (subjectId : String) : ¬ (superadminTuple subjectId).IsAnchorRow := by
  rintro ⟨hrel, _⟩
  exact absurd hrel (by decide : "superadmin" ≠ "company_module")

theorem mem_revoke_superadmin {s s' : Store} {au : Author} {order : RowOrder} {subjectId : String}
    (h : s.revoke au order [superadminTuple subjectId] = .ok s') (t : Tuple) :
    t ∈ s'.tuple ↔ t ∈ s.tuple ∧ t ≠ superadminTuple subjectId := by
  rw [mem_revoke h, forall_mem_singleton]
  simp only [TupleTable.TakenBy, not_isAnchorRow_superadminTuple, false_and, and_false, or_false, ne_eq]

theorem countSuperadmins_pos_iff {s : Store} : 1 ≤ s.countSuperadmins ↔ ∃ t ∈ s.tuple, t.IsSuperadminRow := by
  unfold Store.countSuperadmins
  rw [Nat.one_le_iff_ne_zero, Nat.ne_zero_iff_zero_lt, length_pos_iff_exists_mem]
  simp only [List.mem_filter, decide_eq_true_eq]
  rfl

-- the rows are distinct, so where two are counted one is another than the given one
theorem exists_other_superadmin {s : Store} (t : Tuple) (h : 1 < s.countSuperadmins) :
    ∃ t' ∈ s.tuple, t'.IsSuperadminRow ∧ t' ≠ t := by
  by_contra hnone
  have hall : ∀ t' ∈ s.tuple.rows.filter (fun t => t.IsSuperadminRow), t' = t := by
    intro t' ht'
    rw [List.mem_filter, decide_eq_true_eq] at ht'
    by_contra hne
    exact hnone ⟨t', ht'.1, ht'.2, hne⟩
  have hnodup := s.tuple.nodup.filter fun t => decide t.IsSuperadminRow
  rw [eq_replicate_of_mem hall, nodup_replicate] at hnodup
  exact absurd h (Nat.not_lt.mpr hnodup)

theorem run_store {α : Type} (p : AuthzTx α) (s : Store) :
    (store p).run Store.apply s = (p.run Store.apply s).mapError .store := by
  unfold store
  refine (Prog.run_lift id (fun _ a => a) (fun _ _ => rfl) (fun _ => rfl) (fun _ _ _ => rfl)
    (fun _ _ => rfl) p s).trans ?_
  rw [id_eq]
  cases p.run Store.apply s with
  | error e | ok r => rfl

structure Changed (r : Request) (s s' : Store) : Prop where
  remains : 1 ≤ s.countSuperadmins → 1 ≤ s'.countSuperadmins
  removed : r.op = .revoke → superadminTuple r.subjectId ∈ s.tuple ∧ superadminTuple r.subjectId ∉ s'.tuple

theorem changed_of_grant {r : Request} {s s' : Store} (hop : r.op = .grant)
    (h : s.grant ⟨r.actor, ""⟩ [superadminTuple r.subjectId] = .ok s') : Changed r s s' := by
  refine ⟨fun hpos => ?_, fun hrev => nomatch hop.symm.trans hrev⟩
  obtain ⟨t, ht, hrow⟩ := countSuperadmins_pos_iff.mp hpos
  exact countSuperadmins_pos_iff.mpr ⟨t, (mem_grant h t).mpr (.inl ht), hrow⟩

theorem changed_of_revoke {r : Request} {s s' : Store}
    (hheld : superadminTuple r.subjectId ∈ s.tuple) (hcount : ¬ s.countSuperadmins ≤ 1)
    (h : s.revoke ⟨r.actor, ""⟩ r.order [superadminTuple r.subjectId] = .ok s') : Changed r s s' := by
  have hmem := mem_revoke_superadmin h
  refine ⟨fun _ => ?_, fun _ => ⟨hheld, fun hin => ((hmem _).mp hin).2 rfl⟩⟩
  obtain ⟨t, ht, hrow, hne⟩ := exists_other_superadmin (superadminTuple r.subjectId) (Nat.not_le.mp hcount)
  exact countSuperadmins_pos_iff.mpr ⟨t, (hmem t).mpr ⟨ht, hne⟩, hrow⟩

theorem changeRole_run {r s u s'} (h : (changeRole r).run Store.apply s = .ok (u, s')) :
    Changed r s s' := by
  unfold changeRole at h
  cases hop : r.op with
  | grant =>
    rw [hop] at h
    dsimp only at h
    rw [run_store, AuthzTx.run_grant, mapError_eq_ok] at h
    obtain ⟨s₁, hs₁, heq⟩ := map_eq_ok.mp h
    cases heq
    exact changed_of_grant hop hs₁
  | revoke =>
    rw [hop] at h
    dsimp only at h
    rw [Prog.run_bind, tupleHeld, Prog.run_read] at h
    obtain ⟨⟨held, s₀⟩, hheld, h⟩ := bind_eq_ok.mp h
    obtain ⟨held', hread, heq⟩ := map_eq_ok.mp hheld
    cases heq
    split at hread
    · cases hread
      split at h
      · cases h
      rename_i _ hheld
      rw [Prog.run_bind, countSuperadmins, Prog.run_read] at h
      obtain ⟨⟨n, s₀⟩, hcount, h⟩ := bind_eq_ok.mp h
      cases hcount
      split at h
      · cases h
      rename_i hcount
      rw [run_store, AuthzTx.run_revoke, mapError_eq_ok] at h
      obtain ⟨s₁, hs₁, heq⟩ := map_eq_ok.mp h
      cases heq
      exact changed_of_revoke (by simpa using hheld) hcount hs₁
    · cases hread

/-! ## Interleaved changes -/

def Rely : Option AuthzStmt → Trail AuthzWrite AuthzLock AuthzStmt → Store → Store → Prop :=
  fun _ tr s s' => .platformRole ∈ tr.held → s' = s

def Guarantee (r : Request) (tr : Trail AuthzWrite AuthzLock AuthzStmt) (s s' : Store) : Prop :=
  .platformRole ∈ tr.held ∧ Changed r s s'

theorem writePlatformRole_contract :
    Contract db writePlatformRole (fun _ _ => True) (fun _ => True) Rely (fun _ _ => True) Guarantee where
  refl _ _ _ _ := rfl
  trans _ _ _ _ _ hab hbc hheld := (hbc hheld).trans (hab hheld)
  may _ _ _ _ _ _ := trivial
  compatible _ _ _ _ _ _ _ _ _ _ hdisj hG hheld := absurd hheld (hdisj _ hG.1)
  keeps r c _ := by
    unfold writePlatformRole lockPlatformRole
    rw [Prog.wp_bind]
    refine Prog.wp_exec fun c' a new _ _ hans => ?_
    cases hans
    -- from here on the lock is held
    refine Prog.wp_alone (fun _ tr' _ hsub hR => hR (hsub (by simp))) fun a tr' hsub hrun => ?_
    have hheld : AuthzLock.platformRole ∈ tr'.held := hsub (by simp)
    intro c'' hR _ _ _
    rw [hR hheld]
    refine ⟨trivial, hheld, ?_⟩
    rw [Prog.run_bind] at hrun
    obtain ⟨⟨u, s₁⟩, hcha, haudit⟩ := bind_eq_ok.mp hrun
    rw [audit, Prog.run_read] at haudit
    cases haudit
    exact changeRole_run hcha

theorem superadmin_remains {c : Store} {s s' : RoleState} {a : Action Request}
    (hreach : Runs.Reach (step db writePlatformRole) (fun _ _ => True) (.start c) s)
    (hstep : step db writePlatformRole s a = some s') :
    (1 ≤ s.committed.countSuperadmins → 1 ≤ s'.committed.countSuperadmins) ∧
      ∀ t ss, a = .commit t → s.sessions.get? t = some ss → ss.request.op = .revoke →
        superadminTuple ss.request.subjectId ∈ s.committed.tuple ∧
          superadminTuple ss.request.subjectId ∉ s'.committed.tuple := by
  have hcom : ∀ t ss, a = .commit t → s.sessions.get? t = some ss →
      Changed ss.request s.committed s'.committed := by
    rintro t ss rfl hget
    exact (writePlatformRole_contract.commit trivial hreach trivial hget hstep).2
  refine ⟨?_, fun t ss ha hget => (hcom t ss ha hget).removed⟩
  cases a with
  | begin t r =>
    obtain ⟨_, rfl⟩ := step_begin hstep
    exact id
  | exec t =>
    obtain ⟨_, _, _, _, _, _, _, _, _, rfl⟩ := step_exec hstep
    exact id
  | commit t =>
    obtain ⟨r, tr, hget, _, _⟩ := step_commit hstep
    exact (hcom t _ rfl hget).remains
  | rollback t =>
    rw [step_rollback hstep]
    exact id

/-! Two superadmins, each being revoked: while the second waits for the lock the first commits. -/

def asGiven : RowOrder := ⟨id, List.Perm.refl⟩

def twoSuperadmins : Store where
  tuple :=
    { rows := [superadminTuple "alice", superadminTuple "bob"]
      nodup := by decide
      text := by decide
      one_anchor := by decide }
  ledger := []
  defaultGrant := []

def crossedRevokes : List (Action Request) :=
  [.begin 1 ⟨"alice", "bob", .revoke, asGiven⟩, .begin 2 ⟨"bob", "alice", .revoke, asGiven⟩,
    .exec 1, .exec 1, .exec 1, .exec 1, .exec 1, .exec 1]

theorem superadmin_remains_crossed :
    ∃ s s', Runs.Reach (step db writePlatformRole) (fun _ _ => True) (.start twoSuperadmins) s ∧
      step db writePlatformRole s (.exec 2) = none ∧
      step db writePlatformRole s (.commit 1) = some s' ∧
      superadminTuple "bob" ∈ s.committed.tuple ∧ superadminTuple "bob" ∉ s'.committed.tuple ∧
      1 ≤ s'.committed.countSuperadmins := by
  have hrun : (crossedRevokes.foldlM (step db writePlatformRole) (.start twoSuperadmins)).map (fun s =>
      ((step db writePlatformRole s (.exec 2)).isNone, (step db writePlatformRole s (.commit 1)).isSome,
        s.committed.countSuperadmins,
        (s.sessions.get? 1).map fun ss => (ss.request.op, ss.request.subjectId))) =
      some (true, true, 2, some (.revoke, "bob")) := by
    decide +kernel
  obtain ⟨s, hs, hseen⟩ := Option.map_eq_some_iff.mp hrun
  simp only [Prod.mk.injEq] at hseen
  obtain ⟨hwaits, hcom, hcount, hreq⟩ := hseen
  obtain ⟨s', hs'⟩ := Option.isSome_iff_exists.mp hcom
  obtain ⟨ss, hss, hss'⟩ := Option.map_eq_some_iff.mp hreq
  obtain ⟨hop, hsubj⟩ := Prod.mk.inj hss'
  have hreach : Runs.Reach (step db writePlatformRole) (fun _ _ => True) (.start twoSuperadmins) s :=
    Runs.reach_of_foldlM crossedRevokes hs fun _ _ _ => trivial
  obtain ⟨hrem, hremo⟩ := superadmin_remains hreach hs'
  obtain ⟨hheld, hgone⟩ := hremo 1 ss rfl hss hop
  rw [hsubj] at hheld hgone
  exact ⟨s, s', hreach, Option.isNone_iff_eq_none.mp hwaits, hs', hheld, hgone, hrem (by rw [hcount]; decide)⟩

end PlatformRole

end Kiban
