import Kiban.Store.Statements

/-!
# Default once

Transactions that call `EnsureDefaultGrant` run beside transactions in which people grant and revoke tuples.  The
journal keeps the committed writes in their order, each with who made it, so that what the calls have ever done can be
read off it.
-/

namespace Kiban.DefaultOnce

open Transactions List Option

inductive Origin where
  | call (companyId moduleKey : String)
  | human
deriving DecidableEq

abbrev Entry := Origin × AuthzWrite

structure Journaled where
  store : Store
  journal : List Entry

def db : Schema Journaled Entry where
  apply j w := ⟨j.store.apply w.2, j.journal ++ [w]⟩
  valid _ := true

abbrev Tx (α : Type) := Prog Journaled Entry AuthzLock AuthzStmt StoreError α

/-- The part of a transaction that one writer makes. -/
def writtenBy {α : Type} (o : Origin) (p : AuthzTx α) : Tx α := p.lift Journaled.store (Prod.mk o) id id id

structure Call where
  au : Author
  (companyId moduleKey : String)

inductive Edit where
  | grant (au : Author) (ts : List Tuple)
  | revoke (au : Author) (order : RowOrder) (ts : List Tuple)

inductive Request where
  | defaults (calls : List Call)
  | edits (es : List Edit)

def Request.calls : Request → List Call
  | .defaults calls => calls
  | .edits _ => []

def ensure (k : Call) : Tx Unit := do
  let _ ← writtenBy (.call k.companyId k.moduleKey) (.ensureDefaultGrant k.au k.companyId k.moduleKey)
  pure ()

def edit : Edit → Tx Unit
  | .grant au ts => writtenBy .human (.grant au ts)
  | .revoke au order ts => writtenBy .human (.revoke au order ts)

def prog : Request → Tx Unit
  | .defaults calls => calls.forM ensure
  | .edits es => es.forM edit

abbrev St := State Journaled Entry AuthzLock AuthzStmt StoreError Request

abbrev Past := Trail Entry AuthzLock AuthzStmt

/-! ## What the journal says -/

def claim (companyId moduleKey : String) : Entry :=
  (.call companyId moduleKey, .insertDefaultGrant companyId moduleKey)

def defaulted (companyId moduleKey : String) : Entry :=
  (.call companyId moduleKey, .insertTuple (systemAnchor companyId moduleKey))

def Inserts (ws : List Entry) (t : Tuple) : Prop := ∃ o, (o, AuthzWrite.insertTuple t) ∈ ws

def isRemoval : Entry → Bool
  | (_, .deleteTuple _) => true
  | _ => false

def Removes (ws : List Entry) (t : Tuple) : Prop := ∃ o, (o, AuthzWrite.deleteTuple t) ∈ ws

/-- An open transaction has found the pair's anchor in place and goes by that. -/
def WentByAnchor (companyId moduleKey : String) (next : Option AuthzStmt) (tr : Past) : Prop :=
  .anchorPrecheck companyId moduleKey ∈ tr.log ∧
    next ≠ some (.insertTuple (companyAnchor companyId moduleKey)) ∧
    .tuple (companyAnchor companyId moduleKey) ∉ tr.held

/-- No commit removes an anchor an open transaction goes by, or the default grant of a pair that is
still to be claimed. -/
def Undisturbed (s : St) : Action Request → Prop
  | .commit t => ∀ ss, s.sessions.get? t = some ss → ∀ companyId moduleKey,
      (Removes ss.trail.writes (companyAnchor companyId moduleKey) →
        ∀ t' ss', t' ≠ t → s.sessions.get? t' = some ss' →
          ¬ WentByAnchor companyId moduleKey ss'.rest.label? ss'.trail) ∧
      (Removes ss.trail.writes (systemAnchor companyId moduleKey) →
        (companyId, moduleKey) ∈ s.committed.store.defaultGrant)
  | _ => True

/-! ## Facts about the writes -/

section Writes

variable {j : Journaled} {ws : List Entry} {t : Tuple} {companyId moduleKey : String}

theorem Inserts.append_left (h : Inserts ws t) (new : List Entry) : Inserts (ws ++ new) t :=
  h.imp fun _ ho => mem_append_left new ho

theorem view_journal (ws : List Entry) (j : Journaled) : (db.view ws j).journal = j.journal ++ ws := by
  unfold Schema.view
  induction ws generalizing j with
  | nil => simp
  | cons w ws ih =>
    rw [foldl_cons, ih]
    simp [db]

theorem mem_view_of_mem (h : t ∈ j.store.tuple) (hws : ¬ Removes ws t) : t ∈ (db.view ws j).store.tuple := by
  unfold Schema.view
  induction ws generalizing j with
  | nil => exact h
  | cons w ws ih =>
    refine ih ?_ fun ⟨o, ho⟩ => hws ⟨o, mem_cons_of_mem w ho⟩
    obtain ⟨o, w⟩ := w
    cases w with
    | insertTuple t' => exact mem_put h
    | deleteTuple t' =>
      refine TupleTable.mem_filter.mpr ⟨h, decide_eq_true fun heq => hws ⟨o, ?_⟩⟩
      rw [heq]
      exact mem_cons_self
    | insertLedger row => exact h
    | insertDefaultGrant companyId moduleKey =>
      change t ∈ Store.tuple (if _ then _ else _)
      split <;> exact h

theorem mem_defaultGrant_view : (companyId, moduleKey) ∈ (db.view ws j).store.defaultGrant ↔
      (companyId, moduleKey) ∈ j.store.defaultGrant ∨
        ∃ o, (o, AuthzWrite.insertDefaultGrant companyId moduleKey) ∈ ws := by
  unfold Schema.view
  induction ws generalizing j with
  | nil => simp
  | cons w ws ih =>
    rw [foldl_cons, ih]
    obtain ⟨o, w⟩ := w
    cases w with
    | insertTuple t' => simp [db, Store.apply]
    | deleteTuple t' => simp [db, Store.apply]
    | insertLedger row => simp [db, Store.apply]
    | insertDefaultGrant c m =>
      by_cases hin : (c, m) ∈ j.store.defaultGrant
      · simp only [db, Store.apply, hin, if_true, mem_cons, Prod.mk.injEq, AuthzWrite.insertDefaultGrant.injEq]
        grind
      · simp only [db, Store.apply, hin, if_false, mem_append,
          mem_cons, Prod.mk.injEq, AuthzWrite.insertDefaultGrant.injEq]
        grind

theorem not_isAnchorRow_companyAnchor (companyId moduleKey : String) :
    ¬ (companyAnchor companyId moduleKey).IsAnchorRow := by
  rintro ⟨hrel, _⟩
  exact absurd hrel (by decide : "company" ≠ "company_module")

theorem companyAnchor_ne_systemAnchor (companyId moduleKey companyId' moduleKey' : String) :
    companyAnchor companyId moduleKey ≠ systemAnchor companyId' moduleKey' := fun h =>
  absurd (congrArg Tuple.relation h) (by decide : "company" ≠ "system")

theorem locks_companyAnchor (companyId moduleKey : String) :
    (companyAnchor companyId moduleKey).locks = [.tuple (companyAnchor companyId moduleKey)] :=
  if_neg (not_isAnchorRow_companyAnchor companyId moduleKey)

theorem companyAnchor_notMem_locks_systemAnchor (companyId moduleKey companyId' moduleKey' : String) :
    .tuple (companyAnchor companyId moduleKey) ∉ (systemAnchor companyId' moduleKey').locks := by
  unfold Tuple.locks
  split
  · simp [companyAnchor_ne_systemAnchor]
  · simp [companyAnchor_ne_systemAnchor]

theorem mem_view_of_inserts (h : Inserts ws t) (htext : t.IsText) (hanc : ¬ t.IsAnchorRow)
    (hws : ¬ Removes ws t) : t ∈ (db.view ws j).store.tuple := by
  obtain ⟨o, ho⟩ := h
  induction ws generalizing j with
  | nil => cases ho
  | cons w ws ih =>
    have hws' : ¬ Removes ws t := fun ⟨o, ho⟩ => hws ⟨o, mem_cons_of_mem w ho⟩
    rcases mem_cons.mp ho with rfl | hin
    · exact mem_view_of_mem (j := db.apply j (o, .insertTuple t)) (mem_put_self htext hanc) hws'
    · exact ih hws' hin

theorem mem_of_mem_view (h : t ∈ (db.view ws j).store.tuple) : t ∈ j.store.tuple ∨ Inserts ws t := by
  unfold Schema.view at h
  induction ws generalizing j with
  | nil => exact .inl h
  | cons w ws ih =>
    rcases ih h with hin | ⟨o, ho⟩
    · obtain ⟨o, w⟩ := w
      cases w with
      | insertTuple t' =>
        rcases mem_of_mem_put hin with hold | rfl
        · exact .inl hold
        · exact .inr ⟨o, mem_cons_self⟩
      | deleteTuple t' => exact .inl (TupleTable.mem_filter.mp hin).1
      | insertLedger row => exact .inl hin
      | insertDefaultGrant companyId moduleKey =>
        change t ∈ Store.tuple (if _ then _ else _) at hin
        split at hin <;> exact .inl hin
    · exact .inr ⟨o, mem_cons_of_mem w ho⟩

end Writes

/-! ## What everybody may count on -/

structure Sound (j : Journaled) : Prop where
  once : ∀ companyId moduleKey, j.journal.count (claim companyId moduleKey) ≤ 1
  claimed : ∀ companyId moduleKey, claim companyId moduleKey ∈ j.journal →
    (companyId, moduleKey) ∈ j.store.defaultGrant
  granted : ∀ companyId moduleKey,
    j.journal.count (defaulted companyId moduleKey) ≤ j.journal.count (claim companyId moduleKey)
  removed : ∀ companyId moduleKey, Removes j.journal (systemAnchor companyId moduleKey) →
    (companyId, moduleKey) ∈ j.store.defaultGrant
  ordered : ∀ companyId moduleKey o,
    ¬ [(o, .deleteTuple (systemAnchor companyId moduleKey)), defaulted companyId moduleKey].Sublist j.journal

def Rely (next : Option AuthzStmt) (tr : Past) (j j' : Journaled) : Prop :=
  (∀ companyId moduleKey, .defaultGrant companyId moduleKey ∈ tr.held →
    (companyId, moduleKey) ∈ j'.store.defaultGrant → (companyId, moduleKey) ∈ j.store.defaultGrant) ∧
  ∀ companyId moduleKey, WentByAnchor companyId moduleKey next tr →
    companyAnchor companyId moduleKey ∈ j.store.tuple → companyAnchor companyId moduleKey ∈ j'.store.tuple

/-- A removed default grant was one of a claimed pair. -/
def May (tr : Past) (j : Journaled) : Prop :=
  ∀ companyId moduleKey, Removes tr.writes (systemAnchor companyId moduleKey) →
    (companyId, moduleKey) ∈ j.store.defaultGrant

def Guarantee (r : Request) (tr : Past) (_ j' : Journaled) : Prop :=
  (∀ o companyId moduleKey, (o, .insertDefaultGrant companyId moduleKey) ∈ tr.writes →
    .defaultGrant companyId moduleKey ∈ tr.held) ∧
  ∀ k ∈ r.calls, companyAnchor k.companyId k.moduleKey ∈ j'.store.tuple

/-! ## A transaction of calls -/

/-- What is known of a transaction that has made the calls for some pairs. -/
structure Calling (done : List (String × String)) (tr : Past) (j : Journaled) : Prop where
  checked : ∀ k ∈ done, .anchorPrecheck k.1 k.2 ∈ tr.log
  anchor : ∀ k ∈ done, (Inserts tr.writes (companyAnchor k.1 k.2) ∧ (companyAnchor k.1 k.2).IsText) ∨
    companyAnchor k.1 k.2 ∈ j.store.tuple
  held : ∀ companyId moduleKey, .tuple (companyAnchor companyId moduleKey) ∈ tr.held →
    Inserts tr.writes (companyAnchor companyId moduleKey) ∧ (companyAnchor companyId moduleKey).IsText
  noDelete : ∀ t, ¬ Removes tr.writes t
  locked : ∀ o companyId moduleKey, (o, .insertDefaultGrant companyId moduleKey) ∈ tr.writes →
    o = .call companyId moduleKey ∧ .defaultGrant companyId moduleKey ∈ tr.held ∧
      (companyId, moduleKey) ∉ j.store.defaultGrant
  once : ∀ companyId moduleKey, tr.writes.count (claim companyId moduleKey) ≤ 1
  granted : ∀ companyId moduleKey,
    tr.writes.count (defaulted companyId moduleKey) ≤ tr.writes.count (claim companyId moduleKey)

theorem calling_start (j : Journaled) : Calling [] .start j where
  checked := nofun
  anchor := nofun
  held := nofun
  noDelete _ := fun ⟨_, h⟩ => nomatch h
  locked := nofun
  once _ _ := Nat.zero_le _
  granted _ _ := Nat.le_refl _

section Calling

variable {done : List (String × String)} {tr : Past} {j j' : Journaled} {next : Option AuthzStmt}
  {companyId moduleKey : String} {new : List Entry} {locks : List AuthzLock}

theorem Calling.rely (h : Calling done tr j) (hR : Rely next tr j j')
    (hnext : ∀ k ∈ done, next ≠ some (.insertTuple (companyAnchor k.1 k.2))) : Calling done tr j' where
  checked := h.checked
  anchor k hk := by
    rcases h.anchor k hk with hown | hin
    · exact .inl hown
    · by_cases hheld : .tuple (companyAnchor k.1 k.2) ∈ tr.held
      · exact .inl (h.held k.1 k.2 hheld)
      · exact .inr (hR.2 k.1 k.2 ⟨h.checked k hk, hnext k hk, hheld⟩ hin)
  held := h.held
  noDelete := h.noDelete
  locked o c m hin := by
    obtain ⟨ho, hlock, hfree⟩ := h.locked o c m hin
    exact ⟨ho, hlock, fun hin' => hfree (hR.1 c m hlock hin')⟩
  once := h.once
  granted := h.granted

/-- A lock on the anchor of a pair is taken by the statement that inserts it. -/
def LocksInserted (new : List Entry) (locks : List AuthzLock) : Prop :=
  ∀ c m, .tuple (companyAnchor c m) ∈ locks → Inserts new (companyAnchor c m) ∧ (companyAnchor c m).IsText

theorem Calling.extend (h : Calling done tr j) (label : AuthzStmt) (hlocks : LocksInserted new locks)
    (hdel : ∀ t, ¬ Removes new t)
    (hclm : ∀ o c m, (o, .insertDefaultGrant c m) ∈ new →
      o = .call c m ∧ .defaultGrant c m ∈ locks ∧ (c, m) ∉ j.store.defaultGrant)
    (honce : ∀ c m, tr.writes.count (claim c m) + new.count (claim c m) ≤ 1)
    (hgra : ∀ c m, tr.writes.count (defaulted c m) + new.count (defaulted c m) ≤
      tr.writes.count (claim c m) + new.count (claim c m)) :
    Calling done (tr.extend new locks label) j where
  checked k hk := mem_append_left _ (h.checked k hk)
  anchor k hk := (h.anchor k hk).imp_left fun hown => ⟨hown.1.append_left new, hown.2⟩
  held c m hlock := by
    rcases mem_append.mp hlock with hold | hnew
    · exact ⟨(h.held c m hold).1.append_left new, (h.held c m hold).2⟩
    · obtain ⟨⟨o, ho⟩, htext⟩ := hlocks c m hnew
      exact ⟨⟨o, mem_append_right _ ho⟩, htext⟩
  noDelete t := by
    rintro ⟨o, ho⟩
    rcases mem_append.mp ho with hold | hnew
    · exact h.noDelete t ⟨o, hold⟩
    · exact hdel t ⟨o, hnew⟩
  locked o c m hin := by
    rcases mem_append.mp hin with hold | hnew
    · obtain ⟨ho, hlock, hfree⟩ := h.locked o c m hold
      exact ⟨ho, mem_append_left _ hlock, hfree⟩
    · obtain ⟨ho, hlock, hfree⟩ := hclm o c m hnew
      exact ⟨ho, mem_append_right _ hlock, hfree⟩
  once c m := by
    rw [count_append]
    exact honce c m
  granted c m := by
    rw [count_append, count_append]
    exact hgra c m

/-- A write that neither removes a tuple nor claims nor grants a default. -/
def Plain (w : Entry) : Prop :=
  (∀ t, w.2 ≠ .deleteTuple t) ∧ (∀ companyId moduleKey, w.2 ≠ .insertDefaultGrant companyId moduleKey) ∧
    ∀ companyId moduleKey, w ≠ defaulted companyId moduleKey

theorem Calling.plain (h : Calling done tr j) (label : AuthzStmt) (hnew : ∀ w ∈ new, Plain w)
    (hlocks : LocksInserted new locks) : Calling done (tr.extend new locks label) j := by
  have hclaim : ∀ c m, new.count (claim c m) = 0 := fun c m =>
    count_eq_zero.mpr fun hin => (hnew _ hin).2.1 c m rfl
  have hdef : ∀ c m, new.count (defaulted c m) = 0 := fun c m =>
    count_eq_zero.mpr fun hin => (hnew _ hin).2.2 c m rfl
  refine h.extend label hlocks (fun t ⟨o, ho⟩ => (hnew _ ho).1 t rfl)
    (fun o c m hin => absurd rfl ((hnew _ hin).2.1 c m)) (fun c m => ?_) fun c m => ?_
  · rw [hclaim]
    exact h.once c m
  · rw [hclaim, hdef]
    exact h.granted c m

theorem Calling.idle (h : Calling done tr j) (label : AuthzStmt) :
    Calling done (tr.extend [] [] label) j :=
  h.plain label (fun _ hw => nomatch hw) fun _ _ hlock => nomatch hlock

theorem Calling.record (h : Calling done tr j) (au : Author) (o : Origin) (op : GrantOp) (ts : List Tuple) :
    Calling done (tr.extend (ts.map (fun t => (o, .insertLedger (au.row op t)))) [] .insertLedger) j := by
  refine h.plain .insertLedger (fun w hw => ?_) fun _ _ hlock => nomatch hlock
  obtain ⟨t, _, rfl⟩ := mem_map.mp hw
  exact ⟨fun _ => nofun, fun _ _ => nofun, fun _ _ heq => nomatch congrArg Prod.snd heq⟩

theorem count_claim_defaulted (c m : String) : [defaulted companyId moduleKey].count (claim c m) = 0 := by
  simp [claim, defaulted]

theorem count_defaulted_claim (c m : String) : [claim companyId moduleKey].count (defaulted c m) = 0 := by
  simp [claim, defaulted]

theorem Calling.claims (h : Calling done tr j) (label : AuthzStmt)
    (hfree : (companyId, moduleKey) ∉ (db.view tr.writes j).store.defaultGrant) :
    Calling done (tr.extend [claim companyId moduleKey] [.defaultGrant companyId moduleKey] label) j := by
  rw [mem_defaultGrant_view, not_or] at hfree
  refine h.extend label (fun c m hlock => nomatch mem_singleton.mp hlock)
    (fun t ⟨o, ho⟩ => nomatch mem_singleton.mp ho) (fun o c m hin => ?_) (fun c m => ?_)
    fun c m => ?_
  · cases mem_singleton.mp hin
    exact ⟨rfl, mem_singleton_self _, hfree.1⟩
  · by_cases heq : claim companyId moduleKey = claim c m
    · have hnone : tr.writes.count (claim c m) = 0 :=
        count_eq_zero.mpr fun hin => hfree.2 ⟨_, heq ▸ hin⟩
      rw [hnone, heq, count_singleton_self]
    · rw [count_singleton, if_neg (by simpa using heq)]
      exact h.once c m
  · rw [count_defaulted_claim]
    exact (h.granted c m).trans (Nat.le_add_right _ _)

theorem Calling.count_lt_of_free (h : Calling done tr j)
    (hfree : (companyId, moduleKey) ∉ (db.view tr.writes j').store.defaultGrant) :
    (tr.writes ++ [claim companyId moduleKey]).count (defaulted companyId moduleKey) <
      (tr.writes ++ [claim companyId moduleKey]).count (claim companyId moduleKey) := by
  have hnone : tr.writes.count (claim companyId moduleKey) = 0 :=
    count_eq_zero.mpr fun hin => hfree (mem_defaultGrant_view.mpr (.inr ⟨_, hin⟩))
  have hgra := h.granted companyId moduleKey
  rw [count_append, count_append, count_defaulted_claim, count_singleton_self]
  omega

theorem Calling.grants (h : Calling done tr j) (label : AuthzStmt)
    (hcla : tr.writes.count (defaulted companyId moduleKey) < tr.writes.count (claim companyId moduleKey)) :
    Calling done (tr.extend [defaulted companyId moduleKey] ((systemAnchor companyId moduleKey).locks) label) j := by
  refine h.extend label
    (fun c m hlock => absurd hlock (companyAnchor_notMem_locks_systemAnchor c m companyId moduleKey))
    (fun t ⟨o, ho⟩ => nomatch mem_singleton.mp ho)
    (fun o c m hin => nomatch mem_singleton.mp hin) (fun c m => ?_) fun c m => ?_
  · rw [count_claim_defaulted]
    exact h.once c m
  rw [count_claim_defaulted]
  by_cases heq : defaulted companyId moduleKey = defaulted c m
  · obtain ⟨rfl, rfl⟩ := Origin.call.inj (congrArg Prod.fst heq)
    rw [count_singleton_self]
    exact hcla
  · rw [count_singleton, if_neg (by simpa using heq)]
    exact h.granted c m

theorem Calling.anchors (h : Calling done tr j) (label : AuthzStmt)
    (htext : (companyAnchor companyId moduleKey).IsText) :
    Calling done (tr.extend [(.call companyId moduleKey, .insertTuple (companyAnchor companyId moduleKey))]
      (companyAnchor companyId moduleKey).locks label) j := by
  refine h.plain label (fun w hw => ?_) fun c m hlock => ?_
  · cases mem_singleton.mp hw
    refine ⟨fun _ heq => (by cases heq), fun _ _ heq => (by cases heq), fun c m heq => ?_⟩
    exact companyAnchor_ne_systemAnchor companyId moduleKey c m (AuthzWrite.insertTuple.inj (congrArg Prod.snd heq))
  · rw [locks_companyAnchor] at hlock
    rw [AuthzLock.tuple.inj (mem_singleton.mp hlock)]
    exact ⟨⟨_, mem_singleton_self _⟩, htext⟩

theorem Calling.check (h : Calling done tr j) (hchk : .anchorPrecheck companyId moduleKey ∈ tr.log)
    (hin : companyAnchor companyId moduleKey ∈ (db.view tr.writes j).store.tuple) :
    Calling ((companyId, moduleKey) :: done) tr j :=
  { h with
    checked := forall_mem_cons.mpr ⟨hchk, h.checked⟩
    anchor := by
      refine forall_mem_cons.mpr ⟨?_, h.anchor⟩
      rcases mem_of_mem_view hin with hold | hown
      · exact .inr hold
      · exact .inl ⟨hown, (db.view tr.writes j).store.tuple.text _ hin⟩ }

theorem Calling.mem_view (h : Calling done tr j) {k} (hk : k ∈ done) :
    companyAnchor k.1 k.2 ∈ (db.view tr.writes j).store.tuple := by
  rcases h.anchor k hk with ⟨hown, htext⟩ | hin
  · exact mem_view_of_inserts hown htext (not_isAnchorRow_companyAnchor k.1 k.2) (h.noDelete _)
  · exact mem_view_of_mem hin (h.noDelete _)

end Calling

/-! Statement by statement. -/

section Statements

variable {R : Option AuthzStmt → Past → Journaled → Journaled → Prop} {Inv : Journaled → Prop}
  {tr : Past} {j : Journaled} {o : Origin} {t : Tuple} {au : Author} {post : Unit → Past → Journaled → Prop}

theorem writtenBy_bind {α β : Type} (p : AuthzTx α) (f : α → AuthzTx β) :
    writtenBy o (p >>= f) = writtenBy o p >>= fun a => writtenBy o (f a) := Prog.lift_bind p f

theorem grant_wp
    (hold : ∀ j', R (some (.insertTuple t)) tr j j' → t ∈ (db.view tr.writes j').store.tuple →
      post () (tr.extend [] [] (.insertTuple t)) j')
    (hnew : ∀ j', R (some (.insertTuple t)) tr j j' → t.IsText →
      (writtenBy o (AuthzTx.insertLedger au .grant [t])).wp db Inv R post
        (tr.extend [(o, .insertTuple t)] t.locks (.insertTuple t)) j') :
    (writtenBy o (AuthzTx.grant au [t])).wp db Inv R post tr j := by
  refine AuthzTx.grant_wp (fun j' hR _ hin => hold j' hR hin) fun j' hR _ hout => ?_
  rw [List.map_id]
  exact hnew j' hR hout.2

theorem insertLedger_wp {op ts} (h : ∀ j', R (some .insertLedger) tr j j' →
      post () (tr.extend (ts.map (fun t => (o, .insertLedger (au.row op t)))) [] .insertLedger) j') :
    (writtenBy o (AuthzTx.insertLedger au op ts)).wp db Inv R post tr j :=
  AuthzTx.insertLedger_wp fun j' hR _ => h j' hR

theorem insertDefaultGrant_wp {companyId moduleKey} {post : Bool → Past → Journaled → Prop}
    (hold : ∀ j', R (some (.insertDefaultGrant companyId moduleKey)) tr j j' →
      post false (tr.extend [] [] (.insertDefaultGrant companyId moduleKey)) j')
    (hnew : Yields db Inv R post tr j (.insertDefaultGrant companyId moduleKey)
      ((companyId, moduleKey) ∉ ·.store.defaultGrant) true [(o, .insertDefaultGrant companyId moduleKey)]
      [.defaultGrant companyId moduleKey]) :
    (writtenBy o (AuthzTx.insertDefaultGrant au companyId moduleKey)).wp db Inv R post tr j := by
  unfold writtenBy AuthzTx.insertDefaultGrant
  refine Prog.wp_lift_exec fun j' a new hR hInv hans => ?_
  rw [List.map_id]
  split at hans
  · cases hans
  by_cases hin : (companyId, moduleKey) ∈ (db.view tr.writes j').store.defaultGrant
  · rw [if_pos hin] at hans ⊢
    cases hans
    exact hold j' hR
  · rw [if_neg hin] at hans ⊢
    cases hans
    exact hnew j' hR hInv hin

end Statements

section Ensure

variable {Inv : Journaled → Prop} {tr : Past} {j : Journaled} {done : List (String × String)}
  {au : Author} {companyId moduleKey : String} {post : Unit → Past → Journaled → Prop}

theorem ensureCompanyModuleAnchor_wp (h : Calling done tr j)
    (hpost : ∀ tr' j', Calling ((companyId, moduleKey) :: done) tr' j' → post () tr' j') :
    (writtenBy (.call companyId moduleKey)
      (AuthzTx.ensureCompanyModuleAnchor au companyId moduleKey)).wp db Inv Rely post tr j := by
  unfold AuthzTx.ensureCompanyModuleAnchor
  rw [writtenBy_bind, Prog.wp_bind]
  unfold Prog.read
  refine Prog.wp_lift_exec fun j₁ existed new hR _ hans => ?_
  cases hans
  have hcal₁ : Calling done (tr.extend [] [] (.anchorPrecheck companyId moduleKey)) j₁ :=
    (h.rely hR fun _ _ heq => by cases heq).idle _
  have hchk : AuthzStmt.anchorPrecheck companyId moduleKey ∈
      tr.log ++ [.anchorPrecheck companyId moduleKey] := mem_append_right _ mem_cons_self
  by_cases hin : companyAnchor companyId moduleKey ∈ (db.view tr.writes j₁).store.tuple
  · rw [if_pos (decide_eq_true hin)]
    exact Prog.wp_ret (hpost _ _ (hcal₁.check hchk (by rw [Trail.extend, append_nil]; exact hin)))
  rw [if_neg (by simpa using hin)]
  -- the anchor of a pair that is done is in place, so this is another one
  have hother : ∀ k ∈ done, some (AuthzStmt.insertTuple (companyAnchor companyId moduleKey)) ≠
      some (.insertTuple (companyAnchor k.1 k.2)) := by
    intro k hk heq
    have hk' := hcal₁.mem_view hk
    rw [Trail.extend, append_nil, ← AuthzStmt.insertTuple.inj (Option.some.inj heq)] at hk'
    exact hin hk'
  refine grant_wp (fun j₂ hR₂ hin₂ => ?_) fun j₂ hR₂ htext => insertLedger_wp fun j₃ hR₃ => ?_
  · refine hpost _ _ (((hcal₁.rely hR₂ hother).idle _).check ?_ ?_)
    · exact mem_append_left _ hchk
    · rw [Trail.extend, append_nil]
      exact hin₂
  · have hcal₂ := (hcal₁.rely hR₂ hother).anchors (.insertTuple (companyAnchor companyId moduleKey)) htext
    have hcal₃ := (hcal₂.rely hR₃ fun _ _ heq => by cases heq).record au (.call companyId moduleKey)
      .grant [companyAnchor companyId moduleKey]
    refine hpost _ _ (hcal₃.check ?_ ?_)
    · exact mem_append_left _ (mem_append_left _ hchk)
    · refine mem_view_of_inserts ?_ htext (not_isAnchorRow_companyAnchor companyId moduleKey) (hcal₃.noDelete _)
      exact ⟨_, mem_append_left _ (mem_append_right _ (mem_singleton_self _))⟩

theorem ensure_wp {k} (h : Calling done tr j)
    (hpost : ∀ tr' j', Calling ((k.companyId, k.moduleKey) :: done) tr' j' → post () tr' j') :
    (ensure k).wp db Inv Rely post tr j := by
  unfold ensure AuthzTx.ensureDefaultGrant
  rw [Prog.wp_bind]
  by_cases hempty : k.companyId = "" ∨ k.moduleKey = ""
  · rw [if_pos hempty]
    exact Prog.wp_fail _
  rw [if_neg hempty, writtenBy_bind, Prog.wp_bind]
  refine ensureCompanyModuleAnchor_wp h fun tr₁ j₁ h₁ => ?_
  rw [writtenBy_bind, Prog.wp_bind]
  refine insertDefaultGrant_wp (fun j₂ hR₂ => ?_) fun j₂ hR₂ _ hfree => ?_
  · exact Prog.wp_ret (Prog.wp_ret (hpost _ _ ((h₁.rely hR₂ fun _ _ => nofun).idle _)))
  have h₂ := (h₁.rely hR₂ fun _ _ => nofun).claims (.insertDefaultGrant k.companyId k.moduleKey) hfree
  rw [if_pos rfl, writtenBy_bind, Prog.wp_bind]
  refine grant_wp (fun j₃ hR₃ _ => ?_) fun j₃ hR₃ _ => insertLedger_wp fun j₄ hR₄ => ?_
  · refine Prog.wp_ret (Prog.wp_ret (hpost _ _ ((h₂.rely hR₃ fun k' _ heq => ?_).idle _)))
    exact companyAnchor_ne_systemAnchor _ _ _ _ (AuthzStmt.insertTuple.inj (Option.some.inj heq)).symm
  have h₃ := h₂.rely hR₃ fun k' _ heq =>
    companyAnchor_ne_systemAnchor _ _ _ _ (AuthzStmt.insertTuple.inj (Option.some.inj heq)).symm
  have h₄ := h₃.grants (.insertTuple (systemAnchor k.companyId k.moduleKey)) (h₁.count_lt_of_free hfree)
  exact Prog.wp_ret (Prog.wp_ret (hpost _ _ ((h₄.rely hR₄ fun _ _ => nofun).record k.au _ .grant _)))

theorem defaults_wp {calls : List Call} (h : Calling done tr j)
    (hpost : ∀ done' tr' j', Calling done' tr' j' → (∀ k ∈ calls, (k.companyId, k.moduleKey) ∈ done') →
      post () tr' j') :
    (calls.forM ensure).wp db Inv Rely post tr j := by
  -- the calls made so far are in `done`
  suffices hsfx : ∀ (made rest : List Call) (done : List (String × String)) (tr : Past) (j : Journaled),
      calls = made ++ rest → Calling done tr j → (∀ k ∈ made, (k.companyId, k.moduleKey) ∈ done) →
      (rest.forM ensure).wp db Inv Rely post tr j from
    hsfx [] calls done tr j rfl h fun _ hk => nomatch hk
  intro made rest
  induction rest generalizing made with
  | nil =>
    intro done tr j hcalls h hmade
    rw [append_nil] at hcalls
    exact Prog.wp_ret (hpost done tr j h (hcalls ▸ hmade))
  | cons k rest ih =>
    intro done tr j hcalls h hmade
    change (ensure k >>= fun _ => rest.forM ensure).wp db Inv Rely post tr j
    rw [Prog.wp_bind]
    refine ensure_wp h fun tr' j' h' => ih (made ++ [k]) _ tr' j' (by simp [hcalls]) h' fun k' hk' => ?_
    rcases mem_append.mp hk' with hold | hself
    · exact mem_cons_of_mem _ (hmade k' hold)
    · rw [mem_singleton.mp hself]
      exact mem_cons_self

end Ensure

/-! ## The contract -/

variable {j : Journaled}

theorem Sound.append {ws} (h : Sound j)
    (hclaim : ∀ companyId moduleKey, claim companyId moduleKey ∈ ws → (companyId, moduleKey) ∉ j.store.defaultGrant)
    (honce : ∀ companyId moduleKey, ws.count (claim companyId moduleKey) ≤ 1)
    (hgra : ∀ companyId moduleKey, ws.count (defaulted companyId moduleKey) ≤ ws.count (claim companyId moduleKey))
    (hrem : ∀ companyId moduleKey, Removes ws (systemAnchor companyId moduleKey) →
      (companyId, moduleKey) ∈ j.store.defaultGrant ∧ defaulted companyId moduleKey ∉ ws) :
    Sound (db.view ws j) := by
  have hcla : ∀ c m, defaulted c m ∈ ws → claim c m ∈ ws := fun c m hin =>
    count_pos_iff.mp ((count_pos_iff.mpr hin).trans_le (hgra c m))
  refine ⟨fun c m => ?_, fun c m hin => ?_, fun c m => ?_, fun c m hin => ?_, fun c m o hsub => ?_⟩
  · rw [view_journal, count_append]
    by_cases hin : claim c m ∈ ws
    · have hbef : j.journal.count (claim c m) = 0 :=
        count_eq_zero.mpr fun hold => hclaim c m hin (h.claimed c m hold)
      rw [hbef, Nat.zero_add]
      exact honce c m
    · rw [count_eq_zero.mpr hin]
      exact h.once c m
  · rw [view_journal] at hin
    rw [mem_defaultGrant_view]
    rcases mem_append.mp hin with hold | hnew
    · exact .inl (h.claimed c m hold)
    · exact .inr ⟨_, hnew⟩
  · rw [view_journal, count_append, count_append]
    exact Nat.add_le_add (h.granted c m) (hgra c m)
  · obtain ⟨o, ho⟩ := hin
    rw [view_journal] at ho
    rw [mem_defaultGrant_view]
    rcases mem_append.mp ho with hold | hnew
    · exact .inl (h.removed c m ⟨o, hold⟩)
    · exact .inl (hrem c m ⟨o, hnew⟩).1
  · -- a removal before a default grant: both old, both new, or one of each
    rw [view_journal, sublist_append_iff] at hsub
    obtain ⟨l₁, l₂, heq, hl₁, hl₂⟩ := hsub
    match l₁, heq with
    | [], heq =>
      cases heq
      exact (hrem c m ⟨o, hl₂.subset mem_cons_self⟩).2 (hl₂.subset (mem_cons_of_mem _ mem_cons_self))
    | [_], heq =>
      cases heq
      have hdef : defaulted c m ∈ ws := hl₂.subset mem_cons_self
      exact hclaim c m (hcla c m hdef) (h.removed c m ⟨o, hl₁.subset mem_cons_self⟩)
    | [_, _], heq =>
      cases heq
      exact h.ordered c m o hl₁

theorem Calling.ready {done tr calls} (h : Calling done tr j)
    (hcalls : ∀ k ∈ calls, (k.companyId, k.moduleKey) ∈ done) :
    Ready db Sound Rely May (Guarantee (.defaults calls)) () tr j := by
  intro j' hR hsound _ _
  have h' := h.rely hR fun _ _ => nofun
  refine ⟨hsound.append (fun c m hin => (h'.locked _ c m hin).2.2) h'.once h'.granted
    fun c m hrem => absurd hrem (h'.noDelete _), fun o c m hin => (h'.locked o c m hin).2.1, ?_⟩
  exact fun k hk => h'.mem_view (hcalls k hk)

/-! ## A transaction of edits -/

def HumanWrite (w : Entry) : Prop :=
  w.1 = .human ∧ ∀ companyId moduleKey, w.2 ≠ .insertDefaultGrant companyId moduleKey

theorem insertLedger_writes (au : Author) (op : GrantOp) (ts : List Tuple) :
    (AuthzTx.insertLedger au op ts).Writes fun w => ∀ c m, w ≠ .insertDefaultGrant c m :=
  AuthzTx.writes_insertLedger fun _ _ _ => nofun

theorem grant_writes (au : Author) (ts : List Tuple) :
    (AuthzTx.grant au ts).Writes fun w => ∀ c m, w ≠ .insertDefaultGrant c m := by
  unfold AuthzTx.grant
  split
  · trivial
  refine Prog.writes_forM ts fun t _ => ?_
  unfold AuthzTx.grantTuple
  split
  · trivial
  refine Prog.Writes.bind (Prog.writes_exec fun s r hr w hw c m => ?_) fun inserted => ?_
  · split at hr
    · cases hr
    · cases hr
      cases hw
    · cases hr
      cases mem_singleton.mp hw
      exact nofun
  · split
    · exact insertLedger_writes au .grant [t]
    · trivial

theorem revokeObjectRest_writes (au : Author) (order : RowOrder) (objectType objectId : String) :
    (AuthzTx.revokeObjectRest au order objectType objectId).Writes fun w => ∀ c m, w ≠ .insertDefaultGrant c m := by
  unfold AuthzTx.revokeObjectRest
  refine Prog.Writes.bind (Prog.writes_exec fun s r hr w hw c m => ?_) fun gone =>
    insertLedger_writes au .revoke gone
  cases hr
  obtain ⟨t, _, rfl⟩ := mem_map.mp hw
  exact nofun

theorem revoke_writes (au : Author) (order : RowOrder) (ts : List Tuple) :
    (AuthzTx.revoke au order ts).Writes fun w => ∀ c m, w ≠ .insertDefaultGrant c m := by
  unfold AuthzTx.revoke
  split
  · trivial
  refine Prog.writes_forM ts fun t _ => ?_
  unfold AuthzTx.revokeTuple
  split
  · trivial
  refine Prog.Writes.bind (Prog.writes_exec fun s r hr w hw c m => ?_) fun deleted => ?_
  · split at hr
    · cases hr
    · cases hr
      cases hw
    · cases hr
      cases mem_singleton.mp hw
      exact nofun
  · split
    · refine (insertLedger_writes au .revoke [t]).bind fun _ => ?_
      split
      · exact revokeObjectRest_writes au order t.objectType t.objectId
      · trivial
    · trivial

theorem edits_writes (es : List Edit) : (es.forM edit).Writes HumanWrite := by
  refine Prog.writes_forM es fun e _ => ?_
  cases e with
  | grant au ts => exact (grant_writes au ts).lift fun w hw => ⟨rfl, hw⟩
  | revoke au order ts => exact (revoke_writes au order ts).lift fun w hw => ⟨rfl, hw⟩

theorem edits_ready {es tr} (h : ∀ w ∈ tr.writes, HumanWrite w) :
    Ready db Sound Rely May (Guarantee (.edits es)) () tr j := by
  intro j' _ hsound _ hmay
  have hclaim : ∀ c m, claim c m ∉ tr.writes := fun c m hin => nomatch (h _ hin).1
  have hdef : ∀ c m, defaulted c m ∉ tr.writes := fun c m hin => nomatch (h _ hin).1
  refine ⟨hsound.append (fun c m hin => absurd hin (hclaim c m)) (fun c m => ?_) (fun c m => ?_)
    fun c m hrem => ⟨hmay c m hrem, hdef c m⟩, fun o c m hin => absurd rfl ((h _ hin).2 c m), nofun⟩
  · rw [count_eq_zero.mpr (hclaim c m)]
    exact Nat.zero_le 1
  · rw [count_eq_zero.mpr (hdef c m)]
    exact Nat.zero_le _

/-! ## Default once -/

theorem prog_contract : Contract db prog Undisturbed Sound Rely May Guarantee where
  refl _ _ _ := ⟨fun _ _ _ h => h, fun _ _ _ h => h⟩
  trans _ _ _ _ _ hab hbc :=
    ⟨fun c m hheld hin => hab.1 c m hheld (hbc.1 c m hheld hin),
      fun c m hwent hin => hbc.2 c m hwent (hab.2 c m hwent hin)⟩
  may s t r tr hgood hget c m hrem := (hgood _ hget c m).2 hrem
  compatible s t r tr t' ss hgood hget hget' hne hdisj hG := by
    refine ⟨fun c m hheld hin => ?_, fun c m hwent hin => ?_⟩
    · rcases mem_defaultGrant_view.mp hin with hold | ⟨o, ho⟩
      · exact hold
      · exact absurd hheld (hdisj _ (hG.1 o c m ho))
    by_contra hgone
    have hrem : Removes tr.writes (companyAnchor c m) := by
      by_contra hnot
      exact hgone (mem_view_of_mem hin hnot)
    exact (hgood _ hget c m).1 hrem t' ss (Ne.symm hne) hget' hwent
  keeps r j _ := by
    cases r with
    | defaults calls =>
      exact defaults_wp (calling_start j) fun done tr j h hcalls => h.ready hcalls
    | edits es =>
      exact (edits_writes es).wp (fun _ _ _ _ h _ => h)
        (fun _ _ _ _ _ h hnew => fun w hw => (mem_append.mp hw).elim (h w) (hnew w))
        (fun _ hw => nomatch hw) fun _ tr j h => edits_ready h

theorem sound_start (c : Store) : Sound ⟨c, []⟩ where
  once _ _ := Nat.zero_le 1
  claimed _ _ h := nomatch h
  granted _ _ := Nat.le_refl 0
  removed _ _ := fun ⟨_, h⟩ => nomatch h
  ordered _ _ _ h := nomatch h

/-- At most one call ever grants the pair's default, none does after a removal of it, and when a call
has committed the pair's anchor is there. -/
theorem ensureDefaultGrant_once {c : Store} {s : St}
    (hreach : Runs.Reach (step db prog) Undisturbed (.start ⟨c, []⟩) s) (companyId moduleKey : String) :
    s.committed.journal.count (defaulted companyId moduleKey) ≤ 1 ∧
      (∀ o, ¬ [(o, .deleteTuple (systemAnchor companyId moduleKey)), defaulted companyId moduleKey].Sublist
        s.committed.journal) ∧
      ∀ t s' ss au, Undisturbed s (.commit t) → step db prog s (.commit t) = some s' →
        s.sessions.get? t = some ss → ⟨au, companyId, moduleKey⟩ ∈ ss.request.calls →
          companyAnchor companyId moduleKey ∈ s'.committed.store.tuple := by
  have hsound := prog_contract.reach (sound_start c) hreach
  refine ⟨(hsound.granted companyId moduleKey).trans (hsound.once companyId moduleKey),
    hsound.ordered companyId moduleKey, fun t s' ss au hgood hstep hget hin => ?_⟩
  exact (prog_contract.commit (sound_start c) hreach hgood hget hstep).2 _ hin

theorem undisturbed_of_noCommit (s : St) (a : Action Request) (h : a.isCommit = false) :
    Undisturbed s a := by
  cases a with
  | commit t => cases h
  | begin t r | exec t | rollback t => trivial

/-! The first call for a pair, beside a person who grants something else. -/

def bootstrap : Author := ⟨"bootstrap", ""⟩

def docsCall : Call := ⟨bootstrap, "acme", "docs"⟩

def firstCall : List (Action Request) :=
  [.begin 1 (.defaults [docsCall]), .begin 2 (.edits [.grant ⟨"alice", ""⟩
    [⟨"company_module", "acme/docs", "member", "user", "bob", ""⟩]]),
    .exec 1, .exec 1, .exec 2, .exec 1, .exec 1, .exec 2, .exec 1, .exec 1]

theorem ensureDefaultGrant_once_first : ∃ s s', Runs.Reach (step db prog) Undisturbed (.start ⟨.empty, []⟩) s ∧
      step db prog s (.commit 1) = some s' ∧
      companyAnchor "acme" "docs" ∈ s'.committed.store.tuple ∧
      s'.committed.journal.count (defaulted "acme" "docs") = 1 := by
  have hrun : (firstCall.foldlM (step db prog) (.start ⟨.empty, []⟩)).map (fun s =>
      ((step db prog s (.commit 1)).map fun s' => s'.committed.journal.count (defaulted "acme" "docs"),
        (s.sessions.get? 1).map fun ss => (ss.request.calls.any fun k =>
          k.companyId = "acme" ∧ k.moduleKey = "docs", ss.trail.writes.any isRemoval))) =
      some (some 1, some (true, false)) := by
    decide +kernel
  obtain ⟨s, hs, hseen⟩ := map_eq_some_iff.mp hrun
  obtain ⟨hcom, hses⟩ := Prod.mk.inj hseen
  obtain ⟨s', hs', hcount⟩ := map_eq_some_iff.mp hcom
  obtain ⟨ss, hss, hss'⟩ := map_eq_some_iff.mp hses
  obtain ⟨hcall, hws⟩ := Prod.mk.inj hss'
  obtain ⟨k, hk, hpair⟩ := any_eq_true.mp hcall
  obtain ⟨hco, hmod⟩ := of_decide_eq_true hpair
  have hreach : Runs.Reach (step db prog) Undisturbed (.start ⟨.empty, []⟩) s :=
    reach_of_noCommit undisturbed_of_noCommit firstCall hs (by decide)
  have hgood : Undisturbed s (.commit 1) := by
    intro ss₁ hss₁
    cases hss.symm.trans hss₁
    have hnone : ∀ t, ¬ Removes ss.trail.writes t := fun t ⟨o, ho⟩ =>
      any_eq_false.mp hws _ ho rfl
    exact fun c m => ⟨fun h => absurd h (hnone _), fun h => absurd h (hnone _)⟩
  obtain ⟨_, _, hanc⟩ := ensureDefaultGrant_once hreach "acme" "docs"
  refine ⟨s, s', hreach, hs', hanc 1 s' ss k.au hgood hs' hss ?_, hcount⟩
  rw [← hco, ← hmod]
  exact hk

/-! Two races.  A call has found the anchor in place when a person removes it; and a person grants and
removes the default of a pair before its first call. -/

def removedAnchor : List (Action Request) :=
  [.begin 1 (.defaults [docsCall]), .exec 1, .exec 1, .exec 1, .exec 1, .exec 1, .exec 1, .commit 1,
    .begin 2 (.defaults [docsCall]), .exec 2,
    .begin 3 (.edits [.revoke ⟨"alice", ""⟩ ⟨id, List.Perm.refl⟩
      [companyAnchor "acme" "docs"]]), .exec 3, .exec 3, .commit 3, .exec 2]

def removedBefore : List (Action Request) :=
  [.begin 1 (.edits [.grant ⟨"alice", ""⟩ [systemAnchor "acme" "docs"]]), .exec 1, .exec 1, .commit 1,
    .begin 2 (.edits [.revoke ⟨"alice", ""⟩ ⟨id, List.Perm.refl⟩
      [systemAnchor "acme" "docs"]]), .exec 2, .exec 2, .commit 2,
    .begin 3 (.defaults [docsCall]), .exec 3, .exec 3, .exec 3, .exec 3, .exec 3, .exec 3, .commit 3]

theorem removedAnchor_missing : (∃ s s', Runs.Reach (step db prog) (fun _ _ => True) (.start ⟨.empty, []⟩) s ∧
      step db prog s (.commit 2) = some s' ∧
      (∃ ss k, s.sessions.get? 2 = some ss ∧ k ∈ ss.request.calls ∧ k.companyId = "acme" ∧ k.moduleKey = "docs") ∧
      companyAnchor "acme" "docs" ∉ s'.committed.store.tuple) ∧
    ∃ s, Runs.Reach (step db prog) (fun _ _ => True) (.start ⟨.empty, []⟩) s ∧
      [(.human, .deleteTuple (systemAnchor "acme" "docs")), defaulted "acme" "docs"].Sublist
        s.committed.journal := by
  constructor
  · have hrun : (removedAnchor.foldlM (step db prog) (.start ⟨.empty, []⟩)).map (fun s =>
        ((step db prog s (.commit 2)).map fun s' =>
            decide (companyAnchor "acme" "docs" ∈ s'.committed.store.tuple),
          (s.sessions.get? 2).map fun ss => ss.request.calls.any fun k =>
            k.companyId = "acme" ∧ k.moduleKey = "docs")) = some (some false, some true) := by
      decide +kernel
    obtain ⟨s, hs, hseen⟩ := map_eq_some_iff.mp hrun
    obtain ⟨hcom, hses⟩ := Prod.mk.inj hseen
    obtain ⟨s', hs', hmiss⟩ := map_eq_some_iff.mp hcom
    obtain ⟨ss, hss, hcall⟩ := map_eq_some_iff.mp hses
    obtain ⟨k, hk, hpair⟩ := any_eq_true.mp hcall
    exact ⟨s, s', Runs.reach_of_foldlM removedAnchor hs fun _ _ _ => trivial, hs',
      ⟨ss, k, hss, hk, of_decide_eq_true hpair⟩, of_decide_eq_false hmiss⟩
  · have hrun : (removedBefore.foldlM (step db prog) (.start ⟨.empty, []⟩)).map (fun s =>
        decide ([(.human, .deleteTuple (systemAnchor "acme" "docs")), defaulted "acme" "docs"].Sublist
          s.committed.journal)) = some true := by
      decide +kernel
    obtain ⟨s, hs, hseen⟩ := map_eq_some_iff.mp hrun
    exact ⟨s, Runs.reach_of_foldlM removedBefore hs fun _ _ _ => trivial, of_decide_eq_true hseen⟩

end Kiban.DefaultOnce
