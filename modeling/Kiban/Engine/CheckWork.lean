import Kiban.Engine.CheckHolds
import Kiban.Engine.EvalRules
import Mathlib.Algebra.BigOperators.Ring.Finset
import Mathlib.Algebra.Order.BigOperators.Group.Finset
import Mathlib.Data.Set.Finite.Lattice

/-!
# The work of a check

`check` evaluates the definition of a node that is neither in the memo nor on its path.  As long as no cut is taken
every evaluation ends by remembering its answer, and the row queries are those of one evaluation for each node.
-/

namespace Kiban

open MemoProg List Function

/-! ## The nodes a check can meet are finitely many -/

section Finite

variable {cx : EvalCtx} {T : Table} {root n a : Node}

def Model.targets (m : Model) : List String := m.flatMap fun typ => typ.2.flatMap fun rel => rel.2.targets

theorem mem_targets_of_relation {m : Model} {typ rel : String} {e : Expr}
    (h : m.relation? typ rel = some e) {target : String} (htgt : target ∈ e.targets) :
    target ∈ m.targets := by
  obtain ⟨rels, hrels, he⟩ := Model.relation_mem h
  exact mem_flatMap.mpr ⟨_, hrels, mem_flatMap.mpr ⟨_, he, htgt⟩⟩

theorem meets_finite (cx : EvalCtx) (T : Table) (root : Node) : { a | Meets cx T root a }.Finite := by
  let objects := root.object :: T.rows.map fun t => t.row.object
  let rels := root.rel :: (cx.model.targets ++ T.rows.map Tuple.subjectRelation)
  let nodes := objects.flatMap fun o => rels.map fun rel => (⟨o.1, o.2, rel⟩ : Node)
  refine (finite_toSet nodes).subset fun a ha => ?_
  have hmem : a.object ∈ objects ∧ a.rel ∈ rels := by
    induction ha with
    | root => exact ⟨mem_cons_self, mem_cons_self⟩
    | hop _ he ha ih =>
      obtain ⟨hobj, hrel⟩ := hop_cases _ ha
      constructor
      · obtain hsame | ⟨t, ht, hsame⟩ := hobj
        · exact hsame ▸ ih.1
        · exact hsame ▸ mem_cons_of_mem _ (mem_map_of_mem ht)
      · obtain htgt | ⟨t, ht, hsame⟩ := hrel
        · exact mem_cons_of_mem _ (mem_append_left _ (mem_targets_of_relation he htgt))
        · exact hsame ▸ mem_cons_of_mem _ (mem_append_right _ (mem_map_of_mem ht))
  exact mem_flatMap.mpr ⟨a.object, hmem.1, mem_map.mpr ⟨a.rel, hmem.2, rfl⟩⟩

end Finite

/-! ## What a run has to show for its work -/

noncomputable def reachable (cx : EvalCtx) (T : Table) (root : Node) : Finset Node := (meets_finite cx T root).toFinset

def nodeSize (cx : EvalCtx) (a : Node) : Nat := ((cx.model.relation? a.objType a.rel).map Expr.size).getD 0

def nodeReads (cx : EvalCtx) (T : Table) (a : Node) : Nat :=
  ((cx.model.relation? a.objType a.rel).map (usersetReads T a)).getD 0

def nodeWork (cx : EvalCtx) (T : Table) (a : Node) : Nat := nodeSize cx a + nodeReads cx T a * cx.lookups

/-- A run without cuts, from query `i` and memo `m` with the keys `V` on the path, that has missed the keys `missed`:
they are all remembered now, none of them twice, and the queries are paid for by their nodes, up to `c`. -/
structure Accounted (cx : EvalCtx) (T : Table) (root : Node) (c : Nat) (V : List String) (i : Nat)
    (m : Memo String Bool) (i' : Nat) (m' : Memo String Bool) (missed : List String) : Prop where
  kept : ∀ k, m' k = none → m k = none
  fresh : ∀ k ∈ missed, m k = none ∧ k ∉ V
  stored : ∀ k ∈ missed, m' k ≠ none
  nodup : missed.Nodup
  paid : ∃ nodes : List Node, nodes.map memoKey = missed ∧ (∀ a ∈ nodes, Meets cx T root a) ∧
    i' ≤ i + c + (nodes.map (nodeWork cx T)).sum

/-- Runs of `x` that end well have a result with `P`, and are accounted for if no cut is taken in them. -/
def Thrifty {α : Type} (cx : EvalCtx) (T : Table) (db : Db) (root : Node) (c : Nat) (P : α → Prop) (x : Eval α) :
    Prop :=
  ∀ s i m a s' i' m', (x s).run overwrite db i m = ((.ok a, s'), i', m') →
    P a ∧ s'.visiting = s.visiting ∧ s.cuts ≤ s'.cuts ∧ (s'.cuts = s.cuts →
        Accounted cx T root c s.visiting i m i' m' ((x s).misses overwrite db i m))

section Thrifty

variable {cx : EvalCtx} {T : Table} {db : Db} {root : Node} {α β : Type} {c c' i i₁ i₂ : Nat} {V : List String}
  {m m₁ m₂ : Memo String Bool}
  {missed : List String} {P : α → Prop} {x : Eval α} {f : α → Eval β} {s : EvalState} {n : Node}

theorem accounted_nothing (hi : i₁ ≤ i + c) : Accounted cx T root c V i m i₁ m [] where
  kept _ h := h
  fresh := by simp
  stored := by simp
  nodup := .nil
  paid := ⟨[], rfl, by simp, by simpa using hi⟩

theorem Accounted.trans {missed'} (h : Accounted cx T root c V i m i₁ m₁ missed)
    (h' : Accounted cx T root c' V i₁ m₁ i₂ m₂ missed') :
    Accounted cx T root (c + c') V i m i₂ m₂ (missed ++ missed') where
  kept k hk := h.kept k (h'.kept k hk)
  fresh := forall_mem_append.mpr ⟨h.fresh, fun k hk => ⟨h.kept k (h'.fresh k hk).1, (h'.fresh k hk).2⟩⟩
  stored := forall_mem_append.mpr ⟨fun k hk hnone => h.stored k hk (h'.kept k hnone), h'.stored⟩
  nodup := by
    -- what the first part has missed is there for the second
    refine nodup_append.mpr ⟨h.nodup, h'.nodup, fun k hk k' hk' heq => ?_⟩
    exact h.stored k hk (heq ▸ (h'.fresh k' hk').1)
  paid := by
    obtain ⟨nodes, hkeys, hmeets, hi⟩ := h.paid
    obtain ⟨nodes', hkeys', hmeets', hi'⟩ := h'.paid
    refine ⟨nodes ++ nodes', by rw [map_append, hkeys, hkeys'], forall_mem_append.mpr ⟨hmeets, hmeets'⟩, ?_⟩
    rw [map_append, sum_append]
    omega

theorem Accounted.mono (hc : c ≤ c') (h : Accounted cx T root c V i m i₁ m₁ missed) :
    Accounted cx T root c' V i m i₁ m₁ missed := by
  obtain ⟨nodes, hkeys, hmeets, hi⟩ := h.paid
  exact ⟨h.kept, h.fresh, h.stored, h.nodup, nodes, hkeys, hmeets, by omega⟩

theorem thrifty_pure {a} (ha : P a) : Thrifty cx T db root 0 P (return a) := by
  intro s i m a' s' i' m' h
  cases h
  exact ⟨ha, rfl, le_refl _, fun _ => accounted_nothing (Nat.le_refl _)⟩

theorem Thrifty.mono (hc : c ≤ c') (h : Thrifty cx T db root c P x) :
    Thrifty cx T db root c' P x := by
  intro s i m a s' i' m' hrun
  obtain ⟨ha, hvis, hcuts, hacct⟩ := h s i m a s' i' m' hrun
  exact ⟨ha, hvis, hcuts, fun hnone => (hacct hnone).mono hc⟩

theorem run_bind_of_ok {s₁ a} (h : (x s).run overwrite db i m = ((.ok a, s₁), i₁, m₁)) :
    ((x >>= f) s).run overwrite db i m = (f a s₁).run overwrite db i₁ m₁ ∧ ((x >>= f) s).misses overwrite db i m =
        (x s).misses overwrite db i m ++ (f a s₁).misses overwrite db i₁ m₁ := by
  constructor
  · refine (Prog.run_bind _ _ _ _).trans ?_
    rw [h]
  · refine (Prog.misses_bind _ _ _ _).trans ?_
    rw [h]

theorem ok_of_run_bind {s₂ b} (h : ((x >>= f) s).run overwrite db i m = ((.ok b, s₂), i₂, m₂)) :
    ∃ a s₁ i₁ m₁, (x s).run overwrite db i m = ((.ok a, s₁), i₁, m₁) := by
  have hsplit := (Prog.run_bind _ _ _ _).symm.trans h
  cases hx : (x s).run overwrite db i m with
  | mk o rest =>
    obtain ⟨r, s₁⟩ := o
    cases r with
    | ok a => exact ⟨a, s₁, rest.1, rest.2, rfl⟩
    | error e =>
      rw [hx] at hsplit
      cases hsplit

theorem Thrifty.bind {P' : β → Prop}
    (hx : Thrifty cx T db root c P x) (hf : ∀ a, P a → Thrifty cx T db root c' P' (f a)) :
    Thrifty cx T db root (c + c') P' (x >>= f) := by
  intro s i m b s₂ i₂ m₂ hrun
  obtain ⟨a, s₁, i₁, m₁, hfirst⟩ := ok_of_run_bind hrun
  obtain ⟨hthen, hmis⟩ := run_bind_of_ok (f := f) hfirst
  obtain ⟨ha, hvis, hcuts, hacct⟩ := hx s i m a s₁ i₁ m₁ hfirst
  obtain ⟨hb, hvis', hcuts', hacct'⟩ := hf a ha s₁ i₁ m₁ b s₂ i₂ m₂ (hthen.symm.trans hrun)
  refine ⟨hb, hvis'.trans hvis, hcuts.trans hcuts', fun hnone => ?_⟩
  -- no cut in the whole means none in either part
  have hrest := hacct' (by omega)
  rw [hvis] at hrest
  rw [hmis]
  exact (hacct (by omega)).trans hrest

theorem Thrifty.of_fetches (hdb : db.Serves T) (hP : Fetches (anyMemo T) P x)
    (hx : Thrifty cx T db root c (fun _ => True) x) : Thrifty cx T db root c P x := by
  intro s i m a s' i' m' hrun
  obtain ⟨_, hvis, hcuts, hacct⟩ := hx s i m a s' i' m' hrun
  have hpost := Prog.wp_run stores_overwrite (fun i q => hdb i q) (hP s) i (m := m) fun _ _ _ => trivial
  rw [hrun] at hpost
  exact ⟨hpost.2.2 a rfl, hvis, hcuts, hacct⟩

theorem fetchRows_thrifty (n : Node) : Thrifty cx T db root 1 (fun _ => True) (fetchRows n) := by
  intro s i m rows s' i' m' hrun
  unfold fetchRows at hrun ⊢
  simp only [Prog.run, Prog.misses] at hrun ⊢
  cases hans : db i n with
  | error cause =>
    rw [hans] at hrun
    cases hrun
  | ok rows =>
    rw [hans] at hrun
    cases hrun
    exact ⟨trivial, rfl, le_refl _, fun _ => accounted_nothing (Nat.le_refl _)⟩

theorem followsRow_thrifty (r : TupleRow) : Thrifty cx T db root cx.lookups (fun _ => True) (cx.followsRow r) := by
  have hany : ∀ (n : Node) (p : TupleRow → Bool),
      Thrifty cx T db root 1 (fun _ => True) (do let rows ← fetchRows n; return rows.any p : Eval Bool) :=
    fun n p => (fetchRows_thrifty n).bind fun _ _ => thrifty_pure trivial
  unfold EvalCtx.followsRow EvalCtx.lookups EvalCtx.subjectInCompany
  by_cases hbound : cx.companyId = ""
  · rw [if_pos hbound, if_pos hbound]
    exact thrifty_pure trivial
  rw [if_neg hbound, if_neg hbound]
  split
  · exact hany _ _
  · split
    · exact hany _ _
    · exact (thrifty_pure trivial).mono (Nat.zero_le 1)

def thriftyRules (hdb : db.Serves T) (root : Node) : EvalRules cx T where
  Spec c x := Thrifty cx T db root c (fun _ => True) x
  ret _ := thrifty_pure trivial
  mono hc h := h.mono hc
  rows hf := (Thrifty.of_fetches hdb (fetchRows_fetches (fun _ _ h => h) _) (fetchRows_thrifty _)).bind
    fun rows h => hf rows h.1 h.2
  follows hf := (Thrifty.of_fetches hdb (followsRow_fetches (fun _ _ h => h) _) (followsRow_thrifty _)).bind hf
  ite hx hy hz := hx.bind fun b _ => by
    cases b with
    | true => exact hy
    | false => exact hz

/-! ## A node is evaluated once -/

theorem nodeWork_eq {e} (he : cx.model.relation? n.objType n.rel = some e) :
    nodeWork cx T n = e.size + usersetReads T n e * cx.lookups := by
  unfold nodeWork nodeSize nodeReads
  rw [he]
  rfl

/-- The entry of a node whose definition has been evaluated. -/
theorem Accounted.remember (hn : Meets cx T root n) (hout : memoKey n ∉ V) (hmiss : m (memoKey n) = none) (b : Bool)
    (h : Accounted cx T root (nodeWork cx T n) (memoKey n :: V) i m i₁ m₁ missed) :
    Accounted cx T root 0 V i m i₁ (overwrite m₁ (memoKey n) b) (memoKey n :: missed) where
  kept k hk := by
    unfold overwrite at hk
    by_cases hkey : k = memoKey n
    · rw [hkey, update_self] at hk
      cases hk
    · rw [update_of_ne hkey] at hk
      exact h.kept k hk
  fresh := forall_mem_cons.mpr ⟨⟨hmiss, hout⟩, fun k hk =>
    ⟨(h.fresh k hk).1, fun hV => (h.fresh k hk).2 (mem_cons_of_mem _ hV)⟩⟩
  stored k hk := by
    unfold overwrite
    by_cases hkey : k = memoKey n
    · rw [hkey, update_self]
      simp
    · rw [update_of_ne hkey]
      exact h.stored k ((mem_cons.mp hk).resolve_left hkey)
  -- below the node its key is on the path, where a miss is a cut
  nodup := nodup_cons.mpr ⟨fun hmem => (h.fresh _ hmem).2 mem_cons_self, h.nodup⟩
  paid := by
    obtain ⟨nodes, hkeys, hmeets, hi⟩ := h.paid
    refine ⟨n :: nodes, by rw [map_cons, hkeys], forall_mem_cons.mpr ⟨hn, hmeets⟩, ?_⟩
    rw [map_cons, sum_cons]
    omega

theorem evalNode_accounted {chk} (hdb : db.Serves T) (hn : Meets cx T root n)
    (hchk : ∀ e, cx.model.relation? n.objType n.rel = some e →
      ∀ a ∈ exprHops cx T n e, Thrifty cx T db root 0 (fun _ => True) (chk a))
    {s' a} (hout : memoKey n ∉ s.visiting) (hmiss : m (memoKey n) = none)
    (hrun : (evalNode cx chk n s).run overwrite db i m = ((.ok a, s'), i₁, m₁)) :
    s'.visiting = s.visiting ∧ s.cuts ≤ s'.cuts ∧ (s'.cuts = s.cuts →
      Accounted cx T root 0 s.visiting i m i₁ m₁ (memoKey n :: (evalNode cx chk n s).misses overwrite db i m)) := by
  unfold evalNode at hrun ⊢
  cases hlook : cx.model.lookup n.objType with
  | none =>
    rw [hlook] at hrun
    cases hrun
  | some typeDef =>
    rw [hlook] at hrun
    cases hexpr : typeDef.lookup n.rel with
    | none =>
      simp only [hexpr] at hrun
      cases hrun
    | some e =>
      have he : cx.model.relation? n.objType n.rel = some e := by
        rw [Model.relation?, hlook]
        exact hexpr
      have hspec := evalExpr_spec (thriftyRules hdb root) e (hchk e he)
      simp only [hexpr] at hrun ⊢
      rw [Prog.run_bind] at hrun
      rw [Prog.misses_bind]
      cases hbody : (evalExpr cx chk n e { s with visiting := memoKey n :: s.visiting }).run overwrite db i m with
      | mk o rest =>
        obtain ⟨r, s₁⟩ := o
        obtain ⟨i₂, m₂⟩ := rest
        rw [hbody] at hrun
        cases r with
        | error e' => cases hrun
        | ok b =>
          obtain ⟨_, hvis, hcuts, hacct⟩ := hspec _ i m b s₁ i₂ m₂ hbody
          have hleft : s₁.visiting.filter (· ≠ memoKey n) = s.visiting := by
            rw [hvis, filter_cons_of_neg (by simp), filter_eq_self]
            exact fun k hk => decide_eq_true fun hkey => hout (hkey ▸ hk)
          dsimp only at hrun ⊢
          split at hrun
          · cases hrun
            rename_i hstore
            refine ⟨hleft, hcuts, fun hnone => ?_⟩
            rw [if_pos hstore]
            simp only [Prog.misses, append_nil]
            rw [← nodeWork_eq he] at hacct
            exact (hacct hnone).remember hn hout hmiss _
          · cases hrun
            rename_i hkept
            exact ⟨hleft, hcuts, fun hnone => absurd (.inr hnone) hkept⟩

theorem enter_thrifty {body}
    (hbody : ∀ s i m a s' i' m', memoKey n ∉ s.visiting → m (memoKey n) = none →
      (body s).run overwrite db i m = ((.ok a, s'), i', m') → s'.visiting = s.visiting ∧ s.cuts ≤ s'.cuts ∧
      (s'.cuts = s.cuts → Accounted cx T root 0 s.visiting i m i' m' (memoKey n :: (body s).misses overwrite db i m))) :
    Thrifty cx T db root 0 (fun _ => True) (enter n body) := by
  intro s i m a s' i' m' hrun
  unfold enter at hrun ⊢
  simp only [Prog.run, Prog.misses] at hrun ⊢
  cases hmemo : m (memoKey n) with
  | some v =>
    rw [hmemo] at hrun
    cases hrun
    exact ⟨trivial, rfl, le_refl _, fun _ => accounted_nothing (Nat.le_refl _)⟩
  | none =>
    rw [hmemo] at hrun
    dsimp only at hrun ⊢
    split at hrun
    · cases hrun
      refine ⟨trivial, rfl, Nat.le_succ _, fun hnone => ?_⟩
      exact absurd hnone (Nat.succ_ne_self _)
    · rename_i hout
      rw [if_neg hout]
      exact ⟨trivial, hbody s i m a s' i' m' hout hmemo hrun⟩

theorem check_thrifty (hdb : db.Serves T) (left : Nat) (hn : Meets cx T root n) :
    Thrifty cx T db root 0 (fun _ => True) (cx.check left n) := by
  induction left generalizing n with
  | zero =>
    refine enter_thrifty fun s i m a s' i' m' _ _ hrun => ?_
    cases hrun
  | succ left ih =>
    refine enter_thrifty fun s i m a s' i' m' hout hmiss hrun => ?_
    exact evalNode_accounted hdb hn (fun e he b hb => ih (.hop hn he hb)) hout hmiss hrun

end Thrifty

/-! ## The whole check -/

namespace EvalCtx

variable (cx : EvalCtx) (db : Db) (n : Node)

/-- The keys of the nodes whose definitions a check evaluates, in order.  An evaluation begins when the memo has
nothing under the key; all that else can happen then is a cut or an error. -/
def evaluated : List String := (cx.check (maxDepth + 1) n {}).misses overwrite db 0 fun _ => none

def cutsTaken : Nat := ((cx.check (maxDepth + 1) n {}).run overwrite db 0 fun _ => none).1.2.cuts

def queries : Nat := ((cx.check (maxDepth + 1) n {}).run overwrite db 0 fun _ => none).2.1

end EvalCtx

theorem mem_reachable {cx T root a} : a ∈ reachable cx T root ↔ Meets cx T root a :=
  Set.Finite.mem_toFinset _

theorem sum_nodeWork (cx : EvalCtx) (T : Table) (nodes : Finset Node) :
    ∑ a ∈ nodes, nodeSize cx a + (∑ a ∈ nodes, nodeReads cx T a) * cx.lookups = ∑ a ∈ nodes, nodeWork cx T a := by
  unfold nodeWork
  rw [Finset.sum_add_distrib, Finset.sum_mul]

/-- A check that ends well and takes no cut evaluates the definition of each node at most once, and makes at most as
many queries as the definitions of the nodes it can meet have parts, and in a check bound to a company one more for
each userset row that they read. -/
theorem check_work {cx : EvalCtx} {T : Table} {db : Db} (hdb : db.Serves T) {n : Node} {b : Bool}
    (hok : cx.run db n = .ok b) (hcuts : cx.cutsTaken db n = 0) :
    (cx.evaluated db n).Nodup ∧ (∀ k ∈ cx.evaluated db n, ∃ a ∈ reachable cx T n, memoKey a = k) ∧ cx.queries db n ≤
        ∑ a ∈ reachable cx T n, nodeSize cx a + (∑ a ∈ reachable cx T n, nodeReads cx T a) * cx.lookups := by
  have hthr : Thrifty cx T db n 0 (fun _ => True) (cx.check (maxDepth + 1) n) := check_thrifty hdb _ .root
  unfold EvalCtx.run at hok
  unfold EvalCtx.cutsTaken at hcuts
  unfold EvalCtx.queries
  cases hrun : (cx.check (maxDepth + 1) n {}).run overwrite db 0 fun _ => none with
  | mk o rest =>
    obtain ⟨r, s'⟩ := o
    obtain ⟨i', m'⟩ := rest
    rw [hrun] at hok hcuts
    cases hok
    obtain ⟨_, _, _, hacct⟩ := hthr {} 0 _ b s' i' m' hrun
    have h := hacct hcuts
    obtain ⟨nodes, hkeys, hmeets, hi⟩ := h.paid
    have hmem : ∀ a ∈ nodes, a ∈ reachable cx T n := fun a ha => mem_reachable.mpr (hmeets a ha)
    have hnodes : nodes.Nodup := (hkeys ▸ h.nodup).of_map memoKey
    refine ⟨h.nodup, fun k hk => ?_, ?_⟩
    · have hk' : k ∈ nodes.map memoKey := hkeys ▸ hk
      obtain ⟨a, ha, rfl⟩ := mem_map.mp hk'
      exact ⟨a, hmem a ha, rfl⟩
    rw [sum_nodeWork]
    calc i' ≤ (nodes.map (nodeWork cx T)).sum := by simpa using hi
      _ = ∑ a ∈ nodes.toFinset, nodeWork cx T a := (sum_toFinset _ hnodes).symm
      _ ≤ ∑ a ∈ reachable cx T n, nodeWork cx T a :=
        Finset.sum_le_sum_of_subset fun a ha => hmem a (mem_toFinset.mp ha)

def diamondTable : Table where
  rows := [⟨"group", "a", "member", "group", "b", "member"⟩, ⟨"group", "a", "member", "group", "c", "member"⟩,
    ⟨"group", "b", "member", "group", "d", "member"⟩, ⟨"group", "c", "member", "group", "d", "member"⟩]
  nodup := by decide
  text := by decide

def diamondCtx : EvalCtx := ⟨ringModel, "user", "u", ""⟩

def groupMember (id : String) : Node := ⟨"group", id, "member"⟩

theorem check_work_diamond : diamondCtx.run (diamondTable.serve fun _ => false) (groupMember "a") = .ok false ∧
      diamondCtx.evaluated (diamondTable.serve fun _ => false) (groupMember "a") =
        ["a", "b", "d", "c"].map (fun id => memoKey (groupMember id)) ∧
      diamondCtx.queries (diamondTable.serve fun _ => false) (groupMember "a") = 4 ∧
      diamondCtx.queries (diamondTable.serve fun _ => false) (groupMember "a") ≤
        ∑ a ∈ reachable diamondCtx diamondTable (groupMember "a"), nodeSize diamondCtx a +
          (∑ a ∈ reachable diamondCtx diamondTable (groupMember "a"), nodeReads diamondCtx diamondTable a) *
            diamondCtx.lookups := by
  have hok : diamondCtx.run (diamondTable.serve fun _ => false) (groupMember "a") = .ok false := by decide
  have hcuts : diamondCtx.cutsTaken (diamondTable.serve fun _ => false) (groupMember "a") = 0 := by decide
  exact ⟨hok, by decide, by decide, (check_work (diamondTable.serve_serves _) hok hcuts).2.2⟩

end Kiban
