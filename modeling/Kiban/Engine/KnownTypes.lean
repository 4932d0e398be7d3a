import Kiban.Engine.CheckHolds
import Kiban.Engine.EvalRules

/-!
# Checks that meet only known types

A check looks the type of every node it enters up in the model.  When the types of the nodes it can
meet are all there, no `UNKNOWN_TYPE` comes out of it, in whatever order the rows are served and
whatever the memo holds.
-/

namespace Kiban

open MemoProg

variable {cx : EvalCtx} {T : Table} {α : Type}

def NoUnknownType (T : Table) (x : Eval α) : Prop :=
  ∀ s, (x s).wp (anyMemo T) fun o => ∀ typ, o.1 ≠ .error (.check (.unknownType typ))

def NotUnknownType (e : CheckError) : Prop := ∀ typ, e ≠ .unknownType typ

theorem check_raises_notUnknownType (left : Nat) {n}
    (hmeets : ∀ a, Meets cx T n a → (cx.model.lookup a.objType).isSome = true) :
    Raises T (fun _ => True) NotUnknownType (cx.check left n) := by
  induction left generalizing n with
  | zero =>
    refine enter_raises (fun _ _ => trivial) fun s _ _ => ⟨trivial, fun e h => ?_⟩
    cases h
    exact fun typ h => by cases h
  | succ left ih =>
    refine enter_raises (fun _ _ => trivial) fun s hs _ => ?_
    refine evalNode_raises (fun hnone => ?_) (fun _ typ h => by cases h) (fun _ h => h) (fun _ h => h)
      (fun e he a ha => ih fun b hb => hmeets b (hb.of_hop he ha)) s hs
    have hknown := hmeets n .root
    rw [hnone] at hknown
    cases hknown

theorem check_noUnknownType (left : Nat) {n}
    (hmeets : ∀ a, Meets cx T n a → (cx.model.lookup a.objType).isSome = true) :
    NoUnknownType T (cx.check left n) := by
  intro s
  apply (check_raises_notUnknownType left hmeets s trivial).mono
  intro o ho typ h
  exact ho.2 _ h typ rfl

/-! A node met has the type of the root or one that a row names. -/

section Types

variable {P : String → Prop}

theorem objType_of_mem_exprHops (hrows : ∀ n, ∀ r ∈ T.rowsFor n, P r.subjectType) {n a e}
    (hn : P n.objType) (ha : a ∈ exprHops cx T n e) : P a.objType := by
  obtain hsame | ⟨t, ht, hsame⟩ := (hop_cases e ha).1
  · rw [show a.objType = n.objType from congrArg Prod.fst hsame]
    exact hn
  · rw [show a.objType = t.subjectType from congrArg Prod.fst hsame]
    exact hrows t.node t.row (Table.mem_rowsFor.mpr ht)

theorem objType_of_meets (hrows : ∀ n, ∀ r ∈ T.rowsFor n, P r.subjectType) {n a} (hn : P n.objType)
    (h : Meets cx T n a) : P a.objType := by
  induction h with
  | root => exact hn
  | hop _ _ ha ih => exact objType_of_mem_exprHops hrows ih ha

end Types

theorem run_ne_unknownType {db} (hdb : db.Serves T) {n}
    (hmeets : ∀ a, Meets cx T n a → (cx.model.lookup a.objType).isSome = true) (typ : String) :
    cx.run db n ≠ .error (.check (.unknownType typ)) := by
  have hcheck : NoUnknownType T (cx.check (maxDepth + 1) n) := check_noUnknownType _ hmeets
  exact Prog.wp_run stores_overwrite (fun i q => hdb i q) (hcheck {}) 0 (m := fun _ => none) nofun typ

-- the first row of the first tupleset leads to a type the model does not have
theorem run_tupleset_unknownType {db root ts cu es r rest}
    (he : cx.model.relation? root.objType root.rel = some (.union (.tupleToUserset ts cu :: es)))
    (hrows : db 0 ⟨root.objType, root.objId, ts⟩ = .ok (r :: rest))
    (hdir : r.subjectRelation = "") (hkey : memoKey (r.hop cu) ≠ memoKey root)
    (hunk : cx.model.lookup r.subjectType = none) :
    cx.run db root = .error (.check (.unknownType r.subjectType)) := by
  obtain ⟨typeDef, htype, hrel⟩ := Option.bind_eq_some_iff.mp he
  have hkey' : memoKey ⟨r.subjectType, r.subjectId, cu⟩ ≠ memoKey root := hkey
  simp [EvalCtx.run, maxDepth, EvalCtx.check, enter, evalNode, htype, hrel, evalExpr, evalUnion,
    evalTupleToUserset, fetchRows, bind, Eval.andThen, Prog.bind, Prog.run, hrows,
    evalTupleToUsersetRows, hdir, hkey', hunk]

end Kiban
