import Kiban.Engine.CheckHolds
import Kiban.Engine.EvalRules

/-!
# When a check fails

The path of a check is a walk through the hops of the definitions that enters no node again.  So the recursion fence is
passed only at the end of a long walk without repetitions, and the other check errors are about nodes that the model
does not define.
-/

namespace Kiban

open MemoProg List

/-- An edge of the expansion graph: the definition of `n` asks about `a`. -/
def Hop (cx : EvalCtx) (T : Table) (n a : Node) : Prop :=
  ∃ e, cx.model.relation? n.objType n.rel = some e ∧ a ∈ exprHops cx T n e

/-- The nodes of a walk from the root, the last one first. -/
inductive Walk (cx : EvalCtx) (T : Table) (root : Node) : List Node → Prop
  | root : Walk cx T root [root]
  | hop {n a : Node} {back : List Node} (h : Walk cx T root (n :: back)) (ha : Hop cx T n a) :
      Walk cx T root (a :: n :: back)

/-- What a check error says of the expansion graph. -/
def Explained (cx : EvalCtx) (T : Table) (root : Node) : CheckError → Prop
  | .depthExceeded a => ∃ back, Walk cx T root (a :: back) ∧ (a :: back).Nodup ∧ maxDepth < back.length
  | .unknownType typ => ∃ a, Meets cx T root a ∧ a.objType = typ ∧ cx.model.lookup typ = none
  | .unknownRelation rel typ => ∃ a, Meets cx T root a ∧ a.objType = typ ∧ a.rel = rel ∧
      cx.model.relation? typ rel = none

variable {cx : EvalCtx} {T : Table} {root n : Node} {back : List Node}

theorem Walk.meets {walk} (h : Walk cx T root walk) : ∀ n ∈ walk, Meets cx T root n := by
  induction h with
  | root => exact forall_mem_singleton.mpr .root
  | hop _ ha ih =>
    obtain ⟨e, he, ha⟩ := ha
    exact forall_mem_cons.mpr ⟨.hop (ih _ mem_cons_self) he ha, ih⟩

/-- A check of `n` at the end of a walk whose other nodes are the ones being visited. -/
theorem check_raises_explained (left : Nat) (hwalk : Walk cx T root (n :: back))
    (hkeys : (back.map memoKey).Nodup) (hdepth : back.length + left = maxDepth + 1) :
    Raises T (fun s => s.visiting = back.map memoKey) (Explained cx T root) (cx.check left n) := by
  induction left generalizing n back with
  | zero =>
    refine enter_raises (fun _ hs => hs) fun s hs hout => ⟨hs, fun e h => ?_⟩
    cases h
    rw [hs] at hout
    have hnodup : ((n :: back).map memoKey).Nodup := nodup_cons.mpr ⟨hout, hkeys⟩
    exact ⟨back, hwalk, hnodup.of_map memoKey, by omega⟩
  | succ left ih =>
    refine enter_raises (fun _ hs => hs) fun s hs hout => ?_
    rw [hs] at hout
    have hmeets := hwalk.meets n mem_cons_self
    have henter : ∀ s : EvalState, s.visiting = back.map memoKey →
        memoKey n :: s.visiting = (n :: back).map memoKey := fun s hs => by rw [hs]; rfl
    have hleave : ∀ s : EvalState, s.visiting = (n :: back).map memoKey →
        s.visiting.filter (· ≠ memoKey n) = back.map memoKey := by
      intro s hs
      rw [hs, map_cons, filter_cons_of_neg (by simp), filter_eq_self]
      intro k hk
      exact decide_eq_true fun hkey => hout (hkey ▸ hk)
    -- the checks below go on with the walk
    have hchk : ∀ e, cx.model.relation? n.objType n.rel = some e → ∀ a ∈ exprHops cx T n e,
        Raises T (fun s => s.visiting = (n :: back).map memoKey) (Explained cx T root) (cx.check left a) := by
      intro e he a ha
      refine ih (.hop hwalk ⟨e, he, ha⟩) (nodup_cons.mpr ⟨hout, hkeys⟩) ?_
      rw [length_cons]
      omega
    exact evalNode_raises (fun hnone => ⟨n, hmeets, rfl, hnone⟩) (fun hnone => ⟨n, hmeets, rfl, rfl, hnone⟩)
      henter hleave hchk s hs

theorem run_error_explained {db : Db} (hdb : db.Serves T) (i : Nat) (memo : Memo String Bool) {e : CheckError}
    (h : ((cx.check (maxDepth + 1) root {}).run overwrite db i memo).1.1 = .error (.check e)) :
    Explained cx T root e := by
  have hcheck : Raises T (fun s => s.visiting = [].map memoKey) (Explained cx T root) (cx.check (maxDepth + 1) root) :=
    check_raises_explained (maxDepth + 1) .root .nil (Nat.zero_add _)
  exact (Prog.wp_run stores_overwrite (fun i q => hdb i q) (hcheck {} rfl) i fun _ _ _ => trivial).2 e h

/-- A check fails with a check error only at the end of a walk of more than `maxDepth` hops without repetitions, or
at a node it meets that the model does not define; whatever the order of the rows, and with whatever memo it begins.
So a cycle of tuples alone never exceeds the depth. -/
theorem engineCheck_error_explained (m : Model) (T : Table) (db : Db) (hdb : db.Serves T) (n : Node)
    (subjType subjId companyId : String) (e : CheckError) :
    (engineCheck m db n subjType subjId = .error (.check e) → Explained ⟨m, subjType, subjId, ""⟩ T n e) ∧
    (engineCheckInCompany m db n subjType subjId companyId = .error (.check e) →
      Explained ⟨m, subjType, subjId, companyId⟩ T n e) ∧
    ∀ i memo, ((EvalCtx.check ⟨m, subjType, subjId, companyId⟩ (maxDepth + 1) n {}).run overwrite db i memo).1.1 =
      .error (.check e) → Explained ⟨m, subjType, subjId, companyId⟩ T n e :=
  ⟨run_error_explained hdb 0 _, run_error_explained hdb 0 _, fun i memo => run_error_explained hdb i memo⟩

def strayTable : Table where
  rows := [⟨"group", "a", "member", "group", "b", "member"⟩, ⟨"group", "b", "member", "group", "a", "member"⟩,
    ⟨"group", "b", "member", "team", "x", "member"⟩]
  nodup := by decide
  text := by decide

theorem engineCheck_error_explained_stray :
    engineCheck ringModel (strayTable.serve fun _ => false) ⟨"group", "a", "member"⟩ "user" "u" =
        .error (.check (.unknownType "team")) ∧
      Explained ⟨ringModel, "user", "u", ""⟩ strayTable ⟨"group", "a", "member"⟩ (.unknownType "team") := by
  have herror : engineCheck ringModel (strayTable.serve fun _ => false) ⟨"group", "a", "member"⟩ "user" "u" =
      .error (.check (.unknownType "team")) := by decide
  exact ⟨herror, (engineCheck_error_explained ringModel strayTable _ (strayTable.serve_serves _) _ "user" "u" ""
    (.unknownType "team")).1 herror⟩

-- the ring alone is no error
example : engineCheck ringModel (ringTable.serve fun _ => false) ⟨"group", "a", "member"⟩ "user" "v" = .ok false := by
  decide

end Kiban
