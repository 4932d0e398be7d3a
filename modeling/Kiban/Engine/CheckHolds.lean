import Kiban.Engine.EvalCorrect
import Kiban.Engine.Loaded

/-!
# A check answers the least fixpoint

The memo key joins type, id and relation with NUL.  A node read from the table is text, so below a
root object that is text the key identifies the node.  A root object that is not text never gets a
row back, so everything such a check meets is about that one object.
-/

namespace Kiban

open MemoProg CutFixpoint

theorem toList_memoKey (n : Node) :
    (memoKey n).toList = n.objType.toList ++ '\x00' :: (n.objId.toList ++ '\x00' :: n.rel.toList) := by
  simp [memoKey, String.toList_append]

theorem memoKey_inj_of_text {a b} (hat : IsText a.objType) (hai : IsText a.objId)
    (hbt : IsText b.objType) (hbi : IsText b.objId) (h : memoKey a = memoKey b) : a = b := by
  have hl := congrArg String.toList h
  rw [toList_memoKey, toList_memoKey] at hl
  have htype := Separator.cons_split_left hat hbt hl
  have hid := Separator.cons_split_left hai hbi htype.2
  cases a
  cases b
  simp only [Node.mk.injEq, ← String.toList_inj]
  exact ⟨htype.1, hid.1, hid.2⟩

theorem memoKey_inj_of_object {a b} (ht : a.objType = b.objType) (hi : a.objId = b.objId)
    (h : memoKey a = memoKey b) : a = b := by
  have hl := congrArg String.toList h
  rw [toList_memoKey, toList_memoKey, ht, hi] at hl
  have hrel := (List.cons.inj (List.append_cancel_left (List.cons.inj (List.append_cancel_left hl)).2)).2
  cases a
  cases b
  simp only [Node.mk.injEq, ← String.toList_inj]
  exact ⟨congrArg String.toList ht, congrArg String.toList hi, hrel⟩

theorem textObject_hop {T : Table} {n : Node} {r : TupleRow} (hr : r ∈ T.rowsFor n) (rel : String) :
    (r.hop rel).TextObject := by
  have htext := T.text _ (Table.mem_rowsFor.mp hr)
  exact ⟨htext.2.2.2.1, htext.2.2.2.2.1⟩

def textScope (cx : EvalCtx) (T : Table) : Scope cx T where
  nodes := { n | n.TextObject }
  key_inj := fun _ ha _ _ hb h => memoKey_inj_of_text ha.1 ha.2 hb.1 hb.2 h
  computed := fun _ hn _ => hn
  hop := fun _ _ _ _ hr rel => textObject_hop hr rel

def objectScope (cx : EvalCtx) (T : Table) (n : Node) (hn : ¬ n.TextObject) : Scope cx T where
  nodes := { a | a.objType = n.objType ∧ a.objId = n.objId }
  key_inj := fun _ ha _ _ hb h =>
    memoKey_inj_of_object (ha.1.trans hb.1.symm) (ha.2.trans hb.2.symm) h
  computed := fun _ ha _ => ha
  hop := by
    intro a ha htext
    have hobj : n.TextObject := ⟨ha.1 ▸ htext.1, ha.2 ▸ htext.2.1⟩
    exact absurd hobj hn

variable {cx : EvalCtx} {T : Table} {db : Db} {n : Node} {b : Bool}

theorem run_ok_iff_of_scope (sc : Scope cx T) (hn : n ∈ sc.nodes) (hdb : db.Serves T)
    (h : cx.run db n = .ok b) : b = true ↔ n ∈ Holds cx T := by
  have hcheck : Decides sc [] (n ∈ ·) (cx.check (maxDepth + 1) n) := check_decides _ hn []
  have hrun := Prog.wp_run stores_overwrite (fun i q rows hok => hdb i q rows hok)
    (hcheck {} rfl) 0 (m := fun _ => none) nofun
  have hcom := hrun.complete
  rw [sc.path_nil, lfpCut_empty] at hcom
  cases b with
  | true => exact iff_of_true rfl (hrun.sound h)
  | false => exact iff_of_false (by decide) (hcom h)

theorem run_ok_iff (hdb : db.Serves T) (h : cx.run db n = .ok b) : b = true ↔ n ∈ Holds cx T := by
  by_cases hn : n.TextObject
  · exact run_ok_iff_of_scope (textScope cx T) hn hdb h
  · exact run_ok_iff_of_scope (objectScope cx T n hn) ⟨rfl, rfl⟩ hdb h

/-- Whatever the order of the rows, an answer of `Check` or `CheckInCompany` is the answer of the
least fixpoint. -/
theorem engineCheck_ok_iff_holds (m : Model) (T : Table) (db : Db) (hdb : db.Serves T) (n : Node)
    (subjType subjId companyId : String) (b : Bool) :
    (engineCheck m db n subjType subjId = .ok b → (b = true ↔ n ∈ Holds ⟨m, subjType, subjId, ""⟩ T)) ∧
    (engineCheckInCompany m db n subjType subjId companyId = .ok b →
      (b = true ↔ n ∈ Holds ⟨m, subjType, subjId, companyId⟩ T)) :=
  ⟨run_ok_iff hdb, run_ok_iff hdb⟩

/-- A database without failures that hands the rows out in table order, or in reverse where `flip`
says so. -/
def Table.serve (T : Table) (flip : Nat → Bool) : Db := fun i n =>
  if n.IsText then .ok (if flip i then (T.rowsFor n).reverse else T.rowsFor n)
  else .error "invalid byte sequence for encoding \"UTF8\": 0x00"

theorem Table.serve_serves (T : Table) (flip : Nat → Bool) : (T.serve flip).Serves T := by
  intro i n rows h
  unfold Table.serve at h
  split at h
  · rename_i htext
    refine ⟨htext, ?_⟩
    rw [← Except.ok.inj h]
    split
    · exact List.reverse_perm _
    · exact List.Perm.refl _
  · cases h

def ringTable : Table where
  rows := [⟨"group", "a", "member", "group", "b", "member"⟩, ⟨"group", "b", "member", "group", "a", "member"⟩,
    ⟨"group", "b", "member", "user", "u", ""⟩]
  nodup := by decide
  text := by decide

def ringModel : Model := [("group", [("member", .this)])]

theorem engineCheck_ok_iff_holds_ring :
    engineCheck ringModel (ringTable.serve (· % 2 = 1)) ⟨"group", "a", "member"⟩ "user" "u" = .ok true ∧
      ⟨"group", "a", "member"⟩ ∈ Holds ⟨ringModel, "user", "u", ""⟩ ringTable ∧
      ⟨"group", "a", "member"⟩ ∉ Holds ⟨ringModel, "user", "v", ""⟩ ringTable := by
  have hser := ringTable.serve_serves (· % 2 = 1)
  refine ⟨by decide, ?_, ?_⟩
  · exact ((engineCheck_ok_iff_holds ringModel ringTable _ hser ⟨"group", "a", "member"⟩
      "user" "u" "" true).1 (by decide)).mp rfl
  · have hfalse := (engineCheck_ok_iff_holds ringModel ringTable _ hser ⟨"group", "a", "member"⟩
      "user" "v" "" false).1 (by decide)
    simpa using hfalse

end Kiban
