import Kiban.Engine.EvalCorrect

/-!
# Properties of an evaluation by its parts

A property of computations that the loops and the connectives of a definition keep holds of its evaluation as soon as
it holds of the checks below it.  `EvalRules` lists what has to be kept; `c` bounds what a computation spends itself.
-/

namespace Kiban

open MemoProg List

/-! ## What a definition spends -/

mutual

def Expr.size : Expr → Nat
  | .this => 1
  | .computedUserset _ => 1
  | .tupleToUserset _ _ => 1
  | .union es => 1 + Expr.sizeAll es
  | .intersection es => 1 + Expr.sizeAll es
termination_by structural e => e

def Expr.sizeAll : List Expr → Nat
  | [] => 0
  | e :: es => e.size + Expr.sizeAll es
termination_by structural es => es

end

def usersetRows (rows : List TupleRow) : Nat := rows.countP fun r => r.subjectRelation ≠ ""

mutual

def usersetReads (T : Table) (n : Node) : Expr → Nat
  | .this => usersetRows (T.rowsFor n)
  | .computedUserset _ => 0
  | .tupleToUserset _ _ => 0
  | .union es => usersetReadsAll T n es
  | .intersection es => usersetReadsAll T n es
termination_by structural e => e

def usersetReadsAll (T : Table) (n : Node) : List Expr → Nat
  | [] => 0
  | e :: es => usersetReads T n e + usersetReadsAll T n es
termination_by structural es => es

end

/-- The most lookups that a userset row costs: one in a check that is bound to a company. -/
def EvalCtx.lookups (cx : EvalCtx) : Nat := if cx.companyId = "" then 0 else 1

structure EvalRules (cx : EvalCtx) (T : Table) where
  Spec : Nat → Eval Bool → Prop
  ret : ∀ b, Spec 0 (return b)
  mono : ∀ {c c' x}, c ≤ c' → Spec c x → Spec c' x
  rows : ∀ {c n f}, (∀ rows, n.IsText → rows.Perm (T.rowsFor n) → Spec c (f rows)) →
    Spec (1 + c) (fetchRows n >>= f)
  follows : ∀ {c r f}, (∀ b, (b = true ↔ cx.Follows T r) → Spec c (f b)) →
    Spec (cx.lookups + c) (cx.followsRow r >>= f)
  -- both kinds of `if` on a nested answer
  ite : ∀ {c c' x y z}, Spec c x → Spec c' y → Spec c' z → Spec (c + c') (do if ← x then y else z)

section Expr

variable {cx : EvalCtx} {T : Table} (R : EvalRules cx T) {chk : Node → Eval Bool} {n : Node}

theorem evalThisRows_spec (rows : List TupleRow)
    (hchk : ∀ r ∈ rows, r.subjectRelation ≠ "" → cx.Follows T r → R.Spec 0 (chk (r.hop r.subjectRelation))) :
    R.Spec (usersetRows rows * cx.lookups) (evalThisRows cx chk rows) := by
  induction rows with
  | nil => exact R.mono (Nat.zero_le _) (R.ret false)
  | cons r rows ih =>
    have hrest := ih fun r' hr' => hchk r' (mem_cons_of_mem r hr')
    unfold evalThisRows usersetRows
    by_cases hdir : r.subjectRelation = ""
    · rw [if_pos hdir, countP_cons_of_neg (by simp [hdir])]
      split
      · exact R.mono (Nat.zero_le _) (R.ret true)
      · exact hrest
    · rw [if_neg hdir, countP_cons_of_pos (by simp [hdir]), Nat.succ_mul, Nat.add_comm]
      refine R.follows fun inside hin => ?_
      cases inside with
      | false => exact hrest
      | true =>
        have hr := hchk r mem_cons_self hdir (hin.mp rfl)
        have htrue := R.mono (Nat.zero_le (usersetRows rows * cx.lookups)) (R.ret true)
        exact R.mono (Nat.zero_add _).le (R.ite hr htrue hrest)

theorem evalTupleToUsersetRows_spec (cu : String) (rows : List TupleRow)
    (hchk : ∀ r ∈ rows, r.subjectRelation = "" → R.Spec 0 (chk (r.hop cu))) :
    R.Spec 0 (evalTupleToUsersetRows chk cu rows) := by
  induction rows with
  | nil => exact R.ret false
  | cons r rows ih =>
    have hrest := ih fun r' hr' => hchk r' (mem_cons_of_mem r hr')
    unfold evalTupleToUsersetRows
    by_cases hdir : r.subjectRelation = ""
    · rw [if_pos hdir]
      exact R.ite (hchk r mem_cons_self hdir) (R.ret true) hrest
    · rw [if_neg hdir]
      exact hrest

mutual

theorem evalExpr_spec : ∀ e : Expr, (∀ a ∈ exprHops cx T n e, R.Spec 0 (chk a)) →
      R.Spec (e.size + usersetReads T n e * cx.lookups) (evalExpr cx chk n e)
  | .this => by
    intro hchk
    refine R.rows fun rows _ hperm => ?_
    have hcount : usersetRows rows = usersetRows (T.rowsFor n) := hperm.countP_eq _
    have hrows := evalThisRows_spec R rows fun r hr huser hfol =>
      hchk _ ⟨r, hperm.mem_iff.mp hr, ⟨huser, hfol⟩, rfl⟩
    rw [hcount] at hrows
    exact hrows
  | .computedUserset rel => fun hchk => R.mono (Nat.zero_le _) (hchk ⟨n.objType, n.objId, rel⟩ rfl)
  | .tupleToUserset ts cu => by
    intro hchk
    refine R.mono (Nat.le_add_right 1 _) (R.rows (c := 0) fun rows _ hperm => ?_)
    exact evalTupleToUsersetRows_spec R cu rows fun r hr hdir => hchk _ ⟨r, hperm.mem_iff.mp hr, hdir, rfl⟩
  | .union es => fun hchk => R.mono (Nat.add_le_add_right (Nat.le_add_left _ 1) _) (evalUnion_spec es hchk)
  | .intersection es => fun hchk =>
    R.mono (Nat.add_le_add_right (Nat.le_add_left _ 1) _) (evalIntersection_spec es hchk)

theorem evalUnion_spec : ∀ es : List Expr, (∀ a ∈ exprHopsAll cx T n es, R.Spec 0 (chk a)) →
      R.Spec (Expr.sizeAll es + usersetReadsAll T n es * cx.lookups) (evalUnion cx chk n es)
  | [] => fun _ => R.mono (Nat.zero_le _) (R.ret false)
  | e :: es => by
    intro hchk
    have he := evalExpr_spec e fun a ha => hchk a (.inl ha)
    have hes := evalUnion_spec es fun a ha => hchk a (.inr ha)
    refine R.mono (le_of_eq ?_) (R.ite he (R.mono (Nat.zero_le _) (R.ret true)) hes)
    simp only [Expr.sizeAll, usersetReadsAll, Nat.add_mul]
    omega

theorem evalIntersection_spec : ∀ es : List Expr, (∀ a ∈ exprHopsAll cx T n es, R.Spec 0 (chk a)) →
      R.Spec (Expr.sizeAll es + usersetReadsAll T n es * cx.lookups) (evalIntersection cx chk n es)
  | [] => fun _ => R.mono (Nat.zero_le _) (R.ret true)
  | e :: es => by
    intro hchk
    have he := evalExpr_spec e fun a ha => hchk a (.inl ha)
    have hes := evalIntersection_spec es fun a ha => hchk a (.inr ha)
    refine R.mono (le_of_eq ?_) (R.ite he hes (R.mono (Nat.zero_le _) (R.ret false)))
    simp only [Expr.sizeAll, usersetReadsAll, Nat.add_mul]
    omega

end

end Expr

/-! ## Which errors come out -/

-- rows of `T`, and any entry in the memo
def anyMemo (T : Table) : Rely String Bool Node Answer where
  entry _ _ := True
  answer := ServedRows T

/-- The check errors that come out satisfy `Q`, and the state keeps satisfying `Inv`, whatever the memo holds. -/
def Raises {α : Type} (T : Table) (Inv : EvalState → Prop) (Q : CheckError → Prop) (x : Eval α) : Prop :=
  ∀ s, Inv s → (x s).wp (anyMemo T) fun o => Inv o.2 ∧ ∀ e, o.1 = .error (.check e) → Q e

section Raises

variable {cx : EvalCtx} {T : Table} {Inv Inv' : EvalState → Prop} {Q : CheckError → Prop} {n : Node}

theorem raises_pure {α : Type} (a : α) : Raises T Inv Q (return a) := fun _ hs => ⟨hs, fun _ h => by cases h⟩

theorem Raises.after {α β : Type} {P : α → Prop} {x} {f : α → Eval β} (hx : Fetches (anyMemo T) P x)
    (hf : ∀ a, P a → Raises T Inv Q (f a)) : Raises T Inv Q (x >>= f) := by
  intro s hs
  refine (Prog.wp_bind _ _ _ _).mpr ?_
  apply (hx s).mono
  rintro ⟨r, s'⟩ ⟨hs', hcheck, hP⟩
  obtain rfl : s' = s := hs'
  cases r with
  | error e => exact ⟨hs, fun e' h => absurd (congrArg Except.error (Except.error.inj h)) (hcheck e')⟩
  | ok a => exact hf a (hP a rfl) s' hs

theorem Raises.ite {x y z : Eval Bool} (hx : Raises T Inv Q x) (hy : Raises T Inv Q y)
    (hz : Raises T Inv Q z) : Raises T Inv Q (do if ← x then y else z) := by
  intro s hs
  refine (Prog.wp_bind _ _ _ _).mpr ?_
  apply (hx s hs).mono
  rintro ⟨r, s'⟩ ⟨hs', hr⟩
  match r, hr with
  | .error e, hr => exact ⟨hs', fun e' h => hr e' (congrArg Except.error (Except.error.inj h))⟩
  | .ok true, _ => exact hy s' hs'
  | .ok false, _ => exact hz s' hs'

def raisesRules (cx : EvalCtx) (T : Table) (Inv : EvalState → Prop) (Q : CheckError → Prop) : EvalRules cx T where
  Spec _ x := Raises T Inv Q x
  ret := raises_pure
  mono _ h := h
  rows hf := .after (fetchRows_fetches (fun _ _ h => h) _) fun rows h => hf rows h.1 h.2
  follows hf := .after (followsRow_fetches (fun _ _ h => h) _) hf
  ite := Raises.ite

theorem enter_raises {body} (hcut : ∀ s, Inv s → Inv { s with cuts := s.cuts + 1 })
    (hbody : ∀ s, Inv s → memoKey n ∉ s.visiting → (body s).wp (anyMemo T) fun o => Inv o.2 ∧
      ∀ e, o.1 = .error (.check e) → Q e) :
    Raises T Inv Q (enter n body) := by
  intro s hs o _
  cases o with
  | some v => exact ⟨hs, fun _ h => by cases h⟩
  | none =>
    dsimp only
    split
    · exact ⟨hcut s hs, fun _ h => by cases h⟩
    · rename_i hout
      exact hbody s hs hout

theorem evalNode_raises {chk} (htype : cx.model.lookup n.objType = none → Q (.unknownType n.objType))
    (hrel : cx.model.relation? n.objType n.rel = none → Q (.unknownRelation n.rel n.objType))
    (henter : ∀ s, Inv s → Inv' { s with visiting := memoKey n :: s.visiting })
    (hleave : ∀ s, Inv' s → Inv { s with visiting := s.visiting.filter (· ≠ memoKey n) })
    (hchk : ∀ e, cx.model.relation? n.objType n.rel = some e → ∀ a ∈ exprHops cx T n e, Raises T Inv' Q (chk a)) :
    Raises T Inv Q (evalNode cx chk n) := by
  intro s hs
  unfold evalNode
  cases hlook : cx.model.lookup n.objType with
  | none =>
    refine ⟨hs, fun e h => ?_⟩
    cases h
    exact htype hlook
  | some typeDef =>
    have hrela : cx.model.relation? n.objType n.rel = typeDef.lookup n.rel := by
      rw [Model.relation?, hlook]
      rfl
    cases hexpr : typeDef.lookup n.rel with
    | none =>
      simp only [hexpr]
      refine ⟨hs, fun e h => ?_⟩
      cases h
      exact hrel (hrela.trans hexpr)
    | some e =>
      simp only [hexpr]
      refine (Prog.wp_bind _ _ _ _).mpr ?_
      apply (evalExpr_spec (raisesRules cx T Inv' Q) e (hchk e (hrela.trans hexpr)) _ (henter s hs)).mono
      rintro ⟨r, s'⟩ ⟨hs', hr⟩
      cases r with
      | error e' => exact ⟨hleave s' hs', fun e'' h => hr e'' (congrArg Except.error (Except.error.inj h))⟩
      | ok result =>
        dsimp only
        split
        · exact ⟨trivial, hleave s' hs', fun _ h => by cases h⟩
        · exact ⟨hleave s' hs', fun _ h => by cases h⟩

end Raises

end Kiban
