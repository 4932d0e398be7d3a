import Kiban.Engine.Semantics
import Kiban.Lib.Separator

/-!
# The evaluator computes the least fixpoint

`Decides sc V D x` says what `x` answers when the nodes with the keys `V` are on the path, for a question `D` about a
set of nodes that hold: `true` only if `D` is true of the least fixpoint, `false` only if `D` fails on the fixpoint
with the path cut, and `false` with no cut taken only if `D` fails on the least fixpoint itself.  The last part makes a
remembered `false` independent of the path.
-/

namespace Kiban

open MemoProg CutFixpoint List

/-- The nodes an evaluation can meet.  The joined memo key tells a node that holds from all others
among them. -/
structure Scope (cx : EvalCtx) (T : Table) where
  nodes : Set Node
  key_inj : ∀ a ∈ nodes, a ∈ Holds cx T → ∀ b ∈ nodes, memoKey a = memoKey b → a = b
  computed : ∀ n ∈ nodes, ∀ rel, ⟨n.objType, n.objId, rel⟩ ∈ nodes
  hop : ∀ n ∈ nodes, n.IsText → ∀ r ∈ T.rowsFor n, ∀ rel, r.hop rel ∈ nodes

variable {cx : EvalCtx} {T : Table} (sc : Scope cx T)

namespace Scope

/-- A memo entry says of every node in scope with its key whether the node holds; a row query that
succeeds gives the matching rows in some order. -/
def rely : Rely String Bool Node Answer where
  entry k v := ∀ n ∈ sc.nodes, memoKey n = k → (v = true ↔ n ∈ Holds cx T)
  answer n a := ∀ rows, a = .ok rows → n.IsText ∧ rows.Perm (T.rowsFor n)

/-- The nodes on the path, given by their keys. -/
def path (V : List String) : Set Node := { n | n ∈ sc.nodes ∧ memoKey n ∈ V }

theorem path_nil : sc.path [] = ∅ := by
  ext n
  simp [path]

theorem path_cons {n} (hn : n ∈ sc.nodes) (hold : n ∈ Holds cx T) (V : List String) :
    sc.path (memoKey n :: V) = insert n (sc.path V) := by
  ext a
  simp only [path, mem_cons, Set.mem_ofPred_eq, Set.mem_insert_iff]
  constructor
  · rintro ⟨ha, hkey | hkey⟩
    · exact .inl (sc.key_inj n hn hold a ha hkey.symm).symm
    · exact .inr ⟨ha, hkey⟩
  · rintro (rfl | ⟨ha, hkey⟩)
    · exact ⟨hn, .inl rfl⟩
    · exact ⟨ha, .inr hkey⟩

end Scope

/-- What an answer to the question `D`, started in state `s`, has to satisfy. -/
structure Answers (s : EvalState) (D : Set Node → Prop) (r : Except EvalError Bool) (s' : EvalState) : Prop where
  visiting : s'.visiting = s.visiting
  cuts : s.cuts ≤ s'.cuts
  sound : r = .ok true → D (Holds cx T)
  complete : r = .ok false → ¬ D (lfpCut (rules cx T) (sc.path s.visiting))
  uncut : r = .ok false → s'.cuts = s.cuts → ¬ D (Holds cx T)

/-- A computation that only reads rows: it leaves the evaluator's state alone, raises no check error,
and its answer satisfies `P`. -/
def Fetches {α : Type} (R : Rely String Bool Node Answer) (P : α → Prop) (x : Eval α) : Prop :=
  ∀ s, (x s).wp R fun o => o.2 = s ∧ (∀ e, o.1 ≠ .error (.check e)) ∧ ∀ a, o.1 = .ok a → P a

def Decides (V : List String) (D : Set Node → Prop) (x : Eval Bool) : Prop :=
  ∀ s, s.visiting = V → (x s).wp sc.rely fun o => Answers sc s D o.1 o.2

section Rules

variable {sc} {V : List String} {D D' : Set Node → Prop}

theorem Decides.congr {x} (hD : ∀ S, D S ↔ D' S) (hx : Decides sc V D x) : Decides sc V D' x := by
  intro s hs
  apply (hx s hs).mono
  intro o ho
  exact ⟨ho.visiting, ho.cuts, fun h => (hD _).mp (ho.sound h),
    fun h hd => ho.complete h ((hD _).mpr hd), fun h hc hd => ho.uncut h hc ((hD _).mpr hd)⟩

theorem decides_false (hD : ∀ S, ¬ D S) : Decides sc V D (return false) :=
  fun _ _ => ⟨rfl, Nat.le_refl _, nofun, fun _ => hD _, fun _ _ => hD _⟩

theorem decides_true (hD : ∀ S, D S) : Decides sc V D (return true) :=
  fun _ _ => ⟨rfl, Nat.le_refl _, fun _ => hD _, nofun, nofun⟩

theorem decides_error {e} : Decides sc V D (Eval.throw e) :=
  fun _ _ => ⟨rfl, Nat.le_refl _, nofun, nofun, nofun⟩

theorem Decides.after {α : Type} {x f} {P : α → Prop} (hx : Fetches sc.rely P x)
    (hf : ∀ a, P a → Decides sc V D (f a)) : Decides sc V D (x >>= f) := by
  intro s hs
  refine (Prog.wp_bind _ _ _ _).mpr ?_
  apply (hx s).mono
  rintro ⟨r, s'⟩ ⟨hs', _, hP⟩
  obtain rfl : s' = s := hs'
  cases r with
  | error e => exact decides_error s' hs
  | ok a => exact hf a (hP a rfl) s' hs

/-- `if x { return true }`, then the rest. -/
theorem Decides.or {x y} (hx : Decides sc V D x) (hy : Decides sc V D' y) :
    Decides sc V (fun S => D S ∨ D' S) (do if ← x then return true else y) := by
  intro s hs
  refine (Prog.wp_bind _ _ _ _).mpr ?_
  apply (hx s hs).mono
  rintro ⟨r, s'⟩ ho
  have hs' : s'.visiting = V := ho.visiting.trans hs
  match r, ho with
  | .error e, ho => exact ⟨ho.visiting, ho.cuts, nofun, nofun, nofun⟩
  | .ok true, ho => exact ⟨ho.visiting, ho.cuts, fun _ => .inl (ho.sound rfl), nofun, nofun⟩
  | .ok false, ho =>
    apply (hy s' hs').mono
    rintro ⟨r', s''⟩ ho'
    have hpath := ho'.complete
    have hcuts : s.cuts ≤ s'.cuts := ho.cuts
    have hcuts' : s'.cuts ≤ s''.cuts := ho'.cuts
    rw [ho.visiting] at hpath
    refine ⟨ho'.visiting.trans ho.visiting, hcuts.trans hcuts', fun h => .inr (ho'.sound h), ?_, ?_⟩
    · intro h hd
      exact hd.elim (ho.complete rfl) (hpath h)
    -- no cut in the whole means none in either part
    intro h hc hd
    change s''.cuts = s.cuts at hc
    have hfirst : s'.cuts = s.cuts := by omega
    have hsec : s''.cuts = s'.cuts := by omega
    exact hd.elim (ho.uncut rfl hfirst) (ho'.uncut h hsec)

/-- `if !x { return false }`, then the rest. -/
theorem Decides.and {x y} (hx : Decides sc V D x) (hy : Decides sc V D' y) :
    Decides sc V (fun S => D S ∧ D' S) (do if ← x then y else return false) := by
  intro s hs
  refine (Prog.wp_bind _ _ _ _).mpr ?_
  apply (hx s hs).mono
  rintro ⟨r, s'⟩ ho
  have hs' : s'.visiting = V := ho.visiting.trans hs
  match r, ho with
  | .error e, ho => exact ⟨ho.visiting, ho.cuts, nofun, nofun, nofun⟩
  | .ok false, ho =>
    exact ⟨ho.visiting, ho.cuts, nofun, fun _ hd => ho.complete rfl hd.1, fun _ hc hd => ho.uncut rfl hc hd.1⟩
  | .ok true, ho =>
    apply (hy s' hs').mono
    rintro ⟨r', s''⟩ ho'
    have hpath := ho'.complete
    have hcuts : s.cuts ≤ s'.cuts := ho.cuts
    have hcuts' : s'.cuts ≤ s''.cuts := ho'.cuts
    rw [ho.visiting] at hpath
    refine ⟨ho'.visiting.trans ho.visiting, hcuts.trans hcuts',
      fun h => ⟨ho.sound rfl, ho'.sound h⟩, fun h hd => hpath h hd.2, ?_⟩
    intro h hc hd
    change s''.cuts = s.cuts at hc
    have hsec : s''.cuts = s'.cuts := by omega
    exact ho'.uncut h hsec hd.2

end Rules

/-! ## Rows -/

-- a query that succeeds gives the matching rows in some order
def ServedRows (T : Table) (n : Node) (a : Answer) : Prop :=
  ∀ rows, a = .ok rows → n.IsText ∧ rows.Perm (T.rowsFor n)

theorem Fetches.mono {α : Type} {R} {P P' : α → Prop} {x} (hx : Fetches R P x)
    (hP : ∀ a, P a → P' a) : Fetches R P' x := by
  intro s
  apply (hx s).mono
  intro o ho
  exact ⟨ho.1, ho.2.1, fun a ha => hP a (ho.2.2 a ha)⟩

theorem fetches_pure {α : Type} {R} {P : α → Prop} {a} (h : P a) : Fetches R P (return a) :=
  fun _ => ⟨rfl, nofun, fun _ hb => Except.ok.inj hb ▸ h⟩

section Served

variable {R : Rely String Bool Node Answer} (hR : ∀ n a, R.answer n a → ServedRows T n a)

include hR

theorem fetchRows_fetches (n : Node) :
    Fetches R (fun rows => n.IsText ∧ rows.Perm (T.rowsFor n)) (fetchRows n) := by
  intro s a ha
  cases a with
  | error cause => exact ⟨rfl, nofun, nofun⟩
  | ok rows => exact ⟨rfl, nofun, fun _ h => Except.ok.inj h ▸ hR n _ ha rows rfl⟩

theorem anyRow_fetches (n : Node) (p : TupleRow → Bool) :
    Fetches R (fun b => b = true ↔ ∃ r ∈ T.rowsFor n, p r = true)
      (do let rows ← fetchRows n; return rows.any p : Eval Bool) := by
  intro s
  refine (Prog.wp_bind _ _ _ _).mpr ?_
  apply (fetchRows_fetches hR n s).mono
  rintro ⟨r, s'⟩ ⟨hs', hcheck, hrows⟩
  obtain rfl : s' = s := hs'
  cases r with
  | error e => exact ⟨rfl, fun e' h => hcheck e' (Except.error.inj h ▸ rfl), nofun⟩
  | ok rows =>
    refine ⟨rfl, nofun, fun b hb => ?_⟩
    have hperm := (hrows rows rfl).2
    obtain rfl := Except.ok.inj hb
    dsimp only
    rw [any_eq_true]
    exact exists_congr fun r => and_congr_left fun _ => hperm.mem_iff

omit hR

theorem exists_row_iff {n} (row : TupleRow) :
    (∃ r ∈ T.rowsFor n, decide (r.subjectType = row.subjectType ∧ r.subjectId = row.subjectId ∧
      r.subjectRelation = row.subjectRelation) = true) ↔ row.on n ∈ T := by
  simp only [decide_eq_true_eq]
  constructor
  · rintro ⟨r, hr, htype, hid, hrel⟩
    obtain rfl : r = row := by
      cases r
      cases row
      simp_all
    exact Table.mem_rowsFor.mp hr
  · exact fun h => ⟨row, Table.mem_rowsFor.mpr h, rfl, rfl, rfl⟩

include hR

theorem subjectInCompany_fetches (subjType subjId : String) :
    Fetches R (fun b => b = true ↔ InCompany T cx.companyId subjType subjId)
      (cx.subjectInCompany subjType subjId) := by
  unfold EvalCtx.subjectInCompany InCompany
  by_cases horg : subjType = "position" ∨ subjType = "group"
  · rw [if_pos horg, if_pos horg]
    refine (anyRow_fetches hR _ _).mono fun b hb => ?_
    exact hb.trans (exists_row_iff ⟨"company", cx.companyId, ""⟩)
  rw [if_neg horg, if_neg horg]
  by_cases hmb : subjType = "member"
  · rw [if_pos hmb, if_pos hmb]
    refine (anyRow_fetches hR _ _).mono fun b hb => ?_
    exact hb.trans (exists_row_iff ⟨"member", subjId, "mapped_user"⟩)
  · rw [if_neg hmb, if_neg hmb]
    exact fetches_pure (by simp)

theorem followsRow_fetches (r : TupleRow) : Fetches R (fun b => b = true ↔ cx.Follows T r) (cx.followsRow r) := by
  unfold EvalCtx.followsRow EvalCtx.Follows
  by_cases hbound : cx.companyId = ""
  · rw [if_pos hbound]
    exact fetches_pure (by simp [hbound])
  · rw [if_neg hbound]
    refine (subjectInCompany_fetches hR _ _).mono fun b hb => hb.trans ?_
    simp [hbound]

end Served

section Rows

variable {sc} {V : List String} {D : Set Node → Prop} {chk : Node → Eval Bool}

theorem Scope.served (n : Node) (a : Answer) (h : sc.rely.answer n a) : ServedRows T n a := h

theorem evalThisRows_decides (rows : List TupleRow)
    (hchk : ∀ r ∈ rows, ∀ rel, Decides sc V (r.hop rel ∈ ·) (chk (r.hop rel))) :
    Decides sc V (fun S => ∃ r ∈ rows, thisRowHolds cx T S r) (evalThisRows cx chk rows) := by
  induction rows with
  | nil => exact decides_false (by simp)
  | cons r rows ih =>
    have hrest := ih fun r' hr' => hchk r' (mem_cons_of_mem r hr')
    have hr := hchk r mem_cons_self r.subjectRelation
    simp only [exists_mem_cons_iff]
    unfold evalThisRows
    by_cases hdir : r.subjectRelation = ""
    · rw [if_pos hdir]
      by_cases hsubj : r.subjectType = cx.subjType ∧ r.subjectId = cx.subjId
      · rw [if_pos hsubj]
        exact decides_true fun S => .inl (.inl ⟨hdir, hsubj⟩)
      · rw [if_neg hsubj]
        refine hrest.congr fun S => ?_
        simp [thisRowHolds, hdir, EvalCtx.IsSubject, hsubj]
    · rw [if_neg hdir]
      refine Decides.after (followsRow_fetches sc.served r) fun inside hin => ?_
      cases inside with
      | false =>
        have hout : ¬ cx.Follows T r := fun h => by simpa using hin.mpr h
        refine hrest.congr fun S => ?_
        simp [thisRowHolds, hdir, hout]
      | true =>
        refine (hr.or hrest).congr fun S => ?_
        simp [thisRowHolds, hdir, hin.mp rfl]

theorem evalTupleToUsersetRows_decides (cu : String) (rows : List TupleRow)
    (hchk : ∀ r ∈ rows, Decides sc V (r.hop cu ∈ ·) (chk (r.hop cu))) :
    Decides sc V (fun S => ∃ r ∈ rows, tuplesetRowHolds S cu r) (evalTupleToUsersetRows chk cu rows) := by
  induction rows with
  | nil => exact decides_false (by simp)
  | cons r rows ih =>
    have hrest := ih fun r' hr' => hchk r' (mem_cons_of_mem r hr')
    have hr := hchk r mem_cons_self
    simp only [exists_mem_cons_iff]
    unfold evalTupleToUsersetRows
    by_cases hdir : r.subjectRelation = ""
    · rw [if_pos hdir]
      refine (hr.or hrest).congr fun S => ?_
      simp [tuplesetRowHolds, hdir]
    · rw [if_neg hdir]
      refine hrest.congr fun S => ?_
      simp [tuplesetRowHolds, hdir]

end Rows

/-! ## Definitions and nodes -/

section Nodes

variable {sc} {V : List String} {chk : Node → Eval Bool} {n : Node}
  (hn : n ∈ sc.nodes) (hchk : ∀ a ∈ sc.nodes, Decides sc V (a ∈ ·) (chk a))

include hn hchk

theorem evalThis_decides : Decides sc V (exprHolds cx T · n .this) (evalThis cx chk n) := by
  refine Decides.after (fetchRows_fetches sc.served n) fun rows ⟨htext, hperm⟩ => ?_
  have hrows := evalThisRows_decides rows fun r hr rel =>
    hchk _ (sc.hop n hn htext r (hperm.mem_iff.mp hr) rel)
  refine hrows.congr fun S => ?_
  exact exists_congr fun r => and_congr_left fun _ => hperm.mem_iff

theorem evalTupleToUserset_decides (ts cu : String) :
    Decides sc V (exprHolds cx T · n (.tupleToUserset ts cu)) (evalTupleToUserset chk n ts cu) := by
  refine Decides.after (fetchRows_fetches sc.served _) fun rows ⟨htext, hperm⟩ => ?_
  have hrows := evalTupleToUsersetRows_decides cu rows fun r hr =>
    hchk _ (sc.hop _ (sc.computed n hn ts) htext r (hperm.mem_iff.mp hr) cu)
  refine hrows.congr fun S => ?_
  exact exists_congr fun r => and_congr_left fun _ => hperm.mem_iff

omit hn hchk

mutual

theorem evalExpr_decides (hn : n ∈ sc.nodes) (hchk : ∀ a ∈ sc.nodes, Decides sc V (a ∈ ·) (chk a)) :
    ∀ e : Expr, Decides sc V (exprHolds cx T · n e) (evalExpr cx chk n e)
  | .this => evalThis_decides hn hchk
  | .computedUserset rel => hchk _ (sc.computed n hn rel)
  | .tupleToUserset ts cu => evalTupleToUserset_decides hn hchk ts cu
  | .union es => evalUnion_decides hn hchk es
  | .intersection es => evalIntersection_decides hn hchk es

theorem evalUnion_decides (hn : n ∈ sc.nodes) (hchk : ∀ a ∈ sc.nodes, Decides sc V (a ∈ ·) (chk a)) :
    ∀ es : List Expr, Decides sc V (someHolds cx T · n es) (evalUnion cx chk n es)
  | [] => decides_false fun _ h => h
  | e :: es => (evalExpr_decides hn hchk e).or (evalUnion_decides hn hchk es)

theorem evalIntersection_decides (hn : n ∈ sc.nodes) (hchk : ∀ a ∈ sc.nodes, Decides sc V (a ∈ ·) (chk a)) :
    ∀ es : List Expr, Decides sc V (allHold cx T · n es) (evalIntersection cx chk n es)
  | [] => decides_true fun _ => trivial
  | e :: es => (evalExpr_decides hn hchk e).and (evalIntersection_decides hn hchk es)

end

/-- The step that remembers: with the node itself on the path, a `false` means its rule fails on
the fixpoint that cuts it, hence that it does not hold beside the path; an uncut `false` and a
`true` are about the least fixpoint and safe to store. -/
theorem evalNode_decides {n} (hn : n ∈ sc.nodes) (hV : memoKey n ∉ V)
    (hchk : ∀ a ∈ sc.nodes, Decides sc (memoKey n :: V) (a ∈ ·) (chk a)) :
    Decides sc V (n ∈ ·) (evalNode cx chk n) := by
  intro s hs
  unfold evalNode
  cases htype : cx.model.lookup n.objType with
  | none => exact decides_error s hs
  | some typeDef =>
  cases hrel : typeDef.lookup n.rel with
  | none => simp only [hrel]; exact decides_error s hs
  | some e =>
  have he : cx.model.relation? n.objType n.rel = some e := by
    rw [Model.relation?, htype]
    exact hrel
  simp only [hrel]
  refine (Prog.wp_bind _ _ _ _).mpr ?_
  apply (evalExpr_decides hn hchk e _ (by rw [hs])).mono
  rintro ⟨r, s'⟩ ho
  have hvis : s'.visiting.filter (· ≠ memoKey n) = s.visiting := by
    have hout : ∀ k ∈ s.visiting, k ≠ memoKey n := fun k hk hkey => hV (hs ▸ hkey ▸ hk)
    rw [show s'.visiting = memoKey n :: s.visiting from ho.visiting, filter_cons_of_neg (by simp)]
    exact filter_eq_self.mpr (by simpa using hout)
  have hcuts : s.cuts ≤ s'.cuts := ho.cuts
  have hcut : r = .ok false → n ∉ lfpCut (rules cx T) (sc.path s.visiting) := by
    intro hfalse
    -- a node that does not hold at all is in no cut fixpoint, whatever shares its key
    by_cases hold : n ∈ Holds cx T
    · apply notMem_lfpCut_of_insert
      rw [← sc.path_cons hn hold, mem_rules he]
      exact ho.complete hfalse
    · exact fun hmem => hold (lfpCut_subset_lfp _ _ hmem)
  have hsound : r = .ok true → n ∈ Holds cx T := fun h => (mem_holds_iff he).mpr (ho.sound h)
  have huncut : r = .ok false → s'.cuts = s.cuts → n ∉ Holds cx T :=
    fun h hc hmem => ho.uncut h hc ((mem_holds_iff he).mp hmem)
  cases r with
  | error e' => exact ⟨hvis, hcuts, nofun, nofun, nofun⟩
  | ok result =>
    have hans : Answers sc s (n ∈ ·) (.ok result) { s' with visiting := s'.visiting.filter (· ≠ memoKey n) } :=
      ⟨hvis, hcuts, hsound, hcut, huncut⟩
    dsimp only
    split
    · rename_i hstore
      refine ⟨fun a ha hkey => ?_, hans⟩
      cases result with
      | true =>
        have hna := sc.key_inj n hn (hsound rfl) a ha hkey.symm
        exact iff_of_true rfl (hna ▸ hsound rfl)
      | false =>
        have hout := huncut rfl (by simpa using hstore)
        have hanot : a ∉ Holds cx T := fun hold =>
          hout (sc.key_inj a ha hold n hn hkey ▸ hold)
        exact iff_of_false (by decide) hanot
    · exact hans

theorem enter_decides {n} (hn : n ∈ sc.nodes) {body}
    (hbody : memoKey n ∉ V → Decides sc V (n ∈ ·) body) : Decides sc V (n ∈ ·) (enter n body) := by
  intro s hs o ho
  cases o with
  | some v =>
    have hentry := ho v rfl n hn rfl
    refine ⟨rfl, Nat.le_refl _, ?_, ?_, ?_⟩
    · intro h
      exact hentry.mp (Except.ok.inj h)
    · intro h hmem
      have htrue := hentry.mpr (lfpCut_subset_lfp _ _ hmem)
      rw [htrue] at h
      cases h
    · intro h _ hmem
      have htrue := hentry.mpr hmem
      rw [htrue] at h
      cases h
  | none =>
    dsimp only
    split
    · rename_i hvis
      refine ⟨rfl, Nat.le_succ _, nofun, ?_, ?_⟩
      · exact fun _ => notMem_lfpCut_of_mem _ ⟨hn, hvis⟩
      · intro _ hc
        change s.cuts + 1 = s.cuts at hc
        omega
    · rename_i hvis
      exact hbody (hs ▸ hvis) s hs

theorem check_decides (left : Nat) {n} (hn : n ∈ sc.nodes) (V : List String) :
    Decides sc V (n ∈ ·) (cx.check left n) := by
  induction left generalizing n V with
  | zero => exact enter_decides hn fun _ => decides_error
  | succ left ih =>
    refine enter_decides hn fun hV => ?_
    exact evalNode_decides hn hV fun a ha => ih ha _

end Nodes

end Kiban
