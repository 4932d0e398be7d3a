import Mathlib.Logic.Function.Basic

/-!
# Programs over a shared memo

A program loads and stores entries of a memo that other programs may be using, and puts questions to an environment
that may answer in more than one way.  Every load, store and question is one atomic step.  `Prog.wp` is the weakest
precondition under a `Rely`: each entry loaded and each answer is one the rely allows, and each entry stored has to be
one too.  So a program meets its postcondition when it runs alone (`Prog.wp_run`) and keeps it when others who store
allowed entries run between its steps (`Prog.wp_step`).
-/

namespace MemoProg

variable {K V Q A α β : Type}

inductive Prog (K V Q A : Type) (α : Type) where
  | ret (a : α)
  | load (k : K) (next : Option V → Prog K V Q A α)
  | store (k : K) (v : V) (next : Prog K V Q A α)
  | ask (q : Q) (next : A → Prog K V Q A α)

def Prog.bind : Prog K V Q A α → (α → Prog K V Q A β) → Prog K V Q A β
  | .ret a, f => f a
  | .load k next, f => .load k fun o => (next o).bind f
  | .store k v next, f => .store k v (next.bind f)
  | .ask q next, f => .ask q fun a => (next a).bind f

/-- What a program may count on: the entries the memo may hold and the answers the environment
may give. -/
structure Rely (K V Q A : Type) where
  entry : K → V → Prop
  answer : Q → A → Prop

def Prog.wp (R : Rely K V Q A) : Prog K V Q A α → (α → Prop) → Prop
  | .ret a, post => post a
  | .load k next, post => ∀ o, (∀ v, o = some v → R.entry k v) → (next o).wp R post
  | .store k v next, post => R.entry k v ∧ next.wp R post
  | .ask q next, post => ∀ a, R.answer q a → (next a).wp R post

theorem Prog.wp_bind (R : Rely K V Q A) (p : Prog K V Q A α) (f : α → Prog K V Q A β)
    (post : β → Prop) : (p.bind f).wp R post ↔ p.wp R fun a => (f a).wp R post := by
  induction p with
  | ret a => rfl
  | load k next ih => exact forall_congr' fun o => imp_congr_right fun _ => ih o
  | store k v next ih => exact and_congr_right fun _ => ih
  | ask q next ih => exact forall_congr' fun a => imp_congr_right fun _ => ih a

theorem Prog.wp.mono {R : Rely K V Q A} {p : Prog K V Q A α} {post post' : α → Prop}
    (h : p.wp R post) (hpost : ∀ a, post a → post' a) : p.wp R post' := by
  induction p with
  | ret a => exact hpost a h
  | load k next ih => exact fun o ho => ih o (h o ho)
  | store k v next ih => exact ⟨h.1, ih h.2⟩
  | ask q next ih => exact fun a ha => ih a (h a ha)

abbrev Memo (K V : Type) := K → Option V

def Memo.Sound (R : Rely K V Q A) (m : Memo K V) : Prop := ∀ k v, m k = some v → R.entry k v

/-- A way to store: the memo afterwards holds nothing but old entries and the stored one. -/
def Stores (put : Memo K V → K → V → Memo K V) : Prop :=
  ∀ m k v k' w, put m k v k' = some w → m k' = some w ∨ (k' = k ∧ w = v)

theorem Memo.Sound.put {R : Rely K V Q A} {put : Memo K V → K → V → Memo K V} (hput : Stores put)
    {m : Memo K V} (hm : m.Sound R) {k : K} {v : V} (hv : R.entry k v) : (put m k v).Sound R := by
  intro k' w hw
  rcases hput m k v k' w hw with hold | ⟨rfl, rfl⟩
  · exact hm k' w hold
  · exact hv

section Put

variable [DecidableEq K]

def overwrite (m : Memo K V) (k : K) (v : V) : Memo K V := Function.update m k (some v)

def keepFirst (m : Memo K V) (k : K) (v : V) : Memo K V :=
  match m k with
  | some _ => m
  | none => Function.update m k (some v)

theorem stores_overwrite : Stores (overwrite (K := K) (V := V)) := by
  intro m k v k' w hw
  unfold overwrite at hw
  by_cases hk : k' = k
  · subst hk
    rw [Function.update_self] at hw
    exact .inr ⟨rfl, (Option.some.inj hw).symm⟩
  · rw [Function.update_of_ne hk] at hw
    exact .inl hw

theorem stores_keepFirst : Stores (keepFirst (K := K) (V := V)) := by
  intro m k v k' w hw
  cases hk : m k with
  | some _ =>
    simp only [keepFirst, hk] at hw
    exact .inl hw
  | none =>
    simp only [keepFirst, hk] at hw
    exact stores_overwrite m k v k' w hw

end Put

/-! ## Alone -/

/-- Run a program alone; `env i` answers the `i`-th question of the run. -/
def Prog.run (put : Memo K V → K → V → Memo K V) (env : Nat → Q → A) :
    Prog K V Q A α → Nat → Memo K V → α × Nat × Memo K V
  | .ret a, i, m => (a, i, m)
  | .load k next, i, m => (next (m k)).run put env i m
  | .store k v next, i, m => next.run put env i (put m k v)
  | .ask q next, i, m => (next (env i q)).run put env (i + 1) m

theorem Prog.wp_run {R : Rely K V Q A} {put : Memo K V → K → V → Memo K V} {env : Nat → Q → A}
    (hput : Stores put) (henv : ∀ i q, R.answer q (env i q)) {p : Prog K V Q A α} {post : α → Prop}
    (hp : p.wp R post) (i : Nat) {m : Memo K V} (hm : m.Sound R) : post (p.run put env i m).1 := by
  induction p generalizing i m with
  | ret a => exact hp
  | load k next ih => exact ih (m k) (hp (m k) (hm k)) i hm
  | store k v next ih => exact ih hp.2 i (hm.put hput hp.1)
  | ask q next ih => exact ih (env i q) (hp _ (henv i q)) (i + 1) hm

def Prog.misses (put : Memo K V → K → V → Memo K V) (env : Nat → Q → A) : Prog K V Q A α → Nat → Memo K V → List K
  | .ret _, _, _ => []
  | .load k next, i, m =>
    match m k with
    | some v => (next (some v)).misses put env i m
    | none => k :: (next none).misses put env i m
  | .store k v next, i, m => next.misses put env i (put m k v)
  | .ask q next, i, m => (next (env i q)).misses put env (i + 1) m

section Bind

variable {put : Memo K V → K → V → Memo K V} {env : Nat → Q → A}

theorem Prog.run_bind (p : Prog K V Q A α) (f : α → Prog K V Q A β) (i : Nat) (m : Memo K V) :
    (p.bind f).run put env i m =
      (f (p.run put env i m).1).run put env (p.run put env i m).2.1 (p.run put env i m).2.2 := by
  induction p generalizing i m with
  | ret a => rfl
  | load k next ih => exact ih (m k) i m
  | store k v next ih => exact ih i (put m k v)
  | ask q next ih => exact ih (env i q) (i + 1) m

theorem Prog.misses_bind (p : Prog K V Q A α) (f : α → Prog K V Q A β) (i : Nat) (m : Memo K V) :
    (p.bind f).misses put env i m = p.misses put env i m ++
      (f (p.run put env i m).1).misses put env (p.run put env i m).2.1 (p.run put env i m).2.2 := by
  induction p generalizing i m with
  | ret a => rfl
  | load k next ih =>
    simp only [Prog.bind, Prog.misses, Prog.run]
    cases hk : m k with
    | some v => exact ih (some v) i m
    | none => exact congrArg (k :: ·) (ih none i m)
  | store k v next ih => exact ih i (put m k v)
  | ask q next ih => exact ih (env i q) (i + 1) m

end Bind

/-! ## Between other programs -/

-- one atomic step on the memo the programs share; `a` is the answer should the step be a question,
-- and a finished program takes none
def Prog.step (put : Memo K V → K → V → Memo K V) (answer : Q → A → Prop)
    [∀ q a, Decidable (answer q a)] (m : Memo K V) (a : A) :
    Prog K V Q A α → Option (Memo K V × Prog K V Q A α)
  | .ret _ => none
  | .load k next => some (m, next (m k))
  | .store k v next => some (put m k v, next)
  | .ask q next => if answer q a then some (m, next a) else none

theorem Prog.wp_step {R : Rely K V Q A} {answer : Q → A → Prop} [∀ q a, Decidable (answer q a)]
    (hans : ∀ q a, answer q a → R.answer q a) {put : Memo K V → K → V → Memo K V}
    (hput : Stores put) {m m' : Memo K V} {a : A} {p p' : Prog K V Q A α} {post : α → Prop}
    (hs : p.step put answer m a = some (m', p')) (hm : m.Sound R) (hp : p.wp R post) :
    m'.Sound R ∧ p'.wp R post := by
  cases p with
  | ret b => cases hs
  | load k next =>
    cases hs
    exact ⟨hm, hp (m k) (hm k)⟩
  | store k v next =>
    cases hs
    exact ⟨hm.put hput hp.1, hp.2⟩
  | ask q next =>
    change (if answer q a then some (m, next a) else none) = some (m', p') at hs
    by_cases ha : answer q a
    · rw [if_pos ha] at hs
      cases hs
      exact ⟨hm, hp a (hans q a ha)⟩
    · rw [if_neg ha] at hs
      cases hs

end MemoProg
