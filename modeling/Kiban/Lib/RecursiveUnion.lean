import Mathlib.Data.List.Dedup

/-!
# Recursive queries with `UNION`

The evaluation of `WITH RECURSIVE … UNION …`: the second branch is run on the rows that the last round added,
until a round adds none.  What comes out is the least set of rows that holds those of the first branch and, with
a row, those that the second branch makes of it.
-/

namespace RecursiveUnion

open List

variable {ρ : Type} [DecidableEq ρ] (step : ρ → List ρ)

inductive Derived (base : List ρ) : ρ → Prop
  | base {r : ρ} (h : r ∈ base) : Derived base r
  | step {r r' : ρ} (h : Derived base r) (hstep : r' ∈ step r) : Derived base r'

/-- The rounds that are left, with the rows so far and those of the last round among them.  Nothing comes out
when the fuel is used up before a round that adds no row. -/
def rounds : Nat → List ρ → List ρ → Option (List ρ)
  | _, result, [] => some result
  | 0, _, _ :: _ => none
  | fuel + 1, result, working@(_ :: _) =>
    let added := (working.flatMap step).dedup.filter (· ∉ result)
    rounds fuel (result ++ added) added

def evaluate (fuel : Nat) (base : List ρ) : Option (List ρ) := rounds step fuel base.dedup base.dedup

variable {step} {base result working : List ρ}

structure Inv (step : ρ → List ρ) (base result working : List ρ) : Prop where
  derived : ∀ r ∈ result, Derived step base r
  base_subset : ∀ r ∈ base, r ∈ result
  closed : ∀ r ∈ result, r ∉ working → ∀ r' ∈ step r, r' ∈ result
  working_subset : ∀ r ∈ working, r ∈ result

theorem inv_base : Inv step base base.dedup base.dedup where
  derived _ h := .base (mem_dedup.mp h)
  base_subset _ h := mem_dedup.mpr h
  closed _ h h' := absurd h h'
  working_subset _ h := h

theorem Inv.round (h : Inv step base result working) :
    Inv step base (result ++ (working.flatMap step).dedup.filter (· ∉ result))
      ((working.flatMap step).dedup.filter (· ∉ result)) := by
  have hadded : ∀ r, r ∈ (working.flatMap step).dedup.filter (· ∉ result) ↔
      (∃ w ∈ working, r ∈ step w) ∧ r ∉ result := by
    intro r
    rw [List.mem_filter, mem_dedup, mem_flatMap, decide_eq_true_iff]
  refine ⟨fun r hr => ?_, fun r hr => mem_append_left _ (h.base_subset r hr), fun r hr hnew r' hr' => ?_,
    fun r hr => mem_append_right _ hr⟩
  · rcases mem_append.mp hr with hr | hr
    · exact h.derived r hr
    · obtain ⟨⟨w, hw, hstep⟩, _⟩ := (hadded r).mp hr
      exact .step (h.derived w (h.working_subset w hw)) hstep
  · -- a row that this round did not add has its successors in the result, or this round adds them
    have hold : r ∈ result := (mem_append.mp hr).resolve_right hnew
    by_cases hin : r' ∈ result
    · exact mem_append_left _ hin
    · refine mem_append_right _ ((hadded r').mpr ⟨⟨r, ?_, hr'⟩, hin⟩)
      by_contra hwor
      exact hin (h.closed r hold hwor r' hr')

omit [DecidableEq ρ] in
theorem Inv.mem_iff (h : Inv step base result []) (r : ρ) : r ∈ result ↔ Derived step base r := by
  refine ⟨h.derived r, fun hr => ?_⟩
  induction hr with
  | base hr => exact h.base_subset _ hr
  | step _ hstep ih => exact h.closed _ ih nofun _ hstep

theorem mem_rounds_iff {fuel rows} (h : Inv step base result working)
    (hrows : rounds step fuel result working = some rows) (r : ρ) :
    r ∈ rows ↔ Derived step base r := by
  induction fuel generalizing result working with
  | zero =>
    cases working with
    | nil =>
      cases hrows
      exact h.mem_iff r
    | cons w ws => cases hrows
  | succ fuel ih =>
    cases working with
    | nil =>
      cases hrows
      exact h.mem_iff r
    | cons w ws => exact ih h.round hrows

/-- The query gives the least fixpoint of its two branches. -/
theorem mem_evaluate_iff {fuel rows} (h : evaluate step fuel base = some rows) (r : ρ) :
    r ∈ rows ↔ Derived step base r :=
  mem_rounds_iff inv_base h r

theorem exists_rounds {rank : ρ → Nat} (hstep : ∀ r, ∀ r' ∈ step r, rank r < rank r') {bound : Nat}
    (hbound : ∀ r, Derived step base r → rank r < bound) {fuel : Nat}
    (h : Inv step base result working) (hfuel : ∀ r ∈ working, bound ≤ fuel + rank r) :
    ∃ rows, rounds step fuel result working = some rows := by
  induction fuel generalizing result working with
  | zero =>
    cases working with
    | nil => exact ⟨result, rfl⟩
    | cons w ws =>
      have hw := hbound w (h.derived w (h.working_subset w mem_cons_self))
      have hlt := hfuel w mem_cons_self
      omega
  | succ fuel ih =>
    cases working with
    | nil => exact ⟨result, rfl⟩
    | cons w ws =>
      refine ih h.round fun r hr => ?_
      obtain ⟨v, hv, hr'⟩ := mem_flatMap.mp (mem_dedup.mp (mem_of_mem_filter hr))
      have hlt := hfuel v hv
      have hrank := hstep v r hr'
      omega

/-- A query whose rows get longer with every round, up to a bound, comes to an end. -/
theorem exists_evaluate {rank : ρ → Nat} (hstep : ∀ r, ∀ r' ∈ step r, rank r < rank r') {fuel : Nat}
    (hbound : ∀ r, Derived step base r → rank r < fuel) : ∃ rows, evaluate step fuel base = some rows :=
  exists_rounds hstep hbound inv_base fun _ _ => Nat.le_add_right fuel _

end RecursiveUnion
