import Mathlib.Data.List.Induction

/-!
# Runs of a step function

A machine takes inputs one by one and refuses those that do not fit its state.  `Reach` collects the
states a run can end in when each input it takes is good in the state it is taken in; a property of
the first state that every good step keeps holds in all of them.
-/

namespace Runs

open List Option

variable {σ ι : Type*} {step : σ → ι → Option σ} {good : σ → ι → Prop} {s₀ s : σ}

inductive Reach (step : σ → ι → Option σ) (good : σ → ι → Prop) (s₀ : σ) : σ → Prop
  | start : Reach step good s₀ s₀
  | next {s s' : σ} {i : ι} (h : Reach step good s₀ s) (hgood : good s i)
      (hstep : step s i = some s') : Reach step good s₀ s'

theorem Reach.invariant {Inv : σ → Prop} (h : Reach step good s₀ s) (h₀ : Inv s₀)
    (hkeep : ∀ s s' i, Inv s → good s i → step s i = some s' → Inv s') : Inv s := by
  induction h with
  | start => exact h₀
  | next _ hgood hstep ih => exact hkeep _ _ _ ih hgood hstep

theorem Reach.trans {s'} (h : Reach step good s₀ s) (h' : Reach step good s s') :
    Reach step good s₀ s' := by
  induction h' with
  | start => exact h
  | next _ hgood hstep ih => exact ih.next hgood hstep

/-- What every step keeps, where it may speak about the inputs so far. -/
theorem foldlM_history {Inv : List ι → σ → Prop} (is : List ι) (h : is.foldlM step s₀ = some s) (h₀ : Inv [] s₀)
    (hkeep : ∀ pre i s s', pre.foldlM step s₀ = some s → Inv pre s → step s i = some s' → Inv (pre ++ [i]) s') :
    Inv is s := by
  induction is using List.reverseRecOn generalizing s with
  | nil =>
    cases h
    exact h₀
  | append_singleton is i ih =>
    rw [foldlM_append] at h
    obtain ⟨s₁, hs₁, hlast⟩ := bind_eq_some_iff.mp h
    have hstep : step s₁ i = some s := by simpa using hlast
    exact hkeep is i s₁ s hs₁ (ih hs₁) hstep

theorem reach_of_foldlM (is : List ι) (h : is.foldlM step s₀ = some s)
    (hgood : ∀ i ∈ is, ∀ s, good s i) : Reach step good s₀ s := by
  have hkeep : ∀ pre i s s', pre.foldlM step s₀ = some s → ((∀ j ∈ pre, ∀ s, good s j) → Reach step good s₀ s) →
      step s i = some s' → (∀ j ∈ pre ++ [i], ∀ s, good s j) → Reach step good s₀ s' := by
    intro pre i s s' _ ih hstep hgood
    have hreach := ih fun j hj => hgood j (mem_append_left _ hj)
    exact hreach.next (hgood i (by simp) s) hstep
  exact foldlM_history is h (fun _ => .start) hkeep hgood

/-- A run whose steps are checked to be good as it goes. -/
theorem reach_of_checked (check : σ → ι → Bool) (hcheck : ∀ s i, check s i = true → good s i)
    (is : List ι) (h : is.foldlM (fun s i => if check s i then step s i else none) s₀ = some s) :
    Reach step good s₀ s := by
  induction is using List.reverseRecOn generalizing s with
  | nil =>
    cases h
    exact .start
  | append_singleton is i ih =>
    rw [foldlM_append] at h
    obtain ⟨s₁, hs₁, hlast⟩ := bind_eq_some_iff.mp h
    have hstep : (if check s₁ i then step s₁ i else none) = some s := by simpa using hlast
    obtain ⟨hgood, hstep⟩ := ite_none_right_eq_some.mp hstep
    exact (ih hs₁).next (hcheck s₁ i hgood) hstep

/-- A run given by its inputs, with no condition on them. -/
theorem foldlM_invariant {Inv : σ → Prop} (is : List ι) (h : is.foldlM step s₀ = some s)
    (h₀ : Inv s₀) (hkeep : ∀ s s' i, Inv s → step s i = some s' → Inv s') : Inv s := by
  induction is generalizing s₀ with
  | nil =>
    cases h
    exact h₀
  | cons i is ih =>
    rw [foldlM_cons] at h
    cases hstep : step s₀ i with
    | none =>
      rw [hstep] at h
      cases h
    | some s₁ =>
      rw [hstep] at h
      exact ih h (hkeep s₀ s₁ i h₀ hstep)

/-- Where a step from a state with the property keeps it exactly when its input is good, a run has
the property all along exactly when all its inputs are good.  `Side` holds of every state anyway. -/
theorem foldlM_all_iff (Side Inv : σ → Prop) (hside₀ : Side s₀) (h₀ : Inv s₀)
    (hside : ∀ s i s', Side s → step s i = some s' → Side s')
    (hstep : ∀ s i s', Side s → Inv s → step s i = some s' → (Inv s' ↔ good s i)) (is : List ι)
    (hrun : is.foldlM step s₀ = some s) :
    (∀ (pre post : List ι) s', is = pre ++ post → pre.foldlM step s₀ = some s' → Inv s') ↔
      ∀ pre i post s', is = pre ++ i :: post → pre.foldlM step s₀ = some s' → good s' i := by
  have hsides : ∀ (pre : List ι) s', pre.foldlM step s₀ = some s' → Side s' := fun pre s' h =>
    foldlM_invariant pre h hside₀ fun s s' i hs => hside s i s' hs
  constructor
  · intro hall pre i post s' his hpre
    rw [his, foldlM_append, hpre, bind_eq_bind, bind_some, foldlM_cons] at hrun
    obtain ⟨s'', hs'', _⟩ := bind_eq_some_iff.mp hrun
    have hafter : (pre ++ [i]).foldlM step s₀ = some s'' := by
      rw [foldlM_append, hpre, bind_eq_bind, bind_some, foldlM_cons, hs'']
      rfl
    refine (hstep s' i s'' (hsides pre s' hpre) (hall pre (i :: post) s' his hpre) hs'').mp ?_
    exact hall (pre ++ [i]) post s'' (by rw [his, append_assoc]; rfl) hafter
  · intro hgood pre
    induction pre using List.reverseRecOn with
    | nil =>
      intro post s' _ hpre
      cases hpre
      exact h₀
    | append_singleton pre i ih =>
      intro post s' his hpre
      rw [append_assoc] at his
      rw [foldlM_append] at hpre
      obtain ⟨s₁, hs₁, hlast⟩ := bind_eq_some_iff.mp hpre
      have hstep₁ : step s₁ i = some s' := by simpa using hlast
      exact (hstep s₁ i s' (hsides pre s₁ hs₁) (ih (i :: post) s₁ his hs₁) hstep₁).mpr (hgood pre i post s₁ his hs₁)

theorem reach_of_run {is : List ι} (h : is.foldlM step s₀ = some s) :
    Reach step (fun _ _ => True) s₀ s := reach_of_foldlM is h fun _ _ _ => trivial

/-- Where a step from a sound state has the property exactly when its input is good, and a good one leads to
a sound state, the steps of a run all have the property exactly when its inputs are all good. -/
theorem foldlM_steps_iff {P : σ → ι → σ → Prop} {Sound : σ → Prop} (h₀ : Sound s₀)
    (hstep : ∀ s i s', Sound s → step s i = some s' → (P s i s' ↔ good s i))
    (hkeep : ∀ s i s', Sound s → good s i → step s i = some s' → Sound s') (is : List ι)
    (hrun : is.foldlM step s₀ = some s) :
    (∀ pre i post s₁ s₂, is = pre ++ i :: post → pre.foldlM step s₀ = some s₁ → step s₁ i = some s₂ → P s₁ i s₂) ↔
      ∀ pre i post s₁, is = pre ++ i :: post → pre.foldlM step s₀ = some s₁ → good s₁ i := by
  induction is generalizing s₀ with
  | nil =>
    refine iff_of_true (fun pre i post _ _ his => ?_) fun pre i post _ his => ?_
    · exact absurd his.symm (by simp)
    · exact absurd his.symm (by simp)
  | cons j is ih =>
    rw [foldlM_cons] at hrun
    obtain ⟨s', hs', hrest⟩ := bind_eq_some_iff.mp hrun
    have hhead := hstep s₀ j s' h₀ hs'
    constructor
    · intro hall pre i post s₁ his hpre
      have hgood := hhead.mp (hall [] j is s₀ s' rfl rfl hs')
      have htail := (ih (hkeep s₀ j s' h₀ hgood hs') hrest).mp fun pre' i' post' s₁ s₂ his' hpre' =>
        hall (j :: pre') i' post' s₁ s₂ (by rw [his']; rfl) (by rw [foldlM_cons, hs']; exact hpre')
      cases pre with
      | nil =>
        cases his
        cases hpre
        exact hgood
      | cons k pre =>
        cases his
        rw [foldlM_cons, hs'] at hpre
        exact htail pre i post s₁ rfl hpre
    · intro hgood pre i post s₁ s₂ his hpre hs₂
      have hfirst := hgood [] j is s₀ rfl rfl
      have htail := (ih (hkeep s₀ j s' h₀ hfirst hs') hrest).mpr fun pre' i' post' s₁ his' hpre' =>
        hgood (j :: pre') i' post' s₁ (by rw [his']; rfl) (by rw [foldlM_cons, hs']; exact hpre')
      cases pre with
      | nil =>
        cases his
        cases hpre
        cases hs'.symm.trans hs₂
        exact hhead.mpr hfirst
      | cons k pre =>
        cases his
        rw [foldlM_cons, hs'] at hpre
        exact htail pre i post s₁ s₂ rfl hpre hs₂

/-! ## Machines that take every input -/

/-- Where a step from a state with the property keeps it exactly when its input is good, a run has
the property all along exactly when all its inputs are good. -/
theorem foldl_all_iff {step} {Inv : σ → Prop} (h₀ : Inv s₀)
    (hstep : ∀ s i, Inv s → (Inv (step s i) ↔ good s i)) (is : List ι) :
    (∀ pre post, is = pre ++ post → Inv (pre.foldl step s₀)) ↔
      ∀ pre i post, is = pre ++ i :: post → good (pre.foldl step s₀) i := by
  constructor
  · intro hall pre i post his
    have hbef := hall pre (i :: post) his
    have hafter := hall (pre ++ [i]) post (by rw [his, append_assoc]; rfl)
    rw [foldl_append] at hafter
    exact (hstep _ i hbef).mp hafter
  · intro hgood pre
    induction pre using List.reverseRecOn with
    | nil => exact fun _ _ => h₀
    | append_singleton pre i ih =>
      intro post his
      rw [append_assoc] at his
      rw [foldl_append]
      exact (hstep _ i (ih (i :: post) his)).mpr (hgood pre i post his)

end Runs
