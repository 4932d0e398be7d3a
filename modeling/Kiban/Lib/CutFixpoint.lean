import Mathlib.Order.FixedPoints
import Mathlib.Data.Set.Lattice
import Mathlib.Order.CompletePartialOrder

/-!
# Least fixpoints with nodes cut out or granted

A depth-first evaluator of a monotone system of rules answers "no" at a node it is already evaluating.  What it
computes is the least fixpoint of the rules with the nodes on its path forced out.  Cutting more nodes only loses
members, and a node whose rule fails over the fixpoint that cuts the node itself is outside the fixpoint that does not.
Between the fixpoint with some nodes forced out and the one with them forced in lies that of every system of rules that
agrees with this one elsewhere.
-/

namespace CutFixpoint

variable {α : Type*} (F : Set α →o Set α)

/-- The rules `F` with the nodes of `V` forced out. -/
def cut (V : Set α) : Set α →o Set α where
  toFun S := F S \ V
  monotone' := fun _ _ hST => Set.sdiff_subset_sdiff_left (F.monotone hST)

/-- The members of the least fixpoint of `F` once the nodes of `V` are forced out. -/
def lfpCut (V : Set α) : Set α := OrderHom.lfp (cut F V)

theorem lfpCut_eq (V : Set α) : lfpCut F V = F (lfpCut F V) \ V :=
  (OrderHom.map_lfp (cut F V)).symm

theorem notMem_lfpCut_of_mem {V a} (ha : a ∈ V) : a ∉ lfpCut F V := by
  rw [lfpCut_eq]
  exact fun h => h.2 ha

theorem lfpCut_anti {V W} (hVW : V ⊆ W) : lfpCut F W ⊆ lfpCut F V := by
  apply OrderHom.lfp_le
  change F (lfpCut F V) \ W ⊆ lfpCut F V
  conv_rhs => rw [lfpCut_eq]
  exact Set.sdiff_subset_sdiff_right hVW

@[simp] theorem lfpCut_empty : lfpCut F ∅ = OrderHom.lfp F := by
  unfold lfpCut
  congr 1
  ext S : 2
  exact Set.sdiff_empty

theorem lfpCut_subset_lfp (V : Set α) : lfpCut F V ⊆ OrderHom.lfp F := by
  rw [← lfpCut_empty]
  exact lfpCut_anti F (Set.empty_subset V)

/-- The step of a depth-first search: a node whose rule fails when the node itself is cut as well
does not hold at all, so answering "no" on re-entry loses nothing. -/
theorem notMem_lfpCut_of_insert {V a} (h : a ∉ F (lfpCut F (insert a V))) : a ∉ lfpCut F V := by
  have hpre : F (lfpCut F (insert a V)) \ V ⊆ lfpCut F (insert a V) := by
    rintro b ⟨hb, hbV⟩
    rw [lfpCut_eq]
    refine ⟨hb, ?_⟩
    rintro (rfl | hmem)
    · exact h hb
    · exact hbV hmem
  intro ha
  exact notMem_lfpCut_of_mem F (Set.mem_insert a V) (OrderHom.lfp_le (cut F V) hpre ha)

theorem mem_lfp_of_mem {a} (h : a ∈ F (OrderHom.lfp F)) : a ∈ OrderHom.lfp F := by
  rwa [OrderHom.map_lfp] at h

theorem mem_of_mem_lfp {a} (h : a ∈ OrderHom.lfp F) : a ∈ F (OrderHom.lfp F) := by
  rwa [OrderHom.map_lfp]

/-- The rules `F` with the nodes of `V` forced in. -/
def grant (V : Set α) : Set α →o Set α where
  toFun S := F S ∪ V
  monotone' := fun _ _ hST => Set.union_subset_union_left V (F.monotone hST)

def lfpGrant (V : Set α) : Set α := OrderHom.lfp (grant F V)

theorem lfp_subset_lfpGrant (V : Set α) : OrderHom.lfp F ⊆ lfpGrant F V := by
  apply OrderHom.lfp_le
  conv_rhs => rw [lfpGrant, ← OrderHom.map_lfp (grant F V)]
  exact Set.subset_union_left

section Agree

variable {F} {F' : Set α →o Set α} {V : Set α}

theorem lfpCut_mono (h : ∀ S, F S \ V ⊆ F' S) : lfpCut F V ⊆ lfpCut F' V := by
  apply OrderHom.lfp_le
  conv_rhs => rw [lfpCut_eq]
  exact fun _ ha => ⟨h _ ha, ha.2⟩

theorem lfpGrant_mono (h : ∀ S, F S \ V ⊆ F' S) : lfpGrant F V ⊆ lfpGrant F' V := by
  apply OrderHom.lfp_le
  conv_rhs => rw [lfpGrant, ← OrderHom.map_lfp (grant F' V)]
  rintro a (ha | ha)
  · by_cases hV : a ∈ V
    · exact .inr hV
    · exact .inl (h _ ⟨ha, hV⟩)
  · exact .inr ha

end Agree

end CutFixpoint
