import Mathlib.Data.List.Basic
import Mathlib.Data.String.Basic

/-!
# Joining with a separator

Two parts joined with a character that is not in the first part, or not in the last, can be told
apart again.
-/

namespace Separator

open List

variable {α : Type*}

theorem cons_split_left {c} {a b s t : List α} (ha : c ∉ a) (hb : c ∉ b)
    (h : a ++ c :: s = b ++ c :: t) : a = b ∧ s = t := by
  induction a generalizing b with
  | nil =>
    cases b with
    | nil => exact ⟨rfl, (List.cons.inj h).2⟩
    | cons y ys => exact absurd (mem_cons.mpr (.inl (List.cons.inj h).1)) hb
  | cons x xs ih =>
    cases b with
    | nil => exact absurd (mem_cons.mpr (.inl (List.cons.inj h).1.symm)) ha
    | cons y ys =>
      obtain ⟨rfl, hrest⟩ := List.cons.inj h
      obtain ⟨rfl, hst⟩ := ih (fun hm => ha (mem_cons_of_mem _ hm))
        (fun hm => hb (mem_cons_of_mem _ hm)) hrest
      exact ⟨rfl, hst⟩

theorem cons_split_right {c} {a b s t : List α} (hs : c ∉ s) (ht : c ∉ t)
    (h : a ++ c :: s = b ++ c :: t) : a = b ∧ s = t := by
  have hrev := congrArg List.reverse h
  simp only [reverse_append, reverse_cons, append_assoc, singleton_append] at hrev
  obtain ⟨hst, hab⟩ := cons_split_left (fun hm => hs (mem_reverse.mp hm))
    (fun hm => ht (mem_reverse.mp hm)) hrev
  exact ⟨reverse_injective hab, reverse_injective hst⟩

theorem split_right {sep : String} {c : Char} (hsep : sep.toList = [c]) {a b s t : String}
    (hs : c ∉ s.toList) (ht : c ∉ t.toList) (h : a ++ sep ++ s = b ++ sep ++ t) :
    a = b ∧ s = t := by
  have hl := congrArg String.toList h
  simp only [String.toList_append, hsep, append_assoc, singleton_append] at hl
  obtain ⟨hab, hst⟩ := cons_split_right hs ht hl
  exact ⟨String.toList_inj.mp hab, String.toList_inj.mp hst⟩

end Separator
