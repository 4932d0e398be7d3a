import Mathlib.Data.Finset.Basic
import Mathlib.Data.Finset.SDiff
import Mathlib.Data.Finset.Dedup

/-!
# Journals of additions and removals

Replaying a journal rebuilds a set.  A journal records the change from one set to another faithfully
when replaying it on the first gives the second and every addition in it adds something that is not
there yet.  Faithful records compose.
-/

namespace Journal

variable {α : Type*} [DecidableEq α]

inductive Entry (α : Type*) where
  | add (a : α)
  | remove (a : α)

variable (S : Finset α)

def Entry.apply : Entry α → Finset α
  | .add a => insert a S
  | .remove a => S.erase a

def replay (es : List (Entry α)) : Finset α := es.foldl Entry.apply S

def Entry.FreshIn : Entry α → Prop
  | .add a => a ∉ S
  | .remove _ => True

def Fresh : Finset α → List (Entry α) → Prop
  | _, [] => True
  | S, e :: es => e.FreshIn S ∧ Fresh (e.apply S) es

structure Records (S : Finset α) (es : List (Entry α)) (S' : Finset α) : Prop where
  replay : replay S es = S'
  fresh : Fresh S es

theorem replay_append (es es' : List (Entry α)) : replay S (es ++ es') = replay (replay S es) es' :=
  List.foldl_append

theorem fresh_append {S} {es es' : List (Entry α)} :
    Fresh S (es ++ es') ↔ Fresh S es ∧ Fresh (replay S es) es' := by
  induction es generalizing S with
  | nil => exact (and_iff_right trivial).symm
  | cons e es ih =>
    change e.FreshIn S ∧ Fresh (e.apply S) (es ++ es') ↔ _
    rw [ih, ← and_assoc]
    rfl

theorem Records.nil : Records S [] S := ⟨rfl, trivial⟩

theorem Records.append {S S' S''} {es es' : List (Entry α)} (h : Records S es S')
    (h' : Records S' es' S'') : Records S (es ++ es') S'' := by
  have hrep : Journal.replay S (es ++ es') = S'' := by
    rw [replay_append, h.replay, h'.replay]
  have hfresh : Fresh S (es ++ es') := by
    rw [fresh_append, h.replay]
    exact ⟨h.fresh, h'.fresh⟩
  exact ⟨hrep, hfresh⟩

theorem Records.add {S : Finset α} {a : α} (h : a ∉ S) : Records S [.add a] (insert a S) :=
  ⟨rfl, h, trivial⟩

theorem Records.remove (a : α) : Records S [.remove a] (S.erase a) :=
  ⟨rfl, trivial, trivial⟩

-- the removals of a list take all of it away, in whatever order it stands
theorem Records.removes (l : List α) : Records S (l.map .remove) (S \ l.toFinset) := by
  induction l generalizing S with
  | nil =>
    rw [List.toFinset_nil, Finset.sdiff_empty]
    exact Records.nil S
  | cons a l ih =>
    have hset : S.erase a \ l.toFinset = S \ (a :: l).toFinset := by
      rw [List.toFinset_cons]
      ext b
      simp only [Finset.mem_sdiff, Finset.mem_erase, Finset.mem_insert]
      tauto
    rw [← hset]
    exact (Records.remove S a).append (ih (S.erase a))

theorem notMem_replay_of_fresh {S} {es es' : List (Entry α)} {a} (h : Fresh S (es ++ .add a :: es')) :
    a ∉ replay S es :=
  (fresh_append.mp h).2.1

end Journal
