import Mathlib.Data.List.Nodup
import Mathlib.Data.List.Perm.Subperm
import Mathlib.Logic.Relation
import Mathlib.Logic.Function.Basic

/-!
# Parent pointers

Nodes that each name a parent or none.  `walk` goes up from a node, `descend` down level by level,
and `meets` goes up with a guard against cycles; each takes a bound on its steps.  Where no node is
above itself, the number of nodes bounds every path (`mem_walk_of_reaches`), and giving one node
another parent makes no cycle unless the new parent is below it (`acyclic_update`).
-/

namespace Forest

open List Function

variable {α : Type} {node node' : α → Option (Option α)} {a b c r u : α} {nodes : List α}

def Up (node : α → Option (Option α)) (a b : α) : Prop := node a = some (some b)

abbrev Reaches (node : α → Option (Option α)) : α → α → Prop := Relation.ReflTransGen (Up node)

def IsRoot (node : α → Option (Option α)) (a : α) : Prop := node a = some none

def Acyclic (node : α → Option (Option α)) : Prop := ∀ a, ¬ Relation.TransGen (Up node) a a

def Closed (node : α → Option (Option α)) : Prop := ∀ a b, Up node a b → node b ≠ none

def walk (node : α → Option (Option α)) : Nat → α → List α
  | 0, _ => []
  | n + 1, a =>
    match node a with
    | none => []
    | some none => [a]
    | some (some b) => a :: walk node n b

/-- Whether the walk up from `cur` meets the target before it ends or comes back to where it was. -/
def meets [DecidableEq α] (node : α → Option (Option α)) (target : α) : Nat → α → List α → Bool
  | 0, _, _ => false
  | n + 1, cur, visited =>
    if cur = target then true
    else
      match node cur with
      | some (some next) =>
        if next ∈ cur :: visited then false else meets node target n next (cur :: visited)
      | _ => false

/-- The nodes at most `n` levels below those of a level. -/
def descend (children : α → List α) : Nat → List α → List α
  | 0, level => level
  | n + 1, level => level ++ descend children n (level.flatMap children)

/-! ## Paths -/

theorem up_unique : Relator.RightUnique (Up node) := by
  intro a b c hab hac
  exact Option.some.inj (Option.some.inj (hab.symm.trans hac))

theorem not_up_of_isRoot (h : IsRoot node a) : ¬ Up node a b := by
  intro hup
  exact nomatch h.symm.trans hup

theorem eq_of_isRoot_of_reaches (h : IsRoot node a) (hreach : Reaches node a b) : a = b := by
  rcases hreach.cases_head with heq | ⟨c, hup, _⟩
  · exact heq
  · exact absurd hup (not_up_of_isRoot h)

theorem root_unique {r'} (hr : Reaches node a r) (hroot : IsRoot node r) (hr' : Reaches node a r')
    (hroot' : IsRoot node r') : r = r' := by
  rcases Relation.ReflTransGen.total_of_right_unique up_unique hr hr' with h | h
  · exact eq_of_isRoot_of_reaches hroot h
  · exact (eq_of_isRoot_of_reaches hroot' h).symm

theorem not_transGen_of_root (hreach : Reaches node a r) (hroot : IsRoot node r) :
    ¬ Relation.TransGen (Up node) a a := by
  induction hreach using Relation.ReflTransGen.head_induction_on with
  | refl =>
    intro hcycle
    obtain ⟨c, hup, _⟩ := Relation.TransGen.head'_iff.mp hcycle
    exact not_up_of_isRoot hroot hup
  | head hup _ ih =>
    intro hcycle
    obtain ⟨c, hup', hback⟩ := Relation.TransGen.head'_iff.mp hcycle
    cases up_unique hup hup'
    exact ih (Relation.TransGen.tail' hback hup)

theorem exists_of_reaches (hclo : Closed node) (ha : node a ≠ none) (h : Reaches node a b) : node b ≠ none := by
  rcases h.cases_tail with heq | ⟨c, _, hup⟩
  · exact heq ▸ ha
  · exact hclo c b hup

/-- A forest keeps its paths where nodes go but no parent of a remaining node does. -/
theorem Reaches.restrict (hsub : ∀ a p, node' a = some p → node a = some p) (hclo : Closed node')
    (ha : node' a ≠ none) (h : Reaches node a b) : Reaches node' a b := by
  induction h using Relation.ReflTransGen.head_induction_on with
  | refl => exact Relation.ReflTransGen.refl
  | head hup _ ih =>
    obtain ⟨p, hp⟩ := Option.ne_none_iff_exists'.mp ha
    have hup' : Up node' _ _ := hp.trans ((hsub _ p hp).symm.trans hup)
    exact Relation.ReflTransGen.head hup' (ih (hclo _ _ hup'))

theorem Reaches.mono (hsub : ∀ a p, node' a = some p → node a = some p) (h : Reaches node' a b) :
    Reaches node a b :=
  Relation.ReflTransGen.mono (fun a b hup => hsub a (some b) hup) a b h

theorem Acyclic.mono (hsub : ∀ a p, node' a = some p → node a = some p) (h : Acyclic node) :
    Acyclic node' := fun a hcycle =>
  h a (Relation.TransGen.mono (fun a b hup => hsub a (some b) hup) a a hcycle)

/-! ## Walks -/

theorem reaches_of_mem_walk {n} (h : b ∈ walk node n a) : Reaches node a b := by
  induction n generalizing a with
  | zero => cases h
  | succ n ih =>
    unfold walk at h
    split at h
    · cases h
    · rw [mem_singleton.mp h]
    · rename_i c hup
      rcases mem_cons.mp h with heq | htail
      · rw [heq]
      · exact Relation.ReflTransGen.head hup (ih htail)

theorem exists_of_mem_walk {n} (h : b ∈ walk node n a) : node b ≠ none := by
  induction n generalizing a with
  | zero => cases h
  | succ n ih =>
    unfold walk at h
    split at h
    · cases h
    · rename_i hroot
      rw [mem_singleton.mp h, hroot]
      exact nofun
    · rename_i c hup
      rcases mem_cons.mp h with heq | htail
      · rw [heq, hup]
        exact nofun
      · exact ih htail

theorem nodup_walk (hacyc : Acyclic node) (n : Nat) (a : α) : (walk node n a).Nodup := by
  induction n generalizing a with
  | zero => exact nodup_nil
  | succ n ih =>
    unfold walk
    split
    · exact nodup_nil
    · exact nodup_singleton a
    · rename_i c hup
      refine nodup_cons.mpr ⟨fun hback => hacyc a ?_, ih c⟩
      exact Relation.TransGen.head' hup (reaches_of_mem_walk hback)

theorem length_walk_le (hacyc : Acyclic node) (hnodes : ∀ a, node a ≠ none → a ∈ nodes) (n : Nat)
    (a : α) : (walk node n a).length ≤ nodes.length :=
  (subperm_of_subset (nodup_walk hacyc n a) fun b hb =>
    hnodes b (exists_of_mem_walk hb)).length_le

/-- A walk that misses a node above its start has used up its steps. -/
theorem mem_walk_or_length_eq (h : Reaches node a b) (hb : node b ≠ none) (n : Nat) :
    b ∈ walk node n a ∨ (walk node n a).length = n := by
  induction n generalizing a with
  | zero => exact .inr rfl
  | succ n ih =>
    rcases h.cases_head with rfl | ⟨c, hup, hrest⟩
    · refine .inl ?_
      unfold walk
      split
      · rename_i hnone
        exact absurd hnone hb
      · exact mem_singleton_self a
      · exact mem_cons_self
    · rw [walk, show node a = some (some c) from hup]
      rcases ih hrest with hmem | hlen
      · exact .inl (mem_cons_of_mem a hmem)
      · exact .inr (congrArg Nat.succ hlen)

theorem mem_walk_of_reaches (hacyc : Acyclic node) (hnodes : ∀ a, node a ≠ none → a ∈ nodes)
    (h : Reaches node a b) (hb : node b ≠ none) : b ∈ walk node (nodes.length + 1) a := by
  rcases mem_walk_or_length_eq h hb (nodes.length + 1) with hmem | hlen
  · exact hmem
  · have hle := length_walk_le hacyc hnodes (nodes.length + 1) a
    omega

/-- A walk that meets no root has used up its steps. -/
theorem root_mem_walk_or_length_eq (hclo : Closed node) (ha : node a ≠ none) (n : Nat) :
    (∃ r ∈ walk node n a, IsRoot node r) ∨ (walk node n a).length = n := by
  induction n generalizing a with
  | zero => exact .inr rfl
  | succ n ih =>
    cases hnode : node a with
    | none => exact absurd hnode ha
    | some p =>
      cases p with
      | none =>
        refine .inl ⟨a, ?_, hnode⟩
        rw [walk, hnode]
        exact mem_singleton_self a
      | some c =>
        rw [walk, hnode]
        rcases ih (hclo a c hnode) with ⟨r, hmem, hroot⟩ | hlen
        · exact .inl ⟨r, mem_cons_of_mem a hmem, hroot⟩
        · exact .inr (congrArg Nat.succ hlen)

theorem exists_root_mem_walk (hacyc : Acyclic node) (hclo : Closed node)
    (hnodes : ∀ a, node a ≠ none → a ∈ nodes) (ha : node a ≠ none) :
    ∃ r ∈ walk node (nodes.length + 1) a, IsRoot node r := by
  rcases root_mem_walk_or_length_eq hclo ha (nodes.length + 1) with hroot | hlen
  · exact hroot
  · have hle := length_walk_le hacyc hnodes (nodes.length + 1) a
    omega

section Descend

variable {children : α → List α}

theorem mem_descend_of_mem {level} (h : a ∈ level) (n : Nat) : a ∈ descend children n level := by
  cases n with
  | zero => exact h
  | succ n => exact mem_append_left _ h

theorem mem_descend_succ {n level} (h : a ∈ descend children n level) (hb : b ∈ children a) :
    b ∈ descend children (n + 1) level := by
  induction n generalizing level with
  | zero => exact mem_append_right _ (mem_flatMap.mpr ⟨a, h, hb⟩)
  | succ n ih =>
    rcases mem_append.mp h with hself | hbelow
    · refine mem_append_right _ (mem_descend_of_mem ?_ (n + 1))
      exact mem_flatMap.mpr ⟨a, hself, hb⟩
    · exact mem_append_right _ (ih hbelow)

/-- What walks up to a node is found going down from it. -/
theorem mem_descend_of_mem_walk (hchi : ∀ a b, Up node b a → b ∈ children a) {n}
    (h : u ∈ walk node (n + 1) a) : a ∈ descend children n [u] := by
  induction n generalizing a with
  | zero =>
    unfold walk at h
    split at h
    · cases h
    · rw [mem_singleton.mp h]
      exact mem_singleton_self a
    · rcases mem_cons.mp h with heq | htail
      · rw [heq]
        exact mem_singleton_self a
      · cases htail
  | succ n ih =>
    unfold walk at h
    split at h
    · cases h
    · rw [mem_singleton.mp h]
      exact mem_descend_of_mem (mem_singleton_self a) _
    · rename_i c hup
      rcases mem_cons.mp h with heq | htail
      · rw [heq]
        exact mem_descend_of_mem (mem_singleton_self a) _
      · exact mem_descend_succ (ih htail) (hchi c a hup)

end Descend

variable [DecidableEq α]

theorem not_mem_walk_of_meets (hacyc : Acyclic node) {n cur visited}
    (hvis : ∀ v ∈ visited, Relation.TransGen (Up node) v cur)
    (h : meets node u n cur visited = false) : u ∉ walk node n cur := by
  induction n generalizing cur visited with
  | zero => exact not_mem_nil
  | succ n ih =>
    unfold meets at h
    by_cases heq : cur = u
    · rw [if_pos heq] at h
      cases h
    rw [if_neg heq] at h
    unfold walk
    cases hnode : node cur with
    | none => exact not_mem_nil
    | some p =>
      cases p with
      | none => exact fun hmem => heq (mem_singleton.mp hmem).symm
      | some next =>
        rw [hnode] at h
        have hbef : ∀ v ∈ cur :: visited, Relation.TransGen (Up node) v next := by
          intro v hv
          rcases mem_cons.mp hv with rfl | hold
          · exact .single hnode
          · exact (hvis v hold).tail hnode
        -- the guard fires on a cycle only
        have hnew : next ∉ cur :: visited := fun hback => hacyc next (hbef next hback)
        dsimp only at h
        rw [if_neg hnew] at h
        intro hmem
        rcases mem_cons.mp hmem with hself | htail
        · exact heq hself.symm
        · exact ih hbef h htail

theorem not_reaches_of_meets (hacyc : Acyclic node) (hnodes : ∀ a, node a ≠ none → a ∈ nodes)
    (hu : node u ≠ none) (h : meets node u (nodes.length + 1) a [] = false) : ¬ Reaches node a u :=
  fun hreach => not_mem_walk_of_meets hacyc (forall_mem_nil _) h (mem_walk_of_reaches hacyc hnodes hreach hu)

/-! ## Another parent for one node -/

section Update

variable {p : Option α}

theorem up_update_of_ne (h : a ≠ u) : Up (Function.update node u (some p)) a b ↔ Up node a b := by
  unfold Up
  rw [update_of_ne h]

theorem reaches_update_self (h : Reaches node a u) : Reaches (Function.update node u (some p)) a u := by
  induction h using Relation.ReflTransGen.head_induction_on with
  | refl => exact Relation.ReflTransGen.refl
  | @head a c hup _ ih =>
    by_cases heq : a = u
    · rw [heq]
    · exact Relation.ReflTransGen.head ((up_update_of_ne heq).mpr hup) ih

theorem reaches_update_of_avoids (h : Reaches node a b) (havoid : ¬ Reaches node a u) :
    Reaches (Function.update node u (some p)) a b := by
  induction h using Relation.ReflTransGen.head_induction_on with
  | refl => exact Relation.ReflTransGen.refl
  | @head a c hup _ ih =>
    have hne : a ≠ u := by
      rintro rfl
      exact havoid Relation.ReflTransGen.refl
    exact Relation.ReflTransGen.head ((up_update_of_ne hne).mpr hup)
      (ih fun hreach => havoid (Relation.ReflTransGen.head hup hreach))

theorem isRoot_update_of_ne (h : r ≠ u) : IsRoot (Function.update node u (some p)) r ↔ IsRoot node r := by
  unfold IsRoot
  rw [update_of_ne h]

/-- Where a node below the changed one gets to. -/
theorem reaches_update_root (hreach : Reaches node a u) (hb : Reaches node b r) (hroot : IsRoot node r)
    (havoid : ¬ Reaches node b u) :
    Reaches (Function.update node u (some (some b))) a r ∧ IsRoot (Function.update node u (some (some b))) r := by
  have hne : r ≠ u := by
    rintro rfl
    exact havoid hb
  have hup : Up (Function.update node u (some (some b))) u b := update_self u _ node
  exact ⟨(reaches_update_self hreach).trans (.head hup (reaches_update_of_avoids hb havoid)),
    (isRoot_update_of_ne hne).mpr hroot⟩

theorem acyclic_update (hacyc : Acyclic node) (hclo : Closed node) (hnodes : ∀ a, node a ≠ none → a ∈ nodes)
    (hp : ∀ b, p = some b → node b ≠ none ∧ ¬ Reaches node b u) :
    Acyclic (Function.update node u (some p)) := by
  -- every node that has a parent gets to a root
  have hroo : ∀ a, node a ≠ none → ∃ r, Reaches node a r ∧ IsRoot node r := by
    intro a ha
    obtain ⟨r, hmem, hroot⟩ := exists_root_mem_walk hacyc hclo hnodes ha
    exact ⟨r, reaches_of_mem_walk hmem, hroot⟩
  have hself : ∃ r, Reaches (Function.update node u (some p)) u r ∧ IsRoot (Function.update node u (some p)) r := by
    cases hpar : p with
    | none => exact ⟨u, .refl, update_self u _ node⟩
    | some b =>
      obtain ⟨hb, havoid⟩ := hp b hpar
      obtain ⟨r, hr, hroot⟩ := hroo b hb
      exact ⟨r, reaches_update_root .refl hr hroot havoid⟩
  intro a hcycle
  obtain ⟨c, hup, _⟩ := Relation.TransGen.head'_iff.mp hcycle
  by_cases hreach : Reaches node a u
  · obtain ⟨r, hr, hroot⟩ := hself
    exact not_transGen_of_root ((reaches_update_self hreach).trans hr) hroot hcycle
  have hne : a ≠ u := by
    rintro rfl
    exact hreach .refl
  have ha : node a ≠ none := by
    rw [show node a = some (some c) from (up_update_of_ne hne).mp hup]
    exact nofun
  obtain ⟨r, hr, hroot⟩ := hroo a ha
  have hne' : r ≠ u := by
    rintro rfl
    exact hreach hr
  exact not_transGen_of_root (reaches_update_of_avoids hr hreach) ((isRoot_update_of_ne hne').mpr hroot) hcycle

end Update

end Forest
