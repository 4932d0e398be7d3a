import Mathlib.Data.List.Chain
import Mathlib.Data.List.Count
import Mathlib.Data.List.Nodup
import Mathlib.Logic.Function.Basic
import Mathlib.Logic.Relation

/-!
# Depth-first search for a cycle

The nodes of a graph are white until they are met, grey while the search is below them and black when it is done with
them.  An edge to a grey node closes a cycle, which the path of the search spells out.  The black nodes have only black
successors and are on no cycle.
-/

namespace CycleSearch

open List Function

variable {α : Type} [DecidableEq α]

inductive Color where
  | white
  | grey
  | black
deriving DecidableEq

/-- The nodes on the path are those that the search is below. -/
structure State (α : Type) where
  color : α → Color
  path : List α

def State.start : State α := ⟨fun _ => .white, []⟩

def State.enter (s : State α) (key : α) : State α :=
  ⟨Function.update s.color key .grey, s.path ++ [key]⟩

def State.leave (s : State α) (key : α) : State α :=
  ⟨Function.update s.color key .black, s.path.dropLast⟩

/-- The path from the first occurrence of `dep` on, and back to it. -/
def State.cycle (s : State α) (key dep : α) : List α :=
  if dep ∈ s.path then s.path.dropWhile (· ≠ dep) ++ [dep] else [dep, key, dep]

/-- The successors of `key` one after the other, until a cycle is found.  The outer option is nothing when
the search has not come to an end. -/
def visitAll (visit : α → State α → Option (Option (List α) × State α)) (key : α) :
    List α → State α → Option (Option (List α) × State α)
  | [], s => some (none, s.leave key)
  | dep :: deps, s =>
    match s.color dep with
    | .grey => some (some (s.cycle key dep), s)
    | .black => visitAll visit key deps s
    | .white =>
      match visit dep s with
      | none => none
      | some (some path, s') => some (some path, s')
      | some (none, s') => visitAll visit key deps s'

def visit (next : α → List α) : Nat → α → State α → Option (Option (List α) × State α)
  | 0, _, _ => none
  | fuel + 1, key, s => visitAll (visit next fuel) key (next key) (s.enter key)

def search (visit : α → State α → Option (Option (List α) × State α)) : List α → State α → Option (Option (List α))
  | [], _ => some none
  | key :: keys, s =>
    match s.color key with
    | .white =>
      match visit key s with
      | none => none
      | some (some path, _) => some (some path)
      | some (none, s') => search visit keys s'
    | _ => search visit keys s

def Edge (next : α → List α) (a b : α) : Prop := b ∈ next a

structure ClosedWalk (r : α → α → Prop) (path : List α) : Prop where
  edges : List.IsChain r path
  steps : 2 ≤ path.length
  closed : path.head? = path.getLast?

omit [DecidableEq α] in
theorem ClosedWalk.exists_transGen {r : α → α → Prop} {path} (h : ClosedWalk r path) :
    ∃ a ∈ path, Relation.TransGen r a a := by
  obtain ⟨hedges, hsteps, hclo⟩ := h
  match path, hsteps with
  | a :: b :: rest, _ =>
    have hlast : (b :: rest).getLast (cons_ne_nil b rest) = a := by
      rw [getLast?_cons_cons, getLast?_eq_some_getLast (cons_ne_nil b rest)] at hclo
      exact (Option.some.inj hclo).symm
    obtain ⟨hfirst, hrest⟩ := isChain_cons_cons.mp hedges
    exact ⟨a, mem_cons_self, Relation.TransGen.head' hfirst
      (relationReflTransGen_of_exists_isChain_cons rest hrest hlast)⟩

omit [DecidableEq α] in
/-- The nodes of a closed walk all have an edge that leaves them. -/
theorem ClosedWalk.within {r : α → α → Prop} {inside : α → Prop} (hin : ∀ a b, r a b → inside a)
    {path} (h : ClosedWalk r path) : ClosedWalk (fun a b => r a b ∧ inside b) path := by
  have hchain : ∀ l : List α, List.IsChain r l → (∀ a ∈ l.getLast?, inside a) →
      List.IsChain (fun a b => r a b ∧ inside b) l ∧ ∀ a ∈ l.head?, inside a := by
    intro l
    induction l with
    | nil => exact fun _ _ => ⟨isChain_nil, nofun⟩
    | cons a l ih =>
      intro hl hlast
      cases l with
      | nil => exact ⟨isChain_singleton a, hlast⟩
      | cons b l =>
        obtain ⟨hab, hl⟩ := isChain_cons_cons.mp hl
        rw [getLast?_cons_cons] at hlast
        obtain ⟨hrest, hb⟩ := ih hl hlast
        refine ⟨isChain_cons_cons.mpr ⟨⟨hab, hb b rfl⟩, hrest⟩, ?_⟩
        rintro _ ⟨⟩
        exact hin a b hab
  refine ⟨(hchain path h.edges ?_).1, h.steps, h.closed⟩
  -- the last node is the first, which has an edge
  rw [← h.closed]
  have hsteps := h.steps
  match path, h.edges with
  | a :: b :: rest, hedges =>
    rintro _ ⟨⟩
    exact hin a b (isChain_cons_cons.mp hedges).1

/-! ## What holds during the search -/

structure Good (next : α → List α) (s : State α) : Prop where
  grey : ∀ a, s.color a = .grey ↔ a ∈ s.path
  nodup : s.path.Nodup
  chain : List.IsChain (Edge next) s.path
  closed : ∀ a, s.color a = .black → ∀ b ∈ next a, s.color b = .black
  acyclic : ∀ a, s.color a = .black → ¬ Relation.TransGen (Edge next) a a

/-- What is black stays so, and nothing gets white again. -/
structure Later (s s' : State α) : Prop where
  black : ∀ a, s.color a = .black → s'.color a = .black
  white : ∀ a, s'.color a = .white → s.color a = .white

omit [DecidableEq α] in
theorem Later.trans {s₁ s₂ s₃ : State α} (h : Later s₁ s₂) (h' : Later s₂ s₃) : Later s₁ s₃ :=
  ⟨fun a ha => h'.black a (h.black a ha), fun a ha => h.white a (h'.white a ha)⟩

/-- A visit has found a cycle, or is done with its key and everything below it. -/
def Visited (next : α → List α) (key : α) (path : List α) (s : State α) : Option (List α) × State α → Prop
  | (some cycle, _) => ClosedWalk (Edge next) cycle
  | (none, s') => Good next s' ∧ s'.path = path ∧ Later s s' ∧ s'.color key = .black

section Steps

variable {next : α → List α} {s : State α} {key dep : α} {p : List α}

omit [DecidableEq α] in
theorem good_start : Good next (State.start : State α) where
  grey _ := ⟨nofun, nofun⟩
  nodup := nodup_nil
  chain := isChain_nil
  closed _ h := nomatch h
  acyclic _ h := nomatch h

theorem later_enter (hkey : s.color key ≠ .black) : Later s (s.enter key) := by
  refine ⟨fun a ha => ?_, fun a ha => ?_⟩
  · have hne : a ≠ key := by
      rintro rfl
      exact hkey ha
    exact (update_of_ne hne _ _).trans ha
  · have hne : a ≠ key := by
      rintro rfl
      cases (update_self a _ s.color).symm.trans ha
    exact (update_of_ne hne _ _).symm.trans ha

theorem Good.enter (h : Good next s) (hwhite : s.color key = .white)
    (hchain : List.IsChain (Edge next) (s.path ++ [key])) : Good next (s.enter key) := by
  have hfresh : key ∉ s.path := by
    intro hmem
    cases ((h.grey key).mpr hmem).symm.trans hwhite
  have hother : ∀ a, a ≠ key → (s.enter key).color a = s.color a := fun a hne => update_of_ne hne _ _
  have hself : (s.enter key).color key = .grey := update_self _ _ _
  have hblack : ∀ a, (s.enter key).color a = .black → a ≠ key := by
    rintro a ha rfl
    cases hself.symm.trans ha
  refine ⟨fun a => ?_, nodup_append.mpr ⟨h.nodup, nodup_singleton key, ?_⟩, hchain,
    fun a ha b hb => ?_, fun a ha => ?_⟩
  · by_cases hne : a = key
    · subst hne
      exact iff_of_true hself (mem_append_right _ (mem_singleton.mpr rfl))
    · rw [hother a hne, h.grey]
      show a ∈ s.path ↔ a ∈ s.path ++ [key]
      rw [mem_append, mem_singleton, or_iff_left hne]
  · rintro a ha b hb rfl
    exact hfresh (mem_singleton.mp hb ▸ ha)
  · have hne := hblack a ha
    rw [hother a hne] at ha
    have hb' := h.closed a ha b hb
    have hbne : b ≠ key := by
      rintro rfl
      cases hb'.symm.trans hwhite
    rw [hother b hbne]
    exact hb'
  · rw [hother a (hblack a ha)] at ha
    exact h.acyclic a ha

omit [DecidableEq α] in
theorem Good.black_of_reach (h : Good next s) {a b} (ha : s.color a = .black)
    (hreach : Relation.ReflTransGen (Edge next) a b) : s.color b = .black := by
  induction hreach with
  | refl => exact ha
  | tail _ hedge ih => exact h.closed _ ih _ hedge

theorem Good.leave (h : Good next s) (hpath : s.path = p ++ [key])
    (hdone : ∀ b ∈ next key, s.color b = .black) : Visited next key p s (none, s.leave key) := by
  have hself : (s.leave key).color key = .black := update_self _ _ _
  have hother : ∀ a, a ≠ key → (s.leave key).color a = s.color a := fun a hne => update_of_ne hne _ _
  have hgrey : s.color key = .grey := (h.grey key).mpr (by rw [hpath]; simp)
  have hrest : (s.leave key).path = p := by
    show s.path.dropLast = p
    rw [hpath, dropLast_concat]
  have hnodup := h.nodup
  rw [hpath, nodup_append] at hnodup
  have hfresh : key ∉ p := fun hmem => hnodup.2.2 key hmem key (mem_singleton.mpr rfl) rfl
  have hblack : ∀ a, s.color a = .black → (s.leave key).color a = .black := by
    intro a ha
    by_cases hne : a = key
    · rw [hne]
      exact hself
    · rw [hother a hne]
      exact ha
  refine ⟨⟨fun a => ?_, ?_, ?_, fun a ha b hb => ?_, fun a ha => ?_⟩, hrest, ⟨hblack, fun a ha => ?_⟩, hself⟩
  · rw [hrest]
    by_cases hne : a = key
    · subst hne
      refine iff_of_false (fun hg => ?_) hfresh
      cases hself.symm.trans hg
    · rw [hother a hne, h.grey, hpath, mem_append, mem_singleton, or_iff_left hne]
  · rw [hrest]
    exact hnodup.1
  · have hchain := h.chain
    rw [hpath] at hchain
    rw [hrest]
    exact hchain.left_of_append
  · by_cases hne : a = key
    · exact hblack b (hdone b (hne ▸ hb))
    · rw [hother a hne] at ha
      exact hblack b (h.closed a ha b hb)
  · by_cases hne : a = key
    · -- a cycle through the node would leave it by a black successor and come back to it
      subst hne
      intro hcycle
      obtain ⟨b, hfirst, hreach⟩ := Relation.TransGen.head'_iff.mp hcycle
      cases (h.black_of_reach (hdone b hfirst) hreach).symm.trans hgrey
    · rw [hother a hne] at ha
      exact h.acyclic a ha
  · have hne : a ≠ key := by
      rintro rfl
      cases hself.symm.trans ha
    exact (hother a hne).symm.trans ha

/-- The path from a grey node on, and back to it. -/
theorem Good.closedWalk_cycle (h : Good next s) (hpath : s.path = p ++ [key])
    (hgrey : s.color dep = .grey) (hedge : dep ∈ next key) :
    ClosedWalk (Edge next) (s.cycle key dep) := by
  have hmem : dep ∈ s.path := (h.grey dep).mp hgrey
  have hcycle : s.cycle key dep = s.path.dropWhile (· ≠ dep) ++ [dep] := if_pos hmem
  rw [hcycle]
  obtain ⟨rest, hrest⟩ : ∃ rest, s.path.dropWhile (· ≠ dep) = dep :: rest := by
    obtain ⟨before, rest, hsplit, hfirst⟩ := eq_append_cons_of_mem hmem
    refine ⟨rest, ?_⟩
    rw [hsplit, dropWhile_append_of_pos fun a ha => by simpa using fun ha' : a = dep => hfirst (ha' ▸ ha)]
    simp
  have hsfx : s.path.dropWhile (· ≠ dep) <:+ s.path := dropWhile_suffix _
  have hlast : (s.path.dropWhile (· ≠ dep)).getLast? = some key := by
    obtain ⟨before, hbef⟩ := hsfx
    have hwhole : s.path.getLast? = some key := by rw [hpath, getLast?_concat]
    rw [← hbef, hrest, getLast?_append_of_ne_nil _ (cons_ne_nil dep rest)] at hwhole
    rw [hrest]
    exact hwhole
  refine ⟨isChain_append.mpr ⟨h.chain.suffix hsfx, isChain_singleton dep, ?_⟩, ?_, ?_⟩
  · intro a ha b hb
    rw [hlast] at ha
    cases ha
    cases hb
    exact hedge
  · rw [hrest]
    simp
  · rw [hrest, getLast?_concat]
    rfl

end Steps

/-! ## The search comes to an end -/

def whites (nodes : List α) (s : State α) : Nat := nodes.countP (s.color · = .white)

section Search

variable {next : α → List α} {nodes : List α} {s s' : State α} {key : α} {p : List α}

omit [DecidableEq α] in
theorem whites_mono (h : Later s s') : whites nodes s' ≤ whites nodes s :=
  countP_mono_left fun a _ ha => decide_eq_true (h.white a (of_decide_eq_true ha))

theorem whites_enter (hmem : key ∈ nodes) (hwhite : s.color key = .white) :
    whites nodes (s.enter key) < whites nodes s := by
  unfold whites
  have hother : ∀ a, (s.enter key).color a = .white → a ≠ key ∧ s.color a = .white := by
    intro a ha
    have hne : a ≠ key := by
      rintro rfl
      cases (update_self a _ s.color).symm.trans ha
    exact ⟨hne, (update_of_ne hne _ _).symm.trans ha⟩
  have hmono : ∀ l : List α, l.countP ((s.enter key).color · = .white) ≤ l.countP (s.color · = .white) :=
    fun l => countP_mono_left fun a _ ha => decide_eq_true (hother a (of_decide_eq_true ha)).2
  obtain ⟨before, after, rfl⟩ := append_of_mem hmem
  have hnow : ¬ (s.enter key).color key = .white := fun h => (hother key h).1 rfl
  simp only [countP_append, countP_cons, hwhite, hnow, decide_true, decide_false, if_true,
    Bool.false_eq_true, if_false]
  have hbef := hmono before
  have hafter := hmono after
  omega

def Searches (next : α → List α) (nodes : List α) (fuel : Nat)
    (visit : α → State α → Option (Option (List α) × State α)) : Prop :=
  ∀ key s, Good next s → s.color key = .white → key ∈ nodes →
    List.IsChain (Edge next) (s.path ++ [key]) → whites nodes s ≤ fuel →
    ∃ r, visit key s = some r ∧ Visited next key s.path s r

theorem visitAll_spec {fuel : Nat} {visit : α → State α → Option (Option (List α) × State α)}
    (hvisit : Searches next nodes fuel visit) (hnodes : ∀ a, ∀ b ∈ next a, b ∈ nodes) (deps : List α)
    (hgood : Good next s) (hpath : s.path = p ++ [key]) (hdeps : ∀ b ∈ deps, b ∈ next key)
    (hdone : ∀ b ∈ next key, b ∈ deps ∨ s.color b = .black) (hfuel : whites nodes s ≤ fuel) :
    ∃ r, visitAll visit key deps s = some r ∧ Visited next key p s r := by
  -- along the successors; those behind are black
  induction deps generalizing s with
  | nil =>
    refine ⟨_, rfl, hgood.leave hpath fun b hb => ?_⟩
    rcases hdone b hb with hmem | hblack
    · cases hmem
    · exact hblack
  | cons dep deps ih =>
    have hrest : ∀ b ∈ deps, b ∈ next key := fun b hb => hdeps b (mem_cons_of_mem _ hb)
    have hedge : dep ∈ next key := hdeps dep mem_cons_self
    cases hcolor : s.color dep with
    | grey =>
      refine ⟨(some (s.cycle key dep), s), ?_, hgood.closedWalk_cycle hpath hcolor hedge⟩
      rw [visitAll, hcolor]
    | black =>
      have hdone' : ∀ b ∈ next key, b ∈ deps ∨ s.color b = .black := by
        intro b hb
        rcases hdone b hb with hmem | hblack
        · rcases mem_cons.mp hmem with rfl | hmem
          · exact .inr hcolor
          · exact .inl hmem
        · exact .inr hblack
      obtain ⟨r, hr, hvis⟩ := ih hgood hpath hrest hdone' hfuel
      refine ⟨r, ?_, hvis⟩
      rw [visitAll, hcolor]
      exact hr
    | white =>
      have hchain : List.IsChain (Edge next) (s.path ++ [dep]) := by
        refine isChain_append.mpr ⟨hgood.chain, isChain_singleton dep, fun a ha b hb => ?_⟩
        rw [hpath, getLast?_concat] at ha
        cases ha
        cases hb
        exact hedge
      obtain ⟨⟨found, s₁⟩, hr, hvis⟩ := hvisit dep s hgood hcolor (hnodes key dep hedge) hchain hfuel
      cases found with
      | some path =>
        refine ⟨(some path, s₁), ?_, hvis⟩
        rw [visitAll, hcolor, hr]
      | none =>
        obtain ⟨hgood₁, hpath₁, hlater, hblack⟩ := hvis
        have hdone' : ∀ b ∈ next key, b ∈ deps ∨ s₁.color b = .black := by
          intro b hb
          rcases hdone b hb with hmem | hb'
          · rcases mem_cons.mp hmem with rfl | hmem
            · exact .inr hblack
            · exact .inl hmem
          · exact .inr (hlater.black b hb')
        obtain ⟨⟨found, s₂⟩, hr₂, hvis₂⟩ := ih hgood₁ (hpath₁.trans hpath) hrest hdone'
          ((whites_mono hlater).trans hfuel)
        refine ⟨(found, s₂), ?_, ?_⟩
        · rw [visitAll, hcolor, hr]
          exact hr₂
        cases found with
        | some path => exact hvis₂
        | none =>
          obtain ⟨hgood₂, hpath₂, hlater₂, hkey⟩ := hvis₂
          exact ⟨hgood₂, hpath₂, hlater.trans hlater₂, hkey⟩

theorem visit_spec (hnodes : ∀ a, ∀ b ∈ next a, b ∈ nodes) (fuel : Nat) :
    Searches next nodes fuel (visit next fuel) := by
  induction fuel with
  | zero =>
    intro key s _ hwhite hmem _ hfuel
    have hpos : 0 < whites nodes s := countP_pos_iff.mpr ⟨key, hmem, decide_eq_true hwhite⟩
    omega
  | succ fuel ih =>
    intro key s hgood hwhite hmem hchain hfuel
    have hcount := whites_enter hmem hwhite
    obtain ⟨⟨found, s'⟩, hr, hvis⟩ := visitAll_spec ih hnodes (next key) (hgood.enter hwhite hchain) rfl
      (fun _ hb => hb) (fun _ hb => .inl hb) (by omega)
    refine ⟨(found, s'), hr, ?_⟩
    cases found with
    | some path => exact hvis
    | none =>
      obtain ⟨hgood', hpath, hlater, hblack⟩ := hvis
      refine ⟨hgood', hpath, Later.trans ?_ hlater, hblack⟩
      exact later_enter fun hblack => by cases hwhite.symm.trans hblack

/-- A search among finitely many nodes ends: with a closed walk, or with every key it started from on no
cycle. -/
theorem search_spec (hnodes : ∀ a, ∀ b ∈ next a, b ∈ nodes) {fuel} (keys : List α)
    (hkeys : ∀ k ∈ keys, k ∈ nodes) (hgood : Good next s) (hpath : s.path = [])
    (hfuel : whites nodes s ≤ fuel) :
    ∃ r, search (visit next fuel) keys s = some r ∧ (∀ path, r = some path → ClosedWalk (Edge next) path) ∧
      (r = none → ∀ k ∈ keys, ¬ Relation.TransGen (Edge next) k k) := by
  induction keys generalizing s with
  | nil => exact ⟨none, rfl, nofun, fun _ => nofun⟩
  | cons key keys ih =>
    have hrest : ∀ k ∈ keys, k ∈ nodes := fun k hk => hkeys k (mem_cons_of_mem _ hk)
    -- a key that is black, now or after its visit, is on no cycle
    have hskip : ∀ s', Good next s' → s'.path = [] → whites nodes s' ≤ fuel → s'.color key = .black →
        ∃ r, search (visit next fuel) keys s' = some r ∧ (∀ path, r = some path → ClosedWalk (Edge next) path) ∧
          (r = none → ∀ k ∈ key :: keys, ¬ Relation.TransGen (Edge next) k k) := by
      intro s' hgood' hpath' hfuel' hblack
      obtain ⟨r, hr, hwalk, hnone⟩ := ih hrest hgood' hpath' hfuel'
      refine ⟨r, hr, hwalk, fun hr' k hk => ?_⟩
      rcases mem_cons.mp hk with rfl | hk
      · exact hgood'.acyclic k hblack
      · exact hnone hr' k hk
    cases hcolor : s.color key with
    | black =>
      obtain ⟨r, hr, hres⟩ := hskip s hgood hpath hfuel hcolor
      refine ⟨r, ?_, hres⟩
      rw [search, hcolor]
      exact hr
    | grey =>
      have hmem := (hgood.grey key).mp hcolor
      rw [hpath] at hmem
      cases hmem
    | white =>
      have hchain : List.IsChain (Edge next) (s.path ++ [key]) := by
        rw [hpath]
        exact isChain_singleton key
      obtain ⟨⟨found, s'⟩, hr, hvis⟩ := visit_spec hnodes fuel key s hgood hcolor
        (hkeys key mem_cons_self) hchain hfuel
      cases found with
      | some path =>
        refine ⟨some path, ?_, ?_, nofun⟩
        · rw [search, hcolor, hr]
        · rintro _ ⟨⟩
          exact hvis
      | none =>
        obtain ⟨hgood', hpath', hlater, hblack⟩ := hvis
        obtain ⟨r, hr', hres⟩ := hskip s' hgood' (hpath'.trans hpath) ((whites_mono hlater).trans hfuel) hblack
        refine ⟨r, ?_, hres⟩
        rw [search, hcolor, hr]
        exact hr'

end Search

end CycleSearch
