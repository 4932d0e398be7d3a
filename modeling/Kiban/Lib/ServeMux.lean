import Mathlib.Data.List.Forall2
import Kiban.Lib.PercentPath

/-!
# Routing by segments

A table of patterns that a request's path is matched against segment by segment, each segment decoded on
its own: a literal goes before a wildcard, and a wildcard before the rest of the path.  A path that is
not clean is answered with a redirect to the one that is.
-/

namespace ServeMux

open PercentPath List Option

inductive Seg where
  | lit (s : Bytes)
  | wild
  /-- the rest of the path, which a slash at the end of a pattern stands for -/
  | multi
  deriving DecidableEq

structure Pattern (α : Type) where
  method : Option String
  segs : List Seg
  handler : α

/-- A slash at the end of the path is a segment of its own. -/
def markEnd (ds : List Bytes) : List Bytes :=
  if ds.getLast? = some [] then ds.dropLast ++ [[slash]] else ds

def spelling (path : Bytes) : List Bytes := (parts path).map fun p => (unescape p).getD p

def segments (path : Bytes) : List Bytes := markEnd (spelling path)

theorem join_spelling {rest path} (h : unescape (slash :: rest) = some path) :
    join (spelling (slash :: rest)) = path := by
  rw [← join_parts rest] at h
  obtain ⟨ds, hds, rfl⟩ := unescape_join _ h
  have hmap : spelling (slash :: rest) = ds := by
    clear h
    unfold spelling
    generalize parts (slash :: rest) = ps at hds
    induction hds with
    | nil => rfl
    | cons hd _ ih => rw [map_cons, hd, ih, getD_some]
  rw [hmap]

/-- The segments of a path that is encoded as a whole are those of the path. -/
theorem spelling_escape {keep} (hslash : keep slash = true) (hper : keep percent = false) {ps}
    (hps : ps ≠ []) : spelling (escape keep (join ps)) = parts (join ps) := by
  rw [spelling, parts_escape hslash hps, List.map_map]
  refine (map_congr_left fun p _ => ?_).trans (map_id _)
  change (unescape (escape keep p)).getD _ = p
  rw [unescape_escape hper, getD_some]

theorem spelling_join_escape {keep} (hslash : keep slash = false) (hper : keep percent = false)
    {ps} (hps : ps ≠ []) : spelling (join (ps.map (escape keep))) = ps := by
  have hparts : parts (join (ps.map (escape keep))) = ps.map (escape keep) := by
    refine parts_join (by rwa [ne_eq, map_eq_nil_iff]) fun p hp => ?_
    obtain ⟨q, _, rfl⟩ := mem_map.mp hp
    exact slash_notMem_escape (.inl hslash)
  rw [spelling, hparts, List.map_map]
  refine (map_congr_left fun p _ => ?_).trans (map_id _)
  change (unescape (escape keep p)).getD _ = p
  rw [unescape_escape hper, getD_some]

theorem markEnd_cons (d d' : Bytes) (ds : List Bytes) : markEnd (d :: d' :: ds) = d :: markEnd (d' :: ds) := by
  unfold markEnd
  rw [getLast?_cons_cons]
  split
  · rw [dropLast_cons_cons, cons_append]
  · rfl

theorem markEnd_concat {d} (hd : d ≠ []) (ds : List Bytes) : markEnd (ds ++ [d]) = ds ++ [d] := by
  unfold markEnd
  rw [getLast?_concat]
  exact if_neg fun h => hd (Option.some.inj h)

theorem head?_markEnd {x} (hempty : x ≠ []) (hend : x ≠ [slash]) (ds : List Bytes) :
    (markEnd ds).head? = some x ↔ ds.head? = some x := by
  match ds with
  | [] => rfl
  | [[]] => exact iff_of_false (fun h => hend (by cases h; rfl)) (fun h => hempty (by cases h; rfl))
  | [_ :: _] => rfl
  | d :: d' :: ds => rw [markEnd_cons, head?_cons, head?_cons]

theorem tail_markEnd (d : Bytes) (ds : List Bytes) : (markEnd (d :: ds)).tail = markEnd ds := by
  match d, ds with
  | [], [] => rfl
  | _ :: _, [] => rfl
  | d, d' :: ds => rw [markEnd_cons, tail_cons]

/-! ## Matching -/

section Match

variable {β : Type}

/-- The children of a node: what the patterns that go on with the segment have left. -/
def follow (s : Seg) (node : List (List Seg × β)) : List (List Seg × β) :=
  node.filterMap fun e =>
    match e.1 with
    | [] => none
    | s' :: rest => if s' = s then some (rest, e.2) else none

def matchPath : List (List Seg × β) → List Bytes → Option (β × List Bytes)
  | node, [] => (node.find? fun e => decide (e.1 = [])).map fun e => (e.2, [])
  | node, x :: xs =>
    (matchPath (follow (.lit x) node) xs).or <| (if x = [slash] then none
        else (matchPath (follow .wild node) xs).map fun r => (r.1, x :: r.2)).or <|
      (node.find? fun e => decide (e.1 = [.multi])).map fun e => (e.2, [])

inductive Matches : List Seg → List Bytes → List Bytes → Prop
  | nil : Matches [] [] []
  | multi (x : Bytes) (xs : List Bytes) : Matches [.multi] (x :: xs) []
  | lit {segs : List Seg} {x : Bytes} {xs values : List Bytes} (h : Matches segs xs values) :
      Matches (.lit x :: segs) (x :: xs) values
  | wild {segs : List Seg} {x : Bytes} {xs values : List Bytes} (hx : x ≠ [slash])
      (h : Matches segs xs values) : Matches (.wild :: segs) (x :: xs) (x :: values)

theorem matches_nil_iff {xs values} : Matches [] xs values ↔ xs = [] ∧ values = [] := by
  constructor
  · intro h
    cases h
    exact ⟨rfl, rfl⟩
  · rintro ⟨rfl, rfl⟩
    exact .nil

theorem matches_lit_iff {a x segs xs values} :
    Matches (.lit a :: segs) (x :: xs) values ↔ x = a ∧ Matches segs xs values := by
  constructor
  · intro h
    cases h with
    | lit h => exact ⟨rfl, h⟩
  · rintro ⟨rfl, h⟩
    exact .lit h

theorem matches_wild_iff {x segs xs values} : Matches (.wild :: segs) (x :: xs) values ↔
      x ≠ [slash] ∧ ∃ rest, values = x :: rest ∧ Matches segs xs rest := by
  constructor
  · intro h
    cases h with
    | wild hx h => exact ⟨hx, _, rfl, h⟩
  · rintro ⟨hx, rest, rfl, h⟩
    exact .wild hx h

theorem matches_lits {ps values} (h : Matches (ps.map .lit) ps values) : values = [] := by
  induction ps with
  | nil => exact (matches_nil_iff.mp h).2
  | cons p ps ih => exact ih (matches_lit_iff.mp h).2

/-- The value of the one wildcard of a pattern. -/
theorem matches_one_wild {pre post values x}
    (h : Matches (pre.map .lit ++ .wild :: post.map .lit) (pre ++ x :: post) values) :
    values = [x] := by
  induction pre with
  | nil =>
    obtain ⟨_, rest, rfl, hrest⟩ := matches_wild_iff.mp h
    rw [matches_lits hrest]
  | cons p pre ih => exact ih (matches_lit_iff.mp h).2

theorem mem_of_mem_follow {s} {node : List (List Seg × β)} {e : List Seg × β}
    (h : e ∈ follow s node) : (s :: e.1, e.2) ∈ node := by
  obtain ⟨e', he', heq⟩ := mem_filterMap.mp h
  obtain ⟨segs, b⟩ := e'
  cases segs with
  | nil => cases heq
  | cons s' rest =>
    dsimp only at heq
    split at heq
    · rename_i hs
      cases heq
      exact hs ▸ he'
    · cases heq

theorem mem_of_matchPath {node : List (List Seg × β)} {xs values : List Bytes} {b}
    (h : matchPath node xs = some (b, values)) :
    ∃ segs, (segs, b) ∈ node ∧ Matches segs xs values := by
  induction xs generalizing node values with
  | nil =>
    obtain ⟨e, he, heq⟩ := map_eq_some_iff.mp h
    cases heq
    have hnil : e.1 = [] := by simpa using find?_some he
    exact ⟨[], hnil ▸ mem_of_find?_eq_some he, .nil⟩
  | cons x xs ih =>
    rw [matchPath, or_eq_some_iff, or_eq_some_iff] at h
    rcases h with hlit | ⟨_, hwild | ⟨_, hmulti⟩⟩
    · obtain ⟨segs, hmem, hmatch⟩ := ih hlit
      exact ⟨.lit x :: segs, mem_of_mem_follow hmem, .lit hmatch⟩
    · obtain ⟨hx, hwild⟩ := ite_none_left_eq_some.mp hwild
      obtain ⟨⟨b', values'⟩, hrest, heq⟩ := map_eq_some_iff.mp hwild
      cases heq
      obtain ⟨segs, hmem, hmatch⟩ := ih hrest
      exact ⟨.wild :: segs, mem_of_mem_follow hmem, .wild hx hmatch⟩
    · obtain ⟨e, he, heq⟩ := map_eq_some_iff.mp hmulti
      cases heq
      have hsegs : e.1 = [.multi] := by simpa using find?_some he
      exact ⟨[.multi], hsegs ▸ mem_of_find?_eq_some he, .multi x xs⟩

theorem matchPath_nil (xs : List Bytes) : matchPath ([] : List (List Seg × β)) xs = none := by
  induction xs with
  | nil => rfl
  | cons x xs ih =>
    have hfol : ∀ s, follow s ([] : List (List Seg × β)) = [] := fun _ => rfl
    rw [matchPath, hfol, hfol, ih]
    simp

theorem matchPath_lit {node : List (List Seg × β)} {x} {xs : List Bytes} {r : β × List Bytes}
    (h : matchPath (follow (.lit x) node) xs = some r) : matchPath node (x :: xs) = some r := by
  rw [matchPath, h, some_or]

theorem matchPath_wild {node : List (List Seg × β)} {x} {xs values : List Bytes} {b}
    (hx : x ≠ [slash]) (hlit : follow (.lit x) node = [])
    (h : matchPath (follow .wild node) xs = some (b, values)) :
    matchPath node (x :: xs) = some (b, x :: values) := by
  rw [matchPath, hlit, matchPath_nil, none_or, if_neg hx, h, map_some, some_or]

/-- Where a pattern ends, and the one with a slash at its end. -/
theorem matchPath_leaf (b b' : β) (x : Bytes) (xs : List Bytes) :
    matchPath [([], b), ([.multi], b')] (x :: xs) = some (b', []) := by
  have hlit : follow (.lit x) [([], b), ([.multi], b')] = [] := rfl
  have hwild : follow .wild [([], b), ([.multi], b')] = [] := rfl
  rw [matchPath, hlit, hwild, matchPath_nil]
  simp

end Match

/-! ## Candidates

What is known of a path, segment by segment, leaves few patterns that can match it. -/

/-- The segments could match, as far as they are known. -/
def fits : List Seg → List (Option Bytes) → Bool
  | [], [] => true
  | [.multi], _ :: _ => true
  | .lit a :: segs, x :: xs => x.all (fun b => decide (a = b)) && fits segs xs
  | .wild :: segs, _ :: xs => fits segs xs
  | _, _ => false

theorem fits_of_matches {segs xs values} (h : Matches segs xs values) {known}
    (hknown : List.Forall₂ (fun k x => ∀ b, k = some b → x = b) known xs) :
    fits segs known = true := by
  induction h generalizing known with
  | nil | multi x xs =>
    cases hknown
    rfl
  | @lit segs x xs values _ ih =>
    cases hknown with
    | @cons k _ known _ hk hrest =>
      have hx : k.all (fun b => decide (x = b)) = true := by
        cases k with
        | none => rfl
        | some b => exact decide_eq_true (hk b rfl)
      change (k.all (fun b => decide (x = b)) && fits segs known) = true
      rw [hx, ih hrest, Bool.and_self]
  | wild _ _ ih =>
    cases hknown with
    | cons _ hrest => exact ih hrest

theorem length_of_fits {segs known} (hmulti : .multi ∉ segs) (h : fits segs known = true) :
    segs.length = known.length := by
  induction segs generalizing known with
  | nil =>
    cases known with
    | nil => rfl
    | cons k known => cases h
  | cons s segs ih =>
    rw [mem_cons, not_or] at hmulti
    cases known with
    | nil => cases s <;> cases segs <;> cases h
    | cons k known =>
      cases s with
      | lit a => exact congrArg Nat.succ (ih hmulti.2 (Bool.and_eq_true_iff.mp h).2)
      | wild => exact congrArg Nat.succ (ih hmulti.2 h)
      | multi => exact absurd rfl hmulti.1

/-- What is known where one part of the path is not. -/
def around (pre : List Bytes) (n : Nat) (post : List Bytes) : List (Option Bytes) :=
  pre.map some ++ List.replicate n none ++ post.map some

theorem fits_around {segs pre xs post values} (h : Matches segs (pre ++ xs ++ post) values) :
    fits segs (around pre xs.length post) = true := by
  have hsome : ∀ l : List Bytes, List.Forall₂ (fun k x => ∀ b, k = some b → x = b) (l.map some) l := by
    intro l
    induction l with
    | nil => exact .nil
    | cons x l ih => exact .cons (fun b hb => Option.some.inj hb) ih
  have hnone : ∀ l : List Bytes,
      List.Forall₂ (fun k x => ∀ b, k = some b → x = b) (List.replicate l.length none) l := by
    intro l
    induction l with
    | nil => exact .nil
    | cons x l ih => exact .cons nofun ih
  exact fits_of_matches h (rel_append (rel_append (hsome pre) (hnone xs)) (hsome post))

/-! ## Serving -/

section Serve

variable {α : Type} (patterns : List (Pattern α))

def node (method : Option String) : List (List Seg × Pattern α) :=
  (patterns.filter fun p => decide (p.method = method)).map fun p => (p.segs, p)

/-- Patterns for the method first; one for `GET` is for `HEAD` too. -/
def lookup (method : String) (path : Bytes) : Option (Pattern α × List Bytes) :=
  (matchPath (node patterns (some method)) (segments path)).or <|
    (if method = "HEAD" then matchPath (node patterns (some "GET")) (segments path) else none).or <|
    matchPath (node patterns none) (segments path)

def exactMatch (segs : List Seg) (path : Bytes) : Bool :=
  decide (segs.getLast? ≠ some .multi) ||
    (decide (path.getLast? = some slash) && decide (segs.length = path.count slash))

def foundExactly (found : Option (Pattern α × List Bytes)) (path : Bytes) : Bool :=
  found.any fun r => exactMatch r.1.segs path

inductive Outcome (α : Type) where
  | redirect
  | notFound
  | handled (handler : α) (values : List Bytes)
  deriving DecidableEq

/-- `path` is the escaped path of the request. -/
def serve (method : String) (path : Bytes) : Outcome α :=
  let cleaned := if method = "CONNECT" then path else cleanPath path
  let found := lookup patterns method cleaned
  -- `/tree` is redirected to `/tree/` if only that is there
  if ¬ foundExactly found cleaned ∧ cleaned.getLast? ≠ some slash ∧
      foundExactly (lookup patterns method (cleaned ++ [slash])) (cleaned ++ [slash]) then .redirect
  else if cleaned ≠ path then .redirect
  else
    match found with
    | some (p, values) => .handled p.handler values
    | none => .notFound

variable {patterns}

theorem serve_eq_handled {method path handler values} : serve patterns method path = .handled handler values ↔
      (method = "CONNECT" ∨ cleanPath path = path) ∧
        ¬ (¬ foundExactly (lookup patterns method path) path ∧ path.getLast? ≠ some slash ∧
          foundExactly (lookup patterns method (path ++ [slash])) (path ++ [slash])) ∧
        ∃ p, p.handler = handler ∧ lookup patterns method path = some (p, values) := by
  have hclean : (if method = "CONNECT" then path else cleanPath path) = path ↔
      method = "CONNECT" ∨ cleanPath path = path := by
    by_cases hcon : method = "CONNECT" <;> simp [hcon]
  rw [← hclean]
  unfold serve
  generalize (if method = "CONNECT" then path else cleanPath path) = cleaned
  by_cases heq : cleaned = path
  · subst heq
    simp only [ne_eq, not_true_eq_false, if_false, true_and]
    split
    · rename_i hredir
      exact iff_of_false (fun h => nomatch h) (fun h => h.1 hredir)
    rename_i hredir
    rw [and_iff_right hredir]
    cases lookup patterns method cleaned with
    | none => simp
    | some found => simp [Prod.ext_iff]
  · simp [heq]

theorem serve_of_lookup {method path p values} (hclean : cleanPath path = path)
    (hlast : p.segs.getLast? ≠ some .multi) (h : lookup patterns method path = some (p, values)) :
    serve patterns method path = .handled p.handler values := by
  refine serve_eq_handled.mpr ⟨.inr hclean, ?_, p, rfl, h⟩
  rintro ⟨hine, _⟩
  refine hine ?_
  rw [h, foundExactly, any_some, exactMatch, decide_eq_true hlast, Bool.true_or]

theorem lookup_of_noMethod (hnone : ∀ p ∈ patterns, p.method = none) (method : String) (path : Bytes) :
    lookup patterns method path = matchPath (node patterns none) (segments path) := by
  have hnode : ∀ m, node patterns (some m) = [] := by
    intro m
    have hfil : (patterns.filter fun p => decide (p.method = some m)) = [] := by
      rw [filter_eq_nil_iff]
      intro p hp
      simp [hnone p hp]
    rw [node, hfil, map_nil]
  rw [lookup, hnode, hnode, matchPath_nil, ite_self, none_or, none_or]

theorem matches_of_lookup {method : String} {path p} {values : List Bytes}
    (h : lookup patterns method path = some (p, values)) :
    p ∈ patterns ∧ Matches p.segs (segments path) values := by
  have hnode : ∀ m, matchPath (node patterns m) (segments path) = some (p, values) →
      p ∈ patterns ∧ Matches p.segs (segments path) values := by
    intro m hm
    obtain ⟨segs, hmem, hmatch⟩ := mem_of_matchPath hm
    obtain ⟨p', hp', heq⟩ := mem_map.mp hmem
    cases heq
    exact ⟨(List.mem_filter.mp hp').1, hmatch⟩
  rw [lookup, or_eq_some_iff, or_eq_some_iff] at h
  rcases h with hmeth | ⟨_, hhead | ⟨_, hany⟩⟩
  · exact hnode _ hmeth
  · exact hnode _ (ite_none_right_eq_some.mp hhead).2
  · exact hnode _ hany

def candidates (patterns : List (Pattern α)) (known : List (Option Bytes)) : List α :=
  (patterns.filter fun p => fits p.segs known).map Pattern.handler

theorem mem_candidates {p known} (hp : p ∈ patterns) (h : fits p.segs known = true) :
    p.handler ∈ candidates patterns known :=
  mem_map.mpr ⟨p, List.mem_filter.mpr ⟨hp, h⟩, rfl⟩

end Serve

end ServeMux
