import Mathlib.Data.List.Basic
import Mathlib.Order.Nat

/-!
# The tokens of a migration

The text of a migration as the scan reads it: comments are dropped, and strings, dollar quotes and
quoted identifiers are tokens of their own.  A text is a list of characters that stand for its bytes.
-/

namespace Kiban.Migrations

open List

/-- What is called here of the packages `strings` and `fmt`: `ToLower`, `ToUpper` and the verb `%q`.
Beyond ASCII the two follow the tables of Unicode. -/
structure GoText where
  toLower : List Char → List Char
  toUpper : List Char → List Char
  quote : String → String
  toLower_ascii : ∀ cs : List Char, (∀ c ∈ cs, c.toNat < 0x80) → toLower cs = cs.map Char.toLower
  toUpper_ascii : ∀ cs : List Char, (∀ c ∈ cs, c.toNat < 0x80) → toUpper cs = cs.map Char.toUpper

inductive TokKind where
  | ident
  | string
  | number
  | punct
deriving DecidableEq

/-- The text of a quoted identifier is verbatim and never a keyword, that of any other identifier is in
lower case. -/
structure Token where
  kind : TokKind
  text : String
  quoted : Bool := false
deriving DecidableEq

def Token.isPunct (t : Token) (p : String) : Bool := t.kind = .punct ∧ t.text = p

def isDigit (c : Char) : Bool := '0' ≤ c ∧ c ≤ '9'

def isIdentStart (c : Char) : Bool :=
  c = '_' ∨ ('a' ≤ c ∧ c ≤ 'z') ∨ ('A' ≤ c ∧ c ≤ 'Z') ∨ 0x80 ≤ c.toNat

def isIdentChar (c : Char) : Bool := isIdentStart c || isDigit c || c = '$'

def apostrophe : Char := Char.ofNat 39

def quotationMark : Char := Char.ofNat 34

def backslash : Char := Char.ofNat 92

/-- The rest of the text after a block comment that is open `depth` levels below its outermost one. -/
def skipComment : Nat → List Char → List Char
  | _, [] => []
  | _, [_] => []
  | depth, c :: d :: cs =>
    if c = '/' ∧ d = '*' then skipComment (depth + 1) cs
    else if c = '*' ∧ d = '/' then
      if depth = 0 then cs else skipComment (depth - 1) cs
    else skipComment depth (d :: cs)

/-- What stands up to the closing `q`, and the rest of the text after it.  A doubled `q` stands for
itself; in an `E` string so does whatever follows a backslash. -/
def scanQuoted (q : Char) (escaped : Bool) : List Char → List Char × List Char
  | [] => ([], [])
  | [c] => if c = q then ([], []) else ([c], [])
  | c :: d :: cs =>
    if escaped ∧ c = backslash then
      let (body, rest) := scanQuoted q escaped cs
      (d :: body, rest)
    else if c = q then
      if d = q then
        let (body, rest) := scanQuoted q escaped cs
        (q :: body, rest)
      else ([], d :: cs)
    else
      let (body, rest) := scanQuoted q escaped (d :: cs)
      (c :: body, rest)

/-- `strings.Index`: the text before the first `tag`, and what follows it. -/
def cutAt (tag : List Char) : List Char → Option (List Char × List Char)
  | [] => none
  | c :: cs =>
    if tag.isPrefixOf (c :: cs) then some ([], (c :: cs).drop tag.length)
    else (cutAt tag cs).map fun (before, rest) => (c :: before, rest)

def isTagChar (c : Char) : Bool := isIdentChar c && c ≠ '$'

/-- The token after a `$`: the quote `$tag$ … $tag$`, a parameter as `$1`, or the sign itself. -/
def scanDollar (cs : List Char) : Token × List Char :=
  let tag := cs.takeWhile isTagChar
  let after := cs.dropWhile isTagChar
  if after.head? = some '$' ∧ (tag = [] ∨ tag.head?.any isIdentStart) then
    match cutAt ('$' :: tag ++ ['$']) after.tail with
    | some (body, rest) => ({ kind := .string, text := .ofList body }, rest)
    | none => ({ kind := .string, text := .ofList after.tail }, [])
  else if cs.head?.any isDigit then
    ({ kind := .number, text := "$" }, cs.dropWhile fun c => c = '$' || isDigit c)
  else ({ kind := .punct, text := "$" }, cs)

variable (go : GoText)

/-- One turn of the loop of `tokenize`, at the character `c`. -/
def nextToken (c : Char) (cs : List Char) : Option Token × List Char :=
  if c = ' ' ∨ c = '\t' ∨ c = '\n' ∨ c = '\r' then (none, cs)
  else if c = '-' ∧ cs.head? = some '-' then (none, cs.dropWhile (· ≠ '\n'))
  else if c = '/' ∧ cs.head? = some '*' then (none, skipComment 0 cs.tail)
  else if c = apostrophe then
    let (body, rest) := scanQuoted apostrophe false cs
    (some { kind := .string, text := .ofList body }, rest)
  else if (c = 'e' ∨ c = 'E') ∧ cs.head? = some apostrophe then
    let (body, rest) := scanQuoted apostrophe true cs.tail
    (some { kind := .string, text := .ofList body }, rest)
  else if c = quotationMark then
    let (body, rest) := scanQuoted quotationMark false cs
    (some { kind := .ident, text := .ofList body, quoted := true }, rest)
  else if c = '$' then
    let (t, rest) := scanDollar cs
    (some t, rest)
  else if isIdentStart c then
    (some { kind := .ident, text := .ofList (go.toLower (c :: cs.takeWhile isIdentChar)) },
      cs.dropWhile isIdentChar)
  else if isDigit c then
    let numeric := fun c => isIdentChar c || c = '.'
    (some { kind := .number, text := .ofList (c :: cs.takeWhile numeric) }, cs.dropWhile numeric)
  else (some { kind := .punct, text := .ofList [c] }, cs)

def tokensWithin : Nat → List Char → List Token
  | 0, _ => []
  | _, [] => []
  | fuel + 1, c :: cs =>
    let (t, rest) := nextToken go c cs
    t.toList ++ tokensWithin fuel rest

def tokenize (src : List Char) : List Token := tokensWithin go src.length src

/-- The statements between the `;` of a text, without the empty ones. -/
def splitStatements (toks : List Token) : List (List Token) :=
  (toks.splitOnP (·.isPunct ";")).filter (· ≠ [])

/-! ## Every turn of the loop reads a character

so the loop of `tokenize` is never cut short. -/

theorem length_skipComment_le (depth : Nat) (cs : List Char) : (skipComment depth cs).length ≤ cs.length := by
  induction depth, cs using skipComment.induct with
  | case1 | case2 => simp [skipComment]
  | case3 depth c d cs h ih =>
    rw [skipComment, if_pos h]
    simp only [length_cons]
    omega
  | case4 c d cs h₁ h₂ =>
    rw [skipComment, if_neg h₁, if_pos h₂, if_pos rfl]
    simp only [length_cons]
    omega
  | case5 depth c d cs h₁ h₂ h₃ ih =>
    rw [skipComment, if_neg h₁, if_pos h₂, if_neg h₃]
    simp only [length_cons]
    omega
  | case6 depth c d cs h₁ h₂ ih =>
    rw [skipComment, if_neg h₁, if_neg h₂]
    simp only [length_cons] at ih ⊢
    omega

theorem length_scanQuoted_le (q : Char) (escaped : Bool) (cs : List Char) :
    (scanQuoted q escaped cs).2.length ≤ cs.length := by
  fun_induction scanQuoted q escaped cs <;> simp_all <;> omega

theorem length_cutAt_le {tag cs before rest} (h : cutAt tag cs = some (before, rest)) :
    rest.length ≤ cs.length := by
  induction cs generalizing before with
  | nil => simp [cutAt] at h
  | cons c cs ih =>
    rw [cutAt] at h
    split at h
    · cases h
      simp
    · obtain ⟨⟨before', rest'⟩, hcut, heq⟩ := Option.map_eq_some_iff.mp h
      cases heq
      exact (ih hcut).trans (by simp)

theorem length_scanDollar_le (cs : List Char) : (scanDollar cs).2.length ≤ cs.length := by
  have hafter : (cs.dropWhile isTagChar).tail.length ≤ cs.length := by
    have := (cs.dropWhile_suffix isTagChar).length_le
    simp only [length_tail]
    omega
  unfold scanDollar
  dsimp only
  split
  · split
    · next hcut => exact (length_cutAt_le hcut).trans hafter
    · simp
  · split
    · exact (cs.dropWhile_suffix _).length_le
    · exact le_rfl

theorem length_nextToken_le (c : Char) (cs : List Char) : (nextToken go c cs).2.length ≤ cs.length := by
  have htail : cs.tail.length ≤ cs.length := by simp
  unfold nextToken
  split_ifs
  · exact le_rfl
  · exact (cs.dropWhile_suffix _).length_le
  · exact (length_skipComment_le 0 _).trans htail
  · exact length_scanQuoted_le apostrophe false cs
  · exact (length_scanQuoted_le apostrophe true _).trans htail
  · exact length_scanQuoted_le quotationMark false cs
  · exact length_scanDollar_le cs
  · exact (cs.dropWhile_suffix _).length_le
  · exact (cs.dropWhile_suffix _).length_le
  · exact le_rfl

def asciiText : GoText where
  toLower := List.map Char.toLower
  toUpper := List.map Char.toUpper
  quote s := "\"" ++ s ++ "\""
  toLower_ascii _ _ := rfl
  toUpper_ascii _ _ := rfl

end Kiban.Migrations
