import Kiban.Lib.Lexing
import Kiban.Migrations.Tokens

/-!
# Where PostgreSQL reads code

The lexical rules of PostgreSQL, as far as they say which characters of a text are code: line comments end at a line
feed or a carriage return, block comments nest, a quote is doubled inside its quotes, an `E` string has backslash
escapes, a literal that follows another after a line break continues it in its mode, and a dollar quote ends at its own
tag.  A comment or quote that does not end counts as read to the end.
-/

namespace Kiban.Migrations

open List

/-- How a character is read: as code, as part of a quoted name, or as white space, comment or string. -/
inductive Reading where
  | code
  | name
  | hidden
deriving DecidableEq

namespace Pg

def isNewline (c : Char) : Bool := c = '\n' || c = '\r'

def isSpace (c : Char) : Bool :=
  c = ' ' || c = '\t' || isNewline c || c = Char.ofNat 11 || c = Char.ofNat 12

/-- The rest of the text after a block comment of which this many levels are open. -/
def blockComment : Nat → List Char → List Char
  | 0, cs => cs
  | _, [] => []
  | _, [_] => []
  | depth + 1, c :: d :: cs =>
    if c = '/' ∧ d = '*' then blockComment (depth + 2) cs
    else if c = '*' ∧ d = '/' then blockComment depth cs
    else blockComment (depth + 1) (d :: cs)

/-- The rest of the text after the closing `q`, which is one that no other follows. -/
def quoted (q : Char) (escapes : Bool) : List Char → List Char
  | [] => []
  | [_] => []
  | c :: d :: cs =>
    if escapes ∧ c = backslash then quoted q escapes cs
    else if c = q then
      if d = q then quoted q escapes cs else d :: cs
    else quoted q escapes (d :: cs)

/-- The rest of the text after the first `tag`. -/
def afterTag (tag : List Char) : List Char → List Char
  | [] => []
  | c :: cs => if tag.isPrefixOf (c :: cs) then (c :: cs).drop tag.length else afterTag tag cs

def isTagChar (c : Char) : Bool := isIdentStart c || isDigit c

def isNumeric (c : Char) : Bool := isTagChar c || c = '.'

/-- A dollar quote, a parameter, or the sign itself. -/
def dollar (cs : List Char) : Reading × List Char :=
  let tag := cs.takeWhile isTagChar
  let after := cs.dropWhile isTagChar
  if after.head? = some '$' ∧ (tag = [] ∨ tag.head?.any isIdentStart) then
    (.hidden, afterTag ('$' :: tag ++ ['$']) after.tail)
  else if cs.head?.any isDigit then (.code, cs.dropWhile isDigit)
  else (.code, cs)

/-- What stands before a lexeme: a string literal and white space only, or anything else.  Of the literal it
matters whether it is an `E` string, and of the white space whether it breaks the line. -/
inductive Before where
  | anything
  | literal (escapes newline : Bool)
deriving DecidableEq

/-- The white space goes on. -/
def Before.space (c : Char) : Before → Before
  | .anything => .anything
  | .literal escapes newline => .literal escapes (newline || isNewline c)

/-- Whether a literal that starts here has escapes: only as the continuation of one that has. -/
def Before.escapes : Before → Bool
  | .literal escapes true => escapes
  | _ => false

def next (b : Before) (c : Char) (cs : List Char) : Reading × Before × List Char :=
  if isSpace c then (.hidden, b.space c, cs)
  else if c = '-' ∧ cs.head? = some '-' then (.hidden, b, cs.dropWhile fun c => !isNewline c)
  else if c = '/' ∧ cs.head? = some '*' then (.hidden, .anything, blockComment 1 cs.tail)
  else if c = apostrophe then (.hidden, .literal b.escapes false, quoted apostrophe b.escapes cs)
  else if (c = 'e' ∨ c = 'E') ∧ cs.head? = some apostrophe then
    (.hidden, .literal true false, quoted apostrophe true cs.tail)
  else if c = quotationMark then (.name, .anything, quoted quotationMark false cs)
  else if c = '$' then ((dollar cs).1, .anything, (dollar cs).2)
  else if isIdentStart c then (.code, .anything, cs.dropWhile isIdentChar)
  else if isDigit c then (.code, .anything, cs.dropWhile isNumeric)
  else (.code, .anything, cs)

/-! ## Every lexeme has a character -/

theorem length_blockComment_le (depth : Nat) (cs : List Char) : (blockComment depth cs).length ≤ cs.length := by
  fun_induction blockComment depth cs with
  | case1 cs | case2 depth => exact le_rfl
  | case3 depth c => simp
  | case4 depth c d cs h ih =>
    simp only [length_cons]
    omega
  | case5 depth c d cs h₁ h₂ ih =>
    simp only [length_cons]
    omega
  | case6 depth c d cs h₁ h₂ ih =>
    simp only [length_cons] at ih ⊢
    omega

theorem length_quoted_le (q : Char) (escapes : Bool) (cs : List Char) :
    (quoted q escapes cs).length ≤ cs.length := by
  fun_induction quoted q escapes cs with
  | case1 => exact le_rfl
  | case2 c | case5 c d cs h => simp
  | case3 c d cs h ih =>
    simp only [length_cons]
    omega
  | case4 cs h ih =>
    simp only [length_cons]
    omega
  | case6 c d cs h₁ h₂ ih =>
    simp only [length_cons] at ih ⊢
    omega

theorem length_afterTag_le (tag cs : List Char) : (afterTag tag cs).length ≤ cs.length := by
  induction cs with
  | nil => exact le_rfl
  | cons c cs ih =>
    rw [afterTag]
    split
    · simp
    · exact ih.trans (by simp)

theorem length_dollar_le (cs : List Char) : (dollar cs).2.length ≤ cs.length := by
  have hafter : (cs.dropWhile isTagChar).tail.length ≤ cs.length := by
    have := (cs.dropWhile_suffix isTagChar).length_le
    simp only [length_tail]
    omega
  unfold dollar
  dsimp only
  split
  · exact (length_afterTag_le _ _).trans hafter
  · split
    · exact (cs.dropWhile_suffix _).length_le
    · exact le_rfl

theorem length_next_le (b : Before) (c : Char) (cs : List Char) : (next b c cs).2.2.length ≤ cs.length := by
  have htail : cs.tail.length ≤ cs.length := by simp
  unfold next
  split_ifs
  · exact le_rfl
  · exact (cs.dropWhile_suffix _).length_le
  · exact (length_blockComment_le 1 _).trans htail
  · exact length_quoted_le apostrophe _ cs
  · exact (length_quoted_le apostrophe true _).trans htail
  · exact length_quoted_le quotationMark false cs
  · exact length_dollar_le cs
  · exact (cs.dropWhile_suffix _).length_le
  · exact (cs.dropWhile_suffix _).length_le
  · exact le_rfl

def lexer : Lexing.Lexer Before Char Reading := ⟨next, length_next_le⟩

end Pg

end Kiban.Migrations
