import Kiban.Migrations.PgLexer

/-!
# What the scan of a migration sees of its code

`tokenize` and PostgreSQL cut a text into lexemes by rules that differ in three places.  A line comment goes on
past a carriage return for the one and ends there for the other; the continuation of an `E` string has escapes
for PostgreSQL only; and a number runs over a dollar sign for the scan, where PostgreSQL may start a quote.
-/

namespace Kiban.Migrations

open Lexing List

variable (go : GoText)

def Token.reading (t : Token) : Reading :=
  if t.kind = .string then .hidden else if t.quoted then .name else .code

/-- The loop of `tokenize`, as a reading of its text. -/
def scanner : Lexer Unit Char Reading where
  next _ c cs := (((nextToken go c cs).1.map Token.reading).getD .hidden, (), (nextToken go c cs).2)
  shrinks _ c cs := length_nextToken_le go c cs

def tokenAt : Unit × List Char → List Token
  | (_, []) => []
  | (_, c :: cs) => (nextToken go c cs).1.toList

/-- What is tokenised is what the scanner stops at. -/
theorem tokenize_eq_flatMap (src : List Char) :
    tokenize go src = ((scanner go).visits () src).flatMap (tokenAt go) := by
  unfold tokenize Lexer.visits
  generalize src.length = fuel
  induction fuel generalizing src with
  | zero => cases src <;> rfl
  | succ fuel ih =>
    cases src with
    | nil => rfl
    | cons c cs =>
      rw [tokensWithin, Lexer.visitsWithin, flatMap_cons]
      exact congrArg _ (ih _)

/-- Whatever PostgreSQL reads as code or as a quoted name, the scan reads as such. -/
def HidesNothing (pg scan : List Reading) : Prop :=
  ∀ (i : Nat) (k : Reading), pg[i]? = some k → k ≠ .hidden → scan[i]? = some k

/-- The two read the lexeme that starts here alike: if it is a line comment, only white space stands between a
carriage return that ends it and the end of the line; if it continues an `E` string, it ends at the same
quote with and without escapes; if it is a number or a parameter, no dollar sign follows it. -/
def inStep : Pg.Before × List Char → Bool
  | (_, []) => true
  | (b, c :: cs) =>
    if c = '-' ∧ cs.head? = some '-' then
      ((cs.dropWhile fun c => !Pg.isNewline c).takeWhile (· ≠ '\n')).all Pg.isSpace
    else if c = apostrophe then Pg.quoted apostrophe b.escapes cs = Pg.quoted apostrophe false cs
    else if c = '$' ∧ cs.head?.any isDigit then (cs.dropWhile isDigit).head? ≠ some '$'
    else if isDigit c then (cs.dropWhile Pg.isNumeric).head? ≠ some '$'
    else true

/-! ## Readings side by side -/

section Readings

variable {p q P Q : List Reading}

theorem hidesNothing_append (hlen : P.length = Q.length) :
    HidesNothing (P ++ p) (Q ++ q) ↔ HidesNothing P Q ∧ HidesNothing p q := by
  constructor
  · intro h
    refine ⟨fun i k hk hcode => ?_, fun i k hk hcode => ?_⟩
    · have hi : i < P.length := (List.getElem?_eq_some_iff.mp hk).1
      have hboth := h i k ((getElem?_append_left hi).trans hk) hcode
      rwa [getElem?_append_left (hlen ▸ hi)] at hboth
    have hshift : ∀ l r : List Reading, (l ++ r)[l.length + i]? = r[i]? := by
      intro l r
      rw [getElem?_append_right (Nat.le_add_right _ _), Nat.add_sub_cancel_left]
    have hboth := h (P.length + i) k ((hshift P p).trans hk) hcode
    rwa [hlen, hshift] at hboth
  · rintro ⟨hfirst, hrest⟩ i k hk hcode
    by_cases hi : i < P.length
    · rw [getElem?_append_left hi] at hk
      rw [getElem?_append_left (hlen ▸ hi)]
      exact hfirst i k hk hcode
    · have hle : P.length ≤ i := not_lt.mp hi
      rw [getElem?_append_right hle] at hk
      rw [getElem?_append_right (hlen ▸ hle), ← hlen]
      exact hrest _ k hk hcode

theorem hidesNothing_replicate {k k'} (n : Nat) (h : k ≠ .hidden → k' = k) :
    HidesNothing (List.replicate n k) (List.replicate n k') := by
  intro i r hr hcode
  rw [getElem?_replicate] at hr ⊢
  split at hr
  · rename_i hi
    cases hr
    rw [if_pos hi, h hcode]
  · cases hr

end Readings

/-! ## One lexeme -/

variable {p q : Char → Bool} {cs ws : List Char} {c : Char} {b : Pg.Before}

theorem dropWhile_dropWhile_of_imp (h : ∀ c, p c = true → q c = true) (cs : List Char) :
    (cs.dropWhile p).dropWhile q = cs.dropWhile q := by
  induction cs with
  | nil => rfl
  | cons c cs ih =>
    by_cases hp : p c = true
    · rw [dropWhile_cons_of_pos hp, ih, dropWhile_cons_of_pos (h c hp)]
    · rw [dropWhile_cons_of_neg hp]

/-- A longer run ends at the same place if nothing of the difference comes next. -/
theorem dropWhile_eq_of_head? (h : ∀ c, p c = true → q c = true) (cs : List Char)
    (hnext : ∀ c, (cs.dropWhile p).head? = some c → q c = false) : cs.dropWhile q = cs.dropWhile p := by
  rw [← dropWhile_dropWhile_of_imp h]
  cases hrest : cs.dropWhile p with
  | nil => rfl
  | cons c rest =>
    have hq := hnext c (by rw [hrest]; rfl)
    exact dropWhile_cons_of_neg (by rw [hq]; exact Bool.false_ne_true)

theorem scanQuoted_eq (q : Char) (escapes : Bool) (cs : List Char) :
    (scanQuoted q escapes cs).2 = Pg.quoted q escapes cs := by
  fun_induction Pg.quoted q escapes cs with
  | case1 => rfl
  | case2 c =>
    rw [scanQuoted]
    split <;> rfl
  | case3 c d cs h ih => rw [scanQuoted, if_pos h]; exact ih
  | case4 cs h ih => rw [scanQuoted, if_neg h, if_pos rfl, if_pos rfl]; exact ih
  | case5 d cs h hd => rw [scanQuoted, if_neg h, if_pos rfl, if_neg hd]
  | case6 c d cs h₁ h₂ ih => rw [scanQuoted, if_neg h₁, if_neg h₂]; exact ih

theorem skipComment_eq (depth : Nat) (cs : List Char) : skipComment depth cs = Pg.blockComment (depth + 1) cs := by
  fun_induction skipComment depth cs with
  | case1 depth | case2 depth c => rfl
  | case3 depth c d cs h ih => rw [Pg.blockComment, if_pos h, ih]
  | case4 c d cs h₁ h₂ =>
    rw [Pg.blockComment, if_neg h₁, if_pos h₂]
    exact (Pg.blockComment.eq_1 cs).symm
  | case5 depth c d cs h₁ h₂ h₃ ih =>
    rw [Pg.blockComment, if_neg h₁, if_pos h₂, ih, Nat.sub_add_cancel (Nat.pos_of_ne_zero h₃)]
  | case6 depth c d cs h₁ h₂ ih => rw [Pg.blockComment, if_neg h₁, if_neg h₂, ih]

theorem cutAt_eq (tag cs : List Char) : ((cutAt tag cs).map Prod.snd).getD [] = Pg.afterTag tag cs := by
  induction cs with
  | nil => rfl
  | cons c cs ih =>
    rw [cutAt, Pg.afterTag]
    split
    · rfl
    · rw [Option.map_map]
      exact ih

theorem isTagChar_eq : isTagChar = Pg.isTagChar := by
  funext c
  by_cases hc : c = '$'
  · subst hc
    decide
  · simp [isTagChar, Pg.isTagChar, isIdentChar, hc]

theorem scanDollar_inStep (hstep : cs.head?.any isDigit = true → (cs.dropWhile isDigit).head? ≠ some '$') :
    (scanDollar cs).2 = (Pg.dollar cs).2 ∧ (scanDollar cs).1.reading = (Pg.dollar cs).1 := by
  unfold scanDollar Pg.dollar
  rw [isTagChar_eq]
  dsimp only
  split
  · rw [← cutAt_eq]
    cases cutAt ('$' :: cs.takeWhile Pg.isTagChar ++ ['$']) (cs.dropWhile Pg.isTagChar).tail with
    | none | some r => exact ⟨rfl, rfl⟩
  split
  · rename_i hdigit
    refine ⟨dropWhile_eq_of_head? (fun c hc => by simp [hc]) cs fun c hc => ?_, rfl⟩
    have hdol : c ≠ '$' := fun h => hstep hdigit (h ▸ hc)
    have hnot : isDigit c = false := by
      have := head?_dropWhile_not isDigit cs
      rw [hc] at this
      simpa using this
    simp [hdol, hnot]
  · exact ⟨rfl, rfl⟩

theorem isIdentChar_of_isNumeric (h : Pg.isNumeric c = true) : (isIdentChar c || c = '.') = true := by
  simp only [Pg.isNumeric, Pg.isTagChar, isIdentChar, Bool.or_eq_true] at h ⊢
  tauto

/-- A character that is white space for PostgreSQL is so for the scan, or one of two that it takes for signs. -/
theorem nextToken_space (hc : Pg.isSpace c = true) (cs : List Char) : (nextToken go c cs).2 = cs := by
  simp only [Pg.isSpace, Pg.isNewline, Bool.or_eq_true, decide_eq_true_eq] at hc
  rcases hc with (((rfl | rfl) | (rfl | rfl)) | rfl) | rfl
  · rfl
  · rfl
  · rfl
  · rfl
  · simp [nextToken, apostrophe, quotationMark, isIdentStart, isDigit]
  · simp [nextToken, apostrophe, quotationMark, isIdentStart, isDigit]

/-- Where the two are in step they read the same lexeme, line comments apart. -/
theorem nextToken_inStep (hstep : inStep (b, c :: cs) = true) (hline : ¬ (c = '-' ∧ cs.head? = some '-')) :
    ((scanner go).next () c cs).2.2 = (Pg.lexer.next b c cs).2.2 ∧
      ((Pg.lexer.next b c cs).1 ≠ .hidden → ((scanner go).next () c cs).1 = (Pg.lexer.next b c cs).1) := by
  show (nextToken go c cs).2 = (Pg.next b c cs).2.2 ∧ ((Pg.next b c cs).1 ≠ .hidden →
    ((nextToken go c cs).1.map Token.reading).getD .hidden = (Pg.next b c cs).1)
  rw [inStep, if_neg hline] at hstep
  by_cases hspace : Pg.isSpace c = true
  · rw [nextToken_space go hspace, Pg.next, if_pos hspace]
    exact ⟨rfl, fun h => absurd rfl h⟩
  have hblank : ¬ (c = ' ' ∨ c = '\t' ∨ c = '\n' ∨ c = '\r') := by
    rintro (rfl | rfl | rfl | rfl) <;> exact hspace (by decide)
  rw [nextToken, Pg.next, if_neg hblank, if_neg hspace, if_neg hline, if_neg hline]
  by_cases hblock : c = '/' ∧ cs.head? = some '*'
  · rw [if_pos hblock, if_pos hblock]
    exact ⟨skipComment_eq 0 cs.tail, fun h => absurd rfl h⟩
  rw [if_neg hblock, if_neg hblock]
  by_cases hquote : c = apostrophe
  · rw [if_pos hquote, if_pos hquote]
    rw [if_pos hquote] at hstep
    have hsame : Pg.quoted apostrophe b.escapes cs = Pg.quoted apostrophe false cs := of_decide_eq_true hstep
    exact ⟨(scanQuoted_eq apostrophe false cs).trans hsame.symm, fun h => absurd rfl h⟩
  rw [if_neg hquote, if_neg hquote]
  rw [if_neg hquote] at hstep
  by_cases hesc : (c = 'e' ∨ c = 'E') ∧ cs.head? = some apostrophe
  · rw [if_pos hesc, if_pos hesc]
    exact ⟨scanQuoted_eq apostrophe true cs.tail, fun h => absurd rfl h⟩
  rw [if_neg hesc, if_neg hesc]
  by_cases hname : c = quotationMark
  · rw [if_pos hname, if_pos hname]
    exact ⟨scanQuoted_eq quotationMark false cs, fun _ => rfl⟩
  rw [if_neg hname, if_neg hname]
  by_cases hdol : c = '$'
  · rw [if_pos hdol, if_pos hdol]
    have hparam : cs.head?.any isDigit = true → (cs.dropWhile isDigit).head? ≠ some '$' := by
      intro hdigit
      rw [if_pos ⟨hdol, hdigit⟩] at hstep
      exact of_decide_eq_true hstep
    obtain ⟨hrest, hread⟩ := scanDollar_inStep hparam
    exact ⟨hrest, fun _ => hread⟩
  rw [if_neg hdol, if_neg hdol]
  rw [if_neg fun h => hdol h.1] at hstep
  by_cases hident : isIdentStart c = true
  · rw [if_pos hident, if_pos hident]
    exact ⟨rfl, fun _ => rfl⟩
  rw [if_neg hident, if_neg hident]
  by_cases hdigit : isDigit c = true
  · rw [if_pos hdigit, if_pos hdigit]
    rw [if_pos hdigit] at hstep
    refine ⟨dropWhile_eq_of_head? (fun _ => isIdentChar_of_isNumeric) cs fun d hd => ?_, fun _ => rfl⟩
    have hsign : d ≠ '$' := fun h => of_decide_eq_true hstep (h ▸ hd)
    have hnot : Pg.isNumeric d = false := by
      have := head?_dropWhile_not Pg.isNumeric cs
      rw [hd] at this
      simpa using this
    simp only [Pg.isNumeric, Pg.isTagChar, Bool.or_eq_false_iff] at hnot
    simp [isIdentChar, hnot.1.1, hnot.1.2, hnot.2, hsign]
  · rw [if_neg hdigit, if_neg hdigit]
    exact ⟨rfl, fun _ => rfl⟩

/-! ## Line comments and the white space after them -/

theorem next_line (hdash : cs.head? = some '-') :
    Pg.lexer.next b '-' cs = (.hidden, b, cs.dropWhile fun c => !Pg.isNewline c) := by
  show Pg.next b '-' cs = _
  rw [Pg.next, if_neg (by decide), if_pos ⟨rfl, hdash⟩]

theorem scanner_line (hdash : cs.head? = some '-') :
    (scanner go).next () '-' cs = (.hidden, (), cs.dropWhile (· ≠ '\n')) := by
  show (((nextToken go '-' cs).1.map Token.reading).getD .hidden, (), (nextToken go '-' cs).2) = _
  rw [nextToken, if_neg (by decide), if_pos ⟨rfl, hdash⟩]
  rfl

theorem dropWhile_newline (cs : List Char) :
    (cs.dropWhile fun c => !Pg.isNewline c).dropWhile (· ≠ '\n') = cs.dropWhile (· ≠ '\n') := by
  refine dropWhile_dropWhile_of_imp (fun c hc => ?_) cs
  simp only [Pg.isNewline, Bool.not_eq_true', Bool.or_eq_false_iff, decide_eq_false_iff_not] at hc
  exact decide_eq_true hc.1

theorem inStep_space (hc : Pg.isSpace c = true) (cs : List Char) : inStep (b, c :: cs) = true := by
  simp only [Pg.isSpace, Pg.isNewline, Bool.or_eq_true, decide_eq_true_eq] at hc
  rcases hc with (((rfl | rfl) | (rfl | rfl)) | rfl) | rfl <;> simp [inStep, apostrophe, isDigit]

theorem next_space (hc : Pg.isSpace c = true) (cs : List Char) :
    Pg.lexer.next b c cs = (.hidden, b.space c, cs) := by
  show Pg.next b c cs = _
  rw [Pg.next, if_pos hc]

def afterSpaces (b : Pg.Before) (ws : List Char) : Pg.Before := ws.foldl (fun b c => b.space c) b

theorem read_spaces (b : Pg.Before) (hws : ws.all Pg.isSpace = true) (rest : List Char) :
    Pg.lexer.read b (ws ++ rest) = List.replicate ws.length .hidden ++ Pg.lexer.read (afterSpaces b ws) rest := by
  induction ws generalizing b with
  | nil => rfl
  | cons c ws ih =>
    rw [all_cons, Bool.and_eq_true] at hws
    rw [cons_append, Lexer.read_cons, next_space hws.1, ih _ hws.2, length_cons,
      replicate_succ, Nat.add_sub_cancel_left]
    rfl

theorem find?_visits_spaces (b : Pg.Before) (hws : ws.all Pg.isSpace = true) (rest : List Char) :
    (Pg.lexer.visits b (ws ++ rest)).find? (fun v => !inStep v) =
      (Pg.lexer.visits (afterSpaces b ws) rest).find? fun v => !inStep v := by
  induction ws generalizing b with
  | nil => rfl
  | cons c ws ih =>
    rw [all_cons, Bool.and_eq_true] at hws
    rw [cons_append, Lexer.visits_cons, next_space hws.1, find?_cons_of_neg, ih _ hws.2]
    · rfl
    · simp [inStep_space hws.1]

/-! ## A whole text -/

def firstApart (b : Pg.Before) (src : List Char) : Option (Pg.Before × List Char) :=
  (Pg.lexer.visits b src).find? fun v => !inStep v

/-- From here on, nothing that PostgreSQL reads as code is hidden from the scan. -/
def SeesCode (v : Pg.Before × List Char) : Prop :=
  HidesNothing (Pg.lexer.read v.1 v.2) ((scanner go).read () v.2)

theorem seesCode_line (hstep : inStep (b, '-' :: cs) = true) (hdash : cs.head? = some '-') :
    ∃ b' rest, rest.length ≤ cs.length ∧ firstApart b ('-' :: cs) = firstApart b' rest ∧
      (SeesCode go (b, '-' :: cs) ↔ SeesCode go (b', rest)) := by
  -- PostgreSQL's comment and the white space after it make up the comment of the scan
  have hends : inStep (b, '-' :: cs) =
      ((cs.dropWhile fun c => !Pg.isNewline c).takeWhile (· ≠ '\n')).all Pg.isSpace := by
    rw [inStep, if_pos ⟨rfl, hdash⟩]
  have hparts := takeWhile_append_dropWhile (p := fun c => decide (c ≠ '\n'))
    (l := cs.dropWhile fun c => !Pg.isNewline c)
  rw [dropWhile_newline] at hparts
  have hws := hends.symm.trans hstep
  generalize (cs.dropWhile fun c => !Pg.isNewline c).takeWhile (· ≠ '\n') = ws at hparts hws
  have hle : (cs.dropWhile fun c => !Pg.isNewline c).length ≤ cs.length := (cs.dropWhile_suffix _).length_le
  have hlen := congrArg List.length hparts
  rw [length_append] at hlen
  refine ⟨afterSpaces b ws, cs.dropWhile (· ≠ '\n'), (cs.dropWhile_suffix _).length_le, ?_, ?_⟩
  · unfold firstApart
    rw [Lexer.visits_cons, next_line hdash, find?_cons_of_neg, ← hparts, find?_visits_spaces b hws]
    simp [hstep]
  unfold SeesCode
  rw [Lexer.read_cons, Lexer.read_cons, next_line hdash, scanner_line go hdash]
  dsimp only
  rw [← hparts, read_spaces b hws, ← append_assoc, replicate_append_replicate,
    hidesNothing_append (by simp only [length_replicate, length_append]; omega)]
  refine and_iff_right ?_
  have hcount : cs.length + 1 - (ws ++ cs.dropWhile (· ≠ '\n')).length + ws.length =
      cs.length + 1 - (cs.dropWhile (· ≠ '\n')).length := by
    rw [length_append]
    omega
  rw [hcount]
  exact hidesNothing_replicate _ fun h => absurd rfl h

theorem seesCode_lexeme (hstep : inStep (b, c :: cs) = true) (hline : ¬ (c = '-' ∧ cs.head? = some '-')) :
    ∃ b' rest, rest.length ≤ cs.length ∧ firstApart b (c :: cs) = firstApart b' rest ∧
      (SeesCode go (b, c :: cs) ↔ SeesCode go (b', rest)) := by
  obtain ⟨hrest, hread⟩ := nextToken_inStep go hstep hline
  refine ⟨(Pg.lexer.next b c cs).2.1, (Pg.lexer.next b c cs).2.2, Pg.lexer.shrinks b c cs, ?_, ?_⟩
  · unfold firstApart
    rw [Lexer.visits_cons, find?_cons_of_neg]
    simp [hstep]
  · unfold SeesCode
    rw [Lexer.read_cons, Lexer.read_cons, hrest, hidesNothing_append (by simp only [length_replicate])]
    exact and_iff_right (hidesNothing_replicate _ hread)

/-- Up to the first place where the two are out of step nothing is hidden. -/
theorem seesCode_iff_firstApart (b : Pg.Before) (src : List Char) :
    SeesCode go (b, src) ↔ ∀ v, firstApart b src = some v → SeesCode go v := by
  -- induction on the length of the text: a step of both leaves less of it
  induction hn : src.length using Nat.strongRecOn generalizing b src with
  | ind n ih =>
    cases src with
    | nil => exact iff_of_true (fun _ _ h => nomatch h) fun _ h => nomatch h
    | cons c cs =>
      by_cases hstep : inStep (b, c :: cs) = true
      · obtain ⟨b', rest, hle, hfirst, hsees⟩ : ∃ b' rest, rest.length ≤ cs.length ∧
            firstApart b (c :: cs) = firstApart b' rest ∧
            (SeesCode go (b, c :: cs) ↔ SeesCode go (b', rest)) := by
          by_cases hline : c = '-' ∧ cs.head? = some '-'
          · obtain ⟨rfl, hdash⟩ := hline
            exact seesCode_line go hstep hdash
          · exact seesCode_lexeme go hstep hline
        rw [hsees, hfirst]
        refine ih rest.length ?_ b' rest rfl
        rw [← hn, length_cons]
        omega
      · have hapart : firstApart b (c :: cs) = some (b, c :: cs) := by
          unfold firstApart
          rw [Lexer.visits_cons, find?_cons_of_pos]
          simp [hstep]
        rw [hapart]
        exact ⟨fun h v hv => Option.some.inj hv ▸ h, fun h => h _ rfl⟩

/-- A line comment that ends at a carriage return, with code before the end of the line. -/
def CodeAfterReturn : Pg.Before × List Char → Prop
  | (_, []) => False
  | (b, c :: cs) => c = '-' ∧ cs.head? = some '-' ∧ ∃ ws x rest,
      (cs.dropWhile fun c => !Pg.isNewline c) = ws ++ x :: rest ∧ ws.all Pg.isSpace = true ∧ '\n' ∉ ws ∧
        (Pg.next (afterSpaces b ws) x rest).1 ≠ .hidden

theorem not_seesCode_of_codeAfterReturn {v} (h : CodeAfterReturn v) : ¬ SeesCode go v := by
  obtain ⟨b, _ | ⟨c, cs⟩⟩ := v
  · exact h.elim
  obtain ⟨rfl, hdash, ws, x, rest, hparts, hws, hline, hcode⟩ := h
  intro hsees
  have hnext : Pg.lexer.next b '-' cs = (.hidden, b, ws ++ x :: rest) := by
    rw [next_line hdash, hparts]
  have hx : x ≠ '\n' := by
    rintro rfl
    exact hcode (by rw [Pg.next, if_pos (by decide)])
  have hscan : cs.dropWhile (· ≠ '\n') = rest.dropWhile (· ≠ '\n') := by
    rw [← dropWhile_newline, hparts, dropWhile_append_of_pos]
    · exact dropWhile_cons_of_pos (p := fun c => decide (c ≠ '\n')) (decide_eq_true hx)
    · exact fun c hc => decide_eq_true fun h => hline (h ▸ hc)
  have hlen : ws.length + (rest.length + 1) ≤ cs.length := by
    have := congrArg List.length hparts
    have hle := (cs.dropWhile_suffix fun c => !Pg.isNewline c).length_le
    simp only [length_append, length_cons] at this
    omega
  have hle := (rest.dropWhile_suffix fun c => decide (c ≠ '\n')).length_le
  -- the place of the first character of the code, counted from the comment on
  let i := cs.length - rest.length
  have hpg : (Pg.lexer.read b ('-' :: cs))[i]? = some (Pg.next (afterSpaces b ws) x rest).1 := by
    have hshr := Pg.lexer.shrinks (afterSpaces b ws) x rest
    rw [Lexer.read_cons, hnext]
    dsimp only
    rw [read_spaces b hws, Lexer.read_cons, ← append_assoc, replicate_append_replicate,
      getElem?_append_right, getElem?_append_left, getElem?_replicate, if_pos]
    · rfl
    all_goals
      simp only [length_replicate, length_append, length_cons, i]
      omega
  have hgo : ((scanner go).read () ('-' :: cs))[i]? = some .hidden := by
    rw [Lexer.read_cons, scanner_line go hdash]
    dsimp only
    rw [hscan, getElem?_append_left, getElem?_replicate, if_pos]
    all_goals
      simp only [length_replicate, i]
      omega
  exact hcode (Option.some.inj (hgo.symm.trans (hsees i _ hpg hcode))).symm

/-- For every migration text: where the two are in step at every lexeme, whatever PostgreSQL reads as code is
code for `tokenize`; and where they first get out of step over a carriage return with code on the same
line, `tokenize` hides it. -/
theorem tokenize_faithful (src : List Char) : ((∀ v ∈ Pg.lexer.visits .anything src, inStep v = true) →
        HidesNothing (Pg.lexer.read .anything src) ((scanner go).read () src)) ∧
      ∀ v, firstApart .anything src = some v → CodeAfterReturn v →
        ¬ HidesNothing (Pg.lexer.read .anything src) ((scanner go).read () src) := by
  have hiff := seesCode_iff_firstApart go .anything src
  refine ⟨fun hstep => hiff.mpr fun v hv => ?_, fun v hv hcode hsees => ?_⟩
  · have hapart := find?_some hv
    rw [hstep v (mem_of_find?_eq_some hv)] at hapart
    cases hapart
  · exact not_seesCode_of_codeAfterReturn go hcode (hiff.mp hsees v hv)

example : (Pg.lexer.visits .anything "SELECT 'a''b', E'c\\'d', $t$ $$ $t$, 1.5 -- c\r\n;".toList).all inStep = true := by
  decide +kernel

/-- A comment that ends at a carriage return, and a statement after it on the same line. -/
def afterReturn : List Char := "-- note\rDROP TABLE org.member;".toList

theorem afterReturn_hidden : tokenize asciiText afterReturn = [] ∧
      ¬ HidesNothing (Pg.lexer.read .anything afterReturn) ((scanner asciiText).read () afterReturn) := by
  have hseen : tokenize asciiText afterReturn = [] ∧ (Pg.lexer.read .anything afterReturn)[8]? = some .code ∧
      ((scanner asciiText).read () afterReturn)[8]? = some .hidden := by decide +kernel
  obtain ⟨htoks, hpg, hscan⟩ := hseen
  refine ⟨htoks, fun h => ?_⟩
  have hcode := h 8 .code hpg (by decide)
  cases hscan.symm.trans hcode

end Kiban.Migrations
