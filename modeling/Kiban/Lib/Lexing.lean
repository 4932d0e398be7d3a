import Mathlib.Data.List.Basic
import Mathlib.Order.Nat

/-!
# Reading a text lexeme by lexeme

A lexer stands at the first symbol of a lexeme, in a state that depends on what it has read, and says what
kind of lexeme it is, the state after it and the rest of the text.  Its reading gives every symbol the kind
of the lexeme it belongs to.
-/

namespace Lexing

variable {σ α κ : Type}

/-- Every lexeme has at least one symbol. -/
structure Lexer (σ α κ : Type) where
  next : σ → α → List α → κ × σ × List α
  shrinks : ∀ s c cs, (next s c cs).2.2.length ≤ cs.length

namespace Lexer

variable (L : Lexer σ α κ)

def visitsWithin : Nat → σ → List α → List (σ × List α)
  | 0, _, _ => []
  | _, _, [] => []
  | fuel + 1, s, c :: cs => (s, c :: cs) :: visitsWithin fuel (L.next s c cs).2.1 (L.next s c cs).2.2

/-- Where the lexemes start, each with the state before it and the text from it on. -/
def visits (s : σ) (src : List α) : List (σ × List α) := L.visitsWithin src.length s src

def lexeme : σ × List α → List κ
  | (_, []) => []
  | (s, c :: cs) => List.replicate (cs.length + 1 - (L.next s c cs).2.2.length) (L.next s c cs).1

def read (s : σ) (src : List α) : List κ := (L.visits s src).flatMap L.lexeme

theorem visitsWithin_of_length_le {fuel s src} (h : src.length ≤ fuel) :
    L.visitsWithin fuel s src = L.visits s src := by
  -- both sides have at least as many turns left as the text has symbols
  suffices hany : ∀ n m s cs, cs.length ≤ n → cs.length ≤ m → L.visitsWithin n s cs = L.visitsWithin m s cs
    from hany _ _ _ _ h le_rfl
  intro n
  induction n with
  | zero =>
    intro m s cs hn _
    obtain rfl : cs = [] := List.length_eq_zero_iff.mp (Nat.le_zero.mp hn)
    cases m <;> rfl
  | succ n ih =>
    intro m s cs hn hm
    cases cs with
    | nil => cases m <;> rfl
    | cons c cs =>
      obtain ⟨m, rfl⟩ : ∃ k, m = k + 1 := ⟨m - 1, by simp only [List.length_cons] at hm; omega⟩
      have hrest := L.shrinks s c cs
      simp only [List.length_cons] at hn hm
      simp only [visitsWithin]
      rw [ih m _ _ (by omega) (by omega)]

theorem visits_cons (s : σ) (c : α) (cs : List α) :
    L.visits s (c :: cs) = (s, c :: cs) :: L.visits (L.next s c cs).2.1 (L.next s c cs).2.2 := by
  rw [← L.visitsWithin_of_length_le (L.shrinks s c cs)]
  rfl

theorem read_cons (s : σ) (c : α) (cs : List α) : L.read s (c :: cs) =
      List.replicate (cs.length + 1 - (L.next s c cs).2.2.length) (L.next s c cs).1 ++
        L.read (L.next s c cs).2.1 (L.next s c cs).2.2 := by
  unfold read
  rw [visits_cons]
  rfl

end Lexer

end Lexing
