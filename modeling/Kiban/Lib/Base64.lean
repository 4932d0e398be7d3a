import Mathlib.Data.List.Basic

/-!
# Base64 texts

Four digits of six bits are three octets.  `decode` is about texts without padding over an alphabet of its own; `atob`
is the forgiving decoder of the web platform, which skips white space and takes padding where it fills the last group.
-/

namespace Base64

open List

def alphanumeric : List Char :=
  "ABCDEFGHIJKLMNOPQRSTUVWXYZ".toList ++ "abcdefghijklmnopqrstuvwxyz".toList ++ "0123456789".toList

def standard : List Char := alphanumeric ++ ['+', '/']

def url : List Char := alphanumeric ++ ['-', '_']

/-- The bits that do not fill an octet are dropped. -/
def octets : List Nat → List UInt8
  | a :: b :: c :: d :: ds =>
    .ofNat (a * 4 + b / 16) :: .ofNat (b % 16 * 16 + c / 4) :: .ofNat (c % 4 * 64 + d) :: octets ds
  | [a, b, c] => [.ofNat (a * 4 + b / 16), .ofNat (b % 16 * 16 + c / 4)]
  | [a, b] => [.ofNat (a * 4 + b / 16)]
  | _ => []

def decode (alphabet s : List Char) : Option (List UInt8) :=
  if s.length % 4 = 1 ∨ ¬ s ⊆ alphabet then none else some (octets (s.map alphabet.idxOf))

def unpad (s : List Char) : List Char :=
  match s.reverse with
  | '=' :: '=' :: digits => digits.reverse
  | '=' :: digits => digits.reverse
  | _ => s

def atob (s : List Char) : Option (List UInt8) :=
  let s := s.filter (· ∉ ['\t', '\n', '\x0c', '\r', ' '])
  decode standard (if s.length % 4 = 0 then unpad s else s)

/-- What is missing to a whole group. -/
def padding (s : List Char) : List Char := .replicate (if s.length % 4 = 0 then 0 else 4 - s.length % 4) '='

variable {s : List Char}

theorem subset_of_decode {alphabet bytes} (h : decode alphabet s = some bytes) : s ⊆ alphabet := by
  unfold decode at h
  split at h
  · cases h
  · rename_i hnot
    exact not_not.mp (not_or.mp hnot).2

theorem unpad_append_two : unpad (s ++ ['=', '=']) = s := by simp [unpad]

theorem unpad_of_notMem (h : '=' ∉ s) : unpad s = s := by
  unfold unpad
  split
  · rename_i hrev
    exact absurd (mem_reverse.mp (hrev ▸ mem_cons_self)) h
  · rename_i hrev
    exact absurd (mem_reverse.mp (hrev ▸ mem_cons_self)) h
  · rfl

theorem unpad_append_one (h : '=' ∉ s) : unpad (s ++ ['=']) = s := by
  unfold unpad
  rw [show (s ++ ['=']).reverse = '=' :: s.reverse by simp]
  split
  · rename_i hrev
    have hmem : '=' ∈ s.reverse := by simp [(List.cons.inj hrev).2]
    exact absurd (mem_reverse.mp hmem) h
  · rename_i hrev
    rw [← (List.cons.inj hrev).2, reverse_reverse]
  · rename_i hnone
    exact absurd rfl (hnone _)

/-- A padded text is read as the text without its padding, if that can be read at all. -/
theorem atob_append_padding (h : s ⊆ standard) : atob (s ++ padding s) = decode standard s := by
  have hpad : '=' ∉ s := fun hmem => absurd (h hmem) (by decide)
  have hspace : (s ++ padding s).filter (· ∉ ['\t', '\n', '\x0c', '\r', ' ']) = s ++ padding s := by
    have hdigit : ('=' :: standard).all (· ∉ ['\t', '\n', '\x0c', '\r', ' ']) = true := by decide
    refine filter_eq_self.mpr fun c hc => all_eq_true.mp hdigit c ?_
    rcases mem_append.mp hc with hc | hc
    · exact mem_cons_of_mem _ (h hc)
    · exact eq_of_mem_replicate hc ▸ mem_cons_self
  unfold atob
  simp only [hspace]
  -- by the digits of the last group; a single one is no octet
  have hcases : s.length % 4 = 0 ∨ s.length % 4 = 1 ∨ s.length % 4 = 2 ∨ s.length % 4 = 3 := by omega
  rcases hcases with hlen | hlen | hlen | hlen
  · rw [show padding s = [] by simp [padding, hlen], append_nil, if_pos hlen, unpad_of_notMem hpad]
  · have hnot : ¬ s ++ ['='] ⊆ standard := fun hsub => absurd (hsub (mem_append_right _ mem_cons_self)) (by decide)
    rw [show s ++ padding s = (s ++ ['=']) ++ ['=', '='] by simp [padding, hlen, List.replicate],
      if_pos (by simp; omega), unpad_append_two, decode, decode, if_pos (.inr hnot), if_pos (.inl hlen)]
  · rw [show padding s = ['=', '='] by simp [padding, hlen, List.replicate], if_pos (by simp; omega), unpad_append_two]
  · rw [show padding s = ['='] by simp [padding, hlen], if_pos (by simp; omega), unpad_append_one hpad]

end Base64
