import Kiban.Lib.PercentPath
import Mathlib.Logic.Function.Basic

/-!
# Digests of texts

The bytes of a text in UTF-8, where a zero byte stands for the zero character only, and a digest that tells all byte
strings apart.
-/

namespace Digest

open PercentPath List

/-- `sha256` in hexadecimal digits.  That no two texts have the same digest is what is assumed of it. -/
structure Sha256 where
  hexSum : Bytes → String
  injective : Function.Injective hexSum
  ne_empty : ∀ bytes, hexSum bytes ≠ ""

def utf8 (s : String) : Bytes := s.toUTF8.data.toList

theorem utf8_eq (s : String) : utf8 s = s.toList.flatMap String.utf8EncodeChar := by
  unfold utf8
  rw [String.toUTF8_eq_toByteArray, ← String.utf8Encode_toList, List.utf8Encode, data_toByteArray]

theorem utf8_eq_ascii {s} (h : ∀ c ∈ s.toList, c.toNat < 0x80) : utf8 s = ascii s := by
  have hchar : ∀ c : Char, c.toNat < 0x80 → String.utf8EncodeChar c = [UInt8.ofNat c.toNat] := by
    intro c hc
    unfold String.utf8EncodeChar
    dsimp only
    rw [if_pos (show c.val.toNat ≤ 127 from Nat.le_of_lt_succ hc)]
    rfl
  rw [utf8_eq, ascii]
  generalize s.toList = cs at h
  induction cs with
  | nil => rfl
  | cons c cs ih =>
    rw [flatMap_cons, hchar c (h c mem_cons_self), ih fun c' hc' => h c' (mem_cons_of_mem _ hc'),
      map_cons]
    rfl

theorem utf8_injective {s t} (h : utf8 s = utf8 t) : s = t := by
  unfold utf8 at h
  exact String.toByteArray_inj.mp (ByteArray.ext (Array.toList_inj.mp h))

theorem zero_notMem_utf8EncodeChar {c} (hc : c.toNat ≠ 0) : (0 : UInt8) ∉ String.utf8EncodeChar c := by
  have hbyte : ∀ n, 0 < n → n < 256 → (0 : UInt8) ≠ UInt8.ofNat n := by
    intro n hpos hlt heq
    have hnat := congrArg UInt8.toNat heq
    rw [UInt8.toNat_ofNat_of_lt' hlt] at hnat
    exact absurd hnat.symm (Nat.ne_of_gt hpos)
  have hpos : 0 < c.val.toNat := Nat.pos_of_ne_zero hc
  unfold String.utf8EncodeChar
  dsimp only
  split
  · simp only [mem_singleton]
    exact hbyte _ hpos (by omega)
  split
  · simp only [mem_cons, not_mem_nil, or_false, not_or]
    exact ⟨hbyte _ (by omega) (by omega), hbyte _ (by omega) (by omega)⟩
  split
  · simp only [mem_cons, not_mem_nil, or_false, not_or]
    exact ⟨hbyte _ (by omega) (by omega), hbyte _ (by omega) (by omega), hbyte _ (by omega) (by omega)⟩
  · simp only [mem_cons, not_mem_nil, or_false, not_or]
    exact ⟨hbyte _ (by omega) (by omega), hbyte _ (by omega) (by omega), hbyte _ (by omega) (by omega),
      hbyte _ (by omega) (by omega)⟩

/-- The bytes themselves, one character for each. -/
def plainDigest : Sha256 where
  hexSum bytes := .ofList ('=' :: bytes.map fun b => Char.ofNat b.toNat)
  injective bytes bytes' h := by
    have hchars := (List.cons.inj (String.ofList_injective h)).2
    refine map_injective_iff.mpr (fun b b' hb => ?_) hchars
    have hnat : ∀ b : UInt8, (Char.ofNat b.toNat).toNat = b.toNat := by
      intro b
      have hvalid : b.toNat.isValidChar := .inl (Nat.lt_trans b.toNat_lt (by decide))
      rw [Char.ofNat, dif_pos hvalid]
      rfl
    exact UInt8.toNat_inj.mp ((hnat b).symm.trans ((congrArg Char.toNat hb).trans (hnat b')))
  ne_empty bytes h := by
    have hchars := congrArg String.toList h
    simp at hchars

end Digest
