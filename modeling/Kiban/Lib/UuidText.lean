import Kiban.Lib.PercentPath

/-!
# Texts of UUIDs

A UUID is read from its text in four spellings: with hyphens, the same as a URN, the same between two bytes that are
not looked at, and the digits alone.  This is what the documentation of Go's `uuid.Parse` says that it
accepts.  A byte that is neither the first nor the last is a digit, a hyphen or one of the
URN's, so little can hide in a UUID.
-/

namespace UuidText

open PercentPath List

def hyphen : UInt8 := 45

def shape : List Bool :=
  .replicate 8 true ++ [false] ++ .replicate 4 true ++ [false] ++ .replicate 4 true ++ [false] ++
    .replicate 4 true ++ [false] ++ .replicate 12 true

/-- The digits of a text; what stands after the shape is not looked at. -/
def read : List Bool → Bytes → Option (List Nat)
  | [], _ => some []
  | _ :: _, [] => none
  | true :: shape, b :: s => (hexVal b).bind fun d => (read shape s).map (d :: ·)
  | false :: shape, b :: s => if b = hyphen then read shape s else none

def lower (b : UInt8) : UInt8 := if 65 ≤ b.toNat ∧ b.toNat ≤ 90 then b + 32 else b

def parse (s : Bytes) : Option (List Nat) :=
  if s.length = 36 then read shape s
  else if s.length = 36 + 9 then
    if (s.take 9).map lower = ascii "urn:uuid:" then read shape (s.drop 9) else none
  else if s.length = 36 + 2 then read shape (s.drop 1)
  else if s.length = 32 then read (.replicate 32 true) s
  else none

def format (ds : List Nat) : String :=
  let text := ds.map fun d => if d < 10 then Char.ofNat (48 + d) else Char.ofNat (87 + d)
  .ofList (text.take 8 ++ '-' :: (text.drop 8).take 4 ++ '-' :: (text.drop 12).take 4 ++
    '-' :: (text.drop 16).take 4 ++ '-' :: text.drop 20)

/-! ## The sixteen bytes -/

structure Uuid16 where
  bytes : Bytes
  size : bytes.length = 16
deriving DecidableEq

namespace Uuid16

def text (id : Uuid16) : String := format (id.bytes.flatMap fun b => [b.toNat / 16, b.toNat % 16])

/-- The UUID that has the same byte everywhere. -/
def ofByte (b : UInt8) : Uuid16 := ⟨List.replicate 16 b, length_replicate⟩

theorem ext_bytes {id id' : Uuid16} (h : id.bytes = id'.bytes) : id = id' := by
  cases id
  cases id'
  cases h
  rfl

end Uuid16

def pack : List Nat → Bytes
  | hi :: lo :: ds => UInt8.ofNat (16 * hi + lo) :: pack ds
  | _ => []

theorem length_read {shape s ds} (h : read shape s = some ds) : ds.length = shape.count true := by
  induction shape generalizing s ds with
  | nil =>
    cases h
    rfl
  | cons k shape ih =>
    cases s with
    | nil => cases h
    | cons b s =>
      cases k with
      | true =>
        obtain ⟨d, _, hd⟩ := Option.bind_eq_some_iff.mp h
        obtain ⟨ds', hrest, rfl⟩ := Option.map_eq_some_iff.mp hd
        rw [length_cons, ih hrest, count_cons_self]
      | false =>
        obtain ⟨_, h⟩ := Option.ite_none_right_eq_some.mp h
        rw [ih h, count_cons_of_ne (by decide)]

theorem length_parse {s ds} (h : parse s = some ds) : ds.length = 32 := by
  unfold parse at h
  split at h
  · exact length_read h
  split at h
  · exact length_read (Option.ite_none_right_eq_some.mp h).2
  · split at h
    · exact length_read h
    · exact (length_read (Option.ite_none_right_eq_some.mp h).2).trans (by decide)

theorem length_pack {ds n} (h : ds.length = 2 * n) : (pack ds).length = n := by
  induction n generalizing ds with
  | zero =>
    rw [length_eq_zero_iff.mp h]
    rfl
  | succ n ih =>
    match ds, h with
    | hi :: lo :: ds, h =>
      simp only [length_cons] at h
      rw [pack, length_cons, ih (by omega)]

def Uuid16.parse (s : Bytes) : Option Uuid16 :=
  match h : UuidText.parse s with
  | none => none
  | some ds => some ⟨pack ds, length_pack (length_parse h)⟩

/-! ## Written and read again -/

def digitChar (d : Nat) : Char := if d < 10 then Char.ofNat (48 + d) else Char.ofNat (87 + d)

def digitByte (d : Nat) : UInt8 := UInt8.ofNat (digitChar d).toNat

theorem hexVal_digitByte {d} (hd : d < 16) : hexVal (digitByte d) = some d := by
  have h : ∀ d : Fin 16, hexVal (digitByte d) = some d.val := by decide
  exact h ⟨d, hd⟩

theorem read_digits {ds} (hds : ∀ d ∈ ds, d < 16) (shape : List Bool) (rest : Bytes) {n} (hn : ds.length = n) :
    read (List.replicate n true ++ shape) (ds.map digitByte ++ rest) = (read shape rest).map (ds ++ ·) := by
  induction ds generalizing n with
  | nil =>
    cases hn
    simp
  | cons d ds ih =>
    cases hn
    have hrest := ih (fun d' hd' => hds d' (mem_cons_of_mem _ hd')) rfl
    rw [length_cons, replicate_succ, map_cons, cons_append, cons_append, read,
      hexVal_digitByte (hds d mem_cons_self), Option.bind_some, hrest, Option.map_map]
    rfl

theorem read_hyphen (shape : List Bool) (rest : Bytes) : read (false :: shape) (hyphen :: rest) = read shape rest :=
  if_pos rfl

theorem ascii_format (ds : List Nat) :
    ascii (format ds) = (ds.take 8).map digitByte ++ hyphen :: (((ds.drop 8).take 4).map digitByte ++
      hyphen :: (((ds.drop 12).take 4).map digitByte ++ hyphen :: (((ds.drop 16).take 4).map digitByte ++
        hyphen :: (ds.drop 20).map digitByte))) := by
  unfold ascii format
  simp only [String.toList_ofList, map_append, map_cons, map_take, map_drop, map_map,
    append_assoc, cons_append]
  rfl

theorem parse_format {ds} (hlen : ds.length = 32) (hds : ∀ d ∈ ds, d < 16) :
    parse (ascii (format ds)) = some ds := by
  have hsize : (ascii (format ds)).length = 36 := by
    rw [ascii_format]
    simp only [length_append, length_cons, length_map, length_take, length_drop, hlen]
    rfl
  have hmid : ∀ i, ∀ d ∈ (ds.drop i).take 4, d < 16 := fun i d hd =>
    hds d (mem_of_mem_drop (mem_of_mem_take hd))
  have hlast : read (List.replicate 12 true) ((ds.drop 20).map digitByte) = some (ds.drop 20) := by
    have h : read (List.replicate 12 true ++ []) ((ds.drop 20).map digitByte ++ []) = (read [] []).map (ds.drop 20 ++ ·) :=
      read_digits (fun d hd => hds d (mem_of_mem_drop hd)) [] [] (by simp [hlen])
    simpa [read] using h
  have hsplit : ds = ds.take 8 ++ ((ds.drop 8).take 4 ++ ((ds.drop 12).take 4 ++ ((ds.drop 16).take 4 ++ ds.drop 20))) := by
    have h : ∀ i, (ds.drop i).take 4 ++ ds.drop (i + 4) = ds.drop i := fun i => by
      rw [← drop_drop, take_append_drop]
    rw [h 16, h 12, h 8, take_append_drop]
  rw [parse, if_pos hsize, ascii_format, shape]
  simp only [append_assoc, cons_append, nil_append]
  rw [read_digits (fun d hd => hds d (mem_of_mem_take hd)) _ _ (by simp [hlen]), read_hyphen,
    read_digits (hmid 8) _ _ (by simp [hlen]), read_hyphen, read_digits (hmid 12) _ _ (by simp [hlen]),
    read_hyphen, read_digits (hmid 16) _ _ (by simp [hlen]), read_hyphen, hlast]
  exact congrArg some hsplit.symm

theorem pack_digits (bs : Bytes) : pack (bs.flatMap fun b => [b.toNat / 16, b.toNat % 16]) = bs := by
  induction bs with
  | nil => rfl
  | cons b bs ih =>
    have hb : UInt8.ofNat (16 * (b.toNat / 16) + b.toNat % 16) = b := by
      rw [Nat.div_add_mod, UInt8.ofNat_toNat]
    rw [flatMap_cons, cons_append, cons_append, nil_append, pack, hb, ih]

theorem Uuid16.parse_text (id : Uuid16) : Uuid16.parse (ascii id.text) = some id := by
  have hdig : UuidText.parse (ascii id.text) = some (id.bytes.flatMap fun b => [b.toNat / 16, b.toNat % 16]) := by
    refine parse_format ?_ fun d hd => ?_
    · rw [length_flatMap]
      simp [id.size]
    · obtain ⟨b, _, hb⟩ := mem_flatMap.mp hd
      have hlt := b.toNat_lt
      simp only [mem_cons, not_mem_nil, or_false] at hb
      omega
  unfold Uuid16.parse
  split
  · next hnone =>
      rw [hdig] at hnone
      cases hnone
  · next ds hsome =>
      rw [hdig] at hsome
      cases hsome
      exact congrArg some (Uuid16.ext_bytes (pack_digits id.bytes))

theorem Uuid16.toList_text_ascii (id : Uuid16) : ∀ c ∈ id.text.toList, c.toNat < 0x80 := by
  have hdigit : ∀ d, d < 16 → (digitChar d).toNat < 0x80 := by
    have h : ∀ d : Fin 16, (digitChar d).toNat < 0x80 := by decide
    exact fun d hd => h ⟨d, hd⟩
  intro c hc
  have hmem : c = '-' ∨ c ∈ (id.bytes.flatMap fun b => [b.toNat / 16, b.toNat % 16]).map digitChar := by
    unfold text format at hc
    simp only [String.toList_ofList, mem_append, mem_cons] at hc
    rcases hc with (((h | h | h) | h | h) | h | h) | h | h
    all_goals
      first
      | exact .inl h
      | exact .inr (mem_of_mem_take h)
      | exact .inr (mem_of_mem_drop h)
      | exact .inr (mem_of_mem_drop (mem_of_mem_take h))
  rcases hmem with rfl | hmem
  · decide
  obtain ⟨d, hd, rfl⟩ := mem_map.mp hmem
  obtain ⟨b, _, hb⟩ := mem_flatMap.mp hd
  have hlt := b.toNat_lt
  simp only [mem_cons, not_mem_nil, or_false] at hb
  exact hdigit d (by omega)

/-! ## The bytes of a text -/

def TextByte (b : UInt8) : Prop := (hexVal b).isSome ∨ b = hyphen ∨ lower b ∈ ascii "urn:uuid:"

instance (b : UInt8) : Decidable (TextByte b) := inferInstanceAs (Decidable (_ ∨ _ ∨ _))

theorem read_get {shape : List Bool} {s} {ds : List Nat} (h : read shape s = some ds) {i : Nat}
    {digit : Bool} (hi : shape[i]? = some digit) :
    ∃ b, s[i]? = some b ∧ (digit = true → (hexVal b).isSome) ∧ (digit = false → b = hyphen) := by
  induction shape generalizing s ds i with
  | nil => cases hi
  | cons k shape ih =>
    cases s with
    | nil => cases h
    | cons b s =>
      cases k with
      | true =>
        obtain ⟨d, hd, h⟩ := Option.bind_eq_some_iff.mp h
        obtain ⟨_, h, _⟩ := Option.map_eq_some_iff.mp h
        cases i with
        | zero =>
          cases hi
          exact ⟨b, rfl, fun _ => Option.isSome_iff_exists.mpr ⟨d, hd⟩, nofun⟩
        | succ i => exact ih h hi
      | false =>
        obtain ⟨hb, h⟩ := Option.ite_none_right_eq_some.mp h
        cases i with
        | zero =>
          cases hi
          exact ⟨b, rfl, nofun, fun _ => hb⟩
        | succ i => exact ih h hi

theorem textByte_of_read {shape : List Bool} {s} {ds : List Nat} (h : read shape s = some ds)
    {i : Nat} (hi : i < shape.length) {b} (hb : s[i]? = some b) : TextByte b := by
  obtain ⟨b', hb', hdigit, hhyp⟩ := read_get h (getElem?_eq_getElem hi)
  cases hb'.symm.trans hb
  cases hkind : shape[i] with
  | true => exact .inl (hdigit hkind)
  | false => exact .inr (.inl (hhyp hkind))

theorem textByte_of_parse {pre post c ds} (h : parse (pre ++ c :: post) = some ds) (hpre : pre ≠ [])
    (hpost : post ≠ []) : TextByte c := by
  have hc : (pre ++ c :: post)[pre.length]? = some c := by simp
  have hfirst : 0 < pre.length := length_pos_iff.mpr hpre
  have hlast : pre.length + 1 < (pre ++ c :: post).length := by
    have hpos := length_pos_iff.mpr hpost
    simp only [length_append, length_cons]
    omega
  generalize pre ++ c :: post = s at h hc hlast
  generalize pre.length = i at hc hfirst hlast
  have hlen : shape.length = 36 := rfl
  unfold parse at h
  split at h
  · exact textByte_of_read h (by omega) hc
  split at h
  · obtain ⟨hurn, h⟩ := Option.ite_none_right_eq_some.mp h
    by_cases hi : i < 9
    · have htake : (s.take 9)[i]? = some c := by rw [getElem?_take_of_lt hi, hc]
      refine .inr (.inr ?_)
      rw [← hurn]
      exact mem_map_of_mem (mem_of_getElem? htake)
    · refine textByte_of_read h (i := i - 9) (by omega) ?_
      rw [getElem?_drop, Nat.add_sub_cancel' (by omega), hc]
  · split at h
    · refine textByte_of_read h (i := i - 1) (by omega) ?_
      rw [getElem?_drop, Nat.add_sub_cancel' (by omega), hc]
    · split at h
      · exact textByte_of_read h (by rw [length_replicate]; omega) hc
      · cases h

/-! ## Encoded texts -/

/-- A percent sign can only be the first byte of a text. -/
theorem keep_of_parse_escape {keep b s ds} (h : parse (escape keep (b :: s)) = some ds) :
    ∀ c ∈ s, keep c = true := by
  intro c hc
  obtain ⟨pre, post, rfl⟩ := append_of_mem hc
  rcases Bool.eq_false_or_eq_true (keep c) with hkeep | hkeep
  · exact hkeep
  have hcut : escape keep (b :: (pre ++ c :: post)) = escape keep (b :: pre) ++ percent ::
      (hexDigit (c.toNat / 16) :: hexDigit (c.toNat % 16) :: escape keep post) := by
    rw [← cons_append, escape_append, escape_cons_of_not_keep hkeep]
  rw [hcut] at h
  exact absurd (textByte_of_parse h (escape_ne_nil (cons_ne_nil _ _)) (cons_ne_nil _ _)) (by decide)

/-- A text that starts with a percent sign is one between two bytes that are not looked at. -/
theorem read_of_parse_percent {s ds} (h : parse (percent :: s) = some ds) :
    s.length = 37 ∧ read shape s = some ds := by
  unfold parse at h
  split at h
  · cases h
  split at h
  · obtain ⟨hurn, _⟩ := Option.ite_none_right_eq_some.mp h
    cases hurn
  split at h
  · rename_i hlen
    exact ⟨Nat.succ.inj hlen, h⟩
  · split at h
    · cases h
    · cases h

/-- A text and its encoding are texts of one UUID, if they are texts at all. -/
theorem parse_escape {keep : UInt8 → Bool} {s} {ds ds' : List Nat}
    (hesc : parse (escape keep s) = some ds) (h : parse s = some ds') : ds = ds' := by
  cases s with
  | nil => cases h
  | cons b s =>
    have hrest := keep_of_parse_escape hesc
    rcases Bool.eq_false_or_eq_true (keep b) with hb | hb
    · rw [escape_of_keep (forall_mem_cons.mpr ⟨hb, hrest⟩), h] at hesc
      exact (Option.some.inj hesc).symm
    -- the byte at 6 would be a hyphen of the one text and a digit of the other
    rw [escape_cons_of_not_keep hb, escape_of_keep hrest] at hesc
    obtain ⟨hlen, hread⟩ := read_of_parse_percent hesc
    have hlen : (b :: s).length = 36 := by
      simp only [length_cons] at hlen ⊢
      omega
    rw [parse, if_pos hlen] at h
    have hshape : shape[8]? = some false ∧ shape[7]? = some true := ⟨rfl, rfl⟩
    obtain ⟨c, hc, _, hhyp⟩ := read_get hread hshape.1
    obtain ⟨c', hc', hdigit, _⟩ := read_get h hshape.2
    cases hc.symm.trans hc'
    rw [hhyp rfl] at hdigit
    exact absurd (hdigit rfl) (by decide)

end UuidText
