import Mathlib.Data.List.Basic

/-!
# Percent-encoded paths

The path of a URL on the wire and as it is decoded, cut at its slashes, and with its dot segments resolved.  An encoded
slash is one of the decoded path only: the two agree on where the segments end while no segment hides one.
-/

namespace PercentPath

open List Option

abbrev Bytes := List UInt8

def ascii (s : String) : Bytes := s.toList.map fun c => UInt8.ofNat c.toNat

def slash : UInt8 := 47

def percent : UInt8 := 37

/-! ## Encoding -/

def hexVal (b : UInt8) : Option Nat :=
  if 48 ≤ b.toNat ∧ b.toNat ≤ 57 then some (b.toNat - 48)
  else if 65 ≤ b.toNat ∧ b.toNat ≤ 70 then some (b.toNat - 55)
  else if 97 ≤ b.toNat ∧ b.toNat ≤ 102 then some (b.toNat - 87)
  else none

def hexDigit (n : Nat) : UInt8 := UInt8.ofNat (if n < 10 then 48 + n else 55 + n)

def unescape : Bytes → Option Bytes
  | [] => some []
  | c :: rest =>
    if c = percent then
      match rest with
      | a :: b :: rest =>
        (hexVal a).bind fun hi => (hexVal b).bind fun lo =>
          (unescape rest).map (UInt8.ofNat (16 * hi + lo) :: ·)
      | _ => none
    else (unescape rest).map (c :: ·)

def escapeByte (keep : UInt8 → Bool) (b : UInt8) : Bytes :=
  if keep b then [b] else [percent, hexDigit (b.toNat / 16), hexDigit (b.toNat % 16)]

def escape (keep : UInt8 → Bool) (p : Bytes) : Bytes := p.flatMap (escapeByte keep)

theorem hexVal_hexDigit : ∀ n < 16, hexVal (hexDigit n) = some n := by decide

theorem unescape_cons {c} (hc : c ≠ percent) (rest : Bytes) :
    unescape (c :: rest) = (unescape rest).map (c :: ·) := by
  rw [unescape.eq_def]
  simp only [if_neg hc]

theorem unescape_percent (a b : UInt8) (rest : Bytes) : unescape (percent :: a :: b :: rest) =
      (hexVal a).bind fun hi => (hexVal b).bind fun lo =>
        (unescape rest).map (UInt8.ofNat (16 * hi + lo) :: ·) := by
  rw [unescape.eq_def]
  simp only [if_pos]

theorem unescape_escape {keep} (hkeep : keep percent = false) (p : Bytes) : unescape (escape keep p) = some p := by
  induction p with
  | nil => rfl
  | cons b p ih =>
    change unescape (escapeByte keep b ++ escape keep p) = some (b :: p)
    unfold escapeByte
    split
    · rename_i hb
      have hne : b ≠ percent := by
        intro heq
        rw [heq, hkeep] at hb
        cases hb
      rw [singleton_append, unescape_cons hne, ih]
      rfl
    · have hlt : b.toNat < 256 := b.toNat_lt
      have hhi : b.toNat / 16 < 16 := by omega
      have hlo : b.toNat % 16 < 16 := by omega
      have hbyte : 16 * (b.toNat / 16) + b.toNat % 16 = b.toNat := by omega
      change unescape (percent :: hexDigit (b.toNat / 16) :: hexDigit (b.toNat % 16) ::
        escape keep p) = some (b :: p)
      rw [unescape_percent, hexVal_hexDigit _ hhi, hexVal_hexDigit _ hlo, ih]
      simp only [bind_some, map_some, hbyte, UInt8.ofNat_toNat]

theorem escape_of_keep {keep s} (h : ∀ b ∈ s, keep b = true) : escape keep s = s := by
  induction s with
  | nil => rfl
  | cons b s ih =>
    rw [forall_mem_cons] at h
    change escapeByte keep b ++ escape keep s = b :: s
    rw [ih h.2, escapeByte, if_pos h.1, singleton_append]

theorem escape_append (keep : UInt8 → Bool) (s s' : Bytes) :
    escape keep (s ++ s') = escape keep s ++ escape keep s' := flatMap_append

theorem escape_cons_of_not_keep {keep b} (h : keep b = false) (s : Bytes) : escape keep (b :: s) =
      percent :: hexDigit (b.toNat / 16) :: hexDigit (b.toNat % 16) :: escape keep s := by
  change escapeByte keep b ++ escape keep s = _
  rw [escapeByte, h]
  rfl

theorem escape_ne_nil {keep s} (h : s ≠ []) : escape keep s ≠ [] := by
  cases s with
  | nil => exact absurd rfl h
  | cons b s =>
    change escapeByte keep b ++ escape keep s ≠ []
    unfold escapeByte
    split <;> exact cons_ne_nil _ _

/-- What the path of a URL keeps as it is when it is encoded. -/
def keepInPath (b : UInt8) : Bool :=
  decide (b.toNat ≥ 48 ∧ b.toNat ≤ 57) || decide (b.toNat ≥ 65 ∧ b.toNat ≤ 90) ||
    decide (b.toNat ≥ 97 ∧ b.toNat ≤ 122) || decide (b ∈ ascii "-_.~$&+,/:;=@")

/-- What one segment of a path keeps as it is. -/
def keepInSegment (b : UInt8) : Bool := keepInPath b && decide (b ∉ ascii "/;,")

def validEncoded (raw : Bytes) : Bool :=
  raw.all fun b => keepInPath b || decide (b ∈ percent :: ascii "!'()*[]")

/-- The encoding a URL is known by that came with `raw` for its path. -/
def escapedPath (raw path : Bytes) : Bytes := if validEncoded raw then raw else escape keepInPath path

theorem unescape_escapedPath {raw path} (h : unescape raw = some path) :
    unescape (escapedPath raw path) = some path := by
  unfold escapedPath
  split
  · exact h
  · exact unescape_escape (by decide) path

theorem escapedPath_rooted {raw path} (h : unescape (slash :: raw) = some path) :
    ∃ rest, escapedPath (slash :: raw) path = slash :: rest := by
  unfold escapedPath
  split
  · exact ⟨raw, rfl⟩
  · rw [unescape_cons (by decide)] at h
    obtain ⟨tail, _, rfl⟩ := map_eq_some_iff.mp h
    exact ⟨escape keepInPath tail, rfl⟩

-- no escape reaches over a slash, which is no hexadecimal digit
theorem unescape_append_slash (a b : Bytes) {q} (h : unescape (a ++ slash :: b) = some q) :
    ∃ qa qb, unescape a = some qa ∧ unescape b = some qb ∧ q = qa ++ slash :: qb := by
  induction a using unescape.induct generalizing q with
  | case1 =>
    rw [nil_append, unescape_cons (by decide)] at h
    obtain ⟨qb, hqb, rfl⟩ := map_eq_some_iff.mp h
    exact ⟨[], qb, rfl, hqb, rfl⟩
  | case2 d e rest ih =>
    rw [cons_append, cons_append, cons_append, unescape_percent] at h
    obtain ⟨hi, hhi, h⟩ := bind_eq_some_iff.mp h
    obtain ⟨lo, hlo, h⟩ := bind_eq_some_iff.mp h
    obtain ⟨tail, htail, rfl⟩ := map_eq_some_iff.mp h
    obtain ⟨qa, qb, hqa, hqb, rfl⟩ := ih htail
    refine ⟨UInt8.ofNat (16 * hi + lo) :: qa, qb, ?_, hqb, rfl⟩
    rw [unescape_percent, hhi, hlo, hqa]
    rfl
  | case3 rest hshort =>
    -- the slash would be one of the two digits
    match rest, hshort with
    | [], _ =>
      cases b with
      | nil => cases h
      | cons d b =>
        rw [singleton_append, unescape_percent] at h
        cases h
    | [d], _ =>
      rw [cons_append, singleton_append, unescape_percent] at h
      obtain ⟨_, _, h⟩ := bind_eq_some_iff.mp h
      cases h
    | d :: e :: rest, hshort => exact absurd rfl (hshort d e rest)
  | case4 c rest hc ih =>
    rw [cons_append, unescape_cons hc] at h
    obtain ⟨tail, htail, rfl⟩ := map_eq_some_iff.mp h
    obtain ⟨qa, qb, hqa, hqb, rfl⟩ := ih htail
    refine ⟨c :: qa, qb, ?_, hqb, rfl⟩
    rw [unescape_cons hc, hqa]
    rfl

/-! ## Segments -/

/-- `/a/b` from `a` and `b` -/
def join (ps : List Bytes) : Bytes := ps.flatMap (slash :: ·)

/-- What stands between the slashes of a path; its first byte is one. -/
def parts : Bytes → List Bytes
  | [] => []
  | _ :: rest => rest.splitOn slash

theorem join_cons (p : Bytes) (ps : List Bytes) : join (p :: ps) = slash :: (p ++ join ps) := rfl

theorem join_eq_intercalate {ps} (hps : ps ≠ []) : join ps = slash :: [slash].intercalate ps := by
  induction ps with
  | nil => exact absurd rfl hps
  | cons p ps ih =>
    cases ps with
    | nil => simp [join]
    | cons p' ps =>
      rw [join_cons, ih (cons_ne_nil _ _), intercalate_cons_cons]
      simp

theorem parts_join {ps} (hps : ps ≠ []) (hslash : ∀ p ∈ ps, slash ∉ p) : parts (join ps) = ps := by
  rw [join_eq_intercalate hps]
  exact splitOn_intercalate slash hslash hps

theorem join_parts (rest : Bytes) : join (parts (slash :: rest)) = slash :: rest := by
  have hne : rest.splitOn slash ≠ [] := splitOn_ne_nil slash rest
  change join (rest.splitOn slash) = _
  rw [join_eq_intercalate hne, intercalate_splitOn]

theorem parts_join_splitOn {ps} (hps : ps ≠ []) : parts (join ps) = ps.flatMap fun p => p.splitOn slash := by
  induction ps with
  | nil => exact absurd rfl hps
  | cons p ps ih =>
    cases ps with
    | nil => simp [join, parts]
    | cons p' ps =>
      change (p ++ slash :: (p' ++ join ps)).splitOn slash = _
      have hrest : (p' ++ join ps).splitOn slash = (p' :: ps).flatMap fun p => p.splitOn slash :=
        ih (cons_ne_nil _ _)
      rw [splitOn_append_cons_self, hrest]
      rfl

theorem slash_notMem_of_mem_splitOn {s p : Bytes} (h : p ∈ s.splitOn slash) : slash ∉ p := by
  induction s generalizing p with
  | nil =>
    rw [splitOn_nil, mem_singleton] at h
    rw [h]
    exact not_mem_nil
  | cons c s ih =>
    rw [splitOn_cons_eq_if_modifyHead] at h
    split at h
    · rcases mem_cons.mp h with rfl | h
      · exact not_mem_nil
      · exact ih h
    rename_i hc
    cases hsplit : s.splitOn slash with
    | nil => exact absurd hsplit (splitOn_ne_nil slash s)
    | cons q qs =>
      rw [hsplit] at h ih
      rcases mem_cons.mp h with rfl | h
      · rw [mem_cons, not_or]
        exact ⟨fun heq => hc (beq_iff_eq.mpr heq.symm), ih mem_cons_self⟩
      · exact ih (mem_cons_of_mem _ h)

theorem slash_notMem_of_mem_parts {p q : Bytes} (h : p ∈ parts q) : slash ∉ p := by
  cases q with
  | nil => cases h
  | cons c q => exact slash_notMem_of_mem_splitOn h

theorem slash_notMem_escape {keep p} (h : keep slash = false ∨ slash ∉ p) : slash ∉ escape keep p := by
  have hdigit : ∀ n < 16, hexDigit n ≠ slash := by decide
  intro hmem
  obtain ⟨b, hb, hslash⟩ := mem_flatMap.mp hmem
  unfold escapeByte at hslash
  split at hslash
  · rename_i hkeep
    rw [mem_singleton] at hslash
    subst hslash
    exact h.elim (fun hfalse => nomatch hfalse.symm.trans hkeep) fun hnot => hnot hb
  · have hlt : b.toNat < 256 := b.toNat_lt
    have hhi := hdigit (b.toNat / 16) (by omega)
    have hlo := hdigit (b.toNat % 16) (by omega)
    simp only [mem_cons, not_mem_nil, or_false] at hslash
    rcases hslash with heq | heq | heq
    · exact absurd heq (by decide)
    · exact hhi heq.symm
    · exact hlo heq.symm

theorem escape_join {keep} (hkeep : keep slash = true) (ps : List Bytes) :
    escape keep (join ps) = join (ps.map (escape keep)) := by
  induction ps with
  | nil => rfl
  | cons p ps ih =>
    rw [join_cons, map_cons, join_cons, ← singleton_append, escape_append, escape_append, ih,
      escape_of_keep (by simp [hkeep])]
    rfl

theorem parts_escape {keep} (hkeep : keep slash = true) {ps} (hps : ps ≠ []) :
    parts (escape keep (join ps)) = (parts (join ps)).map (escape keep) := by
  have hparts : parts (join ps) ≠ [] := by
    rw [join_eq_intercalate hps]
    exact splitOn_ne_nil slash _
  have hroot : join (parts (join ps)) = join ps := by
    rw [join_eq_intercalate hps]
    exact join_parts _
  rw [← hroot, escape_join hkeep, parts_join, hroot]
  · rw [ne_eq, map_eq_nil_iff]
    exact hparts
  · intro p hp
    obtain ⟨q, hq, rfl⟩ := mem_map.mp hp
    exact slash_notMem_escape (.inr (slash_notMem_of_mem_parts hq))

theorem parts_append_slash {p} (hp : p ≠ []) : parts (p ++ [slash]) = parts p ++ [[]] := by
  cases p with
  | nil => exact absurd rfl hp
  | cons c p =>
    change (p ++ slash :: []).splitOn slash = p.splitOn slash ++ [[]]
    rw [splitOn_append_cons_self, splitOn_nil]

theorem length_parts_le_count (rest : Bytes) : (parts (slash :: rest)).length ≤ (slash :: rest).count slash := by
  have hjoin : ∀ ps : List Bytes, ps.length ≤ (join ps).count slash := by
    intro ps
    induction ps with
    | nil => exact Nat.zero_le _
    | cons p ps ih =>
      rw [join_cons, count_cons_self, count_append, length_cons]
      omega
  have hcount := hjoin (parts (slash :: rest))
  rwa [join_parts] at hcount

theorem unescape_join (ps : List Bytes) {q} (h : unescape (join ps) = some q) :
    ∃ ds, List.Forall₂ (fun p d => unescape p = some d) ps ds ∧ q = join ds := by
  induction ps generalizing q with
  | nil =>
    cases h
    exact ⟨[], .nil, rfl⟩
  | cons p ps ih =>
    rw [join_cons, unescape_cons (by decide)] at h
    obtain ⟨tail, htail, rfl⟩ := map_eq_some_iff.mp h
    cases ps with
    | nil =>
      rw [join, flatMap_nil, append_nil] at htail
      exact ⟨[tail], .cons htail .nil, by simp [join]⟩
    | cons p' ps =>
      rw [join_cons] at htail ih
      obtain ⟨qa, qb, hqa, hqb, rfl⟩ := unescape_append_slash _ _ htail
      have hrest : unescape (slash :: (p' ++ join ps)) = some (slash :: qb) := by
        rw [unescape_cons (by decide), hqb]
        rfl
      obtain ⟨ds, hds, heq⟩ := ih hrest
      exact ⟨qa :: ds, .cons hqa hds, by rw [join_cons, ← heq]⟩

/-! ## Dot segments -/

def resolveStep (done : List Bytes) (p : Bytes) : List Bytes :=
  if p = [] ∨ p = ascii "." then done else if p = ascii ".." then done.dropLast else done ++ [p]

/-- The segments of a path that starts at the root, without empty ones and with the dots followed. -/
def resolve (ps : List Bytes) : List Bytes := ps.foldl resolveStep []

def cleanPath (p : Bytes) : Bytes :=
  let p := if p.head? = some slash then p else slash :: p
  let cleaned := if resolve (parts p) = [] then [slash] else join (resolve (parts p))
  if p.getLast? = some slash ∧ cleaned ≠ [slash] then cleaned ++ [slash] else cleaned

theorem resolve_eq_filter {ps} (h : ∀ p ∈ ps, p ≠ ascii "." ∧ p ≠ ascii "..") :
    resolve ps = ps.filter fun p => decide (p ≠ []) := by
  have hfold : ∀ done, ps.foldl resolveStep done = done ++ ps.filter fun p => decide (p ≠ []) := by
    induction ps with
    | nil => simp
    | cons p ps ih =>
      intro done
      rw [forall_mem_cons] at h
      rw [foldl_cons, ih h.2]
      by_cases hp : p = []
      · simp [resolveStep, hp]
      · simp [resolveStep, hp, h.1.1, h.1.2]
  exact hfold []

theorem cleanPath_join {ps} (hps : ps ≠ []) (h : ∀ p ∈ ps, p ≠ [] ∧ slash ∉ p ∧ p ≠ ascii "." ∧ p ≠ ascii "..") :
    cleanPath (join ps) = join ps := by
  have hhead : (join ps).head? = some slash := by
    rw [join_eq_intercalate hps]
    rfl
  have hres : resolve (parts (join ps)) = ps := by
    rw [parts_join hps fun p hp => (h p hp).2.1, resolve_eq_filter fun p hp => (h p hp).2.2, filter_eq_self]
    exact fun p hp => decide_eq_true (h p hp).1
  have hlast : (join ps).getLast? ≠ some slash := by
    obtain ⟨init, last, rfl⟩ := (eq_nil_or_concat ps).resolve_left hps
    obtain ⟨hne, hslash, _⟩ := h last (by simp)
    rw [concat_eq_append, join, flatMap_append, flatMap_singleton,
      getLast?_append_of_ne_nil _ (cons_ne_nil _ _), getLast?_cons,
      getLast?_eq_getLast_of_ne_nil hne, getD_some]
    intro heq
    exact hslash (Option.some.inj heq ▸ getLast_mem hne)
  simp only [cleanPath, hhead, if_true, hres, if_neg hps]
  exact if_neg fun hc => hlast hc.1

theorem cleanPath_escape_join {keep} (hslash : keep slash = true) (hper : keep percent = false)
    {ps} (hps : ps ≠ []) (h : ∀ p ∈ ps, p ≠ [] ∧ slash ∉ p ∧ p ≠ ascii "." ∧ p ≠ ascii "..") :
    cleanPath (escape keep (join ps)) = escape keep (join ps) := by
  have hesc : ∀ p q, unescape q = some q → escape keep p = q → p = q := by
    rintro p q hq rfl
    exact Option.some.inj ((unescape_escape hper p).symm.trans hq)
  rw [escape_join hslash]
  refine cleanPath_join (by rwa [ne_eq, map_eq_nil_iff]) fun q hq => ?_
  obtain ⟨p, hp, rfl⟩ := mem_map.mp hq
  obtain ⟨hne, hfree, hdot, hdots⟩ := h p hp
  exact ⟨escape_ne_nil hne, slash_notMem_escape (.inr hfree), fun heq => hdot (hesc p _ (by decide) heq),
    fun heq => hdots (hesc p _ (by decide) heq)⟩

end PercentPath
