import Kiban.Engine.Json
import Kiban.Lib.Base64
import Kiban.Lib.Fallible
import Kiban.Lib.JavaScript
import Mathlib.Algebra.Order.Ring.Rat
import Mathlib.Tactic.Linarith

/-!
# Tokens on the server side

`verify` takes a token apart and checks its parts one after the other.  What it refuses itself it refuses with
`kiban: invalid token`; a property that is read of `null` and a signature that is not base64 throw other errors.
-/

namespace Kiban.Web.Verifier

open Fallible List

structure Jwk where
  kid : Option String
  kty : String
  -- `use`, `alg` and the key itself
  (usage alg n e : Option String)

/-- The text decoder with `JSON.parse`, the value of a number's text, and the check of a signature under an imported
key. -/
structure Platform where
  parse : List UInt8 → Option Json
  number : String → ℚ
  verifies : Jwk → List UInt8 → String → Bool

structure TokenVerifierConfig where
  gatewayOrigin : String
  (realm audience : Option String)
  clockSkewSeconds : Option ℚ

structure VerifiedToken where
  subject : String
  clientId : Option String
  claims : Json

inductive Rejection where
  /-- `kiban: invalid token: ${reason}` -/
  | invalid (reason : String)
  | typeError
  | domException

def stripTrailingSlashes (origin : String) : String :=
  String.ofList (origin.toList.reverse.dropWhile (· = '/')).reverse

def TokenVerifierConfig.issuer (cfg : TokenVerifierConfig) : String :=
  stripTrailingSlashes cfg.gatewayOrigin ++ "/realms/" ++ cfg.realm.getD "kiban"

/-- Of several entries under one key the last one stays. -/
def lastOf {α : Type} (ms : List (String × α)) (key : String) : Option α :=
  (ms.reverse.find? (·.1 = key)).map Prod.snd

/-- The properties of a value; `null` has none to read. -/
def members : Json → Option (String → Option Json)
  | .null => none
  | .obj ms => some (lastOf ms)
  | _ => some fun _ => none

def textOf : Option Json → Option String
  | some (.str s) => some s
  | _ => none

def audOk (audience : String) : Option Json → Bool
  | some (.arr items) => items.any fun item => textOf (some item) = some audience
  | aud => textOf aud = some audience

/-- `header.kid ?? ""`; what is no text is no key of the map. -/
def kidOf : Option Json → Option String
  | none | some .null => some ""
  | kid => textOf kid

def Jwk.skipped (k : Jwk) : Bool :=
  k.kty ≠ "RSA" ∨ (JavaScript.truthy k.usage).any (· ≠ "sig") ∨ (JavaScript.truthy k.alg).any (· ≠ "RS256")

def loadKeys (jwks : List Jwk) : List (String × Jwk) :=
  (jwks.filter fun k => !k.skipped).map fun k => (k.kid.getD "", k)

/-- The keys of an earlier call, if there are any, then the published ones. -/
def keyFor (cached : Option (List Jwk)) (published : List Jwk) (kid : String) : Option Jwk :=
  (lastOf (loadKeys (cached.getD published)) kid).or (lastOf (loadKeys published) kid)

def orThrow {α : Type} (e : Rejection) : Option α → Except Rejection α
  | some a => .ok a
  | none => .error e

structure Parts where
  (h p s : String)
  (header claims : Json)

def toStandard (c : Char) : Char := if c = '-' then '+' else if c = '_' then '/' else c

def base64UrlDecode (input : String) : Option (List UInt8) :=
  let pad := if input.length % 4 = 0 then 0 else 4 - input.length % 4
  Base64.atob (input.toList.map toStandard ++ List.replicate pad '=')

section Verify

variable (io : Platform) (cfg : TokenVerifierConfig) (cached : Option (List Jwk)) (published : List Jwk) (now : Int)
  (token : String)

def parts : Option Parts :=
  match (token.toList.splitOn '.').map String.ofList with
  | [h, p, s] => do
    let header ← (base64UrlDecode h).bind io.parse
    let claims ← (base64UrlDecode p).bind io.parse
    return ⟨h, p, s, header, claims⟩
  | _ => none

def numberOf : Option Json → ℚ
  | some (.num literal) => io.number literal
  | _ => 0

def TokenVerifierConfig.skew : ℚ := cfg.clockSkewSeconds.getD 30

def signingKey (header : Json) : Except Rejection Jwk := do
  let get ← orThrow .typeError (members header)
  if textOf (get "alg") ≠ some "RS256" then .error (.invalid "unsupported algorithm")
  else orThrow (.invalid "unknown signing key") ((kidOf (get "kid")).bind (keyFor cached published))

def checkClaims (claims : Json) : Except Rejection VerifiedToken := do
  let get ← orThrow .typeError (members claims)
  let exp := numberOf io (get "exp")
  let nbf := numberOf io (get "nbf")
  if exp ≠ 0 ∧ now - cfg.skew ≥ exp then .error (.invalid "expired")
  else if nbf ≠ 0 ∧ now + cfg.skew < nbf then .error (.invalid "not yet valid")
  else if textOf (get "iss") ≠ some cfg.issuer then .error (.invalid "wrong issuer")
  else if ¬ audOk (cfg.audience.getD "kiban-api") (get "aud") then .error (.invalid "wrong audience")
  else if textOf (get "sub") = none ∨ textOf (get "sub") = some "" then .error (.invalid "no subject")
  else .ok ⟨(textOf (get "sub")).getD "", textOf (get "azp"), claims⟩

def verify : Except Rejection VerifiedToken := do
  let t ← orThrow (.invalid "malformed") (parts io token)
  let key ← signingKey cached published t.header
  -- the signature is decoded outside of the `try`
  let signature ← orThrow .domException (base64UrlDecode t.s)
  if ¬ io.verifies key signature (t.h ++ "." ++ t.p) then .error (.invalid "bad signature")
  else checkClaims io cfg now t.claims

/-! ## What a token should be -/

def Jwk.signs (k : Jwk) (kid : String) : Bool :=
  k.kty = "RSA" ∧ (k.usage = none ∨ k.usage = some "" ∨ k.usage = some "sig") ∧
    (k.alg = none ∨ k.alg = some "" ∨ k.alg = some "RS256") ∧ k.kid.getD "" = kid

/-- The RSA signing key with this id, or without one; the last of several. -/
def named (jwks : List Jwk) (kid : String) : Option Jwk := (jwks.filter (·.signs kid)).getLast?

/-- The key that the header of an RS256 token names, among those known and those published. -/
def NamesKey (header : Json) (key : Jwk) : Prop :=
  ∃ ms kid, header = .obj ms ∧ lastOf ms "alg" = some (.str "RS256") ∧
    (lastOf ms "kid" = some (.str kid) ∨ ((lastOf ms "kid" = none ∨ lastOf ms "kid" = some .null) ∧ kid = "")) ∧
    (named (cached.getD published) kid).or (named published kid) = some key

structure Addressed (get : String → Option Json) : Prop where
  iss : get "iss" = some (.str cfg.issuer)
  aud : get "aud" = some (.str (cfg.audience.getD "kiban-api")) ∨
    ∃ items, get "aud" = some (.arr items) ∧ .str (cfg.audience.getD "kiban-api") ∈ items
  sub : ∃ sub, get "sub" = some (.str sub) ∧ sub ≠ ""

structure Valid (get : String → Option Json) : Prop extends Addressed cfg get where
  expiry : ∃ literal, get "exp" = some (.num literal) ∧ now - cfg.skew < io.number literal
  notBefore : ∀ literal, get "nbf" = some (.num literal) → io.number literal ≤ now + cfg.skew

/-- Three base64url parts, of which the first two are JSON. -/
structure Spelled (t : Parts) (signature : List UInt8) : Prop where
  parts : (token.toList.splitOn '.').map String.ofList = [t.h, t.p, t.s]
  header : (Base64.decode Base64.url t.h.toList).bind io.parse = some t.header
  claims : (Base64.decode Base64.url t.p.toList).bind io.parse = some t.claims
  signature : Base64.decode Base64.url t.s.toList = some signature

def Proper : Prop :=
  ∃ t key signature ms, Spelled io token t signature ∧ NamesKey cached published t.header key ∧
    io.verifies key signature (t.h ++ "." ++ t.p) = true ∧ t.claims = .obj ms ∧ Valid io cfg now (lastOf ms)

/-- The computation fails with `kiban: invalid token` only. -/
def Refuses {α : Type} (x : Except Rejection α) : Prop := ∀ e, x = .error e → ∃ reason, e = .invalid reason

/-- The token is accepted exactly when it should be, and refused as an invalid one otherwise. -/
def Exact : Prop :=
  ((∃ v, verify io cfg cached published now token = .ok v) ↔ Proper io cfg cached published now token) ∧
    Refuses (verify io cfg cached published now token)

/-! ## Where the check falls short of that -/

-- the numbers that are looked at: zero is taken for a number that is missing
structure Timely (get : String → Option Json) : Prop where
  exp : ∀ literal, get "exp" = some (.num literal) → io.number literal ≠ 0 → now - cfg.skew < io.number literal
  nbf : ∀ literal, get "nbf" = some (.num literal) → io.number literal ≠ 0 → io.number literal ≤ now + cfg.skew

/-- There is an expiry, and a zero is in time where it stands for one. -/
structure Dated (get : String → Option Json) : Prop where
  exp : ∃ literal, get "exp" = some (.num literal) ∧ (io.number literal = 0 → now < cfg.skew)
  nbf : ∀ literal, get "nbf" = some (.num literal) → io.number literal = 0 → 0 ≤ now + cfg.skew

def Signed (t : Parts) : Prop :=
  ∃ key signature, NamesKey cached published t.header key ∧ base64UrlDecode t.s = some signature ∧
    io.verifies key signature (t.h ++ "." ++ t.p) = true

/-- Nothing that is read along the way is `null`, and the signature that is checked decodes. -/
def Readable (t : Parts) : Prop :=
  t.header ≠ .null ∧
    ((∃ key, NamesKey cached published t.header key) → ∃ signature, base64UrlDecode t.s = some signature) ∧
    (Signed io cached published t → t.claims ≠ .null)

structure LetThrough (t : Parts) (ms : List (String × Json)) : Prop where
  parts : parts io token = some t
  signed : Signed io cached published t
  claims : t.claims = .obj ms
  addressed : Addressed cfg (lastOf ms)
  timely : Timely io cfg now (lastOf ms)

def Parts.base64Url (t : Parts) : Prop := ∀ part ∈ [t.h, t.p, t.s], part.toList ⊆ Base64.url

def Guarded : Prop :=
  (∀ t, parts io token = some t → Readable io cached published t) ∧
    ∀ t ms, LetThrough io cfg cached published now token t ms → Dated io cfg now (lastOf ms) ∧ t.base64Url

/-! ## The stages of the check -/

variable {io cfg cached published now token}

section Refuses

variable {α β : Type} {x : Except Rejection α} {o : Option α}

theorem refuses_ok (a : α) : Refuses (.ok a) := nofun

theorem refuses_invalid (reason : String) : Refuses (.error (.invalid reason) : Except Rejection α) := by
  intro e he
  exact ⟨reason, (Except.error.inj he).symm⟩

theorem refuses_bind {f : α → Except Rejection β} :
    Refuses (x >>= f) ↔ Refuses x ∧ ∀ a, x = .ok a → Refuses (f a) := by
  cases x with
  | error e => exact ⟨fun h => ⟨fun e' he => h e' (congrArg _ (Except.error.inj he)), nofun⟩,
      fun h e' he => h.1 e' (congrArg _ (Except.error.inj he))⟩
  | ok a => exact ⟨fun h => ⟨refuses_ok a, fun a' ha => Except.ok.inj ha ▸ h⟩, fun h => h.2 a rfl⟩

theorem refuses_ite {c : Prop} [Decidable c] {reason} :
    Refuses (if c then .error (.invalid reason) else x) ↔ (¬ c → Refuses x) := by
  split
  · rename_i hc
    exact iff_of_true (refuses_invalid reason) fun hnot => absurd hc hnot
  · rename_i hc
    exact ⟨fun h _ => h, fun h => h hc⟩

theorem refuses_orThrow_invalid (reason : String) : Refuses (orThrow (.invalid reason) o) := by
  cases o with
  | none => exact refuses_invalid reason
  | some a => exact refuses_ok a

theorem refuses_orThrow {e} (he : ∀ reason, e ≠ .invalid reason) : Refuses (orThrow e o) ↔ ∃ a, o = some a := by
  cases o with
  | none => exact ⟨fun h => absurd (h e rfl) (not_exists.mpr he), nofun⟩
  | some a => exact iff_of_true (refuses_ok a) ⟨a, rfl⟩

theorem orThrow_eq_ok {e a} : orThrow e o = .ok a ↔ o = some a := by
  cases o with
  | none => exact ⟨nofun, nofun⟩
  | some a' => exact ⟨fun h => congrArg some (Except.ok.inj h), fun h => congrArg Except.ok (Option.some.inj h)⟩

end Refuses

theorem textOf_eq_some {o s} : textOf o = some s ↔ o = some (.str s) := by
  unfold textOf
  split
  · exact ⟨fun h => by rw [Option.some.inj h], fun h => by cases h; rfl⟩
  · rename_i hnot
    exact ⟨nofun, fun h => absurd h (hnot s)⟩

theorem members_eq_some_null {header} : (∃ get, members header = some get) ↔ header ≠ .null := by
  cases header <;> simp [members]

/-- Only an object has a property that is there. -/
theorem exists_members {j} {P : (String → Option Json) → Prop} (hP : ∀ get, P get → ∃ key v, get key = some v) :
    (∃ get, members j = some get ∧ P get) ↔ ∃ ms, j = .obj ms ∧ P (lastOf ms) := by
  constructor
  · rintro ⟨get, hget, hp⟩
    obtain ⟨key, v, hv⟩ := hP get hp
    cases j with
    | obj ms => exact ⟨ms, rfl, (Option.some.inj hget) ▸ hp⟩
    | null => cases hget
    | bool | num | str | arr =>
      cases Option.some.inj hget
      cases hv
  · rintro ⟨ms, rfl, hp⟩
    exact ⟨_, rfl, hp⟩

/-! ### The key -/

theorem skipped_eq_signs {k : Jwk} {kid} : (!k.skipped && decide (k.kid.getD "" = kid)) = k.signs kid := by
  have htru : ∀ (o : Option String) (s : String),
      ¬ (JavaScript.truthy o).any (· ≠ s) ↔ o = none ∨ o = some "" ∨ o = some s := by
    intro o s
    cases o with
    | none => simp [JavaScript.truthy]
    | some text => by_cases htext : text = "" <;> simp [JavaScript.truthy, Option.filter, htext]
  rw [Bool.eq_iff_iff, Bool.and_eq_true, Jwk.skipped, Jwk.signs, decide_eq_true_eq, decide_eq_true_eq, Bool.not_eq_true',
    decide_eq_false_iff_not, not_or, not_or, htru, htru, not_not, and_assoc, and_assoc]

theorem lastOf_loadKeys (jwks : List Jwk) (kid : String) : lastOf (loadKeys jwks) kid = named jwks kid := by
  unfold named
  simp only [← skipped_eq_signs]
  rw [getLast?_eq_head?_reverse, ← filter_reverse, head?_filter]
  unfold lastOf loadKeys
  rw [← map_reverse, find?_map, ← filter_reverse, find?_filter, Option.map_map]
  simp [Function.comp_def]

theorem kidOf_eq_some {o kid} : kidOf o = some kid ↔ o = some (.str kid) ∨ ((o = none ∨ o = some .null) ∧ kid = "") := by
  unfold kidOf
  split
  · simp [eq_comm]
  · simp [eq_comm]
  · rename_i hnone hnull
    rw [textOf_eq_some]
    exact ⟨.inl, fun h => h.resolve_right fun h => h.1.elim hnone hnull⟩

theorem signingKey_eq_ok {header key} :
    signingKey cached published header = .ok key ↔ NamesKey cached published header key := by
  have hstage : signingKey cached published header = .ok key ↔ ∃ get, members header = some get ∧
      (textOf (get "alg") = some "RS256" ∧ (kidOf (get "kid")).bind (keyFor cached published) = some key) := by
    unfold signingKey
    simp only [bind_eq_ok, orThrow_eq_ok, ite_error_eq_ok, not_not, ne_eq]
  have hobj : ∀ get : String → Option Json, textOf (get "alg") = some "RS256" ∧
      (kidOf (get "kid")).bind (keyFor cached published) = some key → ∃ key v, get key = some v :=
    fun get h => ⟨_, _, textOf_eq_some.mp h.1⟩
  rw [hstage, exists_members hobj]
  simp only [textOf_eq_some, Option.bind_eq_some_iff, kidOf_eq_some, keyFor, lastOf_loadKeys]
  constructor
  · rintro ⟨ms, hms, halg, kid, hkid, hkey⟩
    exact ⟨ms, kid, hms, halg, hkid, hkey⟩
  · rintro ⟨ms, kid, hms, halg, hkid, hkey⟩
    exact ⟨ms, hms, halg, kid, hkid, hkey⟩

theorem refuses_signingKey {header} : Refuses (signingKey cached published header) ↔ header ≠ .null := by
  unfold signingKey
  rw [refuses_bind, refuses_orThrow (by simp), members_eq_some_null, and_iff_left]
  exact fun get _ => refuses_ite.mpr fun _ => refuses_orThrow_invalid _

/-! ### The claims -/

theorem numberOf_imp {o} {P : ℚ → Prop} :
    (numberOf io o ≠ 0 → P (numberOf io o)) ↔
      ∀ literal, o = some (.num literal) → io.number literal ≠ 0 → P (io.number literal) := by
  unfold numberOf
  split
  · exact ⟨fun h literal' heq => by cases heq; exact h, fun h => h _ rfl⟩
  · rename_i hnot
    exact iff_of_true (fun h => absurd rfl h) fun literal heq => absurd heq (hnot literal)

theorem audOk_eq_true {audience o} : audOk audience o = true ↔
    o = some (.str audience) ∨ ∃ items, o = some (.arr items) ∧ .str audience ∈ items := by
  unfold audOk
  split
  · simp [textOf_eq_some]
  · rename_i hnot
    rw [decide_eq_true_eq, textOf_eq_some]
    exact ⟨.inl, fun h => h.resolve_right fun ⟨items, h, _⟩ => hnot items h⟩

theorem checkClaims_ok_iff {claims} : (∃ v, checkClaims io cfg now claims = .ok v) ↔
    ∃ ms, claims = .obj ms ∧ Addressed cfg (lastOf ms) ∧ Timely io cfg now (lastOf ms) := by
  have hstage : (∃ v, checkClaims io cfg now claims = .ok v) ↔ ∃ get, members claims = some get ∧
      (Addressed cfg get ∧ Timely io cfg now get) := by
    unfold checkClaims
    simp only [bind_eq_ok, orThrow_eq_ok, ite_error_eq_ok]
    rw [exists_comm]
    refine exists_congr fun get => ?_
    simp only [exists_and_left, not_and, not_le, not_lt, ge_iff_le, not_not, not_or, ne_eq]
    refine and_congr_right fun _ => ?_
    constructor
    · rintro ⟨hexp, hnbf, hiss, haud, ⟨hsub, hne⟩, -⟩
      obtain ⟨sub, hsub⟩ := Option.ne_none_iff_exists'.mp hsub
      refine ⟨⟨textOf_eq_some.mp hiss, audOk_eq_true.mp haud, sub, textOf_eq_some.mp hsub, ?_⟩, ?_, ?_⟩
      · rintro rfl
        exact hne hsub
      · exact (numberOf_imp (P := fun exp => now - cfg.skew < exp)).mp hexp
      · exact (numberOf_imp (P := fun nbf => nbf ≤ now + cfg.skew)).mp hnbf
    · rintro ⟨⟨hiss, haud, sub, hsub, hne⟩, hexp, hnbf⟩
      have hsub' := textOf_eq_some.mpr hsub
      refine ⟨(numberOf_imp (P := fun exp => now - cfg.skew < exp)).mpr hexp,
        (numberOf_imp (P := fun nbf => nbf ≤ now + cfg.skew)).mpr hnbf, textOf_eq_some.mpr hiss,
        audOk_eq_true.mpr haud, ?_, _, rfl⟩
      rw [hsub']
      exact ⟨nofun, fun h => hne (Option.some.inj h)⟩
  have hobj : ∀ get, Addressed cfg get ∧ Timely io cfg now get → ∃ key v, get key = some v :=
    fun get h => ⟨_, _, h.1.iss⟩
  rw [hstage, exists_members hobj]

theorem refuses_checkClaims {claims} : Refuses (checkClaims io cfg now claims) ↔ claims ≠ .null := by
  unfold checkClaims
  rw [refuses_bind, refuses_orThrow (by simp), members_eq_some_null, and_iff_left]
  intro get _
  simp only [refuses_ite]
  exact fun _ _ _ _ _ => refuses_ok _

theorem valid_iff {get} : Valid io cfg now get ↔ Addressed cfg get ∧ Timely io cfg now get ∧ Dated io cfg now get := by
  constructor
  · rintro ⟨haddr, ⟨literal, hexp, hfresh⟩, hnbf⟩
    refine ⟨haddr, ⟨fun literal' h _ => ?_, fun literal h _ => hnbf literal h⟩,
      ⟨literal, hexp, fun hzero => ?_⟩, fun literal h hzero => hzero ▸ hnbf literal h⟩
    · cases hexp.symm.trans h
      exact hfresh
    · rw [hzero] at hfresh
      linarith
  · rintro ⟨haddr, ⟨hexp, hnbf⟩, ⟨literal, hlit, hzero⟩, hnbf'⟩
    refine ⟨haddr, ⟨literal, hlit, ?_⟩, fun literal h => ?_⟩
    · by_cases hnum : io.number literal = 0
      · have hearly := hzero hnum
        rw [hnum]
        linarith
      · exact hexp literal hlit hnum
    · by_cases hnum : io.number literal = 0
      · rw [hnum]
        exact hnbf' literal h hnum
      · exact hnbf literal h hnum

/-! ### The parts -/

/-- On its own alphabet the decoder reads base64url. -/
theorem base64UrlDecode_eq {s : String} (h : s.toList ⊆ Base64.url) :
    base64UrlDecode s = Base64.decode Base64.url s.toList := by
  have hdigit : Base64.url.all (fun c => toStandard c ∈ Base64.standard ∧
      Base64.standard.idxOf (toStandard c) = Base64.url.idxOf c) = true := by decide +kernel
  simp only [all_eq_true, decide_eq_true_eq] at hdigit
  have hsub : s.toList.map toStandard ⊆ Base64.standard := by
    intro c hc
    obtain ⟨digit, hdigit', rfl⟩ := mem_map.mp hc
    exact (hdigit digit (h hdigit')).1
  have hmap : (s.toList.map toStandard).map Base64.standard.idxOf = s.toList.map Base64.url.idxOf := by
    rw [map_map]
    exact map_congr_left fun c hc => (hdigit c (h hc)).2
  have hpad := Base64.atob_append_padding hsub
  unfold Base64.padding at hpad
  rw [length_map, String.length_toList] at hpad
  unfold base64UrlDecode
  rw [hpad]
  unfold Base64.decode
  rw [hmap, length_map]
  simp only [hsub, h]

theorem parts_eq_some {t} : parts io token = some t ↔
    (token.toList.splitOn '.').map String.ofList = [t.h, t.p, t.s] ∧
      (base64UrlDecode t.h).bind io.parse = some t.header ∧ (base64UrlDecode t.p).bind io.parse = some t.claims := by
  unfold parts
  split
  · rename_i h p s hsplit
    rw [hsplit]
    constructor
    · intro ht
      obtain ⟨header, hhead, ht⟩ := Option.bind_eq_some_iff.mp ht
      obtain ⟨claims, hclm, ht⟩ := Option.bind_eq_some_iff.mp ht
      cases ht
      exact ⟨rfl, hhead, hclm⟩
    · rintro ⟨hparts, hhead, hclm⟩
      obtain ⟨h', p', s', header, claims⟩ := t
      cases hparts
      exact Option.bind_eq_some_iff.mpr ⟨header, hhead, Option.bind_eq_some_iff.mpr ⟨claims, hclm, rfl⟩⟩
  · rename_i hnot
    constructor
    · intro h
      cases h
    · intro h
      exact absurd h.1 (hnot _ _ _)

theorem spelled_iff {t signature} : Spelled io token t signature ↔
    parts io token = some t ∧ base64UrlDecode t.s = some signature ∧ t.base64Url := by
  constructor
  · rintro ⟨hparts, hhead, hclm, hsig⟩
    obtain ⟨_, hh, -⟩ := Option.bind_eq_some_iff.mp hhead
    obtain ⟨_, hp, -⟩ := Option.bind_eq_some_iff.mp hclm
    have hh := Base64.subset_of_decode hh
    have hp := Base64.subset_of_decode hp
    have hs := Base64.subset_of_decode hsig
    rw [parts_eq_some, base64UrlDecode_eq hh, base64UrlDecode_eq hp, base64UrlDecode_eq hs]
    exact ⟨⟨hparts, hhead, hclm⟩, hsig, by simp [Parts.base64Url, hh, hp, hs]⟩
  · rintro ⟨ht, hsig, hurl⟩
    obtain ⟨hparts, hhead, hclm⟩ := parts_eq_some.mp ht
    rw [base64UrlDecode_eq (hurl _ (by simp))] at hhead hclm hsig
    exact ⟨hparts, hhead, hclm, hsig⟩

/-! ### The whole check -/

theorem verify_ok_iff : (∃ v, verify io cfg cached published now token = .ok v) ↔
    ∃ t ms, LetThrough io cfg cached published now token t ms := by
  unfold verify
  simp only [bind_eq_ok, orThrow_eq_ok, ite_error_eq_ok, signingKey_eq_ok, not_not]
  constructor
  · rintro ⟨v, t, ht, key, hkey, signature, hsig, hver, hclm⟩
    obtain ⟨ms, hms, haddr, htime⟩ := checkClaims_ok_iff.mp ⟨v, hclm⟩
    exact ⟨t, ms, ht, ⟨key, signature, hkey, hsig, hver⟩, hms, haddr, htime⟩
  · rintro ⟨t, ms, ht, ⟨key, signature, hkey, hsig, hver⟩, hms, haddr, htime⟩
    obtain ⟨v, hclm⟩ := checkClaims_ok_iff.mpr ⟨ms, hms, haddr, htime⟩
    exact ⟨v, t, ht, key, hkey, signature, hsig, hver, hclm⟩

theorem proper_iff : Proper io cfg cached published now token ↔
    ∃ t ms, LetThrough io cfg cached published now token t ms ∧ Dated io cfg now (lastOf ms) ∧ t.base64Url := by
  constructor
  · rintro ⟨t, key, signature, ms, hspe, hkey, hver, hms, hvalid⟩
    obtain ⟨ht, hsig, hurl⟩ := spelled_iff.mp hspe
    obtain ⟨haddr, htime, hdated⟩ := valid_iff.mp hvalid
    exact ⟨t, ms, ⟨ht, ⟨key, signature, hkey, hsig, hver⟩, hms, haddr, htime⟩, hdated, hurl⟩
  · rintro ⟨t, ms, ⟨ht, ⟨key, signature, hkey, hsig, hver⟩, hms, haddr, htime⟩, hdated, hurl⟩
    exact ⟨t, key, signature, ms, spelled_iff.mpr ⟨ht, hsig, hurl⟩, hkey, hver, hms,
      valid_iff.mpr ⟨haddr, htime, hdated⟩⟩

theorem refuses_verify : Refuses (verify io cfg cached published now token) ↔
    ∀ t, parts io token = some t → Readable io cached published t := by
  unfold verify
  rw [refuses_bind, and_iff_right (refuses_orThrow_invalid _)]
  refine forall_congr' fun t => imp_congr orThrow_eq_ok ?_
  rw [refuses_bind, refuses_signingKey]
  refine and_congr_right fun _ => ?_
  simp only [refuses_bind, refuses_orThrow (e := .domException) (by simp), orThrow_eq_ok, signingKey_eq_ok, refuses_ite,
    refuses_checkClaims, not_not]
  constructor
  · intro h
    refine ⟨fun ⟨key, hkey⟩ => (h key hkey).1, ?_⟩
    rintro ⟨key, signature, hkey, hsig, hver⟩
    exact (h key hkey).2 signature hsig hver
  · rintro ⟨hdec, hnull⟩ key hkey
    exact ⟨hdec ⟨key, hkey⟩, fun signature hsig hver => hnull ⟨key, signature, hkey, hsig, hver⟩⟩

end Verify

section Unexpiring

def header : String := "\x7b\"alg\":\"RS256\",\"kid\":\"k1\"\x7d"

def claims : String := "\x7b\"iss\":\"https://kiban/realms/kiban\",\"aud\":\"kiban-api\",\"sub\":\"user\"\x7d"

-- the two documents in base64url, and what the key below signs them with
def head : List Char := "eyJhbGciOiJSUzI1NiIsImtpZCI6ImsxIn0".toList

def payload : List Char :=
  ["eyJpc3MiOiJodHRwczovL2tpYmFuL3JlYWxtcy9raWJhbiI", "sImF1ZCI6ImtpYmFuLWFwaSIsInN1YiI6InVzZXIifQ"].flatMap
    String.toList

def signed : List Char :=
  ["a2-wISAkuHnMYkKSBl7uBEvDKD8-EwRL4ln7sObR", "jS-gnhZAWN0ZyWwgr74VDnY6vxGPoUGYNil9cClo",
    "UJlMC4UM15X5CbGV0Q8VpFJB9bbt4ek3KBPb-MHe", "ihdtwLVw66gY14QtqY1nUVc5pEyMVv3I-hGe08-q", "NwwvWT1SS-Q"].flatMap
    String.toList

def token : String := String.ofList (['.'].intercalate [head, payload, signed])

def key : Jwk where
  kid := some "k1"
  kty := "RSA"
  usage := some "sig"
  alg := some "RS256"
  n := some <| "xpZ3FEuelne7M5PbbRvB5m0NzRJEt7pVsKP-qQ9eeph0Wxr5juXbLNIcVwE79_ZA9pXk1vYecob2Jxxtc5oL4Ng4SrvMzycX" ++
    "HCxX_it_9IKAHDui3Rqe2pSHlRW-IA-dT4REp2O6vs9P-nAyoxgYiXn92tohOzar7X528zlyS1s"
  e := some "AQAB"

def headerJson : Json := .obj [("alg", .str "RS256"), ("kid", .str "k1")]

def claimsJson : Json :=
  .obj [("iss", .str "https://kiban/realms/kiban"), ("aud", .str "kiban-api"), ("sub", .str "user")]

/-- The platform as far as this token goes. -/
def sample : Platform where
  parse bytes :=
    if bytes = header.toUTF8.data.toList then some headerJson
    else if bytes = claims.toUTF8.data.toList then some claimsJson
    else none
  number _ := 0
  verifies k signature message :=
    k.n = key.n ∧ k.e = key.e ∧ Base64.decode Base64.url signed = some signature ∧
      message = String.ofList head ++ "." ++ String.ofList payload

theorem segments_url : ∀ segment ∈ [head, payload, signed], segment ⊆ Base64.url := by decide +kernel

theorem base64UrlDecode_segment {segment} (h : segment ∈ [head, payload, signed]) :
    base64UrlDecode (String.ofList segment) = Base64.decode Base64.url segment := by
  rw [base64UrlDecode_eq, String.toList_ofList]
  rw [String.toList_ofList]
  exact segments_url segment h

theorem parts_token :
    parts sample token = some ⟨.ofList head, .ofList payload, .ofList signed, headerJson, claimsJson⟩ := by
  have hsplit : token.toList.splitOn '.' = [head, payload, signed] := by
    rw [token, String.toList_ofList]
    refine splitOn_intercalate _ (fun segment hseg hdot => ?_) (by simp)
    exact absurd (segments_url segment hseg hdot) (by decide +kernel)
  have hhead : Base64.decode Base64.url head = some header.toUTF8.data.toList := by decide +kernel
  have hclm : Base64.decode Base64.url payload = some claims.toUTF8.data.toList := by decide +kernel
  have hpars : sample.parse header.toUTF8.data.toList = some headerJson := by simp [sample]
  have hpar : sample.parse claims.toUTF8.data.toList = some claimsJson := by
    have hne : claims.toUTF8.data.toList ≠ header.toUTF8.data.toList := by decide +kernel
    simp only [sample, if_neg hne, ↓reduceIte]
  rw [parts_eq_some, hsplit, base64UrlDecode_segment (by simp), base64UrlDecode_segment (by simp), hhead, hclm]
  exact ⟨rfl, hpars, hpar⟩

end Unexpiring
end Kiban.Web.Verifier
