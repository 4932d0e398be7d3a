import Kiban.Lib.Fallible

/-!
# The webhook policy

`Validate` resolves the host of a webhook's target and refuses the target if one of the addresses is internal.  What
the standard library makes of a URL and of a literal address is given from outside; no prefix of `netip` contains an
address with a zone, and such an address is not the unspecified one.
-/

namespace Kiban.Notification

open Fallible

/-! ## Addresses -/

/-- `netip.Addr`, whose zero value is no address. -/
inductive Addr where
  | zero
  | v4 (bits : BitVec 32)
  | v6 (bits : BitVec 128) (zone : String)
  deriving DecidableEq

/-- The addresses that have their first `len` bits in common with `p`. -/
def inBlock {w : Nat} (p : BitVec w) (len : Nat) (x : BitVec w) : Bool :=
  decide (x >>> (w - len) = p >>> (w - len))

/-- `a:b:…` with zeros to the end, from its first group. -/
def group (first : BitVec 128) : BitVec 128 := first <<< 112

namespace Addr

/-- An IPv4-mapped address, `::ffff:a.b.c.d`, is read as the IPv4 address. -/
def unmap : Addr → Addr
  | .v6 x zone => if x >>> 32 = 0xffff then .v4 (x.setWidth 32) else .v6 x zone
  | a => a

def isLoopback : Addr → Bool
  | .zero => false
  | .v4 x => inBlock 0x7f000000 8 x
  | .v6 x _ => decide (x = 1)

def isPrivate : Addr → Bool
  | .zero => false
  | .v4 x => inBlock 0x0a000000 8 x || inBlock 0xac100000 12 x || inBlock 0xc0a80000 16 x
  | .v6 x _ => inBlock (group 0xfc00) 7 x

def isLinkLocalUnicast : Addr → Bool
  | .zero => false
  | .v4 x => inBlock 0xa9fe0000 16 x
  | .v6 x _ => inBlock (group 0xfe80) 10 x

-- the scope of an IPv6 multicast address is the last digit of its first group
def isLinkLocalMulticast : Addr → Bool
  | .zero => false
  | .v4 x => inBlock 0xe0000000 24 x
  | .v6 x _ => inBlock (group 0xff00) 8 x && decide ((x >>> 112) &&& 0xf = 2)

def isInterfaceLocalMulticast : Addr → Bool
  | .v6 x _ => inBlock (group 0xff00) 8 x && decide ((x >>> 112) &&& 0xf = 1)
  | _ => false

def isMulticast : Addr → Bool
  | .zero => false
  | .v4 x => inBlock 0xe0000000 4 x
  | .v6 x _ => inBlock (group 0xff00) 8 x

def isUnspecified (a : Addr) : Bool := decide (a = .v4 0) || decide (a = .v6 0 "")

end Addr

def siteLocalV6 : Addr → Bool
  | .v6 x zone => decide (zone = "") && inBlock (group 0xfec0) 10 x
  | _ => false

def isDisallowedWebhookAddr (addr : Addr) : Bool :=
  if addr = .zero then true
  else
    let addr := addr.unmap
    if addr.isLoopback || addr.isPrivate || addr.isLinkLocalUnicast || addr.isLinkLocalMulticast ||
        addr.isInterfaceLocalMulticast || addr.isMulticast || addr.isUnspecified then true
    else siteLocalV6 addr

def addrFromSlice (bytes : List UInt8) : Option Addr :=
  let number := bytes.foldl (fun n b => n * 256 + b.toNat) 0
  match bytes.length with
  | 4 => some (.v4 (.ofNat 32 number))
  | 16 => some (.v6 (.ofNat 128 number) "")
  | _ => none

/-! ## Targets -/

structure Url where
  scheme : String
  /-- `u.Host`, with its port -/
  (host hostname port : String)
  deriving DecidableEq

structure Library where
  parseURL : String → Option Url
  parseAddr : String → Option Addr
  addrString : Addr → String
  toLower : String → String

structure WebhookPolicy where
  allowHTTP : Bool
  /-- lower-cased; empty means no restriction -/
  allowedHosts : List String

structure ResolvedWebhookTarget where
  url : Url
  port : String
  ips : List Addr

structure WebhookPolicyError where
  message : String

abbrev Answer := Except String (List (List UInt8))

section Validate

variable (lib : Library) (p : WebhookPolicy)

def checkScheme (u : Url) : Except WebhookPolicyError Unit :=
  if u.scheme = "https" then .ok ()
  else if u.scheme = "http" then
    if ¬ p.allowHTTP then
      .error ⟨"scheme must be https (set KIBAN_WEBHOOK_ALLOW_HTTP=true to allow http for dev only)"⟩
    else .ok ()
  else .error ⟨"scheme must be https"⟩

def dialPort (u : Url) : String :=
  if u.port = "" then if u.scheme = "https" then "443" else "80" else u.port

-- a literal address needs no lookup; the zone of a resolved one is dropped
def resolveHost (answer : Answer) (host : String) : Except String (List Addr) :=
  match lib.parseAddr host with
  | some ip => .ok [ip.unmap]
  | none => answer.map fun slices => slices.filterMap fun ip => (addrFromSlice ip).map Addr.unmap

def checkAddrs (addrs : List Addr) : Except WebhookPolicyError Unit :=
  if addrs = [] then .error ⟨"host has no resolvable addresses"⟩
  else
    match addrs.find? isDisallowedWebhookAddr with
    | some addr =>
      .error ⟨"target address " ++ lib.addrString addr ++ " is not allowed (loopback/private/link-local/multicast/unspecified)"⟩
    | none => .ok ()

def validateURL (answer : Answer) (u : Url) : Except WebhookPolicyError ResolvedWebhookTarget := do
  checkScheme p u
  if u.hostname = "" then .error ⟨"target must have a host"⟩
  else if p.allowedHosts ≠ [] ∧ lib.toLower u.hostname ∉ p.allowedHosts then
    .error ⟨"host is not in KIBAN_WEBHOOK_ALLOWED_HOSTS"⟩
  else
    let addrs ← (resolveHost lib answer u.hostname).mapError fun e => ⟨"DNS resolution failed: " ++ e⟩
    checkAddrs lib addrs
    return ⟨u, dialPort u, addrs⟩

def validate (answer : Answer) (rawURL : String) : Except WebhookPolicyError ResolvedWebhookTarget :=
  match lib.parseURL rawURL with
  | none => .error ⟨"target must be a valid absolute URL"⟩
  | some u =>
    if u.host = "" then .error ⟨"target must be a valid absolute URL"⟩
    else validateURL lib p answer u

end Validate

/-! ## Internal addresses -/

variable {x : BitVec 128} {a : Addr} {rawURL : String} {lib : Library} {answer : Answer} {p : WebhookPolicy}
  {target : ResolvedWebhookTarget}

/-- Loopback, private, link-local, multicast or unspecified. -/
def internal4 (x : BitVec 32) : Bool :=
  inBlock 0x7f000000 8 x || inBlock 0x0a000000 8 x || inBlock 0xac100000 12 x ||
    inBlock 0xc0a80000 16 x || inBlock 0xa9fe0000 16 x || inBlock 0xe0000000 4 x || decide (x = 0)

/-- The same for IPv6, where there are site-local addresses too. -/
def internal6 (x : BitVec 128) : Bool :=
  decide (x = 1) || inBlock (group 0xfc00) 7 x || inBlock (group 0xfe80) 10 x ||
    inBlock (group 0xfec0) 10 x || inBlock (group 0xff00) 8 x || decide (x = 0)

/-- In plain or IPv4-mapped form, whatever the zone. -/
def Addr.internal : Addr → Bool
  | .zero => false
  | .v4 x => internal4 x
  | .v6 x _ => internal6 x || (decide (x >>> 32 = 0xffff) && internal4 (x.setWidth 32))

/-- The internal addresses that are not recognized when they have a zone. -/
def Addr.zoneHides : Addr → Bool
  | .v6 x zone => decide (zone ≠ "") && (decide (x = 0) || inBlock (group 0xfec0) 10 x)
  | _ => false

def hiddenByZone (lib : Library) (rawURL : String) : Bool :=
  match lib.parseURL rawURL with
  | none => false
  | some u => (lib.parseAddr u.hostname).any Addr.zoneHides

-- a mapped address is below 2^48, and the blocks start far above it
theorem internal6_of_mapped (h : x >>> 32 = 0xffff) : internal6 x = false := by
  have hx : x.toNat / 2 ^ 32 = 0xffff := by
    simpa [Nat.shiftRight_eq_div_pow] using congrArg BitVec.toNat h
  have hlow : x.toNat < 2 ^ 48 := by omega
  have hblock : ∀ (q : BitVec 128) (len : Nat), len ≤ 80 → (q >>> (128 - len)).toNat ≠ 0 →
      inBlock q len x = false := by
    intro q len hlen hq
    refine decide_eq_false fun heq => hq ?_
    rw [← heq, BitVec.toNat_ushiftRight, Nat.shiftRight_eq_div_pow]
    refine Nat.div_eq_of_lt (Nat.lt_of_lt_of_le hlow ?_)
    exact Nat.pow_le_pow_right (by decide) (by omega)
  have hone : x ≠ 1 := by
    intro heq
    rw [heq] at hx
    exact absurd hx (by decide)
  have hzero : x ≠ 0 := by
    intro heq
    rw [heq] at hx
    exact absurd hx (by decide)
  unfold internal6
  rw [hblock _ 7 (by decide) (by decide), hblock _ 10 (by decide) (by decide),
    hblock _ 10 (by decide) (by decide), hblock _ 8 (by decide) (by decide)]
  rw [decide_eq_false hone, decide_eq_false hzero]
  rfl

/-- An address that is in none of the classes the policy asks for. -/
structure InNoClass (a : Addr) : Prop where
  loopback : a.isLoopback = false
  isPrivate : a.isPrivate = false
  linkLocal : a.isLinkLocalUnicast = false
  multicast : a.isMulticast = false
  unspecified : a.isUnspecified = false
  siteLocal : siteLocalV6 a = false

theorem inNoClass_unmap (h : isDisallowedWebhookAddr a = false) : InNoClass a.unmap := by
  unfold isDisallowedWebhookAddr at h
  split at h
  · cases h
  simp only at h
  split at h
  · cases h
  · rename_i hclass
    simp only [Bool.or_eq_true, not_or, Bool.not_eq_true] at hclass
    obtain ⟨⟨⟨⟨⟨⟨hloo, hpriv⟩, hlin⟩, _⟩, _⟩, hmul⟩, huns⟩ := hclass
    exact ⟨hloo, hpriv, hlin, hmul, huns, h⟩

theorem InNoClass.internal4_eq_false {x} (h : InNoClass (.v4 x)) : internal4 x = false := by
  have hpriv := h.isPrivate
  simp only [Addr.isPrivate, Bool.or_eq_false_iff] at hpriv
  have hzero : x ≠ 0 := by
    intro hx
    have huns := h.unspecified
    rw [hx] at huns
    cases huns
  unfold internal4
  rw [show inBlock 0x7f000000 8 x = false from h.loopback, hpriv.1.1, hpriv.1.2, hpriv.2,
    show inBlock 0xa9fe0000 16 x = false from h.linkLocal,
    show inBlock 0xe0000000 4 x = false from h.multicast, decide_eq_false hzero]
  rfl

-- only here does the zone matter
theorem InNoClass.internal6_eq_false {zone} (h : InNoClass (.v6 x zone))
    (hzone : (Addr.v6 x zone).zoneHides = false) : internal6 x = false := by
  have hrest : decide (x = 0) = false ∧ inBlock (group 0xfec0) 10 x = false := by
    by_cases hz : zone = ""
    · subst hz
      have hzero : x ≠ 0 := by
        intro hx
        have huns := h.unspecified
        rw [hx] at huns
        cases huns
      have hsite := h.siteLocal
      simp only [siteLocalV6, decide_true, Bool.true_and] at hsite
      exact ⟨decide_eq_false hzero, hsite⟩
    · simp only [Addr.zoneHides, decide_eq_true hz, Bool.true_and, Bool.or_eq_false_iff] at hzone
      exact hzone
  unfold internal6
  rw [show decide (x = 1) = false from h.loopback,
    show inBlock (group 0xfc00) 7 x = false from h.isPrivate,
    show inBlock (group 0xfe80) 10 x = false from h.linkLocal,
    show inBlock (group 0xff00) 8 x = false from h.multicast, hrest.1, hrest.2]
  rfl

theorem internal_eq_false (hok : isDisallowedWebhookAddr a = false)
    (hzone : a.zoneHides = false) : a.internal = false := by
  have hclass := inNoClass_unmap hok
  cases a with
  | zero => rfl
  | v4 x => exact hclass.internal4_eq_false
  | v6 x zone =>
    show (internal6 x || (decide (x >>> 32 = 0xffff) && internal4 (x.setWidth 32))) = false
    by_cases hmap : x >>> 32 = 0xffff
    · rw [Addr.unmap, if_pos hmap] at hclass
      rw [internal6_of_mapped hmap, hclass.internal4_eq_false, Bool.and_false]
      rfl
    · rw [Addr.unmap, if_neg hmap] at hclass
      rw [hclass.internal6_eq_false hzone, decide_eq_false hmap]
      rfl

theorem zoneHides_unmap (h : a.zoneHides = false) : a.unmap.zoneHides = false := by
  cases a with
  | zero | v4 x => rfl
  | v6 x zone =>
    by_cases hmap : x >>> 32 = 0xffff
    · rw [Addr.unmap, if_pos hmap]
      rfl
    · rw [Addr.unmap, if_neg hmap]
      exact h

theorem zoneHides_addrFromSlice {bytes} (h : addrFromSlice bytes = some a) : a.zoneHides = false := by
  unfold addrFromSlice at h
  split at h
  · cases h
    rfl
  · cases h
    rfl
  · cases h

-- a zone can come from a literal only
theorem zoneHides_of_resolveHost {host ips} (h : resolveHost lib answer host = .ok ips)
    (hhost : (lib.parseAddr host).any Addr.zoneHides = false) : ∀ a ∈ ips, a.zoneHides = false := by
  unfold resolveHost at h
  intro a ha
  split at h
  · rename_i ip hip
    cases h
    rw [hip] at hhost
    rw [List.mem_singleton.mp ha]
    exact zoneHides_unmap hhost
  · obtain ⟨slices, _, hips⟩ := map_eq_ok.mp h
    rw [← hips] at ha
    obtain ⟨bytes, _, hbytes⟩ := List.mem_filterMap.mp ha
    obtain ⟨b, hb, rfl⟩ := Option.map_eq_some_iff.mp hbytes
    exact zoneHides_unmap (zoneHides_addrFromSlice hb)

theorem validate_eq_ok (h : validate lib p answer rawURL = .ok target) : lib.parseURL rawURL = some target.url ∧
      resolveHost lib answer target.url.hostname = .ok target.ips ∧
      ∀ a ∈ target.ips, isDisallowedWebhookAddr a = false := by
  unfold validate at h
  split at h
  · cases h
  rename_i u hu
  have hurl := (ite_error_eq_ok.mp h).2
  unfold validateURL at hurl
  obtain ⟨_, _, hurl⟩ := bind_eq_ok.mp hurl
  have hhost := (ite_error_eq_ok.mp (ite_error_eq_ok.mp hurl).2).2
  obtain ⟨addrs, haddrs, hrest⟩ := bind_eq_ok.mp hhost
  obtain ⟨_, hcheck, htgt⟩ := bind_eq_ok.mp hrest
  cases htgt
  refine ⟨hu, mapError_eq_ok.mp haddrs, ?_⟩
  have hfind := (ite_error_eq_ok.mp hcheck).2
  split at hfind
  · cases hfind
  · rename_i hnone
    intro a ha
    simpa using List.find?_eq_none.mp hnone a ha

theorem not_internal_of_validate (h : validate lib p answer rawURL = .ok target)
    (hzone : hiddenByZone lib rawURL = false) : ∀ a ∈ target.ips, a.internal = false := by
  obtain ⟨hurl, hips, hok⟩ := validate_eq_ok h
  unfold hiddenByZone at hzone
  rw [hurl] at hzone
  intro a ha
  exact internal_eq_false (hok a ha) (zoneHides_of_resolveHost hips hzone a ha)

end Kiban.Notification
