import Kiban.Lib.Keyed
import Kiban.Lib.Runs
import Kiban.Notification.WebhookPolicy

/-!
# Where webhooks go

Any number of `Deliver` calls on one sender.  Each validates its target with a lookup of its own and sends one request
over the transport they share, whose dialer connects only to the addresses in the request's context.  Events say what a
lookup answers, which address accepts, which connection of the right origin is taken from the pool, and what the other
side responds.  A closed connection stays in the list, so the pool may offer more than it has.
-/

namespace Kiban.Notification.Egress

open Runs List Keyed.Table Option

structure Origin where
  (scheme hostname port : String)
  deriving DecidableEq

def originOf (u : Url) : Origin := ⟨u.scheme, u.hostname, dialPort u⟩

structure Conn where
  origin : Origin
  remote : Addr
  port : String
  /-- the delivery whose request had it dialed -/
  opener : Nat

inductive Stage where
  | validating
  | rejected
  /-- `post`, with the target in the context of its request; `active` until `client.Do` returns -/
  | pinned (target : ResolvedWebhookTarget) (request : Url) (active : Bool)

structure Delivery where
  rawURL : String
  stage : Stage

structure Sender where
  deliveries : Keyed.Table Nat Delivery
  conns : List Conn
  /-- the bodies written, with the delivery they are of -/
  writes : List (Nat × Conn)

def Sender.start : Sender := ⟨.empty, [], []⟩

inductive Event where
  | deliver (id : Nat) (rawURL : String)
  | validate (id : Nat) (answer : Answer)
  /-- the outcome of each attempt, an error or `none` -/
  | dial (id : Nat) (outcomes : List (Option String))
  | write (id : Nat) (conn : Nat)
  | respond (id : Nat) (location : Option Url)
  | giveUp (id : Nat)

/-- The loop over the validated addresses; a timeout ends it early. -/
def pinnedDial (lastErr : String) : List Addr → List (Option String) → Except String Addr
  | ip :: _, none :: _ => .ok ip
  | _ :: ips, some err :: outcomes => pinnedDial err ips outcomes
  | _, _ => .error lastErr

def dialContext (stage : Stage) (outcomes : List (Option String)) : Except String (Addr × String) :=
  match stage with
  | .pinned target _ _ => do
    let ip ← pinnedDial "notification: no validated addresses to dial" target.ips outcomes
    return (ip, target.port)
  | _ => .error "notification: webhook dial without a validated target"

def noWebhookRedirects (_location : Url) : Except String Unit :=
  .error "notification: webhook redirects are not followed"

/-- `client.Do` with a response: a redirect that may be followed is a new request with the same context. -/
def afterResponse (target : ResolvedWebhookTarget) (request : Url) : Option Url → Stage
  | none => .pinned target request false
  | some location =>
    match noWebhookRedirects location with
    | .ok () => .pinned target location true
    | .error _ => .pinned target request false

section Step

variable (lib : Library) (p : WebhookPolicy)

def afterValidate (answer : Answer) (rawURL : String) : Stage :=
  match validate lib p answer rawURL with
  | .ok target => .pinned target target.url true
  | .error _ => .rejected

def Sender.setStage (s : Sender) (id : Nat) (stage : Stage) : Sender :=
  { s with deliveries := s.deliveries.modify id fun d => { d with stage := stage } }

def step (s : Sender) : Event → Option Sender
  | .deliver id rawURL =>
    if (s.deliveries.get? id).isSome then none
    else some { s with deliveries := s.deliveries.insertMissing id ⟨rawURL, .validating⟩ }
  | .validate id answer => do
    let d ← s.deliveries.get? id
    match d.stage with
    | .validating => some (s.setStage id (afterValidate lib p answer d.rawURL))
    | _ => none
  | .dial id outcomes => do
    let d ← s.deliveries.get? id
    match d.stage, dialContext d.stage outcomes with
    | .pinned _ request _, .ok (ip, port) =>
      some { s with conns := ⟨originOf request, ip, port, id⟩ :: s.conns }
    | _, _ => some s
  | .write id i => do
    let d ← s.deliveries.get? id
    let c ← s.conns[i]?
    match d.stage with
    | .pinned _ request true =>
      if c.origin = originOf request then some { s with writes := (id, c) :: s.writes } else none
    | _ => none
  | .respond id location => do
    let d ← s.deliveries.get? id
    match d.stage with
    | .pinned target request true => some (s.setStage id (afterResponse target request location))
    | _ => none
  | .giveUp id => do
    let d ← s.deliveries.get? id
    match d.stage with
    | .pinned target request _ => some (s.setStage id (.pinned target request false))
    | _ => none

/-- No target names an internal address that its zone hides. -/
def Event.plain : Event → Bool
  | .deliver _ rawURL => !hiddenByZone lib rawURL
  | _ => true

end Step

/-! ## What an event does -/

def Delivery.target (d : Delivery) : Option ResolvedWebhookTarget :=
  match d.stage with
  | .pinned target _ _ => some target
  | _ => none

section Effects

variable {lib : Library} {p : WebhookPolicy} {s s' : Sender}

/-- Nothing but `validate` gives a delivery its target, and nothing but `dial` opens a connection. -/
inductive Effect (lib : Library) (p : WebhookPolicy) (s : Sender) : Event → Sender → Prop
  | delivered (id : Nat) (rawURL : String) (hnew : s.deliveries.get? id = none) :
      Effect lib p s (.deliver id rawURL)
        { s with deliveries := s.deliveries.insertMissing id ⟨rawURL, .validating⟩ }
  | validated (id : Nat) (answer : Answer) (d : Delivery) (hd : s.deliveries.get? id = some d)
      (hstage : d.target = none) :
      Effect lib p s (.validate id answer) (s.setStage id (afterValidate lib p answer d.rawURL))
  | dialed (id : Nat) (outcomes : List (Option String)) (d : Delivery) (target : ResolvedWebhookTarget)
      (c : Conn) (hd : s.deliveries.get? id = some d) (htarget : d.target = some target)
      (hopener : c.opener = id) (hremote : c.remote ∈ target.ips) :
      Effect lib p s (.dial id outcomes) { s with conns := c :: s.conns }
  | notDialed (id : Nat) (outcomes : List (Option String)) : Effect lib p s (.dial id outcomes) s
  | written (id i : Nat) (c : Conn) (hc : c ∈ s.conns) :
      Effect lib p s (.write id i) { s with writes := (id, c) :: s.writes }
  | moved (e : Event) (id : Nat) (d : Delivery) (stage : Stage) (hd : s.deliveries.get? id = some d)
      (hkeep : Delivery.target ⟨d.rawURL, stage⟩ = d.target) : Effect lib p s e (s.setStage id stage)

theorem mem_of_pinnedDial {lastErr ips outcomes ip} (h : pinnedDial lastErr ips outcomes = .ok ip) : ip ∈ ips := by
  induction ips generalizing lastErr outcomes with
  | nil => cases h
  | cons first ips ih =>
    cases outcomes with
    | nil => cases h
    | cons outcome outcomes =>
      cases outcome with
      | none =>
        cases h
        exact mem_cons_self
      | some err => exact mem_cons_of_mem _ (ih h)

theorem afterResponse_target (target : ResolvedWebhookTarget) (request : Url)
    (location : Option Url) (rawURL : String) :
    Delivery.target ⟨rawURL, afterResponse target request location⟩ = some target := by
  cases location with
  | none | some location => rfl

theorem effect_of_step {e} (h : step lib p s e = some s') : Effect lib p s e s' := by
  cases e with
  | deliver id rawURL =>
    obtain ⟨hnew, hs'⟩ := ite_none_left_eq_some.mp h
    cases hs'
    exact .delivered id rawURL (by simpa using hnew)
  | validate id answer =>
    obtain ⟨d, hd, h⟩ := bind_eq_some_iff.mp h
    split at h
    · rename_i hstage
      cases h
      exact .validated id answer d hd (by rw [Delivery.target, hstage])
    · cases h
  | dial id outcomes =>
    obtain ⟨d, hd, h⟩ := bind_eq_some_iff.mp h
    split at h
    · rename_i target request active ip port hstage hdial
      cases h
      rw [hstage] at hdial
      obtain ⟨_, hip, hpair⟩ := Fallible.bind_eq_ok.mp hdial
      cases hpair
      exact .dialed id outcomes d target _ hd (by rw [Delivery.target, hstage]) rfl (mem_of_pinnedDial hip)
    · cases h
      exact .notDialed id outcomes
  | write id i =>
    obtain ⟨d, hd, h⟩ := bind_eq_some_iff.mp h
    obtain ⟨c, hc, h⟩ := bind_eq_some_iff.mp h
    split at h
    · obtain ⟨_, hs'⟩ := ite_none_right_eq_some.mp h
      cases hs'
      exact .written id i c (mem_of_getElem? hc)
    · cases h
  | respond id location =>
    obtain ⟨d, hd, h⟩ := bind_eq_some_iff.mp h
    split at h
    · rename_i target request hstage
      cases h
      refine .moved _ id d _ hd ?_
      rw [afterResponse_target, Delivery.target, hstage]
    · cases h
  | giveUp id =>
    obtain ⟨d, hd, h⟩ := bind_eq_some_iff.mp h
    split at h
    · rename_i target request active hstage
      cases h
      exact .moved _ id d _ hd (by rw [Delivery.target, Delivery.target, hstage])
    · cases h

theorem get?_setStage {id d} (hd : s.deliveries.get? id = some d) (stage : Stage) (k : Nat) :
    (s.setStage id stage).deliveries.get? k =
      if k = id then some ⟨d.rawURL, stage⟩ else s.deliveries.get? k :=
  get?_modify_of_some hd _ k

end Effects

/-! ## Every run -/

structure Guarded (lib : Library) (p : WebhookPolicy) (s : Sender) : Prop where
  pinned : ∀ id d target, s.deliveries.get? id = some d → d.target = some target →
    ∃ answer, validate lib p answer d.rawURL = .ok target
  conns : ∀ c ∈ s.conns, ∃ d target, s.deliveries.get? c.opener = some d ∧ d.target = some target ∧
    c.remote ∈ target.ips
  writes : ∀ w ∈ s.writes, w.2 ∈ s.conns

section Invariant

variable {lib : Library} {p : WebhookPolicy} {s s' : Sender}

theorem start_guarded : Guarded lib p .start where
  pinned := fun _ _ _ hd => nomatch hd
  conns := forall_mem_nil _
  writes := forall_mem_nil _

-- a target that was there stays, and a new one was validated
theorem Guarded.setStage {id d stage} (hs : Guarded lib p s) (hd : s.deliveries.get? id = some d)
    (hkeep : ∀ target, d.target = some target → Delivery.target ⟨d.rawURL, stage⟩ = some target)
    (hvalid : ∀ target, Delivery.target ⟨d.rawURL, stage⟩ = some target →
      ∃ answer, validate lib p answer d.rawURL = .ok target) :
    Guarded lib p (s.setStage id stage) where
  pinned := by
    intro k d' target hd' htgt
    rw [get?_setStage hd] at hd'
    split at hd'
    · cases hd'
      exact hvalid target htgt
    · exact hs.pinned k d' target hd' htgt
  conns := by
    intro c hc
    obtain ⟨d', target, hd', htgt, hrem⟩ := hs.conns c hc
    by_cases hk : c.opener = id
    · rw [hk, hd] at hd'
      cases hd'
      exact ⟨_, target, (get?_setStage hd stage c.opener).trans (if_pos hk), hkeep target htgt, hrem⟩
    · exact ⟨d', target, (get?_setStage hd stage c.opener).trans (if_neg hk ▸ hd'), htgt, hrem⟩
  writes := hs.writes

theorem afterValidate_target {answer rawURL target}
    (h : Delivery.target ⟨rawURL, afterValidate lib p answer rawURL⟩ = some target) :
    validate lib p answer rawURL = .ok target := by
  unfold afterValidate at h
  split at h
  · rename_i target' hvalid
    cases h
    exact hvalid
  · cases h

theorem Guarded.effect {e} (hs : Guarded lib p s) (h : Effect lib p s e s') : Guarded lib p s' := by
  cases h with
  | delivered id rawURL hnew =>
    have hget := get?_insertMissing_of_none hnew (⟨rawURL, .validating⟩ : Delivery)
    refine ⟨fun k d target hd htgt => ?_, fun c hc => ?_, hs.writes⟩
    · rw [hget] at hd
      split at hd
      · cases hd
        cases htgt
      · exact hs.pinned k d target hd htgt
    · obtain ⟨d, target, hd, hrest⟩ := hs.conns c hc
      have hk : c.opener ≠ id := by
        intro hk
        rw [hk, hnew] at hd
        cases hd
      exact ⟨d, target, (hget c.opener).trans (if_neg hk ▸ hd), hrest⟩
  | validated id answer d hd hstage =>
    refine hs.setStage hd (fun target htgt => ?_) fun target htgt => ?_
    · rw [hstage] at htgt
      cases htgt
    · exact ⟨answer, afterValidate_target htgt⟩
  | dialed id outcomes d target c hd htgt hopen hrem =>
    refine ⟨hs.pinned, ?_, fun w hw => mem_cons_of_mem _ (hs.writes w hw)⟩
    rw [forall_mem_cons]
    exact ⟨⟨d, target, hopen ▸ hd, htgt, hrem⟩, hs.conns⟩
  | notDialed => exact hs
  | written id i c hc =>
    refine ⟨hs.pinned, hs.conns, ?_⟩
    rw [forall_mem_cons]
    exact ⟨hc, hs.writes⟩
  | moved _ id d stage hd hkeep =>
    refine hs.setStage hd (fun target htgt => hkeep.trans htgt) fun target htgt => ?_
    exact hs.pinned id d target hd (hkeep ▸ htgt)

def Unhidden (lib : Library) (s : Sender) : Prop :=
  ∀ id d, s.deliveries.get? id = some d → hiddenByZone lib d.rawURL = false

theorem Unhidden.setStage {id d} (hs : Unhidden lib s) (hd : s.deliveries.get? id = some d)
    (stage : Stage) : Unhidden lib (s.setStage id stage) := by
  intro k d' hd'
  rw [get?_setStage hd] at hd'
  split at hd'
  · cases hd'
    exact hs id d hd
  · exact hs k d' hd'

theorem Unhidden.effect {e} (hs : Unhidden lib s) (hplain : e.plain lib = true)
    (h : Effect lib p s e s') : Unhidden lib s' := by
  cases h with
  | delivered id rawURL hnew =>
    intro k d hd
    rw [get?_insertMissing_of_none hnew] at hd
    split at hd
    · cases hd
      exact Bool.not_eq_true' _ ▸ hplain
    · exact hs k d hd
  | validated id answer d hd => exact hs.setStage hd _
  | dialed | notDialed | written => exact hs
  | moved _ id d stage hd => exact hs.setStage hd stage

end Invariant

/-- Every connection goes to an address that the delivery which had it dialed found allowed, and no body
goes to an internal address. -/
theorem egress_guarded {lib : Library} {p : WebhookPolicy} {s : Sender}
    (hreach : Reach (step lib p) (fun _ e => e.plain lib = true) Sender.start s) :
    (∀ c ∈ s.conns, ∃ d answer target, s.deliveries.get? c.opener = some d ∧ d.target = some target ∧
      validate lib p answer d.rawURL = .ok target ∧ c.remote ∈ target.ips ∧
      isDisallowedWebhookAddr c.remote = false) ∧
    ∀ w ∈ s.writes, w.2 ∈ s.conns ∧ w.2.remote.internal = false := by
  have hgua : Guarded lib p s :=
    hreach.invariant start_guarded fun _ _ _ hs _ hstep => hs.effect (effect_of_step hstep)
  have hunh : Unhidden lib s :=
    hreach.invariant (fun _ _ hd => nomatch hd) fun _ _ _ hs hplain hstep =>
      hs.effect hplain (effect_of_step hstep)
  have hopen : ∀ c ∈ s.conns, ∃ d answer target, s.deliveries.get? c.opener = some d ∧ d.target = some target ∧
      validate lib p answer d.rawURL = .ok target ∧ c.remote ∈ target.ips := by
    intro c hc
    obtain ⟨d, target, hd, htgt, hrem⟩ := hgua.conns c hc
    obtain ⟨answer, hvalid⟩ := hgua.pinned c.opener d target hd htgt
    exact ⟨d, answer, target, hd, htgt, hvalid, hrem⟩
  constructor
  · intro c hc
    obtain ⟨d, answer, target, hd, htgt, hvalid, hrem⟩ := hopen c hc
    exact ⟨d, answer, target, hd, htgt, hvalid, hrem, (validate_eq_ok hvalid).2.2 c.remote hrem⟩
  · intro w hw
    have hc := hgua.writes w hw
    obtain ⟨d, answer, target, hd, _, hvalid, hrem⟩ := hopen w.2 hc
    exact ⟨hc, not_internal_of_validate hvalid (hunh w.2.opener d hd) w.2.remote hrem⟩

/-! ## Targets -/

def hookURL : String := "https://hooks.example.com/in"

def siteLocalURL : String := "http://[fec0::1%25eth0]:8080/in"

def unspecifiedURL : String := "http://[::%25lo]:8080/in"

/-- What `net/url` and `netip` make of these targets. -/
def goLibrary : Library where
  parseURL := fun rawURL =>
    if rawURL = hookURL then some ⟨"https", "hooks.example.com", "hooks.example.com", ""⟩
    else if rawURL = siteLocalURL then some ⟨"http", "[fec0::1%eth0]:8080", "fec0::1%eth0", "8080"⟩
    else if rawURL = unspecifiedURL then some ⟨"http", "[::%lo]:8080", "::%lo", "8080"⟩
    else none
  parseAddr := fun host =>
    if host = "fec0::1%eth0" then some (.v6 (group 0xfec0 + 1) "eth0")
    else if host = "::%lo" then some (.v6 0 "lo")
    else none
  addrString := fun
    | .v6 _ zone => "::%" ++ zone
    | _ => ""
  toLower := id

-- the second delivery finds another address and reuses the connection of the first
def sharedConnection : List Event := [
  .deliver 1 hookURL, .validate 1 (.ok [[93, 184, 216, 34]]), .dial 1 [none], .write 1 0,
  .respond 1 none, .deliver 2 hookURL, .validate 2 (.ok [[93, 184, 216, 35]]), .write 2 0]

theorem egress_guarded_sharedConnection :
    ∃ s, sharedConnection.foldlM (step goLibrary ⟨false, []⟩) Sender.start = some s ∧ s.writes.length = 2 ∧
      (∀ c ∈ s.conns, ∃ d answer target, s.deliveries.get? c.opener = some d ∧ d.target = some target ∧
        validate goLibrary ⟨false, []⟩ answer d.rawURL = .ok target ∧ c.remote ∈ target.ips ∧
        isDisallowedWebhookAddr c.remote = false) ∧
      ∀ w ∈ s.writes, w.2 ∈ s.conns ∧ w.2.remote.internal = false := by
  have hrun : (sharedConnection.foldlM (step goLibrary ⟨false, []⟩) Sender.start).map
      (fun s => s.writes.length) = some 2 := by decide +kernel
  have hplain : ∀ e ∈ sharedConnection, e.plain goLibrary = true := by decide +kernel
  obtain ⟨s, hs, hlen⟩ := map_eq_some_iff.mp hrun
  exact ⟨s, hs, hlen, egress_guarded (reach_of_foldlM sharedConnection hs fun e he _ => hplain e he)⟩

def zonedTargets : List Event := [.deliver 1 siteLocalURL, .validate 1 (.ok []), .dial 1 [none], .write 1 0,
  .deliver 2 unspecifiedURL, .validate 2 (.ok []), .dial 2 [none], .write 2 0]

/-- With a zone, a site-local address and the unspecified one are let through, and each gets a body. -/
theorem zonedTargets_internal : ∃ s, zonedTargets.foldlM (step goLibrary ⟨true, []⟩) Sender.start = some s ∧
      s.writes.map (fun w => w.2.remote) = [.v6 0 "lo", .v6 (group 0xfec0 + 1) "eth0"] ∧
      ∀ w ∈ s.writes, w.2.remote.internal = true := by
  have hrun : (zonedTargets.foldlM (step goLibrary ⟨true, []⟩) Sender.start).map
      (fun s => s.writes.map fun w => w.2.remote) = some [.v6 0 "lo", .v6 (group 0xfec0 + 1) "eth0"] := by
    decide +kernel
  obtain ⟨s, hs, hws⟩ := map_eq_some_iff.mp hrun
  refine ⟨s, hs, hws, fun w hw => ?_⟩
  have hrem : w.2.remote ∈ [Addr.v6 0 "lo", Addr.v6 (group 0xfec0 + 1) "eth0"] :=
    hws ▸ mem_map_of_mem hw
  have hint : ∀ a ∈ [Addr.v6 0 "lo", Addr.v6 (group 0xfec0 + 1) "eth0"], a.internal = true := by
    decide +kernel
  exact hint _ hrem

end Kiban.Notification.Egress
