import Kiban.Lib.Keyed
import Kiban.Lib.Runs
import Mathlib.Logic.Function.Basic

/-!
# The catalog cache of the gateway

`CatalogClient.Get` serves the module catalog from a snapshot.  Calls that find it too old share one refresh: the first
fetches, the others wait and look again.  The steps are those that hold the client's lock, the end of a fetch, and the
passing of time, in any order.
-/

namespace Kiban.Gateway.Catalog

open List Function

/-! ## One fetch -/

/-- Times and durations are in nanoseconds. -/
def second : Nat := 1000000000

def catalogCacheTTL : Nat := 5 * second

def defaultCatalogMaxStale : Nat := 60 * second

structure ModuleEntry where
  (moduleKey basePath healthPath : String)
  port : Int
  (installed enabled : Bool)
  missingDependencies : List String
  external : Bool
  serviceClientID : String

structure Snapshot where
  fetchedAt : Nat
  byKey : Keyed.Table String ModuleEntry

structure CatalogRow where
  (moduleKey basePath healthPath : String)
  port : Int
  (installed enabled external : Bool)
  serviceClientID : String

structure CapabilityRow where
  module : String
  missingDependencies : List String

inductive CatalogError where
  | fetchCatalog (cause : String)
  | fetchCapabilities (cause : String)
  | stale (age maxStale : Nat) (lastErr : CatalogError)

def missingByKey (capRows : List CapabilityRow) : Keyed.Table String (List String) :=
  capRows.foldl (fun missing r => missing.upsert r.module r.missingDependencies) .empty

def CatalogRow.entry (r : CatalogRow) (missing : Keyed.Table String (List String)) : ModuleEntry where
  moduleKey := r.moduleKey
  basePath := r.basePath
  healthPath := r.healthPath
  port := r.port
  installed := r.installed
  enabled := r.enabled
  missingDependencies := (missing.get? r.moduleKey).getD []
  external := r.external
  serviceClientID := r.serviceClientID

/-- The two reads of a refresh, and the time of its end. -/
def fetch (now : Nat) (catalogRows : Except String (List CatalogRow))
    (capRows : Except String (List CapabilityRow)) : Except CatalogError Snapshot :=
  match catalogRows with
  | .error cause => .error (.fetchCatalog cause)
  | .ok catalogRows =>
    match capRows with
    | .error cause => .error (.fetchCapabilities cause)
    | .ok capRows =>
      let missing := missingByKey capRows
      .ok ⟨now, catalogRows.foldl (fun byKey r => byKey.upsert r.moduleKey (r.entry missing)) .empty⟩

/-! ## The client -/

abbrev CallId := Nat

/-- The channel of a refresh goes by the call that made it. -/
structure CatalogClient where
  snapshot : Option Snapshot
  inflight : Option CallId
  lastErr : Option CatalogError

/-- What `Get` returns; the zero snapshot is `none`. -/
abbrev Answer := Option Snapshot × Option CatalogError

/-- The bound in force; a client whose `MaxStale` is not positive has the default. -/
def staleBound (maxStale : Int) : Nat := if maxStale ≤ 0 then defaultCatalogMaxStale else maxStale.toNat

def Snapshot.age (now : Nat) (snap : Snapshot) : Nat := now - snap.fetchedAt

def CatalogClient.resultLocked (maxStale : Int) (now : Nat) (c : CatalogClient) : Answer :=
  match c.snapshot with
  | none => (none, c.lastErr)
  | some snap =>
    match c.lastErr with
    | none => (some snap, none)
    | some err =>
      if snap.age now < staleBound maxStale then (some snap, none)
      else (none, some (.stale (snap.age now) (staleBound maxStale) err))

inductive Phase where
  | idle
  | waiting (done : CallId)
  | fetching
  | fetched (outcome : Except CatalogError Snapshot)
  | returned (answer : Answer)

/-- The call has a fetch of its own that is not stored yet. -/
def Phase.flying : Phase → Bool
  | .fetching => true
  | .fetched _ => true
  | _ => false

structure State where
  now : Nat
  client : CatalogClient
  phase : CallId → Phase

def State.start : State := ⟨0, ⟨none, none, none⟩, fun _ => .idle⟩

inductive Event where
  | tick (d : Nat)
  /-- the call takes the lock for the first time -/
  | look (i : CallId)
  | fetchEnds (i : CallId) (catalogRows : Except String (List CatalogRow)) (capRows : Except String (List CapabilityRow))
  /-- the call takes the lock after its own fetch -/
  | finish (i : CallId)
  /-- the call takes the lock after the channel it waits on is closed -/
  | resume (i : CallId)

namespace State

def set (s : State) (i : CallId) (p : Phase) : CallId → Phase := Function.update s.phase i p

def freshSnapshot (s : State) : Option Snapshot := s.client.snapshot.filter fun snap => snap.age s.now < catalogCacheTTL

def look (s : State) (i : CallId) : State :=
  match s.freshSnapshot with
  | some snap => { s with phase := s.set i (.returned (some snap, none)) }
  | none =>
    match s.client.inflight with
    | some done => { s with phase := s.set i (.waiting done) }
    | none => { s with client := { s.client with inflight := some i }, phase := s.set i .fetching }

def stored (c : CatalogClient) : Except CatalogError Snapshot → CatalogClient
  | .ok snap => { c with snapshot := some snap, lastErr := none }
  | .error err => { c with lastErr := some err }

def finish (maxStale : Int) (s : State) (i : CallId) (outcome : Except CatalogError Snapshot) : State :=
  let c := stored s.client outcome
  { s with
    client := { c with inflight := none }
    phase := s.set i (.returned (c.resultLocked maxStale s.now)) }

def step (maxStale : Int) (s : State) : Event → Option State
  | .tick d => some { s with now := s.now + d }
  | .look i =>
    match s.phase i with
    | .idle => some (s.look i)
    | _ => none
  | .fetchEnds i catalogRows capRows =>
    match s.phase i with
    | .fetching => some { s with phase := s.set i (.fetched (fetch s.now catalogRows capRows)) }
    | _ => none
  | .finish i =>
    match s.phase i with
    | .fetched outcome => some (s.finish maxStale i outcome)
    | _ => none
  | .resume i =>
    match s.phase i with
    | .waiting done =>
      match s.phase done with
      | .returned _ => some { s with phase := s.set i (.returned (s.client.resultLocked maxStale s.now)) }
      | _ => none
    | _ => none

def run (maxStale : Int) (es : List Event) : Option State := es.foldlM (step maxStale) start

/-! ## What a call may return -/

def InFlight (s : State) (i : CallId) : Prop := (s.phase i).flying = true

def Returns (s s' : State) (i : CallId) (answer : Answer) : Prop :=
  (∀ a, s.phase i ≠ .returned a) ∧ s'.phase i = .returned answer

end State

open State

/-- A refresh has brought `snap` since call `i` looked. -/
def StoredSince (maxStale : Int) (es : List Event) (i : CallId) (snap : Snapshot) : Prop :=
  ∃ pre mid j post s, es = pre ++ .look i :: (mid ++ .finish j :: post) ∧
    run maxStale (pre ++ .look i :: mid) = some s ∧ s.phase j = .fetched (.ok snap)

/-- Why call `i` may return `snap` at the last event of `es`. -/
inductive Warranted (maxStale : Int) (es : List Event) (s : State) (i : CallId) (snap : Snapshot) : Prop
  | fresh (hlook : es.getLast? = some (.look i)) (hage : snap.age s.now < catalogCacheTTL)
  | refreshed (h : StoredSince maxStale es i snap)
  | stale (hfailed : s.client.lastErr ≠ none) (hage : snap.age s.now < staleBound maxStale)

/-- What is asked of the last event of `es`, which leads from `s` to `s'`. -/
structure Served (maxStale : Int) (es : List Event) (s s' : State) : Prop where
  one : ∀ i j, s'.InFlight i → s'.InFlight j → i = j
  answer : ∀ i answer, s.Returns s' i answer →
    (∃ snap, answer = (some snap, none) ∧ snap.fetchedAt ≤ s'.now ∧ Warranted maxStale es s' i snap) ∨
      ∃ err, answer = (none, some err)
  bounded : ∀ i snap err, s.Returns s' i (some snap, err) →
    StoredSince maxStale es i snap ∨ snap.age s'.now < max catalogCacheTTL (staleBound maxStale)

/-! ## The steps -/

inductive Happens (maxStale : Int) (s : State) : Event → State → Prop
  | ticked (d : Nat) : Happens maxStale s (.tick d) { s with now := s.now + d }
  | served {i : CallId} {snap : Snapshot} (hidle : s.phase i = .idle) (hfresh : s.freshSnapshot = some snap) :
      Happens maxStale s (.look i) { s with phase := s.set i (.returned (some snap, none)) }
  | joined {i done : CallId} (hidle : s.phase i = .idle) (hin : s.client.inflight = some done) :
      Happens maxStale s (.look i) { s with phase := s.set i (.waiting done) }
  | began {i : CallId} (hidle : s.phase i = .idle) (hin : s.client.inflight = none) :
      Happens maxStale s (.look i)
        { s with client := { s.client with inflight := some i }, phase := s.set i .fetching }
  | ended {i : CallId} {catalogRows : Except String (List CatalogRow)}
      {capRows : Except String (List CapabilityRow)} (hphase : s.phase i = .fetching) :
      Happens maxStale s (.fetchEnds i catalogRows capRows)
        { s with phase := s.set i (.fetched (fetch s.now catalogRows capRows)) }
  | finished {i : CallId} {outcome : Except CatalogError Snapshot} (hphase : s.phase i = .fetched outcome) :
      Happens maxStale s (.finish i) (s.finish maxStale i outcome)
  | resumed {i done : CallId} {answer : Answer} (hphase : s.phase i = .waiting done)
      (hdone : s.phase done = .returned answer) :
      Happens maxStale s (.resume i) { s with phase := s.set i (.returned (s.client.resultLocked maxStale s.now)) }

variable {maxStale : Int} {s s' : State} {e : Event} {es : List Event} {i j : CallId} {snap : Snapshot} {p q : Phase}

theorem happens_of_step (h : s.step maxStale e = some s') : Happens maxStale s e s' := by
  cases e with
  | tick d =>
    cases h
    exact .ticked d
  | look i =>
    simp only [step] at h
    split at h
    · cases h
      unfold State.look
      split
      · exact .served ‹_› ‹_›
      · split
        · exact .joined ‹_› ‹_›
        · exact .began ‹_› ‹_›
    · cases h
  | fetchEnds i catalogRows capRows =>
    simp only [step] at h
    split at h
    · cases h
      exact .ended ‹_›
    · cases h
  | finish i =>
    simp only [step] at h
    split at h
    · cases h
      exact .finished ‹_›
    · cases h
  | resume i =>
    simp only [step] at h
    split at h
    · split at h
      · cases h
        exact .resumed ‹_› ‹_›
      · cases h
    · cases h

theorem set_cases (h : s.set i p j = q) : (j = i ∧ p = q) ∨ (j ≠ i ∧ s.phase j = q) := by
  unfold State.set at h
  by_cases hj : j = i
  · subst hj
    rw [update_self] at h
    exact .inl ⟨rfl, h⟩
  · rw [update_of_ne hj] at h
    exact .inr ⟨hj, h⟩

theorem set_self : s.set i p i = p := update_self _ _ _

theorem set_of_ne (h : j ≠ i) : s.set i p j = s.phase j := update_of_ne h _ _

theorem fetchedAt_of_fetch {now catalogRows capRows} (h : fetch now catalogRows capRows = .ok snap) :
    snap.fetchedAt = now := by
  unfold fetch at h
  split at h
  · cases h
  · split at h
    · cases h
    · cases h
      rfl

theorem StoredSince.append (h : StoredSince maxStale es i snap) (e : Event) :
    StoredSince maxStale (es ++ [e]) i snap := by
  obtain ⟨pre, mid, j, post, s, rfl, hrun, hphase⟩ := h
  exact ⟨pre, mid, j, post ++ [e], s, by simp, hrun, hphase⟩

/-- A refresh that ends well brings its snapshot to every call that has looked. -/
theorem storedSince_finish (hrun : run maxStale es = some s) (hlook : Event.look i ∈ es)
    (hphase : s.phase j = .fetched (.ok snap)) : StoredSince maxStale (es ++ [.finish j]) i snap := by
  obtain ⟨pre, mid, rfl⟩ := append_of_mem hlook
  exact ⟨pre, mid, j, [], s, by simp, hrun, hphase⟩

/-! ## The invariant -/

structure Inv (maxStale : Int) (es : List Event) (s : State) : Prop where
  looked : ∀ i, s.phase i ≠ .idle → Event.look i ∈ es
  flight : ∀ i, s.client.inflight = some i ↔ s.InFlight i
  /-- a call that waits will find a failure, or a snapshot that was stored since it looked -/
  waits : ∀ i done, s.phase i = .waiting done → s.client.inflight = some done ∨ s.client.lastErr ≠ none ∨
      ∃ snap, s.client.snapshot = some snap ∧ StoredSince maxStale es i snap
  kept : ∀ snap, s.client.snapshot = some snap → snap.fetchedAt ≤ s.now
  brought : ∀ i snap, s.phase i = .fetched (.ok snap) → snap.fetchedAt ≤ s.now

theorem inv_start : Inv maxStale [] State.start where
  looked _ h := absurd rfl h
  flight _ := ⟨nofun, nofun⟩
  waits _ _ h := nomatch h
  kept _ h := nomatch h
  brought _ _ h := nomatch h

/-- One call goes on, and the client stays as it is. -/
theorem Inv.set (h : Inv maxStale es s) (hlook : Event.look i ∈ es ++ [e]) (hfli : p.flying = (s.phase i).flying)
    (hwaits : ∀ done, p = .waiting done → s.client.inflight = some done)
    (hbro : ∀ snap, p = .fetched (.ok snap) → snap.fetchedAt ≤ s.now) :
    Inv maxStale (es ++ [e]) { s with phase := s.set i p } where
  looked k hk := by
    by_cases hki : k = i
    · rw [hki]
      exact hlook
    · exact mem_append_left _ (h.looked k fun hidle => hk ((set_of_ne hki).trans hidle))
  flight k := by
    rw [h.flight k]
    by_cases hki : k = i
    · subst hki
      show (s.phase k).flying = true ↔ (s.set k p k).flying = true
      rw [set_self, hfli]
    · show (s.phase k).flying = true ↔ (s.set i p k).flying = true
      rw [set_of_ne hki]
  waits k done hk := by
    rcases set_cases hk with ⟨_, hp⟩ | ⟨_, hold⟩
    · exact .inl (hwaits done hp)
    · rcases h.waits k done hold with hin | hfail | ⟨snap, hsnap, hsto⟩
      · exact .inl hin
      · exact .inr (.inl hfail)
      · exact .inr (.inr ⟨snap, hsnap, hsto.append e⟩)
  kept := h.kept
  brought k snap hk := by
    rcases set_cases hk with ⟨_, hp⟩ | ⟨_, hold⟩
    · exact hbro snap hp
    · exact h.brought k snap hold

theorem Inv.tick (h : Inv maxStale es s) (d : Nat) :
    Inv maxStale (es ++ [.tick d]) { s with now := s.now + d } where
  looked k hk := mem_append_left _ (h.looked k hk)
  flight := h.flight
  waits k done hk := by
    rcases h.waits k done hk with hin | hfail | ⟨snap, hsnap, hsto⟩
    · exact .inl hin
    · exact .inr (.inl hfail)
    · exact .inr (.inr ⟨snap, hsnap, hsto.append _⟩)
  kept snap hsnap := Nat.le_trans (h.kept snap hsnap) (Nat.le_add_right _ _)
  brought k snap hk := Nat.le_trans (h.brought k snap hk) (Nat.le_add_right _ _)

/-- A refresh begins when none is in flight, so nobody is. -/
theorem Inv.begin (h : Inv maxStale es s) (hin : s.client.inflight = none) : Inv maxStale (es ++ [.look i])
      { s with client := { s.client with inflight := some i }, phase := s.set i .fetching } := by
  have hnone : ∀ k, ¬ s.InFlight k := fun k hk => by cases hin.symm.trans ((h.flight k).mpr hk)
  refine ⟨fun k hk => ?_, fun k => ⟨?_, fun hk => ?_⟩, fun k done hk => ?_, h.kept, fun k snap hk => ?_⟩
  · by_cases hki : k = i
    · rw [hki]
      exact mem_append_right _ mem_cons_self
    · exact mem_append_left _ (h.looked k fun hidle => hk ((set_of_ne hki).trans hidle))
  · rintro ⟨⟩
    show (s.set i .fetching i).flying = true
    rw [set_self]
    rfl
  · by_cases hki : k = i
    · rw [hki]
    have hk' : s.InFlight k := by
      show (s.phase k).flying = true
      rw [← set_of_ne hki]
      exact hk
    exact absurd hk' (hnone k)
  · rcases set_cases hk with ⟨_, hp⟩ | ⟨_, hold⟩
    · cases hp
    · rcases h.waits k done hold with hold | hfail | ⟨snap, hsnap, hsto⟩
      · cases hin.symm.trans hold
      · exact .inr (.inl hfail)
      · exact .inr (.inr ⟨snap, hsnap, hsto.append _⟩)
  · rcases set_cases hk with ⟨_, hp⟩ | ⟨_, hold⟩
    · cases hp
    · exact h.brought k snap hold

theorem Inv.finish {outcome} (hrun : run maxStale es = some s) (h : Inv maxStale es s)
    (hphase : s.phase i = .fetched outcome) :
    Inv maxStale (es ++ [.finish i]) (s.finish maxStale i outcome) := by
  have hlast : s.client.inflight = some i := (h.flight i).mpr (by rw [InFlight, hphase]; rfl)
  have hoth : ∀ k, k ≠ i → ¬ s.InFlight k := by
    intro k hki hk
    exact hki (Option.some.inj (((h.flight k).mpr hk).symm.trans hlast))
  refine ⟨fun k hk => ?_, fun k => ⟨nofun, fun hk => ?_⟩, fun k done hk => .inr ?_, fun snap hsnap => ?_,
    fun k snap hk => ?_⟩
  · by_cases hki : k = i
    · rw [hki]
      exact mem_append_left _ (h.looked i (by rw [hphase]; exact nofun))
    · exact mem_append_left _ (h.looked k fun hidle => hk ((set_of_ne hki).trans hidle))
  · by_cases hki : k = i
    · have hk' : (s.set i (.returned ((stored s.client outcome).resultLocked maxStale s.now)) k).flying = true := hk
      rw [hki, set_self] at hk'
      cases hk'
    have hk' : s.InFlight k := by
      show (s.phase k).flying = true
      rw [← set_of_ne hki]
      exact hk
    exact absurd hk' (hoth k hki)
  · rcases set_cases hk with ⟨_, hp⟩ | ⟨_, hold⟩
    · cases hp
    cases outcome with
    | ok snap =>
      have hlook := h.looked k (by rw [hold]; exact nofun)
      exact .inr ⟨snap, rfl, storedSince_finish hrun hlook hphase⟩
    | error err => exact .inl nofun
  · cases outcome with
    | ok snap' =>
      cases hsnap
      exact h.brought i _ hphase
    | error err => exact h.kept snap hsnap
  · rcases set_cases hk with ⟨_, hp⟩ | ⟨_, hold⟩
    · cases hp
    · exact h.brought k snap hold

theorem Inv.step (hrun : run maxStale es = some s) (h : Inv maxStale es s)
    (hs : Happens maxStale s e s') : Inv maxStale (es ++ [e]) s' := by
  have hlooks : ∀ {k}, s.phase k ≠ .idle → Event.look k ∈ es ++ [e] :=
    fun hk => mem_append_left _ (h.looked _ hk)
  cases hs with
  | ticked d => exact h.tick d
  | served hidle _ => exact h.set (by simp) (by rw [hidle]; rfl) nofun nofun
  | joined hidle hin =>
    refine h.set (by simp) (by rw [hidle]; rfl) ?_ nofun
    rintro _ ⟨⟩
    exact hin
  | began hidle hin => exact h.begin hin
  | ended hphase =>
    refine h.set (hlooks (by rw [hphase]; exact nofun)) (by rw [hphase]; rfl) nofun fun snap hsnap => ?_
    exact Nat.le_of_eq (fetchedAt_of_fetch (Phase.fetched.inj hsnap))
  | finished hphase => exact h.finish hrun hphase
  | resumed hphase _ => exact h.set (hlooks (by rw [hphase]; exact nofun)) (by rw [hphase]; rfl) nofun nofun

theorem inv_of_run (hrun : run maxStale es = some s) : Inv maxStale es s :=
  Runs.foldlM_history es hrun inv_start fun _ _ _ _ hpre h hstep => h.step hpre (happens_of_step hstep)

/-! ## The answers -/

/-- A call that comes back to the client after a refresh finds a failure, or a snapshot stored since it looked. -/
theorem warranted_resultLocked {c : CatalogClient} (hs' : s'.client.lastErr = c.lastErr)
    (hkept : ∀ snap, c.snapshot = some snap → snap.fetchedAt ≤ s'.now)
    (hback : c.lastErr ≠ none ∨ ∃ snap, c.snapshot = some snap ∧ StoredSince maxStale es i snap) :
    (∃ snap, c.resultLocked maxStale s'.now = (some snap, none) ∧ snap.fetchedAt ≤ s'.now ∧
        Warranted maxStale es s' i snap) ∨
      ∃ err, c.resultLocked maxStale s'.now = (none, some err) := by
  unfold CatalogClient.resultLocked
  cases hsnap : c.snapshot with
  | none =>
    rcases hback with hfail | ⟨snap, hsnap', _⟩
    · obtain ⟨err, herr⟩ := Option.ne_none_iff_exists'.mp hfail
      exact .inr ⟨err, by rw [herr]⟩
    · cases hsnap.symm.trans hsnap'
  | some snap =>
    cases herr : c.lastErr with
    | none =>
      rcases hback with hfail | ⟨snap', hsnap', hsto⟩
      · exact absurd herr hfail
      · cases hsnap.symm.trans hsnap'
        exact .inl ⟨snap, rfl, hkept snap hsnap, .refreshed hsto⟩
    | some err =>
      dsimp only
      split
      · refine .inl ⟨snap, rfl, hkept snap hsnap, .stale ?_ ‹_›⟩
        rw [hs', herr]
        exact nofun
      · exact .inr ⟨_, rfl⟩

theorem Inv.answer (hrun : run maxStale es = some s) (h : Inv maxStale es s) (hs : Happens maxStale s e s')
    {answer : Answer} (hi : s.Returns s' i answer) :
    (∃ snap, answer = (some snap, none) ∧ snap.fetchedAt ≤ s'.now ∧ Warranted maxStale (es ++ [e]) s' i snap) ∨
      ∃ err, answer = (none, some err) := by
  obtain ⟨hbef, hafter⟩ := hi
  have hinv := h.step hrun hs
  cases hs with
  | ticked d => exact absurd hafter (hbef answer)
  | @served k snap _ hfresh =>
    obtain ⟨rfl, hp⟩ := (set_cases hafter).resolve_right fun hold => hbef answer hold.2
    cases hp
    obtain ⟨hsnap, hage⟩ := Option.filter_eq_some_iff.mp hfresh
    exact .inl ⟨snap, rfl, h.kept snap hsnap, .fresh (getLast?_concat) (of_decide_eq_true hage)⟩
  | joined | began | ended =>
    obtain ⟨_, hp⟩ := (set_cases hafter).resolve_right fun hold => hbef answer hold.2
    cases hp
  | @finished k outcome hphase =>
    obtain ⟨rfl, hp⟩ := (set_cases hafter).resolve_right fun hold => hbef answer hold.2
    cases hp
    refine warranted_resultLocked rfl hinv.kept ?_
    cases outcome with
    | ok snap =>
      have hlook := h.looked i (by rw [hphase]; exact nofun)
      exact .inr ⟨snap, rfl, storedSince_finish hrun hlook hphase⟩
    | error err => exact .inl nofun
  | @resumed k done _ hphase hdone =>
    obtain ⟨rfl, hp⟩ := (set_cases hafter).resolve_right fun hold => hbef answer hold.2
    cases hp
    refine warranted_resultLocked rfl hinv.kept ?_
    rcases h.waits i done hphase with hin | hfail | ⟨snap, hsnap, hsto⟩
    · -- the call it waits for has returned, so its refresh is not in flight
      have hfly : (s.phase done).flying = true := (h.flight done).mp hin
      rw [hdone] at hfly
      cases hfly
    · exact .inl hfail
    · exact .inr ⟨snap, hsnap, hsto.append _⟩

theorem Warranted.bounded (h : Warranted maxStale es s i snap) :
    StoredSince maxStale es i snap ∨ snap.age s.now < max catalogCacheTTL (staleBound maxStale) := by
  cases h with
  | fresh _ hage => exact .inr (Nat.lt_of_lt_of_le hage (Nat.le_max_left _ _))
  | refreshed h => exact .inl h
  | stale _ hage => exact .inr (Nat.lt_of_lt_of_le hage (Nat.le_max_right _ _))

/-- However the calls interleave, one refresh is in flight at most, and a call gets a snapshot only with a warrant
for it. -/
theorem get_served (hrun : run maxStale es = some s) (hstep : s.step maxStale e = some s') :
    Served maxStale (es ++ [e]) s s' := by
  have h := inv_of_run hrun
  have hs := happens_of_step hstep
  have hinv := h.step hrun hs
  refine ⟨fun i j hi hj => ?_, fun i answer => h.answer hrun hs, fun i snap err hi => ?_⟩
  · have hsame := ((hinv.flight i).mpr hi).symm.trans ((hinv.flight j).mpr hj)
    exact Option.some.inj hsame
  · rcases h.answer hrun hs hi with ⟨snap', hans, _, hwar⟩ | ⟨err', hans⟩
    · cases hans
      exact hwar.bounded
    · cases hans

def firstGet : List Event := [.look 0, .fetchEnds 0 (.ok []) (.ok []), .finish 0, .tick (3 * second)]

theorem get_served_secondGet :
    ∃ s s', run (2 * second) firstGet = some s ∧ s.step (2 * second) (.look 1) = some s' ∧
      Served (2 * second) (firstGet ++ [.look 1]) s s' :=
  ⟨_, _, rfl, rfl, get_served rfl rfl⟩

/-- Where `MaxStale` is below the lifetime of a snapshot, a call can get one that is older than `MaxStale`. -/
theorem olderThanMaxStale_served :
    ∃ s snap, run (2 * second) (firstGet ++ [.look 1]) = some s ∧ s.phase 1 = .returned (some snap, none) ∧
      staleBound (2 * second) = 2 * second ∧ 2 * second < snap.age s.now :=
  ⟨_, _, rfl, rfl, by decide, by decide⟩

end Kiban.Gateway.Catalog
