import Kiban.Lib.Keyed
import Kiban.Lib.Runs

/-!
# The cached state of Keycloak users

`CachedUserState` remembers a definite answer of the inner source for `ttl`.  A call looks the user up under the lock,
asks the inner source where the entry is too old, and stores what it was told.  The lifetime is counted from that
moment; how long ago the inner source read Keycloak by then, nobody knows.
-/

namespace Kiban.Identity.UserState

open Keyed Runs Keyed.Table Option Function

inductive KCState where
  | enabled
  | disabled
  | unknown
deriving DecidableEq

inductive AdminOutcome where
  | tokenFailed
  | requestFailed
  | unexpectedStatus (code : Nat)
  | undecodable
  | noEnabledField
  | answered
deriving DecidableEq

/-- `AdminClient.UserEnabled`; `flag` is what Keycloak has at the moment it answers. -/
def adminUserEnabled (flag : Bool) : AdminOutcome → KCState
  | .tokenFailed | .requestFailed | .unexpectedStatus _ | .undecodable | .noEnabledField => .unknown
  | .answered => if flag then .enabled else .disabled

structure CachedState where
  state : KCState
  expires : Nat
deriving DecidableEq

inductive Phase where
  | entered
  | looked (e : Option CachedState)
  | asking
  | answered (state : KCState)
  | returned (state : KCState)
deriving DecidableEq

structure Call where
  kcSub : String
  start : Nat
  phase : Phase
deriving DecidableEq

structure State where
  now : Nat
  flag : String → Bool
  seen : Keyed.Table String CachedState
  calls : Keyed.Table Nat Call

def State.start (flag : String → Bool) : State := ⟨0, flag, .empty, .empty⟩

inductive Event where
  | tick (elapsed : Nat)
  | setEnabled (kcSub : String) (flag : Bool)
  | call (c : Nat) (kcSub : String)
  | look (c : Nat)
  | check (c : Nat)
  | ask (c : Nat) (outcome : AdminOutcome)
  | store (c : Nat)
deriving DecidableEq

def State.move (s : State) (c : Nat) (next : Call → Option Phase) : Option State :=
  (s.calls.get? c).bind fun call => (next call).map fun phase =>
    { s with calls := s.calls.modify c fun call => { call with phase } }

def State.remember (s : State) (ttl : Nat) (kcSub : String) (state : KCState) : State :=
  if 0 < ttl ∧ state ≠ .unknown then { s with seen := s.seen.upsert kcSub ⟨state, s.now + ttl⟩ } else s

def State.step (ttl : Nat) (s : State) : Event → Option State
  | .tick elapsed => some { s with now := s.now + elapsed }
  | .setEnabled kcSub flag => some { s with flag := Function.update s.flag kcSub flag }
  | .call c kcSub =>
    if (s.calls.get? c).isSome then none
    else some { s with calls := s.calls.insertMissing c ⟨kcSub, s.now, .entered⟩ }
  | .look c =>
    s.move c fun call =>
      match call.phase with
      | .entered => some (if 0 < ttl then .looked (s.seen.get? call.kcSub) else .asking)
      | _ => none
  | .check c =>
    s.move c fun call =>
      match call.phase with
      | .looked (some e) => some (if s.now < e.expires then .returned e.state else .asking)
      | .looked none => some .asking
      | _ => none
  | .ask c outcome =>
    s.move c fun call =>
      match call.phase with
      | .asking => some (.answered (adminUserEnabled (s.flag call.kcSub) outcome))
      | _ => none
  | .store c =>
    (s.calls.get? c).bind fun call =>
      match call.phase with
      | .answered state =>
        (s.remember ttl call.kcSub state).move c fun _ => some (.returned state)
      | _ => none

/-! ## What an event does -/

inductive Advance (ttl : Nat) (s s' : State) (call : Call) (phase : Phase) : Prop
  | look (h : call.phase = .entered) (hnext : phase = .looked (s.seen.get? call.kcSub))
  | hit (e : CachedState) (h : call.phase = .looked (some e)) (hlive : s.now < e.expires)
      (hnext : phase = .returned e.state)
  | miss (hnext : phase = .asking)
  | told (outcome : AdminOutcome)
      (hnext : phase = .answered (adminUserEnabled (s.flag call.kcSub) outcome))
  | stored (state : KCState) (h : call.phase = .answered state) (hnext : phase = .returned state)
      (hseen : 0 < ttl → state ≠ .unknown → s'.seen.get? call.kcSub = some ⟨state, s.now + ttl⟩)

structure Stepped (ttl : Nat) (s : State) (ev : Event) (s' : State) : Prop where
  now : s.now ≤ s'.now
  flag : ∀ kcSub, s'.flag kcSub = s.flag kcSub ∨ ev = .setEnabled kcSub (s'.flag kcSub)
  seen : ∀ kcSub, s'.seen.get? kcSub = s.seen.get? kcSub ∨
    ∃ c call state, s.calls.get? c = some call ∧ call.kcSub = kcSub ∧ call.phase = .answered state ∧
      state ≠ .unknown ∧ s'.seen.get? kcSub = some ⟨state, s.now + ttl⟩
  calls : ∀ c call', s'.calls.get? c = some call' →
    (s.calls.get? c = none ∧ call'.start = s.now ∧ call'.phase = .entered) ∨ s.calls.get? c = some call' ∨
      ∃ call, s.calls.get? c = some call ∧ call.kcSub = call'.kcSub ∧ call.start = call'.start ∧
        Advance ttl s s' call call'.phase
  known : ∀ c, s'.calls.get? c = none → s.calls.get? c = none

section Steps

variable {ttl : Nat} {s s' : State} {c : Nat} {call : Call}

theorem move_eq_some {next} (h : s.move c next = some s') :
    ∃ call phase, s.calls.get? c = some call ∧ next call = some phase ∧
      s' = { s with calls := s.calls.modify c fun call => { call with phase } } := by
  obtain ⟨call, hcall, h⟩ := bind_eq_some_iff.mp h
  obtain ⟨phase, hphase, rfl⟩ := map_eq_some_iff.mp h
  exact ⟨call, phase, hcall, hphase, rfl⟩

theorem get?_modify_phase (hcall : s.calls.get? c = some call) (phase : Phase)
    (c' : Nat) : (s.calls.modify c fun call => { call with phase }).get? c' =
      if c' = c then some { call with phase } else s.calls.get? c' :=
  get?_modify_of_some hcall (fun call => { call with phase }) c'

theorem remember_eq (kcSub : String) (state : KCState) :
    s.remember ttl kcSub state = { s with seen := (s.remember ttl kcSub state).seen } := by
  unfold State.remember
  split
  · rfl
  · rfl

theorem get?_remember (kcSub : String) (state : KCState) (u : String) : (s.remember ttl kcSub state).seen.get? u =
      if u = kcSub ∧ 0 < ttl ∧ state ≠ .unknown then some ⟨state, s.now + ttl⟩ else s.seen.get? u := by
  unfold State.remember
  by_cases hkeep : 0 < ttl ∧ state ≠ .unknown
  · rw [if_pos hkeep]
    simp only [get?_upsert, hkeep, ne_eq, not_false_eq_true, and_true]
  · rw [if_neg hkeep, if_neg fun h => hkeep h.2]

/-- A call advances and the cache is as it was, or a call has stored its answer. -/
theorem stepped_of_advance {ev phase seen} (hcall : s.calls.get? c = some call)
    (hs' : s' = { s with seen, calls := s.calls.modify c fun call => { call with phase } })
    (hseen : ∀ kcSub, seen.get? kcSub = s.seen.get? kcSub ∨ ∃ state, call.kcSub = kcSub ∧
      call.phase = .answered state ∧ state ≠ .unknown ∧ seen.get? kcSub = some ⟨state, s.now + ttl⟩)
    (hadv : Advance ttl s s' call phase) : Stepped ttl s ev s' := by
  subst hs'
  have hget := get?_modify_phase hcall phase
  refine ⟨Nat.le_refl _, fun _ => .inl rfl, fun kcSub => ?_, fun c' call' hcall' => ?_, fun c' hnone => ?_⟩
  · rcases hseen kcSub with hsame | ⟨state, hsub, hphase, hknown, hnew⟩
    · exact .inl hsame
    · exact .inr ⟨c, call, state, hcall, hsub, hphase, hknown, hnew⟩
  · rw [show _ = _ from hget c'] at hcall'
    split at hcall'
    · rename_i heq
      cases hcall'
      exact .inr (.inr ⟨call, heq ▸ hcall, rfl, rfl, hadv⟩)
    · exact .inr (.inl hcall')
  · rw [show _ = _ from hget c'] at hnone
    split at hnone
    · cases hnone
    · exact hnone

theorem stepped_of_move {ev next} (h : s.move c next = some s')
    (hadv : ∀ call phase, next call = some phase → Advance ttl s s' call phase) : Stepped ttl s ev s' := by
  obtain ⟨call, phase, hcall, hphase, hs'⟩ := move_eq_some h
  exact stepped_of_advance hcall hs' (fun _ => .inl rfl) (hadv call phase hphase)

theorem stepped_setEnabled {kcSub flag} (h : s.step ttl (.setEnabled kcSub flag) = some s') :
    Stepped ttl s (.setEnabled kcSub flag) s' := by
  cases h
  refine ⟨Nat.le_refl _, fun u => ?_, fun _ => .inl rfl, fun _ _ hc => .inr (.inl hc), fun _ hc => hc⟩
  by_cases hu : u = kcSub
  · subst hu
    refine .inr ?_
    change Event.setEnabled u flag = .setEnabled u (Function.update s.flag u flag u)
    rw [update_self]
  · exact .inl (update_of_ne hu ..)

theorem stepped_call {kcSub} (h : s.step ttl (.call c kcSub) = some s') : Stepped ttl s (.call c kcSub) s' := by
  obtain ⟨hc, h⟩ := ite_none_left_eq_some.mp h
  cases h
  have hnone : s.calls.get? c = none := by simpa using hc
  have hget := get?_insertMissing_of_none hnone (⟨kcSub, s.now, .entered⟩ : Call)
  refine ⟨Nat.le_refl _, fun _ => .inl rfl, fun _ => .inl rfl, fun c' call' hc' => ?_, fun c' hc' => ?_⟩
  · rw [show _ = _ from hget c'] at hc'
    split at hc'
    · rename_i heq
      cases hc'
      exact .inl ⟨heq ▸ hnone, rfl, rfl⟩
    · exact .inr (.inl hc')
  · rw [show _ = _ from hget c'] at hc'
    split at hc'
    · cases hc'
    · exact hc'

theorem stepped_store (h : s.step ttl (.store c) = some s') : Stepped ttl s (.store c) s' := by
  obtain ⟨call, hcall, h⟩ := bind_eq_some_iff.mp h
  split at h
  · rename_i state hans
    obtain ⟨_, phase, _, hphase, hs'⟩ := move_eq_some h
    cases hphase
    rw [remember_eq] at hs'
    refine stepped_of_advance hcall hs' (fun u => ?_) (.stored state hans rfl fun httl hknown => ?_)
    · rw [get?_remember]
      split
      · rename_i hkeep
        exact .inr ⟨state, hkeep.1.symm, hans, hkeep.2.2, rfl⟩
      · exact .inl rfl
    · rw [hs']
      exact (get?_remember _ _ _).trans (if_pos ⟨rfl, httl, hknown⟩)
  · cases h

theorem step_stepped (ev : Event) (h : s.step ttl ev = some s') : Stepped ttl s ev s' := by
  cases ev with
  | tick elapsed =>
    cases h
    exact ⟨Nat.le_add_right _ _, fun _ => .inl rfl, fun _ => .inl rfl, fun _ _ hc => .inr (.inl hc), fun _ hc => hc⟩
  | setEnabled kcSub flag => exact stepped_setEnabled h
  | call c kcSub => exact stepped_call h
  | look c =>
    refine stepped_of_move h fun call phase hphase => ?_
    split at hphase
    · rename_i hent
      cases hphase
      split
      · exact .look hent rfl
      · exact .miss rfl
    · cases hphase
  | check c =>
    refine stepped_of_move h fun call phase hphase => ?_
    split at hphase
    · rename_i e hloo
      cases hphase
      split
      · rename_i hlive
        exact .hit e hloo hlive rfl
      · exact .miss rfl
    · cases hphase
      exact .miss rfl
    · cases hphase
  | ask c outcome =>
    refine stepped_of_move h fun call phase hphase => ?_
    split at hphase
    · cases hphase
      exact .told outcome rfl
    · cases hphase
  | store c => exact stepped_store h

/-! How a call comes to the phase it is in. -/

variable {ev : Event} {c : Nat} {call' : Call} {state : KCState}

theorem Stepped.looked (h : Stepped ttl s ev s') (hcall' : s'.calls.get? c = some call') {e}
    (hphase : call'.phase = .looked e) :
    s.calls.get? c = some call' ∨ s.seen.get? call'.kcSub = e := by
  rcases h.calls c call' hcall' with ⟨_, _, hent⟩ | hold | ⟨call, _, hsub, _, hadv⟩
  · exact nomatch hent.symm.trans hphase
  · exact .inl hold
  · cases hadv with
    | look _ hnext => exact .inr (hsub ▸ Phase.looked.inj (hnext.symm.trans hphase))
    | hit _ _ _ hnext | miss hnext | told _ hnext
    | stored _ _ hnext => exact nomatch hnext.symm.trans hphase

theorem Stepped.answered (h : Stepped ttl s ev s') (hcall' : s'.calls.get? c = some call')
    (hphase : call'.phase = .answered state) :
    s.calls.get? c = some call' ∨ ∃ outcome, state = adminUserEnabled (s.flag call'.kcSub) outcome := by
  rcases h.calls c call' hcall' with ⟨_, _, hent⟩ | hold | ⟨call, _, hsub, _, hadv⟩
  · exact nomatch hent.symm.trans hphase
  · exact .inl hold
  · cases hadv with
    | look _ hnext | hit _ _ _ hnext | miss hnext
    | stored _ _ hnext => exact nomatch hnext.symm.trans hphase
    | told outcome hnext => exact .inr ⟨outcome, hsub ▸ Phase.answered.inj (hphase.symm.trans hnext)⟩

theorem Stepped.returned (h : Stepped ttl s ev s') (hcall' : s'.calls.get? c = some call')
    (hphase : call'.phase = .returned state) :
    s.calls.get? c = some call' ∨
      ∃ call, s.calls.get? c = some call ∧ call.kcSub = call'.kcSub ∧ call.start = call'.start ∧
        ((∃ e, call.phase = .looked (some e) ∧ s.now < e.expires ∧ e.state = state) ∨
          (call.phase = .answered state ∧ (0 < ttl → state ≠ .unknown →
            s'.seen.get? call'.kcSub = some ⟨state, s.now + ttl⟩))) := by
  rcases h.calls c call' hcall' with ⟨_, _, hent⟩ | hold | ⟨call, hcall, hsub, hstart, hadv⟩
  · exact nomatch hent.symm.trans hphase
  · exact .inl hold
  · refine .inr ⟨call, hcall, hsub, hstart, ?_⟩
    cases hadv with
    | look _ hnext | miss hnext | told _ hnext => exact nomatch hnext.symm.trans hphase
    | hit e hloo hlive hnext => exact .inl ⟨e, hloo, hlive, Phase.returned.inj (hnext.symm.trans hphase)⟩
    | stored _ hans hnext hseen =>
      rw [Phase.returned.inj (hnext.symm.trans hphase)] at hans hseen
      exact .inr ⟨hans, hsub ▸ hseen⟩

theorem Stepped.started (h : Stepped ttl s ev s') (hinv : ∀ c call, s.calls.get? c = some call → call.start ≤ s.now)
    (hcall' : s'.calls.get? c = some call') : call'.start ≤ s'.now := by
  have hnow := h.now
  rcases h.calls c call' hcall' with ⟨_, hstart, _⟩ | hold | ⟨call, hcall, _, hstart, _⟩
  · omega
  · have hle := hinv c call' hold
    omega
  · have hle := hinv c call hcall
    omega

end Steps

/-! ## Entries do not outlive their store -/

structure Aged (ttl : Nat) (s : State) : Prop where
  seen : ∀ kcSub e, s.seen.get? kcSub = some e → e.expires ≤ s.now + ttl
  looked : ∀ c call e, s.calls.get? c = some call → call.phase = .looked (some e) → e.expires ≤ s.now + ttl
  started : ∀ c call, s.calls.get? c = some call → call.start ≤ s.now

theorem aged_start (ttl : Nat) (flag : String → Bool) : Aged ttl (.start flag) :=
  ⟨fun _ _ h => (nomatch h), fun _ _ _ h => (nomatch h), fun _ _ h => (nomatch h)⟩

theorem aged_step {ttl s s'} (hinv : Aged ttl s) {ev} (h : Stepped ttl s ev s') : Aged ttl s' := by
  have hnow := h.now
  constructor
  · intro kcSub e he
    rcases h.seen kcSub with hsame | ⟨_, _, _, _, _, _, _, hnew⟩
    · have hold := hinv.seen kcSub e (hsame ▸ he)
      omega
    · rw [hnew] at he
      cases he
      change s.now + ttl ≤ s'.now + ttl
      omega
  · intro c call' e hcall' hphase
    rcases h.looked hcall' hphase with hold | hfound
    · have hle := hinv.looked c call' e hold hphase
      omega
    · have hle := hinv.seen call'.kcSub e hfound
      omega
  · exact fun c call' hcall' => h.started hinv.started hcall'

/-! ## After a disable -/

/-- The user is disabled since `since`, and no call has an answer of before that is still to be stored.
`before` are the calls there were at the disable. -/
structure Disabled (ttl : Nat) (kcSub : String) (since : Nat) (before : Keyed.Table Nat Call) (s : State) : Prop where
  flag : s.flag kcSub = false
  now : since ≤ s.now
  unanswered : ∀ c call, s.calls.get? c = some call → call.kcSub = kcSub → call.phase ≠ .answered .enabled
  started : ∀ c call, s.calls.get? c = some call → call.start ≤ s.now
  seen : ∀ e, s.seen.get? kcSub = some e → e.state = .enabled → e.expires ≤ since + ttl
  looked : ∀ c call e, s.calls.get? c = some call → call.kcSub = kcSub → call.phase = .looked (some e) →
    e.state = .enabled → e.expires ≤ since + ttl
  late : ∀ c call, s.calls.get? c = some call → call.kcSub = kcSub → since + ttl < call.start →
    call.phase ≠ .returned .enabled
  known : ∀ c, s.calls.get? c = none → before.get? c = none
  refused : ∀ c call, before.get? c = none → s.calls.get? c = some call → call.kcSub = kcSub →
    (call.phase = .returned .disabled ∨ ∃ e, call.phase = .looked (some e) ∧ e.state = .disabled) →
      ∃ e, s.seen.get? kcSub = some e ∧ e.state = .disabled

section Disabled

variable {ttl since : Nat} {kcSub : String} {before : Keyed.Table Nat Call} {s s' : State}
  {ev : Event} {mid : Keyed.Table Nat Call} {evs : List Event}

theorem told_of_disabled (hflag : s.flag kcSub = false) (outcome : AdminOutcome) :
    adminUserEnabled (s.flag kcSub) outcome ≠ .enabled := by
  rw [hflag]
  cases outcome <;> exact nofun

/-- What is in the cache after an event was there before, or it is a refusal. -/
theorem seen_of_disabled (hinv : Disabled ttl kcSub since before s) (h : Stepped ttl s ev s') :
    s'.seen.get? kcSub = s.seen.get? kcSub ∨ ∃ e, s'.seen.get? kcSub = some e ∧ e.state = .disabled := by
  rcases h.seen kcSub with hsame | ⟨c, call, state, hcall, hsub, hphase, hknown, hnew⟩
  · exact .inl hsame
  refine .inr ⟨_, hnew, ?_⟩
  have hne := hinv.unanswered c call hcall hsub
  cases state with
  | enabled => exact absurd hphase hne
  | disabled => rfl
  | unknown => exact absurd rfl hknown

theorem refusal_kept (hinv : Disabled ttl kcSub since before s) (h : Stepped ttl s ev s')
    (hrfd : ∃ e, s.seen.get? kcSub = some e ∧ e.state = .disabled) :
    ∃ e, s'.seen.get? kcSub = some e ∧ e.state = .disabled := by
  rcases seen_of_disabled hinv h with hsame | hnew
  · rw [hsame]
    exact hrfd
  · exact hnew

theorem disabled_step (hpos : 0 < ttl) (hinv : Disabled ttl kcSub since before s)
    (hstays : ev ≠ .setEnabled kcSub true) (h : Stepped ttl s ev s') :
    Disabled ttl kcSub since before s' := by
  have hnow := h.now
  constructor
  · rcases h.flag kcSub with hsame | hset
    · exact hsame.trans hinv.flag
    · cases hflag : s'.flag kcSub with
      | true => exact absurd (hflag ▸ hset) hstays
      | false => rfl
  · exact Nat.le_trans hinv.now hnow
  · intro c call' hcall' hsub hphase
    rcases h.answered hcall' hphase with hold | ⟨outcome, htold⟩
    · exact hinv.unanswered c call' hold hsub hphase
    · rw [hsub] at htold
      exact told_of_disabled hinv.flag outcome htold.symm
  · exact fun c call' hcall' => h.started hinv.started hcall'
  · intro e he hena
    rcases seen_of_disabled hinv h with hsame | ⟨e', he', hdis⟩
    · exact hinv.seen e (hsame ▸ he) hena
    · rw [Option.some.inj (he.symm.trans he'), hdis] at hena
      cases hena
  · intro c call' e hcall' hsub hphase hena
    rcases h.looked hcall' hphase with hold | hfound
    · exact hinv.looked c call' e hold hsub hphase hena
    · exact hinv.seen e (hsub ▸ hfound) hena
  · intro c call' hcall' hsub hlate hphase
    rcases h.returned hcall' hphase with hold | ⟨call, hcall, hsame, hstart, hhow⟩
    · exact hinv.late c call' hold hsub hlate hphase
    rcases hhow with ⟨e, hloo, hlive, hstate⟩ | ⟨hans, _⟩
    · -- an entry that says enabled has run out when the call starts
      have hrun := hinv.looked c call e hcall (hsame.trans hsub) hloo hstate
      have hbegun := hinv.started c call hcall
      omega
    · exact hinv.unanswered c call hcall (hsame.trans hsub) hans
  · exact fun c hnone => hinv.known c (h.known c hnone)
  · intro c call' hbef hcall' hsub hcase
    have hkept := fun call hcall hs hp => refusal_kept hinv h (hinv.refused c call hbef hcall hs hp)
    rcases hcase with hphase | ⟨e, hphase, hdis⟩
    · rcases h.returned hcall' hphase with hold | ⟨call, hcall, hsame, _, hhow⟩
      · exact hkept call' hold hsub (.inl hphase)
      · rcases hhow with ⟨e, hloo, _, hstate⟩ | ⟨_, hsto⟩
        · exact hkept call hcall (hsame.trans hsub) (.inr ⟨e, hloo, hstate⟩)
        · exact ⟨_, hsub ▸ hsto hpos nofun, rfl⟩
    · rcases h.looked hcall' hphase with hold | hfound
      · exact hkept call' hold hsub (.inr ⟨e, hphase, hdis⟩)
      · exact refusal_kept hinv h ⟨e, hsub ▸ hfound, hdis⟩

/-- The user is disabled and refused since `mid`: no call begun later is told anything else. -/
structure Refused (ttl : Nat) (kcSub : String) (since : Nat) (before mid : Keyed.Table Nat Call) (s : State) : Prop where
  disabled : Disabled ttl kcSub since before s
  seen : ∃ e, s.seen.get? kcSub = some e ∧ e.state = .disabled
  looked : ∀ c call e, mid.get? c = none → s.calls.get? c = some call → call.kcSub = kcSub →
    call.phase = .looked (some e) → e.state ≠ .enabled
  late : ∀ c call, mid.get? c = none → s.calls.get? c = some call → call.kcSub = kcSub →
    call.phase ≠ .returned .enabled

theorem refused_step (hpos : 0 < ttl)
    (hrfd : Refused ttl kcSub since before mid s) (hstays : ev ≠ .setEnabled kcSub true)
    (h : Stepped ttl s ev s') : Refused ttl kcSub since before mid s' := by
  have hinv := hrfd.disabled
  constructor
  · exact disabled_step hpos hinv hstays h
  · exact refusal_kept hinv h hrfd.seen
  · intro c call' e hmid hcall' hsub hphase
    rcases h.looked hcall' hphase with hold | hfound
    · exact hrfd.looked c call' e hmid hold hsub hphase
    · obtain ⟨e', he', hdis⟩ := hrfd.seen
      rw [hsub, he'] at hfound
      rw [← Option.some.inj hfound, hdis]
      exact nofun
  · intro c call' hmid hcall' hsub hphase
    rcases h.returned hcall' hphase with hold | ⟨call, hcall, hsame, _, hhow⟩
    · exact hrfd.late c call' hmid hold hsub hphase
    · rcases hhow with ⟨e, hloo, _, hstate⟩ | ⟨hans, _⟩
      · exact hrfd.looked c call e hmid hcall (hsame.trans hsub) hloo hstate
      · exact hinv.unanswered c call hcall (hsame.trans hsub) hans

theorem disabled_begin (haged : Aged ttl s) (h : s.step ttl (.setEnabled kcSub false) = some s')
    (hset : ∀ c call, s.calls.get? c = some call → call.kcSub = kcSub → call.phase ≠ .answered .enabled) :
    Disabled ttl kcSub s'.now s'.calls s' := by
  cases h
  refine ⟨update_self .., Nat.le_refl _, hset, haged.started, fun e he _ => haged.seen kcSub e he,
    fun c call e hcall _ hphase _ => haged.looked c call e hcall hphase, ?_, fun _ hc => hc, ?_⟩
  · intro c call hcall _ hlate
    have hbegun := haged.started c call hcall
    change s.now + ttl < call.start at hlate
    omega
  · intro c call hnone hcall
    exact nomatch hnone.symm.trans hcall

theorem disabled_run (hpos : 0 < ttl) (hinv : Disabled ttl kcSub since before s)
    (hstays : .setEnabled kcSub true ∉ evs) (hrun : evs.foldlM (State.step ttl) s = some s') :
    Disabled ttl kcSub since before s' := by
  have hreach : Reach (State.step ttl) (fun _ ev => ev ≠ .setEnabled kcSub true) s s' :=
    reach_of_foldlM evs hrun fun ev hev _ heq => hstays (heq ▸ hev)
  exact hreach.invariant hinv fun _ _ ev hinv hev hstep => disabled_step hpos hinv hev (step_stepped ev hstep)

theorem refused_run (hpos : 0 < ttl) (hrfd : Refused ttl kcSub since before mid s)
    (hstays : .setEnabled kcSub true ∉ evs) (hrun : evs.foldlM (State.step ttl) s = some s') :
    Refused ttl kcSub since before mid s' := by
  have hreach : Reach (State.step ttl) (fun _ ev => ev ≠ .setEnabled kcSub true) s s' :=
    reach_of_foldlM evs hrun fun ev hev _ heq => hstays (heq ▸ hev)
  exact hreach.invariant hrfd fun _ _ ev hinv hev hstep => refused_step hpos hinv hev (step_stepped ev hstep)

end Disabled

/-- The user is disabled at `s₁.now` and not enabled again, and at that moment no call has been told
"enabled" that has not stored it yet. -/
theorem disable_window (ttl : Nat) (hpos : 0 < ttl) (flag : String → Bool) (kcSub : String)
    (pre post : List Event) (s₀ s₁ s₂ : State) (hpre : pre.foldlM (State.step ttl) (.start flag) = some s₀)
    (hdisable : s₀.step ttl (.setEnabled kcSub false) = some s₁)
    (hpost : post.foldlM (State.step ttl) s₁ = some s₂) (hstays : .setEnabled kcSub true ∉ post)
    (hsettled : ∀ c call, s₀.calls.get? c = some call → call.kcSub = kcSub → call.phase ≠ .answered .enabled) :
    (∀ c call, s₂.calls.get? c = some call → call.kcSub = kcSub → s₁.now + ttl < call.start →
      call.phase ≠ .returned .enabled) ∧
    ∀ post₁ post₂ s, post = post₁ ++ post₂ → post₁.foldlM (State.step ttl) s₁ = some s →
      (∃ c₀ call₀, s₁.calls.get? c₀ = none ∧ s.calls.get? c₀ = some call₀ ∧ call₀.kcSub = kcSub ∧
        call₀.phase = .returned .disabled) →
      ∀ c call, s.calls.get? c = none → s₂.calls.get? c = some call → call.kcSub = kcSub →
        call.phase ≠ .returned .enabled := by
  have haged : Aged ttl s₀ := foldlM_invariant pre hpre (aged_start ttl flag)
    fun _ _ ev hinv hstep => aged_step hinv (step_stepped ev hstep)
  have hbegin := disabled_begin haged hdisable hsettled
  refine ⟨(disabled_run hpos hbegin hstays hpost).late, ?_⟩
  rintro post₁ post₂ s rfl hmid ⟨c₀, call₀, hnew, hcall₀, hsub, hphase⟩
  rw [List.mem_append, not_or] at hstays
  rw [List.foldlM_append, hmid] at hpost
  have hinv := disabled_run hpos hbegin hstays.1 hmid
  have hrfd : Refused ttl kcSub s₁.now s₁.calls s.calls s := by
    refine ⟨hinv, hinv.refused c₀ call₀ hnew hcall₀ hsub (.inl hphase), ?_, ?_⟩
    · exact fun c call e hnone hcall => nomatch hnone.symm.trans hcall
    · exact fun c call hnone hcall => nomatch hnone.symm.trans hcall
  exact (refused_run hpos hrfd hstays.2 hpost).late

/-- A call under way at the disable is told "enabled" before it and stores that nine seconds later. -/
def slowAnswer : List Event :=
  [.call 0 "mia", .look 0, .check 0, .ask 0 .answered, .tick 1, .setEnabled "mia" false,
    .tick 1, .call 1 "mia", .look 1, .check 1, .ask 1 .answered, .store 1,
    .tick 7, .store 0, .tick 3, .call 2 "mia", .look 2, .check 2]

theorem slowAnswer_enabled : ∃ s, slowAnswer.foldlM (State.step 10) (.start fun _ => true) = some s ∧
    s.calls.get? 1 = some ⟨"mia", 2, .returned .disabled⟩ ∧
      s.calls.get? 2 = some ⟨"mia", 12, .returned .enabled⟩ := by
  have hrun : (slowAnswer.foldlM (State.step 10) (.start fun _ => true)).map
      (fun s => (s.calls.get? 1, s.calls.get? 2)) =
        some (some ⟨"mia", 2, .returned .disabled⟩, some ⟨"mia", 12, .returned .enabled⟩) := by
    decide +kernel
  obtain ⟨s, hs, hcalls⟩ := map_eq_some_iff.mp hrun
  exact ⟨s, hs, Prod.mk.inj hcalls⟩

/-- An entry of before the disable is used until it runs out, and no longer. -/
def usedUp : List Event × List Event :=
  ([.call 0 "mia", .look 0, .check 0, .ask 0 .answered, .store 0],
    [.tick 5, .call 1 "mia", .look 1, .check 1, .tick 6, .call 2 "mia", .look 2, .check 2, .ask 2 .answered,
      .store 2])

theorem disable_window_usedUp : ∃ s₀ s₁ s₂ call, usedUp.1.foldlM (State.step 10) (.start fun _ => true) = some s₀ ∧
    s₀.step 10 (.setEnabled "mia" false) = some s₁ ∧ usedUp.2.foldlM (State.step 10) s₁ = some s₂ ∧
    s₂.calls.get? 1 = some ⟨"mia", 5, .returned .enabled⟩ ∧ s₂.calls.get? 2 = some call ∧
    call.start = 11 ∧ call.phase ≠ .returned .enabled := by
  have hrun : (usedUp.1.foldlM (State.step 10) (.start fun _ => true)).bind (fun s₀ =>
      (s₀.step 10 (.setEnabled "mia" false)).bind fun s₁ =>
        (usedUp.2.foldlM (State.step 10) s₁).map fun s₂ =>
          (s₀.calls.rows, s₁.now, s₂.calls.get? 1, s₂.calls.get? 2)) =
      some ([(0, ⟨"mia", 0, .returned .enabled⟩)], 0, some ⟨"mia", 5, .returned .enabled⟩,
        some ⟨"mia", 11, .returned .disabled⟩) := by decide +kernel
  obtain ⟨s₀, hs₀, hrun⟩ := bind_eq_some_iff.mp hrun
  obtain ⟨s₁, hs₁, hrun⟩ := bind_eq_some_iff.mp hrun
  obtain ⟨s₂, hs₂, hobs⟩ := map_eq_some_iff.mp hrun
  obtain ⟨hcalls, hobs⟩ := Prod.mk.inj hobs
  obtain ⟨hnow, hobs⟩ := Prod.mk.inj hobs
  obtain ⟨hfirst, hsec⟩ := Prod.mk.inj hobs
  have hset : ∀ c call, s₀.calls.get? c = some call → call.kcSub = "mia" → call.phase ≠ .answered .enabled := by
    intro c call hcall _
    have hmem := get?_eq_some_iff.mp hcall
    rw [hcalls, List.mem_singleton] at hmem
    rw [(Prod.mk.inj hmem).2]
    exact nofun
  have hwin := disable_window 10 (by decide) _ "mia" usedUp.1 usedUp.2 s₀ s₁ s₂ hs₀ hs₁ hs₂ (by decide) hset
  refine ⟨s₀, s₁, s₂, _, hs₀, hs₁, hs₂, hfirst, hsec, rfl, hwin.1 2 _ hsec rfl ?_⟩
  rw [hnow]
  decide

end Kiban.Identity.UserState
