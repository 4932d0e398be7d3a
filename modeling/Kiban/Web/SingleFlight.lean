import Kiban.Lib.Runs
import Kiban.Web.Session

/-!
# One refresh in flight

Callers of `refresh` share the promise in `refreshInFlight`.  The callback of `finally` empties that slot whatever is
in it: where a later refresh has taken it since, the callback takes the later one out, and the next caller sends its
refresh token a second time.
-/

namespace Kiban.Web

open List

open JavaScript (truthy)

def Session.refreshToken (s : Session) : Option String :=
  s.currentTokens.bind fun tokens => truthy tokens.refreshToken

/-- Refresh call `x` is outstanding, and its request carries the current refresh token. -/
def Session.Carries (s : Session) (x : CallId) : Prop :=
  ∃ r, s.refreshes.get? x = some r ∧ r.phase.isSettled = false ∧ r.request.isSome = true ∧
    r.request = s.refreshToken

structure SingleFlight (s : Session) (e : Event) (s' : Session) : Prop where
  one : ∀ x y, s'.Carries x → s'.Carries y → x = y
  shared : e = .refresh → ∀ x, s.Carries x → s.refresh.2 = x

/-- A logout, or the callback of another refresh, has taken `x` out of the slot. -/
def Detached (cfg : SessionConfig) (s₀ : Session) (es : List Event) (x : CallId) : Prop :=
  ∃ pre e post s, es = pre ++ e :: post ∧ pre.foldlM (Session.step cfg) s₀ = some s ∧
    s.refreshInFlight = some x ∧ (e = .logout ∨ ∃ y, y ≠ x ∧ e = .refreshFinally y)

/-- No refresh is asked for while a detached one carries the current refresh token. -/
def NoneAstray (cfg : SessionConfig) (s₀ : Session) (es : List Event) : Prop :=
  ∀ pre post s x, es = pre ++ .refresh :: post → pre.foldlM (Session.step cfg) s₀ = some s →
    Detached cfg s₀ pre x → ¬ s.Carries x

variable {cfg : SessionConfig} {s₀ s s' : Session} {e : Event} {es : List Event} {x y : CallId}

theorem Detached.append (h : Detached cfg s₀ es x) (es' : List Event) : Detached cfg s₀ (es ++ es') x := by
  obtain ⟨pre, e, post, s, rfl, hpre, hslot, hout⟩ := h
  exact ⟨pre, e, post ++ es', s, by simp, hpre, hslot, hout⟩

theorem detached_append_singleton (hs : es.foldlM (Session.step cfg) s₀ = some s) :
    Detached cfg s₀ (es ++ [e]) x ↔ Detached cfg s₀ es x ∨
      (s.refreshInFlight = some x ∧ (e = .logout ∨ ∃ y, y ≠ x ∧ e = .refreshFinally y)) := by
  constructor
  · rintro ⟨pre, e', post, s', heq, hpre, hslot, hout⟩
    induction post using List.reverseRecOn with
    | nil =>
      obtain ⟨rfl, hlast⟩ := append_inj' heq rfl
      cases hlast
      cases hs.symm.trans hpre
      exact .inr ⟨hslot, hout⟩
    | append_singleton post e'' _ =>
      rw [← cons_append, ← append_assoc] at heq
      obtain ⟨rfl, _⟩ := append_inj' heq rfl
      exact .inl ⟨pre, e', post, s', rfl, hpre, hslot, hout⟩
  · rintro (h | ⟨hslot, hout⟩)
    · exact h.append [e]
    · exact ⟨es, e, [], s, rfl, hs, hslot, hout⟩

theorem NoneAstray.init {es'} (h : NoneAstray cfg s₀ (es ++ es')) : NoneAstray cfg s₀ es := by
  intro pre post s x heq
  exact h pre (post ++ es') s x (by rw [heq]; simp)

/-! ## The slot -/

theorem Happens.calls (h : Happens cfg s e s') : s.calls ≤ s'.calls := by
  cases h with
  | quiet h => exact h.calls
  | began => exact Nat.le_succ _
  | exchanged | proceeded | rejected | refreshed | finished | loggedOut => exact le_refl _

inductive SlotChange (s : Session) (e : Event) (s' : Session) : Prop
  | kept (h : s'.refreshInFlight = s.refreshInFlight)
  | taken (hfree : s.refreshInFlight = none) (h : s'.refreshInFlight = some s.calls) (hcalls : s.calls < s'.calls)
  | emptied (h : s'.refreshInFlight = none)
      (he : e = .logout ∨ ∃ y r, e = .refreshFinally y ∧ s.refreshes.get? y = some r ∧ r.phase.isSettled = true)

theorem Happens.slot (h : Happens cfg s e s') : SlotChange s e s' := by
  cases h with
  | quiet h => exact .kept h.refreshInFlight
  | exchanged | proceeded | rejected | refreshed => exact .kept rfl
  | began hfree => exact .taken hfree rfl (Nat.lt_succ_self _)
  | finished hget hset => exact .emptied rfl (.inr ⟨_, _, rfl, hget, hset⟩)
  | loggedOut => exact .emptied rfl (.inl rfl)

theorem slot_emptied (hstep : s.step cfg e = some s')
    (hout : e = .logout ∨ ∃ y, y ≠ x ∧ e = .refreshFinally y) : s'.refreshInFlight = none := by
  obtain rfl | ⟨y, _, rfl⟩ := hout
  · cases hstep
    rfl
  simp only [Session.step] at hstep
  split at hstep
  · cases hstep
    rfl
  · cases hstep

/-- What is known of the refresh calls after the events `es`. -/
structure Watch (cfg : SessionConfig) (s₀ : Session) (es : List Event) (s : Session) : Prop where
  known : ∀ x r, s.refreshes.get? x = some r → x < s.calls
  slot : ∀ x, s.refreshInFlight = some x → x < s.calls
  outside : ∀ x r, s.refreshes.get? x = some r → r.phase.isSettled = false →
    s.refreshInFlight = some x ∨ Detached cfg s₀ es x
  gone : ∀ x, Detached cfg s₀ es x → s.refreshInFlight ≠ some x ∧ x < s.calls

theorem watch_createSession (storage : Storage) (now : ℚ) :
    Watch cfg (createSession cfg storage now) [] (createSession cfg storage now) where
  known _ _ hget := by cases hget
  slot _ hslot := by cases hslot
  outside _ _ hget := by cases hget
  gone _ hdet := by
    obtain ⟨pre, e, post, _, hnil, _⟩ := hdet
    simp at hnil

theorem watch_step (hs : es.foldlM (Session.step cfg) s₀ = some s) (hw : Watch cfg s₀ es s)
    (hstep : s.step cfg e = some s') : Watch cfg s₀ (es ++ [e]) s' := by
  have h := happens_of_step hstep
  have hmore : ∀ x, x < s.calls → x < s'.calls := fun x hx => hx.trans_le h.calls
  refine ⟨fun x r' hget' => ?_, fun x hslot' => ?_, fun x r' hget' hwaits => ?_, fun x hdet => ?_⟩
  · obtain ⟨r, hget, _⟩ | ⟨_, hfree, hslot', hx, _⟩ := h.refresh hget'
    · exact hmore x (hw.known x r hget)
    · cases h.slot with
      | kept hkept => cases hslot'.symm.trans (hkept.trans hfree)
      | taken _ _ hcalls => exact hx ▸ hcalls
      | emptied hnone => cases hslot'.symm.trans hnone
  · cases h.slot with
    | kept hkept => exact hmore x (hw.slot x (hkept.symm.trans hslot'))
    | taken _ htaken hcalls =>
      cases htaken.symm.trans hslot'
      exact hcalls
    | emptied hnone => cases hslot'.symm.trans hnone
  · obtain ⟨r, hget, _, _, hset⟩ | ⟨_, _, hslot', _⟩ := h.refresh hget'
    · -- it was outstanding before the event as well, in the slot or out of it
      have hwai : r.phase.isSettled = false := by
        refine Bool.eq_false_iff.mpr fun hdone => ?_
        cases (hset hdone).symm.trans hwaits
      obtain hslot | hdet := hw.outside x r hget hwai
      · cases h.slot with
        | kept hkept => exact .inl (hkept.trans hslot)
        | taken hfree => cases hslot.symm.trans hfree
        | emptied _ he =>
          refine .inr ((detached_append_singleton hs).mpr (.inr ⟨hslot, ?_⟩))
          obtain he | ⟨y, r₁, he, hget₁, hset₁⟩ := he
          · exact .inl he
          · refine .inr ⟨y, ?_, he⟩
            rintro rfl
            cases hget.symm.trans hget₁
            cases hwai.symm.trans hset₁
      · exact .inr (hdet.append [e])
    · exact .inl hslot'
  · obtain hdet | ⟨hslot, hout⟩ := (detached_append_singleton hs).mp hdet
    · obtain ⟨hne, hx⟩ := hw.gone x hdet
      refine ⟨fun hslot' => ?_, hmore x hx⟩
      cases h.slot with
      | kept hkept => exact hne (hkept.symm.trans hslot')
      | taken _ htaken =>
        cases htaken.symm.trans hslot'
        exact absurd hx (lt_irrefl _)
      | emptied hnone => cases hslot'.symm.trans hnone
    · rw [slot_emptied hstep hout]
      exact ⟨by simp, hmore x (hw.slot x hslot)⟩

/-! ## One request for each refresh token -/

theorem doRefresh_request (h : s.doRefresh.phase.isSettled = false) :
    s.doRefresh.request.isSome = true ∧ s.doRefresh.request = s.refreshToken := by
  unfold Session.doRefresh at h ⊢
  split at h
  · cases h
  · rename_i htoken
    exact ⟨rfl, htoken.symm⟩

def Session.Apart (s : Session) : Prop :=
  ∀ x y r r', s.refreshes.get? x = some r → s.refreshes.get? y = some r' → r.phase.isSettled = false →
    r'.phase.isSettled = false → r.request = r'.request → x = y

/-- An outstanding call after an event was so before, or the event has begun it. -/
theorem outstanding_of_happens (h : Happens cfg s e s') {r'} (hget' : s'.refreshes.get? x = some r')
    (hwaits : r'.phase.isSettled = false) :
    (∃ r, s.refreshes.get? x = some r ∧ r.phase.isSettled = false ∧ r.request = r'.request) ∨
      (e = .refresh ∧ s.refreshInFlight = none ∧ x = s.calls ∧ r'.request.isSome = true ∧
        r'.request = s.refreshToken) := by
  obtain ⟨r, hget, hreq, _, hset⟩ | ⟨he, hfree, _, hx, rfl⟩ := h.refresh hget'
  · refine .inl ⟨r, hget, Bool.eq_false_iff.mpr fun hdone => ?_, hreq.symm⟩
    cases (hset hdone).symm.trans hwaits
  · exact .inr ⟨he, hfree, hx, doRefresh_request hwaits⟩

theorem apart_step (hs : es.foldlM (Session.step cfg) s₀ = some s) (hw : Watch cfg s₀ es s)
    (hapart : s.Apart) (hstep : s.step cfg e = some s') (hast : NoneAstray cfg s₀ (es ++ [e])) :
    s'.Apart := by
  have h := happens_of_step hstep
  -- a call that begins now finds no call outstanding with its refresh token
  have hnew : ∀ y r, e = .refresh → s.refreshInFlight = none → s.refreshes.get? y = some r →
      r.phase.isSettled = false → r.request.isSome = true → r.request ≠ s.refreshToken := by
    rintro y r rfl hfree hget hwaits hsome hrequ
    obtain hslot | hdet := hw.outside y r hget hwaits
    · cases hslot.symm.trans hfree
    · exact hast es [] s y rfl hs hdet ⟨r, hget, hwaits, hsome, hrequ⟩
  intro x y r r' hx hy hwx hwy hsame
  obtain ⟨r₁, hget₁, hwaits₁, hreq₁⟩ | ⟨he, hfree, hx, hsome, hreq₁⟩ := outstanding_of_happens h hx hwx
  · obtain ⟨r₂, hget₂, hwaits₂, hreq₂⟩ | ⟨he, hfree, _, hsome, hreq₂⟩ := outstanding_of_happens h hy hwy
    · exact hapart x y r₁ r₂ hget₁ hget₂ hwaits₁ hwaits₂ (hreq₁.trans (hsame.trans hreq₂.symm))
    · have hreq : r₁.request = r'.request := hreq₁.trans hsame
      exact absurd (hreq.trans hreq₂) (hnew x r₁ he hfree hget₁ hwaits₁ (hreq ▸ hsome))
  · obtain ⟨r₂, hget₂, hwaits₂, hreq₂⟩ | ⟨_, _, hy, _⟩ := outstanding_of_happens h hy hwy
    · have hreq : r₂.request = r.request := hreq₂.trans hsame.symm
      exact absurd (hreq.trans hreq₁) (hnew y r₂ he hfree hget₂ hwaits₂ (hreq ▸ hsome))
    · exact hx.trans hy.symm

theorem Session.Apart.carries (h : s.Apart) (hx : s.Carries x) (hy : s.Carries y) : x = y := by
  obtain ⟨r, hget, hwaits, _, hreq⟩ := hx
  obtain ⟨r', hget', hwaits', _, hreq'⟩ := hy
  exact h x y r r' hget hget' hwaits hwaits' (hreq.trans hreq'.symm)

/-! ## Callers share the refresh in flight -/

theorem refresh_of_slot (h : s.refreshInFlight = some x) : s.refresh.2 = x := by
  unfold Session.refresh
  rw [h]

theorem not_carries_of_detached (hw : Watch cfg s₀ es s) (hdet : Detached cfg s₀ es x)
    (hshd : ∀ x, s.Carries x → s.refresh.2 = x) : ¬ s.Carries x := by
  intro hcarr
  obtain ⟨hout, hx⟩ := hw.gone x hdet
  have hpro := hshd x hcarr
  unfold Session.refresh at hpro
  split at hpro
  · rename_i hslot
    exact hout (hpro ▸ hslot)
  · exact absurd hx (hpro ▸ lt_irrefl _)

theorem watch_run {storage now} (hs : es.foldlM (Session.step cfg) (createSession cfg storage now) = some s) :
    Watch cfg (createSession cfg storage now) es s :=
  Runs.foldlM_history es hs (watch_createSession storage now) fun _ _ _ _ => watch_step

theorem apart_run {storage now} (hs : es.foldlM (Session.step cfg) (createSession cfg storage now) = some s)
    (hast : NoneAstray cfg (createSession cfg storage now) es) : s.Apart := by
  have hkeep : ∀ pre e s s', pre.foldlM (Session.step cfg) (createSession cfg storage now) = some s →
      (NoneAstray cfg (createSession cfg storage now) pre → s.Apart) → s.step cfg e = some s' →
      NoneAstray cfg (createSession cfg storage now) (pre ++ [e]) → s'.Apart :=
    fun pre e s s' hs ih hstep hast => apart_step hs (watch_run hs) (ih hast.init) hstep hast
  refine Runs.foldlM_history es hs (fun _ => ?_) hkeep hast
  intro x y r r' hget
  cases hget

/-- In every run of a session there is one refresh in flight, which callers share, exactly when no refresh is asked
for while one that a logout or the callback of another has taken out of the slot carries the current refresh token. -/
theorem refresh_singleFlight_iff (cfg : SessionConfig) (storage : Storage) (now : ℚ) (es : List Event) :
    (∀ pre e post s₁ s₂, es = pre ++ e :: post →
        pre.foldlM (Session.step cfg) (createSession cfg storage now) = some s₁ → s₁.step cfg e = some s₂ →
        SingleFlight s₁ e s₂) ↔
      NoneAstray cfg (createSession cfg storage now) es := by
  constructor
  · intro hfli pre post s₁ x heq hpre hdet
    exact not_carries_of_detached (watch_run hpre) hdet
      ((hfli pre .refresh post s₁ s₁.refresh.1 heq hpre rfl).shared rfl)
  intro hast pre e post s₁ s₂ heq hpre hstep
  have hpre' : (pre ++ [e]).foldlM (Session.step cfg) (createSession cfg storage now) = some s₂ := by
    rw [foldlM_append, hpre]
    simpa using hstep
  have hsplit : es = (pre ++ [e]) ++ post := by rw [heq]; simp
  refine ⟨fun x y => (apart_run hpre' (hsplit ▸ hast).init).carries, ?_⟩
  rintro rfl x ⟨r, hget, hwaits, htoken⟩
  obtain hslot | hdet := (watch_run hpre).outside x r hget hwaits
  · exact refresh_of_slot hslot
  · exact absurd ⟨r, hget, hwaits, htoken⟩ (hast pre post s₁ x heq hpre hdet)

-- two callers ask for a refresh, and the second one joins the first
example : ∃ s, (signingIn 0 "code" ++ [exchangeAnswered 1 "refresh", .refresh, .refresh]).foldlM
    (Session.step webApp) newTab = some s ∧ s.Carries 2 ∧ s.calls = 3 :=
  ⟨_, rfl, ⟨_, rfl, rfl, rfl, rfl⟩, rfl⟩

/-- Refresh 2 is in flight at the logout; after the next login its callback takes refresh 5 out of the slot. -/
def lateCallback : List Event :=
  signingIn 0 "code" ++ [exchangeAnswered 1 "old", .refresh, .logout] ++ signingIn 3 "next code" ++
    [exchangeAnswered 4 "new", .refresh, .refreshFetched 2 none, .refreshFinally 2]

theorem lateCallback_sendsTwice : ∃ s s',
    lateCallback.foldlM (Session.step webApp) newTab = some s ∧ s.step webApp .refresh = some s' ∧
      s.Carries 5 ∧ s.refresh.2 = 6 ∧ s'.Carries 5 ∧ s'.Carries 6 ∧ ¬ SingleFlight s .refresh s' := by
  refine ⟨_, _, rfl, rfl, ⟨_, rfl, rfl, rfl, rfl⟩, rfl, ⟨_, rfl, rfl, rfl, rfl⟩, ⟨_, rfl, rfl, rfl, rfl⟩, fun h => ?_⟩
  have hsame := h.one 5 6 ⟨_, rfl, rfl, rfl, rfl⟩ ⟨_, rfl, rfl, rfl, rfl⟩
  exact absurd hsame (by decide)

end Kiban.Web
