import Kiban.Lib.Runs
import Kiban.Web.Session

/-!
# Logout and the requests in flight

`doRefresh` compares the generation once its response has been read, so a refresh that was in flight at a logout stores
nothing.  `exchangeCode` makes no such check: an exchange that was in flight at a logout stores its tokens, and the
session is signed in again.
-/

namespace Kiban.Web

def Session.HoldsTokens (s : Session) : Prop := s.currentTokens.isSome = true ∨ s.storage.tokens.isSome = true

/-- A callback that began after the last logout has succeeded. -/
def Session.LoggedInAgain (s : Session) : Prop :=
  ∃ id x, s.exchanges.get? id = some x ∧ x.startedIn = s.generation ∧ x.gaveTokens = true

structure LogoutFinal (s : Session) (e : Event) (s' : Session) : Prop where
  signedOut : 0 < s'.generation → s'.HoldsTokens → s'.LoggedInAgain
  -- what a request that was in flight at a logout comes to
  abandoned : ∀ g, s.startedIn e = some g → g ≠ s.generation →
    s'.succeeded e = false ∧ s'.currentTokens = s.currentTokens ∧ s'.storage.tokens = s.storage.tokens

/-- A code exchange that was in flight at a logout gives no tokens. -/
def Timely (cfg : SessionConfig) (s : Session) : Event → Prop
  | .exchangeRead id body now => ∀ x res, s.exchanges.get? id = some x → x.phase = .reading res →
      x.startedIn ≠ s.generation → ∃ message, x.result cfg res body now = .error message
  | _ => True

/-- A refresh of this generation has asked for tokens. -/
def Session.RefreshesNow (s : Session) : Prop :=
  ∃ id r, s.refreshes.get? id = some r ∧ r.startedIn = s.generation ∧ r.request.isSome = true

structure Session.Sound (s : Session) : Prop where
  past : ∀ id r, s.refreshes.get? id = some r → r.startedIn ≤ s.generation
  asked : ∀ id r, s.refreshes.get? id = some r → r.phase.isSettled = false → r.request.isSome = true
  origin : 0 < s.generation → s.HoldsTokens ∨ s.RefreshesNow → s.LoggedInAgain

variable {cfg : SessionConfig} {s s' : Session} {e : Event}

theorem Exchange.settled_of_gaveTokens {x : Exchange} (h : x.gaveTokens = true) : x.phase.isSettled = true := by
  unfold Exchange.gaveTokens at h
  split at h
  · rename_i hphase
    rw [hphase]
    rfl
  · cases h

theorem doRefresh_holdsTokens (h : s.doRefresh.request.isSome = true) : s.HoldsTokens := by
  unfold Session.doRefresh at h
  split at h
  · cases h
  · rename_i hbind
    obtain ⟨tokens, htoks, _⟩ := Option.bind_eq_some_iff.mp hbind
    exact .inl (by rw [htoks]; rfl)

theorem doRefresh_asked (h : s.doRefresh.phase.isSettled = false) : s.doRefresh.request.isSome = true := by
  unfold Session.doRefresh at h ⊢
  split at h
  · cases h
  · rfl

theorem doRefresh_startedIn (s : Session) : s.doRefresh.startedIn = s.generation := by
  unfold Session.doRefresh
  split
  · rfl
  · rfl

theorem sound_createSession (storage : Storage) (now : ℚ) : (createSession cfg storage now).Sound where
  past _ _ hget := by cases hget
  asked _ _ hget := by cases hget
  origin hlater := by cases hlater

/-! ## Where tokens come from -/

theorem loggedInAgain_of_happens (h : Happens cfg s e s') (hgen : s'.generation = s.generation)
    (hs : s.LoggedInAgain) : s'.LoggedInAgain := by
  obtain ⟨id, x, hget, hnow, hgave⟩ := hs
  exact ⟨id, x, h.exchange hget (Exchange.settled_of_gaveTokens hgave), hnow.trans hgen.symm, hgave⟩

theorem refreshesNow_of_happens (h : Happens cfg s e s') (hgen : s'.generation = s.generation)
    (hs' : s'.RefreshesNow) : s.HoldsTokens ∨ s.RefreshesNow := by
  obtain ⟨id, r', hget', hnow, hreq⟩ := hs'
  obtain ⟨r, hget, hsame, hsta, _⟩ | ⟨_, _, _, _, rfl⟩ := h.refresh hget'
  · refine .inr ⟨id, r, hget, ?_, hsame ▸ hreq⟩
    rw [← hsta, hnow, hgen]
  · exact .inl (doRefresh_holdsTokens hreq)

/-- Tokens were there before, or a refresh or an exchange of this generation has brought them. -/
theorem holdsTokens_of_happens (hsound : s.Sound) (htime : Timely cfg s e) (h : Happens cfg s e s')
    (hs' : s'.HoldsTokens) : (s.HoldsTokens ∨ s.RefreshesNow) ∨ s'.LoggedInAgain := by
  cases h with
  | quiet h =>
    unfold Session.HoldsTokens at hs'
    rw [h.currentTokens, h.stored] at hs'
    exact .inl (.inl hs')
  | exchanged hget hphase hres =>
    rename_i id _ _ x _ tokens
    by_cases hnow : x.startedIn = s.generation
    · exact .inr ⟨id, _, get?_setExchange (s := s.setTokens cfg tokens) hget, hnow, rfl⟩
    · obtain ⟨message, herror⟩ := htime _ _ hget hphase hnow
      cases hres.symm.trans herror
  | began | proceeded | finished => exact .inl (.inl hs')
  | rejected | loggedOut =>
    obtain hheld | hheld := hs'
    · cases hheld
    · cases hheld
  | refreshed hget hwaits hgen =>
    exact .inl (.inr ⟨_, _, hget, hgen.symm, hsound.asked _ _ hget hwaits⟩)

theorem Session.Sound.step (hsound : s.Sound) (htime : Timely cfg s e) (h : Happens cfg s e s') : s'.Sound where
  past id r' hget' := by
    have hle : s.generation ≤ s'.generation := by
      obtain hsame | rfl := h.generation
      · exact hsame.ge
      · exact Nat.le_succ _
    obtain ⟨r, hget, _, hsta, _⟩ | ⟨_, _, _, _, rfl⟩ := h.refresh hget'
    · rw [hsta]
      exact (hsound.past id r hget).trans hle
    · rw [doRefresh_startedIn]
      exact hle
  asked id r' hget' hwaits := by
    obtain ⟨r, hget, hsame, _, hset⟩ | ⟨_, _, _, _, rfl⟩ := h.refresh hget'
    · rw [hsame]
      refine hsound.asked id r hget (Bool.eq_false_iff.mpr fun hdone => ?_)
      cases (hset hdone).symm.trans hwaits
    · exact doRefresh_asked hwaits
  origin hlater hs' := by
    obtain hsame | hlog := h.generation
    · -- in one generation the callback that brought the tokens has succeeded before, or does so now
      have hbef : (s.HoldsTokens ∨ s.RefreshesNow) ∨ s'.LoggedInAgain := by
        obtain hheld | hnow := hs'
        · exact holdsTokens_of_happens hsound htime h hheld
        · exact .inl (refreshesNow_of_happens h hsame hnow)
      obtain hbef | hagain := hbef
      · exact loggedInAgain_of_happens h hsame (hsound.origin (hsame ▸ hlater) hbef)
      · exact hagain
    · -- a logout leaves no tokens, and every refresh is of an earlier generation
      subst hlog
      obtain (hheld | hheld) | ⟨id, r, hget, hnow, _⟩ := hs'
      · cases hheld
      · cases hheld
      · have hle := hsound.past id r hget
        rw [hnow] at hle
        exact absurd hle (Nat.not_succ_le_self _)

/-! ## Logout is final -/

theorem abandoned_of_happens (htime : Timely cfg s e) (h : Happens cfg s e s') {g}
    (hsta : s.startedIn e = some g) (hlate : g ≠ s.generation) :
    s'.succeeded e = false ∧ s'.currentTokens = s.currentTokens ∧ s'.storage.tokens = s.storage.tokens := by
  cases h with
  | quiet h hfails => exact ⟨hfails, h.currentTokens, h.stored⟩
  | exchanged hget hphase hres =>
    have hg := (congrArg (Option.map Exchange.startedIn) hget).symm.trans hsta
    cases hg
    obtain ⟨message, herror⟩ := htime _ _ hget hphase hlate
    cases hres.symm.trans herror
  | began | finished | loggedOut => cases hsta
  | proceeded _ _ hfails => exact ⟨hfails, rfl, rfl⟩
  | rejected hget _ hgen | refreshed hget _ hgen =>
    have hg := (congrArg (Option.map RefreshCall.startedIn) hget).symm.trans hsta
    cases hg
    exact absurd hgen.symm hlate

theorem timely_of_logoutFinal (hstep : s.step cfg e = some s') (hfinal : LogoutFinal s e s') : Timely cfg s e := by
  cases e with
  | exchangeRead id body now =>
    intro x res hget hphase hlate
    obtain ⟨hfails, _⟩ := hfinal.abandoned x.startedIn (congrArg (Option.map Exchange.startedIn) hget) hlate
    cases hres : x.result cfg res body now with
    | error message => exact ⟨message, rfl⟩
    | ok tokens =>
      obtain ⟨transaction, startedIn, phase⟩ := x
      cases hphase
      simp only [Session.step, hget, Session.exchangeRead, hres] at hstep
      cases hstep
      have hget' : ((s.setTokens cfg tokens).setExchange id (.settled (.ok tokens))).exchanges.get? id =
          some ⟨transaction, startedIn, .settled (.ok tokens)⟩ := get?_setExchange (s := s.setTokens cfg tokens) hget
      cases hfails.symm.trans (congrArg (Option.any Exchange.gaveTokens) hget')
  | _ => trivial

theorem logoutFinal_iff_timely (hsound : s.Sound) (hstep : s.step cfg e = some s') :
    LogoutFinal s e s' ↔ Timely cfg s e := by
  refine ⟨timely_of_logoutFinal hstep, fun htime => ?_⟩
  have h := happens_of_step hstep
  exact ⟨fun hlater hheld => (hsound.step htime h).origin hlater (.inl hheld),
    fun _ => abandoned_of_happens htime h⟩

/-- In every run of a session logout is final exactly when no code exchange that was in flight at a logout gives
tokens. -/
theorem logout_final_iff {storage : Storage} {now : ℚ} {es : List Event} {s : Session}
    (hrun : es.foldlM (Session.step cfg) (createSession cfg storage now) = some s) :
    (∀ pre e post s₁ s₂, es = pre ++ e :: post →
        pre.foldlM (Session.step cfg) (createSession cfg storage now) = some s₁ → s₁.step cfg e = some s₂ →
        LogoutFinal s₁ e s₂) ↔
      ∀ pre e post s₁, es = pre ++ e :: post →
        pre.foldlM (Session.step cfg) (createSession cfg storage now) = some s₁ → Timely cfg s₁ e := by
  have hstep : ∀ s₁ e s₂, s₁.Sound → s₁.step cfg e = some s₂ → (LogoutFinal s₁ e s₂ ↔ Timely cfg s₁ e) :=
    fun _ _ _ => logoutFinal_iff_timely
  have hkeep : ∀ s₁ e s₂, s₁.Sound → Timely cfg s₁ e → s₁.step cfg e = some s₂ → s₂.Sound :=
    fun _ _ _ hsound htime h => hsound.step htime (happens_of_step h)
  exact Runs.foldlM_steps_iff (sound_createSession storage now) hstep hkeep es hrun

/-- The logout comes while the response of the exchange is being read. -/
theorem signingIn_survivesLogout : ∃ s s',
    (signingIn 0 "code" ++ [Event.logout]).foldlM (Session.step webApp) newTab = some s ∧
      s.step webApp (exchangeAnswered 1 "refresh") = some s' ∧ ¬ s.HoldsTokens ∧ s'.HoldsTokens ∧
      s'.currentTokens.map TokenSet.accessToken = some "access" ∧ ¬ LogoutFinal s (exchangeAnswered 1 "refresh") s' := by
  refine ⟨_, _, rfl, rfl, ?_, .inl rfl, rfl, fun h => ?_⟩
  · rintro (h | h)
    · cases h
    · cases h
  · obtain ⟨hfails, _⟩ := h.abandoned 0 rfl (by decide)
    cases hfails

def signedInAndOut : List Event := signingIn 0 "code" ++ [exchangeAnswered 1 "refresh", .logout]

theorem logout_final_signedIn : ∃ s, signedInAndOut.foldlM (Session.step webApp) newTab = some s ∧ ¬ s.HoldsTokens ∧
      ((∀ pre e post s₁ s₂, signedInAndOut = pre ++ e :: post →
          pre.foldlM (Session.step webApp) newTab = some s₁ → s₁.step webApp e = some s₂ → LogoutFinal s₁ e s₂) ↔
        ∀ pre e post s₁, signedInAndOut = pre ++ e :: post →
          pre.foldlM (Session.step webApp) newTab = some s₁ → Timely webApp s₁ e) := by
  refine ⟨_, rfl, ?_, logout_final_iff (s := _) rfl⟩
  rintro (h | h)
  · cases h
  · cases h

end Kiban.Web
