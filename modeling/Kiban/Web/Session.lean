import Kiban.Lib.JavaScript
import Mathlib.Data.Rat.Defs

/-!
# The browser session of the web SDK

`createSession` keeps the tokens of one browser session.  A call runs at once up to its first `await`, and goes on when
what it waits for has settled; each such piece is an event, and events come in any order: a fetch settles, a body is
read, and the callback of `finally` runs some time after its promise has settled.

A promise is the number of the call it stands for.  A text in the storage is what it decodes to, and an empty one is
none.  The URLs that `login` and `logout` navigate to are left out.
-/

namespace Kiban.Web

open Keyed.Table

open JavaScript (truthy)

abbrev CallId := Nat

/-! ## Tokens -/

structure TokenSet where
  accessToken : String
  (refreshToken idToken : Option String)
  expiresAt : ℚ
deriving DecidableEq

structure OidcTransaction where
  (verifier state nonce redirectUri : String)

inductive Stored (α : Type) where
  | junk
  | item (a : α)

structure Storage where
  transaction : Option (Stored OidcTransaction)
  tokens : Option (Stored TokenSet)

structure SessionConfig where
  redirectUri : String
  persistTokens : Bool
  -- the nonce claim of an ID token
  decodeIdTokenNonce : String → Option String

def clockSkewMs : ℚ := 30000

def isNotExpired (expiresAt now : ℚ) : Bool := now - clockSkewMs < expiresAt

def isUsable (tokens : TokenSet) (now : ℚ) : Bool :=
  isNotExpired tokens.expiresAt now ∨ tokens.refreshToken.isSome

/-! ## Responses -/

structure Response where
  ok : Bool
  status : Nat
  statusText : String

structure TokenResponseBody where
  (accessToken refreshToken idToken : Option String)
  expiresIn : Option ℚ
  (error errorDescription : Option String)

def mapTokenResponse (accessToken : String) (body : TokenResponseBody) (previousRefreshToken : Option String)
    (now : ℚ) : TokenSet where
  accessToken := accessToken
  refreshToken := body.refreshToken.or previousRefreshToken
  idToken := body.idToken
  expiresAt := now + body.expiresIn.getD 300 * 1000

/-- The tokens of a response that has them; a body that is no JSON is none. -/
def tokensOf (res : Response) (body : Option TokenResponseBody) (previousRefreshToken : Option String) (now : ℚ) :
    Option TokenSet :=
  if res.ok then
    body.bind fun body => (truthy body.accessToken).map fun accessToken =>
      mapTokenResponse accessToken body previousRefreshToken now
  else none

/-! ## Calls that wait -/

inductive Phase (α : Type) where
  | fetching
  | reading (res : Response)
  | settled (result : α)

def Phase.isSettled {α : Type} : Phase α → Bool
  | .settled _ => true
  | _ => false

structure Exchange where
  transaction : Option OidcTransaction
  -- the generation it began in, which the code does not look at
  startedIn : Nat
  phase : Phase (Except String TokenSet)

/-- A run of `doRefresh` and the `finally` after it. -/
structure RefreshCall where
  -- the refresh token of its request
  request : Option String
  startedIn : Nat
  phase : Phase (Option String)
  finished : Bool

structure Session where
  currentTokens : Option TokenSet
  storage : Storage
  refreshInFlight : Option CallId
  generation : Nat
  processedCodes : Keyed.Table String CallId
  -- the verifiers of the calls of `buildLoginUrl` that wait for their challenge
  logins : Keyed.Table CallId String
  exchanges : Keyed.Table CallId Exchange
  refreshes : Keyed.Table CallId RefreshCall
  calls : Nat

section Calls

variable (cfg : SessionConfig)

def hydrateTokens (storage : Storage) (now : ℚ) : Option TokenSet × Storage :=
  if cfg.persistTokens then
    match storage.tokens with
    | none => (none, storage)
    | some .junk => (none, { storage with tokens := none })
    | some (.item tokens) =>
      if tokens.accessToken ≠ "" ∧ isUsable tokens now then (some tokens, storage)
      else (none, { storage with tokens := none })
  else (none, storage)

def createSession (storage : Storage) (now : ℚ) : Session where
  currentTokens := (hydrateTokens cfg storage now).1
  storage := (hydrateTokens cfg storage now).2
  refreshInFlight := none
  generation := 0
  processedCodes := .empty
  logins := .empty
  exchanges := .empty
  refreshes := .empty
  calls := 0

def Session.setTokens (s : Session) (tokens : TokenSet) : Session :=
  { s with
    currentTokens := some tokens
    storage := if cfg.persistTokens then { s.storage with tokens := some (.item tokens) } else s.storage }

def Session.clearTokens (s : Session) : Session :=
  { s with currentTokens := none, storage := { s.storage with tokens := none } }

def Session.removeTransaction (s : Session) : Session :=
  { s with storage := { s.storage with transaction := none } }

def Session.buildLoginUrl (s : Session) (verifier : String) : Session :=
  { s with logins := s.logins.insertMissing s.calls verifier, calls := s.calls + 1 }

/-- The challenge is there: `state` and `nonce` are new random tokens. -/
def Session.recordTransaction (s : Session) (id : CallId) (verifier state nonce : String) : Session :=
  { s with
    storage := { s.storage with transaction := some (.item ⟨verifier, state, nonce, cfg.redirectUri⟩) }
    logins := s.logins.erase id }

/-- `exchangeCode` up to its request. -/
def Session.exchangeCode (s : Session) (state : String) : Session × Exchange :=
  match s.storage.transaction with
  | none =>
    (s, ⟨none, s.generation, .settled (.error
      "No pending OIDC transaction found — handleCallback() was invoked without a matching login(), or the transaction storage was cleared")⟩)
  | some .junk => (s, ⟨none, s.generation, .settled (.error "SyntaxError")⟩)
  | some (.item transaction) =>
    if transaction.state ≠ state then
      (s.removeTransaction, ⟨none, s.generation, .settled (.error
        "OIDC state mismatch (possible CSRF or a stale transaction)")⟩)
    else (s, ⟨some transaction, s.generation, .fetching⟩)

structure CallbackParams where
  (error errorDescription code state : Option String)

def Session.handleCallback (s : Session) (params : CallbackParams) : Session × Except String CallId :=
  match truthy params.error with
  | some error =>
    (s, .error ("OIDC callback returned an error: " ++ error ++ " (" ++ params.errorDescription.getD "" ++ ")"))
  | none =>
    match truthy params.code, truthy params.state with
    | some code, some state =>
      match s.processedCodes.get? code with
      | some existing => (s, .ok existing)
      | none =>
        let (s, exchange) := s.exchangeCode state
        ({ s with
            exchanges := s.exchanges.insertMissing s.calls exchange
            processedCodes := s.processedCodes.insertMissing code s.calls
            calls := s.calls + 1 }, .ok s.calls)
    | _, _ => (s, .error "OIDC callback URL is missing code and/or state")

def Session.setExchange (s : Session) (id : CallId) (phase : Phase (Except String TokenSet)) : Session :=
  { s with exchanges := s.exchanges.modify id fun e => { e with phase } }

/-- The token request of an exchange has settled; `none` is a network failure. -/
def Session.exchangeFetched (s : Session) (id : CallId) : Option Response → Session
  | none => s.setExchange id (.settled (.error "TypeError: Failed to fetch"))
  | some res => s.removeTransaction.setExchange id (.reading res)

def Exchange.result (e : Exchange) (res : Response) (body : Option TokenResponseBody) (now : ℚ) :
    Except String TokenSet :=
  match tokensOf res body none now with
  | none =>
    .error ("OIDC code exchange failed (" ++ toString res.status ++ "): " ++
      ((body.bind (·.errorDescription)).or (body.bind (·.error))).getD res.statusText)
  | some tokens =>
    match truthy tokens.idToken with
    | some idToken =>
      if cfg.decodeIdTokenNonce idToken ≠ e.transaction.map OidcTransaction.nonce then
        .error "OIDC nonce mismatch (ID token does not match the login transaction — possible replay/CSRF)"
      else .ok tokens
    | none => .ok tokens

def Session.exchangeRead (s : Session) (id : CallId) (e : Exchange) (res : Response)
    (body : Option TokenResponseBody) (now : ℚ) : Session :=
  match e.result cfg res body now with
  | .error message => s.setExchange id (.settled (.error message))
  | .ok tokens => (s.setTokens cfg tokens).setExchange id (.settled (.ok tokens))

/-- `doRefresh` up to its request. -/
def Session.doRefresh (s : Session) : RefreshCall :=
  match s.currentTokens.bind fun tokens => truthy tokens.refreshToken with
  | none => ⟨none, s.generation, .settled none, false⟩
  | some refreshToken => ⟨some refreshToken, s.generation, .fetching, false⟩

/-- The session afterwards, and the call whose promise is returned. -/
def Session.refresh (s : Session) : Session × CallId :=
  match s.refreshInFlight with
  | some id => (s, id)
  | none =>
    ({ s with
        refreshes := s.refreshes.insertMissing s.calls s.doRefresh
        refreshInFlight := some s.calls
        calls := s.calls + 1 }, s.calls)

def Session.setRefresh (s : Session) (id : CallId) (phase : Phase (Option String)) : Session :=
  { s with refreshes := s.refreshes.modify id fun r => { r with phase } }

def Session.refreshFetched (s : Session) (id : CallId) : Option Response → Session
  | none => s.setRefresh id (.settled none)
  | some res => s.setRefresh id (.reading res)

def Session.refreshRead (s : Session) (id : CallId) (r : RefreshCall) (res : Response)
    (body : Option TokenResponseBody) (now : ℚ) : Session :=
  if s.generation ≠ r.startedIn then s.setRefresh id (.settled none)
  else
    match tokensOf res body r.request now with
    | none => s.clearTokens.setRefresh id (.settled none)
    | some next => (s.setTokens cfg next).setRefresh id (.settled (some next.accessToken))

def Session.refreshFinally (s : Session) (id : CallId) : Session :=
  { s with
    refreshes := s.refreshes.modify id fun r => { r with finished := true }
    refreshInFlight := none }

def Session.logout (s : Session) : Session :=
  { ({ s with generation := s.generation + 1, refreshInFlight := none }).clearTokens.removeTransaction with
    processedCodes := .empty }

/-! ## Events -/

inductive Event where
  | buildLoginUrl (verifier : String)
  -- the challenge of a login has been computed, or not
  | challenged (id : CallId) (ok : Bool) (state nonce : String)
  | handleCallback (params : CallbackParams)
  | exchangeFetched (id : CallId) (res : Option Response)
  | exchangeRead (id : CallId) (body : Option TokenResponseBody) (now : ℚ)
  | refresh
  | refreshFetched (id : CallId) (res : Option Response)
  | refreshRead (id : CallId) (body : Option TokenResponseBody) (now : ℚ)
  | refreshFinally (id : CallId)
  | logout

/-- An event that does not fit what the call waits for does not happen. -/
def Session.step (s : Session) : Event → Option Session
  | .buildLoginUrl verifier => some (s.buildLoginUrl verifier)
  | .challenged id ok state nonce =>
    (s.logins.get? id).map fun verifier =>
      if ok then s.recordTransaction cfg id verifier state nonce else { s with logins := s.logins.erase id }
  | .handleCallback params => some (s.handleCallback params).1
  | .exchangeFetched id res =>
    match s.exchanges.get? id with
    | some ⟨_, _, .fetching⟩ => some (s.exchangeFetched id res)
    | _ => none
  | .exchangeRead id body now =>
    match s.exchanges.get? id with
    | some ⟨transaction, startedIn, .reading res⟩ =>
      some (s.exchangeRead cfg id ⟨transaction, startedIn, .reading res⟩ res body now)
    | _ => none
  | .refresh => some s.refresh.1
  | .refreshFetched id res =>
    match s.refreshes.get? id with
    | some ⟨_, _, .fetching, _⟩ => some (s.refreshFetched id res)
    | _ => none
  | .refreshRead id body now =>
    match s.refreshes.get? id with
    | some ⟨request, startedIn, .reading res, finished⟩ =>
      some (s.refreshRead cfg id ⟨request, startedIn, .reading res, finished⟩ res body now)
    | _ => none
  | .refreshFinally id =>
    match s.refreshes.get? id with
    | some ⟨_, _, .settled _, false⟩ => some (s.refreshFinally id)
    | _ => none
  | .logout => some s.logout

end Calls

def Session.startedIn (s : Session) : Event → Option Nat
  | .exchangeFetched id _ => (s.exchanges.get? id).map Exchange.startedIn
  | .exchangeRead id _ _ => (s.exchanges.get? id).map Exchange.startedIn
  | .refreshFetched id _ => (s.refreshes.get? id).map RefreshCall.startedIn
  | .refreshRead id _ _ => (s.refreshes.get? id).map RefreshCall.startedIn
  | _ => none

def Exchange.gaveTokens (x : Exchange) : Bool :=
  match x.phase with
  | .settled (.ok _) => true
  | _ => false

def RefreshCall.gaveTokens (r : RefreshCall) : Bool :=
  match r.phase with
  | .settled (some _) => true
  | _ => false

/-- The call that an event lets go on has settled with tokens. -/
def Session.succeeded (s : Session) : Event → Bool
  | .exchangeFetched id _ => (s.exchanges.get? id).any Exchange.gaveTokens
  | .exchangeRead id _ _ => (s.exchanges.get? id).any Exchange.gaveTokens
  | .refreshFetched id _ => (s.refreshes.get? id).any RefreshCall.gaveTokens
  | .refreshRead id _ _ => (s.refreshes.get? id).any RefreshCall.gaveTokens
  | _ => false

/-! ## What an event does -/

/-- Nothing happens to the tokens and the refresh calls, and the exchanges that have settled stay. -/
structure Session.Quiet (s s' : Session) : Prop where
  currentTokens : s'.currentTokens = s.currentTokens
  stored : s'.storage.tokens = s.storage.tokens
  refreshInFlight : s'.refreshInFlight = s.refreshInFlight
  generation : s'.generation = s.generation
  refreshes : s'.refreshes = s.refreshes
  calls : s.calls ≤ s'.calls
  exchange : ∀ id x, s.exchanges.get? id = some x → x.phase.isSettled = true → s'.exchanges.get? id = some x

inductive Happens (cfg : SessionConfig) (s : Session) : Event → Session → Prop
  | quiet {e : Event} {s' : Session} (h : s.Quiet s') (hfails : s'.succeeded e = false) : Happens cfg s e s'
  | exchanged {id : CallId} {body : Option TokenResponseBody} {now : ℚ} {x : Exchange} {res : Response}
      {tokens : TokenSet} (hget : s.exchanges.get? id = some x) (hphase : x.phase = .reading res)
      (hresult : x.result cfg res body now = .ok tokens) :
      Happens cfg s (.exchangeRead id body now) ((s.setTokens cfg tokens).setExchange id (.settled (.ok tokens)))
  | began (hfree : s.refreshInFlight = none) : Happens cfg s .refresh
      { s with
        refreshes := s.refreshes.insertMissing s.calls s.doRefresh
        refreshInFlight := some s.calls
        calls := s.calls + 1 }
  -- its response has come, or there is nothing in it for this session
  | proceeded {e : Event} {id : CallId} {r : RefreshCall} {phase : Phase (Option String)}
      (hget : s.refreshes.get? id = some r) (hwaits : r.phase.isSettled = false)
      (hfails : (s.setRefresh id phase).succeeded e = false) : Happens cfg s e (s.setRefresh id phase)
  | rejected {id : CallId} {body : Option TokenResponseBody} {now : ℚ} {r : RefreshCall}
      (hget : s.refreshes.get? id = some r) (hwaits : r.phase.isSettled = false)
      (hgeneration : s.generation = r.startedIn) :
      Happens cfg s (.refreshRead id body now) (s.clearTokens.setRefresh id (.settled none))
  | refreshed {id : CallId} {body : Option TokenResponseBody} {now : ℚ} {r : RefreshCall} {res : Response}
      {tokens : TokenSet} (hget : s.refreshes.get? id = some r) (hwaits : r.phase.isSettled = false)
      (hgeneration : s.generation = r.startedIn) (htokens : tokensOf res body r.request now = some tokens) :
      Happens cfg s (.refreshRead id body now)
        ((s.setTokens cfg tokens).setRefresh id (.settled (some tokens.accessToken)))
  | finished {id : CallId} {r : RefreshCall} (hget : s.refreshes.get? id = some r)
      (hsettled : r.phase.isSettled = true) : Happens cfg s (.refreshFinally id) (s.refreshFinally id)
  | loggedOut : Happens cfg s .logout s.logout

section Steps

variable {cfg : SessionConfig} {s s' : Session} {e : Event} {id : CallId}
  {x : Exchange} {phase : Phase (Option String)} {id' : CallId} {r r' : RefreshCall} {res : Response}

theorem Session.Quiet.refl (s : Session) : s.Quiet s :=
  ⟨rfl, rfl, rfl, rfl, rfl, le_refl _, fun _ _ hget _ => hget⟩

theorem exchange_setExchange {x' phase} (hget' : s.exchanges.get? id' = some x')
    (hwaits : x'.phase.isSettled = false) (hget : s.exchanges.get? id = some x)
    (hset : x.phase.isSettled = true) :
    (s.setExchange id' phase).exchanges.get? id = some x := by
  have hne : id ≠ id' := by
    rintro rfl
    cases hget.symm.trans hget'
    cases hset.symm.trans hwaits
  exact (get?_modify _ id).trans ((if_neg hne).trans hget)

theorem get?_setExchange {phase} (hget : s.exchanges.get? id = some x) :
    (s.setExchange id phase).exchanges.get? id = some { x with phase } := by
  refine (get?_modify _ id).trans ?_
  rw [if_pos rfl, hget]
  rfl

theorem get?_setRefresh (hget : s.refreshes.get? id = some r) :
    (s.setRefresh id phase).refreshes.get? id = some { r with phase } := by
  refine (get?_modify _ id).trans ?_
  rw [if_pos rfl, hget]
  rfl

theorem exchangeCode_quiet (s : Session) (state : String) :
    (s.exchangeCode state).1 = s ∨ (s.exchangeCode state).1 = s.removeTransaction := by
  unfold Session.exchangeCode
  split
  · exact .inl rfl
  · exact .inl rfl
  · split
    · exact .inr rfl
    · exact .inl rfl

theorem handleCallback_quiet (s : Session) (params : CallbackParams) : s.Quiet (s.handleCallback params).1 := by
  unfold Session.handleCallback
  split
  · exact .refl s
  split
  · split
    · exact .refl s
    rename_i state _ _ _ _
    dsimp only
    obtain hsame | hsame := exchangeCode_quiet s state
    · rw [hsame]
      exact ⟨rfl, rfl, rfl, rfl, rfl, Nat.le_succ _, fun _ _ hget _ =>
        get?_insertMissing_of_some hget _ _⟩
    · rw [hsame]
      exact ⟨rfl, rfl, rfl, rfl, rfl, Nat.le_succ _, fun _ _ hget _ =>
        get?_insertMissing_of_some hget _ _⟩
  · exact .refl s

theorem happens_of_exchangeFetched (hget : s.exchanges.get? id = some x)
    (hphase : x.phase = .fetching) (res : Option Response) :
    Happens cfg s (.exchangeFetched id res) (s.exchangeFetched id res) := by
  have hwaits : x.phase.isSettled = false := by rw [hphase]; rfl
  cases res with
  | none =>
    refine .quiet ⟨rfl, rfl, rfl, rfl, rfl, le_refl _, fun _ _ => exchange_setExchange hget hwaits⟩ ?_
    exact congrArg (Option.any Exchange.gaveTokens) (get?_setExchange hget)
  | some res =>
    refine .quiet ⟨rfl, rfl, rfl, rfl, rfl, le_refl _, fun _ _ =>
      exchange_setExchange (s := s.removeTransaction) hget hwaits⟩ ?_
    exact congrArg (Option.any Exchange.gaveTokens) (get?_setExchange (s := s.removeTransaction) hget)

theorem happens_of_exchangeRead (hget : s.exchanges.get? id = some x)
    (hphase : x.phase = .reading res) (body : Option TokenResponseBody) (now : ℚ) :
    Happens cfg s (.exchangeRead id body now) (s.exchangeRead cfg id x res body now) := by
  have hwaits : x.phase.isSettled = false := by rw [hphase]; rfl
  unfold Session.exchangeRead
  split
  · refine .quiet ⟨rfl, rfl, rfl, rfl, rfl, le_refl _, fun _ _ => exchange_setExchange hget hwaits⟩ ?_
    exact congrArg (Option.any Exchange.gaveTokens) (get?_setExchange hget)
  · rename_i hres
    exact .exchanged hget hphase hres

theorem happens_of_refreshFetched (hget : s.refreshes.get? id = some r)
    (hphase : r.phase = .fetching) (res : Option Response) :
    Happens cfg s (.refreshFetched id res) (s.refreshFetched id res) := by
  have hwaits : r.phase.isSettled = false := by rw [hphase]; rfl
  cases res with
  | none
  | some res => exact .proceeded hget hwaits (congrArg (Option.any RefreshCall.gaveTokens) (get?_setRefresh hget))

theorem happens_of_refreshRead (hget : s.refreshes.get? id = some r)
    (hphase : r.phase = .reading res) (body : Option TokenResponseBody) (now : ℚ) :
    Happens cfg s (.refreshRead id body now) (s.refreshRead cfg id r res body now) := by
  have hwaits : r.phase.isSettled = false := by rw [hphase]; rfl
  unfold Session.refreshRead
  split
  · exact .proceeded hget hwaits (congrArg (Option.any RefreshCall.gaveTokens) (get?_setRefresh hget))
  rename_i hgen
  split
  · exact .rejected hget hwaits (not_not.mp hgen)
  · rename_i htoks
    exact .refreshed hget hwaits (not_not.mp hgen) htoks

theorem happens_of_step (h : s.step cfg e = some s') : Happens cfg s e s' := by
  cases e with
  | buildLoginUrl verifier =>
    cases h
    exact .quiet ⟨rfl, rfl, rfl, rfl, rfl, Nat.le_succ _, fun _ _ hget _ => hget⟩ rfl
  | challenged id ok state nonce =>
    obtain ⟨verifier, _, rfl⟩ := Option.map_eq_some_iff.mp h
    cases ok with
    | true => exact .quiet ⟨rfl, rfl, rfl, rfl, rfl, le_refl _, fun _ _ hget _ => hget⟩ rfl
    | false => exact .quiet ⟨rfl, rfl, rfl, rfl, rfl, le_refl _, fun _ _ hget _ => hget⟩ rfl
  | handleCallback params =>
    cases h
    exact .quiet (handleCallback_quiet s params) rfl
  | exchangeFetched id res =>
    simp only [Session.step] at h
    split at h
    · rename_i hget
      cases h
      exact happens_of_exchangeFetched hget rfl res
    · cases h
  | exchangeRead id body now =>
    simp only [Session.step] at h
    split at h
    · rename_i hget
      cases h
      exact happens_of_exchangeRead hget rfl body now
    · cases h
  | refresh =>
    cases h
    unfold Session.refresh
    split
    · exact .quiet (.refl s) rfl
    · rename_i hfree
      exact .began hfree
  | refreshFetched id res =>
    simp only [Session.step] at h
    split at h
    · rename_i hget
      cases h
      exact happens_of_refreshFetched hget rfl res
    · cases h
  | refreshRead id body now =>
    simp only [Session.step] at h
    split at h
    · rename_i hget
      cases h
      exact happens_of_refreshRead hget rfl body now
    · cases h
  | refreshFinally id =>
    simp only [Session.step] at h
    split at h
    · rename_i hget
      cases h
      exact .finished hget rfl
    · cases h
  | logout =>
    cases h
    exact .loggedOut

/-! ## Refresh calls -/

/-- A refresh call keeps the request it began with, and once it has settled it stays so. -/
def RefreshCall.Goes (r r' : RefreshCall) : Prop :=
  r'.request = r.request ∧ r'.startedIn = r.startedIn ∧ (r.phase.isSettled = true → r'.phase.isSettled = true)

theorem RefreshCall.goes_refl (r : RefreshCall) : r.Goes r := ⟨rfl, rfl, fun h => h⟩

theorem goes_setRefresh {r₀} (hget : s.refreshes.get? id' = some r₀)
    (hwaits : r₀.phase.isSettled = false) (h : (s.setRefresh id' phase).refreshes.get? id = some r') :
    ∃ r, s.refreshes.get? id = some r ∧ r.Goes r' := by
  replace h := (get?_modify _ id).symm.trans h
  split at h
  · rename_i heq
    obtain ⟨r, hr, rfl⟩ := Option.map_eq_some_iff.mp h
    cases hget.symm.trans hr
    exact ⟨r₀, heq ▸ hget, rfl, rfl, fun hset => absurd hset (by rw [hwaits]; simp)⟩
  · exact ⟨r', h, r'.goes_refl⟩

theorem Happens.refresh (h : Happens cfg s e s') (hget' : s'.refreshes.get? id = some r') :
    (∃ r, s.refreshes.get? id = some r ∧ r.Goes r') ∨
      (e = .refresh ∧ s.refreshInFlight = none ∧ s'.refreshInFlight = some id ∧ id = s.calls ∧ r' = s.doRefresh) := by
  cases h with
  | quiet h =>
    rw [h.refreshes] at hget'
    exact .inl ⟨r', hget', r'.goes_refl⟩
  | exchanged | loggedOut => exact .inl ⟨r', hget', r'.goes_refl⟩
  | began hfree =>
    replace hget' := (get?_insertMissing _ id).symm.trans hget'
    split at hget'
    · rename_i hid
      cases hold : s.refreshes.get? s.calls with
      | none =>
        rw [hold] at hget'
        exact .inr ⟨rfl, hfree, congrArg some hid.symm, hid, (Option.some.inj hget').symm⟩
      | some r =>
        rw [hold] at hget'
        cases hget'
        exact .inl ⟨r, hid ▸ hold, r.goes_refl⟩
    · exact .inl ⟨r', hget', r'.goes_refl⟩
  | proceeded hget hwaits => exact .inl (goes_setRefresh hget hwaits hget')
  | rejected hget hwaits => exact .inl (goes_setRefresh (s := s.clearTokens) hget hwaits hget')
  | refreshed hget hwaits => exact .inl (goes_setRefresh (s := s.setTokens cfg _) hget hwaits hget')
  | finished =>
    replace hget' := (get?_modify _ id).symm.trans hget'
    split at hget'
    · rename_i heq
      obtain ⟨r, hr, rfl⟩ := Option.map_eq_some_iff.mp hget'
      exact .inl ⟨r, heq ▸ hr, rfl, rfl, fun hset => hset⟩
    · exact .inl ⟨r', hget', r'.goes_refl⟩

theorem Happens.generation (h : Happens cfg s e s') : s'.generation = s.generation ∨ s' = s.logout := by
  cases h with
  | quiet h => exact .inl h.generation
  | loggedOut => exact .inr rfl
  | exchanged | began | proceeded | rejected | refreshed | finished => exact .inl rfl

theorem Happens.exchange (h : Happens cfg s e s') (hget : s.exchanges.get? id = some x)
    (hset : x.phase.isSettled = true) : s'.exchanges.get? id = some x := by
  cases h with
  | quiet h => exact h.exchange id x hget hset
  | exchanged hget' hphase =>
    exact exchange_setExchange (s := s.setTokens cfg _) hget' (by rw [hphase]; rfl) hget hset
  | began | proceeded | rejected | refreshed | finished | loggedOut => exact hget

end Steps

/-! ## A login -/

def webApp : SessionConfig where
  redirectUri := "https://shell.example/callback"
  persistTokens := true
  decodeIdTokenNonce _ := none

def newTab : Session := createSession webApp ⟨none, none⟩ 0

/-- A login as call `id` and its code exchange as the next one, up to the response. -/
def signingIn (id : CallId) (code : String) : List Event :=
  [.buildLoginUrl "verifier", .challenged id true "state" "nonce",
    .handleCallback ⟨none, none, some code, some "state"⟩, .exchangeFetched (id + 1) (some ⟨true, 200, "OK"⟩)]

def exchangeAnswered (id : CallId) (refreshToken : String) : Event :=
  .exchangeRead id (some ⟨some "access", some refreshToken, none, some 300, none, none⟩) 0

end Kiban.Web
