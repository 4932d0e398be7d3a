import Kiban.Lib.ServeMux

/-!
# Keycloak behind the edge

The gateway forwards `/auth/` to Keycloak, and keeps the admin console and the master realm away from it with patterns
of their own.  The patterns are matched against the encoded segments of the path.  The proxy forwards the path as it is
decoded.
-/

namespace Kiban.Gateway

open PercentPath ServeMux List Option

/-- A request to the edge; its path on the wire is a slash and `tail`. -/
structure Request where
  method : String
  tail : Bytes
  deriving DecidableEq

variable (r : Request)

/-- `URL.Path`; the server refuses a request whose path does not decode. -/
def Request.path? : Option Bytes := unescape (slash :: r.tail)

def Request.escaped : Bytes := escapedPath (slash :: r.tail) (r.path?.getD [])

theorem Request.escaped_rooted {r : Request} {path : Bytes} (h : r.path? = some path) :
    ∃ rest, r.escaped = slash :: rest := by
  rw [Request.escaped, h, getD_some]
  exact escapedPath_rooted h

theorem Request.join_spelling {r : Request} {path : Bytes} (h : r.path? = some path) :
    join (spelling r.escaped) = path := by
  obtain ⟨rest, hrest⟩ := r.escaped_rooted h
  have hdec : unescape r.escaped = some path := by
    rw [Request.escaped, h, getD_some]
    exact unescape_escapedPath h
  rw [hrest] at hdec ⊢
  exact ServeMux.join_spelling hdec

/-! ## The routes -/

inductive Handler where
  | moduleProxy
  | writeInternalNotFound
  | authProxy
  | verbatimProxy
  | static
  deriving DecidableEq

def exactly (segs : List String) (handler : Handler) : Pattern Handler :=
  ⟨none, segs.map fun s => .lit (ascii s), handler⟩

def subtree (segs : List String) (handler : Handler) : Pattern Handler :=
  ⟨none, (segs.map fun s => .lit (ascii s)) ++ [.multi], handler⟩

/-- The patterns without a method.  Those with one all begin with `/api/`. -/
def routes : List (Pattern Handler) :=
  [⟨none, [.lit (ascii "api"), .wild], .moduleProxy⟩, ⟨none, [.lit (ascii "api"), .wild, .multi], .moduleProxy⟩,
    subtree ["internal"] .writeInternalNotFound,
    subtree ["auth"] .authProxy,
    exactly ["auth", "admin"] .writeInternalNotFound,
    subtree ["auth", "admin"] .writeInternalNotFound,
    exactly ["auth", "realms", "master"] .writeInternalNotFound,
    subtree ["auth", "realms", "master"] .writeInternalNotFound,
    exactly ["realms", "master"] .writeInternalNotFound,
    subtree ["realms", "master"] .writeInternalNotFound,
    subtree ["resources"] .verbatimProxy,
    subtree ["realms"] .verbatimProxy,
    subtree [] .static]

/-! ## The proxy -/

def trim (pre p : Bytes) : Bytes := (p.dropPrefix? pre).getD p

/-- The path `newKeycloakProxy` puts into the request for Keycloak. -/
def stripAuth (path : Bytes) : Bytes :=
  let rest := trim (ascii "/auth") path
  if rest = [] then [slash] else rest

/-- The path on the wire to Keycloak of a request that `/auth/` forwards.  `RawPath` is cleared, so it is
the encoding of the decoded path. -/
def forwarded : Option Bytes :=
  r.path?.bind fun path =>
    match serve routes r.method r.escaped with
    | .handled .authProxy _ => some (escape keepInPath (stripAuth path))
    | _ => none

theorem stripAuth_join (d : Bytes) (ds : List Bytes) :
    stripAuth (join (ascii "auth" :: d :: ds)) = join (d :: ds) := by
  have htrim : trim (ascii "/auth") (join (ascii "auth" :: d :: ds)) = join (d :: ds) := by
    change ((ascii "/auth" ++ join (d :: ds)).dropPrefix? (ascii "/auth")).getD _ = _
    rw [dropPrefix?_append_of_beq _ (BEq.refl _), getD_some]
  rw [stripAuth, htrim]
  exact if_neg (cons_ne_nil _ _)

/-! ## The operators' surfaces -/

/-- Keycloak's admin console and its master realm. -/
def surfaces : List (List Bytes) := [[ascii "admin"], [ascii "realms", ascii "master"]]

def onSurface (ds : List Bytes) : Bool := surfaces.any fun surface => surface.isPrefixOf ds

/-- The path on the wire leads to one, once it is decoded and its dots are followed. -/
def exposes (wire : Bytes) : Bool := (unescape wire).any fun path => onSurface (resolve (parts path))

theorem onSurface_iff {ds} : onSurface ds = true ↔ ds.head? = some (ascii "admin") ∨
        ds.head? = some (ascii "realms") ∧ ds.tail.head? = some (ascii "master") := by
  match ds with
  | [] => decide
  | [d] => simp [onSurface, surfaces, cons_prefix_cons, @eq_comm _ d]
  | d :: d' :: ds => simp [onSurface, surfaces, cons_prefix_cons, @eq_comm _ d, @eq_comm _ d']

theorem onSurface_markEnd (ds : List Bytes) : onSurface (markEnd ds) = onSurface ds := by
  rw [Bool.eq_iff_iff, onSurface_iff, onSurface_iff]
  cases ds with
  | nil => rfl
  | cons d ds =>
    rw [tail_markEnd, head?_markEnd (by decide) (by decide), head?_markEnd (by decide) (by decide),
      head?_markEnd (by decide) (by decide), tail_cons]

theorem onSurface_cons {d ds} : onSurface (d :: ds) = true ↔
      d = ascii "admin" ∨ d = ascii "realms" ∧ ds.head? = some (ascii "master") := by
  rw [onSurface_iff, head?_cons, tail_cons, some_inj, some_inj]

/-- What the patterns under `/auth` have left after it. -/
def authNode : List (List Seg × Pattern Handler) :=
  [([.multi], subtree ["auth"] .authProxy),
    ([.lit (ascii "admin")], exactly ["auth", "admin"] .writeInternalNotFound),
    ([.lit (ascii "admin"), .multi], subtree ["auth", "admin"] .writeInternalNotFound),
    ([.lit (ascii "realms"), .lit (ascii "master")], exactly ["auth", "realms", "master"] .writeInternalNotFound),
    ([.lit (ascii "realms"), .lit (ascii "master"), .multi],
      subtree ["auth", "realms", "master"] .writeInternalNotFound)]

theorem follow_auth : follow (.lit (ascii "auth")) (node routes none) = authNode := rfl

theorem matchPath_surface {d ds} (h : onSurface (d :: ds) = true) :
    ∃ p, matchPath (node routes none) (ascii "auth" :: d :: ds) = some (p, []) ∧
      p.handler = .writeInternalNotFound := by
  rcases onSurface_cons.mp h with rfl | ⟨rfl, hmas⟩
  · cases ds with
    | nil => exact ⟨_, matchPath_lit (matchPath_lit rfl), rfl⟩
    | cons d ds =>
      exact ⟨_, matchPath_lit (matchPath_lit (matchPath_leaf _ _ d ds)), rfl⟩
  · cases ds with
    | nil => cases hmas
    | cons d ds =>
      cases hmas
      cases ds with
      | nil => exact ⟨_, matchPath_lit (matchPath_lit (matchPath_lit rfl)), rfl⟩
      | cons d ds =>
        exact ⟨_, matchPath_lit (matchPath_lit (matchPath_lit (matchPath_leaf _ _ d ds))), rfl⟩

theorem matchPath_auth {d ds} (h : onSurface (d :: ds) = false) :
    matchPath (node routes none) (ascii "auth" :: d :: ds) = some (subtree ["auth"] .authProxy, []) := by
  have hsurf : ¬ (d = ascii "admin" ∨ d = ascii "realms" ∧ ds.head? = some (ascii "master")) := by
    rw [← onSurface_cons, h]
    exact Bool.false_ne_true
  have hadmin : d ≠ ascii "admin" := fun hd => hsurf (.inl hd)
  -- nothing longer than `/auth/` is left for the literal
  have hlit : matchPath (follow (.lit d) authNode) ds = none := by
    by_cases hrea : d = ascii "realms"
    · have hmas : ds.head? ≠ some (ascii "master") := fun hm => hsurf (.inr ⟨hrea, hm⟩)
      subst hrea
      cases ds with
      | nil => rfl
      | cons d ds =>
        have hd : ascii "master" ≠ d := fun heq => hmas (heq ▸ rfl)
        have hrest : follow (.lit d) (follow (.lit (ascii "realms")) authNode) = [] := by
          change follow (.lit d) [([.lit (ascii "master")], _), ([.lit (ascii "master"), .multi], _)] = []
          simp [follow, hd]
        have hwild : follow .wild (follow (.lit (ascii "realms")) authNode) = [] := rfl
        rw [matchPath, hrest, hwild, matchPath_nil, map_none, ite_self]
        rfl
    · have hfol : follow (.lit d) authNode = [] := by
        simp [authNode, follow, Ne.symm hadmin, Ne.symm hrea]
      rw [hfol, matchPath_nil]
  apply matchPath_lit
  have hwild : follow .wild authNode = [] := rfl
  rw [follow_auth, matchPath, hlit, hwild, matchPath_nil]
  simp [authNode]

/-! ## What is forwarded -/

def Request.clean : Prop := r.method = "CONNECT" ∨ cleanPath r.escaped = r.escaped

theorem lookup_routes (method : String) (path : Bytes) :
    lookup routes method path = matchPath (node routes none) (segments path) :=
  lookup_of_noMethod (by decide) method path

theorem eq_authPattern {p} (hmem : p ∈ routes) (hhan : p.handler = .authProxy) :
    p = subtree ["auth"] .authProxy := by
  have hall : ∀ p ∈ routes, p.handler = .authProxy → p = subtree ["auth"] .authProxy := by
    simp [routes, subtree, exactly]
  exact hall p hmem hhan

/-- `/auth/` has its own pattern only for what is on no surface, segment by segment. -/
theorem lookup_authProxy {method path p values} (h : lookup routes method path = some (p, values))
    (hhan : p.handler = .authProxy) :
    ∃ d ds, spelling path = ascii "auth" :: d :: ds ∧ onSurface (d :: ds) = false := by
  obtain ⟨hmem, hmatch⟩ := matches_of_lookup h
  rw [eq_authPattern hmem hhan] at hmatch
  rw [lookup_routes] at h
  unfold segments at h hmatch
  match hspl : spelling path with
  | [] =>
    rw [hspl] at hmatch
    cases hmatch
  | [d] =>
    have hlen : (markEnd [d]).tail = [] := tail_markEnd d []
    rw [hspl] at hmatch
    generalize markEnd [d] = xs at hmatch hlen
    cases hmatch with
    | lit hrest =>
      cases hrest
      cases hlen
  | first :: d :: ds =>
    rw [hspl, markEnd_cons] at h hmatch
    have hfirst : first = ascii "auth" := by
      cases hmatch
      rfl
    subst hfirst
    refine ⟨d, ds, rfl, Bool.eq_false_iff.mpr ?_⟩
    intro hsurf
    rw [← onSurface_markEnd] at hsurf
    generalize markEnd (d :: ds) = xs at h hsurf
    cases xs with
    | nil => cases hsurf
    | cons x xs =>
      obtain ⟨p', hp', hblk⟩ := matchPath_surface hsurf
      cases hp'.symm.trans h
      cases hhan.symm.trans hblk

theorem lookup_of_spelling {method path d ds} (hspl : spelling path = ascii "auth" :: d :: ds)
    (hsurf : onSurface (d :: ds) = false) :
    lookup routes method path = some (subtree ["auth"] .authProxy, []) := by
  rw [lookup_routes, segments, hspl, markEnd_cons]
  rw [← onSurface_markEnd] at hsurf
  have hne : markEnd (d :: ds) ≠ [] := by
    unfold markEnd
    split <;> simp
  generalize markEnd (d :: ds) = xs at hsurf hne
  cases xs with
  | nil => exact absurd rfl hne
  | cons x xs => exact matchPath_auth hsurf

/-- No pattern asks for the slash that a path under `/auth/` does not have. -/
theorem not_foundExactly_slash {method rest d ds} (hspl : spelling (slash :: rest) = ascii "auth" :: d :: ds)
    (hsurf : onSurface (d :: ds) = false) :
    foundExactly (lookup routes method (slash :: rest ++ [slash])) (slash :: rest ++ [slash]) = false := by
  have hparts : parts (slash :: rest ++ [slash]) = parts (slash :: rest) ++ [[]] :=
    parts_append_slash (cons_ne_nil _ _)
  have hslash : spelling (slash :: rest ++ [slash]) = ascii "auth" :: d :: (ds ++ [[]]) := by
    unfold spelling at hspl ⊢
    rw [hparts, map_append, hspl]
    rfl
  have hsurf' : onSurface (d :: (ds ++ [[]])) = false := by
    rw [Bool.eq_false_iff, ne_eq, onSurface_cons] at hsurf ⊢
    intro h
    refine hsurf (h.imp_right fun hmas => ⟨hmas.1, ?_⟩)
    cases ds with
    | nil => cases hmas.2
    | cons d' ds => exact hmas.2
  have hcount : 2 < (slash :: rest ++ [slash]).count slash := by
    have hlen : (spelling (slash :: rest)).length = ds.length + 2 := by rw [hspl]; rfl
    have hle := length_parts_le_count rest
    rw [spelling, length_map] at hlen
    rw [count_append, count_singleton_self]
    omega
  have hleng : (subtree ["auth"] .authProxy).segs.length = 2 := rfl
  rw [lookup_of_spelling hslash hsurf', foundExactly, any_some, exactMatch, hleng]
  have hne : 2 ≠ (slash :: rest ++ [slash]).count slash := by omega
  rw [decide_eq_false hne, Bool.and_false, Bool.or_false]
  decide

theorem forwarded_eq_some {r : Request} {wire : Bytes} : forwarded r = some wire ↔
      r.path?.isSome ∧ r.clean ∧ ∃ d ds, spelling r.escaped = ascii "auth" :: d :: ds ∧
        onSurface (d :: ds) = false ∧ wire = escape keepInPath (join (d :: ds)) := by
  cases hpath : r.path? with
  | none => simp [forwarded, hpath]
  | some path =>
    obtain ⟨rest, hrest⟩ := r.escaped_rooted hpath
    have hjoin := r.join_spelling hpath
    rw [forwarded, hpath, bind_some]
    constructor
    · intro h
      split at h
      · rename_i values hserve
        cases h
        obtain ⟨hclean, _, p, hhan, hlook⟩ := serve_eq_handled.mp hserve
        obtain ⟨d, ds, hspl, hsurf⟩ := lookup_authProxy hlook hhan
        refine ⟨rfl, hclean, d, ds, hspl, hsurf, ?_⟩
        rw [← hjoin, hspl, stripAuth_join]
      · cases h
    · rintro ⟨_, hclean, d, ds, hspl, hsurf, rfl⟩
      have hserve : serve routes r.method r.escaped = .handled .authProxy [] := by
        rw [serve_eq_handled]
        refine ⟨hclean, ?_, _, rfl, lookup_of_spelling hspl hsurf⟩
        rintro ⟨_, _, hredir⟩
        rw [hrest] at hredir hspl
        rw [not_foundExactly_slash hspl hsurf] at hredir
        cases hredir
      rw [hserve, ← hjoin, hspl, stripAuth_join]

/-! ## Exposure -/

/-- A request that the patterns see under `/auth` and on no surface, and that is on one as a whole: a
segment hides a slash, a dot segment or nothing at all from them. -/
def Request.disguised : Prop :=
  r.path?.isSome ∧ r.clean ∧ ∃ d ds, spelling r.escaped = ascii "auth" :: d :: ds ∧ onSurface (d :: ds) = false ∧
      onSurface (resolve (parts (join (d :: ds)))) = true

theorem exposes_escape (path : Bytes) : exposes (escape keepInPath path) = onSurface (resolve (parts path)) := by
  rw [exposes, unescape_escape (by decide), any_some]

/-- Segments that hide nothing: none decodes to a text with a slash in it or to a dot segment, and only
the last may be empty. -/
def Request.plain : Prop :=
  (∀ d ∈ (spelling r.escaped).tail, slash ∉ d ∧ d ≠ ascii "." ∧ d ≠ ascii "..") ∧
    ∀ d ∈ (spelling r.escaped).tail.dropLast, d ≠ []

theorem not_disguised_of_plain {r : Request} (h : r.plain) : ¬ r.disguised := by
  rintro ⟨_, _, d, ds, hspl, hsurf, hwhole⟩
  obtain ⟨hhides, hempty⟩ := h
  rw [hspl, tail_cons] at hhides hempty
  rw [parts_join (cons_ne_nil _ _) fun p hp => (hhides p hp).1,
    resolve_eq_filter fun p hp => (hhides p hp).2] at hwhole
  -- leaving out an empty segment at the end does not bring a path onto a surface
  have hfil : ∀ xs : List Bytes, (∀ x ∈ xs.dropLast, x ≠ []) → (xs.filter fun p => decide (p ≠ [])) = xs ∨
        (xs.filter fun p => decide (p ≠ [])) = xs.dropLast := by
    intro xs hxs
    rcases eq_nil_or_concat xs with rfl | ⟨init, last, rfl⟩
    · exact .inl rfl
    rw [concat_eq_append, dropLast_concat] at hxs ⊢
    have hinit : (init.filter fun p => decide (p ≠ [])) = init := by
      rw [filter_eq_self]
      intro x hx
      exact decide_eq_true (hxs x hx)
    rw [filter_append, hinit]
    by_cases hlast : last = []
    · exact .inr (by simp [hlast])
    · exact .inl (by simp [hlast])
  rcases hfil _ hempty with heq | heq
  · rw [heq, hsurf] at hwhole
    cases hwhole
  rw [heq] at hwhole
  rw [Bool.eq_false_iff, ne_eq, onSurface_iff] at hsurf
  apply hsurf
  match ds, onSurface_iff.mp hwhole with
  | [], h => exact absurd h (by simp)
  | [d'], .inl h => exact .inl h
  | [d'], .inr h => exact absurd h.2 (by simp)
  | d' :: d'' :: ds, h => exact h

/-- The operators' surfaces are behind the edge for exactly the requests that are not disguised. -/
theorem surfaces_unreachable_iff : (∀ wire, forwarded r = some wire → exposes wire = false) ↔ ¬ r.disguised := by
  constructor
  · rintro h ⟨hpath, hclean, d, ds, hspl, hsurf, hwhole⟩
    have hfor := forwarded_eq_some.mpr ⟨hpath, hclean, d, ds, hspl, hsurf, rfl⟩
    have hexp := h _ hfor
    rw [exposes_escape, hwhole] at hexp
    cases hexp
  · intro hdis wire hfor
    obtain ⟨hpath, hclean, d, ds, hspl, hsurf, rfl⟩ := forwarded_eq_some.mp hfor
    rw [exposes_escape, Bool.eq_false_iff]
    exact fun hwhole => hdis ⟨hpath, hclean, d, ds, hspl, hsurf, hwhole⟩

/-- The token endpoint of the master realm, with its first slash encoded. -/
def masterToken : Request :=
  ⟨"POST", ascii "auth/realms%2Fmaster/protocol/openid-connect/token"⟩

theorem masterToken_exposed : ¬ ∀ r wire, forwarded r = some wire → exposes wire = false := by
  intro h
  have hfor : forwarded masterToken = some (ascii "/realms/master/protocol/openid-connect/token") := by
    decide +kernel
  have hexp := h masterToken _ hfor
  revert hexp
  decide +kernel

end Kiban.Gateway
