import Kiban.Gateway.KeycloakEdge
import Kiban.Org.Reads

/-!
# Reading the org service through the edge

The GET routes under `/api/org`.  The gateway decides on the path values and the query, puts the path of org's route
together from the decoded values and sends it on, encoded again; org cuts it at every slash there is then.  An admin
route is decided here alone, and the directories by org.

A request is answered from one database, and a fact that authz or the gateway cannot get is missing.
-/

namespace Kiban.Gateway

open PercentPath ServeMux Org List

/-! ## Texts in JSON -/

def continues (b : UInt8) : Bool := decide (0x80 ≤ b.toNat ∧ b.toNat ≤ 0xBF)

/-- `k` more bytes of a rune, the first of them between `low` and `high`. -/
def runeTail (rest : Bytes) (k low high : Nat) : Bool :=
  decide (k ≤ rest.length) && (rest.take 1).all (fun b => decide (low ≤ b.toNat ∧ b.toNat ≤ high)) &&
    ((rest.take k).drop 1).all continues

/-- The bytes of the rune at the start of a text, 0 where there is none. -/
def runeLength (first : UInt8) (rest : Bytes) : Nat :=
  let n := first.toNat
  if n < 0x80 then 1
  else if 0xC2 ≤ n ∧ n ≤ 0xDF then if runeTail rest 1 0x80 0xBF then 2 else 0
  else if n = 0xE0 then if runeTail rest 2 0xA0 0xBF then 3 else 0
  else if n = 0xED then if runeTail rest 2 0x80 0x9F then 3 else 0
  else if 0xE1 ≤ n ∧ n ≤ 0xEF then if runeTail rest 2 0x80 0xBF then 3 else 0
  else if n = 0xF0 then if runeTail rest 3 0x90 0xBF then 4 else 0
  else if n = 0xF4 then if runeTail rest 3 0x80 0x8F then 4 else 0
  else if 0xF1 ≤ n ∧ n ≤ 0xF3 then if runeTail rest 3 0x80 0xBF then 4 else 0
  else 0

/-- `skip` bytes of a rune are still to come. -/
def jsonRunes (skip : Nat) : Bytes → Bytes
  | [] => []
  | b :: rest =>
    match skip with
    | skip + 1 => b :: jsonRunes skip rest
    | 0 =>
      match runeLength b rest with
      | 0 => 0xEF :: 0xBF :: 0xBD :: jsonRunes 0 rest
      | n + 1 => b :: jsonRunes n rest

/-- What a text is after it was in a JSON document: each byte that is of no rune is replaced. -/
def jsonText (s : Bytes) : Bytes := jsonRunes 0 s

theorem jsonRunes_eq_or (skip : Nat) (s : Bytes) :
    jsonRunes skip s = s ∨ ∃ pre post, jsonRunes skip s = pre ++ 0xEF :: 0xBF :: 0xBD :: post := by
  induction s generalizing skip with
  | nil => exact .inl rfl
  | cons b rest ih =>
    have hkeep : ∀ n, b :: jsonRunes n rest = b :: rest ∨
        ∃ pre post, b :: jsonRunes n rest = pre ++ 0xEF :: 0xBF :: 0xBD :: post := by
      intro n
      rcases ih n with heq | ⟨pre, post, heq⟩
      · exact .inl (by rw [heq])
      · exact .inr ⟨b :: pre, post, by rw [heq, cons_append]⟩
    cases skip with
    | succ skip => exact hkeep skip
    | zero =>
      rw [jsonRunes]
      split
      · exact .inr ⟨[], jsonRunes 0 rest, rfl⟩
      · exact hkeep _

/-- A replaced byte is in no text of a UUID. -/
theorem jsonText_eq {s id} (h : parseUuid (jsonText s) = some id) : jsonText s = s := by
  rcases jsonRunes_eq_or 0 s with heq | ⟨pre, post, heq⟩
  · exact heq
  · obtain ⟨ds, hds, _⟩ := Option.map_eq_some_iff.mp h
    rw [jsonText, heq, append_cons] at hds
    exact absurd (UuidText.textByte_of_parse hds (by simp) (by simp)) (by decide)

/-! ## The decisions -/

structure Authz where
  /-- the first three steps: the subject is known, enabled at Keycloak and active -/
  active : Bytes → Bool
  /-- the platform role -/
  superadmin : Bytes → Bool
  /-- `company:<text>#admin` for the subject -/
  companyRole : Bytes → Bytes → Bool

structure Edge where
  db : Database
  env : ReadEnv
  authz : Authz

def internalOrg (segments : List Bytes) : Bytes := join (ascii "internal" :: ascii "org" :: segments)

namespace Edge

variable (e : Edge) (caller : Bytes)

def companyActive (company : Bytes) : Bool :=
  match routeRead (internalOrg [ascii "companies", escape keepInSegment company, ascii "state"]) with
  | some (.companyState, [id]) => ((parseUuid id).bind e.db.companyState).getD false
  | _ => false

/-- `OrgClient.Membership`: a member who is not blocked. -/
def membership (company subject : Bytes) : Bool :=
  match routeRead (internalOrg [ascii "companies", escape keepInSegment company, ascii "members",
    ascii "by-kcsub", escape keepInSegment subject]) with
  | some (.memberByKcSub, [id, kcSub]) =>
    (parseUuid id).any fun companyId => (e.db.memberFactByKcSub companyId kcSub).any fun r => r.2.isActive
  | _ => false

/-- `DecideMemberInCompany`, and with the role `DecideInCompany`. -/
def decideInCompany (role : Bool) (company : Bytes) : Bool :=
  let text := jsonText company
  decide (company ≠ []) && e.authz.active caller && e.companyActive text && (e.authz.superadmin caller ||
      e.membership text caller && (!role || e.authz.companyRole text caller))

/-- `companyFromOrg`: the path is encoded once with the escaped id in it, and so org sees the escapes. -/
def companyFromOrg (kind : String) (id : Bytes) : Option Uuid :=
  (answerRead e.db e.env (e.authz.superadmin caller) []
    (escape keepInPath (internalOrg [ascii kind, escape keepInSegment id]))).bind Answer.companyId

def resourceInCompany (kind : String) (company id : Bytes) : Bool :=
  (e.companyFromOrg caller kind id).any fun owner => decide (utf8 owner = company)

def forward (q : Query) (segments : List Bytes) : Option (List Record) :=
  (answerRead e.db e.env (e.authz.superadmin caller) q (escape keepInPath (internalOrg segments))).map
    Answer.records

end Edge

/-! ## The routes -/

/-- The reads under `/api/org`, without the lookup by subject. -/
inductive OrgRead where
  | meCompanies
  | memberDirectory
  | positionDirectory
  | groupDirectory
  | positionHolder
  | groupMembers
  | adminUnit
  | adminSubtree
  | adminMembers
  | adminPositions
  | adminGroups
  | adminGroupMembers
  deriving DecidableEq

def OrgRead.isAdmin : OrgRead → Bool
  | .adminUnit | .adminSubtree | .adminMembers | .adminPositions | .adminGroups | .adminGroupMembers => true
  | _ => false

inductive ApiHandler where
  | read (read : OrgRead)
  | memberBySubject
  | moduleProxy
  deriving DecidableEq

def OrgRead.segs : OrgRead → List Seg
  | .meCompanies => [lit "api", lit "org", lit "me", lit "companies"]
  | .memberDirectory => [lit "api", lit "org", lit "companies", .wild, lit "members"]
  | .positionDirectory => [lit "api", lit "org", lit "companies", .wild, lit "positions"]
  | .groupDirectory => [lit "api", lit "org", lit "companies", .wild, lit "groups"]
  | .positionHolder => [lit "api", lit "org", lit "companies", .wild, lit "positions", .wild, lit "holder"]
  | .groupMembers => [lit "api", lit "org", lit "companies", .wild, lit "groups", .wild, lit "members"]
  | .adminUnit => [lit "api", lit "org", lit "admin", lit "units", .wild]
  | .adminSubtree => [lit "api", lit "org", lit "admin", lit "units", .wild, lit "subtree"]
  | .adminMembers => [lit "api", lit "org", lit "admin", lit "members"]
  | .adminPositions => [lit "api", lit "org", lit "admin", lit "companies", .wild, lit "positions"]
  | .adminGroups => [lit "api", lit "org", lit "admin", lit "companies", .wild, lit "groups"]
  | .adminGroupMembers => [lit "api", lit "org", lit "admin", lit "groups", .wild, lit "members"]
where
  lit (s : String) : Seg := .lit (ascii s)

/-- The routes that a GET under `/api/org` can be for. -/
def apiRoutes : List (Pattern ApiHandler) :=
  ([.meCompanies, .memberDirectory, .positionDirectory, .groupDirectory, .positionHolder, .groupMembers,
    .adminUnit, .adminSubtree, .adminMembers, .adminPositions, .adminGroups, .adminGroupMembers].map
      fun (read : OrgRead) => ⟨some "GET", read.segs, .read read⟩) ++
    [⟨some "GET", [.lit (ascii "api"), .lit (ascii "org"), .lit (ascii "companies"), .wild,
        .lit (ascii "members"), .lit (ascii "by-subject"), .wild], .memberBySubject⟩,
      ⟨none, [.lit (ascii "api"), .wild], .moduleProxy⟩,
      ⟨none, [.lit (ascii "api"), .wild, .multi], .moduleProxy⟩]

def routeApi (r : Request) : Option (OrgRead × List Bytes) :=
  r.path?.bind fun _ =>
    match serve apiRoutes r.method r.escaped with
    | .handled (.read read) values => some (read, values)
    | _ => none

def Edge.respond (e : Edge) (caller : Bytes) (q : Query) : OrgRead → List Bytes → Option (List Record)
  | .meCompanies, [] => e.forward caller (q.set "kcSub" caller) [ascii "me", ascii "companies"]
  | .memberDirectory, [company] =>
    e.forward caller (q.set "kcSub" caller) [ascii "companies", company, ascii "members"]
  | .positionDirectory, [company] =>
    e.forward caller (q.set "kcSub" caller) [ascii "companies", company, ascii "positions", ascii "directory"]
  | .groupDirectory, [company] =>
    e.forward caller (q.set "kcSub" caller) [ascii "companies", company, ascii "groups", ascii "directory"]
  | .positionHolder, [company, id] =>
    if e.decideInCompany caller false company && e.resourceInCompany caller "positions" company id then
      e.forward caller (q.set "kcSub" caller) [ascii "positions", id, ascii "holder"]
    else none
  | .groupMembers, [company, id] =>
    if e.decideInCompany caller false company && e.resourceInCompany caller "groups" company id then
      e.forward caller (q.set "kcSub" caller) [ascii "groups", id, ascii "members"]
    else none
  | .adminUnit, [id] =>
    if e.authz.active caller && e.authz.superadmin caller then e.forward caller q [ascii "units", id]
    else none
  | .adminSubtree, [id] =>
    if e.authz.active caller && e.authz.superadmin caller then
      e.forward caller q [ascii "units", id, ascii "subtree"]
    else none
  | .adminMembers, [] =>
    if e.decideInCompany caller true (q.get "companyId") then
      e.forward caller (q.set "kcSub" caller) [ascii "members"]
    else none
  | .adminPositions, [company] =>
    if e.decideInCompany caller true company then
      e.forward caller q [ascii "companies", company, ascii "positions"]
    else none
  | .adminGroups, [company] =>
    if e.decideInCompany caller true company then
      e.forward caller q [ascii "companies", company, ascii "groups"]
    else none
  | .adminGroupMembers, [id] =>
    (e.companyFromOrg caller "groups" id).bind fun owner =>
      if e.decideInCompany caller true (utf8 owner) then
        e.forward caller q [ascii "groups", id, ascii "members"]
      else none
  | _, _ => none

/-! ## Where a path comes out at org -/

section Routing

variable {handler target : ReadHandler} {values pre post : List Bytes} {x : Bytes}

theorem matches_forward (hlit : ∀ p ∈ pre ++ post, p ≠ [] ∧ slash ∉ p) (hpost : post ≠ [])
    (h : routeRead (escape keepInPath (internalOrg (pre ++ x :: post))) = some (handler, values)) :
    handler ∈ candidates readRoutes
        (around (ascii "internal" :: ascii "org" :: pre) (x.splitOn slash).length post) ∧
      Matches handler.segs ((ascii "internal" :: ascii "org" :: pre) ++ x.splitOn slash ++ post) values := by
  have halone : ∀ ps : List Bytes, (∀ p ∈ ps, slash ∉ p) → (ps.flatMap fun p => p.splitOn slash) = ps := by
    intro ps hps
    induction ps with
    | nil => rfl
    | cons p ps ih =>
      rw [flatMap_cons, splitOn_eq_singleton (hps p mem_cons_self),
        ih fun q hq => hps q (mem_cons_of_mem p hq), singleton_append]
  have hpre : ∀ p ∈ ascii "internal" :: ascii "org" :: pre, slash ∉ p := by
    rw [forall_mem_cons, forall_mem_cons]
    exact ⟨by decide, by decide, fun p hp => (hlit p (mem_append_left _ hp)).2⟩
  have hspl : spelling (escape keepInPath (internalOrg (pre ++ x :: post))) =
      (ascii "internal" :: ascii "org" :: pre) ++ x.splitOn slash ++ post := by
    rw [internalOrg, spelling_escape (by decide) (by decide) (cons_ne_nil _ _),
      parts_join_splitOn (cons_ne_nil _ _), ← cons_append, ← cons_append,
      flatMap_append, halone _ hpre, flatMap_cons,
      halone _ fun p hp => (hlit p (mem_append_right _ hp)).2, append_assoc]
  obtain ⟨hmem, hmatch⟩ := matches_of_routeRead h
  obtain ⟨init, last, rfl⟩ := eq_nil_or_concat post |>.resolve_left hpost
  have hlast : last ≠ [] := (hlit last (by simp)).1
  rw [segments, hspl, concat_eq_append, ← append_assoc, markEnd_concat hlast] at hmatch
  rw [append_assoc, ← concat_eq_append] at hmatch
  exact ⟨mem_candidates hmem (fits_around hmatch), hmatch⟩

/-- A path whose parts are escaped one by one is cut between them only. -/
theorem matches_escaped {ps last} (hne : last ≠ [])
    (h : routeRead (internalOrg ((ps ++ [last]).map (escape keepInSegment))) = some (handler, values)) :
    Matches handler.segs (ascii "internal" :: ascii "org" :: (ps ++ [last])) values := by
  have hlit : escape keepInSegment (ascii "internal") = ascii "internal" ∧
      escape keepInSegment (ascii "org") = ascii "org" := by decide
  have hspl : spelling (internalOrg ((ps ++ [last]).map (escape keepInSegment))) =
      (ascii "internal" :: ascii "org" :: ps) ++ [last] := by
    have hjoin := @spelling_join_escape keepInSegment (by decide) (by decide) _
      (cons_ne_nil (ascii "internal") (ascii "org" :: (ps ++ [last])))
    rwa [map_cons, map_cons, hlit.1, hlit.2] at hjoin
  have hmatch := (matches_of_routeRead h).2
  rwa [segments, hspl, markEnd_concat hne] at hmatch

/-- No route of org has more than seven segments. -/
theorem length_lt_of_mem_candidates {n} (h : handler ∈ candidates readRoutes (around pre n post)) : n < 8 := by
  obtain ⟨p, hp, _⟩ := mem_map.mp h
  obtain ⟨hmem, hfits⟩ := List.mem_filter.mp hp
  have hsegs : ∀ p ∈ readRoutes, .multi ∉ p.segs ∧ p.segs.length ≤ 7 := by decide
  have hlen := length_of_fits (hsegs p hmem).1 hfits
  have hle := (hsegs p hmem).2
  simp only [around, length_append, length_map, length_replicate] at hlen
  omega

theorem length_splitOn_pos (x : Bytes) : 0 < (x.splitOn slash).length :=
  length_pos_iff.mpr (splitOn_ne_nil slash x)

theorem splitOn_singleton {a} (h : x.splitOn slash = [a]) : x = a := by
  have hx : [slash].intercalate (x.splitOn slash) = x := intercalate_splitOn slash
  rw [h, intercalate_singleton] at hx
  exact hx.symm

/-- Only one of org's routes can be for the path, however its value is cut. -/
abbrev Alone (target : ReadHandler) (pre post : List Bytes) : Prop :=
  ∀ n < 8, 0 < n → candidates readRoutes (around (ascii "internal" :: ascii "org" :: pre) n post) =
    if n = 1 then [target] else []

theorem routed_alone (hlit : ∀ p ∈ pre ++ post, p ≠ [] ∧ slash ∉ p) (hpost : post ≠ []) (hfit : Alone target pre post)
    (hsegs : target.segs = (ascii "internal" :: ascii "org" :: pre).map .lit ++ .wild :: post.map .lit)
    (h : routeRead (escape keepInPath (internalOrg (pre ++ x :: post))) = some (handler, values)) :
    handler = target ∧ values = [x] := by
  obtain ⟨hmem, hmatch⟩ := matches_forward hlit hpost h
  rw [hfit _ (length_lt_of_mem_candidates hmem) (length_splitOn_pos x)] at hmem
  split at hmem
  · rename_i hone
    obtain ⟨a, hsplit⟩ := length_eq_one_iff.mp hone
    obtain rfl := splitOn_singleton hsplit
    obtain rfl := mem_singleton.mp hmem
    rw [hsplit, hsegs, append_assoc, singleton_append] at hmatch
    exact ⟨rfl, matches_one_wild hmatch⟩
  · exact absurd hmem not_mem_nil

/-- A text in the place of a company that org cuts into more than it. -/
def hidesByKcSub (company : Bytes) : Bytes := company ++ ascii "/members/by-kcsub"

/-- The path is for a list of a company's rows, or hides the lookup by subject. -/
abbrev CompanyList (target : ReadHandler) (last : Bytes) : Prop :=
  ∀ n < 8, 0 < n → candidates readRoutes (around [ascii "internal", ascii "org", ascii "companies"] n [last]) =
    if n = 1 then [target] else if n = 3 then [.memberByKcSub] else []

theorem routed_company {last} (hlast : last ≠ [] ∧ slash ∉ last) (hfit : CompanyList target last)
    (hsegs : target.segs = [ascii "internal", ascii "org", ascii "companies"].map .lit ++ .wild :: [last].map .lit)
    (h : routeRead (escape keepInPath (internalOrg [ascii "companies", x, last])) = some (handler, values)) :
    handler = target ∧ values = [x] ∨
      handler = .memberByKcSub ∧ ∃ b, x = hidesByKcSub b ∧ slash ∉ b ∧ values = [b, last] := by
  have hlit : ∀ p ∈ [ascii "companies"] ++ [last], p ≠ [] ∧ slash ∉ p := by
    rw [singleton_append, forall_mem_cons, forall_mem_singleton]
    exact ⟨by decide, hlast⟩
  obtain ⟨hmem, hmatch⟩ := matches_forward hlit (cons_ne_nil _ _) h
  rw [hfit _ (length_lt_of_mem_candidates hmem) (length_splitOn_pos x)] at hmem
  split at hmem
  · rename_i hone
    obtain ⟨a, hsplit⟩ := length_eq_one_iff.mp hone
    obtain rfl := splitOn_singleton hsplit
    obtain rfl := mem_singleton.mp hmem
    rw [hsplit, hsegs] at hmatch
    exact .inl ⟨rfl, matches_one_wild hmatch⟩
  · split at hmem
    · rename_i hthree
      obtain ⟨b, members, byKcSub, hsplit⟩ := length_eq_three.mp hthree
      obtain rfl := mem_singleton.mp hmem
      have hx : [slash].intercalate (x.splitOn slash) = x := intercalate_splitOn slash
      have hb : slash ∉ b := slash_notMem_of_mem_splitOn (hsplit ▸ mem_cons_self)
      rw [hsplit] at hmatch hx
      simp only [ReadHandler.segs, ReadHandler.segs.lit, cons_append, nil_append, matches_lit_iff,
        matches_wild_iff, matches_nil_iff, true_and] at hmatch
      obtain ⟨_, _, rfl, rfl, rfl, _, _, rfl, rfl⟩ := hmatch
      exact .inr ⟨rfl, b, hx.symm, hb, rfl⟩
    · exact absurd hmem not_mem_nil

end Routing

theorem companyList_reads : CompanyList .memberDirectory (ascii "members") ∧
    CompanyList .adminPositionList (ascii "positions") ∧ CompanyList .adminGroupList (ascii "groups") := by
  decide +kernel

theorem alone_reads : Alone .positionDirectory [ascii "companies"] [ascii "positions", ascii "directory"] ∧
    Alone .groupDirectory [ascii "companies"] [ascii "groups", ascii "directory"] ∧
    Alone .holderOnDate [ascii "positions"] [ascii "holder"] ∧
    Alone .listGroupMembers [ascii "groups"] [ascii "members"] := by
  decide +kernel

end Kiban.Gateway
