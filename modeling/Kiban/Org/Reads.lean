import Kiban.Lib.ServeMux
import Kiban.Lib.UuidText
import Kiban.Org.Integrity
import Kiban.Org.UserBridge

/-!
# The org service's reads

The GET routes, and which rows an answer has in it.  Most of them ask nobody who is reading: the gateway decides who
gets to them.  The directories, and the lists that are told who is reading, want an active member who is no guest, or
the superadmin.  The page, the search and the date of a query are the caller's.
-/

namespace Kiban.Org

open PercentPath ServeMux List Keyed.Table

def parseUuid (s : Bytes) : Option Uuid := (UuidText.parse s).map UuidText.format

def utf8 (s : String) : Bytes := s.toList.flatMap String.utf8EncodeChar

/-! ## Queries -/

abbrev Query := List (Bytes × Bytes)

/-- `url.Values.Get`: the first value, or the empty text. -/
def Query.get (q : Query) (key : String) : Bytes :=
  ((q.find? fun p => decide (p.1 = ascii key)).map Prod.snd).getD []

/-- `url.Values.Set`: in place of all values there were. -/
def Query.set (q : Query) (key : String) (value : Bytes) : Query :=
  (ascii key, value) :: q.filter fun p => decide (p.1 ≠ ascii key)

theorem Query.get_set (q : Query) (key : String) (value : Bytes) : (q.set key value).get key = value := by
  simp [Query.get, Query.set]

theorem Query.get_set_of_ne {key key'} (h : ascii key' ≠ ascii key) (q : Query) (value : Bytes) :
    (q.set key value).get key' = q.get key' := by
  have hfil : (fun a : Bytes × Bytes => !decide (a.1 = ascii key) && decide (a.1 = ascii key')) =
      fun a => decide (a.1 = ascii key') := by
    funext a
    by_cases ha : a.1 = ascii key'
    · simp [ha, h]
    · simp [ha]
  simp [Query.get, Query.set, Ne.symm h, find?_filter, hfil]

/-! ## Answers -/

inductive Record where
  | member (id : Uuid)
  | position (id : Uuid)
  | assignment (id : Uuid)
  | group (id : Uuid)
  deriving DecidableEq

/-- An answer with the status 200: the rows in it, and the `companyId` of a view of one row. -/
structure Answer where
  records : List Record
  companyId : Option Uuid := none

def Answer.facts : Answer := ⟨[], none⟩

/-- What `ORDER BY`, `LIMIT`, `OFFSET` and a search leave of the rows. -/
structure Window where
  pick : List Uuid → List Uuid
  pick_subset : ∀ ids, pick ids ⊆ ids

structure ReadEnv where
  /-- `none` where a page is over its limit -/
  page : Query → Option Window
  date : Query → Option Date
  today : Option Date

namespace Database

variable (s : Database)

def companyState (id : Uuid) : Option Bool :=
  if s.companyTyped id then (s.units.get? id).map OrgUnit.isActive else none

/-- `MemberFactByKcSub`: the member of the company that is linked to the account. -/
def memberFactByKcSub (companyId : Uuid) (kcSub : Bytes) : Option (Uuid × MemberRow) :=
  s.members.rows.find? fun r =>
    decide (r.2.companyId = companyId) && (s.linkedSub r.1).any fun sub => decide (utf8 sub = kcSub)

/-- `requireMemberOrAdmin`; `superadmin` is what authz answers for the bearer. -/
def requireMemberOrAdmin (superadmin : Bool) (q : Query) (companyId : Uuid) : Bool :=
  decide (q.get "kcSub" ≠ []) &&
    ((s.memberFactByKcSub companyId (q.get "kcSub")).any (fun r => r.2.isActive && !r.2.isGuest) || superadmin)

def membersOf (companyId : Uuid) : List Uuid :=
  (s.members.rows.filter fun r => decide (r.2.companyId = companyId)).map Prod.fst

def activeMembersOf (companyId : Uuid) : List Uuid :=
  (s.members.rows.filter fun r => decide (r.2.companyId = companyId) && r.2.isActive).map Prod.fst

def positionsOf (companyId : Uuid) : List Uuid :=
  (s.positions.rows.filter fun r => decide (r.2.companyId = companyId)).map Prod.fst

def groupsOf (companyId : Uuid) : List Uuid :=
  (s.groups.rows.filter fun r => decide (r.2.companyId = companyId)).map Prod.fst

def activeGroupsOf (companyId : Uuid) : List Uuid :=
  (s.groups.rows.filter fun r => decide (r.2.companyId = companyId) && r.2.isActive).map Prod.fst

def assignmentRecords (r : Uuid × Assignment) : List Record := [.assignment r.1, .member r.2.memberId]

/-- A position with who holds it today. -/
def positionWithHolder (today : Date) (id : Uuid) : List Record :=
  .position id :: (s.assignments.rows.filter fun r =>
    decide (r.2.positionId = id) && decide (r.2.Covers today)).flatMap assignmentRecords

def listGroupMembers (groupId : Uuid) : List Record :=
  (s.groupMembers.rows.filter fun r =>
    decide (r.1.1 = groupId) && (s.members.get? r.1.2).isSome).map fun r => .member r.1.2

end Database

/-! ## The handlers -/

inductive ReadHandler where
  | getUnit
  | subtree
  | companyState
  | memberByKcSub
  | meCompanies
  | memberDirectory
  | positionDirectory
  | groupDirectory
  | adminPositionList
  | adminGroupList
  | getGroup
  | listGroupMembers
  | listMembers
  | getMember
  | listPositions
  | getPosition
  | holderOnDate
  | getAssignment
  | health
  | ready
  deriving DecidableEq

def ReadHandler.segs : ReadHandler → List Seg
  | .getUnit => [lit "internal", lit "org", lit "units", .wild]
  | .subtree => [lit "internal", lit "org", lit "units", .wild, lit "subtree"]
  | .companyState => [lit "internal", lit "org", lit "companies", .wild, lit "state"]
  | .memberByKcSub =>
    [lit "internal", lit "org", lit "companies", .wild, lit "members", lit "by-kcsub", .wild]
  | .meCompanies => [lit "internal", lit "org", lit "me", lit "companies"]
  | .memberDirectory => [lit "internal", lit "org", lit "companies", .wild, lit "members"]
  | .positionDirectory =>
    [lit "internal", lit "org", lit "companies", .wild, lit "positions", lit "directory"]
  | .groupDirectory => [lit "internal", lit "org", lit "companies", .wild, lit "groups", lit "directory"]
  | .adminPositionList => [lit "internal", lit "org", lit "companies", .wild, lit "positions"]
  | .adminGroupList => [lit "internal", lit "org", lit "companies", .wild, lit "groups"]
  | .getGroup => [lit "internal", lit "org", lit "groups", .wild]
  | .listGroupMembers => [lit "internal", lit "org", lit "groups", .wild, lit "members"]
  | .listMembers => [lit "internal", lit "org", lit "members"]
  | .getMember => [lit "internal", lit "org", lit "members", .wild]
  | .listPositions => [lit "internal", lit "org", lit "positions"]
  | .getPosition => [lit "internal", lit "org", lit "positions", .wild]
  | .holderOnDate => [lit "internal", lit "org", lit "positions", .wild, lit "holder"]
  | .getAssignment => [lit "internal", lit "org", lit "assignments", .wild]
  | .health => [lit "health"]
  | .ready => [lit "ready"]
where
  lit (s : String) : Seg := .lit (ascii s)

/-- The GET routes, in their order in the source. -/
def readRoutes : List (Pattern ReadHandler) :=
  [.getUnit, .subtree, .companyState, .memberByKcSub, .meCompanies, .memberDirectory, .positionDirectory,
    .groupDirectory, .adminPositionList, .adminGroupList, .getGroup, .listGroupMembers, .listMembers,
    .getMember, .listPositions, .getPosition, .holderOnDate, .getAssignment, .health, .ready].map
    fun handler => ⟨some "GET", handler.segs, handler⟩

/-- The handler of a path as it is encoded on the wire, with its path values. -/
def routeRead (wire : Bytes) : Option (ReadHandler × List Bytes) :=
  match serve readRoutes "GET" wire with
  | .handled handler values => some (handler, values)
  | _ => none

theorem matches_of_routeRead {wire handler values} (h : routeRead wire = some (handler, values)) :
    (⟨some "GET", handler.segs, handler⟩ : Pattern ReadHandler) ∈ readRoutes ∧
      Matches handler.segs (segments wire) values := by
  unfold routeRead at h
  split at h
  · rename_i handler' values' hserve
    cases h
    obtain ⟨_, _, p, rfl, hlook⟩ := serve_eq_handled.mp hserve
    obtain ⟨hmem, hmatch⟩ := matches_of_lookup hlook
    obtain ⟨handler, _, rfl⟩ := mem_map.mp hmem
    exact ⟨hmem, hmatch⟩
  · cases h

section Handlers

variable (s : Database) (env : ReadEnv) (superadmin : Bool) (q : Query)

def listing (ids : List Uuid) (view : Uuid → List Record) : Option Answer :=
  (env.page q).map fun window => ⟨(window.pick ids).flatMap view, none⟩

/-- A list for the members of the company the path names. -/
def handleDirectory (id : Bytes) (ids : Uuid → List Uuid) (view : Uuid → Record) : Option Answer :=
  (parseUuid id).bind fun companyId =>
    if s.requireMemberOrAdmin superadmin q companyId then
      listing env q (ids companyId) fun id => [view id]
    else none

def handleMemberDirectory (id : Bytes) : Option Answer :=
  handleDirectory s env superadmin q id s.activeMembersOf .member

def handlePositionDirectory (id : Bytes) : Option Answer :=
  handleDirectory s env superadmin q id s.positionsOf .position

def handleGroupDirectory (id : Bytes) : Option Answer :=
  handleDirectory s env superadmin q id s.activeGroupsOf .group

def handleListMembers : Option Answer :=
  handleDirectory s env superadmin q (q.get "companyId") s.membersOf .member

def handleAdminPositionList (id : Bytes) : Option Answer :=
  (parseUuid id).bind fun companyId => env.today.bind fun today =>
    listing env q (s.positionsOf companyId) (s.positionWithHolder today)

def handleAdminGroupList (id : Bytes) : Option Answer :=
  (parseUuid id).bind fun companyId => listing env q (s.groupsOf companyId) fun id => [.group id]

def handleListPositions : Option Answer :=
  (parseUuid (q.get "companyId")).bind fun companyId =>
    listing env q (s.positionsOf companyId) fun id => [.position id]

def handleMemberByKcSub (id kcSub : Bytes) : Option Answer :=
  (parseUuid id).map fun companyId =>
    match s.memberFactByKcSub companyId kcSub with
    | some r => ⟨[.member r.1], none⟩
    | none => .facts

/-- The caller is checked only where the query names one. -/
def handleListGroupMembers (id : Bytes) : Option Answer :=
  (parseUuid id).bind fun groupId =>
    if q.get "kcSub" ≠ [] then
      (s.groups.get? groupId).bind fun group =>
        if s.requireMemberOrAdmin superadmin q group.companyId then
          some ⟨s.listGroupMembers groupId, none⟩
        else none
    else some ⟨s.listGroupMembers groupId, none⟩

def assignmentOnDate (positionId : Uuid) (date : Date) : Option Answer :=
  (s.assignments.rows.find? fun r =>
    decide (r.2.positionId = positionId) && decide (r.2.Covers date)).map fun r =>
      ⟨Database.assignmentRecords r, none⟩

def handleHolderOnDate (id : Bytes) : Option Answer :=
  (parseUuid id).bind fun positionId => (env.date q).bind fun date =>
    if q.get "kcSub" ≠ [] then
      (s.positions.get? positionId).bind fun position =>
        if s.requireMemberOrAdmin superadmin q position.companyId then assignmentOnDate s positionId date
        else none
    else assignmentOnDate s positionId date

def handleGetGroup (id : Bytes) : Option Answer :=
  (parseUuid id).bind fun id => (s.groups.get? id).map fun g => ⟨[.group id], some g.companyId⟩

def handleGetMember (id : Bytes) : Option Answer :=
  (parseUuid id).bind fun id => (s.members.get? id).map fun m => ⟨[.member id], some m.companyId⟩

def handleGetPosition (id : Bytes) : Option Answer :=
  (parseUuid id).bind fun id => (s.positions.get? id).map fun p => ⟨[.position id], some p.companyId⟩

def handleGetAssignment (id : Bytes) : Option Answer :=
  (parseUuid id).bind fun id => (s.assignments.get? id).bind fun a =>
    (s.positions.get? a.positionId).map fun p => ⟨Database.assignmentRecords (id, a), some p.companyId⟩

/-- Units are no rows of a company's own that an answer is asked about here. -/
def handleRead : ReadHandler → List Bytes → Option Answer
  | .getUnit, [id] => (parseUuid id).bind fun id => (s.units.get? id).map fun _ => .facts
  | .subtree, [id] => (parseUuid id).map fun _ => .facts
  | .companyState, [id] => (parseUuid id).map fun _ => .facts
  | .memberByKcSub, [id, kcSub] => handleMemberByKcSub s id kcSub
  | .meCompanies, [] => if q.get "kcSub" ≠ [] then some .facts else none
  | .memberDirectory, [id] => handleMemberDirectory s env superadmin q id
  | .positionDirectory, [id] => handlePositionDirectory s env superadmin q id
  | .groupDirectory, [id] => handleGroupDirectory s env superadmin q id
  | .adminPositionList, [id] => handleAdminPositionList s env q id
  | .adminGroupList, [id] => handleAdminGroupList s env q id
  | .getGroup, [id] => handleGetGroup s id
  | .listGroupMembers, [id] => handleListGroupMembers s superadmin q id
  | .listMembers, [] => handleListMembers s env superadmin q
  | .getMember, [id] => handleGetMember s id
  | .listPositions, [] => handleListPositions s env q
  | .getPosition, [id] => handleGetPosition s id
  | .holderOnDate, [id] => handleHolderOnDate s env superadmin q id
  | .getAssignment, [id] => handleGetAssignment s id
  | .health, [] => some .facts
  | .ready, [] => some .facts
  | _, _ => none

/-- What the service answers to a GET with the path on the wire. -/
def answerRead (wire : Bytes) : Option Answer :=
  (routeRead wire).bind fun r => handleRead s env superadmin q r.1 r.2

end Handlers

/-! ## Whose rows an answer has -/

/-- The company a row is of; an assignment is of its position's. -/
def Database.Belongs (s : Database) : Record → Uuid → Prop
  | .member id, companyId => ∃ m, s.members.get? id = some m ∧ m.companyId = companyId
  | .position id, companyId => ∃ p, s.positions.get? id = some p ∧ p.companyId = companyId
  | .assignment id, companyId => ∃ a p, s.assignments.get? id = some a ∧
      s.positions.get? a.positionId = some p ∧ p.companyId = companyId
  | .group id, companyId => ∃ g, s.groups.get? id = some g ∧ g.companyId = companyId

theorem belongs_unique {s : Database} {r : Record} {companyId companyId' : Uuid}
    (h : s.Belongs r companyId) (h' : s.Belongs r companyId') : companyId = companyId' := by
  cases r with
  | member id =>
    obtain ⟨m, hm, rfl⟩ := h
    obtain ⟨m', hm', rfl⟩ := h'
    cases hm.symm.trans hm'
    rfl
  | position id =>
    obtain ⟨p, hp, rfl⟩ := h
    obtain ⟨p', hp', rfl⟩ := h'
    cases hp.symm.trans hp'
    rfl
  | assignment id =>
    obtain ⟨a, p, ha, hp, rfl⟩ := h
    obtain ⟨a', p', ha', hp', rfl⟩ := h'
    cases ha.symm.trans ha'
    cases hp.symm.trans hp'
    rfl
  | group id =>
    obtain ⟨g, hg, rfl⟩ := h
    obtain ⟨g', hg', rfl⟩ := h'
    cases hg.symm.trans hg'
    rfl

def Database.ActiveMember (s : Database) (sub : Bytes) (companyId : Uuid) : Prop :=
  ∃ id m kcSub, s.members.get? id = some m ∧ m.companyId = companyId ∧ s.linkedSub id = some kcSub ∧
    utf8 kcSub = sub ∧ m.isActive = true ∧ m.isGuest = false

/-- What the triggers keep of the rows that refer to a member. -/
structure CompanyBound (s : Database) : Prop where
  assigned : ∀ id a, s.assignments.get? id = some a → ∃ p m, s.positions.get? a.positionId = some p ∧
    s.members.get? a.memberId = some m ∧ m.companyId = p.companyId
  grouped : ∀ k row, s.groupMembers.get? k = some row → ∃ g m, s.groups.get? k.1 = some g ∧
    s.members.get? k.2 = some m ∧ m.companyId = g.companyId

section Rows

variable {s : Database} {env : ReadEnv} {q : Query} {a : Answer} {r : Record} {companyId : Uuid} {id : Bytes}

theorem memberFactByKcSub_eq_some {kcSub row} (h : s.memberFactByKcSub companyId kcSub = some row) :
    s.members.get? row.1 = some row.2 ∧ row.2.companyId = companyId ∧
      ∃ sub, s.linkedSub row.1 = some sub ∧ utf8 sub = kcSub := by
  have hrow := find?_some h
  rw [Bool.and_eq_true, decide_eq_true_eq, Option.any_eq_true] at hrow
  obtain ⟨hco, sub, hsub, heq⟩ := hrow
  exact ⟨get?_eq_some_iff.mpr (mem_of_find?_eq_some h), hco, sub, hsub, of_decide_eq_true heq⟩

theorem activeMember_of_required (h : s.requireMemberOrAdmin false q companyId = true) :
    s.ActiveMember (q.get "kcSub") companyId := by
  rw [Database.requireMemberOrAdmin, Bool.and_eq_true, Bool.or_false, Option.any_eq_true] at h
  obtain ⟨_, row, hrow, hact⟩ := h
  rw [Bool.and_eq_true, Bool.not_eq_true'] at hact
  obtain ⟨hget, hco, sub, hsub, heq⟩ := memberFactByKcSub_eq_some hrow
  exact ⟨row.1, row.2, sub, hget, hco, hsub, heq, hact.1, hact.2⟩

theorem mem_listing {ids view} (h : listing env q ids view = some a) (hr : r ∈ a.records) :
    ∃ id ∈ ids, r ∈ view id := by
  obtain ⟨window, _, rfl⟩ := Option.map_eq_some_iff.mp h
  obtain ⟨id, hid, hr⟩ := mem_flatMap.mp hr
  exact ⟨id, window.pick_subset ids hid, hr⟩

theorem mem_handleDirectory {ids view} (hview : ∀ companyId id, id ∈ ids companyId → s.Belongs (view id) companyId)
    (h : handleDirectory s env false q id ids view = some a) (hr : r ∈ a.records) :
    ∃ companyId, parseUuid id = some companyId ∧ s.Belongs r companyId ∧
      s.ActiveMember (q.get "kcSub") companyId := by
  obtain ⟨companyId, hparse, h⟩ := Option.bind_eq_some_iff.mp h
  obtain ⟨hreq, h⟩ := Option.ite_none_right_eq_some.mp h
  obtain ⟨id', hid, hr⟩ := mem_listing h hr
  rw [mem_singleton] at hr
  subst hr
  exact ⟨companyId, hparse, hview companyId id' hid, activeMember_of_required hreq⟩

theorem belongs_activeMembersOf (companyId id : Uuid) (h : id ∈ s.activeMembersOf companyId) :
    s.Belongs (.member id) companyId := by
  obtain ⟨m, hm, hp⟩ := exists_get?_of_mem_filter h
  exact ⟨m, hm, of_decide_eq_true (Bool.and_eq_true_iff.mp hp).1⟩

theorem belongs_membersOf (companyId id : Uuid) (h : id ∈ s.membersOf companyId) :
    s.Belongs (.member id) companyId := by
  obtain ⟨m, hm, hp⟩ := exists_get?_of_mem_filter h
  exact ⟨m, hm, of_decide_eq_true hp⟩

theorem belongs_positionsOf (companyId id : Uuid) (h : id ∈ s.positionsOf companyId) :
    s.Belongs (.position id) companyId := by
  obtain ⟨p, hp, hco⟩ := exists_get?_of_mem_filter h
  exact ⟨p, hp, of_decide_eq_true hco⟩

theorem belongs_groupsOf (companyId id : Uuid) (h : id ∈ s.groupsOf companyId) :
    s.Belongs (.group id) companyId := by
  obtain ⟨g, hg, hco⟩ := exists_get?_of_mem_filter h
  exact ⟨g, hg, of_decide_eq_true hco⟩

theorem belongs_activeGroupsOf (companyId id : Uuid) (h : id ∈ s.activeGroupsOf companyId) :
    s.Belongs (.group id) companyId := by
  obtain ⟨g, hg, hp⟩ := exists_get?_of_mem_filter h
  exact ⟨g, hg, of_decide_eq_true (Bool.and_eq_true_iff.mp hp).1⟩

theorem belongs_assignmentRecords (hbound : CompanyBound s) {row p}
    (hrow : row ∈ s.assignments.rows) (hp : s.positions.get? row.2.positionId = some p)
    (hr : r ∈ Database.assignmentRecords row) : s.Belongs r p.companyId := by
  have hget := get?_eq_some_iff.mpr hrow
  obtain ⟨p', m, hp', hm, hco⟩ := hbound.assigned row.1 row.2 hget
  cases hp'.symm.trans hp
  simp only [Database.assignmentRecords, mem_cons, not_mem_nil, or_false] at hr
  rcases hr with rfl | rfl
  · exact ⟨row.2, p, hget, hp, rfl⟩
  · exact ⟨m, hm, hco⟩

theorem belongs_positionWithHolder (hbound : CompanyBound s) {today id}
    (hid : id ∈ s.positionsOf companyId) (hr : r ∈ s.positionWithHolder today id) :
    s.Belongs r companyId := by
  rcases mem_cons.mp hr with rfl | hr
  · exact belongs_positionsOf companyId id hid
  obtain ⟨p, hp, hco⟩ := belongs_positionsOf companyId id hid
  obtain ⟨row, hrow, hr⟩ := mem_flatMap.mp hr
  obtain ⟨hmem, hcond⟩ := List.mem_filter.mp hrow
  have hpos : row.2.positionId = id := of_decide_eq_true (Bool.and_eq_true_iff.mp hcond).1
  rw [← hco]
  exact belongs_assignmentRecords hbound hmem (hpos ▸ hp) hr

theorem belongs_listGroupMembers (hbound : CompanyBound s) {groupId} (hr : r ∈ s.listGroupMembers groupId) :
    ∃ g, s.groups.get? groupId = some g ∧ s.Belongs r g.companyId := by
  obtain ⟨row, hrow, rfl⟩ := mem_map.mp hr
  obtain ⟨hmem, hcond⟩ := List.mem_filter.mp hrow
  obtain ⟨g, m, hg, hm, hco⟩ := hbound.grouped row.1 row.2 (get?_eq_some_iff.mpr hmem)
  have hgroup : row.1.1 = groupId := of_decide_eq_true (Bool.and_eq_true_iff.mp hcond).1
  exact ⟨g, hgroup ▸ hg, m, hm, hco⟩

theorem mem_handleAdminPositionList (hbound : CompanyBound s)
    (h : handleAdminPositionList s env q id = some a) (hr : r ∈ a.records) :
    ∃ companyId, parseUuid id = some companyId ∧ s.Belongs r companyId := by
  obtain ⟨companyId, hparse, h⟩ := Option.bind_eq_some_iff.mp h
  obtain ⟨today, _, h⟩ := Option.bind_eq_some_iff.mp h
  obtain ⟨id', hid, hr⟩ := mem_listing h hr
  exact ⟨companyId, hparse, belongs_positionWithHolder hbound hid hr⟩

theorem mem_handleAdminGroupList (h : handleAdminGroupList s env q id = some a) (hr : r ∈ a.records) :
    ∃ companyId, parseUuid id = some companyId ∧ s.Belongs r companyId := by
  obtain ⟨companyId, hparse, h⟩ := Option.bind_eq_some_iff.mp h
  obtain ⟨id', hid, hr⟩ := mem_listing h hr
  rw [mem_singleton] at hr
  subst hr
  exact ⟨companyId, hparse, belongs_groupsOf companyId id' hid⟩

theorem mem_handleListGroupMembers (hbound : CompanyBound s)
    (h : handleListGroupMembers s false q id = some a) (hr : r ∈ a.records) :
    ∃ groupId g, parseUuid id = some groupId ∧ s.groups.get? groupId = some g ∧
      s.Belongs r g.companyId ∧ (q.get "kcSub" ≠ [] → s.ActiveMember (q.get "kcSub") g.companyId) := by
  obtain ⟨groupId, hparse, h⟩ := Option.bind_eq_some_iff.mp h
  split at h
  · obtain ⟨g, hg, h⟩ := Option.bind_eq_some_iff.mp h
    obtain ⟨hreq, h⟩ := Option.ite_none_right_eq_some.mp h
    cases h
    obtain ⟨g', hg', hbel⟩ := belongs_listGroupMembers hbound hr
    cases hg'.symm.trans hg
    exact ⟨groupId, g, hparse, hg, hbel, fun _ => activeMember_of_required hreq⟩
  · rename_i hano
    cases h
    obtain ⟨g, hg, hbel⟩ := belongs_listGroupMembers hbound hr
    exact ⟨groupId, g, hparse, hg, hbel, fun hnamed => absurd hnamed hano⟩

theorem mem_handleHolderOnDate (hbound : CompanyBound s) (hnamed : q.get "kcSub" ≠ [])
    (h : handleHolderOnDate s env false q id = some a) (hr : r ∈ a.records) :
    ∃ companyId, s.Belongs r companyId ∧ s.ActiveMember (q.get "kcSub") companyId := by
  obtain ⟨positionId, _, h⟩ := Option.bind_eq_some_iff.mp h
  obtain ⟨date, _, h⟩ := Option.bind_eq_some_iff.mp h
  rw [if_pos hnamed] at h
  obtain ⟨p, hp, h⟩ := Option.bind_eq_some_iff.mp h
  obtain ⟨hreq, h⟩ := Option.ite_none_right_eq_some.mp h
  obtain ⟨row, hrow, rfl⟩ := Option.map_eq_some_iff.mp h
  have hcond := find?_some hrow
  rw [Bool.and_eq_true, decide_eq_true_eq] at hcond
  refine ⟨p.companyId, ?_, activeMember_of_required hreq⟩
  exact belongs_assignmentRecords hbound (mem_of_find?_eq_some hrow) (hcond.1 ▸ hp) hr

end Rows

end Kiban.Org
