import Kiban.Lib.Forest
import Kiban.Store.Statements

/-!
# The tables of the org service

The schema `org` with what its constraints and triggers refuse, and what the service reads beside it: the accounts of
identity and the enabled modules.  A `uuid.UUID` is its text and a date the number of its day.  A new row's random id
is an argument.

A transaction waits for the rows, the index entries and the advisory lock that another open one holds.  The share locks
of foreign keys are not modelled: that foreign keys hold is checked at the commit.
-/

namespace Kiban.Org

open Transactions Fallible Option

abbrev Uuid := String

abbrev Date := Int

/-! ## Rows -/

structure OrgUnit where
  typeKey : String
  parentId : Option Uuid
  (code name : String)
  isActive : Bool

structure MemberRow where
  companyId : Uuid
  (code displayName : String)
  email : Option String
  userId : Option Uuid
  (isActive isGuest : Bool)

structure Position where
  companyId : Uuid
  (code title : String)
  orgUnitId : Uuid

structure Assignment where
  (positionId memberId : Uuid)
  validFrom : Date
  validTo : Option Date

structure Group where
  companyId : Uuid
  (code name source : String)
  externalRef : Option String
  isActive : Bool

def Group.isKibanManaged (g : Group) : Bool := g.source = "kiban"

structure GroupMemberRow where
  addedBy : String
  addedAt : Int

structure Account where
  kcSub : String
  (email preferredUsername : Option String)
  (lifecycle kind : String)

structure Accounts extends Keyed.Table Uuid Account where
  unique : ∀ r ∈ rows, ∀ r' ∈ rows, r.2.kcSub = r'.2.kcSub → r.1 = r'.1

/-- The window is half-open: the day it ends is not covered. -/
def Assignment.Covers (a : Assignment) (d : Date) : Prop :=
  a.validFrom ≤ d ∧ ∀ e, a.validTo = some e → d < e

instance (a : Assignment) (d : Date) : Decidable (a.Covers d) :=
  inferInstanceAs (Decidable (_ ∧ ∀ e, a.validTo = some e → _))

/-- `daterange(…, '[)') && daterange(…, '[)')`: two windows have a day in common when they have the
later of their first days. -/
def Assignment.Overlaps (a b : Assignment) : Prop :=
  a.Covers (max a.validFrom b.validFrom) ∧ b.Covers (max a.validFrom b.validFrom)

instance (a b : Assignment) : Decidable (a.Overlaps b) := inferInstanceAs (Decidable (_ ∧ _))

structure Database where
  /-- The types of units, with `is_company`. -/
  unitTypes : Keyed.Table String Bool
  units : Keyed.Table Uuid OrgUnit
  members : Keyed.Table Uuid MemberRow
  positions : Keyed.Table Uuid Position
  assignments : Keyed.Table Uuid Assignment
  groups : Keyed.Table Uuid Group
  groupMembers : Keyed.Table (Uuid × Uuid) GroupMemberRow
  accounts : Accounts
  enabledModules : List String
  authz : Store

/-! ## Errors -/

inductive OrgError where
  | validation (field message : String)
  | conflict (constraint : String)
  | orgUnitNotFound
  | orgUnitHasChildren
  | orgUnitHasMembers
  | memberNotFound
  | positionNotFound
  | assignmentNotFound
  | assignmentAlreadyEnded
  | positionHeld (assignmentId memberId : Uuid)
  | referenced (table : String)
  | groupNotFound
  | groupMemberNotFound
  | groupExternallyManaged
  | store (context : String) (e : StoreError)
  | internal (cause : String)

def OrgError.memberInactive : OrgError := .validation "memberId" "member must be active"

def OrgError.userNotConfirmed : OrgError :=
  .validation "kcSub" "identity could not confirm this user exists"

def OrgError.crossCompanyAssignment : OrgError :=
  .validation "memberId" "member must belong to the position's company"

/-- What the server answers to a statement it refuses. -/
inductive PgError where
  | checkViolation (constraint message : String)
  | uniqueViolation (constraint : String)
  | exclusionViolation (constraint : String)
  | foreignKeyViolation (table constraint : String)
  | other (message : String)

def contains (s part : String) : Bool := s.toList.tails.any fun rest => part.toList.isPrefixOf rest

def fieldForConstraint (constraint : String) : String :=
  if contains constraint "org_unit_code" then "code"
  else if contains constraint "org_unit_name" then "name"
  else if contains constraint "org_unit_parent" then "parentId"
  else if contains constraint "org_unit_type" then "typeKey"
  else if contains constraint "member_code" then "code"
  else if contains constraint "member_display_name" then "displayName"
  else if contains constraint "member_company_id" then "companyId"
  else if contains constraint "member_user_id" then "userId"
  else if contains constraint "position_assignment" then "validFrom"
  else if contains constraint "position_" then "code"
  else constraint

def classifyPgError : PgError → OrgError
  | .checkViolation constraint message => .validation (fieldForConstraint constraint) message
  | .uniqueViolation constraint => .conflict constraint
  | .exclusionViolation _ => .conflict "overlapping assignment"
  | .foreignKeyViolation _ constraint =>
    .validation (fieldForConstraint constraint) "referenced row does not exist"
  | .other message => .internal message

def classifyDeleteError : PgError → OrgError
  | .foreignKeyViolation table _ => .referenced table
  | e => classifyPgError e

/-- `RAISE EXCEPTION … USING ERRCODE = 'check_violation'` names no constraint. -/
def raised (message : String) : PgError := .checkViolation "" message

def noRows : PgError := .other "no rows in result set"

/-! ## Texts -/

def isSpace (c : Char) : Bool :=
  let n := c.toNat
  (9 ≤ n ∧ n ≤ 13) ∨ n = 0x20 ∨ n = 0x85 ∨ n = 0xA0 ∨ n = 0x1680 ∨ (0x2000 ≤ n ∧ n ≤ 0x200A) ∨
    n = 0x2028 ∨ n = 0x2029 ∨ n = 0x202F ∨ n = 0x205F ∨ n = 0x3000

def trimSpace (s : String) : String :=
  .ofList ((s.toList.dropWhile isSpace).reverse.dropWhile isSpace).reverse

-- The runes whose upper case is ASCII.  A code with any other letter beyond ASCII is refused in
-- either case.
def toUpper (c : Char) : Char :=
  if c = 'ı' then 'I' else if c = 'ſ' then 'S' else c.toUpper

def fields (s : List Char) : List (List Char) := (s.splitOnP isSpace).filter (· ≠ [])

def normalizeCode (code : String) : String :=
  .ofList (['-'].intercalate (fields ((trimSpace code).toList.map toUpper)))

def isCodeChar (c : Char) : Bool := ('A' ≤ c ∧ c ≤ 'Z') ∨ c.isDigit ∨ c = '_' ∨ c = '-'

def codeNamePattern (code : String) : Bool :=
  2 ≤ code.toList.length ∧ code.toList.length ≤ 32 ∧ code.toList.all isCodeChar

def validateCode (field code : String) : Except OrgError Unit :=
  if codeNamePattern code then .ok ()
  else .error (.validation field "must match ^[A-Z0-9_-]\x7b2,32\x7d$ after trim/upper/spaces→-")

-- the length of a Go string is in bytes
def validateNameLen (field name : String) (min max : Nat) : Except OrgError Unit :=
  if name.utf8ByteSize < min ∨ name.utf8ByteSize > max then
    .error (.validation field ("length must be between " ++ toString min ++ " and " ++ toString max))
  else .ok ()

def strOrNil (s : String) : Option String := if s = "" then none else some s

/-! ## Constraints -/

def refuseIf (c : Prop) [Decidable c] (e : PgError) : Except PgError Unit := if c then .error e else .ok ()

theorem refuseIf_eq_ok {c : Prop} [Decidable c] {e u} : refuseIf c e = .ok u ↔ ¬ c := by
  unfold refuseIf
  by_cases hc : c
  · simp [hc]
  · simp [hc]

def checkText (texts : List String) : Except PgError Unit :=
  refuseIf (¬ texts.all fun s => IsText s) (.other "invalid byte sequence for encoding \"UTF8\": 0x00")

def check (constraint table : String) (holds : Bool) : Except PgError Unit :=
  refuseIf (¬ holds) (.checkViolation constraint ("new row for relation \"" ++ table ++
    "\" violates check constraint \"" ++ constraint ++ "\""))

-- `char_length` counts characters
def charLengthBetween (s : String) (min max : Nat) : Bool :=
  min ≤ s.toList.length ∧ s.toList.length ≤ max

def unique (constraint : String) (free : Bool) : Except PgError Unit :=
  refuseIf (¬ free) (.uniqueViolation constraint)

theorem unique_eq_ok {constraint free u} : unique constraint free = .ok u ↔ free = true := by
  unfold unique
  rw [refuseIf_eq_ok, not_not]

def foreignKey (table constraint : String) (found : Bool) : Except PgError Unit :=
  refuseIf (¬ found) (.foreignKeyViolation table constraint)

/-! ## The tree -/

namespace Database

variable {s : Database} {id : Uuid} {u : Unit} {a : Assignment}

/-- The unit's parent, if there is such a unit. -/
def node (s : Database) (id : Uuid) : Option (Option Uuid) := (s.units.get? id).map OrgUnit.parentId

def unitIds (s : Database) : List Uuid := s.units.rows.map Prod.fst

/-- `WITH RECURSIVE chain`: a unit and those above it.  The query has no bound, the walk has one that
no chain without a cycle gets to. -/
def chain (s : Database) (id : Uuid) : List Uuid := Forest.walk s.node (s.unitIds.length + 1) id

/-- `SELECT id FROM chain WHERE parent_id IS NULL` -/
def rootOf (s : Database) (id : Uuid) : Option Uuid := (s.chain id).find? fun u => s.node u = some none

def children (s : Database) (id : Uuid) : List Uuid :=
  (s.units.rows.filter fun r => r.2.parentId = some id).map Prod.fst

/-- `WITH RECURSIVE subtree`: a unit and those below it. -/
def subtree (s : Database) (depth : Nat) (id : Uuid) : List Uuid :=
  if (s.units.get? id).isSome then Forest.descend s.children depth [id] else []

def companyTyped (s : Database) (id : Uuid) : Bool :=
  match s.units.get? id with
  | none => false
  | some u => (s.unitTypes.get? u.typeKey).getD false

def checkCycle (s : Database) (id : Uuid) (parentId : Option Uuid) : Except PgError Unit :=
  match parentId with
  | none => .ok ()
  | some p =>
    refuseIf (Forest.meets s.node id (s.unitIds.length + 1) p [])
      (raised ("org.org_unit " ++ id ++ " cannot move under this parent chain: " ++ id ++
        " is already an ancestor of the candidate parent, the move would create a cycle"))

/-- `validate_org_unit_move_company`, where the parent changes. -/
def validateOrgUnitMoveCompany (s : Database) (id : Uuid) (parentId : Option Uuid) : Except PgError Unit :=
  let oldRoot := s.rootOf id
  let newRoot := match parentId with
    | none => some id
    | some p => s.rootOf p
  refuseIf (oldRoot ≠ newRoot ∧ s.positions.rows.any fun r =>
      r.2.orgUnitId ∈ s.subtree s.unitIds.length id ∧ some r.2.companyId ≠ newRoot)
    (raised ("org.org_unit " ++ id ++ " cannot move under a new parent: its subtree still holds " ++
      "position(s) belonging to company " ++ oldRoot.getD "<NULL>" ++ " (the pre-move root) — reassign or " ++
      "delete those positions before moving this subtree under company " ++ newRoot.getD "<NULL>"))

/-! ## What the constraints and triggers refuse -/

def checkOrgUnit (s : Database) (id : Uuid) (u : OrgUnit) : Except PgError Unit := do
  check "org_unit_code_check" "org_unit" (codeNamePattern u.code)
  check "org_unit_name_check" "org_unit" (charLengthBetween u.name 2 120)
  check "org_unit_check" "org_unit" (u.parentId ≠ some id)
  -- two partial indexes, one for the roots
  unique (if u.parentId = none then "org_unit_root_code_unique" else "org_unit_code_unique")
    (s.units.rows.all fun r => r.1 = id ∨ r.2.parentId ≠ u.parentId ∨ r.2.code ≠ u.code)
  foreignKey "org_unit" "org_unit_type_key_fkey" (s.unitTypes.get? u.typeKey).isSome
  foreignKey "org_unit" "org_unit_parent_id_fkey" (u.parentId.all fun p => (s.units.get? p).isSome)

def checkInsertOrgUnit (s : Database) (id : Uuid) (u : OrgUnit) : Except PgError Unit := do
  checkText [u.typeKey, u.code, u.name]
  s.checkCycle id u.parentId
  unique "org_unit_pkey" (s.units.get? id).isNone
  s.checkOrgUnit id u

/-- The triggers look at the parent only where the statement changes it. -/
def checkMoved (s : Database) (id : Uuid) (old new : Option Uuid) : Except PgError Unit :=
  if old = new then .ok ()
  else do
    s.checkCycle id new
    s.validateOrgUnitMoveCompany id new

def checkUpdateOrgUnit (s : Database) (id : Uuid) (old new : OrgUnit) : Except PgError Unit := do
  checkText [new.code, new.name]
  s.checkMoved id old.parentId new.parentId
  s.checkOrgUnit id new

/-- The rows that keep a unit from being deleted. -/
def checkDeleteOrgUnit (s : Database) (id : Uuid) : Except PgError Unit := do
  foreignKey "org_unit" "org_unit_parent_id_fkey" (s.units.rows.all fun r => r.2.parentId ≠ some id)
  foreignKey "member" "member_company_id_fkey" (s.members.rows.all fun r => r.2.companyId ≠ id)
  foreignKey "position" "position_company_id_fkey" (s.positions.rows.all fun r => r.2.companyId ≠ id)
  foreignKey "position" "position_org_unit_id_fkey" (s.positions.rows.all fun r => r.2.orgUnitId ≠ id)
  foreignKey "group" "group_company_id_fkey" (s.groups.rows.all fun r => r.2.companyId ≠ id)

def checkMember (s : Database) (id : Uuid) (m : MemberRow) : Except PgError Unit := do
  check "member_code_check" "member" (codeNamePattern m.code)
  check "member_display_name_check" "member" (charLengthBetween m.displayName 1 120)
  unique "member_company_id_code_key"
    (s.members.rows.all fun r => r.1 = id ∨ r.2.companyId ≠ m.companyId ∨ r.2.code ≠ m.code)
  unique "member_company_user_unique" (m.userId = none ∨ s.members.rows.all fun r =>
      r.1 = id ∨ r.2.companyId ≠ m.companyId ∨ r.2.userId ≠ m.userId)
  foreignKey "member" "member_user_id_fkey" (m.userId.all fun u => (s.accounts.get? u).isSome)

def checkInsertMember (s : Database) (id : Uuid) (m : MemberRow) : Except PgError Unit := do
  checkText [m.code, m.displayName, m.email.getD ""]
  -- `validate_member_company`
  refuseIf (¬ s.companyTyped m.companyId)
    (raised ("org.member.company_id must reference a company-typed org_unit (got " ++ m.companyId ++ ")"))
  unique "member_pkey" (s.members.get? id).isNone
  s.checkMember id m

theorem checkInsertMember_eq_ok {m} (h : s.checkInsertMember id m = .ok u) : s.members.get? id = none := by
  unfold checkInsertMember at h
  obtain ⟨_, _, h⟩ := bind_eq_ok.mp h
  obtain ⟨_, _, h⟩ := bind_eq_ok.mp h
  obtain ⟨_, hfree, _⟩ := bind_eq_ok.mp h
  exact isNone_iff_eq_none.mp (unique_eq_ok.mp hfree)

def validatePositionCompany (s : Database) (p : Position) : Except PgError Unit := do
  refuseIf (¬ s.companyTyped p.companyId)
    (raised ("org.position.company_id must reference a company-typed org_unit (got " ++ p.companyId ++ ")"))
  refuseIf (p.companyId ∉ s.chain p.orgUnitId) (raised ("org.position.org_unit_id (" ++ p.orgUnitId ++
      ") must sit beneath org.position.company_id (" ++ p.companyId ++ ") in the org_unit tree"))

def checkPosition (s : Database) (id : Uuid) (p : Position) : Except PgError Unit := do
  checkText [p.code, p.title]
  s.validatePositionCompany p
  check "position_code_check" "position" (codeNamePattern p.code)
  check "position_title_check" "position" (charLengthBetween p.title 1 120)
  unique "position_company_id_code_key"
    (s.positions.rows.all fun r => r.1 = id ∨ r.2.companyId ≠ p.companyId ∨ r.2.code ≠ p.code)

def checkInsertPosition (s : Database) (id : Uuid) (p : Position) : Except PgError Unit := do
  s.checkPosition id p
  unique "position_pkey" (s.positions.get? id).isNone

/-- `CHECK (valid_to IS NULL OR valid_to >= valid_from)` and the exclusion constraint. -/
def checkWindow (s : Database) (id : Uuid) (a : Assignment) : Except PgError Unit := do
  check "position_assignment_check" "position_assignment" (a.validTo.all fun e => a.validFrom ≤ e)
  refuseIf (s.assignments.rows.any fun r => r.1 ≠ id ∧ r.2.positionId = a.positionId ∧ r.2.Overlaps a)
    (.exclusionViolation "position_assignment_no_overlap")

def checkInsertAssignment (s : Database) (id : Uuid) (a : Assignment) : Except PgError Unit := do
  -- `validate_assignment_company`
  let posCompany := (s.positions.get? a.positionId).map Position.companyId
  let memCompany := (s.members.get? a.memberId).map MemberRow.companyId
  refuseIf (posCompany ≠ memCompany) (raised ("org.position_assignment: member " ++ a.memberId ++ " (company " ++
      memCompany.getD "<NULL>" ++ ") does not belong to position " ++ a.positionId ++ "'s company (" ++
      posCompany.getD "<NULL>" ++ ")"))
  unique "position_assignment_pkey" (s.assignments.get? id).isNone
  s.checkWindow id a
  foreignKey "position_assignment" "position_assignment_position_id_fkey" posCompany.isSome
  foreignKey "position_assignment" "position_assignment_member_id_fkey" memCompany.isSome

theorem checkWindow_eq_ok (h : s.checkWindow id a = .ok u) {id' a'}
    (hget : s.assignments.get? id' = some a') (hne : id' ≠ id) (hpos : a'.positionId = a.positionId) :
    ¬ a'.Overlaps a := by
  unfold checkWindow at h
  obtain ⟨_, _, h⟩ := bind_eq_ok.mp h
  intro hove
  refine refuseIf_eq_ok.mp h (List.any_eq_true.mpr ⟨(id', a'), Keyed.Table.get?_eq_some_iff.mp hget, ?_⟩)
  exact decide_eq_true ⟨hne, hpos, hove⟩

structure CheckedAssignment (s : Database) (id : Uuid) (a : Assignment) : Prop where
  fresh : s.assignments.get? id = none
  apart : ∀ id' a', s.assignments.get? id' = some a' → a'.positionId = a.positionId → ¬ a'.Overlaps a
  company : ∃ p m, s.positions.get? a.positionId = some p ∧ s.members.get? a.memberId = some m ∧
    m.companyId = p.companyId

theorem checkInsertAssignment_eq_ok (h : s.checkInsertAssignment id a = .ok u) : CheckedAssignment s id a := by
  unfold checkInsertAssignment at h
  obtain ⟨_, hco, h⟩ := bind_eq_ok.mp h
  obtain ⟨_, hfree, h⟩ := bind_eq_ok.mp h
  obtain ⟨_, hwin, h⟩ := bind_eq_ok.mp h
  obtain ⟨_, hposi, _⟩ := bind_eq_ok.mp h
  have hfresh := isNone_iff_eq_none.mp (unique_eq_ok.mp hfree)
  refine ⟨hfresh, fun id' a' hget hpos => checkWindow_eq_ok hwin hget ?_ hpos, ?_⟩
  · rintro rfl
    exact nomatch hget.symm.trans hfresh
  have hco := not_not.mp (refuseIf_eq_ok.mp hco)
  have hposi := not_not.mp (refuseIf_eq_ok.mp hposi)
  obtain ⟨p, hp⟩ := isSome_iff_exists.mp (isSome_map.symm.trans hposi)
  rw [hp, map_some] at hco
  obtain ⟨m, hm, hco⟩ := map_eq_some_iff.mp hco.symm
  exact ⟨p, m, hp, hm, hco⟩

/-- The trigger runs before the key is looked up, for a pair that is there as well. -/
def checkInsertGroupMember (s : Database) (groupId memberId : Uuid) (row : GroupMemberRow) :
    Except PgError Unit := do
  checkText [row.addedBy]
  let grpCompany := (s.groups.get? groupId).map Group.companyId
  let memCompany := (s.members.get? memberId).map MemberRow.companyId
  refuseIf (grpCompany ≠ memCompany)
    (raised ("org.group_member: member " ++ memberId ++ " (company " ++ memCompany.getD "<NULL>" ++
      ") does not belong to group " ++ groupId ++ "'s company (" ++ grpCompany.getD "<NULL>" ++ ")"))
  foreignKey "group_member" "group_member_group_id_fkey" grpCompany.isSome
  foreignKey "group_member" "group_member_member_id_fkey" memCompany.isSome

def foreignKeys (s : Database) : Bool :=
  (s.units.rows.all fun r =>
      (s.unitTypes.get? r.2.typeKey).isSome ∧ r.2.parentId.all fun p => (s.units.get? p).isSome) ∧
    (s.members.rows.all fun r =>
      (s.units.get? r.2.companyId).isSome ∧ r.2.userId.all fun u => (s.accounts.get? u).isSome) ∧
    (s.positions.rows.all fun r =>
      (s.units.get? r.2.companyId).isSome ∧ (s.units.get? r.2.orgUnitId).isSome) ∧
    (s.assignments.rows.all fun r =>
      (s.positions.get? r.2.positionId).isSome ∧ (s.members.get? r.2.memberId).isSome) ∧
    (s.groups.rows.all fun r => (s.units.get? r.2.companyId).isSome) ∧
    (s.groupMembers.rows.all fun r => (s.groups.get? r.1.1).isSome ∧ (s.members.get? r.1.2).isSome)

end Database

/-! ## Transactions -/

inductive Lock where
  | tree
  | unit (id : Uuid)
  | unitCode (parentId : Option Uuid) (code : String)
  | member (id : Uuid)
  | memberCode (companyId : Uuid) (code : String)
  | memberUser (companyId userId : Uuid)
  | position (id : Uuid)
  | positionCode (companyId : Uuid) (code : String)
  | assignment (id : Uuid)
  | groupMember (groupId memberId : Uuid)
  | authz (k : AuthzLock)
deriving DecidableEq

/-- The statements, by the names of their queries. -/
inductive Stmt where
  | lockOrgTree
  | getOrgUnitType
  | createOrgUnit
  | getOrgUnit
  | updateOrgUnit
  | lockOrgUnit
  | deleteOrgUnit
  | countOrgUnitChildren
  | countMembersForCompany
  | subtreeOrgUnits
  | resolveRootCompany
  | subtreeHasPositions
  | orgUnitUnderCompany
  | memberCompanyID
  | createMember
  | getMember
  | updateMember (id : Uuid) (isActive : Bool)
  | linkMemberUser
  | unlinkMemberUser
  | getMemberWithUser
  | getIdentityUserByKcSub
  | createPosition
  | getPosition
  | updatePosition
  | createAssignment
  | getAssignment
  | endAssignment
  | countOtherOpenAssignments
  | getAssignmentOnDate
  | getGroup
  | addGroupMember
  | getGroupMember
  | removeGroupMember
  | enabledModuleKeys
  | audit
  | authz (label : AuthzStmt)
deriving DecidableEq

inductive Write where
  | insertOrgUnit (id : Uuid) (u : OrgUnit)
  | updateOrgUnit (id : Uuid) (parentId : Option Uuid) (code name : String) (isActive : Bool)
  | deleteOrgUnit (id : Uuid)
  | insertMember (id : Uuid) (m : MemberRow)
  | updateMember (id : Uuid) (displayName : String) (email : Option String) (isActive : Bool)
      (isGuest : Option Bool)
  | setMemberUser (id : Uuid) (userId : Option Uuid)
  | insertPosition (id : Uuid) (p : Position)
  | updatePosition (id : Uuid) (title : String) (orgUnitId : Uuid)
  | insertAssignment (id : Uuid) (a : Assignment)
  | endAssignment (id : Uuid) (validTo : Date)
  | insertGroupMember (groupId memberId : Uuid) (row : GroupMemberRow)
  | deleteGroupMember (groupId memberId : Uuid)
  | authz (w : AuthzWrite)

def OrgUnit.update (u : OrgUnit) (parentId : Option Uuid) (code name : String) (isActive : Bool) : OrgUnit :=
  { u with parentId := parentId, code := code, name := name, isActive := isActive }

def MemberRow.update (m : MemberRow) (displayName : String) (email : Option String) (isActive : Bool)
    (isGuest : Option Bool) : MemberRow :=
  { m with displayName := displayName, email := email, isActive := isActive,
           isGuest := isGuest.getD m.isGuest }

def MemberRow.setUser (m : MemberRow) (userId : Option Uuid) : MemberRow := { m with userId := userId }

def Position.update (p : Position) (title : String) (orgUnitId : Uuid) : Position :=
  { p with title := title, orgUnitId := orgUnitId }

def Assignment.endAt (a : Assignment) (validTo : Date) : Assignment := { a with validTo := some validTo }

def Database.apply (s : Database) : Write → Database
  | .insertOrgUnit id u => { s with units := s.units.insertMissing id u }
  | .updateOrgUnit id parentId code name isActive =>
    { s with units := s.units.modify id fun u => u.update parentId code name isActive }
  | .deleteOrgUnit id => { s with units := s.units.erase id }
  | .insertMember id m => { s with members := s.members.insertMissing id m }
  | .updateMember id displayName email isActive isGuest =>
    { s with members := s.members.modify id fun m => m.update displayName email isActive isGuest }
  | .setMemberUser id userId => { s with members := s.members.modify id fun m => m.setUser userId }
  | .insertPosition id p => { s with positions := s.positions.insertMissing id p }
  | .updatePosition id title orgUnitId =>
    { s with positions := s.positions.modify id fun p => p.update title orgUnitId }
  | .insertAssignment id a => { s with assignments := s.assignments.insertMissing id a }
  | .endAssignment id validTo =>
    { s with assignments := s.assignments.modify id fun a => a.endAt validTo }
  | .insertGroupMember groupId memberId row =>
    { s with groupMembers := s.groupMembers.insertMissing (groupId, memberId) row }
  | .deleteGroupMember groupId memberId =>
    { s with groupMembers := s.groupMembers.erase (groupId, memberId) }
  | .authz w => { s with authz := s.authz.apply w }

def schema : Schema Database Write := ⟨Database.apply, Database.foreignKeys⟩

abbrev OrgTx (α : Type) := Prog Database Write Lock Stmt OrgError α

abbrev Past := Trail Write Lock Stmt

namespace OrgTx

def get {α : Type} (label : Stmt) (find : Database → Option α) (missing : OrgError) : OrgTx α :=
  .read label fun s =>
    match find s with
    | some a => .ok a
    | none => .error missing

def query {α : Type} (label : Stmt) (answer : Database → α) : OrgTx α :=
  .read label fun s => .ok (answer s)

/-- A statement that writes if the constraints and triggers let it. -/
def write (label : Stmt) (locks : List Lock) (refuse : Database → Except PgError Unit) (w : Write) : OrgTx Unit :=
  .exec label (fun _ => []) (fun _ => locks) fun s =>
    ((refuse s).map fun _ => ((), [w])).mapError classifyPgError

/-- An `UPDATE … WHERE id = $1 RETURNING *`: it locks the row it finds and answers what becomes of it. -/
def update {α : Type} (label : Stmt) (row : Database → Option α) (locks : α → List Lock)
    (missing : OrgError) (change : α → α) (refuse : Database → α → Except PgError Unit) (w : Write) :
    OrgTx α :=
  .exec label (fun _ => []) (fun s => match row s with
      | some a => locks a
      | none => [])
    fun s =>
      match row s with
      | none => .error missing
      | some a => ((refuse s a).map fun _ => (change a, [w])).mapError classifyPgError

/-- What the authz store does inside the transaction. -/
def authz {α : Type} (context : String) (p : AuthzTx α) : OrgTx α :=
  p.lift Database.authz Write.authz Lock.authz Stmt.authz (OrgError.store context)

def failIf (c : Prop) [Decidable c] (e : OrgError) : OrgTx Unit := if c then .fail e else pure ()

def whenever (c : Prop) [Decidable c] (p : OrgTx Unit) : OrgTx Unit := if c then p else pure ()

/-- The audit row is in a table that nothing here reads. -/
def audit : OrgTx Unit := query .audit fun _ => ()

def lockOrgTree : OrgTx Unit :=
  .exec .lockOrgTree (fun _ => []) (fun _ => [.tree]) fun _ => .ok ((), [])

/-! ### Alone -/

/-- A transaction that runs alone.  A refused one is rolled back, so it is no step of the database. -/
def commit (s : Database) (p : OrgTx Unit) : Option Database :=
  (p.run Database.apply s).toOption.map Prod.snd

def call {α : Type} (p : OrgTx α) : OrgTx Unit := do
  let _ ← p
  pure ()

section Alone

variable {α : Type} {label : Stmt} {s s' : Database} {a : α}
  {missing : OrgError} {u : Unit} {context : String} {au : Author}

theorem commit_call {p : OrgTx α} : commit s (call p) = some s' ↔ ∃ a, p.run Database.apply s = .ok (a, s') := by
  unfold commit call
  rw [map_eq_some_iff]
  constructor
  · rintro ⟨r, hr, rfl⟩
    obtain ⟨a, s₁, hp, hlast⟩ := Prog.run_bind_eq_ok.mp (toOption_eq_some.mp hr)
    cases hlast
    exact ⟨a, hp⟩
  · rintro ⟨a, hp⟩
    exact ⟨((), s'), toOption_eq_some.mpr (Prog.run_bind_eq_ok.mpr ⟨a, s', hp, rfl⟩), rfl⟩

theorem run_get {find} :
    (get label find missing).run Database.apply s = .ok (a, s') ↔ find s = some a ∧ s = s' := by
  unfold get
  rw [Prog.run_read]
  cases find s with
  | none => exact ⟨nofun, nofun⟩
  | some a' => simp [Except.map, eq_comm]

theorem run_query {answer} : (query label answer).run Database.apply s = .ok (a, s') ↔ answer s = a ∧ s = s' := by
  unfold query
  rw [Prog.run_read]
  simp [Except.map, eq_comm]

theorem run_write {locks refuse w} : (write label locks refuse w).run Database.apply s = .ok (u, s') ↔
      refuse s = .ok () ∧ s.apply w = s' := by
  unfold write
  rw [Prog.run_exec]
  cases refuse s with
  | error e => exact ⟨nofun, nofun⟩
  | ok v => simp [Except.map, Except.mapError, eq_comm]

theorem run_update {row locks change refuse w} :
    (update label row locks missing change refuse w).run Database.apply s = .ok (a, s') ↔
      ∃ old, row s = some old ∧ refuse s old = .ok () ∧ change old = a ∧ s.apply w = s' := by
  unfold update
  rw [Prog.run_exec]
  cases hrow : row s with
  | none => simp [Except.map]
  | some old =>
    cases hrfs : refuse s old with
    | error e => simp [Except.map, Except.mapError, hrfs]
    | ok v => simp [Except.map, Except.mapError, hrfs, eq_comm]

theorem run_authz {p} : (authz context p).run Database.apply s = .ok (a, s') ↔
      ∃ z, p.run Store.apply s.authz = .ok (a, z) ∧ { s with authz := z } = s' := by
  unfold authz
  rw [Prog.run_lift Database.authz (fun s z => { s with authz := z }) (fun _ _ => rfl) (fun _ => rfl)
    (fun _ _ _ => rfl) fun _ _ => rfl]
  cases p.run Store.apply s.authz with
  | error e => simp [Except.map, Except.mapError]
  | ok r => simp [Except.map, Except.mapError, Prod.ext_iff, eq_comm]

theorem run_lockOrgTree : lockOrgTree.run Database.apply s = .ok (u, s') ↔ s = s' := by
  unfold lockOrgTree
  rw [Prog.run_exec]
  simp [Except.map, eq_comm]

theorem run_audit : audit.run Database.apply s = .ok (u, s') ↔ s = s' := by
  unfold audit
  rw [run_query]
  exact and_iff_right rfl

theorem run_failIf {c : Prop} [Decidable c] {e} :
    (failIf c e).run Database.apply s = .ok (u, s') ↔ ¬ c ∧ s = s' := by
  unfold failIf
  by_cases hc : c
  · rw [if_pos hc]
    exact ⟨nofun, fun h => absurd hc h.1⟩
  · rw [if_neg hc]
    exact ⟨fun h => ⟨hc, (Prod.mk.inj (Except.ok.inj h)).2⟩, fun h => congrArg Except.ok (by rw [h.2])⟩

theorem run_whenever {c : Prop} [Decidable c] {p} : (whenever c p).run Database.apply s = .ok (u, s') ↔
      (c ∧ p.run Database.apply s = .ok (u, s')) ∨ (¬ c ∧ s = s') := by
  unfold whenever
  by_cases hc : c
  · simp [hc]
  · simp [hc, Prog.run_pure, eq_comm]

theorem run_grant {t} (h : (authz context (.grant au [t])).run Database.apply s = .ok (u, s')) :
    ∃ z, { s with authz := z } = s' ∧ ¬ t.HasEmptyField ∧ ∀ t', t' ∈ z.tuple ↔ t' ∈ s.authz.tuple ∨ t' = t := by
  obtain ⟨z, hz, rfl⟩ := run_authz.mp h
  rw [AuthzTx.run_grant] at hz
  obtain ⟨z', hgrant, heq⟩ := map_eq_ok.mp hz
  cases heq
  have hstep : Store.grantTuple au s.authz t = .ok z := by
    simpa [Store.grant] using hgrant
  refine ⟨z, rfl, (ite_error_eq_ok.mp hstep).1, fun t' => ?_⟩
  rw [mem_grant hgrant, List.mem_singleton]

theorem run_revoke {t}
    (h : (authz context (.revokePositionOrMemberTuple au t)).run Database.apply s = .ok (u, s')) :
    ∃ z, { s with authz := z } = s' ∧ ∀ t', t' ∈ z.tuple ↔ t' ∈ s.authz.tuple ∧ t' ≠ t := by
  obtain ⟨z, hz, rfl⟩ := run_authz.mp h
  rw [AuthzTx.run_revokePositionOrMemberTuple] at hz
  obtain ⟨z', hrev, heq⟩ := map_eq_ok.mp hz
  cases heq
  exact ⟨z, rfl, mem_revokePositionOrMemberTuple hrev⟩

end Alone

/-! ### Beside others -/

section Beside

variable {α : Type} {label : Stmt} {Inv : Database → Prop} {R : Option Stmt → Past → Database → Database → Prop}
  {post : α → Past → Database → Prop} {done : Unit → Past → Database → Prop} {tr : Past} {c : Database}

theorem view_authz (ws : List AuthzWrite) (s : Database) :
    schema.view (ws.map Write.authz) s = { s with authz := ws.foldl Store.apply s.authz } :=
  Prog.foldl_lift Database.authz (fun s z => { s with authz := z }) (fun _ _ => rfl) (fun _ => rfl)
    (fun _ _ _ => rfl) (fun _ _ => rfl) ws s

section Writes

variable {P : Write → Prop} {missing : OrgError}

theorem writes_get {find : Database → Option α} : (get label find missing).Writes P :=
  Prog.writes_read

theorem writes_query {answer : Database → α} : (query label answer).Writes P := Prog.writes_read

theorem writes_audit : audit.Writes P := writes_query

theorem writes_update {row : Database → Option α} {locks : α → List Lock} {change : α → α}
    {refuse : Database → α → Except PgError Unit} {w} (h : P w) :
    (update label row locks missing change refuse w).Writes P := by
  refine Prog.writes_exec fun s r hr w' hw' => ?_
  split at hr
  · cases hr
  rename_i old _
  cases hrfs : refuse s old with
  | error e =>
    rw [hrfs] at hr
    cases hr
  | ok u =>
    rw [hrfs] at hr
    cases hr
    rw [List.mem_singleton.mp hw']
    exact h

theorem writes_authz {context : String} {p : AuthzTx α} (h : ∀ w, P (.authz w)) : (authz context p).Writes P :=
  (Prog.writes_any (P := fun _ => True) (fun _ => trivial) p).lift fun w _ => h w

theorem writes_failIf {p : Prop} [Decidable p] {e} : (failIf p e).Writes P := by
  unfold failIf
  split
  · trivial
  · trivial

theorem writes_whenever {p : Prop} [Decidable p] {q} (h : q.Writes P) : (whenever p q).Writes P := by
  unfold whenever
  split
  · exact h
  · trivial

end Writes

variable {missing : OrgError}

theorem lockOrgTree_wp
    (h : ∀ c', R (some .lockOrgTree) tr c c' → Inv c' → done () (tr.extend [] [.tree] .lockOrgTree) c') :
    lockOrgTree.wp schema Inv R done tr c := by
  refine Prog.wp_exec fun c' u new hR hInv hans => ?_
  cases hans
  exact h c' hR hInv

theorem call_wp {p : OrgTx α} (h : p.wp schema Inv R (fun _ => done ()) tr c) :
    (call p).wp schema Inv R done tr c := by
  unfold call
  rw [Prog.wp_bind, Prog.wp_pure]
  exact h

theorem get_wp {find} (h : ∀ c' a, R (some label) tr c c' → Inv c' →
      find (schema.view tr.writes c') = some a → post a { tr with log := tr.log ++ [label] } c') :
    (get label find missing).wp schema Inv R post tr c := by
  refine Prog.wp_read fun c' a hR hInv hans => ?_
  cases hfind : find (schema.view tr.writes c') with
  | none =>
    rw [hfind] at hans
    cases hans
  | some b =>
    rw [hfind] at hans
    cases hans
    exact h c' _ hR hInv hfind

theorem query_wp {answer} (h : ∀ c', R (some label) tr c c' → Inv c' →
      post (answer (schema.view tr.writes c')) { tr with log := tr.log ++ [label] } c') :
    (query label answer).wp schema Inv R post tr c := by
  refine Prog.wp_read fun c' a hR hInv hans => ?_
  cases hans
  exact h c' hR hInv

theorem write_wp {locks refuse w}
    (h : Yields schema Inv R done tr c label (refuse · = .ok ()) () [w] locks) :
    (write label locks refuse w).wp schema Inv R done tr c := by
  refine Prog.wp_exec fun c' a new hR hInv hans => ?_
  cases hrfs : refuse (schema.view tr.writes c') with
  | error e =>
    rw [hrfs] at hans
    cases hans
  | ok u =>
    rw [hrfs] at hans
    cases hans
    exact h c' hR hInv hrfs

theorem update_wp {row locks change refuse w}
    (h : ∀ old, Yields schema Inv R post tr c label (fun s => row s = some old ∧ refuse s old = .ok ())
      (change old) [w] (locks old)) :
    (update label row locks missing change refuse w).wp schema Inv R post tr c := by
  refine Prog.wp_exec fun c' a new hR hInv hans => ?_
  cases hrow : row (schema.view tr.writes c') with
  | none =>
    rw [hrow] at hans
    cases hans
  | some old =>
    cases hrfs : refuse (schema.view tr.writes c') old with
    | error e =>
      simp only [hrow, hrfs] at hans
      cases hans
    | ok u =>
      simp only [hrow, hrfs] at hans
      cases hans
      exact h old c' hR hInv ⟨hrow, hrfs⟩

theorem failIf_wp {p : Prop} [Decidable p] {e} (h : ¬ p → done () tr c) :
    (failIf p e).wp schema Inv R done tr c := by
  unfold failIf
  by_cases hp : p
  · rw [if_pos hp]
    exact Prog.wp_fail e
  · rw [if_neg hp]
    exact Prog.wp_ret (h hp)

theorem whenever_wp {p : Prop} [Decidable p] {q} (hdo : p → q.wp schema Inv R done tr c)
    (hskip : ¬ p → done () tr c) : (whenever p q).wp schema Inv R done tr c := by
  unfold whenever
  by_cases hp : p
  · rw [if_pos hp]
    exact hdo hp
  · rw [if_neg hp]
    exact Prog.wp_ret (hskip hp)

end Beside

end OrgTx

end Kiban.Org
