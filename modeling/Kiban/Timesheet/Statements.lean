import Kiban.Lib.Transactions
import Kiban.Timesheet.Store

/-!
# The timesheet's statements

The calls of the store as the statements they send.  A statement that looks rows up and locks them takes its candidates
from the rows committed when it starts, waits for each in turn, and goes on with those that still match: looking up and
locking are two statements where they can find different rows.  A lookup by `id` is one.  A row that no longer matches
is not kept locked (the server keeps it, and the others only wait longer).  A failed audit write, like every other
failure of the server, is a rollback.
-/

namespace Kiban.Timesheet

open Transactions

/-! ## Rows, locks and writes -/

inductive Write where
  | insertEntry (id : Uuid) (e : Entry)
  | rewriteEntry (id : Uuid) (realHours billableHours : Int)
  | setEntryStatus (id : Uuid) (status : EntryStatus)
  | deleteEntry (id : Uuid)
  | supersede (id : Uuid)
  | insertSubmission (id : Uuid) (s : Submission)
  | decide (id : Uuid) (actorKcSub : String) (approve : Bool) (reason : String)
  | insertSubmissionEntry (row : SubmissionEntry)
  | others (configuration : Keyed.Table Uuid Config) (project : Keyed.Table Uuid Project)
      (approverAssignment : Keyed.Table (Uuid × Uuid) Approver)

/-- Row locks, and the entries of the unique indexes while they are being written. -/
inductive Lock where
  | entry (id : Uuid)
  | entryKey (companyId memberId projectId : Uuid) (entryDate : Date)
  | submission (id : Uuid)
  -- `submission_current_unique`
  | current (companyId memberId : Uuid) (weekStart : Date)
  -- `submission_idempotency_key_unique`
  | idempotencyKey (companyId memberId : Uuid) (key : String)
deriving DecidableEq

inductive Stmt where
  | getConfig
  | getProject
  | findEntry
  | lockEntry
  | upsertEntry (i : UpsertInput)
  | deleteEntry
  | findSubmissionByIdempotencyKey
  | assignedApprover
  | draftEntries
  | lockDraft
  | currentSubmission
  | lockCurrent
  | supersede
  | insertSubmission
  | insertSubmissionEntry
  | markSubmitted
  | lockSubmission
  | updateSubmission
  | submittedEntries
  | updateEntry
  | others

def Entry.rewrite (e : Entry) (realHours billableHours : Int) : Entry :=
  { e with realHours, billableHours, status := .draft }

def Tables.apply (t : Tables) : Write → Tables
  | .insertEntry id e => { t with entry := t.entry.insertMissing id e }
  | .rewriteEntry id realHours billableHours =>
    { t with entry := t.entry.modify id (·.rewrite realHours billableHours) }
  | .setEntryStatus id status => { t with entry := t.entry.modify id fun e => { e with status } }
  | .deleteEntry id => { t with entry := t.entry.erase id }
  | .supersede id => { t with submission := t.submission.modify id fun s => { s with isCurrent := false } }
  | .insertSubmission id s => { t with submission := t.submission.insertMissing id s }
  | .decide id actorKcSub approve reason =>
    { t with submission := t.submission.modify id (·.decide actorKcSub approve reason) }
  | .insertSubmissionEntry row => { t with submissionEntry := t.submissionEntry ++ [row] }
  | .others configuration project approverAssignment =>
    { t with configuration, project, approverAssignment }

def schema : Schema Tables Write := ⟨Tables.apply, fun _ => true⟩

abbrev Tx (α : Type) := Prog Tables Write Lock Stmt StoreError α

/-! ## Entries -/

def UpsertInput.entry (i : UpsertInput) : Entry where
  companyId := i.companyId
  memberId := i.memberId
  projectId := i.projectId
  entryDate := i.entryDate
  realHours := hundredths i.real
  billableHours := hundredths i.billable
  status := .draft

def Tables.entryOn (t : Tables) (i : UpsertInput) : Option (Uuid × Entry) :=
  t.entry.rows.find? fun r => r.2.on i.companyId i.memberId i.projectId i.entryDate

def getConfig (companyId : Uuid) : Tx Config := .read .getConfig fun t => .ok (t.getConfig companyId)

def getProject (companyId projectId : Uuid) : Tx Project := .read .getProject (·.getProject companyId projectId)

/-- The row that the lookup of `SELECT status … FOR UPDATE` sees. -/
def findEntry (i : UpsertInput) : Tx (Option Uuid) :=
  .read .findEntry fun t => .ok ((t.entryOn i).map Prod.fst)

def Tables.entryWith (t : Tables) (i : UpsertInput) (id : Uuid) : Option Entry :=
  match t.entry.get? id with
  | some e => if e.on i.companyId i.memberId i.projectId i.entryDate then some e else none
  | none => none

/-- `FOR UPDATE`, for the row that was seen: a row that is not there cannot be locked. -/
def lockEntry (i : UpsertInput) : Option Uuid → Tx (Option EntryStatus)
  | none => return none
  | some id =>
    .exec .lockEntry (fun _ => [.entry id]) (fun t => (t.entryWith i id).toList.map fun _ => .entry id)
      fun t => .ok ((t.entryWith i id).map Entry.status, [])

/-- `INSERT … ON CONFLICT (company_id, member_id, project_id, entry_date) DO UPDATE`: it waits for whoever is
writing a row with the key, and updates the row that is there then. -/
def upsertRow (id : Uuid) (i : UpsertInput) : Tx (Uuid × Entry) :=
  .exec (.upsertEntry i) (fun _ => [.entryKey i.companyId i.memberId i.projectId i.entryDate]) (fun t =>
      match t.entryOn i with
      | some r => [.entry r.1]
      | none => [.entry id, .entryKey i.companyId i.memberId i.projectId i.entryDate])
    fun t =>
      match t.entryOn i with
      | some r =>
        .ok ((r.1, r.2.rewrite (hundredths i.real) (hundredths i.billable)),
          [.rewriteEntry r.1 (hundredths i.real) (hundredths i.billable)])
      | none =>
        if (t.entry.get? id).isSome then .error (.query "timesheet: upsert entry" "duplicate key")
        else .ok ((id, i.entry), [.insertEntry id i.entry])

def upsertEntry (today : Date) (id : Uuid) (i : UpsertInput) : Tx (Uuid × Entry) := do
  let cfg ← getConfig i.companyId
  .ofExcept (validateHours cfg i.real i.billable)
  .ofExcept (validateWeekWindow cfg today i.entryDate)
  let _ ← getProject i.companyId i.projectId
  let existing ← findEntry i
  let existingStatus ← lockEntry i existing
  match existingStatus with
  | some status => if status ≠ .draft then .fail .entryNotDraft else upsertRow id i
  | none => upsertRow id i

/-- `SELECT status … WHERE id … FOR UPDATE` -/
def lockEntryById (companyId memberId entryId : Uuid) : Tx EntryStatus :=
  .exec .lockEntry (fun _ => [.entry entryId]) (fun _ => [.entry entryId]) fun t =>
    match t.entry.get? entryId with
    | some e =>
      if e.companyId ≠ companyId ∨ e.memberId ≠ memberId then .error .entryNotFound else .ok (e.status, [])
    | none => .error .entryNotFound

def deleteRow (entryId : Uuid) : Tx Unit :=
  .exec .deleteEntry (fun _ => [.entry entryId]) (fun _ => [.entry entryId])
    fun _ => .ok ((), [.deleteEntry entryId])

def deleteEntry (companyId memberId entryId : Uuid) : Tx Unit := do
  let status ← lockEntryById companyId memberId entryId
  if status ≠ .draft then .fail .entryNotDraft else deleteRow entryId

/-! ## Submissions -/

def findSubmissionByIdempotencyKey (i : SubmitInput) : Tx (Option (Uuid × Submission)) :=
  .read .findSubmissionByIdempotencyKey fun t => .ok (t.findSubmissionByIdempotencyKey i)

def assignedApprover (i : SubmitInput) : Tx Approver :=
  .read .assignedApprover fun t =>
    match t.approverAssignment.get? (i.companyId, i.memberId) with
    | some approver => .ok approver
    | none => .error .noApproverAssigned

def draftEntries (i : SubmitInput) : Tx (List DraftEntry) :=
  .read .draftEntries fun t => .ok (t.drafts i.companyId i.memberId i.weekStart)

def Tables.draftAt (t : Tables) (i : SubmitInput) (d : DraftEntry) : Option DraftEntry :=
  match t.entry.get? d.id with
  | some e =>
    if e.inWeek i.companyId i.memberId i.weekStart ∧ e.status = .draft then some { d with entry := e } else none
  | none => none

/-- `FOR UPDATE OF e`, for one of the rows: the entry as it is when it is locked, the project as it was
seen. -/
def lockDraft (i : SubmitInput) (d : DraftEntry) : Tx (Option DraftEntry) :=
  .exec .lockDraft (fun _ => [.entry d.id])
    (fun t => (t.draftAt i d).toList.map fun d => .entry d.id) fun t => .ok (t.draftAt i d, [])

def lockDrafts (i : SubmitInput) : List DraftEntry → Tx (List DraftEntry)
  | [] => return []
  | d :: ds => do
    let locked ← lockDraft i d
    let rest ← lockDrafts i ds
    return locked.toList ++ rest

def currentSubmission (i : SubmitInput) : Tx (Option Uuid) :=
  .read .currentSubmission fun t =>
    .ok ((t.submission.rows.find? fun r => r.2.currentOf i.companyId i.memberId i.weekStart).map Prod.fst)

def Tables.currentWith (t : Tables) (i : SubmitInput) (id : Uuid) : Option (Uuid × Submission) :=
  match t.submission.get? id with
  | some s => if s.currentOf i.companyId i.memberId i.weekStart then some (id, s) else none
  | none => none

/-- `FOR UPDATE`, for the row that was seen: a version that has been superseded meanwhile is no longer
found. -/
def lockCurrent (i : SubmitInput) : Option Uuid → Tx (Option (Uuid × Submission))
  | none => return none
  | some id =>
    .exec .lockCurrent (fun _ => [.submission id])
      (fun t => (t.currentWith i id).toList.map fun r => .submission r.1) fun t => .ok (t.currentWith i id, [])

def supersede : Option (Uuid × Submission) → Tx Unit
  | none => return ()
  | some r =>
    .exec .supersede (fun _ => [.submission r.1]) (fun _ => [.submission r.1]) fun _ => .ok ((), [.supersede r.1])

def SubmitInput.version (i : SubmitInput) (rootId : Uuid) (approver : Approver)
    (prev : Option (Uuid × Submission)) : Submission where
  companyId := i.companyId
  memberId := i.memberId
  weekStart := i.weekStart
  versionNumber := prev.elim 1 fun r => r.2.versionNumber + 1
  rootId := prev.elim rootId fun r => r.2.rootId
  supersedesId := prev.map Prod.fst
  isCurrent := true
  status := .submitted
  assignedApproverMemberId := approver.approverMemberId
  assignedApproverKcSub := approver.approverKcSub
  submittedByKcSub := i.actorKcSub
  decidedByKcSub := none
  rejectReason := none
  idempotencyKey := if i.idempotencyKey = "" then none else some i.idempotencyKey
  idempotencyKeyHash := if i.idempotencyKey = "" then none else some i.payload

def Tables.clashes (t : Tables) (id : Uuid) (s : Submission) : Bool :=
  (t.submission.get? id).isSome ∨
    t.submission.rows.any (fun r => r.2.currentOf s.companyId s.memberId s.weekStart) ∨
      t.submission.rows.any fun r =>
        r.2.companyId = s.companyId ∧ r.2.memberId = s.memberId ∧ r.2.idempotencyKey.isSome ∧
          r.2.idempotencyKey = s.idempotencyKey

/-- The index entries an insert of `s` writes; it waits for whoever is writing one of them. -/
def Submission.indexed (s : Submission) (id : Uuid) : List Lock :=
  .submission id :: .current s.companyId s.memberId s.weekStart ::
    s.idempotencyKey.toList.map fun key => .idempotencyKey s.companyId s.memberId key

def insertSubmission (id : Uuid) (s : Submission) : Tx Unit :=
  .exec .insertSubmission (fun _ => s.indexed id) (fun _ => s.indexed id) fun t =>
    if t.clashes id s then .error .conflict else .ok ((), [.insertSubmission id s])

def insertSubmissionEntry (row : SubmissionEntry) : Tx Unit :=
  .exec .insertSubmissionEntry (fun _ => []) (fun _ => []) fun _ => .ok ((), [.insertSubmissionEntry row])

def markSubmitted (id : Uuid) : Tx Unit :=
  .exec .markSubmitted (fun _ => [.entry id]) (fun _ => [.entry id])
    fun _ => .ok ((), [.setEntryStatus id .submitted])

/-- The body of the loop over the drafts. -/
def submitDraft (submissionId : Uuid) (d : DraftEntry) : Tx Unit := do
  insertSubmissionEntry (d.snapshot submissionId)
  markSubmitted d.id

/-- `id` and `rootId` are new random ids. -/
def submitWeek (id rootId : Uuid) (i : SubmitInput) : Tx ((Uuid × Submission) × Bool) := do
  match ← findSubmissionByIdempotencyKey i with
  | some existing =>
    if existing.2.idempotencyKeyHash ≠ some i.payload then .fail .idempotencyConflict
    else return (existing, false)
  | none =>
    let approver ← assignedApprover i
    let seen ← draftEntries i
    let drafts ← lockDrafts i seen
    if drafts.isEmpty then .fail .noDraftEntries
    else do
      let current ← currentSubmission i
      let prev ← lockCurrent i current
      supersede prev
      insertSubmission id (i.version rootId approver prev)
      drafts.forM (submitDraft id)
      return ((id, i.version rootId approver prev), true)

/-! ## Decisions -/

/-- `SELECT … WHERE company_id … AND id … FOR UPDATE` -/
def lockSubmission (companyId submissionId : Uuid) : Tx Submission :=
  .exec .lockSubmission (fun _ => [.submission submissionId]) (fun _ => [.submission submissionId]) fun t =>
    match t.submission.get? submissionId with
    | some s => if s.companyId ≠ companyId then .error .submissionNotFound else .ok (s, [])
    | none => .error .submissionNotFound

def Submission.checkDecision (s : Submission) (actorKcSub : String) (approve : Bool) (reason : String) :
    Except StoreError Unit :=
  if s.assignedApproverKcSub ≠ actorKcSub then .error .notAssignedApprover
  else if ¬ s.isCurrent then .error .submissionSuperseded
  else if s.status ≠ .submitted then .error .submissionNotSubmitted
  else if ¬ approve ∧ reason = "" then .error (.validation "reason" "required to reject")
  else .ok ()

def updateSubmission (id : Uuid) (actorKcSub : String) (approve : Bool) (reason : String) : Tx Unit :=
  .exec .updateSubmission (fun _ => [.submission id]) (fun _ => [.submission id])
    fun _ => .ok ((), [.decide id actorKcSub approve reason])

/-- The entries of the week that the `UPDATE` sees as submitted. -/
def submittedEntries (s : Submission) : Tx (List Uuid) :=
  .read .submittedEntries fun t =>
    .ok ((t.entry.rows.filter fun r =>
      r.2.inWeek s.companyId s.memberId s.weekStart ∧ r.2.status = .submitted).map Prod.fst)

def Tables.submittedAt (t : Tables) (s : Submission) (id : Uuid) : Bool :=
  match t.entry.get? id with
  | some e => e.inWeek s.companyId s.memberId s.weekStart ∧ e.status = .submitted
  | none => false

def decidedStatus (approve : Bool) : EntryStatus := if approve then .approved else .draft

def updateEntry (s : Submission) (approve : Bool) (id : Uuid) : Tx Unit :=
  .exec .updateEntry (fun _ => [.entry id]) (fun t => if t.submittedAt s id then [.entry id] else [])
    fun t => .ok ((), if t.submittedAt s id then [.setEntryStatus id (decidedStatus approve)] else [])

def decideSubmission (actorKcSub : String) (companyId submissionId : Uuid) (approve : Bool)
    (reason : String) : Tx Unit := do
  let s ← lockSubmission companyId submissionId
  .ofExcept (s.checkDecision actorKcSub approve reason)
  updateSubmission submissionId actorKcSub approve reason
  let ids ← submittedEntries s
  ids.forM (updateEntry s approve)

/-! ## Requests -/

inductive Request where
  | upsertEntry (today : Date) (id : Uuid) (i : UpsertInput)
  | deleteEntry (companyId memberId entryId : Uuid)
  | submitWeek (id rootId : Uuid) (i : SubmitInput)
  | decideSubmission (actorKcSub : String) (companyId submissionId : Uuid) (approve : Bool) (reason : String)
  -- whatever the calls on configuration, projects and approvers make of their tables
  | others (configuration : Keyed.Table Uuid Config) (project : Keyed.Table Uuid Project)
      (approverAssignment : Keyed.Table (Uuid × Uuid) Approver)

def prog : Request → Tx Unit
  | .upsertEntry today id i => do
    let _ ← upsertEntry today id i
  | .deleteEntry companyId memberId entryId => deleteEntry companyId memberId entryId
  | .submitWeek id rootId i => do
    let _ ← submitWeek id rootId i
  | .decideSubmission actorKcSub companyId submissionId approve reason =>
    decideSubmission actorKcSub companyId submissionId approve reason
  | .others configuration project approverAssignment =>
    .exec .others (fun _ => []) (fun _ => []) fun _ =>
      .ok ((), [.others configuration project approverAssignment])

abbrev Machine := State Tables Write Lock Stmt StoreError Request

end Kiban.Timesheet
