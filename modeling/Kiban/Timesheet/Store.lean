import Kiban.Lib.Keyed
import Kiban.Lib.Fallible
import Mathlib.Data.Rat.Defs

/-!
# The store of the timesheet module

Members record hours on projects day by day, submit the drafts of a week, and an approver decides on the submission.  A
`uuid.UUID` is its text and a date the number of its day since 1970-01-01; the hours of a request are rational numbers,
and those of a row hundredths of an hour (`numeric(6,2)`).  Each call is one transaction.  The random ids are
arguments; the audit rows and times of day are left out, no call reads them.
-/

namespace Kiban.Timesheet

open Keyed

abbrev Uuid := String

abbrev Date := Int

/-! ## Rows -/

inductive EntryStatus where
  | draft
  | submitted
  | approved
  | rejected
deriving DecidableEq

inductive SubmissionStatus where
  | submitted
  | approved
  | rejected
deriving DecidableEq

structure Config where
  (enforceBillableWithinActual allowBillableAboveEightHours : Bool)
  (allowedPreviousWeeks allowedFutureWeeks : Nat)

structure Project where
  companyId : Uuid
  (code name status : String)

structure Entry where
  (companyId memberId projectId : Uuid)
  entryDate : Date
  (realHours billableHours : Int)
  status : EntryStatus
deriving DecidableEq

structure Approver where
  approverMemberId : Uuid
  approverKcSub : String

structure Submission where
  (companyId memberId : Uuid)
  weekStart : Date
  versionNumber : Nat
  rootId : Uuid
  supersedesId : Option Uuid
  isCurrent : Bool
  status : SubmissionStatus
  assignedApproverMemberId : Uuid
  (assignedApproverKcSub submittedByKcSub : String)
  (decidedByKcSub rejectReason idempotencyKey : Option String)
  -- the payload the hash stands for
  idempotencyKeyHash : Option (Uuid × Uuid × Date)
deriving DecidableEq

structure SubmissionEntry where
  (submissionId projectId : Uuid)
  (projectCode projectName : String)
  entryDate : Date
  (realHours billableHours : Int)
deriving DecidableEq

structure Tables where
  configuration : Keyed.Table Uuid Config
  project : Keyed.Table Uuid Project
  approverAssignment : Keyed.Table (Uuid × Uuid) Approver
  entry : Keyed.Table Uuid Entry
  submission : Keyed.Table Uuid Submission
  submissionEntry : List SubmissionEntry

/-! ## Errors -/

inductive StoreError where
  | validation (field message : String)
  | badRequest (message : String)
  | projectNotFound
  | entryNotFound
  | submissionNotFound
  | entryNotDraft
  | noDraftEntries
  | noApproverAssigned
  | notAssignedApprover
  | submissionSuperseded
  | submissionNotSubmitted
  | idempotencyConflict
  | conflict
  | query (context cause : String)

/-! ## Weeks -/

/-- `time.Weekday`: Sunday is 0. -/
def weekday (d : Int) : Int := (d + 4) % 7

def isoMonday (d : Int) : Int :=
  let wd := if weekday d = 0 then 7 else weekday d
  d - (wd - 1)

theorem isoMonday_le (d : Int) : isoMonday d ≤ d ∧ d < isoMonday d + 7 := by
  have hd : weekday d = (d + 4) % 7 := rfl
  simp only [isoMonday]
  split
  · omega
  · omega

/-- A day of the seven from a Monday on is in the week of that Monday. -/
theorem isoMonday_eq {monday d} (hmon : isoMonday monday = monday) (hfrom : monday ≤ d)
    (huntil : d < monday + 7) : isoMonday d = monday := by
  have hm : weekday monday = (monday + 4) % 7 := rfl
  have hd : weekday d = (d + 4) % 7 := rfl
  simp only [isoMonday] at hmon ⊢
  split at hmon
  · omega
  · split
    · omega
    · omega

/-! ## Entries -/

def defaultConfig : Config where
  enforceBillableWithinActual := true
  allowBillableAboveEightHours := false
  allowedPreviousWeeks := 4
  allowedFutureWeeks := 1

variable (t : Tables)

def Tables.getConfig (companyId : Uuid) : Config :=
  (t.configuration.get? companyId).getD defaultConfig

def Tables.getProject (companyId projectId : Uuid) : Except StoreError Project :=
  match t.project.get? projectId with
  | some p => if p.companyId = companyId then .ok p else .error .projectNotFound
  | none => .error .projectNotFound

def validateHours (cfg : Config) (real billable : ℚ) : Except StoreError Unit :=
  if real < 0 ∨ real > 24 then .error (.validation "realHours" "must be between 0 and 24")
  else if billable < 0 ∨ billable > 24 then .error (.validation "billableHours" "must be between 0 and 24")
  else if cfg.enforceBillableWithinActual ∧ billable > real then
    .error (.validation "billableHours" "must be <= realHours")
  else if ¬ cfg.allowBillableAboveEightHours ∧ billable > 8 then
    .error (.validation "billableHours" "must be <= 8 (allowBillableAboveEightHours is disabled)")
  else .ok ()

def validateWeekWindow (cfg : Config) (today entryDate : Date) : Except StoreError Unit :=
  let thisWeek := isoMonday today
  let entryWeek := isoMonday entryDate
  let earliest := thisWeek - 7 * cfg.allowedPreviousWeeks
  let latest := thisWeek + 7 * cfg.allowedFutureWeeks
  if entryWeek < earliest ∨ entryWeek > latest then
    .error (.validation "entryDate" "outside the editable window for this company's configuration")
  else .ok ()

/-- The rounding of `numeric(6,2)`, for hours that are not negative. -/
def hundredths (hours : ℚ) : Int := (hours * 100 + 1 / 2).floor

def Entry.on (e : Entry) (companyId memberId projectId : Uuid) (entryDate : Date) : Bool :=
  e.companyId = companyId ∧ e.memberId = memberId ∧ e.projectId = projectId ∧ e.entryDate = entryDate

structure UpsertInput where
  (companyId memberId projectId : Uuid)
  entryDate : Date
  (real billable : ℚ)

/-- `id` is the id of a new row. -/
def Tables.upsertEntry (today : Date) (id : Uuid) (i : UpsertInput) :
    Except StoreError (Tables × Uuid × Entry) := do
  let cfg := t.getConfig i.companyId
  validateHours cfg i.real i.billable
  validateWeekWindow cfg today i.entryDate
  let _ ← t.getProject i.companyId i.projectId
  let e : Entry :=
    { companyId := i.companyId, memberId := i.memberId, projectId := i.projectId, entryDate := i.entryDate,
      realHours := hundredths i.real, billableHours := hundredths i.billable, status := .draft }
  match t.entry.rows.find? fun r => r.2.on i.companyId i.memberId i.projectId i.entryDate with
  | some (existing, old) =>
    if old.status ≠ .draft then .error .entryNotDraft
    else .ok ({ t with entry := t.entry.modify existing fun _ => e }, existing, e)
  | none => .ok ({ t with entry := t.entry.insertMissing id e }, id, e)

def Tables.deleteEntry (companyId memberId entryId : Uuid) : Except StoreError Tables :=
  match t.entry.get? entryId with
  | some e =>
    if e.companyId ≠ companyId ∨ e.memberId ≠ memberId then .error .entryNotFound
    else if e.status ≠ .draft then .error .entryNotDraft
    else .ok { t with entry := t.entry.erase entryId }
  | none => .error .entryNotFound

/-! ## Submissions -/

def Entry.inWeek (e : Entry) (companyId memberId : Uuid) (weekStart : Date) : Bool :=
  e.companyId = companyId ∧ e.memberId = memberId ∧ weekStart ≤ e.entryDate ∧ e.entryDate < weekStart + 7

structure DraftEntry where
  id : Uuid
  entry : Entry
  (code name : String)

def Tables.drafts (companyId memberId : Uuid) (weekStart : Date) : List DraftEntry :=
  t.entry.rows.filterMap fun r =>
    if r.2.inWeek companyId memberId weekStart ∧ r.2.status = .draft then
      (t.project.get? r.2.projectId).map fun p => ⟨r.1, r.2, p.code, p.name⟩
    else none

def Submission.currentOf (s : Submission) (companyId memberId : Uuid) (weekStart : Date) : Bool :=
  s.companyId = companyId ∧ s.memberId = memberId ∧ s.weekStart = weekStart ∧ s.isCurrent

def DraftEntry.snapshot (d : DraftEntry) (submissionId : Uuid) : SubmissionEntry where
  submissionId := submissionId
  projectId := d.entry.projectId
  projectCode := d.code
  projectName := d.name
  entryDate := d.entry.entryDate
  realHours := d.entry.realHours
  billableHours := d.entry.billableHours

/-- The body of the loop over the drafts. -/
def Tables.submitDraft (submissionId : Uuid) (t : Tables) (d : DraftEntry) : Tables :=
  { t with
    submissionEntry := t.submissionEntry ++ [d.snapshot submissionId]
    entry := t.entry.modify d.id fun e => { e with status := .submitted } }

structure SubmitInput where
  actorKcSub : String
  (companyId memberId : Uuid)
  weekStart : Date
  idempotencyKey : String

def SubmitInput.payload (i : SubmitInput) : Uuid × Uuid × Date := (i.companyId, i.memberId, i.weekStart)

def Tables.findSubmissionByIdempotencyKey (i : SubmitInput) : Option (Uuid × Submission) :=
  if i.idempotencyKey = "" then none
  else
    t.submission.rows.find? fun r =>
      r.2.companyId = i.companyId ∧ r.2.memberId = i.memberId ∧ r.2.idempotencyKey = some i.idempotencyKey

def Tables.newVersion (rootId : Uuid) (approver : Approver) (i : SubmitInput) : Submission × Tables :=
  let prev := t.submission.rows.find? fun r => r.2.currentOf i.companyId i.memberId i.weekStart
  let sub : Submission :=
    { companyId := i.companyId, memberId := i.memberId, weekStart := i.weekStart
      versionNumber := prev.elim 1 fun r => r.2.versionNumber + 1
      rootId := prev.elim rootId fun r => r.2.rootId
      supersedesId := prev.map Prod.fst
      isCurrent := true
      status := .submitted
      assignedApproverMemberId := approver.approverMemberId
      assignedApproverKcSub := approver.approverKcSub
      submittedByKcSub := i.actorKcSub
      decidedByKcSub := none
      rejectReason := none
      idempotencyKey := if i.idempotencyKey = "" then none else some i.idempotencyKey
      idempotencyKeyHash := if i.idempotencyKey = "" then none else some i.payload }
  match prev with
  | some (prevId, _) =>
    (sub, { t with submission := t.submission.modify prevId fun s => { s with isCurrent := false } })
  | none => (sub, t)

/-- `id` and `rootId` are new random ids. -/
def Tables.submitWeek (id rootId : Uuid) (i : SubmitInput) :
    Except StoreError (Tables × (Uuid × Submission) × Bool) :=
  match t.findSubmissionByIdempotencyKey i with
  | some existing =>
    if existing.2.idempotencyKeyHash ≠ some i.payload then .error .idempotencyConflict
    else .ok (t, existing, false)
  | none =>
    match t.approverAssignment.get? (i.companyId, i.memberId) with
    | none => .error .noApproverAssigned
    | some approver =>
      let drafts := t.drafts i.companyId i.memberId i.weekStart
      if drafts.isEmpty then .error .noDraftEntries
      else
        let version := t.newVersion rootId approver i
        let opened := { version.2 with submission := version.2.submission.insertMissing id version.1 }
        .ok (drafts.foldl (Tables.submitDraft id) opened, (id, version.1), true)

/-- The checks of the route: an ISO Monday and a key of a bounded length. -/
def Tables.handleSubmitWeek (id rootId : Uuid) (i : SubmitInput) :
    Except StoreError (Tables × (Uuid × Submission) × Bool) :=
  if i.weekStart ≠ isoMonday i.weekStart then
    .error (.validation "weekStart" "weekStart must be an ISO Monday (UTC)")
  else if i.idempotencyKey.utf8ByteSize > 200 then
    .error (.badRequest "Idempotency-Key must be <= 200 characters")
  else t.submitWeek id rootId i

/-! ## Decisions -/

def Submission.decide (s : Submission) (actorKcSub : String) (approve : Bool) (reason : String) : Submission :=
  { s with
    status := if approve then .approved else .rejected
    decidedByKcSub := some actorKcSub
    rejectReason := if approve then none else some reason }

/-- What the decision on `s` makes of an entry. -/
def Submission.settle (s : Submission) (approve : Bool) (e : Entry) : Entry :=
  if e.inWeek s.companyId s.memberId s.weekStart ∧ e.status = .submitted then
    { e with status := if approve then .approved else .draft }
  else e

def Tables.decideSubmission (actorKcSub : String) (companyId submissionId : Uuid)
    (approve : Bool) (reason : String) : Except StoreError Tables :=
  match t.submission.get? submissionId with
  | none => .error .submissionNotFound
  | some s =>
    if s.companyId ≠ companyId then .error .submissionNotFound
    else if s.assignedApproverKcSub ≠ actorKcSub then .error .notAssignedApprover
    else if ¬ s.isCurrent then .error .submissionSuperseded
    else if s.status ≠ .submitted then .error .submissionNotSubmitted
    else if ¬ approve ∧ reason = "" then .error (.validation "reason" "required to reject")
    else
      .ok { t with
            submission := t.submission.modify submissionId (·.decide actorKcSub approve reason)
            entry := t.entry.mapRows fun _ e => s.settle approve e }

def Tables.approveSubmission (actorKcSub : String) (companyId submissionId : Uuid) :
    Except StoreError Tables := t.decideSubmission actorKcSub companyId submissionId true ""

def Tables.rejectSubmission (actorKcSub : String) (companyId submissionId : Uuid)
    (reason : String) : Except StoreError Tables :=
  t.decideSubmission actorKcSub companyId submissionId false reason

end Kiban.Timesheet
