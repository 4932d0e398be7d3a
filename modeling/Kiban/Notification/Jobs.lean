import Kiban.Lib.Fencing
import Kiban.Lib.Keyed
import Mathlib.Algebra.Group.Nat.Defs
import Mathlib.Data.List.Sort

/-!
# The delivery jobs of the notification module

The table `notification.delivery_job` with the statements the workers run on it.  A `uuid.UUID` is its text, a time or
a duration a number of microseconds.  Arguments are the random ids and lease tokens, the rows a claim skips because
another transaction has them locked, and whether the audit row of a dead job can be written.
-/

namespace Kiban.Notification

open Keyed List

abbrev Uuid := String

inductive JobKind where
  | email
  | webhook
deriving DecidableEq

inductive JobStatus where
  | pending
  | done
  | dead
deriving DecidableEq

structure JobRow where
  messageId : Uuid
  kind : JobKind
  target : String
  status : JobStatus
  attempts : Nat
  leasedUntil : Option Nat
  lastError : Option String
  createdAt : Nat
  claimGroup : String
  leaseToken : Option Uuid
deriving DecidableEq

/-- One leased background delivery, as the claim returned it. -/
structure DeliveryJob where
  (id messageId : Uuid)
  kind : JobKind
  target : String
  status : JobStatus
  attempts : Nat
  leasedUntil : Option Nat
  lastError : Option String
  leaseToken : Uuid
deriving DecidableEq

inductive AuditValue where
  | number (n : Int)
  | text (s : String)
deriving DecidableEq

structure AuditEvent where
  (actor action subject : String)
  payload : List (String × AuditValue)
deriving DecidableEq

inductive JobError where
  | leaseLost
  | auditDeadJob (cause : String)
deriving DecidableEq

/-- The clock of the database, the table and the audit table of the module. -/
structure JobStore where
  now : Nat
  jobs : Keyed.Table Uuid JobRow
  audit : List AuditEvent

def second : Nat := 1000000

def maxAttempts : Nat := 8

def maxRetryBackoff : Nat := 15 * 60 * second

def retryBackoff (attempts : Int) : Nat :=
  let attempts := if attempts < 0 then 0 else attempts.toNat
  if attempts > 10 then maxRetryBackoff else min (2 ^ attempts * second) maxRetryBackoff

namespace JobStore

/-! ## Claims -/

def insertJob (s : JobStore) (id messageId : Uuid) (kind : JobKind) (target claimGroup : String) : JobStore :=
  { s with
    jobs := s.jobs.insertMissing id
      { messageId, kind, target, claimGroup, status := .pending, attempts := 0, leasedUntil := none,
        lastError := none, createdAt := s.now, leaseToken := none } }

end JobStore

namespace JobRow

variable (r : JobRow)

def claimable (claimGroup : String) (now : Nat) : Bool :=
  r.claimGroup = claimGroup && r.status = .pending && r.leasedUntil.all fun leasedUntil => leasedUntil < now

def claim (leasedUntil : Nat) (token : Uuid) : JobRow :=
  { r with leasedUntil := some leasedUntil, attempts := r.attempts + 1, leaseToken := some token }

def complete : JobRow := { r with status := .done, lastError := none, leaseToken := none }

def die (errMsg : String) : JobRow :=
  { r with status := .dead, leasedUntil := none, leaseToken := none, lastError := some errMsg }

def retry (leasedUntil : Nat) (errMsg : String) : JobRow :=
  { r with
    status := .pending, leasedUntil := some leasedUntil, leaseToken := none, lastError := some errMsg }

def extend (leasedUntil : Nat) : JobRow := { r with leasedUntil := some leasedUntil }

def delivery (id token : Uuid) : DeliveryJob where
  id := id
  messageId := r.messageId
  kind := r.kind
  target := r.target
  status := r.status
  attempts := r.attempts
  leasedUntil := r.leasedUntil
  lastError := r.lastError
  leaseToken := token

def leasedUnder (tokens : List Uuid) : Bool :=
  r.status = .pending ∧ ∃ t ∈ tokens, r.leaseToken = some t

theorem pending_of_claimable {r : JobRow} {claimGroup : String} {now : Nat}
    (h : r.claimable claimGroup now = true) : r.status = .pending := by
  simp only [claimable, Bool.and_eq_true, decide_eq_true_eq] at h
  exact h.1.2

end JobRow

namespace JobStore

variable (s : JobStore)

/-- The subquery of the claim.  `skipped` are the rows that are locked. -/
def claimIds (claimGroup : String) (limit : Nat) (skipped : List Uuid) : List Uuid :=
  let rows := s.jobs.rows.filter fun r => r.2.claimable claimGroup s.now && r.1 ∉ skipped
  ((rows.insertionSort fun a b => a.2.createdAt ≤ b.2.createdAt).take limit).map Prod.fst

def claimJobs (claimGroup : String) (lease limit : Nat) (skipped : List Uuid)
    (token : Uuid → Uuid) : JobStore × List DeliveryJob :=
  let ids := s.claimIds claimGroup limit skipped
  let jobs := s.jobs.mapRows fun id r => if id ∈ ids then r.claim (s.now + lease) (token id) else r
  ({ s with jobs }, ids.filterMap fun id => (jobs.get? id).map fun r => r.delivery id (token id))

theorem nodup_claimIds (claimGroup : String) (limit : Nat) (skipped : List Uuid) :
    (s.claimIds claimGroup limit skipped).Nodup := by
  have hsor := fun rows : List (Uuid × JobRow) =>
    (rows.perm_insertionSort fun a b => a.2.createdAt ≤ b.2.createdAt).map Prod.fst
  have hrows : ((s.jobs.rows.filter fun r =>
      r.2.claimable claimGroup s.now && r.1 ∉ skipped).map Prod.fst).Nodup :=
    s.jobs.nodup.sublist (filter_sublist.map Prod.fst)
  exact ((hsor _).nodup_iff.mpr hrows).sublist ((take_sublist limit _).map Prod.fst)

theorem claimable_of_mem_claimIds {s : JobStore} {claimGroup : String} {limit : Nat}
    {skipped : List Uuid} {id : Uuid} (h : id ∈ s.claimIds claimGroup limit skipped) :
    ∃ r, s.jobs.get? id = some r ∧ r.claimable claimGroup s.now = true := by
  obtain ⟨q, hq, rfl⟩ := mem_map.mp h
  have hrow := List.mem_filter.mp ((perm_insertionSort _ _).mem_iff.mp (mem_of_mem_take hq))
  have hcheck := (Bool.and_eq_true _ _).mp hrow.2
  exact ⟨q.2, Keyed.Table.get?_eq_some_iff.mpr hrow.1, hcheck.1⟩

/-! ## Settlements -/

/-- `UPDATE … WHERE id = $1 AND lease_token = $2`, with the error for zero rows. -/
def updateLeased (id leaseToken : Uuid) (f : JobRow → JobRow) : Except JobError JobStore :=
  match s.jobs.get? id with
  | some r => if r.leaseToken = some leaseToken then .ok { s with jobs := s.jobs.modify id f } else .error .leaseLost
  | none => .error .leaseLost

def completeJob (id leaseToken : Uuid) : Except JobError JobStore :=
  s.updateLeased id leaseToken JobRow.complete

def deadLetter (id : Uuid) (attempts : Int) (errMsg : String) : AuditEvent where
  actor := "system:notification-worker"
  action := "notification.delivery.dead"
  subject := "notification_delivery_job:" ++ id
  payload := [("attempts", .number attempts), ("lastError", .text errMsg)]

/-- One transaction: when the audit row cannot be written, the update is rolled back. -/
def markJobDead (id leaseToken : Uuid) (attempts : Int) (errMsg : String)
    (recordErr : Option String) : Except JobError JobStore := do
  let s ← s.updateLeased id leaseToken (JobRow.die · errMsg)
  match recordErr with
  | some cause => .error (.auditDeadJob cause)
  | none => .ok { s with audit := s.audit ++ [deadLetter id attempts errMsg] }

def failJob (id leaseToken : Uuid) (attempts : Int) (errMsg : String)
    (recordErr : Option String) : Except JobError JobStore :=
  if attempts ≥ maxAttempts then s.markJobDead id leaseToken attempts errMsg recordErr
  else
    s.updateLeased id leaseToken (JobRow.retry · (s.now + retryBackoff attempts) errMsg)

def failJobPermanent (id leaseToken : Uuid) (errMsg : String)
    (recordErr : Option String) : Except JobError JobStore :=
  s.markJobDead id leaseToken (-1) errMsg recordErr

/-! ## Heartbeats and deletions -/

/-- The tokens returned are those that are still held. -/
def extendLeaseBatch (tokens : List Uuid) (lease : Nat) : JobStore × List Uuid :=
  ({ s with jobs := s.jobs.mapRows fun _ r => if r.leasedUnder tokens then r.extend (s.now + lease) else r },
    tokens.filter fun t => s.jobs.rows.any fun r => r.2.leasedUnder [t])

/-- The rows of `messages`, the messages of the channel, go with the channel. -/
def deleteChannel (actor : String) (companyId channelId : Uuid) (messages : List Uuid) : JobStore :=
  { s with
    jobs := s.jobs.filter fun _ r => r.messageId ∉ messages
    audit := s.audit ++ [{ actor, action := "notification.channel.delete",
                           subject := "notification_channel:" ++ channelId,
                           payload := [("companyId", .text companyId)] }] }

end JobStore

end Kiban.Notification
