import Kiban.Org.Handlers

/-!
# The helpdesk's rows

Tickets of a company, with at most one assignee each: a member, the holder of a position or the members of a group.
The agents are an index of who was given the agent tier.  Of the audit trail the status changes are kept.  The columns
that no decision reads are left out.
-/

namespace Kiban.Helpdesk

open Kiban.Org (ApiError notFound parseUuid utf8)

abbrev Uuid := String

/-! ## Rows -/

inductive Status where
  | opened
  | inProgress
  | resolved
  | closed
deriving DecidableEq

def Status.text : Status → String
  | .opened => "open"
  | .inProgress => "in_progress"
  | .resolved => "resolved"
  | .closed => "closed"

inductive Assignee where
  | member (memberId : Uuid) (kcSub : String)
  | position (positionId : Uuid) (title : String)
  | group (groupId : Uuid) (title : String)
deriving DecidableEq

structure Ticket where
  companyId : Uuid
  title : String
  status : Status
  reporterKcSub : String
  assignee : Option Assignee
deriving DecidableEq

/-- A row of `audit.helpdesk__events` with the action `helpdesk.ticket.status`. -/
structure StatusEvent where
  actor : String
  ticketId : Uuid
  (fromStatus newStatus : Status)
deriving DecidableEq

inductive Target where
  | member (memberId : Uuid)
  | position (positionId : Uuid)
  | group (groupId : Uuid)
deriving DecidableEq

structure Agent where
  -- the member's subject, or the title when the position or group was bound
  (label grantedBy : String)
deriving DecidableEq

structure Tables where
  ticket : Keyed.Table Uuid Ticket
  agent : Keyed.Table (Uuid × Target) Agent
  statusEvent : List StatusEvent

/-! ## Errors -/

inductive StoreError where
  | ticketNotFound
  | agentNotFound
  | query (context cause : String)

def writeStoreError : StoreError → ApiError
  | .ticketNotFound | .agentNotFound => notFound
  | .query _ _ => ⟨500, "INTERNAL_ERROR", "internal error", []⟩

def unprocessable (field message : String) : ApiError := ⟨422, "VALIDATION_FAILED", message, [("field", field)]⟩

def denied (message : String) : ApiError := ⟨403, "AUTHORIZATION_DENIED", message, []⟩

def unavailable (message : String) : ApiError := ⟨503, "AUTHORIZATION_UNAVAILABLE", message, []⟩

/-- `uuid.Parse` of a value of the path or of the body -/
def parseUUID (value field : String) : Except ApiError Uuid :=
  match parseUuid (utf8 value) with
  | some id => .ok id
  | none => .error ⟨400, "BAD_REQUEST", field ++ " must be a valid UUID", [("field", field)]⟩

end Kiban.Helpdesk
