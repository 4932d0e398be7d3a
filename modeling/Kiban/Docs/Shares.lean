import Kiban.Lib.Digest
import Kiban.Org.Handlers

/-!
# Shares of documents and their idempotency keys

A share is a tuple of the authorizer and a row of `docs.share`, one for each document and member.  The row keeps the
key of the request that made it: the same payload gets the share again, any other is refused.  A later request for the
same member writes over the row, the key included.
-/

namespace Kiban.Docs

open UuidText Digest
open Kiban.Org (ApiError badRequest notFound)

/-! ## Tables -/

inductive Relation where
  | viewer
  | editor
deriving DecidableEq

def Relation.text : Relation → String
  | .viewer => "viewer"
  | .editor => "editor"

def Relation.ofText (s : String) : Option Relation :=
  if s = "viewer" then some .viewer else if s = "editor" then some .editor else none

structure ShareRow where
  id : Uuid16
  relation : Relation
  grantedBy : String
  createdAt : Nat
  (idempotencyKey idempotencyKeyHash : Option String)
deriving DecidableEq

structure Share where
  (id documentId memberId : Uuid16)
  relation : Relation
  grantedBy : String
  createdAt : Nat
deriving DecidableEq

def ShareRow.share (row : ShareRow) (documentId memberId : Uuid16) : Share :=
  ⟨row.id, documentId, memberId, row.relation, row.grantedBy, row.createdAt⟩

structure State where
  shares : Keyed.Table (Uuid16 × Uuid16) ShareRow
  tuples : List Tuple

def sharePayload (docId memberId : Uuid16) (relation : Relation) : PercentPath.Bytes :=
  docId.bytes ++ [0] ++ memberId.bytes ++ [0] ++ utf8 relation.text

variable (sha : Sha256)

def shareIdempotencyPayloadHash (docId memberId : Uuid16) (relation : Relation) : String :=
  sha.hexSum (sharePayload docId memberId relation)

namespace State

/-- The share and its stored hash; a row without one has the empty text. -/
def findShareByIdempotencyKey (s : State) (docId : Uuid16) (key : String) : Option (Share × String) :=
  (s.shares.rows.find? fun r => r.1.1 = docId ∧ r.2.idempotencyKey = some key).map fun r =>
    (r.2.share r.1.1 r.1.2, r.2.idempotencyKeyHash.getD "")

/-- `INSERT … ON CONFLICT (document_id, member_id) DO UPDATE SET …`: every column but the id is written anew. -/
def shareRow (s : State) (docId memberId : Uuid16) (relation : Relation)
    (grantedBy idempotencyKey : String) (newId : Uuid16) (now : Nat) : ShareRow :=
  let key := if idempotencyKey = "" then none else some idempotencyKey
  { id := ((s.shares.get? (docId, memberId)).map (·.id)).getD newId
    relation
    grantedBy
    createdAt := now
    idempotencyKey := key
    idempotencyKeyHash := key.map fun _ => shareIdempotencyPayloadHash sha docId memberId relation }

def recordShare (s : State) (docId memberId : Uuid16) (row : ShareRow) : State :=
  { s with shares := s.shares.upsert (docId, memberId) row }

def removeShare (s : State) (docId memberId : Uuid16) : State :=
  { s with shares := s.shares.erase (docId, memberId) }

/-- `docs_document:<docID>#relation @ user:<kcSub>` -/
def grantShare (s : State) (docId : Uuid16) (relation : Relation) (kcSub : String) : State :=
  { s with tuples := s.tuples.insert ⟨"docs_document", docId.text, relation.text, "user", kcSub, ""⟩ }

def revokeShare (s : State) (docId : Uuid16) (relation : Relation) (kcSub : String) : State :=
  { s with tuples := s.tuples.filter (· ≠ ⟨"docs_document", docId.text, relation.text, "user", kcSub, ""⟩) }

end State

/-! ## Requests -/

/-- How a call that writes goes: its answer can also be lost after it took effect. -/
inductive Call where
  | done
  | failed
  | lost
deriving DecidableEq

def Call.effect (c : Call) (write : State → State) (s : State) : State :=
  match c with
  | .failed => s
  | .done | .lost => write s

/-- How the calls of one request go, and what the database chooses. -/
structure Outcomes where
  -- the subject of the member's user, empty without one
  getMember : Option String
  -- whether the two queries are answered
  (findKey getShare : Bool)
  (revoke grant : Call)
  -- the transaction that records or removes the row
  store : Call
  newId : Uuid16
  now : Nat

inductive Response where
  | created (share : Share)
  | ok (share : Share)
  | noContent
  | error (e : ApiError)

def Response.Success : Response → Prop
  | .error _ => False
  | _ => True

def internal : ApiError := ⟨500, "INTERNAL_ERROR", "internal error", []⟩

def unavailable (message : String) : ApiError := ⟨503, "AUTHORIZATION_UNAVAILABLE", message, []⟩

def idempotencyConflict : ApiError :=
  ⟨409, "IDEMPOTENCY_CONFLICT", "Idempotency-Key was already used with a different request payload", []⟩

def memberIdInvalid : ApiError := badRequest "memberId must be a valid UUID" [("field", "memberId")]

structure CreateShare where
  subject : String
  docId : Uuid16
  (memberId relation idempotencyKey : String)

structure RevokeShare where
  subject : String
  docId : Uuid16
  memberId : String

def parseMember (memberId : String) : Option Uuid16 := Uuid16.parse (utf8 memberId)

/-- The checks before anything is looked up in the module's own table. -/
def resolve (o : Outcomes) (q : CreateShare) : Except ApiError (Relation × Uuid16 × String) :=
  match Relation.ofText q.relation with
  | none => .error (badRequest "relation must be \"viewer\" or \"editor\"" [("field", "relation")])
  | some relation =>
    match parseMember q.memberId with
    | none => .error memberIdInvalid
    | some memberId =>
      match o.getMember.filter (· ≠ "") with
      | none => .error ⟨422, "VALIDATION_FAILED", "memberId has no linked user to share with", [("field", "memberId")]⟩
      | some kcSub =>
        if q.idempotencyKey.utf8ByteSize > 200 then
          .error (badRequest "Idempotency-Key must be <= 200 characters" [])
        else .ok (relation, memberId, kcSub)

def checkKey (o : Outcomes) (q : CreateShare) (relation : Relation) (memberId : Uuid16) (s : State) :
    Option Response :=
  if q.idempotencyKey = "" then none
  else if o.findKey then
    (s.findShareByIdempotencyKey q.docId q.idempotencyKey).map fun existing =>
      if existing.2 ≠ shareIdempotencyPayloadHash sha q.docId memberId relation then .error idempotencyConflict
      else .ok existing.1
  else some (.error internal)

/-- A share with another relation loses its tuple first. -/
def upgrade (o : Outcomes) (docId memberId : Uuid16) (relation : Relation) (kcSub : String) (s : State) :
    State × Bool :=
  match s.shares.get? (docId, memberId) with
  | some row =>
    if row.relation ≠ relation then
      (o.revoke.effect (·.revokeShare docId row.relation kcSub) s, o.revoke = .done)
    else (s, true)
  | none => (s, true)

def grantAndRecord (o : Outcomes) (q : CreateShare) (relation : Relation) (memberId : Uuid16)
    (kcSub : String) (s : State) : State × Response :=
  if o.getShare then
    let (upgraded, ok) := upgrade o q.docId memberId relation kcSub s
    if ok then
      let granted := o.grant.effect (·.grantShare q.docId relation kcSub) upgraded
      if o.grant = .done then
        let row := granted.shareRow sha q.docId memberId relation q.subject q.idempotencyKey o.newId o.now
        (o.store.effect (·.recordShare q.docId memberId row) granted,
          if o.store = .done then .created (row.share q.docId memberId) else .error internal)
      else (granted, .error (unavailable "could not grant relation"))
    else (upgraded, .error (unavailable "could not revoke previous relation before upgrade"))
  else (s, .error internal)

def handleCreateShare (o : Outcomes) (q : CreateShare) (s : State) : State × Response :=
  match resolve o q with
  | .error e => (s, .error e)
  | .ok (relation, memberId, kcSub) =>
    match checkKey sha o q relation memberId s with
    | some answer => (s, answer)
    | none => grantAndRecord sha o q relation memberId kcSub s

/-- A member without a user has no tuple to take back. -/
def revokeAndRemove (o : Outcomes) (docId memberId : Uuid16) (relation : Relation) (kcSub : String) (s : State) :
    State × Response :=
  let revoked := if kcSub = "" then s else o.revoke.effect (·.revokeShare docId relation kcSub) s
  if kcSub = "" ∨ o.revoke = .done then
    (o.store.effect (·.removeShare docId memberId) revoked, if o.store = .done then .noContent else .error internal)
  else (revoked, .error (unavailable "could not revoke relation"))

def handleRevokeShare (o : Outcomes) (q : RevokeShare) (s : State) : State × Response :=
  match parseMember q.memberId with
  | none => (s, .error memberIdInvalid)
  | some memberId =>
    match o.getMember with
    | none => (s, .error ⟨404, "NOT_FOUND", "member not found", []⟩)
    | some kcSub =>
      if kcSub ≠ "" ∧ kcSub = q.subject then
        (s, .error (badRequest "the owner cannot revoke their own access" []))
      else if o.getShare then
        match s.shares.get? (q.docId, memberId) with
        | none => (s, .error notFound)
        | some row => revokeAndRemove o q.docId memberId row.relation kcSub s
      else (s, .error internal)

inductive Request where
  | create (o : Outcomes) (q : CreateShare)
  | revoke (o : Outcomes) (q : RevokeShare)

def step (s : State) : Request → State
  | .create o q => (handleCreateShare sha o q s).1
  | .revoke o q => (handleRevokeShare o q s).1

def run (s : State) (rs : List Request) : State := rs.foldl (step sha) s

end Kiban.Docs
