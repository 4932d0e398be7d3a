import Kiban.Lib.Digest
import Kiban.Lib.Transactions
import Kiban.Lib.UuidText
import Kiban.Notification.Jobs

/-!
# Messages and inboxes of the notification module

The tables of channels, subscriptions, messages and recipients, and the operations that write a message with its inbox
rows.  An operation is a program of its statements; a read before the transaction begins is its first.  The random ids
and the time of a row are arguments.

The answers of `SendMessage` are kept beside the tables, in the order in which their transactions commit.
-/

namespace Kiban.Notification.Inbox

open Transactions PercentPath UuidText Digest

/-! ## Tables -/

inductive ChannelKind where
  | inApp
  | email
  | webhook
deriving DecidableEq

structure ChannelRow where
  companyId : Uuid16
  (key label : String)
  kind : ChannelKind
  target : Option String
deriving DecidableEq

structure SubscriptionRow where
  email : Option String
  muted : Bool
deriving DecidableEq

structure MessageRow where
  (companyId channelId : Uuid16)
  (subjectLine body createdBy : String)
  createdAt : Nat
  (idempotencyKey idempotencyKeyHash : Option String)
deriving DecidableEq

/-- A message as it is returned; its `ReadAt` is nil wherever it is here. -/
structure Message where
  (id companyId channelId : Uuid16)
  (subjectLine body createdBy : String)
  createdAt : Nat
deriving DecidableEq

def MessageRow.message (row : MessageRow) (id : Uuid16) : Message where
  id := id
  companyId := row.companyId
  channelId := row.channelId
  subjectLine := row.subjectLine
  body := row.body
  createdBy := row.createdBy
  createdAt := row.createdAt

structure Enqueued where
  messageId : Uuid16
  kind : JobKind
  (target claimGroup : String)
deriving DecidableEq

/-- A call of `SendMessage`, with the id and the time that the database would give its message. -/
structure Send where
  actor : String
  (companyId channelId : Uuid16)
  (subjectLine body idempotencyKey : String)
  newId : Uuid16
  now : Nat
deriving DecidableEq

structure Answer where
  call : Send
  message : Message
  created : Bool
deriving DecidableEq

structure Database where
  channels : Keyed.Table Uuid16 ChannelRow
  subscriptions : Keyed.Table (Uuid16 × String) SubscriptionRow
  messages : Keyed.Table Uuid16 MessageRow
  /-- `recipient_state`, with the time when the message was read -/
  recipients : Keyed.Table (Uuid16 × String) (Option Nat)
  jobs : List Enqueued
  audit : List AuditEvent
  answers : List Answer

/-! ## Statements -/

inductive Write where
  | insertChannel (id : Uuid16) (row : ChannelRow)
  | subscribe (channelId : Uuid16) (subject : String) (email : Option String)
  | unsubscribe (channelId : Uuid16) (subject : String)
  | insertMessage (id : Uuid16) (row : MessageRow)
  | insertRecipient (messageId : Uuid16) (subject : String)
  | enqueue (job : Enqueued)
  | audit (event : AuditEvent)
  | answer (a : Answer)

def Database.apply (db : Database) : Write → Database
  | .insertChannel id row => { db with channels := db.channels.insertMissing id row }
  | .subscribe channelId subject email =>
    { db with subscriptions := db.subscriptions.upsert (channelId, subject) ⟨email, false⟩ }
  | .unsubscribe channelId subject => { db with subscriptions := db.subscriptions.erase (channelId, subject) }
  | .insertMessage id row => { db with messages := db.messages.insertMissing id row }
  | .insertRecipient messageId subject => { db with recipients := db.recipients.insertMissing (messageId, subject) none }
  | .enqueue job => { db with jobs := db.jobs ++ [job] }
  | .audit event => { db with audit := db.audit ++ [event] }
  | .answer a => { db with answers := db.answers ++ [a] }

/-- Every constraint is checked by the statement that it concerns. -/
def schema : Schema Database Write := ⟨Database.apply, fun _ => true⟩

/-- The entries of unique indexes and the rows that a transaction keeps from others until its end. -/
inductive Lock where
  | channel (id : Uuid16)
  | channelKey (companyId : Uuid16) (key : String)
  | subscription (channelId : Uuid16) (subject : String)
  | message (id : Uuid16)
  | idempotencyKey (channelId : Uuid16) (key : String)
  | recipient (messageId : Uuid16) (subject : String)
deriving DecidableEq

inductive Label where
  | getChannel
  | findByIdempotencyKey
  | insertMessage
  | listSubscribers
  | insertRecipient
  | enqueue
  | audit
  | answer
  | subscribe
  | unsubscribe
  | provisionChannel
deriving DecidableEq

inductive PgError where
  | uniqueViolation (constraint : String)
  | foreignKeyViolation (constraint : String)
deriving DecidableEq

inductive InboxError where
  | validation (field message : String)
  | conflict
  | channelNotFound
  | idempotencyConflict
  | failed (doing : String) (cause : PgError)
deriving DecidableEq

abbrev Tx := Prog Database Write Lock Label InboxError

namespace Database

def getChannel (db : Database) (companyId channelId : Uuid16) : Except InboxError ChannelRow :=
  match db.channels.get? channelId with
  | some row => if row.companyId = companyId then .ok row else .error .channelNotFound
  | none => .error .channelNotFound

/-- The message and its stored hash; a row without one has the empty text. -/
def findByIdempotencyKey (db : Database) (channelId : Uuid16) (key : String) : Option (Message × String) :=
  (db.messages.rows.find? fun r => r.2.channelId = channelId ∧ r.2.idempotencyKey = some key).map fun r =>
    (r.2.message r.1, r.2.idempotencyKeyHash.getD "")

def subscribers (db : Database) (channelId : Uuid16) : List (String × Option String) :=
  (db.subscriptions.rows.filter fun r => r.1.1 = channelId ∧ r.2.muted = false).map fun r => (r.1.2, r.2.email)

end Database

def readChannel (companyId channelId : Uuid16) : Tx ChannelRow :=
  .read .getChannel fun db => db.getChannel companyId channelId

def insertMessage (id : Uuid16) (row : MessageRow) (err : PgError → InboxError) : Tx Message :=
  .exec .insertMessage (fun _ => [])
    (fun _ => .message id :: row.idempotencyKey.toList.map (.idempotencyKey row.channelId)) fun db =>
    if (db.messages.get? id).isSome then .error (err (.uniqueViolation "message_pkey"))
    else if row.idempotencyKey.any fun key => (db.findByIdempotencyKey row.channelId key).isSome then
      .error (err (.uniqueViolation "message_channel_idempotency_key_unique"))
    else if (db.channels.get? row.channelId).isNone then
      .error (err (.foreignKeyViolation "message_channel_id_fkey"))
    else .ok (row.message id, [.insertMessage id row])

def insertRecipient (doing : String) (messageId : Uuid16) (subject : String) : Tx Unit :=
  .exec .insertRecipient (fun _ => []) (fun _ => [.recipient messageId subject]) fun db =>
    if (db.recipients.get? (messageId, subject)).isSome then
      .error (.failed doing (.uniqueViolation "recipient_state_pkey"))
    else .ok ((), [.insertRecipient messageId subject])

def enqueue (job : Enqueued) : Tx Unit :=
  .exec .enqueue (fun _ => []) (fun _ => []) fun _ => .ok ((), [.enqueue job])

def record (event : AuditEvent) : Tx Unit :=
  .exec .audit (fun _ => []) (fun _ => []) fun _ => .ok ((), [.audit event])

def answer (a : Answer) : Tx Unit := .exec .answer (fun _ => []) (fun _ => []) fun _ => .ok ((), [.answer a])

/-! ## Sending -/

def payloadBytes (channelId : Uuid16) (subjectLine body : String) : Bytes :=
  channelId.bytes ++ [0] ++ utf8 subjectLine ++ [0] ++ utf8 body

def idempotencyPayloadHash (sha : Sha256) (channelId : Uuid16) (subjectLine body : String) : String :=
  sha.hexSum (payloadBytes channelId subjectLine body)

def controlCharacter (r : Char) : Bool := r.toNat < 0x20 || r.toNat == 0x7f

def validateSubjectLineAndBody (subjectLine body : String) : Except InboxError Unit :=
  if subjectLine.utf8ByteSize < 1 ∨ subjectLine.utf8ByteSize > 200 then
    .error (.validation "subjectLine" "must be 1..200 characters")
  else if subjectLine.toList.any controlCharacter then
    .error (.validation "subjectLine" "must not contain control characters")
  else if body = "" then .error (.validation "body" "must not be empty")
  else .ok ()

def Send.row (q : Send) (payloadHash : Option String) : MessageRow where
  companyId := q.companyId
  channelId := q.channelId
  subjectLine := q.subjectLine
  body := q.body
  createdBy := q.actor
  createdAt := q.now
  idempotencyKey := if q.idempotencyKey = "" then none else some q.idempotencyKey
  idempotencyKeyHash := payloadHash

def createMessageError : PgError → InboxError
  | .uniqueViolation _ => .conflict
  | cause => .failed "create message" cause

def nonEmpty (text : Option String) : Option String := text.filter (· ≠ "")

def deliver (claimGroup : String) (kind : ChannelKind) (messageId : Uuid16) (sub : String × Option String) : Tx Unit := do
  insertRecipient "create recipient state" messageId sub.1
  match kind, nonEmpty sub.2 with
  | .email, some email => enqueue ⟨messageId, .email, email, claimGroup⟩
  | _, _ => pure ()

def enqueueWebhook (claimGroup : String) (channel : ChannelRow) (messageId : Uuid16) : Tx Unit :=
  match channel.kind, nonEmpty channel.target with
  | .webhook, some target => enqueue ⟨messageId, .webhook, target, claimGroup⟩
  | _, _ => pure ()

def sendEvent (q : Send) (messageId : Uuid16) (recipients : Nat) : AuditEvent where
  actor := q.actor
  action := "notification.message.send"
  subject := "notification_channel:" ++ q.channelId.text
  payload := [("companyId", .text q.companyId.text), ("messageId", .text messageId.text),
    ("recipients", .number recipients)]

/-- The rest of `SendMessage` when no message has the key. -/
def create (claimGroup : String) (q : Send) (payloadHash : Option String) (channel : ChannelRow) : Tx Unit := do
  let m ← insertMessage q.newId (q.row payloadHash) createMessageError
  let subs ← .read .listSubscribers fun db => .ok (db.subscribers q.channelId)
  subs.forM (deliver claimGroup channel.kind m.id)
  enqueueWebhook claimGroup channel m.id
  record (sendEvent q m.id subs.length)
  answer ⟨q, m, true⟩

/-- A message has the key: the same payload gets it again, any other is refused. -/
def replay (q : Send) (hash : String) (existing : Message × String) : Tx Unit :=
  if existing.2 ≠ hash then .fail .idempotencyConflict else answer ⟨q, existing.1, false⟩

def sendMessage (sha : Sha256) (claimGroup : String) (q : Send) : Tx Unit := do
  .ofExcept (validateSubjectLineAndBody q.subjectLine q.body)
  let channel ← readChannel q.companyId q.channelId
  if q.idempotencyKey = "" then create claimGroup q none channel
  else
    let hash := idempotencyPayloadHash sha q.channelId q.subjectLine q.body
    match ← .read .findByIdempotencyKey fun db => .ok (db.findByIdempotencyKey q.channelId q.idempotencyKey) with
    | some existing => replay q hash existing
    | none => create claimGroup q (some hash) channel

/-! ## Subscriptions -/

def subscriptionEvent (action actor : String) (companyId channelId : Uuid16) : AuditEvent where
  actor := actor
  action := action
  subject := "notification_channel:" ++ channelId.text
  payload := [("companyId", .text companyId.text)]

def subscribe (actor : String) (companyId channelId : Uuid16) (subject : String) (email : Option String) : Tx Unit := do
  let _ ← readChannel companyId channelId
  .exec .subscribe (fun _ => []) (fun _ => [.subscription channelId subject]) fun _ =>
    .ok ((), [.subscribe channelId subject email])
  record (subscriptionEvent "notification.subscription.create" actor companyId channelId)

def unsubscribe (actor : String) (companyId channelId : Uuid16) (subject : String) : Tx Unit := do
  let _ ← readChannel companyId channelId
  .exec .unsubscribe (fun _ => []) (fun _ => [.subscription channelId subject]) fun _ =>
    .ok ((), [.unsubscribe channelId subject])
  record (subscriptionEvent "notification.subscription.delete" actor companyId channelId)

/-! ## Targeted events -/

/-- A call of `SendTargetedEvent`, with what the checker answers for each recipient in turn. -/
structure TargetedEvent where
  actor : String
  companyId : Uuid16
  (sourceModule subjectLine body : String)
  recipients : List (String × Except String Bool)
  (newChannelId newId : Uuid16)
  now : Nat

def sourceRune (c : Char) : Bool := c.isLower || c.isDigit || c == '_' || c == '-'

/-- `^[a-z][a-z0-9_-]{0,55}$` -/
def eventsSourceModulePattern (s : String) : Bool :=
  match s.toList with
  | [] => false
  | c :: cs => c.isLower && decide (cs.length ≤ 55) && cs.all sourceRune

namespace TargetedEvent

variable (e : TargetedEvent)

def check : Except InboxError Unit :=
  if ¬ eventsSourceModulePattern e.sourceModule then
    .error (.validation "sourceModule" "must match ^[a-z][a-z0-9_-]\x7b0,55\x7d$")
  else do
    validateSubjectLineAndBody e.subjectLine e.body
    if e.recipients = [] then throw (.validation "recipientKcSubs" "must not be empty")

/-- An error of the checker counts as not a member. -/
def isConfirmed : Except String Bool → Bool
  | .ok true => true
  | _ => false

def confirmed : List String := (e.recipients.filter fun r => isConfirmed r.2).map Prod.fst

def skipped : Nat := (e.recipients.filter fun r => ¬ isConfirmed r.2).length

def channelRow : ChannelRow where
  companyId := e.companyId
  key := "events-" ++ e.sourceModule
  label := "Events: " ++ e.sourceModule
  kind := .inApp
  target := none

def messageRow (channelId : Uuid16) : MessageRow where
  companyId := e.companyId
  channelId := channelId
  subjectLine := e.subjectLine
  body := e.body
  createdBy := e.actor
  createdAt := e.now
  idempotencyKey := none
  idempotencyKeyHash := none

def event (channelId : Uuid16) : AuditEvent where
  actor := e.actor
  action := "notification.event.send"
  subject := "notification_channel:" ++ channelId.text
  payload := [("companyId", .text e.companyId.text), ("sourceModule", .text e.sourceModule),
    ("sent", .number e.confirmed.length), ("skipped", .number e.skipped)]

end TargetedEvent

def Database.channelByKey (db : Database) (companyId : Uuid16) (key : String) : Option Uuid16 :=
  (db.channels.rows.find? fun r => r.2.companyId = companyId ∧ r.2.key = key).map Prod.fst

/-- `INSERT … ON CONFLICT (company_id, key) DO UPDATE … RETURNING id` -/
def provisionChannel (newId : Uuid16) (row : ChannelRow) : Tx Uuid16 :=
  .exec .provisionChannel (fun _ => []) (fun _ => [.channel newId, .channelKey row.companyId row.key]) fun db =>
    match db.channelByKey row.companyId row.key with
    | some id => .ok (id, [])
    | none =>
      if (db.channels.get? newId).isSome then
        .error (.failed "provision events channel" (.uniqueViolation "channel_pkey"))
      else .ok (newId, [.insertChannel newId row])

/-- The numbers of recipients that were sent to and skipped. -/
def sendTargetedEvent (e : TargetedEvent) : Tx (Nat × Nat) := do
  .ofExcept e.check
  if e.confirmed = [] then pure (0, e.skipped)
  else
    let channelId ← provisionChannel e.newChannelId e.channelRow
    let m ← insertMessage e.newId (e.messageRow channelId) (.failed "create event message")
    e.confirmed.forM (insertRecipient "create event recipient state" m.id)
    record (e.event channelId)
    pure (e.confirmed.length, e.skipped)

/-! ## Inbox rows -/

section Recipients

variable {c : Database} {id : Uuid16} {subject : String} {ws : List Write}

theorem get?_recipients_apply_of_ne {w} (hw : w ≠ .insertRecipient id subject) :
    (c.apply w).recipients.get? (id, subject) = c.recipients.get? (id, subject) := by
  cases w with
  | insertRecipient id' subject' =>
    refine (Keyed.Table.get?_insertMissing _ _).trans (if_neg fun hkey => hw ?_)
    cases hkey
    rfl
  | insertMessage | answer | insertChannel | subscribe | unsubscribe | enqueue | audit => rfl

theorem get?_recipients_of_notMem (h : Write.insertRecipient id subject ∉ ws) :
    (schema.view ws c).recipients.get? (id, subject) = c.recipients.get? (id, subject) := by
  induction ws generalizing c with
  | nil => rfl
  | cons w ws ih =>
    have hw : w ≠ .insertRecipient id subject := fun heq => h (heq ▸ List.mem_cons_self)
    have hrest := ih (c := c.apply w) fun hmem => h (List.mem_cons_of_mem _ hmem)
    exact hrest.trans (get?_recipients_apply_of_ne hw)

theorem get?_recipients_insert
    (hunr : c.recipients.get? (id, subject) = none ∨ c.recipients.get? (id, subject) = some none) :
    (c.apply (.insertRecipient id subject)).recipients.get? (id, subject) = some none := by
  refine (Keyed.Table.get?_insertMissing _ _).trans ?_
  rw [if_pos rfl]
  rcases hunr with hnone | hrow
  · rw [hnone]
    rfl
  · rw [hrow]
    rfl

theorem get?_recipients_of_mem (h : Write.insertRecipient id subject ∈ ws)
    (hunr : c.recipients.get? (id, subject) = none ∨ c.recipients.get? (id, subject) = some none) :
    (schema.view ws c).recipients.get? (id, subject) = some none := by
  induction ws generalizing c with
  | nil => cases h
  | cons w ws ih =>
    by_cases hmem : Write.insertRecipient id subject ∈ ws
    · -- a row that is there already stays unread
      refine ih (c := c.apply w) hmem ?_
      by_cases hw : w = .insertRecipient id subject
      · rw [hw]
        exact .inr (get?_recipients_insert hunr)
      · rw [get?_recipients_apply_of_ne hw]
        exact hunr
    · have hw : w = .insertRecipient id subject := ((List.mem_cons.mp h).resolve_right hmem).symm
      have hrest := get?_recipients_of_notMem (c := c.apply w) hmem
      refine hrest.trans ?_
      rw [hw]
      exact get?_recipients_insert hunr

end Recipients

end Kiban.Notification.Inbox
