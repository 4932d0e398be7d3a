import Kiban.Lib.Executions
import Kiban.Lib.Separator
import Kiban.Notification.Inbox

/-!
# Sending a message once

`SendMessage` looks for a message with its idempotency key and inserts one when there is none.  Two calls can both find
none; the unique index then lets one insert and makes the other wait.  A message is answered again only to its own
payload, told from a digest of the channel, the subject line and the body with a zero byte between them.
-/

namespace Kiban.Notification.Inbox

open Transactions PercentPath UuidText Digest List Keyed.Table Option

/-! ## The bytes that are hashed -/

variable {subjectLine body : String}

def Accepted (subjectLine body : String) : Prop := validateSubjectLineAndBody subjectLine body = .ok ()

/-- No zero byte can be brought in by a subject line that is accepted. -/
theorem zero_notMem_of_accepted (h : Accepted subjectLine body) : (0 : UInt8) ∉ utf8 subjectLine := by
  have hcon : ¬ subjectLine.toList.any controlCharacter = true := by
    unfold Accepted validateSubjectLineAndBody at h
    split at h
    · cases h
    · split at h
      · cases h
      · assumption
  rw [utf8_eq, mem_flatMap]
  rintro ⟨c, hc, hzero⟩
  refine zero_notMem_utf8EncodeChar (fun hnul => hcon ?_) hzero
  exact any_eq_true.mpr ⟨c, hc, by simp [controlCharacter, hnul]⟩

theorem payloadBytes_injective {channelId channelId' subjectLine' body'}
    (h : Accepted subjectLine body) (h' : Accepted subjectLine' body')
    (heq : payloadBytes channelId subjectLine body = payloadBytes channelId' subjectLine' body') :
    channelId = channelId' ∧ subjectLine = subjectLine' ∧ body = body' := by
  unfold payloadBytes at heq
  simp only [append_assoc, singleton_append] at heq
  -- the bytes of the channel may hold zeros, but there are always sixteen of them
  obtain ⟨hch, hrest⟩ := append_inj heq (channelId.size.trans channelId'.size.symm)
  obtain ⟨hsubj, hbody⟩ :=
    Separator.cons_split_left (zero_notMem_of_accepted h) (zero_notMem_of_accepted h') (List.cons.inj hrest).2
  exact ⟨Uuid16.ext_bytes hch, utf8_injective hsubj, utf8_injective hbody⟩

/-! ## The calls -/

inductive Request where
  | send (q : Send)
  | subscribe (actor : String) (companyId channelId : Uuid16) (subject : String) (email : Option String)
  | unsubscribe (actor : String) (companyId channelId : Uuid16) (subject : String)
  | targeted (e : TargetedEvent)

def prog (sha : Sha256) (claimGroup : String) : Request → Tx Unit
  | .send q => sendMessage sha claimGroup q
  | .subscribe actor companyId channelId subject email => Inbox.subscribe actor companyId channelId subject email
  | .unsubscribe actor companyId channelId subject => Inbox.unsubscribe actor companyId channelId subject
  | .targeted e => do
    let _ ← sendTargetedEvent e
    pure ()

/-- The row of the message that a call with a key was answered with. -/
structure Matches (row : MessageRow) (a : Answer) : Prop where
  message : a.message = row.message a.message.id
  channelId : row.channelId = a.call.channelId
  key : row.idempotencyKey = some a.call.idempotencyKey
  subjectLine : row.subjectLine = a.call.subjectLine
  body : row.body = a.call.body

namespace Database

def Holds (db : Database) (a : Answer) : Prop := ∃ row, db.messages.get? a.message.id = some row ∧ Matches row a

def NoKey (db : Database) (channelId : Uuid16) (key : String) : Prop :=
  ∀ id row, db.messages.get? id = some row → row.channelId = channelId → row.idempotencyKey ≠ some key

/-- The answers of the calls that created a message with the key. -/
def creations (db : Database) (channelId : Uuid16) (key : String) : List Answer :=
  db.answers.filter fun a => a.created ∧ a.call.channelId = channelId ∧ a.call.idempotencyKey = key

/-- The unique index, the foreign key of the inbox rows, and that a hash is that of the row's own payload. -/
structure Sound (sha : Sha256) (db : Database) : Prop where
  unique : ∀ id row id' row' key, db.messages.get? id = some row → db.messages.get? id' = some row' →
    row.channelId = row'.channelId → row.idempotencyKey = some key → row'.idempotencyKey = some key → id = id'
  foreignKey : ∀ id subject, (db.recipients.get? (id, subject)).isSome = true → (db.messages.get? id).isSome = true
  hashed : ∀ id row hash, db.messages.get? id = some row → row.idempotencyKeyHash = some hash →
    Accepted row.subjectLine row.body ∧ hash = idempotencyPayloadHash sha row.channelId row.subjectLine row.body

structure Good (sha : Sha256) (db : Database) : Prop extends db.Sound sha where
  answered : ∀ a ∈ db.answers, a.call.idempotencyKey ≠ "" → db.Holds a
  once : ∀ channelId key, key ≠ "" → (db.creations channelId key).length ≤ 1

def Keeps (db db' : Database) : Prop := ∀ id row, db.messages.get? id = some row → db'.messages.get? id = some row

end Database

/-! ## What the others may do -/

abbrev TxTrail := Trail Write Lock Label

def Rely (_ : Option Label) (tr : TxTrail) (c c' : Database) : Prop :=
  (∀ id, Lock.message id ∈ tr.held → c'.messages.get? id = c.messages.get? id) ∧
    (∀ channelId key, Lock.idempotencyKey channelId key ∈ tr.held → c.NoKey channelId key → c'.NoKey channelId key) ∧
    c.Keeps c'

def Guarantee (tr : TxTrail) (c c' : Database) : Prop :=
  (∀ id, Lock.message id ∉ tr.held → c'.messages.get? id = c.messages.get? id) ∧
    (∀ channelId key, Lock.idempotencyKey channelId key ∉ tr.held → c.NoKey channelId key → c'.NoKey channelId key) ∧
    c.Keeps c' ∧ ∀ id row, Write.insertMessage id row ∈ tr.writes → c.messages.get? id = none

/-- A write that makes no message and no answer, and an inbox row of the new message at most. -/
def Quiet (new : Option (Uuid16 × MessageRow)) : Write → Prop
  | .insertMessage _ _ => False
  | .answer _ => False
  | .insertRecipient id _ => ∃ row, new = some (id, row)
  | _ => True

/-- A hash that is stored is the one of the row's payload. -/
def MessageRow.Hashed (sha : Sha256) (row : MessageRow) : Prop :=
  ∀ hash, row.idempotencyKeyHash = some hash →
    Accepted row.subjectLine row.body ∧ hash = idempotencyPayloadHash sha row.channelId row.subjectLine row.body

/-- The answer to a call with a key is the new message, or one that is there. -/
def Answers (new : Option (Uuid16 × MessageRow)) (c : Database) (a : Answer) : Prop :=
  a.call.idempotencyKey ≠ "" →
    (∃ row, new = some (a.message.id, row) ∧ Matches row a) ∨ (a.created = false ∧ c.Holds a)

structure Does (sha : Sha256) (new : Option (Uuid16 × MessageRow)) (a : Option Answer) (tr : TxTrail)
    (c : Database) : Prop where
  messages : ∀ c', (schema.view tr.writes c').messages = match new with
    | some (id, row) => c'.messages.insertMissing id row
    | none => c'.messages
  answers : ∀ c', (schema.view tr.writes c').answers = c'.answers ++ a.toList
  recipients : ∀ c' id subject, ((schema.view tr.writes c').recipients.get? (id, subject)).isSome = true →
    (c'.recipients.get? (id, subject)).isSome = true ∨ ∃ row, new = some (id, row)
  only : ∀ id row, Write.insertMessage id row ∈ tr.writes → new = some (id, row)
  fresh : ∀ id row, new = some (id, row) → Lock.message id ∈ tr.held ∧ c.messages.get? id = none
  free : ∀ id row key, new = some (id, row) → row.idempotencyKey = some key →
    Lock.idempotencyKey row.channelId key ∈ tr.held ∧ c.NoKey row.channelId key
  hashed : ∀ id row, new = some (id, row) → row.Hashed sha
  answer : ∀ a', a = some a' → Answers new c a'

section Steps

variable {sha : Sha256} {new : Option (Uuid16 × MessageRow)} {a : Option Answer} {tr : TxTrail} {c c' : Database}
  {next : Option Label} {ws : List Write} {channelId id : Uuid16} {key : String} {row : MessageRow}

theorem does_start : Does sha none none .start c where
  messages _ := rfl
  answers _ := (append_nil _).symm
  recipients _ _ _ h := .inl h
  only _ _ h := nomatch h
  fresh _ _ h := nomatch h
  free _ _ _ h := nomatch h
  hashed _ _ h := nomatch h
  answer _ h := nomatch h

theorem holds_of_keeps {x} (hkeeps : c.Keeps c') (h : c.Holds x) : c'.Holds x := by
  obtain ⟨row, hrow, hmatch⟩ := h
  exact ⟨row, hkeeps _ row hrow, hmatch⟩

theorem Does.rely (h : Does sha new a tr c) (hR : Rely next tr c c') : Does sha new a tr c' := by
  obtain ⟨hmsg, hkey, hkeeps⟩ := hR
  refine { h with fresh := fun id row hnew => ?_, free := fun id row key hnew hrow => ?_, answer := fun x hx hne => ?_ }
  · obtain ⟨hheld, hnone⟩ := h.fresh id row hnew
    exact ⟨hheld, (hmsg id hheld).trans hnone⟩
  · obtain ⟨hheld, hfree⟩ := h.free id row key hnew hrow
    exact ⟨hheld, hkey _ _ hheld hfree⟩
  · rcases h.answer x hx hne with hmade | ⟨hcre, hholds⟩
    · exact .inl hmade
    · exact .inr ⟨hcre, holds_of_keeps hkeeps hholds⟩

theorem apply_quiet {w} (hw : Quiet new w) (c : Database) :
    (c.apply w).messages = c.messages ∧ (c.apply w).answers = c.answers ∧
      ∀ id subject, ((c.apply w).recipients.get? (id, subject)).isSome = true →
        (c.recipients.get? (id, subject)).isSome = true ∨ ∃ row, new = some (id, row) := by
  cases w with
  | insertMessage id row | answer x => cases hw
  | insertRecipient id subject =>
    refine ⟨rfl, rfl, fun id' subject' hrow => ?_⟩
    rcases isSome_get?_insertMissing hrow with hold | hkey
    · exact .inl hold
    · cases hkey
      exact .inr hw
  | insertChannel id row | subscribe channelId subject email
  | unsubscribe channelId subject | enqueue job | audit event => exact ⟨rfl, rfl, fun _ _ h => .inl h⟩

theorem view_quiet (hws : ∀ w ∈ ws, Quiet new w) (c : Database) :
    (schema.view ws c).messages = c.messages ∧ (schema.view ws c).answers = c.answers ∧
      ∀ id subject, ((schema.view ws c).recipients.get? (id, subject)).isSome = true →
        (c.recipients.get? (id, subject)).isSome = true ∨ ∃ row, new = some (id, row) := by
  induction ws generalizing c with
  | nil => exact ⟨rfl, rfl, fun _ _ h => .inl h⟩
  | cons w ws ih =>
    obtain ⟨hmsgs, hans, hrec⟩ := apply_quiet (hws w mem_cons_self) c
    obtain ⟨hmsgs', hans', hrec'⟩ := ih (fun w hw => hws w (mem_cons_of_mem _ hw)) (c.apply w)
    refine ⟨hmsgs'.trans hmsgs, hans'.trans hans, fun id subject hrow => ?_⟩
    rcases hrec' id subject hrow with hold | hnew
    · exact hrec id subject hold
    · exact .inr hnew

theorem Does.extend (h : Does sha new a tr c) (locks : List Lock) (label : Label) (hws : ∀ w ∈ ws, Quiet new w) :
    Does sha new a (tr.extend ws locks label) c where
  messages c' := by
    rw [Schema.view_append, (view_quiet hws _).1]
    exact h.messages c'
  answers c' := by
    rw [Schema.view_append, (view_quiet hws _).2.1]
    exact h.answers c'
  recipients c' id subject hrow := by
    rw [Schema.view_append] at hrow
    rcases (view_quiet hws _).2.2 id subject hrow with hold | hnew
    · exact h.recipients c' id subject hold
    · exact .inr hnew
  only id row hmem := by
    rcases mem_append.mp hmem with hold | hnew
    · exact h.only id row hold
    · exact (hws _ hnew).elim
  fresh id row hnew := ⟨mem_append_left _ (h.fresh id row hnew).1, (h.fresh id row hnew).2⟩
  free id row key hnew hrow := ⟨mem_append_left _ (h.free id row key hnew hrow).1, (h.free id row key hnew hrow).2⟩
  hashed := h.hashed
  answer := h.answer

theorem noKey_of_findByIdempotencyKey
    (h : c.findByIdempotencyKey channelId key = none) : c.NoKey channelId key := by
  intro id row hget hch hkey
  have hnone := find?_eq_none.mp (map_eq_none_iff.mp h) (id, row) (get?_eq_some_iff.mp hget)
  exact hnone (decide_eq_true ⟨hch, hkey⟩)

/-- The row that a transaction inserts, by the locks that it takes with it. -/
theorem Does.insert (h : Does sha none none tr c) {held} (label : Label) (hid : (c.messages.get? id) = none)
    (hkey : ∀ key, row.idempotencyKey = some key → c.NoKey row.channelId key)
    (hhas : row.Hashed sha)
    (hheld : .message id :: row.idempotencyKey.toList.map (.idempotencyKey row.channelId) ⊆ held) :
    Does sha (some (id, row)) none ⟨tr.writes ++ [.insertMessage id row], held, tr.log ++ [label]⟩ c where
  messages c' := by
    rw [Schema.view_append]
    show ((schema.view tr.writes c').messages).insertMissing id row = _
    rw [h.messages c']
  answers c' := by
    rw [Schema.view_append]
    exact h.answers c'
  recipients c' id' subject hrow := by
    rw [Schema.view_append] at hrow
    rcases h.recipients c' id' subject hrow with hold | ⟨_, hnone⟩
    · exact .inl hold
    · cases hnone
  only id' row' hmem := by
    rcases mem_append.mp hmem with hold | hnew
    · cases h.only id' row' hold
    · cases mem_singleton.mp hnew
      rfl
  fresh id' row' hnew := by
    cases hnew
    exact ⟨hheld mem_cons_self, hid⟩
  free id' row' key hnew hrow := by
    cases hnew
    refine ⟨hheld (mem_cons_of_mem _ (mem_map_of_mem ?_)), hkey key hrow⟩
    rw [hrow]
    exact mem_singleton.mpr rfl
  hashed id' row' hnew := by
    cases hnew
    exact hhas
  answer _ hx := nomatch hx

theorem Does.reply (h : Does sha new none tr c) (label : Label) {x}
    (hx : Answers new c x) : Does sha new (some x) (tr.extend [.answer x] [] label) c where
  messages c' := by
    rw [Schema.view_append]
    exact h.messages c'
  answers c' := by
    rw [Schema.view_append]
    show (schema.view tr.writes c').answers ++ [x] = _
    rw [h.answers c', toList_none, append_nil]
    rfl
  recipients c' id subject hrow := by
    rw [Schema.view_append] at hrow
    exact h.recipients c' id subject hrow
  only id row hmem := by
    rcases mem_append.mp hmem with hold | hnew
    · exact h.only id row hold
    · cases mem_singleton.mp hnew
  fresh id row hnew := ⟨mem_append_left _ (h.fresh id row hnew).1, (h.fresh id row hnew).2⟩
  free id row key hnew hrow := ⟨mem_append_left _ (h.free id row key hnew hrow).1, (h.free id row key hnew hrow).2⟩
  hashed := h.hashed
  answer y hy := by
    cases hy
    exact hx

/-! ## A commit -/

theorem Does.get?_eq_some_iff (h : Does sha new a tr c) :
    (schema.view tr.writes c).messages.get? id = some row ↔ new = some (id, row) ∨ c.messages.get? id = some row := by
  rw [h.messages c]
  cases new with
  | none => exact ⟨.inr, fun hrow => hrow.resolve_left nofun⟩
  | some r =>
    obtain ⟨id', row'⟩ := r
    have hnone := (h.fresh id' row' rfl).2
    dsimp only
    rw [get?_insertMissing_of_none hnone]
    by_cases hid : id = id'
    · subst hid
      simp [hnone]
    · have hne : ¬ (id' = id ∧ row' = row) := fun heq => hid heq.1.symm
      simp [hid, hne]

theorem Does.keeps (h : Does sha new a tr c) : c.Keeps (schema.view tr.writes c) :=
  fun _ _ hget => h.get?_eq_some_iff.mpr (.inr hget)

theorem Does.sound (h : Does sha new a tr c) (hc : c.Sound sha) : (schema.view tr.writes c).Sound sha := by
  refine ⟨fun id row id' row' key hrow hrow' hch hkey hkey' => ?_, fun id subject hrow => ?_,
    fun id row hash hrow hhash => ?_⟩
  · rcases h.get?_eq_some_iff.mp hrow with hnew | hold
    · rcases h.get?_eq_some_iff.mp hrow' with hnew' | hold'
      · cases hnew.symm.trans hnew'
        rfl
      · exact absurd hkey' ((h.free id row key hnew hkey).2 id' row' hold' hch.symm)
    · rcases h.get?_eq_some_iff.mp hrow' with hnew' | hold'
      · exact absurd hkey ((h.free id' row' key hnew' hkey').2 id row hold hch)
      · exact hc.unique id row id' row' key hold hold' hch hkey hkey'
  · rw [isSome_iff_exists]
    rcases h.recipients c id subject hrow with hold | ⟨row, hnew⟩
    · obtain ⟨row, hget⟩ := isSome_iff_exists.mp (hc.foreignKey id subject hold)
      exact ⟨row, h.keeps id row hget⟩
    · exact ⟨row, h.get?_eq_some_iff.mpr (.inl hnew)⟩
  · rcases h.get?_eq_some_iff.mp hrow with hnew | hold
    · exact h.hashed id row hnew hash hhash
    · exact hc.hashed id row hash hold hhash

/-- Where a message with the key is new, nobody has been answered that they created one. -/
theorem creations_eq_nil (hc : c.Good sha) (hkey : key ≠ "")
    (hfree : c.NoKey channelId key) : c.creations channelId key = [] := by
  refine filter_eq_nil_iff.mpr fun x hx hcre => ?_
  obtain ⟨_, rfl, rfl⟩ := of_decide_eq_true hcre
  obtain ⟨row, hget, hmatch⟩ := hc.answered x hx hkey
  exact hfree _ row hget hmatch.channelId hmatch.key

theorem Does.good (h : Does sha new a tr c) (hc : c.Good sha) : (schema.view tr.writes c).Good sha := by
  refine ⟨h.sound hc.toSound, fun x hx hne => ?_, fun channelId key hkey => ?_⟩
  · rw [h.answers] at hx
    rcases mem_append.mp hx with hold | hnew
    · exact holds_of_keeps h.keeps (hc.answered x hold hne)
    · rcases h.answer x (mem_toList.mp hnew) hne with ⟨row, hrow, hmatch⟩ | ⟨_, hholds⟩
      · exact ⟨row, h.get?_eq_some_iff.mpr (.inl hrow), hmatch⟩
      · exact holds_of_keeps h.keeps hholds
  · have honce := hc.once channelId key hkey
    unfold Database.creations at honce ⊢
    rw [h.answers, filter_append, length_append]
    cases a with
    | none => simpa using honce
    | some x =>
      by_cases hcre : x.created = true ∧ x.call.channelId = channelId ∧ x.call.idempotencyKey = key
      · obtain ⟨hmade, rfl, rfl⟩ := hcre
        obtain ⟨row, hrow, hmatch⟩ : ∃ row, new = some (x.message.id, row) ∧ Matches row x := by
          rcases h.answer x rfl hkey with hnew | ⟨hfalse, _⟩
          · exact hnew
          · cases hmade.symm.trans hfalse
        have hfree := (h.free _ row _ hrow hmatch.key).2
        rw [hmatch.channelId] at hfree
        have hnil := creations_eq_nil hc hkey hfree
        unfold Database.creations at hnil
        rw [hnil, length_nil, Nat.zero_add]
        exact length_filter_le _ _
      · rw [toList_some, filter_cons_of_neg (by simpa using hcre)]
        exact honce

theorem Does.guarantee (h : Does sha new a tr c) : Guarantee tr c (schema.view tr.writes c) := by
  refine ⟨fun id hfree => ?_, fun channelId key hfree hnone id row hget hch hkey => ?_, h.keeps,
    fun id row hmem => (h.fresh id row (h.only id row hmem)).2⟩
  · refine Option.ext fun row => h.get?_eq_some_iff.trans (or_iff_right fun hnew => ?_)
    exact hfree (h.fresh id row hnew).1
  · rcases h.get?_eq_some_iff.mp hget with hnew | hold
    · exact hfree (hch ▸ (h.free id row key hnew hkey).1)
    · exact hnone id row hold hch hkey

theorem Does.ready (h : Does sha new a tr c) :
    Ready schema (Database.Good sha) Rely (fun _ _ => True) Guarantee () tr c := by
  intro c' hR hgood _ _
  have h' := h.rely hR
  exact ⟨h'.good hgood, h'.guarantee⟩

end Steps

/-! ## The programs -/

section Programs

variable {sha : Sha256} {new : Option (Uuid16 × MessageRow)} {a : Option Answer} {tr : TxTrail} {c : Database}
  {α : Type} {id : Uuid16} {row : MessageRow} {claimGroup : String} {channel : ChannelRow}

def Settled (sha : Sha256) (tr : TxTrail) (c : Database) : Prop := ∃ new a, Does sha new a tr c

theorem Does.wp_quiet (h : Does sha new a tr c) {p : Tx α} (hp : p.Writes (Quiet new)) :
    p.wp schema (Database.Good sha) Rely (fun _ tr c => Does sha new a tr c) tr c :=
  hp.wp (fun _ _ _ _ h hR => h.rely hR) (fun _ _ _ locks label h hnew => h.extend locks label hnew) h
    fun _ _ _ h => h

theorem Does.wp_read (h : Does sha new a tr c) {label} {answer : Database → Except InboxError α} :
    (Prog.read label answer : Tx α).wp schema (Database.Good sha) Rely (fun _ tr c => Does sha new a tr c) tr c :=
  h.wp_quiet Prog.writes_read

theorem wp_insertMessage (h : Does sha none none tr c) {err}
    (hhas : row.Hashed sha) :
    (insertMessage id row err).wp schema (Database.Good sha) Rely
      (fun m tr c => m = row.message id ∧ Does sha (some (id, row)) none tr c) tr c := by
  refine Prog.wp_exec fun c' m ws hR _ hans => ?_
  have hmsgs : (schema.view tr.writes c').messages = c'.messages := h.messages c'
  split at hans
  · cases hans
  split at hans
  · cases hans
  split at hans
  · cases hans
  rename_i hid hkey _
  cases hans
  refine ⟨rfl, (h.rely hR).insert .insertMessage ?_ (fun key hrow => ?_) hhas (subset_append_right _ _)⟩
  · rw [← hmsgs]
    exact not_isSome_iff_eq_none.mp hid
  · rw [hrow, any_some, not_isSome_iff_eq_none] at hkey
    intro id' row' hget
    exact noKey_of_findByIdempotencyKey hkey id' row' (by rw [hmsgs]; exact hget)

theorem writes_enqueue {job} : (enqueue job).Writes (Quiet new) := by
  refine Prog.writes_exec fun db r hr w hw => ?_
  cases hr
  rw [mem_singleton.mp hw]
  trivial

theorem writes_record {event} : (record event).Writes (Quiet new) := by
  refine Prog.writes_exec fun db r hr w hw => ?_
  cases hr
  rw [mem_singleton.mp hw]
  trivial

theorem writes_insertRecipient {doing subject} :
    (insertRecipient doing id subject).Writes (Quiet (some (id, row))) := by
  refine Prog.writes_exec fun db r hr w hw => ?_
  split at hr
  · cases hr
  · cases hr
    rw [mem_singleton.mp hw]
    exact ⟨row, rfl⟩

theorem writes_deliver {kind sub} : (deliver claimGroup kind id sub).Writes (Quiet (some (id, row))) := by
  refine writes_insertRecipient.bind fun _ => ?_
  split
  · exact writes_enqueue
  · trivial

theorem writes_enqueueWebhook : (enqueueWebhook claimGroup channel id).Writes (Quiet new) := by
  unfold enqueueWebhook
  split
  · exact writes_enqueue
  · trivial

theorem wp_answer (h : Does sha new none tr c) {x}
    (hx : ∀ c', c.Keeps c' → Answers new c' x) :
    (answer x).wp schema (Database.Good sha) Rely (fun _ => Settled sha) tr c := by
  refine Prog.wp_exec fun c' _ ws hR _ hans => ?_
  cases hans
  exact ⟨_, _, (h.rely hR).reply .answer (hx c' hR.2.2)⟩

theorem wp_create {q} {payloadHash : Option String} (h : Does sha none none tr c)
    (hhas : (q.row payloadHash).Hashed sha) :
    (create claimGroup q payloadHash channel).wp schema (Database.Good sha) Rely (fun _ => Settled sha) tr c := by
  unfold create
  rw [Prog.wp_bind]
  refine (wp_insertMessage h hhas).mono ?_
  rintro m tr c ⟨rfl, h⟩
  rw [Prog.wp_bind]
  refine h.wp_read.mono fun subs tr c h => ?_
  rw [Prog.wp_bind]
  refine (h.wp_quiet (Prog.writes_forM subs fun _ _ => writes_deliver)).mono fun _ tr c h => ?_
  rw [Prog.wp_bind]
  refine (h.wp_quiet writes_enqueueWebhook).mono fun _ tr c h => ?_
  rw [Prog.wp_bind]
  refine (h.wp_quiet writes_record).mono fun _ tr c h => wp_answer h fun _ _ hne => .inl ?_
  exact ⟨_, rfl, rfl, rfl, if_neg hne, rfl, rfl⟩

/-- The message that the key finds was made for this payload, when the hashes agree. -/
theorem holds_of_find {q} (hc : c.Good sha) (hacc : Accepted q.subjectLine q.body) {existing}
    (hfind : c.findByIdempotencyKey q.channelId q.idempotencyKey = some existing)
    (hhash : existing.2 = idempotencyPayloadHash sha q.channelId q.subjectLine q.body) :
    c.Holds ⟨q, existing.1, false⟩ := by
  obtain ⟨⟨id, row⟩, hrow, rfl⟩ := map_eq_some_iff.mp hfind
  have hfound := find?_some hrow
  obtain ⟨hch, hkey⟩ := of_decide_eq_true hfound
  have hget : c.messages.get? id = some row := get?_eq_some_iff.mpr (mem_of_find?_eq_some hrow)
  cases hsto : row.idempotencyKeyHash with
  | none =>
    -- a row from before the hashes were stored is never taken for the same payload
    rw [hsto] at hhash
    exact absurd hhash.symm (sha.ne_empty _)
  | some hash =>
    rw [hsto] at hhash
    obtain ⟨hacc', heq⟩ := hc.hashed id row hash hget hsto
    have hbytes : payloadBytes row.channelId row.subjectLine row.body =
        payloadBytes q.channelId q.subjectLine q.body := sha.injective (heq.symm.trans hhash)
    obtain ⟨_, hsubj, hbody⟩ := payloadBytes_injective hacc' hacc hbytes
    exact ⟨row, hget, rfl, hch, hkey, hsubj, hbody⟩

theorem wp_sendMessage (claimGroup : String) (q : Send) :
    (sendMessage sha claimGroup q).wp schema (Database.Good sha) Rely (fun _ => Settled sha) .start c := by
  unfold sendMessage
  rw [Prog.wp_bind]
  refine Prog.wp_ofExcept fun _ hacc => ?_
  rw [Prog.wp_bind]
  refine (does_start.wp_read).mono fun channel tr c h => ?_
  split
  · exact wp_create h nofun
  rw [Prog.wp_bind]
  refine Prog.wp_read fun c' found hR hgood hfound => ?_
  have hquiet : ∀ w ∈ ([] : List Write), Quiet none w := nofun
  have h' : Does sha none none { tr with log := tr.log ++ [Label.findByIdempotencyKey] } c' := by
    simpa [Trail.extend] using (h.rely hR).extend [] Label.findByIdempotencyKey hquiet
  cases found with
  | none =>
    refine wp_create h' ?_
    rintro _ ⟨⟩
    exact ⟨hacc, rfl⟩
  | some existing =>
    dsimp only
    unfold replay
    split
    · exact Prog.wp_fail _
    rename_i hsame
    have hfind : c'.findByIdempotencyKey q.channelId q.idempotencyKey = some existing := by
      have hmsgs : (schema.view tr.writes c').messages = c'.messages := h.messages c'
      have hview := Except.ok.inj hfound
      unfold Database.findByIdempotencyKey at hview ⊢
      rw [hmsgs] at hview
      exact hview
    have hholds := holds_of_find hgood hacc hfind (not_not.mp hsame)
    exact wp_answer h' fun _ hkeeps _ => .inr ⟨rfl, holds_of_keeps hkeeps hholds⟩

theorem Does.settled {p : Tx Unit} (h : Does sha new a tr c) (hp : p.Writes (Quiet new)) :
    p.wp schema (Database.Good sha) Rely (fun _ => Settled sha) tr c :=
  (h.wp_quiet hp).mono fun _ _ _ h => ⟨_, _, h⟩

theorem wp_sendTargetedEvent (e : TargetedEvent) :
    (sendTargetedEvent e).wp schema (Database.Good sha) Rely (fun _ => Settled sha) .start c := by
  unfold sendTargetedEvent
  rw [Prog.wp_bind]
  refine Prog.wp_ofExcept fun _ _ => ?_
  split
  · exact Prog.wp_ret ⟨_, _, does_start⟩
  rw [Prog.wp_bind]
  have hpro : (provisionChannel e.newChannelId e.channelRow).Writes (Quiet none) := by
    refine Prog.writes_exec fun db r hr w hw => ?_
    split at hr
    · cases hr
      cases hw
    split at hr
    · cases hr
    · cases hr
      rw [mem_singleton.mp hw]
      trivial
  refine (does_start.wp_quiet hpro).mono fun channelId tr c h => ?_
  rw [Prog.wp_bind]
  have hhas : (e.messageRow channelId).Hashed sha := by
    intro hash hsome
    cases hsome
  refine (wp_insertMessage h hhas).mono ?_
  rintro m tr c ⟨rfl, h⟩
  rw [Prog.wp_bind]
  refine (h.wp_quiet (Prog.writes_forM _ fun _ _ => writes_insertRecipient)).mono fun _ tr c h => ?_
  rw [Prog.wp_bind]
  exact (h.wp_quiet writes_record).mono fun _ tr c h => Prog.wp_ret ⟨_, _, h⟩

theorem wp_prog (claimGroup : String) (r : Request) (c : Database) :
    (prog sha claimGroup r).wp schema (Database.Good sha) Rely (fun _ => Settled sha) .start c := by
  cases r with
  | send q => exact wp_sendMessage claimGroup q
  | subscribe actor companyId channelId subject email | unsubscribe actor companyId channelId subject =>
    refine does_start.settled (Prog.writes_read.bind fun _ => Prog.Writes.bind ?_ fun _ => writes_record)
    refine Prog.writes_exec fun db r hr w hw => ?_
    cases hr
    rw [mem_singleton.mp hw]
    trivial
  | targeted e =>
    unfold prog
    rw [Prog.wp_bind]
    exact (wp_sendTargetedEvent e).mono fun _ _ _ h => Prog.wp_ret h

theorem contract (sha : Sha256) (claimGroup : String) :
    Contract schema (prog sha claimGroup) (fun _ _ => True) (Database.Good sha) Rely (fun _ _ => True)
      fun _ => Guarantee where
  refl _ _ _ := ⟨fun _ _ => rfl, fun _ _ _ h => h, fun _ _ h => h⟩
  trans _ _ _ _ _ hab hbc := ⟨fun id hid => (hbc.1 id hid).trans (hab.1 id hid),
    fun channelId key hkey h => hbc.2.1 channelId key hkey (hab.2.1 channelId key hkey h),
    fun id row h => hbc.2.2 id row (hab.2.2 id row h)⟩
  may _ _ _ _ _ _ := trivial
  compatible _ _ _ _ _ _ _ _ _ _ hdisj hG := ⟨fun id hid => hG.1 id fun hheld => hdisj _ hheld hid,
    fun channelId key hkey => hG.2.1 channelId key fun hheld => hdisj _ hheld hkey, hG.2.2.1⟩
  keeps r c _ := (wp_prog claimGroup r c).mono fun _ _ _ ⟨_, _, h⟩ => h.ready

end Programs

/-! ## The inbox rows -/

def Subscribed (c : Database) (channelId : Uuid16) (subject : String) : Prop :=
  ∃ row, c.subscriptions.get? (channelId, subject) = some row ∧ row.muted = false

/-- The message has one unread inbox row for each subscriber of `c`, and no other inbox has changed. -/
structure Delivered (c before after : Database) (channelId messageId : Uuid16) : Prop where
  inbox : ∀ subject, Subscribed c channelId subject → after.recipients.get? (messageId, subject) = some none
  nobody : ∀ subject, ¬ Subscribed c channelId subject → after.recipients.get? (messageId, subject) = none
  others : ∀ id subject, id ≠ messageId → after.recipients.get? (id, subject) = before.recipients.get? (id, subject)

section Recipients

variable {c : Database} {id channelId : Uuid16} {subject : String}
  {claimGroup : String} {kind : ChannelKind} {tr tr' : TxTrail} {cs : List (Label × Database)}

theorem exists_mem_subscribers_iff :
    (∃ email, (subject, email) ∈ c.subscribers channelId) ↔ Subscribed c channelId subject := by
  unfold Database.subscribers Subscribed
  constructor
  · rintro ⟨email, hmem⟩
    obtain ⟨⟨⟨ch, sub⟩, row⟩, hrow, heq⟩ := mem_map.mp hmem
    obtain ⟨hin, hcond⟩ := List.mem_filter.mp hrow
    obtain ⟨hch, hmuted⟩ := of_decide_eq_true hcond
    cases heq
    cases hch
    exact ⟨row, get?_eq_some_iff.mpr hin, hmuted⟩
  · rintro ⟨row, hget, hmuted⟩
    refine ⟨row.email, mem_map.mpr ⟨((channelId, subject), row), List.mem_filter.mpr ⟨?_, ?_⟩, rfl⟩⟩
    · exact get?_eq_some_iff.mp hget
    · exact decide_eq_true ⟨rfl, hmuted⟩

/-! ## A call from its first statement to its last -/

theorem ends_deliver {sub} (h : Ends schema (deliver claimGroup kind id sub) tr cs () tr') :
    ∃ new, tr'.writes = tr.writes ++ new ∧
      ∀ id' subject, Write.insertRecipient id' subject ∈ new ↔ id' = id ∧ subject = sub.1 := by
  unfold deliver at h
  obtain ⟨_, _, _, tr₁, _, hins, hrest⟩ := h.bind
  obtain ⟨_, new, _, hans, rfl⟩ := hins.exec
  split at hans
  · cases hans
  cases hans
  split at hrest
  · obtain ⟨_, _, _, henq, rfl⟩ := hrest.exec
    cases henq
    refine ⟨[.insertRecipient id sub.1, .enqueue _], append_assoc _ _ _, fun id' subject => ?_⟩
    simp
  · obtain ⟨_, rfl⟩ := hrest.pure
    exact ⟨[.insertRecipient id sub.1], rfl, fun id' subject => by simp⟩

theorem ends_forM_deliver {subs : List (String × Option String)}
    (h : Ends schema (subs.forM (deliver claimGroup kind id)) tr cs () tr') :
    ∃ new, tr'.writes = tr.writes ++ new ∧
      ∀ id' subject, Write.insertRecipient id' subject ∈ new ↔ id' = id ∧ ∃ email, (subject, email) ∈ subs := by
  induction subs generalizing tr cs with
  | nil =>
    obtain ⟨_, rfl⟩ := Ends.pure h
    exact ⟨[], (append_nil _).symm, fun _ _ => by simp⟩
  | cons sub subs ih =>
    obtain ⟨_, _, _, tr₁, _, hfirst, hrest⟩ := Ends.bind h
    obtain ⟨new₁, hws₁, hnew₁⟩ := ends_deliver hfirst
    obtain ⟨new₂, hws₂, hnew₂⟩ := ih hrest
    refine ⟨new₁ ++ new₂, by rw [hws₂, hws₁, append_assoc], fun id' subject => ?_⟩
    rw [mem_append, hnew₁, hnew₂, ← and_or_left]
    refine and_congr_right fun _ => ?_
    constructor
    · rintro (rfl | ⟨email, hmem⟩)
      · exact ⟨sub.2, mem_cons_self⟩
      · exact ⟨email, mem_cons_of_mem _ hmem⟩
    · rintro ⟨email, hmem⟩
      rcases mem_cons.mp hmem with rfl | hmem
      · exact .inl rfl
      · exact .inr ⟨email, hmem⟩

theorem Quiet.of_none {w} (h : Quiet none w) (new : Option (Uuid16 × MessageRow)) :
    Quiet new w := by
  cases w with
  | insertRecipient => cases h.choose_spec
  | insertMessage | answer => cases h
  | insertChannel | subscribe | unsubscribe | enqueue | audit => trivial

/-- The writes of a call that makes a message: the message, then the inbox rows of the subscribers of `c` among
others that matter neither to messages nor to answers, and the answer. -/
structure Made (q : Send) (row : MessageRow) (c : Database) (ws inner : List Write) : Prop where
  writes : ws = .insertMessage q.newId row :: (inner ++ [.answer ⟨q, row.message q.newId, true⟩])
  quiet : ∀ w ∈ inner, Quiet (some (q.newId, row)) w
  recipients : ∀ id subject, Write.insertRecipient id subject ∈ inner ↔ id = q.newId ∧ Subscribed c q.channelId subject

theorem ends_create {q} {payloadHash : Option String} {channel} (hstart : tr.writes = [])
    (h : Ends schema (create claimGroup q payloadHash channel) tr cs () tr') :
    ∃ c inner, (Label.listSubscribers, c) ∈ cs ∧ Made q (q.row payloadHash) c tr'.writes inner := by
  unfold create at h
  obtain ⟨_, _, m, tr₁, rfl, hins, h₁⟩ := h.bind
  obtain ⟨_, _, _, hans, rfl⟩ := hins.exec
  split at hans
  · cases hans
  split at hans
  · cases hans
  split at hans
  · cases hans
  cases hans
  obtain ⟨_, _, subs, tr₂, rfl, hread, h₂⟩ := h₁.bind
  obtain ⟨c, rfl, hsubs, hws₂⟩ := hread.read
  have hsubs' : c.subscribers q.channelId = subs := by
    simp only [hstart] at hsubs
    exact Except.ok.inj hsubs
  obtain ⟨_, _, _, tr₃, _, hloop, h₃⟩ := h₂.bind
  obtain ⟨new₃, hws₃, hnew₃⟩ := ends_forM_deliver hloop
  obtain ⟨_, _, _, tr₄, _, hweb, h₄⟩ := h₃.bind
  obtain ⟨new₄, hws₄, hnew₄⟩ := hweb.writes (P := Quiet none) writes_enqueueWebhook
  obtain ⟨_, _, _, tr₅, _, haudit, h₅⟩ := h₄.bind
  obtain ⟨new₅, hws₅, hnew₅⟩ := haudit.writes (P := Quiet none) writes_record
  obtain ⟨_, _, _, hreply, rfl⟩ := h₅.exec
  cases hreply
  have hquiet₃ : ∀ w ∈ new₃, Quiet (some (q.newId, q.row payloadHash)) w := by
    obtain ⟨new, hws, hnew⟩ := hloop.writes (P := Quiet (some (q.newId, q.row payloadHash)))
      (Prog.writes_forM subs fun _ _ => writes_deliver)
    rw [← append_cancel_left (hws.symm.trans hws₃)]
    exact hnew
  have hnone : ∀ id subject, Write.insertRecipient id subject ∉ new₄ ++ new₅ := by
    intro id subject hmem
    rcases mem_append.mp hmem with hmem | hmem
    · cases (hnew₄ _ hmem).choose_spec
    · cases (hnew₅ _ hmem).choose_spec
  refine ⟨c, new₃ ++ (new₄ ++ new₅), by simp, ?_, fun w hw => ?_, fun id subject => ?_⟩
  · simp [hws₅, hws₄, hws₃, hws₂, hstart]
  · rcases mem_append.mp hw with hw | hw
    · exact hquiet₃ w hw
    · rcases mem_append.mp hw with hw | hw
      · exact (hnew₄ w hw).of_none _
      · exact (hnew₅ w hw).of_none _
  · rw [mem_append, or_iff_left (hnone id subject), hnew₃, ← hsubs', exists_mem_subscribers_iff]
    rfl

theorem ends_sendMessage {sha q} (h : Ends schema (sendMessage sha claimGroup q) .start cs () tr) :
    (∃ m, tr.writes = [.answer ⟨q, m, false⟩]) ∨
      ∃ row c inner, (Label.listSubscribers, c) ∈ cs ∧ Made q row c tr.writes inner := by
  unfold sendMessage at h
  obtain ⟨_, _, _, tr₁, rfl, hvalid, h₁⟩ := h.bind
  obtain ⟨_, rfl, rfl⟩ := hvalid.ofExcept
  obtain ⟨_, _, channel, tr₂, rfl, hch, h₂⟩ := h₁.bind
  obtain ⟨_, rfl, _, hws₂⟩ := Ends.read hch
  split at h₂
  · obtain ⟨c, inner, hmem, hmade⟩ := ends_create hws₂ h₂
    exact .inr ⟨_, c, inner, by simp [hmem], hmade⟩
  obtain ⟨_, _, found, tr₃, rfl, hfind, h₃⟩ := h₂.bind
  obtain ⟨_, rfl, _, hws₃⟩ := hfind.read
  cases found with
  | none =>
    obtain ⟨c, inner, hmem, hmade⟩ := ends_create (hws₃.trans hws₂) h₃
    exact .inr ⟨_, c, inner, by simp [hmem], hmade⟩
  | some existing =>
    dsimp only at h₃
    unfold replay at h₃
    split at h₃
    · cases h₃
    obtain ⟨_, _, _, hreply, rfl⟩ := Ends.exec h₃
    cases hreply
    refine .inl ⟨existing.1, ?_⟩
    show tr₃.writes ++ _ = _
    rw [hws₃, hws₂]
    rfl

end Recipients

/-! ## Every run -/

namespace Database

/-- The messages and the answers of the calls with a key. -/
structure SendsOnce (db : Database) : Prop where
  one : ∀ id row id' row' key, db.messages.get? id = some row → db.messages.get? id' = some row' →
    row.channelId = row'.channelId → row.idempotencyKey = some key → row'.idempotencyKey = some key → id = id'
  once : ∀ channelId key, key ≠ "" → (db.creations channelId key).length ≤ 1
  stored : ∀ a ∈ db.answers, a.call.idempotencyKey ≠ "" → db.Holds a
  same : ∀ a ∈ db.answers, ∀ b ∈ db.answers, a.call.channelId = b.call.channelId →
    a.call.idempotencyKey = b.call.idempotencyKey → a.call.idempotencyKey ≠ "" →
    a.message = b.message ∧ a.call.subjectLine = b.call.subjectLine ∧ a.call.body = b.call.body

theorem Good.sendsOnce {sha : Sha256} {db : Database} (h : db.Good sha) : db.SendsOnce := by
  refine ⟨h.unique, h.once, h.answered, fun a ha b hb hch hkey hne => ?_⟩
  obtain ⟨row, hget, hrow⟩ := h.answered a ha hne
  obtain ⟨row', hget', hrow'⟩ := h.answered b hb (hkey ▸ hne)
  have hid : a.message.id = b.message.id := by
    refine h.unique _ row _ row' _ hget hget' ?_ hrow.key (hrow'.key.trans (congrArg some hkey.symm))
    rw [hrow.channelId, hrow'.channelId, hch]
  rw [hid] at hget
  cases hget.symm.trans hget'
  refine ⟨?_, hrow.subjectLine.symm.trans hrow'.subjectLine, hrow.body.symm.trans hrow'.body⟩
  rw [hrow.message, hrow'.message, hid]

end Database

/-- What the commit of the call `q` does: it answers with a message that was there and changes nothing, or with one
that it makes, for the subscribers at the time when it lists them. -/
def Sent (saw : Label × Database → Prop) (q : Send) (before after : Database) : Prop :=
  (∃ m, after = { before with answers := before.answers ++ [⟨q, m, false⟩] }) ∨
    ∃ m c, after.answers = before.answers ++ [⟨q, m, true⟩] ∧ before.messages.get? m.id = none ∧
      saw (.listSubscribers, c) ∧ Delivered c before after q.channelId m.id

theorem Made.sent {saw : Label × Database → Prop} {q row c before ws inner}
    (h : Made q row c ws inner) (hsaw : saw (.listSubscribers, c))
    (hfresh : before.messages.get? q.newId = none)
    (hfor : ∀ id subject, (before.recipients.get? (id, subject)).isSome = true →
      (before.messages.get? id).isSome = true) :
    Sent saw q before (schema.view ws before) := by
  have hnone : ∀ subject, before.recipients.get? (q.newId, subject) = none := by
    intro subject
    refine not_isSome_iff_eq_none.mp fun hrow => ?_
    have hmsg := hfor _ _ hrow
    rw [hfresh] at hmsg
    cases hmsg
  have hmem : ∀ id subject, Write.insertRecipient id subject ∈ ws ↔ id = q.newId ∧ Subscribed c q.channelId subject := by
    intro id subject
    rw [h.writes, ← h.recipients]
    simp
  refine .inr ⟨row.message q.newId, c, ?_, hfresh, hsaw, fun subject hsub => ?_, fun subject hsub => ?_,
    fun id subject hne => ?_⟩
  · rw [h.writes]
    show (schema.view (inner ++ [_]) (before.apply (.insertMessage q.newId row))).answers = _
    rw [Schema.view_append]
    show (schema.view inner _).answers ++ [_] = _
    rw [(view_quiet h.quiet _).2.1]
    rfl
  · exact get?_recipients_of_mem ((hmem _ _).mpr ⟨rfl, hsub⟩) (.inl (hnone subject))
  · rw [get?_recipients_of_notMem fun hin => hsub ((hmem _ _).mp hin).2]
    exact hnone subject
  · exact get?_recipients_of_notMem fun hin => hne ((hmem _ _).mp hin).1

/-- However the calls interleave, a key makes one message, everybody who is answered with the key is answered with
it, and it is made for the subscribers of its time. -/
theorem sendMessage_idempotent (sha : Sha256) (claimGroup : String) {c₀ : Database}
    (hsound : c₀.Sound sha) (hstart : c₀.answers = []) {as : List (Action Request)}
    {s : State Database Write Lock Label InboxError Request}
    (hrun : as.foldlM (step schema (prog sha claimGroup)) (.start c₀) = some s) :
    s.committed.SendsOnce ∧
      (∀ a s', step schema (prog sha claimGroup) s a = some s' → s.committed.Keeps s'.committed) ∧
      (∀ t ss q s', s.sessions.get? t = some ss → ss.request = .send q →
        step schema (prog sha claimGroup) s (.commit t) = some s' →
        Sent (Saw schema (prog sha claimGroup) (.start c₀) as t (.send q)) q s.committed s'.committed) ∧
      ∀ channelId channelId' subjectLine subjectLine' body body', Accepted subjectLine body →
        Accepted subjectLine' body' →
        payloadBytes channelId subjectLine body = payloadBytes channelId' subjectLine' body' →
        channelId = channelId' ∧ subjectLine = subjectLine' ∧ body = body' := by
  have hgood₀ : c₀.Good sha := by
    refine ⟨hsound, fun a ha => ?_, fun channelId key _ => ?_⟩
    · rw [hstart] at ha
      cases ha
    · rw [Database.creations, hstart]
      exact Nat.zero_le 1
  have hreach := Runs.reach_of_run hrun
  have hgood := (contract sha claimGroup).reach hgood₀ hreach
  have hcom : ∀ t s', step schema (prog sha claimGroup) s (.commit t) = some s' → ∀ ss,
      s.sessions.get? t = some ss → Guarantee ss.trail s.committed s'.committed := fun t s' hstep ss hget =>
    (contract sha claimGroup).commit hgood₀ hreach trivial hget hstep
  refine ⟨hgood.sendsOnce, fun a s' hstep => ?_, fun t ss q s' hget hq hstep => ?_,
    fun _ _ _ _ _ _ h h' heq => payloadBytes_injective h h' heq⟩
  · cases a with
    | commit t =>
      obtain ⟨r, tr, hget, _, _⟩ := step_commit hstep
      exact (hcom t s' hstep _ hget).2.2.1
    | begin t r | exec t | rollback t => rw [step_committed hstep rfl]; exact fun _ _ h => h
  · obtain ⟨r, tr, cs, hget', hends, hsaw, hcomm⟩ := ends_of_commit hrun hstep
    cases hget.symm.trans hget'
    cases hq
    rw [hcomm]
    rcases ends_sendMessage hends with ⟨m, hws⟩ | ⟨row, c, inner, hmem, hmade⟩
    · rw [hws]
      exact .inl ⟨m, rfl⟩
    have hfresh : s.committed.messages.get? q.newId = none := by
      refine (hcom t s' hstep _ hget).2.2.2 q.newId row ?_
      show Write.insertMessage q.newId row ∈ tr.writes
      rw [hmade.writes]
      exact mem_cons_self
    exact hmade.sent (hsaw _ hmem) hfresh hgood.foreignKey

def newsDesk : Database where
  channels := Keyed.Table.empty.insertMissing (Uuid16.ofByte 1) ⟨Uuid16.ofByte 0, "news", "News", .inApp, none⟩
  subscriptions := Keyed.Table.empty.insertMissing (Uuid16.ofByte 1, "noa") ⟨none, false⟩
  messages := .empty
  recipients := .empty
  jobs := []
  audit := []
  answers := []

def hello (newId : UInt8) : Send := ⟨"ada", Uuid16.ofByte 0, Uuid16.ofByte 1, "hello", "all", "k1", Uuid16.ofByte newId, 7⟩

/-- Two calls with one key: the second comes after the first has found no message. -/
def twoHellos : List (Action Request) :=
  [.begin 0 (.send (hello 2)), .begin 1 (.send (hello 3)), .exec 0, .exec 0, .exec 1, .exec 0, .exec 0, .exec 0,
    .exec 0, .exec 0, .commit 0, .exec 1, .exec 1, .commit 1]

theorem newsDesk_sound : newsDesk.Sound plainDigest where
  unique _ _ _ _ _ h := by cases h
  foreignKey _ _ h := by cases h
  hashed _ _ _ h := by cases h

theorem sendMessage_idempotent_twoHellos :
    ∃ s, twoHellos.foldlM (step schema (prog plainDigest "default")) (.start newsDesk) = some s ∧
      s.committed.answers.map (·.created) = [true, false] ∧ s.committed.SendsOnce := by
  have hcre : (twoHellos.foldlM (step schema (prog plainDigest "default")) (.start newsDesk)).map
      (fun s => s.committed.answers.map (·.created)) = some [true, false] := by decide +kernel
  obtain ⟨s, hs, hans⟩ := map_eq_some_iff.mp hcre
  exact ⟨s, hs, hans, (sendMessage_idempotent plainDigest "default" newsDesk_sound rfl hs).1⟩

end Kiban.Notification.Inbox
