import Kiban.Notification.Inbox

/-!
# Events for chosen recipients

`SendTargetedEvent` writes an inbox row for every recipient of its list that is confirmed as an active member.  The
recipient is part of the row's key: one who is confirmed at two places makes the second insert fail, and with it the
call for everybody.
-/

namespace Kiban.Notification.Inbox

open Transactions UuidText List Keyed.Table

namespace TargetedEvent

structure Valid (e : TargetedEvent) : Prop where
  sourceModule : eventsSourceModulePattern e.sourceModule = true
  payload : validateSubjectLineAndBody e.subjectLine e.body = .ok ()

/-- The random ids are new, so that the database has no reason of its own to refuse a row. -/
structure FreshIds (e : TargetedEvent) (db : Database) : Prop where
  channel : db.channels.get? e.newChannelId = none
  message : db.messages.get? e.newId = none
  recipients : ∀ subject, db.recipients.get? (e.newId, subject) = none

def Confirms (e : TargetedEvent) (subject : String) : Prop := (subject, .ok true) ∈ e.recipients

/-- No two places of the list have the same subject and are both confirmed. -/
def ConfirmsOnce (e : TargetedEvent) : Prop :=
  e.recipients.Pairwise fun r r' => r.2 = .ok true → r'.2 = .ok true → r.1 ≠ r'.1

/-- The inbox rows of the call are those of the confirmed recipients, and without any it does nothing. -/
structure Notifies (e : TargetedEvent) (db db' : Database) : Prop where
  inbox : ∀ subject, e.Confirms subject → db'.recipients.get? (e.newId, subject) = some none
  nobody : ∀ subject, ¬ e.Confirms subject → db'.recipients.get? (e.newId, subject) = none
  others : ∀ id subject, id ≠ e.newId → db'.recipients.get? (id, subject) = db.recipients.get? (id, subject)
  message : (∃ subject, e.Confirms subject) → (db'.messages.get? e.newId).isSome = true
  nothing : (∀ subject, ¬ e.Confirms subject) → db' = db

def Succeeds (e : TargetedEvent) (db : Database) : Prop :=
  ∃ counts db', (sendTargetedEvent e).run schema.apply db = .ok (counts, db') ∧ e.Notifies db db'

/-! ## The recipients -/

variable {e : TargetedEvent} {db : Database}

theorem isConfirmed_iff {answer} : isConfirmed answer = true ↔ answer = .ok true := by
  cases answer with
  | error cause => exact iff_of_false nofun nofun
  | ok b =>
    cases b with
    | false => exact iff_of_false nofun nofun
    | true => exact iff_of_true rfl rfl

theorem mem_confirmed_iff {subject} : subject ∈ e.confirmed ↔ e.Confirms subject := by
  unfold confirmed Confirms
  rw [mem_map]
  constructor
  · rintro ⟨⟨_, answer⟩, hmem, rfl⟩
    obtain ⟨hin, hok⟩ := List.mem_filter.mp hmem
    rw [← isConfirmed_iff.mp hok]
    exact hin
  · intro hmem
    exact ⟨(subject, .ok true), List.mem_filter.mpr ⟨hmem, rfl⟩, rfl⟩

theorem nodup_confirmed_iff : e.confirmed.Nodup ↔ e.ConfirmsOnce := by
  unfold confirmed ConfirmsOnce List.Nodup
  rw [pairwise_map, pairwise_filter]
  simp only [isConfirmed_iff]

theorem check_iff (hne : e.recipients ≠ []) : e.check = .ok () ↔ e.Valid := by
  unfold check
  by_cases hmod : eventsSourceModulePattern e.sourceModule = true
  · rw [if_neg (not_not_intro hmod), if_neg hne, Fallible.bind_eq_ok]
    constructor
    · rintro ⟨_, hpay, _⟩
      exact ⟨hmod, hpay⟩
    · intro hvalid
      exact ⟨(), hvalid.payload, rfl⟩
  · rw [if_pos hmod]
    exact iff_of_false nofun fun hvalid => hmod hvalid.sourceModule

end TargetedEvent

/-! ## The statements of the call -/

section Statements

variable {db : Database} {doing subject : String} {id : Uuid16}

theorem run_insertRecipient {r} : (insertRecipient doing id subject).run schema.apply db = .ok r ↔
      db.recipients.get? (id, subject) = none ∧ r = ((), db.apply (.insertRecipient id subject)) := by
  unfold insertRecipient
  rw [Prog.run_exec]
  cases hrow : db.recipients.get? (id, subject) with
  | none =>
    constructor
    · intro hrun
      exact ⟨rfl, (Except.ok.inj hrun).symm⟩
    · rintro ⟨_, rfl⟩
      rfl
  | some readAt => exact iff_of_false (fun hrun => by cases hrun) fun h => by cases h.1

theorem forall_get?_insert {l : List String} (hnone : db.recipients.get? (id, subject) = none) :
    (∀ s ∈ l, (db.apply (.insertRecipient id subject)).recipients.get? (id, s) = none) ↔
      subject ∉ l ∧ ∀ s ∈ l, db.recipients.get? (id, s) = none := by
  have hother : ∀ s, s ≠ subject →
      (db.apply (.insertRecipient id subject)).recipients.get? (id, s) = db.recipients.get? (id, s) := by
    intro s hs
    refine get?_recipients_apply_of_ne fun heq => hs ?_
    cases heq
    rfl
  constructor
  · intro h
    have hnot : subject ∉ l := by
      intro hmem
      have hrow := get?_recipients_insert (.inl hnone)
      rw [h subject hmem] at hrow
      cases hrow
    refine ⟨hnot, fun s hs => ?_⟩
    rw [← hother s fun heq => hnot (heq ▸ hs)]
    exact h s hs
  · rintro ⟨hnot, h⟩ s hs
    rw [hother s fun heq => hnot (heq ▸ hs)]
    exact h s hs

/-- The loop over a list of subjects ends if they are distinct and none of them has the message already. -/
theorem run_forM_insertRecipient {l : List String} {r : Unit × Database} :
    (l.forM (insertRecipient doing id)).run schema.apply db = .ok r ↔
      (l.Nodup ∧ ∀ subject ∈ l, db.recipients.get? (id, subject) = none) ∧
        r = ((), schema.view (l.map (.insertRecipient id)) db) := by
  induction l generalizing db with
  | nil =>
    constructor
    · intro hrun
      exact ⟨⟨nodup_nil, nofun⟩, (Except.ok.inj hrun).symm⟩
    · rintro ⟨_, rfl⟩
      rfl
  | cons subject l ih =>
    change (insertRecipient doing id subject >>= fun _ => l.forM (insertRecipient doing id)).run schema.apply db =
      .ok r ↔ _
    rw [Prog.run_bind_eq_ok, nodup_cons, forall_mem_cons]
    constructor
    · rintro ⟨_, _, hfirst, hloop⟩
      obtain ⟨hnone, heq⟩ := run_insertRecipient.mp hfirst
      cases heq
      obtain ⟨⟨hnodup, hnew⟩, hr⟩ := ih.mp hloop
      obtain ⟨hnot, hold⟩ := (forall_get?_insert hnone).mp hnew
      exact ⟨⟨⟨hnot, hnodup⟩, hnone, hold⟩, hr⟩
    · rintro ⟨⟨⟨hnot, hnodup⟩, hnone, hold⟩, hr⟩
      refine ⟨(), _, run_insertRecipient.mpr ⟨hnone, rfl⟩, ih.mpr ?_⟩
      exact ⟨⟨hnodup, (forall_get?_insert hnone).mpr ⟨hnot, hold⟩⟩, hr⟩

theorem messages_view_insertRecipient {l : List String} :
    (schema.view (l.map (.insertRecipient id)) db).messages = db.messages := by
  induction l generalizing db with
  | nil => rfl
  | cons subject l ih => exact ih.trans rfl

/-- The channel of the source module is there afterwards, whether the call made it or not. -/
theorem run_provisionChannel (row : ChannelRow) (hfresh : db.channels.get? id = none) :
    ∃ channelId db', (provisionChannel id row).run schema.apply db = .ok (channelId, db') ∧
      (db'.channels.get? channelId).isSome = true ∧ db'.messages = db.messages ∧ db'.recipients = db.recipients := by
  unfold provisionChannel
  rw [Prog.run_exec]
  cases hkey : db.channelByKey row.companyId row.key with
  | some channelId =>
    refine ⟨channelId, db, rfl, ?_, rfl, rfl⟩
    obtain ⟨r, hfind, rfl⟩ := Option.map_eq_some_iff.mp hkey
    have hrow : db.channels.get? r.1 = some r.2 := get?_eq_some_iff.mpr (mem_of_find?_eq_some hfind)
    rw [hrow]
    rfl
  | none =>
    refine ⟨id, db.apply (.insertChannel id row), ?_, ?_, rfl, rfl⟩
    · rw [hfresh]
      rfl
    · change ((db.channels.insertMissing id row).get? id).isSome = true
      rw [get?_insertMissing_of_none hfresh, if_pos rfl]
      rfl

theorem run_insertMessage {row err} (hkey : row.idempotencyKey = none) (hfresh : db.messages.get? id = none)
    (hch : (db.channels.get? row.channelId).isSome = true) :
    (insertMessage id row err).run schema.apply db = .ok (row.message id, db.apply (.insertMessage id row)) := by
  unfold insertMessage
  have hpres : (db.channels.get? row.channelId).isNone = false := by
    rw [Option.isNone_eq_false_iff]
    exact hch
  rw [Prog.run_exec, hfresh, hkey, hpres]
  rfl

end Statements

namespace TargetedEvent

variable {e : TargetedEvent} {db : Database}

/-- A call with a confirmed recipient: the tables before its loop, and when it ends. -/
theorem run_sendTargetedEvent (hvalid : e.Valid) (hne : e.recipients ≠ []) (hfresh : e.FreshIds db)
    (hsome : e.confirmed ≠ []) :
    ∃ channelId db₁, db₁.recipients = db.recipients ∧ (db₁.messages.get? e.newId).isSome = true ∧
      ∀ r, (sendTargetedEvent e).run schema.apply db = .ok r ↔
        e.confirmed.Nodup ∧ r = ((e.confirmed.length, e.skipped),
          (schema.view (e.confirmed.map (.insertRecipient e.newId)) db₁).apply (.audit (e.event channelId))) := by
  obtain ⟨channelId, db₀, hch, hpres, hmsgs, hrec⟩ :=
    run_provisionChannel e.channelRow hfresh.channel
  have hnew : db₀.messages.get? e.newId = none := by
    rw [hmsgs]
    exact hfresh.message
  have hmsg : (insertMessage e.newId (e.messageRow channelId) (.failed "create event message")).run schema.apply db₀ =
      .ok ((e.messageRow channelId).message e.newId, db₀.apply (.insertMessage e.newId (e.messageRow channelId))) :=
    run_insertMessage rfl hnew hpres
  refine ⟨channelId, db₀.apply (.insertMessage e.newId (e.messageRow channelId)), hrec, ?_, fun r => ?_⟩
  · change ((db₀.messages.insertMissing e.newId (e.messageRow channelId)).get? e.newId).isSome = true
    rw [get?_insertMissing_of_none hnew, if_pos rfl]
    rfl
  rw [sendTargetedEvent, (check_iff hne).mpr hvalid, Prog.run_bind, Prog.ofExcept, if_neg hsome]
  change (provisionChannel e.newChannelId e.channelRow >>= _).run schema.apply db = _ ↔ _
  rw [Prog.run_bind, hch]
  change (insertMessage e.newId (e.messageRow channelId) (.failed "create event message") >>= _).run schema.apply db₀ =
    _ ↔ _
  rw [Prog.run_bind, hmsg]
  change (e.confirmed.forM (insertRecipient "create event recipient state" e.newId) >>= _).run schema.apply _ = _ ↔ _
  rw [Prog.run_bind_eq_ok]
  constructor
  · rintro ⟨_, _, hloop, hlast⟩
    obtain ⟨⟨hnodup, _⟩, heq⟩ := run_forM_insertRecipient.mp hloop
    cases heq
    exact ⟨hnodup, (Except.ok.inj hlast).symm⟩
  · rintro ⟨hnodup, rfl⟩
    refine ⟨(), _, run_forM_insertRecipient.mpr ⟨⟨hnodup, fun subject _ => ?_⟩, rfl⟩, rfl⟩
    change db₀.recipients.get? (e.newId, subject) = none
    rw [hrec]
    exact hfresh.recipients subject

theorem notifies_of_view {db₁ : Database} (event : AuditEvent) (hfresh : e.FreshIds db) (hsome : e.confirmed ≠ [])
    (hrec : db₁.recipients = db.recipients) (hmsg : (db₁.messages.get? e.newId).isSome = true) :
    e.Notifies db ((schema.view (e.confirmed.map (.insertRecipient e.newId)) db₁).apply (.audit event)) where
  inbox subject h := by
    have hmem : Write.insertRecipient e.newId subject ∈ e.confirmed.map (.insertRecipient e.newId) :=
      mem_map_of_mem (mem_confirmed_iff.mpr h)
    refine get?_recipients_of_mem hmem (.inl ?_)
    rw [hrec]
    exact hfresh.recipients subject
  nobody subject h := by
    have hnot : Write.insertRecipient e.newId subject ∉ e.confirmed.map (.insertRecipient e.newId) := by
      rw [mem_map]
      rintro ⟨_, hmem, ⟨⟩⟩
      exact h (mem_confirmed_iff.mp hmem)
    refine (get?_recipients_of_notMem hnot).trans ?_
    rw [hrec]
    exact hfresh.recipients subject
  others id subject hid := by
    have hnot : Write.insertRecipient id subject ∉ e.confirmed.map (.insertRecipient e.newId) := by
      rw [mem_map]
      rintro ⟨_, _, ⟨⟩⟩
      exact hid rfl
    refine (get?_recipients_of_notMem hnot).trans ?_
    rw [hrec]
  message _ := by
    change (((schema.view (e.confirmed.map (.insertRecipient e.newId)) db₁).messages).get? e.newId).isSome = true
    rw [messages_view_insertRecipient]
    exact hmsg
  nothing h := by
    obtain ⟨subject, hmem⟩ := exists_mem_of_ne_nil _ hsome
    exact absurd (mem_confirmed_iff.mp hmem) (h subject)

theorem notifies_nobody (hfresh : e.FreshIds db) (hnone : e.confirmed = []) : e.Notifies db db := by
  have hno : ∀ subject, ¬ e.Confirms subject := by
    intro subject h
    rw [← mem_confirmed_iff, hnone] at h
    cases h
  exact ⟨fun subject h => absurd h (hno subject), fun subject _ => hfresh.recipients subject, fun _ _ _ => rfl,
    fun ⟨subject, h⟩ => absurd h (hno subject), fun _ => rfl⟩

theorem valid_of_run {r} (hne : e.recipients ≠ [])
    (hrun : (sendTargetedEvent e).run schema.apply db = .ok r) : e.Valid := by
  obtain ⟨_, _, hcheck, _⟩ := Prog.run_bind_eq_ok.mp hrun
  exact (check_iff hne).mp (Prog.run_ofExcept_eq_ok.mp hcheck).1

/-- A call succeeds if its arguments are accepted and no recipient is confirmed at two places of the list. -/
theorem sendTargetedEvent_succeeds_iff (e : TargetedEvent) (db : Database) (hne : e.recipients ≠ [])
    (hfresh : e.FreshIds db) : e.Succeeds db ↔ e.Valid ∧ e.ConfirmsOnce := by
  rw [← nodup_confirmed_iff]
  by_cases hnone : e.confirmed = []
  · constructor
    · rintro ⟨_, _, hrun, _⟩
      rw [hnone]
      exact ⟨valid_of_run hne hrun, nodup_nil⟩
    · rintro ⟨hvalid, _⟩
      refine ⟨(0, e.skipped), db, ?_, notifies_nobody hfresh hnone⟩
      rw [sendTargetedEvent, (check_iff hne).mpr hvalid, Prog.run_bind, Prog.ofExcept, if_pos hnone]
      rfl
  · constructor
    · rintro ⟨_, _, hrun, _⟩
      have hvalid := valid_of_run hne hrun
      obtain ⟨_, _, _, _, hends⟩ := run_sendTargetedEvent hvalid hne hfresh hnone
      exact ⟨hvalid, ((hends _).mp hrun).1⟩
    · rintro ⟨hvalid, hnodup⟩
      obtain ⟨channelId, db₁, hrec, hmsg, hends⟩ := run_sendTargetedEvent hvalid hne hfresh hnone
      exact ⟨_, _, (hends _).mpr ⟨hnodup, rfl⟩, notifies_of_view (e.event channelId) hfresh hnone hrec hmsg⟩

def nothingSent : Database := ⟨.empty, .empty, .empty, .empty, [], [], []⟩

def shared (recipients : List (String × Except String Bool)) : TargetedEvent :=
  ⟨"ada", Uuid16.ofByte 0, "docs", "shared", "a document", recipients, Uuid16.ofByte 1, Uuid16.ofByte 2, 7⟩

theorem shared_fresh (recipients : List (String × Except String Bool)) : (shared recipients).FreshIds nothingSent :=
  ⟨rfl, rfl, fun _ => rfl⟩

theorem shared_valid (recipients : List (String × Except String Bool)) : (shared recipients).Valid where
  sourceModule := show eventsSourceModulePattern "docs" = true by decide +kernel
  payload := show validateSubjectLineAndBody "shared" "a document" = .ok () by decide +kernel

/-- Distinct recipients: one that is confirmed, one that is no member and one whose check fails. -/
theorem sendTargetedEvent_succeeds_distinct :
    (shared [("alice", .ok true), ("bob", .ok false), ("carol", .error "timeout")]).Succeeds nothingSent := by
  refine (sendTargetedEvent_succeeds_iff _ nothingSent (by simp [shared]) (shared_fresh _)).mpr ⟨shared_valid _, ?_⟩
  simp [ConfirmsOnce, shared]

/-- One recipient is listed and confirmed twice, after another one. -/
def repeated : TargetedEvent := shared [("bob", .ok true), ("alice", .ok true), ("alice", .ok true)]

/-- The call fails, also for the recipient who is listed once. -/
theorem sendTargetedEvent_fails_repeated :
    repeated.Valid ∧ repeated.FreshIds nothingSent ∧ ¬ repeated.Succeeds nothingSent := by
  refine ⟨shared_valid _, shared_fresh _, ?_⟩
  rintro ⟨counts, db', hrun, _⟩
  have hfails : (sendTargetedEvent repeated).run schema.apply nothingSent =
      .error (.failed "create event recipient state" (.uniqueViolation "recipient_state_pkey")) := by rfl
  rw [hfails] at hrun
  cases hrun

end TargetedEvent

end Kiban.Notification.Inbox
