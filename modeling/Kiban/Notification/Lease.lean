import Kiban.Lib.Runs
import Kiban.Notification.Jobs

/-!
# Leases under fencing tokens

Workers, paused or crashed or late, are no more than the statements they still run: a run is any sequence of
statements, each with any job id and any token.  A history keeps the tokens that were issued and those that settled a
job.  A claim takes only tokens that were never issued, and an insert only an id that was never used.
-/

namespace Kiban.Notification

open Keyed Fencing List Keyed.Table Option

inductive Settlement where
  | complete
  | fail (attempts : Int) (errMsg : String) (recordErr : Option String)
  | failPermanent (errMsg : String) (recordErr : Option String)

def JobStore.settle (s : JobStore) (id leaseToken : Uuid) : Settlement → Except JobError JobStore
  | .complete => s.completeJob id leaseToken
  | .fail attempts errMsg recordErr => s.failJob id leaseToken attempts errMsg recordErr
  | .failPermanent errMsg recordErr => s.failJobPermanent id leaseToken errMsg recordErr

inductive Stmt where
  | insertJob (id messageId : Uuid) (kind : JobKind) (target claimGroup : String)
  | claimJobs (claimGroup : String) (lease limit : Nat) (skipped : List Uuid) (token : Uuid → Uuid)
  | settle (id leaseToken : Uuid) (how : Settlement)
  | extendLeaseBatch (tokens : List Uuid) (lease : Nat)
  | deleteChannel (actor : String) (companyId channelId : Uuid) (messages : List Uuid)
  | tick (elapsed : Nat)

structure History where
  store : JobStore
  log : Log Uuid Uuid
  ids : List Uuid

namespace History

def start : History := ⟨⟨0, .empty, []⟩, .empty, []⟩

def row? (h : History) (id : Uuid) : Option JobRow := h.store.jobs.get? id

def claims (h : History) (id : Uuid) : Nat := h.log.issued.countP fun e => e.1 = id

def deadLetters (h : History) (id : Uuid) : Nat :=
  h.store.audit.countP fun e =>
    e.action = "notification.delivery.dead" ∧ e.subject = "notification_delivery_job:" ++ id

/-- The token is not the last one issued for the job, or it has settled the job already. -/
def Stale (h : History) (id leaseToken : Uuid) : Prop :=
  h.log.latest id ≠ some leaseToken ∨ (id, leaseToken) ∈ h.log.settled

def issues (h : History) (claimGroup : String) (limit : Nat) (skipped : List Uuid) (token : Uuid → Uuid) :
    List (Uuid × Uuid) :=
  (h.store.claimIds claimGroup limit skipped).map fun id => (id, token id)

def step (h : History) : Stmt → Option History
  | .insertJob id messageId kind target claimGroup =>
    if id ∈ h.ids then none
    else some { h with store := h.store.insertJob id messageId kind target claimGroup, ids := id :: h.ids }
  | .claimJobs claimGroup lease limit skipped token =>
    let new := h.issues claimGroup limit skipped token
    if ((new ++ h.log.issued).map Prod.snd).Nodup then
      some { h with store := (h.store.claimJobs claimGroup lease limit skipped token).1, log := h.log.issue new }
    else none
  | .settle id leaseToken how =>
    match h.store.settle id leaseToken how with
    | .ok store => some { h with store, log := h.log.settle id leaseToken }
    | .error _ => some h
  | .extendLeaseBatch tokens lease => some { h with store := (h.store.extendLeaseBatch tokens lease).1 }
  | .deleteChannel actor companyId channelId messages =>
    some { h with store := h.store.deleteChannel actor companyId channelId messages }
  | .tick elapsed => some { h with store := { h.store with now := h.store.now + elapsed } }

end History

/-! ## What a settlement does -/

/-- What a settlement makes of the row, and what it writes to the audit table. -/
structure Settled (id : Uuid) (how : Settlement) (row row' : JobRow) (events : List AuditEvent) : Prop where
  released : row'.leaseToken = none
  attempts : row'.attempts = row.attempts
  audited : (row'.status = .dead ∧ ∃ n errMsg, events = [JobStore.deadLetter id n errMsg]) ∨
    (row'.status ≠ .dead ∧ events = [])
  retried : row'.status = .pending → ∃ n errMsg recordErr, how = .fail n errMsg recordErr ∧ n < maxAttempts

section Settlements

variable {s s' : JobStore} {id leaseToken : Uuid} {f : JobRow → JobRow} {how : Settlement}

theorem updateLeased_ok (h : s.updateLeased id leaseToken f = .ok s') :
    ∃ row, s.jobs.get? id = some row ∧ row.leaseToken = some leaseToken ∧
      s' = { s with jobs := s.jobs.modify id f } := by
  unfold JobStore.updateLeased at h
  split at h
  · rename_i row hrow
    split at h
    · rename_i htoken
      exact ⟨row, hrow, htoken, (Except.ok.inj h).symm⟩
    · cases h
  · cases h

theorem updateLeased_lost (h : ∀ row, s.jobs.get? id = some row → row.leaseToken ≠ some leaseToken) :
    s.updateLeased id leaseToken f = .error .leaseLost := by
  unfold JobStore.updateLeased
  split
  · rename_i row hrow
    rw [if_neg (h row hrow)]
  · rfl

theorem markJobDead_ok {attempts errMsg recordErr}
    (h : s.markJobDead id leaseToken attempts errMsg recordErr = .ok s') :
    ∃ row f events, s.jobs.get? id = some row ∧ row.leaseToken = some leaseToken ∧
      Settled id how row (f row) events ∧
      s' = { s with jobs := s.jobs.modify id f, audit := s.audit ++ events } := by
  unfold JobStore.markJobDead at h
  cases hupd : s.updateLeased id leaseToken (JobRow.die · errMsg) with
  | error e =>
    rw [hupd] at h
    cases h
  | ok s₁ =>
    rw [hupd] at h
    obtain ⟨row, hrow, htoken, rfl⟩ := updateLeased_ok hupd
    cases recordErr with
    | some cause => cases h
    | none =>
      have hdead : Settled id how row (row.die errMsg) [JobStore.deadLetter id attempts errMsg] :=
        ⟨rfl, rfl, .inl ⟨rfl, attempts, errMsg, rfl⟩, nofun⟩
      exact ⟨row, (JobRow.die · errMsg), _, hrow, htoken, hdead, (Except.ok.inj h).symm⟩

theorem settle_ok (h : s.settle id leaseToken how = .ok s') :
    ∃ row f events, s.jobs.get? id = some row ∧ row.leaseToken = some leaseToken ∧
      Settled id how row (f row) events ∧
      s' = { s with jobs := s.jobs.modify id f, audit := s.audit ++ events } := by
  cases how with
  | complete =>
    obtain ⟨row, hrow, htoken, rfl⟩ := updateLeased_ok h
    refine ⟨row, JobRow.complete, [], hrow, htoken, ⟨rfl, rfl, .inr ⟨nofun, rfl⟩, nofun⟩, ?_⟩
    rw [append_nil]
  | fail attempts errMsg recordErr =>
    simp only [JobStore.settle, JobStore.failJob] at h
    split at h
    · exact markJobDead_ok h
    rename_i hless
    obtain ⟨row, hrow, htoken, rfl⟩ := updateLeased_ok h
    have hret : ∃ n e r, Settlement.fail attempts errMsg recordErr = .fail n e r ∧ n < maxAttempts :=
      ⟨attempts, errMsg, recordErr, rfl, by omega⟩
    refine ⟨row, (JobRow.retry · (s.now + retryBackoff attempts) errMsg), [], hrow, htoken,
      ⟨rfl, rfl, .inr ⟨nofun, rfl⟩, fun _ => hret⟩, ?_⟩
    rw [append_nil]
  | failPermanent errMsg recordErr => exact markJobDead_ok h

theorem settle_lost (h : ∀ row, s.jobs.get? id = some row → row.leaseToken ≠ some leaseToken) :
    s.settle id leaseToken how = .error .leaseLost := by
  have hdead : ∀ attempts errMsg recordErr,
      s.markJobDead id leaseToken attempts errMsg recordErr = .error .leaseLost := by
    intro attempts errMsg recordErr
    unfold JobStore.markJobDead
    rw [updateLeased_lost h]
    rfl
  cases how with
  | complete => exact updateLeased_lost h
  | fail attempts errMsg recordErr =>
    simp only [JobStore.settle, JobStore.failJob]
    split
    · exact hdead attempts errMsg recordErr
    · exact updateLeased_lost h
  | failPermanent errMsg recordErr => exact hdead (-1) errMsg recordErr

end Settlements

/-! ## What holds in every history -/

def held (jobs : Keyed.Table Uuid JobRow) (id : Uuid) : Option Uuid := (jobs.get? id).bind JobRow.leaseToken

structure RowSound (letters claims : Nat) (r : JobRow) : Prop where
  settled : r.status ≠ .pending → r.leaseToken = none
  audited : letters = if r.status = .dead then 1 else 0
  counted : r.attempts = claims

structure Fenced (h : History) : Prop where
  lease : Valid (held h.store.jobs) h.log
  used : ∀ id r, h.row? id = some r → id ∈ h.ids
  row : ∀ id r, h.row? id = some r → RowSound (h.deadLetters id) (h.claims id) r
  unused : ∀ id, id ∉ h.ids → h.deadLetters id = 0 ∧ h.claims id = 0

section Steps

variable {h h' : History} {id leaseToken : Uuid} {claimGroup : String} {how : Settlement} {row : JobRow}

theorem held_eq_some {jobs token} :
    held jobs id = some token ↔ ∃ r, jobs.get? id = some r ∧ r.leaseToken = some token :=
  bind_eq_some_iff

theorem Fenced.row?_of_unused (hinv : Fenced h) (hid : id ∉ h.ids) : h.row? id = none :=
  eq_none_iff_forall_ne_some.mpr fun r hr => hid (hinv.used id r hr)

theorem fenced_start : Fenced .start where
  lease := Valid.empty fun _ => rfl
  used := nofun
  row := nofun
  unused := fun _ _ => ⟨rfl, rfl⟩

theorem fenced_insertJob (hinv : Fenced h) {messageId kind target} (hid : id ∉ h.ids) :
    Fenced { h with store := h.store.insertJob id messageId kind target claimGroup, ids := id :: h.ids } := by
  have hnone : h.store.jobs.get? id = none := hinv.row?_of_unused hid
  have hrow := get?_insertMissing_of_none hnone
    { messageId, kind, target, claimGroup, status := .pending, attempts := 0, leasedUntil := none,
      lastError := none, createdAt := h.store.now, leaseToken := none }
  constructor
  · refine hinv.lease.drop fun id' token htoken => ?_
    obtain ⟨r, hr, hrt⟩ := held_eq_some.mp htoken
    rw [show (h.store.insertJob id messageId kind target claimGroup).jobs.get? id' = _ from hrow id'] at hr
    split at hr
    · cases hr
      cases hrt
    · exact held_eq_some.mpr ⟨r, hr, hrt⟩
  · intro id' r hr
    replace hr := (hrow id').symm.trans hr
    split at hr
    · rename_i heq
      rw [heq]
      exact mem_cons_self
    · exact mem_cons_of_mem id (hinv.used id' r hr)
  · intro id' r hr
    replace hr := (hrow id').symm.trans hr
    split at hr
    · rename_i heq
      cases hr
      have hzero := hinv.unused id hid
      rw [heq]
      exact ⟨fun hpend => absurd rfl hpend, hzero.1, hzero.2.symm⟩
    · exact hinv.row id' r hr
  · intro id' hid'
    exact hinv.unused id' fun hmem => hid' (mem_cons_of_mem id hmem)

/-! A claim changes the rows it hands out and no others. -/

theorem lookup_issues (h : History) (claimGroup : String) (limit : Nat) (skipped : List Uuid)
    (token : Uuid → Uuid) (id : Uuid) :
    (h.issues claimGroup limit skipped token).lookup id =
      if id ∈ h.store.claimIds claimGroup limit skipped then some (token id) else none := by
  unfold History.issues
  induction h.store.claimIds claimGroup limit skipped with
  | nil => rfl
  | cons i ids ih =>
    rw [map_cons, lookup_cons, ih]
    by_cases hi : id = i
    · simp [hi]
    · rw [beq_eq_false_iff_ne.mpr hi]
      simp [hi]

theorem claims_issue (h : History) (claimGroup : String) (limit : Nat) (skipped : List Uuid)
    (token : Uuid → Uuid) (id : Uuid) :
    (h.log.issue (h.issues claimGroup limit skipped token)).issued.countP (fun e => e.1 = id) =
      h.claims id + if id ∈ h.store.claimIds claimGroup limit skipped then 1 else 0 := by
  have hcount := (h.store.nodup_claimIds claimGroup limit skipped).count (a := id)
  have hnew : (h.issues claimGroup limit skipped token).countP (fun e => e.1 = id) =
      (h.store.claimIds claimGroup limit skipped).count id := by
    rw [History.issues, countP_map, List.count]
    exact countP_congr fun i _ => by simp
  rw [Log.issue, countP_append, hnew, hcount, Nat.add_comm]
  rfl

theorem fenced_claimJobs (hinv : Fenced h) {lease limit skipped token}
    (hfresh : ((h.issues claimGroup limit skipped token ++ h.log.issued).map Prod.snd).Nodup) :
    Fenced { h with store := (h.store.claimJobs claimGroup lease limit skipped token).1,
                    log := h.log.issue (h.issues claimGroup limit skipped token) } := by
  have hrow := fun id => get?_mapRows (t := h.store.jobs) (fun id r =>
    if id ∈ h.store.claimIds claimGroup limit skipped then r.claim (h.store.now + lease) (token id) else r) id
  constructor
  · refine hinv.lease.issue hfresh fun id t ht => ?_
    obtain ⟨r', hr', hrt⟩ := held_eq_some.mp ht
    obtain ⟨r, hr, hr'⟩ := map_eq_some_iff.mp ((hrow id).symm.trans hr')
    rw [lookup_issues]
    by_cases hid : id ∈ h.store.claimIds claimGroup limit skipped
    · rw [if_pos hid] at hr' ⊢
      rw [← hr'] at hrt
      exact .inl hrt
    · rw [if_neg hid] at hr' ⊢
      rw [← hr'] at hrt
      exact .inr ⟨rfl, held_eq_some.mpr ⟨r, hr, hrt⟩⟩
  · intro id r' hr'
    obtain ⟨r, hr, _⟩ := map_eq_some_iff.mp ((hrow id).symm.trans hr')
    exact hinv.used id r hr
  · intro id r' hr'
    obtain ⟨r, hr, hr'⟩ := map_eq_some_iff.mp ((hrow id).symm.trans hr')
    have hsound := hinv.row id r hr
    rw [History.claims, claims_issue, ← hr']
    by_cases hid : id ∈ h.store.claimIds claimGroup limit skipped
    · rw [if_pos hid, if_pos hid]
      obtain ⟨r₁, hr₁, hcla⟩ := JobStore.claimable_of_mem_claimIds hid
      have hpend : r.status = .pending := by
        rw [Option.some.inj (hr.symm.trans hr₁)]
        exact JobRow.pending_of_claimable hcla
      exact ⟨fun hne => absurd hpend hne, hsound.audited, congrArg (· + 1) hsound.counted⟩
    · rw [if_neg hid, if_neg hid]
      exact hsound
  · intro id hid
    have hzero := hinv.unused id hid
    have hnot : id ∉ h.store.claimIds claimGroup limit skipped := fun hmem => by
      obtain ⟨r, hr, _⟩ := JobStore.claimable_of_mem_claimIds hmem
      exact hid (hinv.used id r hr)
    refine ⟨hzero.1, ?_⟩
    rw [History.claims, claims_issue, if_neg hnot]
    exact hzero.2

/-! The audit row of one job's end is no other job's. -/

theorem isDeadLetter_iff (id id' : Uuid) (attempts : Int) (errMsg : String) :
    ((JobStore.deadLetter id attempts errMsg).action = "notification.delivery.dead" ∧
      (JobStore.deadLetter id attempts errMsg).subject = "notification_delivery_job:" ++ id') ↔ id' = id := by
  constructor
  · intro hlet
    exact ((String.append_right_inj _).mp hlet.2).symm
  · rintro rfl
    exact ⟨rfl, rfl⟩

theorem countP_settled {row' events} (hset : Settled id how row row' events) (id' : Uuid) :
    events.countP (fun e => e.action = "notification.delivery.dead" ∧
      e.subject = "notification_delivery_job:" ++ id') =
        if id' = id ∧ row'.status = .dead then 1 else 0 := by
  rcases hset.audited with ⟨hdead, n, errMsg, rfl⟩ | ⟨hdead, rfl⟩
  · rw [countP_singleton]
    simp only [isDeadLetter_iff, decide_eq_true_eq, hdead, and_true]
  · rw [if_neg fun hid => hdead hid.2]
    rfl

theorem fenced_settle (hinv : Fenced h) {store} (hset : h.store.settle id leaseToken how = .ok store) :
    Fenced { h with store, log := h.log.settle id leaseToken } := by
  obtain ⟨row, f, events, hget, htoken, hsett, rfl⟩ := settle_ok hset
  have hrow := fun id' => get?_modify_of_some hget f id'
  have hlet : ∀ id', (h.store.audit ++ events).countP (fun e =>
      e.action = "notification.delivery.dead" ∧ e.subject = "notification_delivery_job:" ++ id') =
        h.deadLetters id' + if id' = id ∧ (f row).status = .dead then 1 else 0 := by
    intro id'
    rw [countP_append, countP_settled hsett]
    rfl
  have hsound := hinv.row id row hget
  constructor
  · refine hinv.lease.settle (held_eq_some.mpr ⟨row, hget, htoken⟩) fun id' t ht => ?_
    obtain ⟨r', hr', hrt⟩ := held_eq_some.mp ht
    replace hr' := (hrow id').symm.trans hr'
    split at hr'
    · cases hr'
      cases hsett.released.symm.trans hrt
    · rename_i hne
      exact ⟨hne, held_eq_some.mpr ⟨r', hr', hrt⟩⟩
  · intro id' r' hr'
    replace hr' := (hrow id').symm.trans hr'
    split at hr'
    · rename_i heq
      rw [heq]
      exact hinv.used id row hget
    · exact hinv.used id' r' hr'
  · intro id' r' hr'
    replace hr' := (hrow id').symm.trans hr'
    rw [History.deadLetters, hlet]
    split at hr'
    · -- a job that was leased had no dead letter yet
      rename_i heq
      cases hr'
      have hlive : row.status = .pending := by
        by_contra hne
        cases (hsound.settled hne).symm.trans htoken
      have hnone : h.deadLetters id = 0 := by
        rw [hsound.audited, hlive]
        rfl
      rw [heq, hnone]
      refine ⟨fun _ => hsett.released, ?_, hsett.attempts.trans hsound.counted⟩
      simp only [true_and, Nat.zero_add]
    · rename_i hne
      rw [if_neg fun hid => hne hid.1]
      exact hinv.row id' r' hr'
  · intro id' hid'
    have hne : id' ≠ id := fun heq => hid' (heq ▸ hinv.used id row hget)
    rw [History.deadLetters, hlet, if_neg fun hid => hne hid.1]
    exact hinv.unused id' hid'

theorem fenced_extendLeaseBatch (hinv : Fenced h) (tokens : List Uuid) (lease : Nat) :
    Fenced { h with store := (h.store.extendLeaseBatch tokens lease).1 } := by
  -- a heartbeat changes no column that the invariant speaks of
  have hsame : ∀ id r', (h.store.extendLeaseBatch tokens lease).1.jobs.get? id = some r' →
      ∃ r, h.store.jobs.get? id = some r ∧ r'.leaseToken = r.leaseToken ∧ r'.status = r.status ∧
        r'.attempts = r.attempts := by
    intro id r' hr'
    obtain ⟨r, hr, rfl⟩ := map_eq_some_iff.mp ((get?_mapRows _ id).symm.trans hr')
    refine ⟨r, hr, ?_⟩
    split
    · exact ⟨rfl, rfl, rfl⟩
    · exact ⟨rfl, rfl, rfl⟩
  constructor
  · refine hinv.lease.drop fun id t ht => ?_
    obtain ⟨r', hr', hrt⟩ := held_eq_some.mp ht
    obtain ⟨r, hr, htoken, _⟩ := hsame id r' hr'
    exact held_eq_some.mpr ⟨r, hr, htoken ▸ hrt⟩
  · intro id r' hr'
    obtain ⟨r, hr, _⟩ := hsame id r' hr'
    exact hinv.used id r hr
  · intro id r' hr'
    obtain ⟨r, hr, htoken, hst, hatt⟩ := hsame id r' hr'
    have hsound := hinv.row id r hr
    exact ⟨fun hne => htoken.trans (hsound.settled (hst ▸ hne)), hst ▸ hsound.audited, hatt.trans hsound.counted⟩
  · exact hinv.unused

theorem fenced_deleteChannel (hinv : Fenced h) (actor : String) (companyId channelId : Uuid)
    (messages : List Uuid) :
    Fenced { h with store := h.store.deleteChannel actor companyId channelId messages } := by
  have hkept : ∀ id r, (h.store.deleteChannel actor companyId channelId messages).jobs.get? id = some r →
      h.store.jobs.get? id = some r := by
    intro id r hr
    rw [JobStore.deleteChannel, get?_filter] at hr
    exact (filter_eq_some_iff.mp hr).1
  have hlet : ∀ id, History.deadLetters
      { h with store := h.store.deleteChannel actor companyId channelId messages } id = h.deadLetters id := by
    intro id
    rw [History.deadLetters, JobStore.deleteChannel, countP_append, countP_singleton]
    simp [History.deadLetters]
  constructor
  · refine hinv.lease.drop fun id t ht => ?_
    obtain ⟨r, hr, hrt⟩ := held_eq_some.mp ht
    exact held_eq_some.mpr ⟨r, hkept id r hr, hrt⟩
  · exact fun id r hr => hinv.used id r (hkept id r hr)
  · intro id r hr
    rw [hlet]
    exact hinv.row id r (hkept id r hr)
  · intro id hid
    rw [hlet]
    exact hinv.unused id hid

theorem fenced_step (hinv : Fenced h) (u : Stmt) (hstep : h.step u = some h') : Fenced h' := by
  cases u with
  | insertJob id messageId kind target claimGroup =>
    obtain ⟨hid, hh'⟩ := ite_none_left_eq_some.mp hstep
    cases hh'
    exact fenced_insertJob hinv hid
  | claimJobs claimGroup lease limit skipped token =>
    obtain ⟨hfresh, hh'⟩ := ite_none_right_eq_some.mp hstep
    cases hh'
    exact fenced_claimJobs hinv hfresh
  | settle id leaseToken how =>
    simp only [History.step] at hstep
    split at hstep
    · rename_i store hset
      cases hstep
      exact fenced_settle hinv hset
    · cases hstep
      exact hinv
  | extendLeaseBatch tokens lease =>
    cases hstep
    exact fenced_extendLeaseBatch hinv tokens lease
  | deleteChannel actor companyId channelId messages =>
    cases hstep
    exact fenced_deleteChannel hinv actor companyId channelId messages
  | tick elapsed =>
    cases hstep
    exact ⟨hinv.lease, hinv.used, hinv.row, hinv.unused⟩

theorem fenced_run (us : List Stmt) (hrun : us.foldlM History.step .start = some h) : Fenced h :=
  Runs.foldlM_invariant us hrun fenced_start fun _ _ u hinv hstep => fenced_step hinv u hstep

/-! ## Stale tokens and ended jobs -/

theorem not_stale_of_held (hinv : Fenced h) (hrow : h.row? id = some row)
    (htoken : row.leaseToken = some leaseToken) : ¬ h.Stale id leaseToken := by
  have hheld := held_eq_some.mpr ⟨row, hrow, htoken⟩
  rintro (hlat | hset)
  · exact hlat (hinv.lease.latest id leaseToken hheld)
  · exact hinv.lease.unsettled id leaseToken hheld hset

theorem settle_of_stale (hinv : Fenced h) (hstale : h.Stale id leaseToken)
    (how : Settlement) : h.store.settle id leaseToken how = .error .leaseLost :=
  settle_lost fun _ hrow htoken => not_stale_of_held hinv hrow htoken hstale

theorem extend_of_stale (hinv : Fenced h) {tokens}
    (hstale : ∀ leaseToken ∈ tokens, h.Stale id leaseToken) (lease : Nat) :
    (h.store.extendLeaseBatch tokens lease).1.jobs.get? id = h.row? id := by
  refine (get?_mapRows _ id).trans ?_
  change (h.row? id).map _ = h.row? id
  cases hrow : h.row? id with
  | none => rfl
  | some row =>
    have hnot : ¬ row.leasedUnder tokens = true := by
      intro hlea
      obtain ⟨t, ht, htoken⟩ := (of_decide_eq_true hlea).2
      exact not_stale_of_held hinv hrow htoken (hstale t ht)
    rw [map_some, if_neg hnot]

/-- How a job can come to the row it has after a statement. -/
inductive RowChange (h : History) (u : Stmt) (id : Uuid) (r' : JobRow) : Prop
  | inserted (hid : id ∉ h.ids) (hnew : r'.status = .pending ∧ r'.leaseToken = none ∧ r'.attempts = 0)
  | kept (r : JobRow) (hrow : h.row? id = some r)
      (hsame : r'.leaseToken = r.leaseToken ∧ r'.status = r.status ∧ r'.attempts = r.attempts)
  | claimed (r : JobRow) (hrow : h.row? id = some r) (claimGroup : String) (lease limit : Nat)
      (skipped : List Uuid) (token : Uuid → Uuid) (hu : u = .claimJobs claimGroup lease limit skipped token)
      (hmem : id ∈ h.store.claimIds claimGroup limit skipped)
      (hr' : r' = r.claim (h.store.now + lease) (token id))
  | settled (r : JobRow) (hrow : h.row? id = some r) (leaseToken : Uuid) (how : Settlement)
      (events : List AuditEvent) (hu : u = .settle id leaseToken how)
      (htoken : r.leaseToken = some leaseToken) (hset : Settled id how r r' events)

theorem row_step (u : Stmt) (hstep : h.step u = some h') {r'} (hr' : h'.row? id = some r')
    (hfree : id ∉ h.ids → h.row? id = none) : RowChange h u id r' := by
  have hkept : h.row? id = some r' → RowChange h u id r' := fun hrow => .kept r' hrow ⟨rfl, rfl, rfl⟩
  cases u with
  | insertJob id' messageId kind target claimGroup =>
    obtain ⟨hid, hh'⟩ := ite_none_left_eq_some.mp hstep
    cases hh'
    replace hr' := (get?_insertMissing _ id).symm.trans hr'
    split at hr'
    · rename_i heq
      rw [← heq, show h.store.jobs.get? id = none from hfree (heq ▸ hid)] at hr'
      cases hr'
      exact .inserted (heq ▸ hid) ⟨rfl, rfl, rfl⟩
    · exact hkept hr'
  | claimJobs claimGroup lease limit skipped token =>
    obtain ⟨_, hh'⟩ := ite_none_right_eq_some.mp hstep
    cases hh'
    obtain ⟨r, hr, hr'⟩ := map_eq_some_iff.mp ((get?_mapRows _ id).symm.trans hr')
    split at hr'
    · rename_i hmem
      exact .claimed r hr claimGroup lease limit skipped token rfl hmem hr'.symm
    · exact hkept (hr' ▸ hr)
  | settle id' leaseToken how =>
    simp only [History.step] at hstep
    split at hstep
    · rename_i store hset
      cases hstep
      obtain ⟨row, f, events, hget, htoken, hsett, rfl⟩ := settle_ok hset
      replace hr' := (get?_modify_of_some hget f id).symm.trans hr'
      split at hr'
      · rename_i heq
        subst heq
        cases hr'
        exact .settled row hget leaseToken how events rfl htoken hsett
      · exact hkept hr'
    · cases hstep
      exact hkept hr'
  | extendLeaseBatch tokens lease =>
    cases hstep
    obtain ⟨r, hr, hr'⟩ := map_eq_some_iff.mp ((get?_mapRows _ id).symm.trans hr')
    split at hr'
    · exact .kept r hr (hr' ▸ ⟨rfl, rfl, rfl⟩)
    · exact hkept (hr' ▸ hr)
  | deleteChannel actor companyId channelId messages =>
    cases hstep
    exact hkept (filter_eq_some_iff.mp ((get?_filter _ id).symm.trans hr')).1
  | tick elapsed =>
    cases hstep
    exact hkept hr'

theorem ids_step (u : Stmt) (hstep : h.step u = some h') (hid : id ∈ h.ids) : id ∈ h'.ids := by
  cases u with
  | insertJob id' messageId kind target claimGroup =>
    obtain ⟨_, hh'⟩ := ite_none_left_eq_some.mp hstep
    cases hh'
    exact mem_cons_of_mem id' hid
  | claimJobs claimGroup lease limit skipped token =>
    obtain ⟨_, hh'⟩ := ite_none_right_eq_some.mp hstep
    cases hh'
    exact hid
  | settle id' leaseToken how =>
    simp only [History.step] at hstep
    split at hstep
    · cases hstep
      exact hid
    · cases hstep
      exact hid
  | extendLeaseBatch tokens lease | deleteChannel actor companyId channelId messages | tick elapsed =>
    cases hstep
    exact hid

/-- The job has ended in the given status, or its row is gone for good. -/
structure Ended (id : Uuid) (status : JobStatus) (h : History) : Prop where
  fenced : Fenced h
  used : id ∈ h.ids
  status : ∀ r, h.row? id = some r → r.status = status

theorem ended_step {status} (hend : Ended id status h) (hne : status ≠ .pending) (u : Stmt)
    (hstep : h.step u = some h') : Ended id status h' := by
  refine ⟨fenced_step hend.fenced u hstep, ids_step u hstep hend.used, fun r' hr' => ?_⟩
  cases row_step u hstep hr' hend.fenced.row?_of_unused with
  | inserted hid _ => exact absurd hend.used hid
  | kept r hrow hsame => exact hsame.2.1.trans (hend.status r hrow)
  | claimed r hrow claimGroup lease limit skipped token _ hmem _ =>
    obtain ⟨r₁, hr₁, hcla⟩ := JobStore.claimable_of_mem_claimIds hmem
    exact absurd ((hend.status r₁ hr₁).symm.trans (JobRow.pending_of_claimable hcla)) hne
  | settled r hrow leaseToken how events _ htoken _ =>
    -- an ended job is not leased
    have hfree := (hend.fenced.row id r hrow).settled (hend.status r hrow ▸ hne)
    exact nomatch hfree.symm.trans htoken

end Steps

theorem lease_fencing (us : List Stmt) (h : History) (hrun : us.foldlM History.step .start = some h) :
    (∀ id leaseToken how store, h.store.settle id leaseToken how = .ok store →
      h.log.latest id = some leaseToken ∧ (id, leaseToken) ∉ h.log.settled) ∧
    (h.log.settled.map Prod.snd).Nodup ∧
    (∀ id leaseToken how, h.Stale id leaseToken →
      h.store.settle id leaseToken how = .error .leaseLost ∧ h.step (.settle id leaseToken how) = some h) ∧
    (∀ tokens lease id, (∀ leaseToken ∈ tokens, h.Stale id leaseToken) →
      (h.store.extendLeaseBatch tokens lease).1.jobs.get? id = h.row? id) ∧
    (∀ (more : List Stmt) h', more.foldlM History.step h = some h' → ∀ id r r', h.row? id = some r →
      r.status ≠ .pending → h'.row? id = some r' → r'.status = r.status) ∧
    ∀ id r, h.row? id = some r → r.status = .dead → h.deadLetters id = 1 := by
  have hinv := fenced_run us hrun
  refine ⟨?_, hinv.lease.once, ?_, ?_, ?_, ?_⟩
  · intro id leaseToken how store hset
    obtain ⟨row, _, _, hget, htoken, _⟩ := settle_ok hset
    have hheld := held_eq_some.mpr ⟨row, hget, htoken⟩
    exact ⟨hinv.lease.latest id leaseToken hheld, hinv.lease.unsettled id leaseToken hheld⟩
  · intro id leaseToken how hstale
    have hlost := settle_of_stale hinv hstale how
    refine ⟨hlost, ?_⟩
    simp only [History.step, hlost]
  · intro tokens lease id hstale
    exact extend_of_stale hinv hstale lease
  · intro more h' hmore id r r' hr hne hr'
    have hend : Ended id r.status h := by
      refine ⟨hinv, hinv.used id r hr, fun r₁ hr₁ => ?_⟩
      rw [Option.some.inj (hr₁.symm.trans hr)]
    have hend' := Runs.foldlM_invariant more hmore hend fun _ _ u hinv hstep => ended_step hinv hne u hstep
    exact hend'.status r' hr'
  · intro id r hr hdead
    rw [(hinv.row id r hr).audited, if_pos hdead]

/-- The lease of the first claim runs out, a second worker settles the job, the first one comes late. -/
def lateWorker : List Stmt :=
  [.insertJob "j" "m" .email "mia@acme.example" "default",
    .claimJobs "default" (30 * second) 10 [] fun _ => "first",
    .tick (31 * second),
    .claimJobs "default" (30 * second) 10 [] fun _ => "second",
    .settle "j" "first" .complete,
    .extendLeaseBatch ["first"] (30 * second),
    .settle "j" "second" (.failPermanent "refused" none),
    .settle "j" "first" (.fail 8 "timeout" none)]

theorem lease_fencing_lateWorker : ∃ h r, lateWorker.foldlM History.step .start = some h ∧
    h.row? "j" = some r ∧ r.status = .dead ∧ h.deadLetters "j" = 1 := by
  have hrun : ((lateWorker.foldlM History.step .start).bind fun h => (h.row? "j").map JobRow.status) =
      some .dead := by decide +kernel
  obtain ⟨h, hh, hrow⟩ := bind_eq_some_iff.mp hrun
  obtain ⟨r, hr, hdead⟩ := map_eq_some_iff.mp hrow
  exact ⟨h, r, hh, hr, hdead, (lease_fencing lateWorker h hh).2.2.2.2.2 "j" r hr hdead⟩

end Kiban.Notification
