import Kiban.Notification.Lease

/-!
# Workers and the attempt budget

A worker claims a batch, delivers its jobs one after the other and settles each under the token of the claim, while a
heartbeat extends the leases.  The attempts a failure reports are those the claim returned.  A worker may stop between
any two statements, and a statement may fail to run.
-/

namespace Kiban.Notification

open Runs List Keyed.Table Option

/-- `errors.Is(err, ErrNonRetryableDelivery)` and the text of the error. -/
structure DeliverErr where
  nonRetryable : Bool
  errMsg : String

inductive Outcome where
  | loadFailed (errMsg : String)
  | noDeliverer
  | delivered (err : Option DeliverErr)

/-- A job of the batch that is not settled yet. -/
structure BatchLease where
  job : DeliveryJob
  (cancelled started : Bool)

/-- `beat` holds the tokens of a heartbeat that is about to extend them. -/
structure Worker where
  leases : List BatchLease
  beat : Option (List Uuid)

def Worker.idle : Worker := ⟨[], none⟩

def failJob (job : DeliveryJob) (err : DeliverErr) (recordErr : Option String) : Settlement :=
  if err.nonRetryable then .failPermanent err.errMsg recordErr
  else .fail job.attempts err.errMsg recordErr

/-- The statement with which `deliverLeased` ends, if any. -/
def BatchLease.deliverLeased (l : BatchLease) (outcome : Outcome) (recordErr : Option String) : Option Settlement :=
  match outcome with
  | .loadFailed errMsg => some (failJob l.job ⟨false, errMsg⟩ recordErr)
  | .noDeliverer => none
  | .delivered err =>
    if l.cancelled then none
    else
      match err with
      | some err => some (failJob l.job err recordErr)
      | none => some .complete

inductive WorkerAction where
  | insertJob (id messageId : Uuid) (kind : JobKind) (target claimGroup : String)
  | deleteChannel (actor : String) (companyId channelId : Uuid) (messages : List Uuid)
  | tick (elapsed : Nat)
  | runOnce (w : Nat) (claimGroup : String) (lease limit : Nat) (skipped : List Uuid) (token : Uuid → Uuid)
  | start (w : Nat) (id : Uuid)
  | finish (w : Nat) (id : Uuid) (outcome : Outcome) (recordErr : Option String) (ran : Bool)
  | collect (w : Nat)
  | extend (w : Nat) (lease : Nat)
  | crash (w : Nat)

structure System where
  history : History
  workers : Nat → Worker

namespace System

def start : System := ⟨.start, fun _ => .idle⟩

def lease? (s : System) (w : Nat) (id : Uuid) : Option BatchLease :=
  (s.workers w).leases.find? fun l => l.job.id = id

def setWorker (s : System) (w : Nat) (worker : Worker) : System :=
  { s with workers := Function.update s.workers w worker }

def run (s : System) (u : Stmt) : Option System := (s.history.step u).map fun history => { s with history }

def step (s : System) : WorkerAction → Option System
  | .insertJob id messageId kind target claimGroup => s.run (.insertJob id messageId kind target claimGroup)
  | .deleteChannel actor companyId channelId messages => s.run (.deleteChannel actor companyId channelId messages)
  | .tick elapsed => s.run (.tick elapsed)
  | .runOnce w claimGroup lease limit skipped token =>
    if (s.workers w).leases.isEmpty ∧ (s.workers w).beat.isNone then
      let jobs := (s.history.store.claimJobs claimGroup lease limit skipped token).2
      (s.run (.claimJobs claimGroup lease limit skipped token)).map fun s' =>
        s'.setWorker w ⟨jobs.map fun job => ⟨job, false, false⟩, none⟩
    else none
  | .start w id =>
    -- a job whose lease is lost by now is left alone
    let worker := s.workers w
    match s.lease? w id with
    | none => none
    | some l =>
      if worker.leases.any (·.started) then none
      else if l.cancelled then
        some (s.setWorker w { worker with leases := worker.leases.filter fun l => l.job.id ≠ id })
      else
        some (s.setWorker w { worker with
          leases := worker.leases.map fun l => if l.job.id = id then { l with started := true } else l })
  | .finish w id outcome recordErr ran =>
    let worker := s.workers w
    match s.lease? w id with
    | none => none
    | some l =>
      if l.started then
        let rest := { worker with leases := worker.leases.filter fun l => l.job.id ≠ id }
        match l.deliverLeased outcome recordErr with
        | some how =>
          if ran then (s.run (.settle l.job.id l.job.leaseToken how)).map (·.setWorker w rest)
          else some (s.setWorker w rest)
        | none => some (s.setWorker w rest)
      else none
  | .collect w =>
    -- tokens that are still there are those of a heartbeat whose statement failed
    let worker := s.workers w
    some (s.setWorker w { worker with beat := some (worker.leases.map fun l => l.job.leaseToken) })
  | .extend w lease =>
    let worker := s.workers w
    match worker.beat with
    | none => none
    | some tokens =>
      let extended := (s.history.store.extendLeaseBatch tokens lease).2
      let lost (l : BatchLease) : Bool := l.job.leaseToken ∈ tokens ∧ l.job.leaseToken ∉ extended
      (s.run (.extendLeaseBatch tokens lease)).map fun s' =>
        s'.setWorker w ⟨worker.leases.map fun l => if lost l then { l with cancelled := true } else l, none⟩
  | .crash w => some (s.setWorker w .idle)

end System

/-! ## What an action does -/

/-- No worker has a job that it did not have before. -/
def LeasesKept (s s' : System) : Prop :=
  ∀ w, ∀ l' ∈ (s'.workers w).leases, ∃ l ∈ (s.workers w).leases, l'.job = l.job

inductive ActionEffect (s : System) (a : WorkerAction) (s' : System) : Prop
  | silent (hhistory : s'.history = s.history) (hleases : LeasesKept s s')
  | plain (u : Stmt) (hstep : s.history.step u = some s'.history) (hleases : LeasesKept s s')
      (hclaim : ∀ claimGroup lease limit skipped token, u ≠ .claimJobs claimGroup lease limit skipped token)
      (hsettle : ∀ id leaseToken how, u ≠ .settle id leaseToken how)
  | claimed (w : Nat) (claimGroup : String) (lease limit : Nat) (skipped : List Uuid) (token : Uuid → Uuid)
      (ha : a = .runOnce w claimGroup lease limit skipped token)
      (hstep : s.history.step (.claimJobs claimGroup lease limit skipped token) = some s'.history)
      (hleases : ∀ w', ∀ l' ∈ (s'.workers w').leases,
        l'.job ∈ (s.history.store.claimJobs claimGroup lease limit skipped token).2 ∨
          ∃ l ∈ (s.workers w').leases, l'.job = l.job)
  | settled (w : Nat) (l : BatchLease) (hl : l ∈ (s.workers w).leases) (how : Settlement)
      (hstep : s.history.step (.settle l.job.id l.job.leaseToken how) = some s'.history)
      (hleases : LeasesKept s s')
      (hattempts : ∀ n errMsg recordErr, how = .fail n errMsg recordErr → n = l.job.attempts)

section Effects

variable {s s' : System}

theorem mem_setWorker {w w' worker l'} (hl' : l' ∈ ((s.setWorker w worker).workers w').leases) :
    (w' = w ∧ l' ∈ worker.leases) ∨ (w' ≠ w ∧ l' ∈ (s.workers w').leases) := by
  change l' ∈ (Function.update s.workers w worker w').leases at hl'
  by_cases hw : w' = w
  · subst hw
    rw [Function.update_self] at hl'
    exact .inl ⟨rfl, hl'⟩
  · rw [Function.update_of_ne hw] at hl'
    exact .inr ⟨hw, hl'⟩

theorem leasesKept_setWorker {w worker} (h : ∀ l' ∈ worker.leases, ∃ l ∈ (s.workers w).leases, l'.job = l.job) :
    LeasesKept s (s.setWorker w worker) := by
  intro w' l' hl'
  rcases mem_setWorker hl' with ⟨rfl, hmem⟩ | ⟨_, hmem⟩
  · exact h l' hmem
  · exact ⟨l', hmem, rfl⟩

theorem leasesKept_map {w} (f : BatchLease → BatchLease) (hf : ∀ l, (f l).job = l.job) :
    ∀ l' ∈ (s.workers w).leases.map f, ∃ l ∈ (s.workers w).leases, l'.job = l.job := by
  intro l' hl'
  obtain ⟨l, hl, rfl⟩ := mem_map.mp hl'
  exact ⟨l, hl, hf l⟩

theorem leasesKept_filter {w} (p : BatchLease → Bool) :
    ∀ l' ∈ (s.workers w).leases.filter p, ∃ l ∈ (s.workers w).leases, l'.job = l.job := fun l' hl' =>
  ⟨l', mem_of_mem_filter hl', rfl⟩

theorem run_eq_some {u} (h : s.run u = some s') : s.history.step u = some s'.history ∧ s'.workers = s.workers := by
  obtain ⟨history, hhist, rfl⟩ := map_eq_some_iff.mp h
  exact ⟨hhist, rfl⟩

theorem plain_of_run {a u} (h : s.run u = some s')
    (hclaim : ∀ claimGroup lease limit skipped token, u ≠ .claimJobs claimGroup lease limit skipped token)
    (hset : ∀ id leaseToken how, u ≠ .settle id leaseToken how) : ActionEffect s a s' := by
  have hrun := run_eq_some h
  refine .plain u hrun.1 (fun w l hl => ⟨l, ?_, rfl⟩) hclaim hset
  rw [hrun.2] at hl
  exact hl

theorem attempts_of_deliverLeased {l : BatchLease} {outcome : Outcome} {recordErr : Option String}
    {how : Settlement} (h : l.deliverLeased outcome recordErr = some how) (n : Int) (errMsg : String)
    (cause : Option String) (hhow : how = .fail n errMsg cause) : n = l.job.attempts := by
  have hfail : ∀ err, failJob l.job err recordErr = .fail n errMsg cause → n = l.job.attempts := by
    intro err herr
    unfold failJob at herr
    split at herr
    · cases herr
    · exact (Settlement.fail.inj herr).1.symm
  cases outcome with
  | loadFailed e => exact hfail _ ((Option.some.inj h).trans hhow)
  | noDeliverer => cases h
  | delivered err =>
    simp only [BatchLease.deliverLeased] at h
    split at h
    · cases h
    · cases err with
      | some err => exact hfail err ((Option.some.inj h).trans hhow)
      | none => exact nomatch (Option.some.inj h).trans hhow

theorem system_step {a : WorkerAction} (h : s.step a = some s') : ActionEffect s a s' := by
  cases a with
  | insertJob id messageId kind target claimGroup
  | deleteChannel actor companyId channelId messages | tick elapsed => exact plain_of_run h nofun nofun
  | runOnce w claimGroup lease limit skipped token =>
    obtain ⟨_, h⟩ := ite_none_right_eq_some.mp h
    obtain ⟨s₁, hrun, rfl⟩ := map_eq_some_iff.mp h
    have hs₁ := run_eq_some hrun
    refine .claimed w claimGroup lease limit skipped token rfl hs₁.1 fun w' l' hl' => ?_
    rcases mem_setWorker hl' with ⟨_, hmem⟩ | ⟨_, hmem⟩
    · obtain ⟨job, hjob, rfl⟩ := mem_map.mp hmem
      exact .inl hjob
    · rw [hs₁.2] at hmem
      exact .inr ⟨l', hmem, rfl⟩
  | start w id =>
    simp only [System.step] at h
    split at h
    · cases h
    split at h
    · cases h
    split at h
    · cases h
      exact .silent rfl (leasesKept_setWorker (leasesKept_filter _))
    cases h
    refine .silent rfl (leasesKept_setWorker (leasesKept_map _ fun l => ?_))
    split
    · rfl
    · rfl
  | finish w id outcome recordErr ran =>
    simp only [System.step] at h
    split at h
    · cases h
    rename_i l hfind
    have hl : l ∈ (s.workers w).leases := mem_of_find?_eq_some hfind
    split at h
    · split at h
      · rename_i how hhow
        split at h
        · obtain ⟨s₁, hrun, rfl⟩ := map_eq_some_iff.mp h
          have hs₁ := run_eq_some hrun
          refine .settled w l hl how hs₁.1 ?_ (attempts_of_deliverLeased hhow)
          intro w' l' hl'
          rcases mem_setWorker hl' with ⟨rfl, hmem⟩ | ⟨_, hmem⟩
          · exact leasesKept_filter _ l' hmem
          · rw [hs₁.2] at hmem
            exact ⟨l', hmem, rfl⟩
        · cases h
          exact .silent rfl (leasesKept_setWorker (leasesKept_filter _))
      · cases h
        exact .silent rfl (leasesKept_setWorker (leasesKept_filter _))
    · cases h
  | collect w =>
    cases h
    exact .silent rfl (leasesKept_setWorker fun l hl => ⟨l, hl, rfl⟩)
  | extend w lease =>
    simp only [System.step] at h
    split at h
    · cases h
    obtain ⟨s₁, hrun, rfl⟩ := map_eq_some_iff.mp h
    have hs₁ := run_eq_some hrun
    refine .plain _ hs₁.1 ?_ nofun nofun
    intro w' l' hl'
    rcases mem_setWorker hl' with ⟨rfl, hmem⟩ | ⟨_, hmem⟩
    · refine leasesKept_map _ (fun l => ?_) l' hmem
      split
      · rfl
      · rfl
    · rw [hs₁.2] at hmem
      exact ⟨l', hmem, rfl⟩
  | crash w =>
    cases h
    exact .silent rfl (leasesKept_setWorker nofun)

end Effects

/-! ## What a worker knows of its jobs -/

/-- While the row is leased under the token of the claim, its attempts are those the claim returned. -/
structure LeaseOf (h : History) (job : DeliveryJob) : Prop where
  issued : (job.id, job.leaseToken) ∈ h.log.issued
  attempts : ∀ r, h.row? job.id = some r → r.leaseToken = some job.leaseToken → r.attempts = job.attempts

section Leases

variable {h h' : History}

theorem issued_step (u : Stmt) (hstep : h.step u = some h') : h'.log.issued = h.log.issued ∨
      ∃ claimGroup lease limit skipped token, u = .claimJobs claimGroup lease limit skipped token ∧
        h'.log.issued = h.issues claimGroup limit skipped token ++ h.log.issued := by
  cases u with
  | insertJob id messageId kind target claimGroup =>
    obtain ⟨_, hh'⟩ := ite_none_left_eq_some.mp hstep
    cases hh'
    exact .inl rfl
  | claimJobs claimGroup lease limit skipped token =>
    obtain ⟨_, hh'⟩ := ite_none_right_eq_some.mp hstep
    cases hh'
    exact .inr ⟨claimGroup, lease, limit, skipped, token, rfl, rfl⟩
  | settle id leaseToken how =>
    simp only [History.step] at hstep
    split at hstep
    · cases hstep
      exact .inl rfl
    · cases hstep
      exact .inl rfl
  | extendLeaseBatch tokens lease | deleteChannel actor companyId channelId messages | tick elapsed =>
    cases hstep
    exact .inl rfl

theorem mem_issued_step (u : Stmt) (hstep : h.step u = some h') {e} (he : e ∈ h.log.issued) :
    e ∈ h'.log.issued := by
  rcases issued_step u hstep with heq | ⟨_, _, _, _, _, _, heq⟩
  · exact heq ▸ he
  · exact heq ▸ mem_append_right _ he

theorem used_of_issued (hinv : Fenced h) {id leaseToken} (he : (id, leaseToken) ∈ h.log.issued) : id ∈ h.ids := by
  by_contra hid
  have hzero := (hinv.unused id hid).2
  rw [History.claims, countP_eq_zero] at hzero
  exact hzero _ he (decide_eq_true rfl)

theorem leaseOf_step (hinv : Fenced h) {job} (hjob : LeaseOf h job) (u : Stmt)
    (hstep : h.step u = some h') : LeaseOf h' job := by
  refine ⟨mem_issued_step u hstep hjob.issued, fun r' hr' hr't => ?_⟩
  cases row_step u hstep hr' hinv.row?_of_unused with
  | inserted hid _ => exact absurd (used_of_issued hinv hjob.issued) hid
  | kept r hrow hsame => exact hsame.2.2.trans (hjob.attempts r hrow (hsame.1 ▸ hr't))
  | claimed r hrow claimGroup lease limit skipped token hu hmem hr' =>
    -- the claim's token is fresh, the job's is not
    subst hu hr'
    have hfresh := (ite_none_right_eq_some.mp hstep).1
    have hold := mem_map_of_mem (f := Prod.snd) hjob.issued
    have hnew : token job.id ∈ (h.issues claimGroup limit skipped token).map Prod.snd :=
      mem_map_of_mem (f := Prod.snd) (mem_map_of_mem (f := fun id => (id, token id)) hmem)
    rw [map_append] at hfresh
    exact absurd (Option.some.inj hr't) ((nodup_append.mp hfresh).2.2 _ hnew _ hold)
  | settled r hrow leaseToken how events _ _ hset => exact nomatch hset.released.symm.trans hr't

theorem leaseOf_claimed {claimGroup lease limit skipped token}
    (hstep : h.step (.claimJobs claimGroup lease limit skipped token) = some h') {job}
    (hjob : job ∈ (h.store.claimJobs claimGroup lease limit skipped token).2) : LeaseOf h' job := by
  obtain ⟨_, hh'⟩ := ite_none_right_eq_some.mp hstep
  cases hh'
  obtain ⟨id, hid, hjob⟩ := mem_filterMap.mp hjob
  obtain ⟨r, hr, rfl⟩ := map_eq_some_iff.mp hjob
  constructor
  · exact mem_append_left _ (mem_map_of_mem (f := fun id => (id, token id)) hid)
  · intro r' hr' _
    rw [Option.some.inj (hr'.symm.trans hr)]
    rfl

end Leases

/-! ## The budget -/

/-- The eighth lease of a job has run out, and nothing was recorded for it. -/
def JobRow.lastLeaseLapsed (r : JobRow) (now : Nat) : Bool :=
  r.attempts = maxAttempts && r.leaseToken.isSome && r.leasedUntil.all fun leasedUntil => leasedUntil < now

/-- No job of the group is in its eighth lease with the lease run out. -/
def History.LastLeasesKept (h : History) (claimGroup : String) : Prop :=
  ∀ id r, h.row? id = some r → r.claimGroup = claimGroup → r.lastLeaseLapsed h.store.now = false

/-- A batch is claimed only when no job's eighth lease was left to run out. -/
def System.Kept (s : System) : WorkerAction → Prop
  | .runOnce _ claimGroup _ _ _ _ => s.history.LastLeasesKept claimGroup
  | _ => True

structure Budget (h : History) : Prop where
  attempts : ∀ id r, h.row? id = some r → r.attempts ≤ maxAttempts
  retried : ∀ id r, h.row? id = some r → r.status = .pending → r.leaseToken = none → r.attempts < maxAttempts
  claims : ∀ id, h.claims id ≤ maxAttempts

section Budget

variable {h h' : History}

theorem attempts_lt_of_claimed (hb : Budget h) {claimGroup limit skipped}
    (hkept : h.LastLeasesKept claimGroup) {id r} (hrow : h.row? id = some r)
    (hmem : id ∈ h.store.claimIds claimGroup limit skipped) : r.attempts < maxAttempts := by
  obtain ⟨r₁, hr₁, hcla⟩ := JobStore.claimable_of_mem_claimIds hmem
  rw [← Option.some.inj (hrow.symm.trans hr₁)] at hcla
  simp only [JobRow.claimable, Bool.and_eq_true, decide_eq_true_eq] at hcla
  cases htoken : r.leaseToken with
  | none => exact hb.retried id r hrow hcla.1.2 htoken
  | some t =>
    have hnot := hkept id r hrow hcla.1.1
    rw [JobRow.lastLeaseLapsed, htoken, hcla.2] at hnot
    have hne : r.attempts ≠ maxAttempts := by simpa using hnot
    have hle := hb.attempts id r hrow
    omega

theorem budget_step (hinv : Fenced h) (hb : Budget h) (u : Stmt) (hstep : h.step u = some h')
    (hclaim : ∀ claimGroup lease limit skipped token, u = .claimJobs claimGroup lease limit skipped token →
      h.LastLeasesKept claimGroup)
    (hfail : ∀ id leaseToken n errMsg recordErr r, u = .settle id leaseToken (.fail n errMsg recordErr) →
      h.row? id = some r → r.leaseToken = some leaseToken → n = r.attempts) :
    Budget h' := by
  have hrows : ∀ id r', h'.row? id = some r' → r'.attempts ≤ maxAttempts ∧
      (r'.status = .pending → r'.leaseToken = none → r'.attempts < maxAttempts) := by
    intro id r' hr'
    cases row_step u hstep hr' hinv.row?_of_unused with
    | inserted _ hnew =>
      rw [hnew.2.2]
      exact ⟨Nat.zero_le _, fun _ _ => by decide⟩
    | kept r hrow hsame =>
      rw [hsame.1, hsame.2.1, hsame.2.2]
      exact ⟨hb.attempts id r hrow, hb.retried id r hrow⟩
    | claimed r hrow claimGroup lease limit skipped token hu hmem hr' =>
      subst hr'
      have hlt := attempts_lt_of_claimed hb (hclaim _ _ _ _ _ hu) hrow hmem
      exact ⟨hlt, nofun⟩
    | settled r hrow leaseToken how events hu htoken hset =>
      refine ⟨hset.attempts ▸ hb.attempts id r hrow, fun hpend _ => ?_⟩
      -- back to pending: the failure reported the attempts of the row, and fewer than eight
      obtain ⟨n, errMsg, recordErr, hhow, hless⟩ := hset.retried hpend
      subst hhow
      have hn := hfail id leaseToken n errMsg recordErr r hu hrow htoken
      have hatt := hset.attempts
      omega
  refine ⟨fun id r' hr' => (hrows id r' hr').1, fun id r' hr' => (hrows id r' hr').2, fun id => ?_⟩
  rcases issued_step u hstep with heq | ⟨claimGroup, lease, limit, skipped, token, rfl, heq⟩
  · rw [History.claims, heq]
    exact hb.claims id
  have hcount := claims_issue h claimGroup limit skipped token id
  rw [Fencing.Log.issue, ← heq] at hcount
  rw [History.claims, hcount]
  by_cases hmem : id ∈ h.store.claimIds claimGroup limit skipped
  · obtain ⟨r, hr, _⟩ := JobStore.claimable_of_mem_claimIds hmem
    have hlt := attempts_lt_of_claimed hb (hclaim _ _ _ _ _ rfl) hr hmem
    rw [(hinv.row id r hr).counted] at hlt
    rw [if_pos hmem]
    exact hlt
  · rw [if_neg hmem]
    exact hb.claims id

end Budget

/-- What holds in every run of the workers in which no eighth lease is left to run out. -/
structure System.Sound (s : System) : Prop where
  fenced : Fenced s.history
  budget : Budget s.history
  leases : ∀ w, ∀ l ∈ (s.workers w).leases, LeaseOf s.history l.job

theorem sound_start : System.start.Sound where
  fenced := fenced_start
  budget := ⟨nofun, nofun, fun _ => Nat.zero_le _⟩
  leases := nofun

theorem sound_step {s s' : System} (hinv : s.Sound) (a : WorkerAction) (hkept : s.Kept a)
    (hstep : s.step a = some s') : s'.Sound := by
  have hold : ∀ u, s.history.step u = some s'.history → ∀ w, ∀ l ∈ (s.workers w).leases,
      LeaseOf s'.history l.job := fun u hu w l hl => leaseOf_step hinv.fenced (hinv.leases w l hl) u hu
  have hkeep : LeasesKept s s' → (∀ w, ∀ l ∈ (s.workers w).leases, LeaseOf s'.history l.job) →
      ∀ w, ∀ l ∈ (s'.workers w).leases, LeaseOf s'.history l.job := by
    intro hlea hall w l' hl'
    obtain ⟨l, hl, heq⟩ := hlea w l' hl'
    exact heq ▸ hall w l hl
  cases system_step hstep with
  | silent hhist hlea =>
    refine ⟨hhist ▸ hinv.fenced, hhist ▸ hinv.budget, hkeep hlea fun w l hl => ?_⟩
    exact hhist ▸ hinv.leases w l hl
  | plain u hu hlea hclaim hset =>
    refine ⟨fenced_step hinv.fenced u hu, ?_, hkeep hlea (hold u hu)⟩
    refine budget_step hinv.fenced hinv.budget u hu ?_ ?_
    · exact fun claimGroup lease limit skipped token h => absurd h (hclaim _ _ _ _ _)
    · exact fun id leaseToken n errMsg recordErr r h => absurd h (hset _ _ _)
  | claimed w claimGroup lease limit skipped token ha hu hlea =>
    subst ha
    refine ⟨fenced_step hinv.fenced _ hu, ?_, fun w' l' hl' => ?_⟩
    · refine budget_step hinv.fenced hinv.budget _ hu ?_ nofun
      rintro _ _ _ _ _ ⟨⟩
      exact hkept
    · rcases hlea w' l' hl' with hnew | ⟨l, hl, heq⟩
      · exact leaseOf_claimed hu hnew
      · exact heq ▸ hold _ hu w' l hl
  | settled w l hl how hu hlea hatt =>
    refine ⟨fenced_step hinv.fenced _ hu, ?_, hkeep hlea (hold _ hu)⟩
    refine budget_step hinv.fenced hinv.budget _ hu nofun ?_
    intro id leaseToken n errMsg recordErr r heq hrow htoken
    obtain ⟨rfl, rfl, rfl⟩ := Stmt.settle.inj heq
    rw [hatt n errMsg recordErr rfl, (hinv.leases w l hl).attempts r hrow htoken]

theorem sound_of_reach {s : System} (hrun : Reach System.step System.Kept .start s) : s.Sound :=
  hrun.invariant sound_start fun _ _ a hinv hkept hstep => sound_step hinv a hkept hstep

theorem dead_of_last_failure {h} (hinv : Fenced h) {id leaseToken r} (hrow : h.row? id = some r)
    (htoken : r.leaseToken = some leaseToken) (hlast : r.attempts = maxAttempts) (errMsg : String) :
    ∃ h' r', h.step (.settle id leaseToken (.fail r.attempts errMsg none)) = some h' ∧
      h'.row? id = some r' ∧ r'.status = .dead ∧ h'.deadLetters id = 1 := by
  have hupd : h.store.updateLeased id leaseToken (JobRow.die · errMsg) =
      .ok { h.store with jobs := h.store.jobs.modify id (JobRow.die · errMsg) } := by
    rw [JobStore.updateLeased, show h.store.jobs.get? id = some r from hrow]
    exact if_pos htoken
  have hge : (r.attempts : Int) ≥ maxAttempts := by omega
  have hdead : ∃ store, h.store.settle id leaseToken (.fail r.attempts errMsg none) = .ok store ∧
      store.jobs.get? id = some (r.die errMsg) := by
    rw [JobStore.settle, JobStore.failJob, if_pos hge, JobStore.markJobDead, hupd]
    exact ⟨_, rfl, (get?_modify_of_some hrow _ id).trans (if_pos rfl)⟩
  obtain ⟨store, hset, hrow'⟩ := hdead
  have hsound := (fenced_settle hinv hset).row id (r.die errMsg) hrow'
  refine ⟨{ h with store, log := h.log.settle id leaseToken }, r.die errMsg, ?_, hrow', rfl, ?_⟩
  · rw [History.step, hset]
  · exact hsound.audited

/-- A job is handed out at most eight times; once its eighth lease is settled it is done, or dead with one
audit row, and a failure settles that lease as dead. -/
theorem attempt_budget (s : System) (hrun : Reach System.step System.Kept .start s) :
    (∀ id, s.history.claims id ≤ maxAttempts) ∧
    ∀ id r, s.history.row? id = some r → r.attempts = s.history.claims id ∧ (r.attempts = maxAttempts →
      (∀ claimGroup limit skipped, s.history.LastLeasesKept claimGroup →
        id ∉ s.history.store.claimIds claimGroup limit skipped) ∧
      (r.leaseToken = none → r.status = .done ∨ (r.status = .dead ∧ s.history.deadLetters id = 1)) ∧
      ∀ leaseToken errMsg, r.leaseToken = some leaseToken →
        ∃ h' r', s.history.step (.settle id leaseToken (.fail r.attempts errMsg none)) = some h' ∧
          h'.row? id = some r' ∧ r'.status = .dead ∧ h'.deadLetters id = 1) := by
  have hinv := sound_of_reach hrun
  refine ⟨hinv.budget.claims, fun id r hrow => ⟨(hinv.fenced.row id r hrow).counted, fun hlast => ⟨?_, ?_, ?_⟩⟩⟩
  · intro claimGroup limit skipped hkept hmem
    have hlt := attempts_lt_of_claimed hinv.budget hkept hrow hmem
    omega
  · intro hfree
    have hsound := hinv.fenced.row id r hrow
    cases hst : r.status with
    | pending =>
      have hlt := hinv.budget.retried id r hrow hst hfree
      omega
    | done => exact .inl rfl
    | dead => exact .inr ⟨rfl, hsound.audited.trans (if_pos hst)⟩
  · exact fun leaseToken errMsg htoken => dead_of_last_failure hinv.fenced hrow htoken hlast errMsg

instance (h : History) (claimGroup : String) : Decidable (h.LastLeasesKept claimGroup) :=
  decidable_of_iff (∀ q ∈ h.store.jobs.rows, q.2.claimGroup = claimGroup → q.2.lastLeaseLapsed h.store.now = false)
    ⟨fun hall id r hr => hall (id, r) (get?_eq_some_iff.mp hr),
      fun hall q hq => hall q.1 q.2 (get?_eq_some_iff.mpr hq)⟩

instance (s : System) : (a : WorkerAction) → Decidable (s.Kept a)
  | .runOnce _ claimGroup _ _ _ _ => inferInstanceAs (Decidable (s.history.LastLeasesKept claimGroup))
  | .insertJob .. | .deleteChannel .. | .tick .. | .start .. | .finish .. | .collect .. | .extend ..
  | .crash .. => inferInstanceAs (Decidable True)

/-- One worker polls, and the target fails each time. -/
def failingTarget : List WorkerAction :=
  .insertJob "j" "m" .webhook "https://hooks.example/in" "default" :: (List.range 8).flatMap fun i =>
      [.runOnce 0 "default" (30 * second) 10 [] fun _ => toString i, .start 0 "j",
        .finish 0 "j" (.delivered (some ⟨false, "timeout"⟩)) none true, .tick (15 * 60 * second + 1)]

theorem attempt_budget_failingTarget : ∃ s, Reach System.step System.Kept .start s ∧
    s.history.claims "j" = maxAttempts ∧ ∃ r, s.history.row? "j" = some r ∧ r.leaseToken = none ∧
      (r.status = .done ∨ (r.status = .dead ∧ s.history.deadLetters "j" = 1)) := by
  have hrun : ((failingTarget.foldlM (fun s a => if decide (s.Kept a) then s.step a else none)
      System.start).bind fun s => (s.history.row? "j").map fun r => (r.attempts, r.leaseToken)) =
        some (maxAttempts, none) := by decide +kernel
  obtain ⟨s, hs, hrow⟩ := bind_eq_some_iff.mp hrun
  obtain ⟨r, hr, heq⟩ := map_eq_some_iff.mp hrow
  obtain ⟨hlast, hfree⟩ := Prod.mk.inj heq
  have hreach : Reach System.step System.Kept .start s :=
    reach_of_checked (fun s a => decide (s.Kept a)) (fun _ _ => of_decide_eq_true) failingTarget hs
  have hbud := (attempt_budget s hreach).2 "j" r hr
  exact ⟨s, hreach, hbud.1.symm.trans hlast, r, hr, hfree, (hbud.2 hlast).2.1 hfree⟩

/-- The worker is killed in each delivery and started again. -/
def killedInDelivery : List WorkerAction :=
  .insertJob "j" "m" .webhook "https://hooks.example/in" "default" :: (List.range 9).flatMap fun i =>
      [.runOnce 0 "default" (30 * second) 10 [] fun _ => toString i, .start 0 "j", .crash 0, .tick (31 * second)]

theorem killedInDelivery_claims : ∃ s, killedInDelivery.foldlM System.step .start = some s ∧
    s.history.claims "j" = 9 ∧ s.history.deadLetters "j" = 0 ∧
      (s.history.row? "j").map JobRow.status = some .pending := by
  have hrun : (killedInDelivery.foldlM System.step .start).map (fun s =>
      (s.history.claims "j", s.history.deadLetters "j", (s.history.row? "j").map JobRow.status)) =
        some (9, 0, some .pending) := by decide +kernel
  obtain ⟨s, hs, heq⟩ := map_eq_some_iff.mp hrun
  obtain ⟨hclm, hrest⟩ := Prod.mk.inj heq
  obtain ⟨hlet, hst⟩ := Prod.mk.inj hrest
  exact ⟨s, hs, hclm, hlet, hst⟩

end Kiban.Notification
