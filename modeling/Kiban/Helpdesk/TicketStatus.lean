import Kiban.Helpdesk.Store
import Kiban.Lib.LockedWrites

/-!
# The status of a ticket

A status request reads the ticket, asks the authorizer, decides whether the change is an edge that the caller may take,
and then writes the new status in a transaction of its own.  The `UPDATE` does not mention the status that was read:
the changes that are committed are edges as long as nobody else changes the status in between.
-/

namespace Kiban.Helpdesk

open Kiban.Org (ApiError)
open Transactions LockedWrites Fallible List Keyed.Table Option

/-! ## The decision -/

inductive Tier where
  | admin
  | agent
  | member
deriving DecidableEq

/-- The authorizer's answers to one request, `none` for a call that fails. -/
structure Authz where
  -- `helpdesk.manage` and `helpdesk.tickets.work`
  (canManage canWork : Option Bool)
  isPositionHolder : Uuid → Option Bool
  isGroupMember : Uuid → Option Bool

def Authz.tier (a : Authz) : Option Tier :=
  a.canManage.bind fun manage =>
    if manage then some .admin else a.canWork.map fun work => if work then .agent else .member

def Authz.isAssigneeForTicket (a : Authz) (t : Ticket) : Option Bool :=
  match t.assignee with
  | some (.position positionId _) => a.isPositionHolder positionId
  | some (.group groupId _) => a.isGroupMember groupId
  | _ => some false

def canSeeTicket (tier : Tier) (t : Ticket) (subject : String) (isAssigneeViaEngine : Bool) : Bool :=
  tier = .agent ∨ tier = .admin ∨ t.reporterKcSub = subject ∨ isAssigneeViaEngine

def validEdges : List (Status × Status) :=
  [(.opened, .inProgress), (.inProgress, .resolved), (.resolved, .closed), (.resolved, .opened)]

def Ticket.assigneeKcSub (t : Ticket) : Option String :=
  match t.assignee with
  | some (.member _ kcSub) => some kcSub
  | _ => none

def canTransition (t : Ticket) (subject : String) (tier : Tier) (fromStatus newStatus : Status)
    (isAssigneeViaEngine : Bool) : Bool :=
  let isAssignee : Bool := t.assigneeKcSub = some subject ∨ isAssigneeViaEngine
  let isReporter : Bool := t.reporterKcSub = subject
  if tier = .admin then true
  else
    match fromStatus, newStatus with
    | .opened, .inProgress | .inProgress, .resolved => isAssignee
    | .resolved, .closed | .resolved, .opened => isReporter
    | _, _ => false

/-- The edge that leads from the status to the one with this text. -/
def edgeTo (fromStatus : Status) (status : String) : Option Status :=
  (validEdges.find? fun e => e.1 = fromStatus ∧ e.2.text = status).map Prod.snd

structure RequestContext where
  subject : String
  (companyId ticketId : Uuid)

def requireVisible (rc : RequestContext) (a : Authz) (t : Ticket) (deniedMsg : String) :
    Except ApiError (Tier × Bool) :=
  match a.tier with
  | none => .error (unavailable "could not verify authorization")
  | some tier =>
    match a.isAssigneeForTicket t with
    | none => .error (unavailable "could not verify authorization")
    | some isAssignee =>
      if canSeeTicket tier t rc.subject isAssignee then .ok (tier, isAssignee) else .error (denied deniedMsg)

def requireTransition (rc : RequestContext) (t : Ticket) (tier : Tier) (isAssignee : Bool) (status : String) :
    Except ApiError Status :=
  match edgeTo t.status status with
  | none => .error (unprocessable "status" ("invalid status transition from " ++ t.status.text ++ " to " ++ status))
  | some newStatus =>
    if canTransition t rc.subject tier t.status newStatus isAssignee then .ok newStatus
    else .error (denied "not authorized to make this status transition")

/-! ## Statements -/

inductive Write where
  | insertTicket (id : Uuid) (t : Ticket)
  | setAssignee (id : Uuid) (assignee : Assignee)
  | setStatus (id : Uuid) (status : Status)
  | recordStatus (e : StatusEvent)

inductive Stmt where
  | getTicket (ticketId : Uuid)
  | updateTicket
  | insertTicket
  | recordAudit

def Tables.apply (t : Tables) : Write → Tables
  | .insertTicket id row => { t with ticket := t.ticket.insertMissing id row }
  | .setAssignee id assignee =>
    { t with ticket := t.ticket.modify id fun row => { row with assignee := some assignee } }
  | .setStatus id status => { t with ticket := t.ticket.modify id fun row => { row with status } }
  | .recordStatus e => { t with statusEvent := t.statusEvent ++ [e] }

def schema : Schema Tables Write := ⟨Tables.apply, fun _ => true⟩

/-- The locks are those of the rows of tickets. -/
abbrev Tx (α : Type) := Prog Tables Write Uuid Stmt ApiError α

def Tables.findTicket (t : Tables) (companyId ticketId : Uuid) : Except ApiError Ticket :=
  match t.ticket.get? ticketId with
  | some row => if row.companyId = companyId then .ok row else .error (writeStoreError .ticketNotFound)
  | none => .error (writeStoreError .ticketNotFound)

def getTicket (companyId ticketId : Uuid) : Tx Ticket := .read (.getTicket ticketId) (·.findTicket companyId ticketId)

/-- `UPDATE helpdesk.ticket SET … WHERE company_id = $1 AND id = $2 RETURNING …` -/
def updateTicket (companyId ticketId : Uuid) (change : Ticket → Ticket) (write : Write) : Tx Ticket :=
  .exec .updateTicket (fun _ => [ticketId]) (fun _ => [ticketId])
    fun t => (t.findTicket companyId ticketId).map fun row => (change row, [write])

def recordAudit (e : StatusEvent) : Tx Unit :=
  .exec .recordAudit (fun _ => []) (fun _ => []) fun _ => .ok ((), [.recordStatus e])

def updateTicketStatus (actor : String) (companyId ticketId : Uuid) (fromStatus newStatus : Status) : Tx Ticket := do
  let updated ← updateTicket companyId ticketId (fun row => { row with status := newStatus })
    (.setStatus ticketId newStatus)
  recordAudit ⟨actor, ticketId, fromStatus, newStatus⟩
  return updated

/-- A message to the reporter; whether it gets there changes nothing. -/
structure Event where
  (recipientKcSub subject message : String)

def handleTransitionStatus (rc : RequestContext) (a : Authz) (status : String) : Tx (Ticket × Option Event) := do
  let t ← getTicket rc.companyId rc.ticketId
  let (tier, isAssignee) ← .ofExcept (requireVisible rc a t "not authorized to view this ticket")
  let newStatus ← .ofExcept (requireTransition rc t tier isAssignee status)
  let updated ← updateTicketStatus rc.subject rc.companyId rc.ticketId t.status newStatus
  return (updated,
    if updated.reporterKcSub = rc.subject then none
    else some ⟨updated.reporterKcSub, "Ticket status changed: " ++ updated.title,
      "Ticket '" ++ updated.title ++ "' changed status: " ++ t.status.text ++ " -> " ++ status ++ "."⟩)

def assignTicket (companyId ticketId : Uuid) (assignee : Assignee) : Tx Ticket :=
  updateTicket companyId ticketId (fun row => { row with assignee := some assignee }) (.setAssignee ticketId assignee)

/-- The `INSERT` of `CreateTicket`; `id` is a new random id. -/
def createTicket (id companyId : Uuid) (title reporterKcSub : String) : Tx Unit :=
  .exec .insertTicket (fun _ => [id]) (fun _ => [id]) fun t =>
    if (t.ticket.get? id).isSome then .error (writeStoreError (.query "helpdesk: create ticket" "duplicate key"))
    else .ok ((), [.insertTicket id ⟨companyId, title, .opened, reporterKcSub, none⟩])

inductive Request where
  | transitionStatus (rc : RequestContext) (a : Authz) (status : String)
  | assignTicket (companyId ticketId : Uuid) (assignee : Assignee)
  | createTicket (id companyId : Uuid) (title reporterKcSub : String)

def prog : Request → Tx Unit
  | .transitionStatus rc a status => do
    let _ ← handleTransitionStatus rc a status
  | .assignTicket companyId ticketId assignee => do
    let _ ← assignTicket companyId ticketId assignee
  | .createTicket id companyId title reporterKcSub => createTicket id companyId title reporterKcSub

abbrev Machine := State Tables Write Uuid Stmt ApiError Request

/-! ## What a commit does -/

def Write.locks : Write → List Uuid
  | .insertTicket id _ | .setAssignee id _ | .setStatus id _ => [id]
  | .recordStatus _ => []

def SameTicket (c c' : Tables) (id : Uuid) : Prop := c'.ticket.get? id = c.ticket.get? id

inductive Effect (c : Tables) : Request → List Write → Prop
  | created {id companyId : Uuid} {title reporterKcSub : String} (hfree : c.ticket.get? id = none) :
      Effect c (.createTicket id companyId title reporterKcSub)
        [.insertTicket id ⟨companyId, title, .opened, reporterKcSub, none⟩]
  | assigned {companyId ticketId : Uuid} {assignee : Assignee} :
      Effect c (.assignTicket companyId ticketId assignee) [.setAssignee ticketId assignee]
  | moved {rc : RequestContext} {a : Authz} {status : String} {t : Ticket} {newStatus : Status}
      (hrow : c.ticket.get? rc.ticketId = some t) (hedge : (t.status, newStatus) ∈ validEdges) :
      Effect c (.transitionStatus rc a status)
        [.setStatus rc.ticketId newStatus, .recordStatus ⟨rc.subject, rc.ticketId, t.status, newStatus⟩]

def Tables.status? (t : Tables) (id : Uuid) : Option Status := (t.ticket.get? id).map Ticket.status

/-- The tickets that the transaction has read have the status they had. -/
def ReadsStand (tr : Trail Write Uuid Stmt) (c c' : Tables) : Prop :=
  ∀ id, .getTicket id ∈ tr.log → c'.status? id = c.status? id

/-- No commit changes the status of a ticket that another request has read and is still at work on. -/
def Undisturbed (s : Machine) : Action Request → Prop
  | .commit t => ∀ ss t' ss', s.sessions.get? t = some ss → s.sessions.get? t' = some ss' → t ≠ t' →
      (∀ e, ss'.rest ≠ .fail e) → ReadsStand ss'.trail s.committed (schema.view ss.trail.writes s.committed)
  | _ => True

def Relied (next : Option Stmt) (tr : Trail Write Uuid Stmt) (c c' : Tables) : Prop :=
  Rely SameTicket next tr c c' ∧ ReadsStand tr c c'

section Effects

variable {c c' : Tables} {r : Request} {ws : List Write} {tr : Trail Write Uuid Stmt}
  {fromStatus newStatus : Status} {status : String} {rc : RequestContext}

theorem get?_apply {w id} (h : id ∉ w.locks) : (c.apply w).ticket.get? id = c.ticket.get? id := by
  have hne : ∀ id', w.locks = [id'] → id ≠ id' := by
    rintro id' hlocks rfl
    exact h (hlocks ▸ mem_cons_self)
  cases w with
  | insertTicket id' t => exact (get?_insertMissing _ id).trans (if_neg (hne id' rfl))
  | setAssignee id' assignee
  | setStatus id' status => exact (get?_modify _ id).trans (if_neg (hne id' rfl))
  | recordStatus e => rfl

theorem get?_view {id} (h : ∀ w ∈ ws, id ∉ w.locks) : (schema.view ws c).ticket.get? id = c.ticket.get? id := by
  unfold Schema.view
  induction ws generalizing c with
  | nil => rfl
  | cons w ws ih =>
    rw [foldl_cons, ih fun w' hw' => h w' (mem_cons_of_mem w hw')]
    exact get?_apply (h w mem_cons_self)

theorem Effect.of_same (h : Effect c r ws) (hsame : ∀ w ∈ ws, ∀ k ∈ w.locks, SameTicket c c' k) :
    Effect c' r ws := by
  cases h with
  | created hfree =>
    have hid := hsame _ mem_cons_self _ mem_cons_self
    exact .created (Eq.trans hid hfree)
  | assigned => exact .assigned
  | moved hrow hedge =>
    have hid := hsame _ mem_cons_self _ mem_cons_self
    exact .moved (Eq.trans hid hrow) hedge

theorem locked_effect : Locked schema SameTicket Write.locks Effect where
  refl _ _ := rfl
  trans _ _ _ _ hab hbc := Eq.trans hbc hab
  stable _ _ _ _ := .of_same
  frame _ _ _ _ _ hfree := get?_view hfree

theorem relies : Relies schema SameTicket Undisturbed Relied where
  held _ _ _ _ hR := hR.1
  exec _ _ _ _ _ := ⟨fun _ _ => rfl, fun _ _ => rfl⟩
  commit _ _ := ⟨fun _ _ => rfl, fun _ _ => rfl⟩
  compatible s t ss t' ss' c hgood hget hget' hne hlive hsame hR := by
    have hreads := hgood ss t' ss' hget hget' hne hlive
    exact ⟨fun k hk => Eq.trans (hR.1 k hk) (hsame k hk), fun id hid => (hR.2 id hid).trans (hreads id hid)⟩

theorem findTicket_eq_ok {companyId ticketId t} (h : c.findTicket companyId ticketId = .ok t) :
    c.ticket.get? ticketId = some t := by
  unfold Tables.findTicket at h
  split at h
  · rename_i row hrow
    split at h
    · cases h
      exact hrow
    · cases h
  · cases h

theorem edgeTo_eq_some (h : edgeTo fromStatus status = some newStatus) : (fromStatus, newStatus) ∈ validEdges := by
  obtain ⟨e, he, rfl⟩ := map_eq_some_iff.mp h
  have hmatch : e.1 = fromStatus ∧ e.2.text = status := by simpa using find?_some he
  rw [← hmatch.1]
  exact mem_of_find?_eq_some he

theorem requireTransition_eq_ok {t tier isAssignee}
    (h : requireTransition rc t tier isAssignee status = .ok newStatus) :
    (t.status, newStatus) ∈ validEdges := by
  unfold requireTransition at h
  split at h
  · cases h
  rename_i hedge
  split at h
  · cases h
    exact edgeTo_eq_some hedge
  · cases h

theorem updateTicketStatus_wp {a} (hidle : tr.writes = []) (hread : .getTicket rc.ticketId ∈ tr.log)
    (hst : c.status? rc.ticketId = some fromStatus) (hedge : (fromStatus, newStatus) ∈ validEdges) :
    (updateTicketStatus rc.subject rc.companyId rc.ticketId fromStatus newStatus).wp schema Always Relied
      (fun _ => Done Write.locks Effect (.transitionStatus rc a status)) tr c := by
  unfold updateTicketStatus updateTicket recordAudit
  simp only [Prog.wp_bind, Prog.wp_pure]
  refine Prog.wp_exec fun c₁ updated new hR _ hans => ?_
  obtain ⟨t, hfind, heq⟩ := map_eq_ok.mp hans
  obtain ⟨rfl, rfl⟩ := Prod.mk.inj heq
  rw [view_of_idle hidle] at hfind
  have hrow := findTicket_eq_ok hfind
  -- the row is found with the status that was read
  have hsta := (hR.2 rc.ticketId hread).trans hst
  rw [Tables.status?, hrow] at hsta
  obtain rfl := Option.some.inj hsta
  refine Prog.wp_exec fun c₂ _ new hR _ hans => ?_
  cases hans
  have hsame : SameTicket c₁ c₂ rc.ticketId := hR.1 _ (mem_append_right _ mem_cons_self)
  rw [Trail.extend, Trail.extend, hidle]
  refine ⟨.moved (Eq.trans hsame hrow) hedge, fun w hw k hk => ?_⟩
  rcases mem_cons.mp hw with rfl | hw
  · cases mem_singleton.mp hk
    exact mem_append_left _ (mem_append_right _ mem_cons_self)
  · cases mem_singleton.mp hw
    cases hk

theorem prog_wp (r : Request) (c : Tables) :
    (prog r).wp schema Always Relied (fun _ => Done Write.locks Effect r) .start c := by
  cases r with
  | transitionStatus rc a status =>
    unfold prog handleTransitionStatus getTicket
    simp only [Prog.wp_bind, Prog.wp_pure]
    refine Prog.wp_read fun c₁ t _ _ hfind => Prog.wp_ofExcept fun seen _ => Prog.wp_ofExcept fun newStatus hnew => ?_
    have hst : c₁.status? rc.ticketId = some t.status := congrArg (Option.map _) (findTicket_eq_ok hfind)
    exact updateTicketStatus_wp rfl mem_cons_self hst (requireTransition_eq_ok hnew)
  | assignTicket companyId ticketId assignee =>
    unfold prog assignTicket updateTicket
    simp only [Prog.wp_bind, Prog.wp_pure]
    refine Prog.wp_exec fun c₁ updated new _ _ hans => ?_
    obtain ⟨t, _, heq⟩ := map_eq_ok.mp hans
    obtain ⟨rfl, rfl⟩ := Prod.mk.inj heq
    refine ⟨.assigned, fun w hw k hk => ?_⟩
    cases mem_singleton.mp hw
    exact mem_append_right _ hk
  | createTicket id companyId title reporterKcSub =>
    unfold prog createTicket
    refine Prog.wp_exec fun c₁ _ new _ _ hans => ?_
    obtain ⟨hfree, hans⟩ := ite_error_eq_ok.mp hans
    cases hans
    refine ⟨.created (not_isSome_iff_eq_none.mp hfree), fun w hw k hk => ?_⟩
    cases mem_singleton.mp hw
    exact mem_append_right _ hk

end Effects

/-! ## Lawful changes -/

/-- What a commit may do to the status of tickets and to their audit trail. -/
structure Lawful (_ : Request) (c c' : Tables) : Prop where
  edge : ∀ id t t', c.ticket.get? id = some t → c'.ticket.get? id = some t' → t'.status ≠ t.status →
    (t.status, t'.status) ∈ validEdges
  terminal : ∀ id t t', c.ticket.get? id = some t → c'.ticket.get? id = some t' → t.status = .closed →
    t'.status = .closed
  audited : ∃ new, c'.statusEvent = c.statusEvent ++ new ∧ ∀ e ∈ new, ∃ t t',
    c.ticket.get? e.ticketId = some t ∧ t.status = e.fromStatus ∧
      c'.ticket.get? e.ticketId = some t' ∧ t'.status = e.newStatus

section Lawful

variable {c c' : Tables} {r : Request} {ws : List Write}

theorem edge_closed {status} : (Status.closed, status) ∉ validEdges := by
  cases status <;> decide

theorem lawful_of_edges {new}
    (hedge : ∀ id t t', c.ticket.get? id = some t → c'.ticket.get? id = some t' → t'.status = t.status ∨
      (t.status, t'.status) ∈ validEdges)
    (heve : c'.statusEvent = c.statusEvent ++ new)
    (haud : ∀ e ∈ new, ∃ t t', c.ticket.get? e.ticketId = some t ∧ t.status = e.fromStatus ∧
      c'.ticket.get? e.ticketId = some t' ∧ t'.status = e.newStatus) :
    Lawful r c c' where
  edge id t t' ht ht' hne := (hedge id t t' ht ht').resolve_left hne
  terminal id t t' ht ht' hclo := by
    rcases hedge id t t' ht ht' with hsame | hedge
    · exact hsame.trans hclo
    · rw [hclo] at hedge
      exact (edge_closed hedge).elim
  audited := ⟨new, heve, haud⟩

theorem Effect.lawful (h : Effect c r ws) : Lawful r c (schema.view ws c) := by
  cases h with
  | created hfree =>
    refine lawful_of_edges (fun id' t t' ht ht' => .inl ?_) (append_nil _).symm fun e he => by cases he
    have hrow := (get?_insertMissing_of_none hfree _ id').symm.trans ht'
    split at hrow
    · rename_i heq
      cases (heq ▸ ht).symm.trans hfree
    · cases ht.symm.trans hrow
      rfl
  | assigned =>
    refine lawful_of_edges (fun id' t t' ht ht' => .inl ?_) (append_nil _).symm fun e he => by cases he
    have hrow := (get?_modify _ id').symm.trans ht'
    split at hrow
    · rename_i heq
      obtain ⟨t₀, ht₀, rfl⟩ := map_eq_some_iff.mp hrow
      cases (heq ▸ ht).symm.trans ht₀
      rfl
    · cases ht.symm.trans hrow
      rfl
  | moved hrow hedge =>
    rename_i rc a status t newStatus
    have hview : ∀ id, (schema.view [.setStatus rc.ticketId newStatus,
        .recordStatus ⟨rc.subject, rc.ticketId, t.status, newStatus⟩] c).ticket.get? id = _ :=
      fun id => get?_modify_of_some hrow _ id
    refine lawful_of_edges (fun id t₁ t₁' ht₁ ht₁' => ?_) rfl fun e he => ?_
    · rw [hview] at ht₁'
      split at ht₁'
      · rename_i heq
        cases ht₁'
        cases (heq ▸ ht₁).symm.trans hrow
        exact .inr hedge
      · cases ht₁.symm.trans ht₁'
        exact .inl rfl
    · cases mem_singleton.mp he
      exact ⟨t, _, hrow, rfl, (hview _).trans (if_pos rfl), rfl⟩

end Lawful

/-- In a run in which no commit changes the status of a ticket between the read of another request and its commit,
every commit changes statuses along the edges and audits the status it replaced. -/
theorem statusChanges_lawful {c₀ : Tables} {s s' : Machine} {a : Action Request}
    (hrun : Runs.Reach (step schema prog) Undisturbed (.start c₀) s) (ha : Undisturbed s a)
    (hstep : step schema prog s a = some s') : CommitsAs Lawful s a s' :=
  commitsAs_of_effect locked_effect relies prog_wp (fun _ _ _ heff => heff.lawful) hrun ha hstep

/-! ## A resolved ticket -/

def desk : Tables where
  ticket := Keyed.Table.empty.insertMissing "printer" ⟨"acme", "Printer", .resolved, "mia", none⟩
  agent := .empty
  statusEvent := []

def memberOnly : Authz := ⟨some false, some false, fun _ => some false, fun _ => some false⟩

def move (status : String) : Request := .transitionStatus ⟨"mia", "acme", "printer"⟩ memberOnly status

def reopening : List (Action Request) := [.begin 1 (move "open"), .exec 1, .exec 1, .exec 1]

theorem undisturbed_of_loneCommit (s : Machine) (a : Action Request) (h : s.loneCommit a = true) :
    Undisturbed s a := by
  cases a with
  | commit t =>
    intro _ t' _ _ hget' hne
    exact nomatch hget'.symm.trans (State.get?_of_loneCommit h hne.symm)
  | begin t r | exec t | rollback t => trivial

theorem statusChanges_lawful_reopening : ∃ s s', reopening.foldlM (step schema prog) (.start desk) = some s ∧
      step schema prog s (.commit 1) = some s' ∧ s'.committed.status? "printer" = some .opened ∧
      CommitsAs Lawful s (.commit 1) s' := by
  have hrun : (reopening.foldlM (step schema prog) (.start desk)).bind (fun s =>
      (step schema prog s (.commit 1)).map fun s' => (s.loneCommit (.commit 1), s'.committed.status? "printer")) =
      some (true, some .opened) := by decide +kernel
  obtain ⟨s, hs, hseen⟩ := bind_eq_some_iff.mp hrun
  obtain ⟨s', hs', hseen⟩ := map_eq_some_iff.mp hseen
  obtain ⟨hlone, hopen⟩ := Prod.mk.inj hseen
  have hreach : Runs.Reach (step schema prog) Undisturbed (.start desk) s := by
    refine Runs.reach_of_foldlM reopening hs fun a ha s => ?_
    simp only [reopening, mem_cons, not_mem_nil, or_false] at ha
    rcases ha with rfl | rfl | rfl | rfl <;> trivial
  exact ⟨s, s', hs, hs', hopen, statusChanges_lawful hreach (undisturbed_of_loneCommit s _ hlone) hs'⟩

def closedBetween : List (Action Request) :=
  [.begin 1 (move "open"), .exec 1, .begin 2 (move "closed"), .exec 2, .exec 2, .exec 2, .commit 2, .exec 1, .exec 1]

theorem closedBetween_reopens : ∃ s₁ s₂, closedBetween.foldlM (step schema prog) (.start desk) = some s₁ ∧
      step schema prog s₁ (.commit 1) = some s₂ ∧
      (s₁.committed.ticket.get? "printer").map Ticket.status = some .closed ∧
      (s₂.committed.ticket.get? "printer").map Ticket.status = some .opened ∧
      s₂.committed.statusEvent = [⟨"mia", "printer", .resolved, .closed⟩, ⟨"mia", "printer", .resolved, .opened⟩] ∧
      ¬ CommitsAs Lawful s₁ (.commit 1) s₂ := by
  have hrun : (closedBetween.foldlM (step schema prog) (.start desk)).map (fun s =>
      ((s.committed.ticket.get? "printer").map Ticket.status, (step schema prog s (.commit 1)).map fun s =>
        ((s.committed.ticket.get? "printer").map Ticket.status, s.committed.statusEvent))) =
      some (some .closed, some (some .opened,
        [⟨"mia", "printer", .resolved, .closed⟩, ⟨"mia", "printer", .resolved, .opened⟩])) := by
    decide +kernel
  obtain ⟨s₁, hs₁, hseen⟩ := map_eq_some_iff.mp hrun
  obtain ⟨hbef, hseen⟩ := Prod.mk.inj hseen
  obtain ⟨s₂, hs₂, hseen⟩ := map_eq_some_iff.mp hseen
  obtain ⟨hafter, heve⟩ := Prod.mk.inj hseen
  refine ⟨s₁, s₂, hs₁, hs₂, hbef, hafter, heve, fun hlaw => ?_⟩
  obtain ⟨r, tr, hget, _, _⟩ := step_commit hs₂
  obtain ⟨t, ht, hclo⟩ := map_eq_some_iff.mp hbef
  obtain ⟨t', ht', hopen⟩ := map_eq_some_iff.mp hafter
  cases hopen.symm.trans ((hlaw _ hget).terminal "printer" t t' ht ht' hclo)

end Kiban.Helpdesk
