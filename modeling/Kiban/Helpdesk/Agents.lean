import Kiban.Helpdesk.Store

/-!
# Agents that are not listed

The agent tier of a position's holder or of a group's members is a tuple of the authorizer, and the helpdesk lists the
bindings by an index of its own.  Making an agent writes the index first and takes the row out again when the tuple
cannot be written; removing one deletes the tuple first.  So a tuple never stands without its row, except for a binding
that is made a second time while the authorizer fails.
-/

namespace Kiban.Helpdesk

open Kiban.Org (ApiError)
open Fallible List Keyed.Table

/-! ## The index -/

/-- `INSERT … ON CONFLICT … DO UPDATE SET` the label -/
def Tables.recordRow (t : Tables) (companyId : Uuid) (target : Target) (label grantedBy : String) : Tables :=
  { t with
    agent := (t.agent.modify (companyId, target) fun a => { a with label }).insertMissing (companyId, target)
      ⟨label, grantedBy⟩ }

def Tables.recordAgent (t : Tables) (companyId memberId : Uuid) (kcSub grantedBy : String) : Tables :=
  t.recordRow companyId (.member memberId) kcSub grantedBy

def Tables.recordAgentForPosition (t : Tables) (companyId positionId : Uuid) (title grantedBy : String) : Tables :=
  t.recordRow companyId (.position positionId) title grantedBy

def Tables.recordAgentForGroup (t : Tables) (companyId groupId : Uuid) (title grantedBy : String) : Tables :=
  t.recordRow companyId (.group groupId) title grantedBy

def Tables.removeRow (t : Tables) (companyId : Uuid) (target : Target) : Except StoreError Tables :=
  if (t.agent.get? (companyId, target)).isSome then .ok { t with agent := t.agent.erase (companyId, target) }
  else .error .agentNotFound

def Tables.removeAgent (t : Tables) (companyId memberId : Uuid) : Except StoreError Tables :=
  t.removeRow companyId (.member memberId)

def Tables.removeAgentForPosition (t : Tables) (companyId positionId : Uuid) : Except StoreError Tables :=
  t.removeRow companyId (.position positionId)

def Tables.removeAgentForGroup (t : Tables) (companyId groupId : Uuid) : Except StoreError Tables :=
  t.removeRow companyId (.group groupId)

def Tables.listAgents (t : Tables) (companyId : Uuid) : List (Target × Agent) :=
  t.agent.rows.filterMap fun r => if r.1.1 = companyId then some (r.1.2, r.2) else none

def Assignee.target : Assignee → Target
  | .member memberId _ => .member memberId
  | .position positionId _ => .position positionId
  | .group groupId _ => .group groupId

/-- `CountOpenAssignedTickets`, `CountOpenAssignedTicketsForPosition` and `CountOpenAssignedTicketsForGroup` -/
def Tables.countOpenAssignedTickets (t : Tables) (companyId : Uuid) (target : Target) : Nat :=
  t.ticket.rows.countP fun r =>
    r.2.companyId = companyId ∧ r.2.assignee.map Assignee.target = some target ∧ r.2.status ≠ .closed

/-! ## The tuples -/

/-- `company_module:<companyId>/helpdesk#editor @ <subject>` -/
def agentTuple (companyId : Uuid) (subjectType subjectId subjectRelation : String) : Tuple :=
  ⟨"company_module", companyId ++ "/helpdesk", "editor", subjectType, subjectId, subjectRelation⟩

def memberTuple (companyId : Uuid) (kcSub : String) : Tuple := agentTuple companyId "user" kcSub ""

/-- What a tier can be bound to besides a member. -/
inductive Kind where
  | position
  | group
deriving DecidableEq

def Kind.noun : Kind → String
  | .position => "position"
  | .group => "group"

def Kind.field (k : Kind) : String := k.noun ++ "Id"

def Kind.target : Kind → Uuid → Target
  | .position => .position
  | .group => .group

def Kind.record : Kind → Tables → Uuid → Uuid → String → String → Tables
  | .position => Tables.recordAgentForPosition
  | .group => Tables.recordAgentForGroup

def Kind.remove : Kind → Tables → Uuid → Uuid → Except StoreError Tables
  | .position => Tables.removeAgentForPosition
  | .group => Tables.removeAgentForGroup

def Kind.tuple (companyId : Uuid) : Kind → Uuid → Tuple
  | .position, positionId => agentTuple companyId "position" positionId "holder"
  | .group, groupId => agentTuple companyId "group" groupId "member"

/-! ## Requests -/

structure Desk where
  tables : Tables
  tuple : List Tuple

structure Owned where
  companyId : Uuid
  title : String

/-- How the calls of one request go.  A call that fails has no effect. -/
structure Outcomes where
  -- the subject of a member's user, empty without one
  getMember : Uuid → Option String
  getPosition : Uuid → Option Owned
  getGroup : Uuid → Option Owned
  -- the grant or revoke
  authzOk : Bool
  -- the transactions on the index: the record or removal, and the removal after a failed grant
  (stored compensated counted : Bool)

inductive Response where
  | created (target : Target)
  | noContent
  | error (e : ApiError)

structure Caller where
  subject : String
  companyId : Uuid

def Outcomes.lookup (o : Outcomes) : Kind → Uuid → Option Owned
  | .position => o.getPosition
  | .group => o.getGroup

def Desk.grant (s : Desk) (t : Tuple) : Desk := { s with tuple := t :: s.tuple }

def Desk.revoke (s : Desk) (t : Tuple) : Desk := { s with tuple := s.tuple.filter (· ≠ t) }

def storeFailure : ApiError := writeStoreError (.query "helpdesk: commit" "connection lost")

def resolveBound (k : Kind) (o : Outcomes) (rc : Caller) (raw : String) : Except ApiError (Uuid × String) := do
  let id ← parseUUID raw k.field
  match o.lookup k id with
  | none => .error (unprocessable k.field (k.field ++ " does not resolve to a real " ++ k.noun))
  | some owned =>
    if owned.companyId ≠ rc.companyId then
      .error (unprocessable k.field (k.field ++ " must belong to this company"))
    else .ok (id, owned.title)

/-- Index row first, tuple second; the row must not survive a failed grant. -/
def bindAgent (k : Kind) (o : Outcomes) (rc : Caller) (id title : String) (s : Desk) : Desk × Response :=
  if o.stored then
    let recorded := { s with tables := k.record s.tables rc.companyId id title rc.subject }
    if o.authzOk then (recorded.grant (k.tuple rc.companyId id), .created (k.target id))
    else
      let failure := Response.error (unavailable "could not grant the agent tier")
      if o.compensated then
        match k.remove recorded.tables rc.companyId id with
        | .ok tables => ({ recorded with tables }, failure)
        | .error _ => (recorded, failure)
      else (recorded, failure)
  else (s, .error storeFailure)

def makeBoundAgent (k : Kind) (o : Outcomes) (rc : Caller) (raw : String) (s : Desk) : Desk × Response :=
  match resolveBound k o rc raw with
  | .error e => (s, .error e)
  | .ok (id, title) => bindAgent k o rc id title s

def handleMakePositionAgent : Outcomes → Caller → String → Desk → Desk × Response := makeBoundAgent .position

def handleMakeGroupAgent : Outcomes → Caller → String → Desk → Desk × Response := makeBoundAgent .group

/-- The member's tuple is granted before the row is recorded. -/
def handleMakeMemberAgent (o : Outcomes) (rc : Caller) (raw : String) (s : Desk) : Desk × Response :=
  match parseUUID raw "memberId" with
  | .error e => (s, .error e)
  | .ok memberId =>
    match (o.getMember memberId).filter (· ≠ "") with
    | none => (s, .error (unprocessable "memberId" "memberId has no linked user to make an agent"))
    | some kcSub =>
      if o.authzOk then
        let granted := s.grant (memberTuple rc.companyId kcSub)
        if o.stored then
          ({ granted with tables := granted.tables.recordAgent rc.companyId memberId kcSub rc.subject },
            .created (.member memberId))
        else (granted, .error storeFailure)
      else (s, .error (unavailable "could not grant the agent tier"))

structure MakeAgentRequest where
  (memberId positionId groupId : String)

def exactlyOne (vals : List String) : Bool := vals.countP (· ≠ "") = 1

def handleMakeAgent (o : Outcomes) (rc : Caller) (req : MakeAgentRequest) (s : Desk) : Desk × Response :=
  if ¬ exactlyOne [req.memberId, req.positionId, req.groupId] then
    (s, .error (unprocessable "memberId,positionId,groupId"
      "exactly one of memberId, positionId, or groupId is required"))
  else if req.memberId ≠ "" then handleMakeMemberAgent o rc req.memberId s
  else if req.positionId ≠ "" then handleMakePositionAgent o rc req.positionId s
  else handleMakeGroupAgent o rc req.groupId s

/-- Refused while open tickets are assigned to the target. -/
def requireUnassigned (noun : String) (o : Outcomes) (rc : Caller) (target : Target) (s : Desk) :
    Except ApiError Unit :=
  if ¬ o.counted then .error storeFailure
  else
    let openCount := s.tables.countOpenAssignedTickets rc.companyId target
    if openCount > 0 then
      .error ⟨422, "VALIDATION_FAILED",
        "this " ++ noun ++ " is currently assigned open tickets — reassign them before removing the agent tier",
        [("field", noun ++ "Id"), ("openTicketCount", toString openCount)]⟩
    else .ok ()

/-- The last step of a removal, with what the store makes of the rows. -/
def finishRemoval (o : Outcomes) (removed : Except StoreError Tables) (s : Desk) : Desk × Response :=
  if o.stored then
    match removed with
    | .ok tables => ({ s with tables }, .noContent)
    | .error e => (s, .error (writeStoreError e))
  else (s, .error storeFailure)

def removeBoundAgent (k : Kind) (o : Outcomes) (rc : Caller) (raw : String) (s : Desk) : Desk × Response :=
  match parseUUID raw k.field with
  | .error e => (s, .error e)
  | .ok id =>
    match requireUnassigned k.noun o rc (k.target id) s with
    | .error e => (s, .error e)
    | .ok () =>
      if o.authzOk then finishRemoval o (k.remove s.tables rc.companyId id) (s.revoke (k.tuple rc.companyId id))
      else (s, .error (unavailable "could not revoke the agent tier"))

def handleRemoveAgentForPosition : Outcomes → Caller → String → Desk → Desk × Response := removeBoundAgent .position

def handleRemoveAgentForGroup : Outcomes → Caller → String → Desk → Desk × Response := removeBoundAgent .group

def handleRemoveAgent (o : Outcomes) (rc : Caller) (raw : String) (s : Desk) : Desk × Response :=
  match parseUUID raw "memberId" with
  | .error e => (s, .error e)
  | .ok memberId =>
    match o.getMember memberId with
    | none => (s, .error ⟨404, "NOT_FOUND", "member not found", []⟩)
    | some kcSub =>
      match requireUnassigned "member" o rc (.member memberId) s with
      | .error e => (s, .error e)
      | .ok () =>
        let removed := s.tables.removeAgent rc.companyId memberId
        if kcSub = "" then finishRemoval o removed s
        else if o.authzOk then finishRemoval o removed (s.revoke (memberTuple rc.companyId kcSub))
        else (s, .error (unavailable "could not revoke the agent tier"))

inductive AgentRequest where
  | makeAgent (o : Outcomes) (rc : Caller) (req : MakeAgentRequest)
  | removeAgent (o : Outcomes) (rc : Caller) (memberId : String)
  | removeAgentForPosition (o : Outcomes) (rc : Caller) (positionId : String)
  | removeAgentForGroup (o : Outcomes) (rc : Caller) (groupId : String)
  -- whatever the requests on tickets make of them
  | tickets (ticket : Keyed.Table Uuid Ticket)

def Desk.serve (s : Desk) : AgentRequest → Desk × Response
  | .makeAgent o rc req => handleMakeAgent o rc req s
  | .removeAgent o rc memberId => handleRemoveAgent o rc memberId s
  | .removeAgentForPosition o rc positionId => handleRemoveAgentForPosition o rc positionId s
  | .removeAgentForGroup o rc groupId => handleRemoveAgentForGroup o rc groupId s
  | .tickets ticket => ({ s with tables := { s.tables with ticket } }, .noContent)

def Desk.step (s : Desk) (r : AgentRequest) : Desk := (s.serve r).1

/-! ## Every binding is listed -/

def Desk.Listed (s : Desk) : Prop :=
  ∀ (k : Kind) companyId id, k.tuple companyId id ∈ s.tuple → ∃ a, (k.target id, a) ∈ s.tables.listAgents companyId

/-- A binding that exists is made again, the grant fails and the row is taken out. -/
def FailsAgain (k : Kind) (o : Outcomes) (rc : Caller) (raw : String) (s : Desk) : Prop :=
  ∃ id title, resolveBound k o rc raw = .ok (id, title) ∧ o.stored = true ∧ o.authzOk = false ∧
    o.compensated = true ∧ k.tuple rc.companyId id ∈ s.tuple

def Desk.failsAgain (s : Desk) : AgentRequest → Prop
  | .makeAgent o rc req =>
    exactlyOne [req.memberId, req.positionId, req.groupId] = true ∧ req.memberId = "" ∧
      if req.positionId ≠ "" then FailsAgain .position o rc req.positionId s
      else FailsAgain .group o rc req.groupId s
  | _ => False

section Proofs

variable {s : Desk} {t t' : Tables} {companyId id : Uuid} {target : Target} {k : Kind} {o : Outcomes} {rc : Caller}

/-- The same with the rows as they are stored. -/
def Desk.Indexed (s : Desk) : Prop :=
  ∀ (k : Kind) companyId id, k.tuple companyId id ∈ s.tuple →
    (s.tables.agent.get? (companyId, k.target id)).isSome = true

theorem mem_listAgents {a} : (target, a) ∈ t.listAgents companyId ↔ t.agent.get? (companyId, target) = some a := by
  rw [get?_eq_some_iff]
  unfold Tables.listAgents
  constructor
  · intro h
    obtain ⟨r, hr, hif⟩ := mem_filterMap.mp h
    obtain ⟨hco, heq⟩ := Option.ite_none_right_eq_some.mp hif
    subst hco
    cases heq
    exact hr
  · intro h
    exact mem_filterMap.mpr ⟨_, h, if_pos rfl⟩

theorem listed_iff : s.Listed ↔ s.Indexed := by
  unfold Desk.Listed Desk.Indexed
  simp only [mem_listAgents, Option.isSome_iff_exists]

theorem record_eq (k : Kind) (t : Tables) (companyId id : Uuid) (title grantedBy : String) :
    k.record t companyId id title grantedBy = t.recordRow companyId (k.target id) title grantedBy := by
  cases k with
  | position | group => rfl

theorem remove_eq (k : Kind) (t : Tables) (companyId id : Uuid) :
    k.remove t companyId id = t.removeRow companyId (k.target id) := by
  cases k with
  | position | group => rfl

theorem target_inj {k k' : Kind} {id id' : Uuid} (h : k.target id = k'.target id') : k = k' ∧ id = id' := by
  cases k <;> cases k' <;> cases h <;> exact ⟨rfl, rfl⟩

theorem agentTuple_inj {companyId companyId' t t' i i' r r'}
    (h : agentTuple companyId t i r = agentTuple companyId' t' i' r') :
    companyId = companyId' ∧ t = t' ∧ i = i' := by
  unfold agentTuple at h
  simp only [Tuple.mk.injEq, true_and] at h
  exact ⟨String.append_left_inj _ |>.mp h.1, h.2.1, h.2.2.1⟩

theorem tuple_inj {k k' : Kind} {companyId companyId' id id' : Uuid}
    (h : k.tuple companyId id = k'.tuple companyId' id') :
    k = k' ∧ companyId = companyId' ∧ id = id' := by
  cases k with
  | position =>
    cases k' with
    | position =>
      obtain ⟨hco, _, hid⟩ := agentTuple_inj h
      exact ⟨rfl, hco, hid⟩
    | group => exact absurd (agentTuple_inj h).2.1 (by decide)
  | group =>
    cases k' with
    | position => exact absurd (agentTuple_inj h).2.1 (by decide)
    | group =>
      obtain ⟨hco, _, hid⟩ := agentTuple_inj h
      exact ⟨rfl, hco, hid⟩

theorem memberTuple_ne (k : Kind) {companyId companyId' id kcSub} :
    k.tuple companyId id ≠ memberTuple companyId' kcSub := by
  intro h
  cases k with
  | position | group => exact absurd (agentTuple_inj h).2.1 (by decide)

theorem isSome_recordRow {label grantedBy} (key : Uuid × Target) :
    ((t.recordRow companyId target label grantedBy).agent.get? key).isSome = true ↔
      key = (companyId, target) ∨ (t.agent.get? key).isSome = true := by
  unfold Tables.recordRow
  rw [get?_insertMissing]
  split
  · rename_i hkey
    exact iff_of_true rfl (.inl hkey)
  · rename_i hkey
    rw [isSome_get?_modify]
    exact (or_iff_right hkey).symm

theorem removeRow_eq_ok (h : t.removeRow companyId target = .ok t') (key : Uuid × Target) :
    t'.agent.get? key = if key = (companyId, target) then none else t.agent.get? key := by
  unfold Tables.removeRow at h
  split at h
  · cases h
    exact get?_erase key
  · cases h

theorem Desk.Indexed.mono {s' : Desk} (h : s.Indexed) (htuple : ∀ u ∈ s'.tuple, u ∈ s.tuple)
    (hrow : ∀ key, (s.tables.agent.get? key).isSome = true → (s'.tables.agent.get? key).isSome = true) :
    s'.Indexed :=
  fun k companyId id hin => hrow _ (h k companyId id (htuple _ hin))

theorem Desk.Indexed.remove (h : s.Indexed) (hrem : s.tables.removeRow companyId target = .ok t')
    (hgone : ∀ (k : Kind) id, k.target id = target → k.tuple companyId id ∉ s.tuple) :
    Desk.Indexed { s with tables := t' } := by
  intro k companyId' id hin
  change (t'.agent.get? _).isSome = true
  rw [removeRow_eq_ok hrem]
  split
  · rename_i hkey
    obtain ⟨rfl, htgt⟩ := Prod.mk.inj hkey
    exact absurd hin (hgone k id htgt)
  · exact h k companyId' id hin

theorem indexed_bindAgent_iff (h : s.Indexed) (id title : String) : (bindAgent k o rc id title s).1.Indexed ↔
      ¬ (o.stored = true ∧ o.authzOk = false ∧ o.compensated = true ∧ k.tuple rc.companyId id ∈ s.tuple) := by
  have hrec : Desk.Indexed { s with tables := k.record s.tables rc.companyId id title rc.subject } := by
    refine h.mono (fun _ hin => hin) fun key hkey => ?_
    rw [record_eq]
    exact (isSome_recordRow key).mpr (.inr hkey)
  have hrow : ((k.record s.tables rc.companyId id title rc.subject).agent.get? (rc.companyId, k.target id)).isSome =
      true := by
    rw [record_eq]
    exact (isSome_recordRow _).mpr (.inl rfl)
  unfold bindAgent
  by_cases hsto : o.stored = true
  · rw [if_pos hsto]
    dsimp only
    by_cases hok : o.authzOk = true
    · rw [if_pos hok]
      refine iff_of_true ?_ (by simp [hok])
      intro k' companyId' id' hin
      rcases mem_cons.mp hin with heq | hin
      · obtain ⟨rfl, rfl, rfl⟩ := tuple_inj heq
        exact hrow
      · exact hrec k' companyId' id' hin
    · rw [if_neg hok]
      by_cases hcom : o.compensated = true
      · rw [if_pos hcom, remove_eq]
        have hrem : Tables.removeRow (k.record s.tables rc.companyId id title rc.subject) rc.companyId
            (k.target id) = .ok _ := if_pos hrow
        rw [hrem]
        dsimp only
        have hfail : o.authzOk = false := Bool.eq_false_iff.mpr hok
        simp only [hsto, hcom, hfail, true_and]
        constructor
        · intro hind hin
          have hgone := hind k rc.companyId id hin
          dsimp only at hgone
          rw [removeRow_eq_ok hrem, if_pos rfl] at hgone
          cases hgone
        · intro hfree
          refine hrec.remove hrem fun k' id' htgt => ?_
          obtain ⟨rfl, rfl⟩ := target_inj htgt
          exact hfree
      · rw [if_neg hcom]
        exact iff_of_true hrec (by simp [hcom])
  · rw [if_neg hsto]
    exact iff_of_true h (by simp [hsto])

theorem indexed_makeBoundAgent_iff (h : s.Indexed) (raw : String) :
    (makeBoundAgent k o rc raw s).1.Indexed ↔ ¬ FailsAgain k o rc raw s := by
  unfold makeBoundAgent FailsAgain
  cases hres : resolveBound k o rc raw with
  | error e => exact iff_of_true h (by simp)
  | ok r =>
    rw [show (match (Except.ok r : Except ApiError (Uuid × String)) with
      | .error e => (s, Response.error e)
      | .ok (id, title) => bindAgent k o rc id title s) = bindAgent k o rc r.1 r.2 s from rfl,
      indexed_bindAgent_iff h]
    simp only [Except.ok.injEq]
    refine not_congr ⟨fun hfails => ⟨r.1, r.2, rfl, hfails⟩, ?_⟩
    rintro ⟨id, title, rfl, hfails⟩
    exact hfails

theorem Desk.Indexed.grant_member (h : s.Indexed) {kcSub} : (s.grant (memberTuple rc.companyId kcSub)).Indexed := by
  intro k companyId id hin
  rcases mem_cons.mp hin with heq | hin
  · exact absurd heq (memberTuple_ne k)
  · exact h k companyId id hin

theorem Desk.Indexed.revoke (h : s.Indexed) (u : Tuple) : (s.revoke u).Indexed :=
  h.mono (fun _ hin => mem_of_mem_filter hin) fun _ hrow => hrow

theorem notMem_revoke (u : Tuple) : u ∉ (s.revoke u).tuple := by
  intro hin
  exact of_decide_eq_true (List.mem_filter.mp hin).2 rfl

theorem Desk.Indexed.finishRemoval (h : s.Indexed) (hgone : ∀ (k : Kind) id, k.target id = target →
    k.tuple companyId id ∉ s.tuple) :
    (finishRemoval o (s.tables.removeRow companyId target) s).1.Indexed := by
  unfold Helpdesk.finishRemoval
  split
  · cases hrem : s.tables.removeRow companyId target with
    | error e => exact h
    | ok t' => exact h.remove hrem hgone
  · exact h

theorem indexed_makeMemberAgent (h : s.Indexed) (raw : String) : (handleMakeMemberAgent o rc raw s).1.Indexed := by
  unfold handleMakeMemberAgent
  split
  · exact h
  split
  · exact h
  split
  · dsimp only
    split
    · refine h.grant_member.mono (fun _ hin => hin) fun key hkey => ?_
      exact (isSome_recordRow key).mpr (.inr hkey)
    · exact h.grant_member
  · exact h

theorem indexed_removeBoundAgent (h : s.Indexed) (raw : String) : (removeBoundAgent k o rc raw s).1.Indexed := by
  unfold removeBoundAgent
  split
  · exact h
  rename_i id _
  split
  · exact h
  split
  · rw [remove_eq]
    refine (h.revoke (k.tuple rc.companyId id)).finishRemoval fun k' id' htgt => ?_
    obtain ⟨rfl, rfl⟩ := target_inj htgt
    exact notMem_revoke _
  · exact h

theorem indexed_removeAgent (h : s.Indexed) (raw : String) : (handleRemoveAgent o rc raw s).1.Indexed := by
  have hmb : ∀ (k : Kind) id memberId, k.target id ≠ .member memberId := by
    intro k id memberId
    cases k with
    | position | group => simp [Kind.target]
  unfold handleRemoveAgent
  split
  · exact h
  split
  · exact h
  split
  · exact h
  dsimp only
  split
  · exact h.finishRemoval fun k id htgt => absurd htgt (hmb k id _)
  · split
    · exact (h.revoke _).finishRemoval fun k id htgt => absurd htgt (hmb k id _)
    · exact h

theorem indexed_makeAgent_iff (h : s.Indexed) (req : MakeAgentRequest) :
    (handleMakeAgent o rc req s).1.Indexed ↔ ¬ s.failsAgain (.makeAgent o rc req) := by
  unfold handleMakeAgent
  simp only [Desk.failsAgain]
  by_cases hone : exactlyOne [req.memberId, req.positionId, req.groupId] = true
  · rw [if_neg (not_not.mpr hone)]
    by_cases hmb : req.memberId = ""
    · rw [if_neg (not_not.mpr hmb), and_iff_right hone, and_iff_right hmb]
      split
      · exact indexed_makeBoundAgent_iff h _
      · exact indexed_makeBoundAgent_iff h _
    · rw [if_pos hmb]
      exact iff_of_true (indexed_makeMemberAgent h _) fun hfails => hmb hfails.2.1
  · rw [if_pos hone]
    exact iff_of_true h fun hfails => hone hfails.1

theorem indexed_step_iff (s : Desk) (r : AgentRequest) (h : s.Indexed) : (s.step r).Indexed ↔ ¬ s.failsAgain r := by
  cases r with
  | makeAgent o rc req => exact indexed_makeAgent_iff h req
  | removeAgent o rc memberId => exact iff_of_true (indexed_removeAgent h memberId) id
  | removeAgentForPosition o rc positionId => exact iff_of_true (indexed_removeBoundAgent h positionId) id
  | removeAgentForGroup o rc groupId => exact iff_of_true (indexed_removeBoundAgent h groupId) id
  | tickets ticket => exact iff_of_true (h.mono (fun _ hin => hin) fun _ hrow => hrow) id

end Proofs

/-- Along a sequence of requests every bound position and group is listed exactly when no request that makes a
binding again fails at the authorizer. -/
theorem bindings_listed_iff {s₀ : Desk} (h₀ : s₀.Listed) (rs : List AgentRequest) :
    (∀ pre post, rs = pre ++ post → (pre.foldl Desk.step s₀).Listed) ↔
      ∀ pre r post, rs = pre ++ r :: post → ¬ (pre.foldl Desk.step s₀).failsAgain r := by
  simp only [listed_iff] at h₀ ⊢
  exact Runs.foldl_all_iff h₀ indexed_step_iff rs

/-! ## A front desk -/

def emptyDesk : Desk := ⟨⟨.empty, .empty, []⟩, []⟩

theorem listed_emptyDesk : emptyDesk.Listed := fun _ _ _ hin => by cases hin

def frontDesk : Uuid := "00000000-0000-0000-0000-00000000000f"

def answers (authzOk : Bool) : Outcomes where
  getMember _ := none
  getPosition _ := some ⟨"acme", "Front desk"⟩
  getGroup _ := none
  authzOk := authzOk
  stored := true
  compensated := true
  counted := true

def bindFrontDesk (authzOk : Bool) : AgentRequest :=
  .makeAgent (answers authzOk) ⟨"admin", "acme"⟩ ⟨"", frontDesk, ""⟩

def boundOnce : List AgentRequest :=
  [bindFrontDesk false, bindFrontDesk true, .removeAgentForPosition (answers true) ⟨"admin", "acme"⟩ frontDesk]

theorem bindings_listed_boundOnce :
    emptyDesk.Listed ∧ ((∀ pre post, boundOnce = pre ++ post → (pre.foldl Desk.step emptyDesk).Listed) ↔
      ∀ pre r post, boundOnce = pre ++ r :: post → ¬ (pre.foldl Desk.step emptyDesk).failsAgain r) :=
  ⟨listed_emptyDesk, bindings_listed_iff listed_emptyDesk boundOnce⟩

/-- Bound, and bound again while the authorizer is down. -/
theorem boundTwice_notListed : emptyDesk.Listed ∧ Kind.tuple "acme" .position frontDesk ∈
        ([bindFrontDesk true, bindFrontDesk false].foldl Desk.step emptyDesk).tuple ∧
      ([bindFrontDesk true, bindFrontDesk false].foldl Desk.step emptyDesk).tables.listAgents "acme" = [] ∧
      ¬ ([bindFrontDesk true, bindFrontDesk false].foldl Desk.step emptyDesk).Listed := by
  have htuple : Kind.tuple "acme" .position frontDesk ∈
      ([bindFrontDesk true, bindFrontDesk false].foldl Desk.step emptyDesk).tuple := by decide +kernel
  have hnone : ([bindFrontDesk true, bindFrontDesk false].foldl Desk.step emptyDesk).tables.listAgents "acme" =
      [] := by decide +kernel
  refine ⟨listed_emptyDesk, htuple, hnone, fun hlis => ?_⟩
  obtain ⟨a, ha⟩ := hlis .position "acme" frontDesk htuple
  rw [hnone] at ha
  cases ha

end Kiban.Helpdesk
