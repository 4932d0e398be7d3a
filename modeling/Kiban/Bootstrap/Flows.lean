import Mathlib.Logic.Function.Basic
import Kiban.Lib.Fallible

/-!
# The MFA step of the authentication flows

A flow is a tree of executions; Keycloak lists it depth first, with a level number.  The checks see the list only: the
authenticator may stand in a subflow that a login does not run.
-/

namespace Kiban.Bootstrap

open Fallible List

def browserFlowAlias : String := "kiban browser"
def directGrantFlowAlias : String := "kiban direct grant"
def builtinDirectGrantAlias : String := "direct grant"
def mfaAuthenticatorID : String := "kiban-local-mfa-setup"

structure Execution where
  (id requirement providerID displayName : String)

/-- An execution and, if it is a subflow, what is in it. -/
inductive FlowNode where
  | mk (execution : Execution) (children : List FlowNode)

abbrev Flow := List FlowNode

def FlowNode.execution : FlowNode → Execution
  | mk e _ => e

def FlowNode.children : FlowNode → Flow
  | mk _ cs => cs

structure FlowExecutionRep extends Execution where
  level : Nat

mutual
def FlowNode.listing (level : Nat) : FlowNode → List FlowExecutionRep
  | .mk e cs => ⟨e, level⟩ :: listing (level + 1) cs
def listing (level : Nat) : Flow → List FlowExecutionRep
  | [] => []
  | n :: ns => n.listing level ++ listing level ns
end

structure FlowRealm where
  (browserFlow directGrantFlow : String)
  flows : String → Option Flow

def FlowRealm.executions (r : FlowRealm) (flowAlias : String) : Except String (List FlowExecutionRep) :=
  match r.flows flowAlias with
  | some flow => .ok (listing 0 flow)
  | none => .error "HTTP 404"

/-! ## The browser flow -/

variable (executions : List FlowExecutionRep)

def mixes : Bool :=
  executions.any (·.requirement = "REQUIRED") && executions.any (·.requirement = "ALTERNATIVE")

def mixedNames : String :=
  let names := executions.map fun ex =>
    (if ex.providerID = "" then ex.displayName else ex.providerID) ++ "=" ++ ex.requirement
  "[" ++ " ".intercalate (names.mergeSort (· ≤ ·)) ++ "]"

-- which of several mixed levels is reported is up to the order of a Go map
def verifyBrowserFlowStructure : Except String Unit :=
  match executions.find? fun ex => mixes (executions.filter (·.level = ex.level)) with
  | none => .ok ()
  | some ex => .error ("level " ++ toString ex.level ++ " mixes REQUIRED and ALTERNATIVE executions (invalid — Keycloak " ++
      "discards the ALTERNATIVE ones): " ++ mixedNames (executions.filter (·.level = ex.level)))

def findExecution (providerID : String) : Option FlowExecutionRep :=
  executions.find? (·.providerID = providerID)

section Source

-- `%q`, and how the calls of a run end, in the order in which they are made
variable (quote : String → String) (answer : Nat → Except String Unit) (r : FlowRealm)

def verifyMFAFlowWiring : Except String Unit := do
  answer 0
  if r.browserFlow ≠ browserFlowAlias then
    throw ("realm browserFlow = " ++ quote r.browserFlow ++ " after reconciliation, want " ++ quote browserFlowAlias)
  else
    let executions ← (do answer 1; r.executions browserFlowAlias).mapError
      ("read " ++ quote browserFlowAlias ++ " flow executions: " ++ ·)
    (verifyBrowserFlowStructure executions).mapError fun err =>
      "realm: " ++ quote browserFlowAlias ++ " flow structure: " ++ err ++ " (repair: `make dev-clean && make dev` " ++
        "to re-import the corrected infra/keycloak-build/realm-kiban.json, or fix the live flow manually in the admin console)"
    match findExecution executions mfaAuthenticatorID with
    | none => throw ("authenticator " ++ quote mfaAuthenticatorID ++ " not found in flow " ++ quote browserFlowAlias ++
        " executions — MFA setup enforcement is not wired (manual realm repair needed; this step does not create " ++
        "authentication flows from scratch)")
    | some ex =>
      if ex.requirement ≠ "REQUIRED" then
        throw ("authenticator " ++ quote mfaAuthenticatorID ++ " wired into " ++ quote browserFlowAlias ++
          " with requirement " ++ quote ex.requirement ++ ", want REQUIRED")
      else return ()

/-! ## The direct grant -/

mutual
def FlowNode.setRequirement (id requirement : String) : FlowNode → FlowNode
  | .mk e cs => .mk (if e.id = id then { e with requirement := requirement } else e) (setRequirement id requirement cs)
def setRequirement (id requirement : String) : Flow → Flow
  | [] => []
  | n :: ns => n.setRequirement id requirement :: setRequirement id requirement ns
end

/-- A copy of the built-in flow, where there is none yet. -/
def directGrantBase : Except String (Bool × Flow) := do
  (answer 0).mapError ("list flows: " ++ ·)
  match r.flows directGrantFlowAlias with
  | some flow => return (false, flow)
  | none =>
    (do
      answer 1
      match r.flows builtinDirectGrantAlias with
      | some flow => return (true, flow)
      | none => throw "HTTP 404").mapError ("copy " ++ quote builtinDirectGrantAlias ++ " to " ++ quote directGrantFlowAlias ++ ": " ++ ·)

/-- Keycloak makes the execution, disabled and at the end of the flow. -/
def added (newID : String) (flow : Flow) : Flow := flow ++ [.mk ⟨newID, "DISABLED", mfaAuthenticatorID, ""⟩ []]

def directGrantStep (newID : String) (changed : Bool) (flow : Flow) : Except String (Bool × Flow × FlowExecutionRep) :=
  match findExecution (listing 0 flow) mfaAuthenticatorID with
  | some mfa => return (changed, flow, mfa)
  | none => do
    (answer 3).mapError ("add " ++ quote mfaAuthenticatorID ++ " to " ++ quote directGrantFlowAlias ++ ": " ++ ·)
    (answer 4).mapError ("re-read " ++ quote directGrantFlowAlias ++ " flow executions: " ++ ·)
    match findExecution (listing 0 (added newID flow)) mfaAuthenticatorID with
    | some mfa => return (true, added newID flow, mfa)
    | none => throw ("authenticator " ++ quote mfaAuthenticatorID ++ " not present in " ++ quote directGrantFlowAlias ++
        " after adding it")

def requireStep (changed : Bool) (flow : Flow) (mfa : FlowExecutionRep) : Except String (Bool × Flow) :=
  if mfa.requirement ≠ "REQUIRED" then do
    (answer 5).mapError ("set " ++ quote mfaAuthenticatorID ++ " REQUIRED in " ++ quote directGrantFlowAlias ++ ": " ++ ·)
    return (true, setRequirement mfa.id "REQUIRED" flow)
  else return (changed, flow)

def bindFlow (changed : Bool) (flow : Flow) : Except String (Bool × FlowRealm) := do
  answer 6
  let flows := Function.update r.flows directGrantFlowAlias (some flow)
  if r.directGrantFlow ≠ directGrantFlowAlias then do
    (answer 7).mapError ("bind realm directGrantFlow: " ++ ·)
    return (true, { r with flows := flows, directGrantFlow := directGrantFlowAlias })
  else return (changed, { r with flows := flows })

def reconcileDirectGrantFlow (newID : String) : Except String (Bool × FlowRealm) := do
  let (changed, flow) ← directGrantBase quote answer r
  (answer 2).mapError ("read " ++ quote directGrantFlowAlias ++ " flow executions: " ++ ·)
  let (changed, flow, mfa) ← directGrantStep quote answer newID changed flow
  let (changed, flow) ← requireStep quote answer changed flow mfa
  bindFlow answer r changed flow

end Source

/-! ## What a login runs -/

/-- The executions of one successful login: whatever is required runs when its subflow does, and what is not may run
or not. -/
inductive Runs : Flow → List Execution → Prop
  | nil : Runs [] []
  | run {e : Execution} {cs ns : Flow} {inner rest : List Execution} :
    Runs cs inner → Runs ns rest → Runs (.mk e cs :: ns) (e :: inner ++ rest)
  | skip {e : Execution} {cs ns : Flow} {rest : List Execution} :
    e.requirement ≠ "REQUIRED" → Runs ns rest → Runs (.mk e cs :: ns) rest

def Enforces (flow : Flow) : Prop := ∀ run, Runs flow run → ∃ e ∈ run, e.providerID = mfaAuthenticatorID

/-- The nodes of a flow that are under subflows with the property only. -/
inductive NodeIn (P : Execution → Prop) (flow : Flow) : FlowNode → Prop
  | top {n : FlowNode} : n ∈ flow → NodeIn P flow n
  | inside {n m : FlowNode} : NodeIn P flow n → P n.execution → m ∈ n.children → NodeIn P flow m

def Siblings (flow : Flow) (a b : FlowNode) : Prop :=
  (a ∈ flow ∧ b ∈ flow) ∨ ∃ n, NodeIn (fun _ => True) flow n ∧ a ∈ n.children ∧ b ∈ n.children

def Execution.Required (e : Execution) : Prop := e.requirement = "REQUIRED"

def Unmixed (flow : Flow) : Prop :=
  ∀ a b, Siblings flow a b → a.execution.Required → b.execution.requirement ≠ "ALTERNATIVE"

/-- An MFA step has the property, and so have all subflows around it. -/
def Wired (P : Execution → Prop) (flow : Flow) : Prop :=
  ∃ n, NodeIn P flow n ∧ P n.execution ∧ n.execution.providerID = mfaAuthenticatorID

section Logins

variable {P : Execution → Prop} {flow : Flow} {n m : FlowNode} {run : List Execution}

theorem Runs.required (h : Runs flow run) (hn : n ∈ flow) (hreq : n.execution.Required) :
    n.execution ∈ run ∧ ∃ inner ⊆ run, Runs n.children inner := by
  induction h with
  | nil => cases hn
  | run hcs hns _ ih =>
    rcases mem_cons.mp hn with rfl | hn
    · exact ⟨by simp [FlowNode.execution], _, by simp, hcs⟩
    · obtain ⟨hmem, inner, hsub, hinner⟩ := ih hn
      exact ⟨mem_append_right _ hmem, inner, fun _ hx => mem_append_right _ (hsub hx), hinner⟩
  | skip hnot _ ih =>
    rcases mem_cons.mp hn with rfl | hn
    · exact absurd hreq hnot
    · exact ih hn

theorem NodeIn.runs (h : NodeIn Execution.Required flow n) (hreq : n.execution.Required)
    (hrun : Runs flow run) : n.execution ∈ run ∧ ∃ inner ⊆ run, Runs n.children inner := by
  induction h with
  | top hn => exact hrun.required hn hreq
  | inside _ hsub hm ih =>
    obtain ⟨_, outer, houter, hruns⟩ := ih hsub
    obtain ⟨hmem, inner, hinner, hruns⟩ := hruns.required hm hreq
    exact ⟨houter hmem, inner, fun _ hx => houter (hinner hx), hruns⟩

theorem NodeIn.tail (h : NodeIn P flow n) : NodeIn P (m :: flow) n := by
  induction h with
  | top hn => exact .top (mem_cons_of_mem _ hn)
  | inside _ hP hm ih => exact .inside ih hP hm

theorem NodeIn.under (hm : P m.execution) (h : NodeIn P m.children n) : NodeIn P (m :: flow) n := by
  induction h with
  | top hn => exact .inside (.top mem_cons_self) hm hn
  | inside _ hP hm ih => exact .inside ih hP hm

/-- The login that runs nothing but what is required. -/
theorem exists_least : ∀ flow : Flow, ∃ run, Runs flow run ∧
    ∀ e ∈ run, ∃ n, NodeIn Execution.Required flow n ∧ n.execution = e ∧ e.Required
  | [] => ⟨[], .nil, nofun⟩
  | .mk e cs :: ns => by
    obtain ⟨rest, hrest, hin⟩ := exists_least ns
    have htail : ∀ x ∈ rest, ∃ n, NodeIn Execution.Required (.mk e cs :: ns) n ∧ n.execution = x ∧ x.Required := by
      intro x hx
      obtain ⟨n, hn, heq, hreq⟩ := hin x hx
      exact ⟨n, hn.tail, heq, hreq⟩
    by_cases hreq : e.Required
    · obtain ⟨inner, hinner, hsub⟩ := exists_least cs
      refine ⟨_, .run hinner hrest, fun x hx => ?_⟩
      rcases mem_append.mp hx with hx | hx
      · rcases mem_cons.mp hx with rfl | hx
        · exact ⟨_, .top mem_cons_self, rfl, hreq⟩
        · obtain ⟨n, hn, heq, hx⟩ := hsub x hx
          exact ⟨n, .under (m := .mk e cs) hreq hn, heq, hx⟩
      · exact htail x hx
    · exact ⟨rest, .skip hreq hrest, htail⟩

/-- No login skips the step exactly when one stands where every login passes. -/
theorem enforces_iff_wired : Enforces flow ↔ Wired Execution.Required flow := by
  constructor
  · intro h
    obtain ⟨run, hrun, hin⟩ := exists_least flow
    obtain ⟨e, he, hmfa⟩ := h run hrun
    obtain ⟨n, hn, rfl, hreq⟩ := hin e he
    exact ⟨n, hn, hreq, hmfa⟩
  · rintro ⟨n, hn, hreq, hmfa⟩ run hrun
    exact ⟨n.execution, (hn.runs hreq hrun).1, hmfa⟩

end Logins

/-! ## What the list shows of the tree -/

section Listing

variable {flow : Flow} {n m : FlowNode} {level : Nat}

theorem mem_listing (hn : n ∈ flow) : n.listing level ⊆ listing level flow := by
  induction flow with
  | nil => cases hn
  | cons m ns ih =>
    rw [listing]
    rcases mem_cons.mp hn with rfl | hn
    · exact subset_append_left _ _
    · exact subset_append_of_subset_right _ (ih hn)

theorem NodeIn.listing (h : NodeIn (fun _ => True) flow n) :
    ∃ level, n.listing level ⊆ Bootstrap.listing 0 flow := by
  induction h with
  | top hn => exact ⟨0, mem_listing hn⟩
  | @inside n m _ _ hm ih =>
    obtain ⟨level, hsub⟩ := ih
    refine ⟨level + 1, fun _ hx => hsub ?_⟩
    obtain ⟨e, cs⟩ := n
    rw [FlowNode.listing]
    exact mem_cons_of_mem _ (mem_listing hm hx)

theorem self_mem_listing : ⟨n.execution, level⟩ ∈ n.listing level := by
  obtain ⟨e, cs⟩ := n
  rw [FlowNode.listing]
  exact mem_cons_self

theorem Siblings.listing {a b} (h : Siblings flow a b) :
    ∃ level, ⟨a.execution, level⟩ ∈ Bootstrap.listing 0 flow ∧ ⟨b.execution, level⟩ ∈ Bootstrap.listing 0 flow := by
  rcases h with ⟨ha, hb⟩ | ⟨⟨e, cs⟩, hn, ha, hb⟩
  · exact ⟨0, mem_listing ha self_mem_listing, mem_listing hb self_mem_listing⟩
  obtain ⟨level, hsub⟩ := hn.listing
  have hin : ∀ c ∈ cs, ⟨c.execution, level + 1⟩ ∈ Bootstrap.listing 0 flow := by
    intro c hc
    apply hsub
    rw [FlowNode.listing]
    exact mem_cons_of_mem _ (mem_listing hc self_mem_listing)
  exact ⟨level + 1, hin a ha, hin b hb⟩

theorem unmixed_of_verify (h : verifyBrowserFlowStructure (Bootstrap.listing 0 flow) = .ok ()) : Unmixed flow := by
  intro a b hab hreq halt
  obtain ⟨level, ha, hb⟩ := hab.listing
  have hnone : ∀ ex ∈ Bootstrap.listing 0 flow, ¬ mixes ((Bootstrap.listing 0 flow).filter (·.level = ex.level)) := by
    unfold verifyBrowserFlowStructure at h
    split at h
    · rename_i hfind
      exact find?_eq_none.mp hfind
    · cases h
  refine hnone _ ha ?_
  simp only [mixes, Bool.and_eq_true, any_eq_true, List.mem_filter, decide_eq_true_eq]
  exact ⟨⟨_, ⟨ha, rfl⟩, hreq⟩, _, ⟨hb, rfl⟩, halt⟩

theorem listing_append (as bs : Flow) : listing level (as ++ bs) = listing level as ++ listing level bs := by
  induction as with
  | nil => rfl
  | cons a as ih => rw [cons_append, listing, listing, ih, append_assoc]

end Listing

/-! ## Setting a requirement -/

section Setting

variable {P : Execution → Prop} {flow : Flow} {n : FlowNode} {id requirement : String}

def Execution.set (id requirement : String) (e : Execution) : Execution :=
  if e.id = id then { e with requirement := requirement } else e

theorem mem_setRequirement :
    n ∈ setRequirement id requirement flow ↔ ∃ m ∈ flow, m.setRequirement id requirement = n := by
  induction flow with
  | nil => simp [setRequirement]
  | cons m ns ih => simp [setRequirement, ih, eq_comm]

theorem nodeIn_setRequirement : NodeIn P (setRequirement id requirement flow) n ↔
    ∃ m, NodeIn (fun e => P (e.set id requirement)) flow m ∧ m.setRequirement id requirement = n := by
  constructor
  · intro h
    induction h with
    | top hn =>
      obtain ⟨m, hm, rfl⟩ := mem_setRequirement.mp hn
      exact ⟨m, .top hm, rfl⟩
    | inside _ hP hc ih =>
      obtain ⟨⟨e, cs⟩, hm, rfl⟩ := ih
      rw [FlowNode.setRequirement, FlowNode.children, mem_setRequirement] at hc
      obtain ⟨c, hc, rfl⟩ := hc
      exact ⟨c, .inside hm hP hc, rfl⟩
  · rintro ⟨m, hm, rfl⟩
    induction hm with
    | top hm => exact .top (mem_setRequirement.mpr ⟨_, hm, rfl⟩)
    | @inside m c _ hP hc ih =>
      obtain ⟨e, cs⟩ := m
      exact .inside ih hP (mem_setRequirement.mpr ⟨c, hc, rfl⟩)

theorem wired_setRequirement :
    Wired P (setRequirement id requirement flow) ↔ Wired (fun e => P (e.set id requirement)) flow := by
  have hpro : ∀ e : Execution, (e.set id requirement).providerID = e.providerID := by
    intro e
    unfold Execution.set
    split <;> rfl
  constructor
  · rintro ⟨_, hn, hP, hmfa⟩
    obtain ⟨⟨e, cs⟩, hm, rfl⟩ := nodeIn_setRequirement.mp hn
    exact ⟨_, hm, hP, (hpro e).symm.trans hmfa⟩
  · rintro ⟨⟨e, cs⟩, hm, hP, hmfa⟩
    exact ⟨_, nodeIn_setRequirement.mpr ⟨_, hm, rfl⟩, hP, (hpro e).trans hmfa⟩

theorem required_set (e : Execution) : (e.set id "REQUIRED").Required ↔ e.Required ∨ e.id = id := by
  unfold Execution.set Execution.Required
  split
  · rename_i heq
    exact iff_of_true rfl (.inr heq)
  · rename_i hne
    exact (or_iff_left hne).symm

end Setting

/-! ## The two checks -/

/-- A step is inside REQUIRED subflows only that is REQUIRED itself or is the one that is listed first. -/
def BrowserWired (flow : Flow) : Prop :=
  ∀ mfa, findExecution (listing 0 flow) mfaAuthenticatorID = some mfa →
    ∃ n, NodeIn Execution.Required flow n ∧ n.execution.providerID = mfaAuthenticatorID ∧
      (n.execution.Required ∨ n.execution = mfa.toExecution)

/-- Where the direct-grant flow is going to be REQUIRED once the step that is listed first is set so. -/
def DirectGrantWired (flow : Flow) : Prop :=
  ∀ mfa, findExecution (listing 0 flow) mfaAuthenticatorID = some mfa →
    Wired (fun e => e.Required ∨ (¬ mfa.Required ∧ e.id = mfa.id)) flow

def FlowRealm.directGrantStart (r : FlowRealm) : Option Flow :=
  (r.flows directGrantFlowAlias).or (r.flows builtinDirectGrantAlias)

section Checks

variable {quote : String → String} {answer : Nat → Except String Unit} {r : FlowRealm}

theorem verifyMFAFlowWiring_ok (h : verifyMFAFlowWiring quote answer r = .ok ()) :
    r.browserFlow = browserFlowAlias ∧ ∃ flow, r.flows browserFlowAlias = some flow ∧ Unmixed flow ∧
      ∃ mfa, findExecution (listing 0 flow) mfaAuthenticatorID = some mfa ∧ mfa.Required := by
  unfold verifyMFAFlowWiring at h
  obtain ⟨_, _, h⟩ := bind_eq_ok.mp h
  split at h
  · cases h
  rename_i hflow
  obtain ⟨executions, hread, h⟩ := bind_eq_ok.mp h
  obtain ⟨_, _, hread⟩ := bind_eq_ok.mp (mapError_eq_ok.mp hread)
  obtain ⟨_, hver, h⟩ := bind_eq_ok.mp h
  refine ⟨not_not.mp hflow, ?_⟩
  unfold FlowRealm.executions at hread
  split at hread
  · rename_i flow hget
    cases hread
    refine ⟨flow, hget, unmixed_of_verify (mapError_eq_ok.mp hver), ?_⟩
    split at h
    · cases h
    rename_i mfa hfind
    split at h
    · cases h
    · rename_i hreq
      exact ⟨mfa, hfind, not_not.mp hreq⟩
  · cases hread

-- the step that the check has found is REQUIRED
theorem wired_iff_browserWired {flow mfa} (hfind : findExecution (listing 0 flow) mfaAuthenticatorID = some mfa)
    (hreq : mfa.Required) : Wired Execution.Required flow ↔ BrowserWired flow := by
  constructor
  · rintro ⟨n, hn, hreq, hmfa⟩ _ _
    exact ⟨n, hn, hmfa, .inl hreq⟩
  · intro hwired
    obtain ⟨n, hn, hmfa, hreq' | heq⟩ := hwired mfa hfind
    · exact ⟨n, hn, hreq', hmfa⟩
    · exact ⟨n, hn, heq ▸ hreq, hmfa⟩

theorem directGrantBase_ok {copied flow} (h : directGrantBase quote answer r = .ok (copied, flow)) :
    r.directGrantStart = some flow := by
  unfold directGrantBase at h
  obtain ⟨_, _, h⟩ := bind_eq_ok.mp h
  unfold FlowRealm.directGrantStart
  split at h
  · rename_i hget
    cases h
    rw [hget]
    rfl
  · rename_i hnone
    obtain ⟨_, _, h⟩ := bind_eq_ok.mp (mapError_eq_ok.mp h)
    split at h
    · rename_i hget
      cases h
      rw [hnone, hget]
      rfl
    · cases h

theorem findExecution_added {newID flow mfa} (hnone : findExecution (listing 0 flow) mfaAuthenticatorID = none)
    (h : findExecution (listing 0 (added newID flow)) mfaAuthenticatorID = some mfa) :
    mfa = ⟨⟨newID, "DISABLED", mfaAuthenticatorID, ""⟩, 0⟩ := by
  unfold findExecution at h hnone
  rw [added, listing_append, find?_append, hnone] at h
  exact (Option.some.inj h).symm

/-- The flow that is left: the one there was, with its first step or a new one set. -/
theorem reconcileDirectGrantFlow_ok {newID changed r'}
    (h : reconcileDirectGrantFlow quote answer r newID = .ok (changed, r')) :
    r'.directGrantFlow = directGrantFlowAlias ∧ ∃ before after, r.directGrantStart = some before ∧
      r'.flows directGrantFlowAlias = some after ∧ (Wired Execution.Required after ↔ DirectGrantWired before) := by
  unfold reconcileDirectGrantFlow at h
  obtain ⟨⟨copied, before⟩, hbase, h⟩ := bind_eq_ok.mp h
  obtain ⟨_, _, h⟩ := bind_eq_ok.mp h
  obtain ⟨⟨found, flow, mfa⟩, hfound, h⟩ := bind_eq_ok.mp h
  obtain ⟨⟨set, after⟩, hset, h⟩ := bind_eq_ok.mp h
  obtain ⟨_, _, h⟩ := bind_eq_ok.mp h
  unfold requireStep at hset
  unfold directGrantStep at hfound
  have hafter : (¬ mfa.Required ∧ after = setRequirement mfa.id "REQUIRED" flow) ∨ (mfa.Required ∧ after = flow) := by
    split at hset
    · rename_i hreq
      obtain ⟨_, _, hset⟩ := bind_eq_ok.mp hset
      cases hset
      exact .inl ⟨hreq, rfl⟩
    · rename_i hreq
      cases hset
      exact .inr ⟨not_not.mp hreq, rfl⟩
  have hleft : r'.directGrantFlow = directGrantFlowAlias ∧ r'.flows directGrantFlowAlias = some after := by
    split at h
    · obtain ⟨_, _, h⟩ := bind_eq_ok.mp h
      cases h
      exact ⟨rfl, by simp⟩
    · rename_i hbound
      cases h
      exact ⟨not_not.mp hbound, by simp⟩
  refine ⟨hleft.1, before, after, directGrantBase_ok hbase, hleft.2, ?_⟩
  split at hfound
  · rename_i mfa' hfind
    cases hfound
    have hwired : DirectGrantWired before ↔ Wired (fun e => e.Required ∨ (¬ mfa.Required ∧ e.id = mfa.id)) before := by
      unfold DirectGrantWired
      rw [hfind]
      simp
    rw [hwired]
    rcases hafter with ⟨hreq, rfl⟩ | ⟨hreq, rfl⟩
    · rw [wired_setRequirement]
      simp only [required_set, hreq, not_false_eq_true, true_and]
    · simp only [hreq, not_true_eq_false, false_and, or_false]
  · rename_i hnone
    have hcon : DirectGrantWired before := fun _ hsome => nomatch hnone.symm.trans hsome
    refine iff_of_true ?_ hcon
    obtain ⟨_, _, hfound⟩ := bind_eq_ok.mp hfound
    obtain ⟨_, _, hfound⟩ := bind_eq_ok.mp hfound
    split at hfound
    · rename_i hadded
      cases hfound
      obtain rfl := findExecution_added hnone hadded
      rcases hafter with ⟨_, rfl⟩ | ⟨hreq, _⟩
      · rw [wired_setRequirement]
        refine ⟨_, .top (mem_append_right _ mem_cons_self), (required_set _).mpr (.inr rfl), rfl⟩
      · exact absurd hreq (show ¬ "DISABLED" = "REQUIRED" by decide)
    · cases hfound

end Checks

/-- A browser flow that is accepted has no mixed group, and no login skips its MFA step exactly when such a step that
is REQUIRED or listed first stands in REQUIRED subflows only.  None skips that of the direct grant exactly when this is
so of the flow that was found, with its first step taken for REQUIRED. -/
theorem mfaStep_enforced_iff (quote : String → String) (answer : Nat → Except String Unit) (r : FlowRealm) :
    (verifyMFAFlowWiring quote answer r = .ok () →
      r.browserFlow = browserFlowAlias ∧ ∃ flow, r.flows browserFlowAlias = some flow ∧ Unmixed flow ∧
        (Wired Execution.Required flow ∧ Enforces flow ↔ BrowserWired flow)) ∧
    ∀ newID changed r', reconcileDirectGrantFlow quote answer r newID = .ok (changed, r') →
      r'.directGrantFlow = directGrantFlowAlias ∧ ∃ before after, r.directGrantStart = some before ∧
        r'.flows directGrantFlowAlias = some after ∧ (Enforces after ↔ DirectGrantWired before) := by
  constructor
  · intro h
    obtain ⟨hbound, flow, hflow, hunm, mfa, hfind, hreq⟩ := verifyMFAFlowWiring_ok h
    exact ⟨hbound, flow, hflow, hunm, by rw [enforces_iff_wired, and_self, wired_iff_browserWired hfind hreq]⟩
  · intro newID changed r' h
    obtain ⟨hbound, before, after, hbef, hafter, hwired⟩ := reconcileDirectGrantFlow_ok h
    exact ⟨hbound, before, after, hbef, hafter, by rw [enforces_iff_wired, hwired]⟩

def mfaWithin (requirement : String) : FlowRealm where
  browserFlow := browserFlowAlias
  directGrantFlow := directGrantFlowAlias
  flows _ := some [.mk ⟨"s", requirement, "", "Forms"⟩ [.mk ⟨"m", "REQUIRED", mfaAuthenticatorID, ""⟩ []]]

theorem mfaStep_enforced_required :
    ∃ flow, (mfaWithin "REQUIRED").flows browserFlowAlias = some flow ∧ Unmixed flow ∧ Enforces flow := by
  obtain ⟨_, flow, hflow, hunm, hiff⟩ :=
    (mfaStep_enforced_iff id (fun _ => .ok ()) (mfaWithin "REQUIRED")).1 (by decide +kernel)
  cases hflow
  have hwired := hiff.mpr fun _ _ => ⟨.mk ⟨"m", "REQUIRED", mfaAuthenticatorID, ""⟩ [],
    .inside (.top mem_cons_self) rfl mem_cons_self, rfl, .inl rfl⟩
  exact ⟨_, rfl, hunm, hwired.2⟩

/-- Both checks accept a step that a conditional subflow hides from the logins that do not meet its condition. -/
theorem mfaStep_skipped : verifyMFAFlowWiring id (fun _ => .ok ()) (mfaWithin "CONDITIONAL") = .ok () ∧
      (∀ flow, (mfaWithin "CONDITIONAL").flows browserFlowAlias = some flow → ¬ Enforces flow) ∧
      ∃ r', reconcileDirectGrantFlow id (fun _ => .ok ()) (mfaWithin "CONDITIONAL") "new" = .ok (false, r') ∧
        ∀ flow, r'.flows directGrantFlowAlias = some flow → ¬ Enforces flow := by
  have hskip : Runs [.mk ⟨"s", "CONDITIONAL", "", "Forms"⟩ [.mk ⟨"m", "REQUIRED", mfaAuthenticatorID, ""⟩ []]] [] :=
    .skip (by decide) .nil
  refine ⟨by decide +kernel, ?_, _, rfl, ?_⟩
  · rintro flow ⟨⟩ h
    obtain ⟨_, he, _⟩ := h [] hskip
    cases he
  · intro flow hflow h
    simp only [Function.update_self, Option.some.injEq] at hflow
    obtain ⟨_, he, _⟩ := h [] (hflow ▸ hskip)
    cases he

end Kiban.Bootstrap
