import Kiban.Decision.Evaluate
import Kiban.Lib.Fallible

/-!
# The decision is the first failing step

What `Evaluate` is for: a fixed order of steps, each of which, where it applies, passes, denies with a reason or cannot
be answered.  The decision is the outcome of the first applicable step that does not pass.
-/

namespace Kiban

open Fallible List Option

inductive StepName where
  | subject
  | keycloak
  | lifecycle
  | platformRole
  | companyState
  | operatorException
  | membership
  | companyRole
  | moduleState
  | objectBinding
  | relationCheck
  | eligibility
deriving DecidableEq

def stepOrder : List StepName :=
  [.subject, .keycloak, .lifecycle, .platformRole, .companyState, .operatorException, .membership,
    .companyRole, .moduleState, .objectBinding, .relationCheck, .eligibility]

inductive Outcome where
  | pass
  | denied (reason : Reason)
  | unavailable (dependency step : String)
deriving DecidableEq

structure Verdict where
  allowed : Bool
  reason : Reason
  (dependency step : String)
deriving DecidableEq

def Decision.verdict (dec : Decision) : Verdict :=
  ⟨dec.allowed, dec.reason, dec.dependency, dec.step⟩

def Outcome.verdict : Outcome → Verdict
  | .pass => ⟨true, .allowed, "", ""⟩
  | .denied reason => ⟨false, reason, "", ""⟩
  | .unavailable dependency step => ⟨false, .dependencyUnavailable, dependency, step⟩

/-! ## The outcome of each step -/

-- an answer, or none; what follows from the answer is `f`
def Outcome.of {α : Type} (dependency step : String) (f : α → Outcome) : Except String α → Outcome
  | .ok a => f a
  | .error _ => .unavailable dependency step

def Outcome.unless (reason : Reason) (holds : Bool) : Outcome := if holds then .pass else .denied reason

theorem of_unless_eq_pass_iff {answer} (dependency step : String) (reason : Reason) :
    Outcome.of dependency step (.unless reason) answer = .pass ↔ answer = .ok true := by
  cases answer with
  | error e => exact iff_of_false nofun nofun
  | ok held =>
    cases held with
    | true => exact iff_of_true rfl rfl
    | false => exact iff_of_false nofun nofun

namespace Deps

variable (d : Deps) (req : Request)

def isOperator : Bool :=
  req.allowPlatformOperatorCompanyScope &&
    match d.platformRole req.subjectId req.requiredPlatformRole with
    | .ok held => held
    | .error _ => false

def applies : StepName → Bool
  | .subject => true
  | .keycloak => true
  | .lifecycle => true
  | .platformRole => req.scope = .global
  | .companyState => req.scope = .company
  | .operatorException => req.scope = .company ∧ req.allowPlatformOperatorCompanyScope
  | .membership => req.scope = .company ∧ !d.isOperator req
  | .companyRole => req.scope = .company ∧ req.requiredCompanyRole ≠ "" ∧ !d.isOperator req
  | .moduleState => req.scope = .company
  | .objectBinding => req.scope = .company ∧ req.relation ≠ ""
  | .relationCheck => req.scope = .company ∧ req.relation ≠ ""
  | .eligibility => req.scope = .company ∧ req.requiresEligibility

def eligibilityOutcome : Outcome :=
  match d.eligibility with
  | none => .unavailable "module-eligibility" "business_eligibility"
  | some callback =>
    if (callback req).timedOut then .unavailable "module-eligibility" "business_eligibility"
    else .of "module-eligibility" "business_eligibility" (fun
      | .allow => .pass
      | .denial => .denied .businessEligibilityDenied
      | .error => .unavailable "module-eligibility" "business_eligibility") (callback req).outcome

-- what can bind an object to the request, and what it is bound to
def anchors : List (String × String) :=
  [("company", req.companyId), ("company_module", req.companyId ++ "/" ++ req.moduleKey)]

/-- An object is the anchor itself, or hangs on it by the first of the two relations that the model has for its
type; a type with neither is never bound. -/
def binding : Except String Bool :=
  match (anchors req).lookup req.object.type with
  | some id => .ok (req.object.id = id)
  | none =>
    match (anchors req).find? fun a => d.model.any fun defines => defines req.object.type a.1 with
    | some (anchor, id) => d.check ⟨req.object.type, req.object.id, anchor⟩ anchor id
    | none => .ok false

-- within the company, if the engine can be asked so
def related : Except String Bool :=
  match d.checkInCompany with
  | some inCompany =>
    inCompany ⟨req.object.type, req.object.id, req.relation⟩ "user" req.subjectId req.companyId
  | none => d.check ⟨req.object.type, req.object.id, req.relation⟩ "user" req.subjectId

def outcome : StepName → Outcome
  | .subject =>
    .of "identity" "subject_lookup" (fun s => .unless .authUserNotFound s.found) (d.subject req.subjectId)
  | .keycloak =>
    .of "keycloak" "keycloak_enabled" (fun
      | .true => .pass
      | .false => .denied .keycloakDisabled
      | .unknown => .unavailable "keycloak" "keycloak_enabled") (d.keycloak req.subjectId)
  | .lifecycle =>
    .of "identity" "subject_lookup" (fun s => .unless .userLifecycleDisabled s.lifecycleActive)
      (d.subject req.subjectId)
  | .platformRole =>
    .of "engine" "platform_role" (.unless .platformRoleRequired)
      (d.platformRole req.subjectId req.requiredPlatformRole)
  | .companyState =>
    .of "org" "company_state" (fun c => .unless .companyInactive (c.isPresent && c.active))
      (d.company req.companyId)
  | .operatorException =>
    -- not being an operator is no failure, not knowing is
    .of "engine" "platform_operator_exception" (fun _ => .pass)
      (d.platformRole req.subjectId req.requiredPlatformRole)
  | .membership =>
    .of "org" "company_membership" (fun m =>
      if !m.isMember then .denied .companyMembershipRequired
      else .unless .companyAccessBlocked (!m.blocked)) (d.membership req.companyId req.subjectId)
  | .companyRole =>
    .of "org" "company_role" (.unless .companyRoleRequired)
      (d.companyRole req.companyId req.subjectId req.requiredCompanyRole)
  | .moduleState =>
    if req.moduleKey = foundationModuleKey then .pass
    else .of "registry" "module_state" (.unless .moduleDisabled) (d.moduleState req.moduleKey)
  | .objectBinding => .of "engine" "relation_check" (.unless .engineDenied) (d.binding req)
  | .relationCheck => .of "engine" "relation_check" (.unless .engineDenied) (d.related req)
  | .eligibility => d.eligibilityOutcome req

def failed {α : Type} : Except String α → Bool
  | .ok _ => false
  | .error _ => true

/-- The dependency a step asks has no answer: an error, an unknown, a deadline or nobody to ask. -/
def unanswered : StepName → Bool
  | .subject => failed (d.subject req.subjectId)
  | .keycloak =>
    match d.keycloak req.subjectId with
    | .ok state => state = .unknown
    | .error _ => true
  | .lifecycle => failed (d.subject req.subjectId)
  | .platformRole => failed (d.platformRole req.subjectId req.requiredPlatformRole)
  | .companyState => failed (d.company req.companyId)
  | .operatorException => failed (d.platformRole req.subjectId req.requiredPlatformRole)
  | .membership => failed (d.membership req.companyId req.subjectId)
  | .companyRole => failed (d.companyRole req.companyId req.subjectId req.requiredCompanyRole)
  | .moduleState => req.moduleKey ≠ foundationModuleKey && failed (d.moduleState req.moduleKey)
  | .objectBinding => failed (d.binding req)
  | .relationCheck => failed (d.related req)
  | .eligibility =>
    match d.eligibility with
    | none => true
    | some callback =>
      (callback req).timedOut ||
        match (callback req).outcome with
        | .ok outcome => outcome = .error
        | .error _ => true

def outcomesOf (names : List StepName) : List Outcome :=
  (names.filter (d.applies req)).map (d.outcome req)

def fails (n : StepName) : Bool := d.applies req n && d.outcome req n ≠ .pass

def Reaches (n : StepName) : Prop :=
  d.applies req n = true ∧ ∃ before after, stepOrder = before ++ n :: after ∧
      ∀ k ∈ before, d.applies req k = true → d.outcome req k = .pass

end Deps

/-! ## The first failure of a list of outcomes -/

def firstFailure : List Outcome → Outcome
  | [] => .pass
  | .pass :: os => firstFailure os
  | o :: _ => o

theorem firstFailure_cons_of_ne {o} (h : o ≠ .pass) (os : List Outcome) : firstFailure (o :: os) = o := by
  cases o with
  | pass => exact absurd rfl h
  | denied reason | unavailable dependency step => rfl

theorem firstFailure_append (os os' : List Outcome) :
    firstFailure (os ++ os') = if firstFailure os = .pass then firstFailure os' else firstFailure os := by
  induction os with
  | nil => rfl
  | cons o os ih =>
    by_cases ho : o = .pass
    · rw [ho]
      exact ih
    · rw [cons_append, firstFailure_cons_of_ne ho, firstFailure_cons_of_ne ho, if_neg ho]

theorem firstFailure_eq_pass_iff (os : List Outcome) : firstFailure os = .pass ↔ ∀ o ∈ os, o = .pass := by
  induction os with
  | nil => simp [firstFailure]
  | cons o os ih =>
    by_cases ho : o = .pass
    · rw [ho, show firstFailure (.pass :: os) = firstFailure os from rfl, ih]
      simp
    · rw [firstFailure_cons_of_ne ho]
      simp [ho]

/-- A computation follows the outcomes: it stops with the verdict of the first that fails, and goes
on when none does. -/
def Stops {α : Type} (os : List Outcome) : Except Decision α → Prop
  | .ok _ => firstFailure os = .pass
  | .error dec => firstFailure os ≠ .pass ∧ dec.verdict = (firstFailure os).verdict

section Stops

variable {α β : Type} {os os' : List Outcome}
  {answer : Except String α} {dependency step : String} {ev : List Evidence}

theorem stops_ok (a : α) : Stops [] (pure a : Except Decision α) := rfl

theorem Stops.bind {x : Except Decision α} {f : α → Except Decision β} (hx : Stops os x)
    (hf : ∀ a, x = .ok a → Stops os' (f a)) : Stops (os ++ os') (x >>= f) := by
  cases x with
  | error dec =>
    change firstFailure (os ++ os') ≠ .pass ∧ _
    rw [firstFailure_append, if_neg hx.1]
    exact hx
  | ok a =>
    have ha := hf a rfl
    have hpass : firstFailure os = .pass := hx
    change Stops (os ++ os') (f a)
    cases hfa : f a with
    | ok b =>
      rw [hfa] at ha
      change firstFailure (os ++ os') = .pass
      rw [firstFailure_append, if_pos hpass]
      exact ha
    | error dec =>
      rw [hfa] at ha
      change firstFailure (os ++ os') ≠ .pass ∧ dec.verdict = (firstFailure (os ++ os')).verdict
      rw [firstFailure_append, if_pos hpass]
      exact ha

theorem Stops.ask {f : α → Outcome} {k : α → Except Decision β} (hk : ∀ a, answer = .ok a → Stops [f a] (k a)) :
    Stops [.of dependency step f answer] (ask answer dependency step ev >>= k) := by
  cases answer with
  | ok a => exact hk a rfl
  | error e =>
    have hne : Outcome.unavailable dependency step ≠ .pass := nofun
    exact ⟨hne, rfl⟩

theorem ask_eq_ok {a} (h : ask answer dependency step ev = .ok a) : answer = .ok a := by
  cases answer with
  | ok a' => exact congrArg Except.ok (Except.ok.inj h)
  | error e => cases h

theorem stops_pass (a : α) : Stops [.pass] (.ok a : Except Decision α) := rfl

theorem stops_deny (reason : Reason) (ev kv : List Evidence) :
    Stops [.denied reason] (.error (deny reason ev kv) : Except Decision α) := by
  have hne : Outcome.denied reason ≠ .pass := nofun
  exact ⟨hne, rfl⟩

theorem stops_unavailable (dependency step : String) (ev : List Evidence) : Stops [.unavailable dependency step]
      (.error (unavailable dependency step ev) : Except Decision α) := by
  have hne : Outcome.unavailable dependency step ≠ .pass := nofun
  exact ⟨hne, rfl⟩

theorem stops_unless (reason : Reason) (holds : Bool) (a : α) (ev kv : List Evidence) : Stops [.unless reason holds]
      (if holds then .ok a else .error (deny reason ev kv) : Except Decision α) := by
  cases holds with
  | true => exact stops_pass a
  | false => exact stops_deny reason ev kv

theorem Stops.decided {x} (hx : Stops os x) (hok : ∀ dec, x = .ok dec → dec.verdict = Outcome.pass.verdict) :
    (decided x).verdict = (firstFailure os).verdict := by
  cases x with
  | ok dec =>
    rw [show firstFailure os = .pass from hx]
    exact hok dec rfl
  | error dec => exact hx.2

end Stops

/-! ## Each step follows its outcome -/

namespace Deps

variable (d : Deps) (req : Request) {ev : List Evidence} {subj : SubjectResult} {n : StepName}

theorem subjectLookup_stops (ev : List Evidence) : Stops [d.outcome req .subject] (d.subjectLookup req ev) :=
  Stops.ask fun subj _ => stops_unless .authUserNotFound subj.found subj ev _

theorem subjectLookup_eq_ok (h : d.subjectLookup req ev = .ok subj) : d.subject req.subjectId = .ok subj := by
  unfold subjectLookup at h
  obtain ⟨subj', hask, h⟩ := bind_eq_ok.mp h
  by_cases hfound : subj'.found = true
  · rw [if_pos hfound] at h
    cases h
    exact ask_eq_ok hask
  · rw [if_neg hfound] at h
    cases h

theorem keycloakEnabled_stops (ev : List Evidence) :
    Stops [d.outcome req .keycloak] (d.keycloakEnabled req ev) := by
  apply Stops.ask
  intro kc _
  cases kc with
  | true => exact stops_pass _
  | false => exact stops_deny _ _ _
  | unknown => exact stops_unavailable _ _ _

theorem lifecycleActive_stops (hsubj : d.subject req.subjectId = .ok subj)
    (ev : List Evidence) : Stops [d.outcome req .lifecycle] (lifecycleActive subj ev) := by
  unfold outcome
  rw [hsubj]
  exact stops_unless .userLifecycleDisabled subj.lifecycleActive _ ev _

theorem identify_stops : Stops [d.outcome req .subject, d.outcome req .keycloak, d.outcome req .lifecycle]
      (d.identify req) := by
  apply Stops.bind (d.subjectLookup_stops req _)
  intro subj hsubj
  apply Stops.bind (d.keycloakEnabled_stops req _)
  intro ev _
  exact d.lifecycleActive_stops req (d.subjectLookup_eq_ok req hsubj) ev

theorem globalRole_stops (ev : List Evidence) : Stops [d.outcome req .platformRole] (d.globalRole req ev) :=
  Stops.ask fun held _ => stops_unless .platformRoleRequired held _ ev _

theorem companyActive_stops (ev : List Evidence) :
    Stops [d.outcome req .companyState] (d.companyActive req ev) := by
  apply Stops.ask
  intro cs _
  cases hpres : cs.isPresent with
  | false => exact stops_deny _ _ _
  | true =>
    cases hact : cs.active with
    | false => exact stops_deny _ _ _
    | true => exact stops_pass _

-- the exception can only fail by not being answered, and its answer is `isOperator`
theorem operatorException_stops (ev : List Evidence) :
    Stops (if req.allowPlatformOperatorCompanyScope then [d.outcome req .operatorException] else [])
      (d.operatorException req ev) := by
  unfold operatorException
  by_cases hallow : req.allowPlatformOperatorCompanyScope = true
  · rw [if_pos hallow, if_pos hallow]
    apply Stops.ask
    intro held _
    cases held with
    | true | false => exact stops_pass _
  · rw [if_neg hallow, if_neg hallow]
    exact stops_ok _

theorem operatorException_eq_ok {ev' exempt} (h : d.operatorException req ev = .ok (exempt, ev')) :
    d.isOperator req = exempt := by
  unfold operatorException at h
  unfold isOperator
  by_cases hallow : req.allowPlatformOperatorCompanyScope = true
  · rw [if_pos hallow] at h
    rw [hallow]
    obtain ⟨held, hask, h⟩ := bind_eq_ok.mp h
    rw [ask_eq_ok hask]
    cases held with
    | true | false => exact congrArg Prod.fst (Except.ok.inj h)
  · rw [if_neg hallow] at h
    have hfalse : req.allowPlatformOperatorCompanyScope = false := by simpa using hallow
    rw [hfalse]
    exact congrArg Prod.fst (Except.ok.inj h)

theorem companyMembership_stops (ev : List Evidence) :
    Stops [d.outcome req .membership] (d.companyMembership req ev) := by
  apply Stops.ask
  intro ms _
  cases hmb : ms.isMember with
  | false => exact stops_deny _ _ _
  | true =>
    cases hblk : ms.blocked with
    | true => exact stops_deny _ _ _
    | false => exact stops_pass _

theorem companyRoleHeld_stops (ev : List Evidence) :
    Stops [d.outcome req .companyRole] (d.companyRoleHeld req ev) :=
  Stops.ask fun held _ => stops_unless .companyRoleRequired held _ ev _

theorem moduleEnabled_stops (ev : List Evidence) : Stops [d.outcome req .moduleState] (d.moduleEnabled req ev) := by
  unfold moduleEnabled outcome
  by_cases hfnd : req.moduleKey = foundationModuleKey
  · rw [if_pos hfnd, if_pos hfnd]
    exact stops_pass _
  · rw [if_neg hfnd, if_neg hfnd]
    exact Stops.ask fun enabled _ => stops_unless .moduleDisabled enabled _ ev _

theorem bound_eq_binding : d.bound req req.object = d.binding req := by
  unfold bound binding anchors defines
  by_cases hco : req.object.type = "company"
  · simp [hco]
  by_cases hmod : req.object.type = "company_module"
  · simp [hmod, lookup_cons]
  cases hmodel : d.model with
  | none => simp [hco, hmod, lookup_cons, beq_false_of_ne]
  | some defines =>
    cases hanc : defines req.object.type "company" <;>
      cases hanc' : defines req.object.type "company_module" <;>
        simp [hco, hmod, lookup_cons, beq_false_of_ne, hanc, hanc']

theorem relationAllowed_eq_related (hscope : req.scope = .company) :
    d.relationAllowed req req.object req.relation = d.related req := by
  unfold relationAllowed related
  rw [hscope]
  cases d.checkInCompany with
  | none | some inCompany => rfl

theorem objectCompany_stops (hscope : req.scope = .company) (obj : ObjectRef) (ev : List Evidence) :
    Stops [.of "engine" "relation_check" (.unless .engineDenied) (d.bound req obj)]
      (d.objectCompany req obj ev) := by
  unfold objectCompany
  rw [hscope]
  exact Stops.ask fun held _ => stops_unless .engineDenied held _ ev _

theorem relationCheck_stops (hscope : req.scope = .company) (obj : ObjectRef) (relation : String)
    (ev : List Evidence) :
    Stops [.of "engine" "relation_check" (.unless .engineDenied) (d.bound req obj),
        .of "engine" "relation_check" (.unless .engineDenied) (d.relationAllowed req obj relation)]
      (d.relationCheck req obj relation ev) := by
  apply Stops.bind (d.objectCompany_stops req hscope obj ev)
  intro ev' _
  exact Stops.ask fun held _ => stops_unless .engineDenied held _ ev' _

theorem checkEligibility_stops (ev : List Evidence) :
    Stops [d.eligibilityOutcome req] (d.checkEligibility req ev) := by
  unfold checkEligibility eligibilityOutcome
  cases d.eligibility with
  | none => exact stops_unavailable _ _ _
  | some callback =>
    by_cases htim : (callback req).timedOut = true
    · simp only [htim, if_true]
      exact stops_unavailable _ _ _
    simp only [htim]
    apply Stops.ask
    intro outcome _
    cases outcome with
    | allow => exact stops_pass _
    | denial => exact stops_deny _ _ _
    | error => exact stops_unavailable _ _ _

/-! ## The whole decision -/

theorem outcomesOf_append (ns ns' : List StepName) :
    d.outcomesOf req (ns ++ ns') = d.outcomesOf req ns ++ d.outcomesOf req ns' := by
  unfold outcomesOf
  rw [filter_append, map_append]

theorem outcomesOf_cons (n : StepName) (ns : List StepName) : d.outcomesOf req (n :: ns) =
      (if d.applies req n then [d.outcome req n] else []) ++ d.outcomesOf req ns := by
  unfold outcomesOf
  by_cases h : d.applies req n = true
  · rw [filter_cons_of_pos h, if_pos h]
    rfl
  · rw [filter_cons_of_neg h, if_neg h]
    rfl

theorem outcomesOf_global (hscope : req.scope = .global) : d.outcomesOf req stepOrder =
      [d.outcome req .subject, d.outcome req .keycloak, d.outcome req .lifecycle] ++
        [d.outcome req .platformRole] := by
  simp [outcomesOf, stepOrder, filter_cons, applies, hscope]

theorem companyScope_stops (hscope : req.scope = .company) (ev : List Evidence) :
    Stops (d.outcomesOf req [.companyState, .operatorException, .membership, .companyRole])
      (d.companyScope req ev) := by
  rw [outcomesOf_cons, outcomesOf_cons]
  simp only [applies, hscope, decide_true, true_and, if_true, Bool.decide_eq_true]
  apply Stops.bind (d.companyActive_stops req ev)
  intro ev₁ _
  apply Stops.bind (d.operatorException_stops req ev₁)
  intro (exempt, ev₂) hexe
  have hop := d.operatorException_eq_ok req hexe
  rw [outcomesOf_cons, outcomesOf_cons]
  simp only [applies, hscope, hop, true_and]
  cases exempt with
  | true => simpa [outcomesOf] using stops_ok ev₂
  | false =>
    apply Stops.bind (d.companyMembership_stops req ev₂)
    intro ev₃ _
    by_cases hrole : req.requiredCompanyRole = ""
    · simpa [outcomesOf, hrole] using stops_ok ev₃
    · simpa [outcomesOf, hrole] using d.companyRoleHeld_stops req ev₃

theorem relationStep_stops (hscope : req.scope = .company) (ev : List Evidence) :
    Stops (d.outcomesOf req [.objectBinding, .relationCheck]) (d.relationStep req req.object req.relation ev) := by
  unfold relationStep
  by_cases hrel : req.relation = ""
  · simpa [outcomesOf, filter_cons, applies, hscope, hrel] using stops_ok ev
  · simpa [outcomesOf, filter_cons, applies, hscope, hrel, outcome, bound_eq_binding,
      relationAllowed_eq_related] using d.relationCheck_stops req hscope req.object req.relation ev

theorem eligibilityStep_stops (hscope : req.scope = .company) (ev : List Evidence) :
    Stops (d.outcomesOf req [.eligibility]) (d.eligibilityStep req ev) := by
  unfold eligibilityStep
  cases helig : req.requiresEligibility with
  | true =>
    simpa [outcomesOf, filter_cons, applies, hscope, helig, outcome] using d.checkEligibility_stops req ev
  | false => simpa [outcomesOf, filter_cons, applies, hscope, helig] using stops_ok ev

theorem outcomesOf_company (hscope : req.scope = .company) : d.outcomesOf req stepOrder =
      [d.outcome req .subject, d.outcome req .keycloak, d.outcome req .lifecycle] ++
        (d.outcomesOf req [.companyState, .operatorException, .membership, .companyRole] ++
          ([d.outcome req .moduleState] ++ (d.outcomesOf req [.objectBinding, .relationCheck] ++
            (d.outcomesOf req [.eligibility] ++ [])))) := by
  -- with the type at each list: `++` of untyped lists takes very long to elaborate
  have horder : stepOrder = ([.subject, .keycloak, .lifecycle] : List StepName) ++ (([.platformRole] : List StepName) ++
      (([.companyState, .operatorException, .membership, .companyRole] : List StepName) ++
        (([.moduleState] : List StepName) ++
          (([.objectBinding, .relationCheck] : List StepName) ++ ([.eligibility] : List StepName))))) := rfl
  rw [horder]
  simp only [outcomesOf_append]
  simp [outcomesOf, filter_cons, applies, hscope]

theorem evaluateSteps_eq_ok {dec} (h : d.evaluateSteps req = .ok dec) : dec.verdict = Outcome.pass.verdict := by
  unfold evaluateSteps at h
  obtain ⟨ev, _, h⟩ := bind_eq_ok.mp h
  cases hscope : req.scope with
  | global =>
    rw [hscope] at h
    obtain ⟨held, _, h⟩ := bind_eq_ok.mp h
    cases held with
    | true =>
      rw [← Except.ok.inj h]
      rfl
    | false => cases h
  | company =>
    rw [hscope] at h
    obtain ⟨ev₁, _, h⟩ := bind_eq_ok.mp h
    obtain ⟨ev₂, _, h⟩ := bind_eq_ok.mp h
    obtain ⟨ev₃, _, h⟩ := bind_eq_ok.mp h
    obtain ⟨ev₄, _, h⟩ := bind_eq_ok.mp h
    rw [← Except.ok.inj h]
    rfl

theorem evaluateSteps_stops : Stops (d.outcomesOf req stepOrder) (d.evaluateSteps req) := by
  unfold evaluateSteps
  cases hscope : req.scope with
  | global =>
    rw [outcomesOf_global d req hscope]
    exact Stops.bind (d.identify_stops req) fun ev _ => d.globalRole_stops req ev
  | company =>
    rw [outcomesOf_company d req hscope]
    apply Stops.bind (d.identify_stops req)
    intro ev₁ _
    apply Stops.bind (d.companyScope_stops req hscope ev₁)
    intro ev₂ _
    apply Stops.bind (d.moduleEnabled_stops req ev₂)
    intro ev₃ _
    apply Stops.bind (d.relationStep_stops req hscope ev₃)
    intro ev₄ _
    apply Stops.bind (d.eligibilityStep_stops req hscope ev₄)
    intro ev₅ _
    exact stops_ok _

theorem evaluate_verdict : (d.evaluate req).verdict = (firstFailure (d.outcomesOf req stepOrder)).verdict :=
  (d.evaluateSteps_stops req).decided fun _ h => d.evaluateSteps_eq_ok req h

theorem fails_eq_true_iff (n : StepName) :
    d.fails req n = true ↔ d.applies req n = true ∧ d.outcome req n ≠ .pass := by
  simp [fails]

theorem firstFailure_outcomesOf (ns : List StepName) :
    firstFailure (d.outcomesOf req ns) = ((ns.find? (d.fails req)).map (d.outcome req)).getD .pass := by
  induction ns with
  | nil => rfl
  | cons n ns ih =>
    rw [outcomesOf_cons]
    by_cases happ : d.applies req n = true
    · rw [if_pos happ, singleton_append]
      by_cases hpass : d.outcome req n = .pass
      · have hnot : ¬ d.fails req n = true := fun h => ((d.fails_eq_true_iff req n).mp h).2 hpass
        rw [hpass, find?_cons_of_neg hnot]
        exact ih
      · have hfails := (d.fails_eq_true_iff req n).mpr ⟨happ, hpass⟩
        rw [firstFailure_cons_of_ne hpass, find?_cons_of_pos hfails]
        rfl
    · have hnot : ¬ d.fails req n = true := fun h => happ ((d.fails_eq_true_iff req n).mp h).1
      rw [if_neg happ, find?_cons_of_neg hnot]
      exact ih

theorem mem_stepOrder (n : StepName) : n ∈ stepOrder := by
  cases n <;> decide

theorem evaluate_verdict_of_reaches (hn : d.Reaches req n)
    (hfail : d.outcome req n ≠ .pass) : (d.evaluate req).verdict = (d.outcome req n).verdict := by
  obtain ⟨happ, before, after, horder, hbef⟩ := hn
  have hfind : stepOrder.find? (d.fails req) = some n := by
    rw [find?_eq_some_iff_append]
    refine ⟨(d.fails_eq_true_iff req n).mpr ⟨happ, hfail⟩, before, after, horder, ?_⟩
    intro k hk
    rw [Bool.not_eq_true', Bool.eq_false_iff]
    intro hfails
    have hk' := (d.fails_eq_true_iff req k).mp hfails
    exact hk'.2 (hbef k hk hk'.1)
  rw [evaluate_verdict, firstFailure_outcomesOf, hfind]
  rfl

theorem exists_reaches_of_fails (hn : d.fails req n = true) : ∃ k, d.Reaches req k ∧ d.outcome req k ≠ .pass := by
  obtain ⟨k, hk⟩ := isSome_iff_exists.mp (find?_isSome.mpr ⟨n, mem_stepOrder n, hn⟩)
  obtain ⟨hfails, before, after, horder, hbef⟩ := find?_eq_some_iff_append.mp hk
  have hk' := (d.fails_eq_true_iff req k).mp hfails
  refine ⟨k, ⟨hk'.1, before, after, horder, ?_⟩, hk'.2⟩
  intro j hj happ
  by_contra hpass
  have hj' := hbef j hj
  rw [(d.fails_eq_true_iff req j).mpr ⟨happ, hpass⟩] at hj'
  cases hj'

theorem verdict_allowed_of_ne_pass {o : Outcome} (h : o ≠ .pass) : o.verdict.allowed = false := by
  cases o with
  | pass => exact absurd rfl h
  | denied reason | unavailable dependency step => rfl

theorem evaluate_allowed_iff :
    (d.evaluate req).allowed = true ↔ ∀ n, d.applies req n = true → d.outcome req n = .pass := by
  constructor
  · intro hok n happ
    by_contra hpass
    obtain ⟨k, hk, hfail⟩ :=
      d.exists_reaches_of_fails req ((d.fails_eq_true_iff req n).mpr ⟨happ, hpass⟩)
    have hverd := congrArg Verdict.allowed (d.evaluate_verdict_of_reaches req hk hfail)
    rw [verdict_allowed_of_ne_pass hfail] at hverd
    have hfalse : (d.evaluate req).allowed = false := hverd
    rw [hok] at hfalse
    cases hfalse
  · intro hall
    have hnone : stepOrder.find? (d.fails req) = none := by
      rw [find?_eq_none]
      intro n _ hfails
      have hn := (d.fails_eq_true_iff req n).mp hfails
      exact hn.2 (hall n hn.1)
    have hverd := d.evaluate_verdict req
    rw [firstFailure_outcomesOf, hnone] at hverd
    exact congrArg Verdict.allowed hverd

theorem of_ne_denied {α : Type} {f} (h : ∀ a, f a ≠ .denied .allowed) (dependency step : String)
    (answer : Except String α) : Outcome.of dependency step f answer ≠ .denied .allowed := by
  cases answer with
  | ok a => exact h a
  | error e => exact nofun

theorem unless_ne_denied (reason : Reason) (h : reason ≠ .allowed) (holds : Bool) :
    Outcome.unless reason holds ≠ .denied .allowed := by
  cases holds with
  | true => exact nofun
  | false => exact fun heq => h (Outcome.denied.inj heq)

theorem eligibilityOutcome_ne_denied : d.eligibilityOutcome req ≠ .denied .allowed := by
  unfold eligibilityOutcome
  cases d.eligibility with
  | none => exact nofun
  | some callback =>
    by_cases htim : (callback req).timedOut = true
    · simp only [htim, if_true]
      exact nofun
    · simp only [htim]
      apply of_ne_denied
      intro outcome
      cases outcome <;> exact nofun

-- no step denies with the reason of an allowed decision
theorem outcome_ne_denied (n : StepName) : d.outcome req n ≠ .denied .allowed := by
  cases n with
  | subject => exact of_ne_denied (fun _ => unless_ne_denied .authUserNotFound nofun _) _ _ _
  | keycloak =>
    apply of_ne_denied
    intro state
    cases state <;> exact nofun
  | lifecycle => exact of_ne_denied (fun _ => unless_ne_denied .userLifecycleDisabled nofun _) _ _ _
  | platformRole => exact of_ne_denied (unless_ne_denied .platformRoleRequired nofun) _ _ _
  | companyState => exact of_ne_denied (fun _ => unless_ne_denied .companyInactive nofun _) _ _ _
  | operatorException =>
    apply of_ne_denied
    intro _
    exact nofun
  | membership =>
    apply of_ne_denied
    intro m
    split
    · exact nofun
    · exact unless_ne_denied .companyAccessBlocked nofun _
  | companyRole => exact of_ne_denied (unless_ne_denied .companyRoleRequired nofun) _ _ _
  | moduleState =>
    change (if req.moduleKey = foundationModuleKey then _ else _) ≠ _
    split
    · exact nofun
    · exact of_ne_denied (unless_ne_denied .moduleDisabled nofun) _ _ _
  | objectBinding | relationCheck => exact of_ne_denied (unless_ne_denied .engineDenied nofun) _ _ _
  | eligibility => exact d.eligibilityOutcome_ne_denied req

theorem evaluate_reason_allowed_iff :
    (d.evaluate req).reason = .allowed ↔ firstFailure (d.outcomesOf req stepOrder) = .pass := by
  have hverd := congrArg Verdict.reason (d.evaluate_verdict req)
  change (d.evaluate req).reason = _ at hverd
  rw [hverd, firstFailure_outcomesOf]
  cases stepOrder.find? (d.fails req) with
  | none => exact iff_of_true rfl rfl
  | some n =>
    rw [map_some, getD_some]
    have hne := d.outcome_ne_denied req n
    cases hout : d.outcome req n with
    | pass => exact iff_of_true rfl rfl
    | denied reason =>
      rw [hout] at hne
      exact iff_of_false (fun h => hne (congrArg Outcome.denied h)) nofun
    | unavailable dependency step => exact iff_of_false nofun nofun

theorem reason_of_allowed (hok : (d.evaluate req).allowed = true) : (d.evaluate req).reason = .allowed := by
  have hall := (d.evaluate_allowed_iff req).mp hok
  rw [evaluate_reason_allowed_iff, firstFailure_eq_pass_iff]
  intro o ho
  obtain ⟨n, hn, rfl⟩ := mem_map.mp ho
  exact hall n (List.mem_filter.mp hn).2

theorem outcome_of_failed {α : Type} {answer} (h : failed answer = true) (dependency step : String)
    (f : α → Outcome) : Outcome.of dependency step f answer = .unavailable dependency step := by
  cases answer with
  | ok a => cases h
  | error e => rfl

theorem outcome_of_unanswered (h : d.unanswered req n = true) :
    ∃ dependency step, d.outcome req n = .unavailable dependency step := by
  cases n with
  | keycloak =>
    unfold unanswered at h
    unfold outcome
    cases hkc : d.keycloak req.subjectId with
    | error e => exact ⟨_, _, rfl⟩
    | ok state =>
      simp only [hkc, decide_eq_true_eq] at h
      rw [h]
      exact ⟨_, _, rfl⟩
  | moduleState =>
    unfold unanswered at h
    unfold outcome
    rw [Bool.and_eq_true, decide_eq_true_eq] at h
    rw [if_neg h.1]
    exact ⟨_, _, outcome_of_failed h.2 _ _ _⟩
  | eligibility =>
    unfold unanswered at h
    unfold outcome eligibilityOutcome
    cases helig : d.eligibility with
    | none => exact ⟨_, _, rfl⟩
    | some callback =>
      simp only [helig] at h
      by_cases htim : (callback req).timedOut = true
      · simp only [htim, if_true]
        exact ⟨_, _, rfl⟩
      simp only [htim]
      cases hout : (callback req).outcome with
      | error e => exact ⟨_, _, rfl⟩
      | ok outcome =>
        simp only [hout, htim, Bool.false_or, decide_eq_true_eq] at h
        rw [h]
        exact ⟨_, _, rfl⟩
  | subject | lifecycle | platformRole | companyState
  | operatorException | membership | companyRole
  | objectBinding | relationCheck => exact ⟨_, _, outcome_of_failed h _ _ _⟩

/-- The same dependencies, for a subject who is no operator but a member with every company role. -/
def asMember (d : Deps) : Deps :=
  { d with
    platformRole := fun _ _ => .ok false
    membership := fun _ _ => .ok ⟨true, false⟩
    companyRole := fun _ _ _ => .ok true }

theorem platformRole_of_isOperator (h : d.isOperator req = true) :
    d.platformRole req.subjectId req.requiredPlatformRole = .ok true := by
  unfold isOperator at h
  rw [Bool.and_eq_true] at h
  cases hrole : d.platformRole req.subjectId req.requiredPlatformRole with
  | error e =>
    rw [hrole] at h
    exact absurd h.2 Bool.false_ne_true
  | ok held =>
    rw [hrole] at h
    exact congrArg Except.ok h.2

-- the two runs can only differ in the steps the exception is about, and there neither fails
theorem fails_asMember (hscope : req.scope = .company) (hop : d.isOperator req = true)
    (n : StepName) : d.asMember.fails req n = d.fails req n := by
  have hrole := d.platformRole_of_isOperator req hop
  cases n with
  | platformRole => simp [fails, applies, hscope]
  | operatorException => simp [fails, outcome, asMember, hrole, Outcome.of]
  | membership
  | companyRole => simp [fails, applies, outcome, asMember, hop, Outcome.of, Outcome.unless]
  | subject | keycloak | lifecycle | companyState | moduleState | objectBinding | relationCheck
  | eligibility => rfl

theorem outcome_asMember (hscope : req.scope = .company) (hop : d.isOperator req = true)
    (h : d.fails req n = true) : d.asMember.outcome req n = d.outcome req n := by
  have hrole := d.platformRole_of_isOperator req hop
  cases n with
  | platformRole => simp [fails, applies, hscope] at h
  | operatorException => simp [fails, outcome, hrole, Outcome.of] at h
  | membership | companyRole => simp [fails, applies, hop] at h
  | subject | keycloak | lifecycle | companyState | moduleState | objectBinding | relationCheck
  | eligibility => rfl

theorem evaluate_verdict_asMember (hscope : req.scope = .company) (hop : d.isOperator req = true) :
    (d.evaluate req).verdict = (d.asMember.evaluate req).verdict := by
  have hfails : d.asMember.fails req = d.fails req := funext fun n => d.fails_asMember req hscope hop n
  rw [evaluate_verdict, evaluate_verdict, firstFailure_outcomesOf, firstFailure_outcomesOf, hfails]
  cases hfind : stepOrder.find? (d.fails req) with
  | none => rfl
  | some n =>
    rw [map_some, map_some, d.outcome_asMember req hscope hop (find?_some hfind)]

/-- `Evaluate` allows exactly when every step that applies passes; otherwise it answers for the first
that does not; a step that is reached and has no answer makes the decision unavailable; and the
operator exception decides like a member with the company role and nothing else. -/
theorem evaluate_firstFailure (d : Deps) (req : Request) : ((d.evaluate req).allowed = true ↔
      ∀ n, d.applies req n = true → d.outcome req n = .pass) ∧
    ((d.evaluate req).allowed = true → (d.evaluate req).reason = .allowed) ∧
    ((d.evaluate req).allowed = false → ∃ n, d.Reaches req n ∧ d.outcome req n ≠ .pass ∧
        (d.evaluate req).verdict = (d.outcome req n).verdict) ∧
    (∀ n, d.Reaches req n → d.unanswered req n = true →
      (d.evaluate req).allowed = false ∧ (d.evaluate req).reason = .dependencyUnavailable) ∧
    (req.scope = .company → d.isOperator req = true →
      (d.evaluate req).verdict = (d.asMember.evaluate req).verdict) := by
  refine ⟨d.evaluate_allowed_iff req, d.reason_of_allowed req, ?_, ?_, d.evaluate_verdict_asMember req⟩
  · intro hden
    have hnot : ¬ ∀ n, d.applies req n = true → d.outcome req n = .pass := by
      rw [← evaluate_allowed_iff, hden]
      decide
    push Not at hnot
    obtain ⟨n, happ, hpass⟩ := hnot
    obtain ⟨k, hk, hfail⟩ :=
      d.exists_reaches_of_fails req ((d.fails_eq_true_iff req n).mpr ⟨happ, hpass⟩)
    exact ⟨k, hk, hfail, d.evaluate_verdict_of_reaches req hk hfail⟩
  · intro n hn hun
    obtain ⟨dependency, step, hout⟩ := d.outcome_of_unanswered req hun
    have hverd := d.evaluate_verdict_of_reaches req hn (by rw [hout]; exact nofun)
    rw [hout] at hverd
    exact ⟨congrArg Verdict.allowed hverd, congrArg Verdict.reason hverd⟩

end Deps

/-! ## What an allowed company-scope decision rests on -/

variable {r : Request}

theorem bound_of_allowed {d : Deps} (hscope : r.scope = .company) (hrel : r.relation ≠ "")
    (hok : (d.evaluate r).allowed = true) : d.bound r r.object = .ok true := by
  have happ : d.applies r .objectBinding = true := by simp [Deps.applies, hscope, hrel]
  have hpass := (d.evaluate_allowed_iff r).mp hok .objectBinding happ
  rw [d.bound_eq_binding]
  exact (of_unless_eq_pass_iff _ _ _).mp hpass

theorem enabled_of_allowed {d : Deps} (hscope : r.scope = .company) (hok : (d.evaluate r).allowed = true) :
    r.moduleKey = foundationModuleKey ∨ d.moduleState r.moduleKey = .ok true := by
  have happ : d.applies r .moduleState = true := by simp [Deps.applies, hscope]
  have hpass := (d.evaluate_allowed_iff r).mp hok .moduleState happ
  unfold Deps.outcome at hpass
  by_cases hfnd : r.moduleKey = foundationModuleKey
  · exact .inl hfnd
  · rw [if_neg hfnd] at hpass
    exact .inr ((of_unless_eq_pass_iff _ _ _).mp hpass)

end Kiban
