import Kiban.Decision.FirstFailure

/-!
# Batches of one request

`EvaluateBatch` decides a request without its object leg once, and then the object and eligibility steps of each item.
At global scope the decision of an item on its own ends with the platform role; a batch goes on.
-/

namespace Kiban

open Fallible List

def Request.forItem (base : Request) (it : AccessItem) : Request :=
  { base with object := it.object, relation := it.relation }

def Request.shared (base : Request) : Request :=
  { base with relation := "", requiresEligibility := false }

-- the steps a batch takes once, which read neither the item nor the eligibility flag
def sharedSteps : List StepName :=
  [.subject, .keycloak, .lifecycle, .platformRole, .companyState, .operatorException, .membership,
    .companyRole, .moduleState]

def itemSteps : List StepName := [.objectBinding, .relationCheck, .eligibility]

theorem stepOrder_eq : stepOrder = sharedSteps ++ itemSteps := rfl

namespace Deps

variable (d : Deps) (base : Request) (it : AccessItem)

def itemOutcomes : List Outcome :=
  (if it.relation ≠ "" then
    (match base.scope with
      | .global => []
      | .company => [.of "engine" "relation_check" (.unless .engineDenied) (d.bound base it.object)]) ++
      [.of "engine" "relation_check" (.unless .engineDenied) (d.relationAllowed base it.object it.relation)]
    else []) ++
  (if base.requiresEligibility then [d.eligibilityOutcome (base.forItem it)] else [])

theorem outcomesOf_congr {req req' ns}
    (h : ∀ n ∈ ns, d.applies req n = d.applies req' n ∧ d.outcome req n = d.outcome req' n) :
    d.outcomesOf req ns = d.outcomesOf req' ns := by
  induction ns with
  | nil => rfl
  | cons n ns ih =>
    have hn := h n mem_cons_self
    rw [outcomesOf_cons, outcomesOf_cons, hn.1, hn.2, ih fun k hk => h k (mem_cons_of_mem n hk)]

theorem sharedSteps_shared : d.outcomesOf base.shared sharedSteps = d.outcomesOf base sharedSteps := by
  apply outcomesOf_congr
  intro n hn
  cases n
  case objectBinding => exact absurd hn (by decide)
  case relationCheck => exact absurd hn (by decide)
  case eligibility => exact absurd hn (by decide)
  all_goals exact ⟨rfl, rfl⟩

theorem sharedSteps_forItem : d.outcomesOf (base.forItem it) sharedSteps = d.outcomesOf base sharedSteps := by
  apply outcomesOf_congr
  intro n hn
  cases n
  case objectBinding => exact absurd hn (by decide)
  case relationCheck => exact absurd hn (by decide)
  case eligibility => exact absurd hn (by decide)
  all_goals exact ⟨rfl, rfl⟩

theorem outcomesOf_shared : d.outcomesOf base.shared stepOrder = d.outcomesOf base sharedSteps := by
  have hrest : d.outcomesOf base.shared itemSteps = [] := by
    simp [outcomesOf, itemSteps, applies, Request.shared]
  rw [stepOrder_eq, outcomesOf_append, hrest, append_nil, sharedSteps_shared]

theorem itemSteps_forItem (hscope : base.scope = .company) :
    d.outcomesOf (base.forItem it) itemSteps = d.itemOutcomes base it := by
  have hsteps : itemSteps = [.objectBinding, .relationCheck] ++ [.eligibility] := rfl
  have hobj : d.outcomesOf (base.forItem it) [.objectBinding, .relationCheck] =
      if it.relation ≠ "" then
        [.of "engine" "relation_check" (.unless .engineDenied) (d.bound base it.object),
          .of "engine" "relation_check" (.unless .engineDenied) (d.relationAllowed base it.object it.relation)]
      else [] := by
    by_cases hrel : it.relation = ""
    · simp [outcomesOf, applies, Request.forItem, hrel]
    have hrel' : (base.forItem it).relation ≠ "" := hrel
    have hscope' : (base.forItem it).scope = .company := hscope
    rw [if_pos hrel]
    simp only [outcomesOf, applies, hscope', decide_true, true_and, hrel', ne_eq, not_false_eq_true,
      filter_cons_of_pos, filter_nil, map_cons, map_nil, outcome]
    rw [← d.bound_eq_binding, ← d.relationAllowed_eq_related _ hscope']
    rfl
  have helig : d.outcomesOf (base.forItem it) [.eligibility] =
      if base.requiresEligibility then [d.eligibilityOutcome (base.forItem it)] else [] := by
    cases hflag : base.requiresEligibility with
    | true => simp [outcomesOf, applies, Request.forItem, hflag, hscope, outcome]
    | false => simp [outcomesOf, applies, Request.forItem, hflag]
  rw [hsteps, outcomesOf_append, hobj, helig, itemOutcomes, hscope]
  rfl

theorem itemSteps_forItem_of_global (hscope : base.scope = .global) :
    d.outcomesOf (base.forItem it) itemSteps = [] := by
  simp [outcomesOf, itemSteps, applies, Request.forItem, hscope]

theorem objectCompany_stops_of_global (hscope : base.scope = .global) (obj : ObjectRef)
    (ev : List Evidence) : Stops [] (d.objectCompany base obj ev) := by
  unfold objectCompany
  rw [hscope]
  exact stops_ok ev

theorem relationStep_stops_item (ev : List Evidence) : Stops (if it.relation ≠ "" then
        (match base.scope with
          | .global => []
          | .company => [.of "engine" "relation_check" (.unless .engineDenied) (d.bound base it.object)]) ++
          [.of "engine" "relation_check" (.unless .engineDenied) (d.relationAllowed base it.object it.relation)]
        else []) (d.relationStep base it.object it.relation ev) := by
  unfold relationStep
  by_cases hrel : it.relation ≠ ""
  · rw [if_pos hrel, if_pos hrel]
    cases hscope : base.scope with
    | global =>
      apply Stops.bind (d.objectCompany_stops_of_global base hscope it.object ev)
      intro ev' _
      exact Stops.ask fun held _ => stops_unless .engineDenied held _ ev' _
    | company => exact d.relationCheck_stops base hscope it.object it.relation ev
  · rw [if_neg hrel, if_neg hrel]
    exact stops_ok ev

theorem eligibilityStep_stops_item (ev : List Evidence) :
    Stops (if base.requiresEligibility then [d.eligibilityOutcome (base.forItem it)] else [])
      (d.eligibilityStep (base.forItem it) ev) := by
  unfold eligibilityStep
  change Stops _ (if base.requiresEligibility then _ else _)
  by_cases helig : base.requiresEligibility = true
  · rw [if_pos helig, if_pos helig]
    exact d.checkEligibility_stops (base.forItem it) ev
  · rw [if_neg helig, if_neg helig]
    exact stops_ok ev

theorem evaluateSteps7And8_verdict (ev : List Evidence) : (decided (d.evaluateSteps7And8 base it ev)).verdict =
      (firstFailure (d.itemOutcomes base it)).verdict := by
  have hstops : Stops (d.itemOutcomes base it ++ []) (d.evaluateSteps7And8 base it ev) := by
    rw [itemOutcomes, append_assoc]
    apply Stops.bind (d.relationStep_stops_item base it ev)
    intro ev₁ _
    apply Stops.bind (d.eligibilityStep_stops_item base it ev₁)
    intro ev₂ _
    exact stops_ok _
  rw [append_nil] at hstops
  apply hstops.decided
  intro dec h
  obtain ⟨ev₁, _, h⟩ := bind_eq_ok.mp h
  obtain ⟨ev₂, _, h⟩ := bind_eq_ok.mp h
  rw [← Except.ok.inj h]
  rfl

def batchDecision : Decision :=
  if (d.evaluate base.shared).reason ≠ .allowed then d.evaluate base.shared
  else decided (d.evaluateSteps7And8 base it (d.evaluate base.shared).evidence)

theorem evaluateBatch_eq (items : List AccessItem) :
    d.evaluateBatch base items = items.map fun it => ⟨it, d.batchDecision base it⟩ := by
  apply map_congr_left
  intro it _
  unfold batchDecision
  by_cases h : (d.evaluate base.shared).reason ≠ .allowed
  · rw [if_pos h]
    exact if_pos h
  · rw [if_neg h]
    exact if_neg h

theorem batchDecision_verdict : (d.batchDecision base it).verdict =
      (firstFailure (d.outcomesOf base sharedSteps ++ d.itemOutcomes base it)).verdict := by
  have hshd := d.evaluate_reason_allowed_iff base.shared
  rw [outcomesOf_shared] at hshd
  unfold batchDecision
  rw [firstFailure_append]
  by_cases hrsn : (d.evaluate base.shared).reason ≠ .allowed
  · rw [if_pos hrsn, if_neg fun h => hrsn (hshd.mpr h), evaluate_verdict, outcomesOf_shared]
  · have hpass := hshd.mp (not_not.mp hrsn)
    rw [if_neg hrsn, if_pos hpass, evaluateSteps7And8_verdict]

theorem evaluate_forItem_verdict_of_company (hscope : base.scope = .company) :
    (d.evaluate (base.forItem it)).verdict =
      (firstFailure (d.outcomesOf base sharedSteps ++ d.itemOutcomes base it)).verdict := by
  rw [evaluate_verdict, stepOrder_eq, outcomesOf_append, sharedSteps_forItem, itemSteps_forItem d base it hscope]

theorem evaluate_forItem_verdict_of_global (hscope : base.scope = .global) :
    (d.evaluate (base.forItem it)).verdict = (firstFailure (d.outcomesOf base sharedSteps)).verdict := by
  rw [evaluate_verdict, stepOrder_eq, outcomesOf_append, sharedSteps_forItem,
    itemSteps_forItem_of_global d base it hscope, append_nil]

/-! ## When a batch is only a batch -/

def Agrees : Prop :=
  (d.batchDecision base it).allowed = (d.evaluate (base.forItem it)).allowed ∧
    (d.batchDecision base it).reason = (d.evaluate (base.forItem it)).reason

theorem agrees_of_verdict (h : (d.batchDecision base it).verdict = (d.evaluate (base.forItem it)).verdict) :
    d.Agrees base it :=
  ⟨congrArg Verdict.allowed h, congrArg Verdict.reason h⟩

-- at global scope the item legs of the batch are extra, so they must not fail
theorem agrees_iff_of_global (hscope : base.scope = .global) : d.Agrees base it ↔
      firstFailure (d.outcomesOf base sharedSteps) ≠ .pass ∨ firstFailure (d.itemOutcomes base it) = .pass := by
  have hbatch := d.batchDecision_verdict base it
  have halone := d.evaluate_forItem_verdict_of_global base it hscope
  rw [firstFailure_append] at hbatch
  by_cases hshd : firstFailure (d.outcomesOf base sharedSteps) = .pass
  · rw [if_pos hshd] at hbatch
    rw [hshd] at halone
    constructor
    · intro hagr
      by_contra hnor
      have hfail : firstFailure (d.itemOutcomes base it) ≠ .pass := fun h => hnor (.inr h)
      have hfalse : (d.batchDecision base it).allowed = false := by
        rw [← verdict_allowed_of_ne_pass hfail, ← hbatch]
        rfl
      have htrue : (d.evaluate (base.forItem it)).allowed = true := congrArg Verdict.allowed halone
      rw [hagr.1, htrue] at hfalse
      cases hfalse
    · intro hpass
      apply agrees_of_verdict
      rw [hbatch, halone, hpass.resolve_left fun h => h hshd]
  · rw [if_neg hshd] at hbatch
    apply iff_of_true _ (.inl hshd)
    apply agrees_of_verdict
    rw [hbatch, halone]

theorem agrees_of_company (hscope : base.scope = .company) : d.Agrees base it := by
  apply agrees_of_verdict
  rw [batchDecision_verdict, evaluate_forItem_verdict_of_company d base it hscope]

theorem sharedSteps_of_global (hscope : base.scope = .global) :
    d.outcomesOf base sharedSteps = [.subject, .keycloak, .lifecycle, .platformRole].map (d.outcome base) := by
  simp [outcomesOf, sharedSteps, filter_cons, applies, hscope]

theorem itemOutcomes_pass_iff_of_global (hscope : base.scope = .global) :
    firstFailure (d.itemOutcomes base it) = .pass ↔
      (it.relation ≠ "" → d.relationAllowed base it.object it.relation = .ok true) ∧
      (base.requiresEligibility = true → d.eligibilityOutcome (base.forItem it) = .pass) := by
  rw [firstFailure_eq_pass_iff, itemOutcomes, hscope, forall_mem_append]
  apply and_congr
  · by_cases hrel : it.relation ≠ ""
    · rw [if_pos hrel]
      simp only [nil_append, mem_singleton, forall_eq, of_unless_eq_pass_iff]
      exact ⟨fun h _ => h, fun h => h hrel⟩
    · rw [if_neg hrel]
      exact iff_of_true nofun fun h => absurd h hrel
  · by_cases helig : base.requiresEligibility = true
    · rw [if_pos helig]
      simp only [mem_singleton, forall_eq]
      exact ⟨fun h _ => h, fun h => h helig⟩
    · rw [if_neg helig]
      exact iff_of_true nofun fun h => absurd h helig

/-- A batch gives every item the decision it would get on its own exactly when the scope is a company,
or the platform-role decision does not go through, or no item has a leg that fails. -/
theorem evaluateBatch_agrees_iff (d : Deps) (base : Request) (items : List AccessItem) :
    (d.evaluateBatch base items).map (fun r => (r.decision.allowed, r.decision.reason)) =
        items.map (fun it => ((d.evaluate (base.forItem it)).allowed, (d.evaluate (base.forItem it)).reason)) ↔
      base.scope = .company ∨
      (∃ n ∈ [StepName.subject, .keycloak, .lifecycle, .platformRole], d.outcome base n ≠ .pass) ∨
      ∀ it ∈ items, (it.relation ≠ "" → d.relationAllowed base it.object it.relation = .ok true) ∧
        (base.requiresEligibility = true → d.eligibilityOutcome (base.forItem it) = .pass) := by
  have hagr : (d.evaluateBatch base items).map (fun r => (r.decision.allowed, r.decision.reason)) =
      items.map (fun it => ((d.evaluate (base.forItem it)).allowed,
        (d.evaluate (base.forItem it)).reason)) ↔ ∀ it ∈ items, d.Agrees base it := by
    rw [evaluateBatch_eq, map_map, map_inj_left]
    exact forall_congr' fun it => imp_congr_right fun _ => Prod.mk_inj
  rw [hagr]
  cases hscope : base.scope with
  | company => exact iff_of_true (fun it _ => d.agrees_of_company base it hscope) (.inl rfl)
  | global =>
    have hshd : firstFailure (d.outcomesOf base sharedSteps) ≠ .pass ↔
        ∃ n ∈ [StepName.subject, .keycloak, .lifecycle, .platformRole], d.outcome base n ≠ .pass := by
      rw [sharedSteps_of_global d base hscope, Ne, firstFailure_eq_pass_iff, forall_mem_map]
      push Not
      rfl
    rw [← hshd]
    by_cases hpfx : firstFailure (d.outcomesOf base sharedSteps) = .pass
    · constructor
      · intro hall
        refine .inr (.inr fun it hit => ?_)
        have hit' := (d.agrees_iff_of_global base it hscope).mp (hall it hit)
        exact (d.itemOutcomes_pass_iff_of_global base it hscope).mp (hit'.resolve_left fun h => h hpfx)
      · intro hcond it hit
        have hitems := (hcond.resolve_left nofun).resolve_left fun h => h hpfx
        exact (d.agrees_iff_of_global base it hscope).mpr
          (.inr ((d.itemOutcomes_pass_iff_of_global base it hscope).mpr (hitems it hit)))
    · exact iff_of_true (fun it _ => (d.agrees_iff_of_global base it hscope).mpr (.inl hpfx)) (.inr (.inl hpfx))

end Deps

-- a superadmin asking, at global scope, about a document the engine grants them nothing on
def superadminDeps : Deps where
  subject := fun _ => .ok ⟨true, true⟩
  keycloak := fun _ => .ok .true
  platformRole := fun _ role => .ok (role = "kiban-superadmin")
  company := fun _ => .ok ⟨true, true⟩
  membership := fun _ _ => .ok ⟨false, false⟩
  companyRole := fun _ _ _ => .ok false
  moduleState := fun _ => .ok true
  check := fun _ _ _ => .ok false
  checkInCompany := none
  model := none
  eligibility := none

def superadminRequest : Request where
  subjectId := "u"
  featureKey := "auth.platform_administration.access"
  moduleKey := "auth"
  scope := .global
  companyId := ""
  requiredPlatformRole := "kiban-superadmin"
  allowPlatformOperatorCompanyScope := false
  requiredCompanyRole := ""
  object := ⟨"", ""⟩
  relation := ""
  requiresEligibility := false
  correlationId := ""

def documentItem : AccessItem := ⟨⟨"docs_document", "1"⟩, "viewer"⟩

theorem evaluateBatch_global_scope :
    (superadminDeps.evaluate (superadminRequest.forItem documentItem)).allowed = true ∧
    (superadminDeps.evaluateBatch superadminRequest [documentItem]).map
      (fun r => (r.decision.allowed, r.decision.reason)) = [(false, .engineDenied)] := by
  decide

end Kiban
