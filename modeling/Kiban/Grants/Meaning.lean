import Kiban.Grants.Isolation

/-!
# What a decision means

The decider is wired to an engine that reads rows, remembers answers and may fail.  Beside it stands the same decider
over the least fixpoint of the effective model.
-/

namespace Kiban

open Fallible

/-- The one computation goes like the other, or gives up on a dependency. -/
def OrUnavailable {α : Type} (x y : Except Decision α) : Prop :=
  x = y ∨ ∃ dec, x = .error dec ∧ dec.allowed = false ∧ dec.reason = .dependencyUnavailable

section Steps

variable {α β : Type} {x y : Except Decision α} {f g : α → Except Decision β}

theorem OrUnavailable.refl (x : Except Decision α) : OrUnavailable x x := .inl rfl

theorem OrUnavailable.bind (h : OrUnavailable x y) (hf : ∀ a, OrUnavailable (f a) (g a)) :
    OrUnavailable (x >>= f) (y >>= g) := by
  rcases h with rfl | ⟨dec, rfl, hdec⟩
  · cases x with
    | error dec => exact .refl _
    | ok a => exact hf a
  · exact .inr ⟨dec, rfl, hdec⟩

theorem OrUnavailable.ask {answer answer' : Except String α} (h : ∀ a, answer = .ok a → answer' = .ok a)
    (dependency step : String) (ev : List Evidence) :
    OrUnavailable (Kiban.ask answer dependency step ev) (Kiban.ask answer' dependency step ev) := by
  cases answer with
  | error e => exact .inr ⟨_, rfl, rfl, rfl⟩
  | ok a =>
    rw [h a rfl]
    exact .refl _

end Steps

open Classical in
noncomputable def Services.meaning (sv : Services) (l : Fragment.Loaded) (T : TupleTable) : Deps :=
  let holds (n : Node) (subjType subjId companyId : String) : Except String Bool :=
    .ok (n ∈ Holds ⟨l.model, subjType, subjId, companyId⟩ T.toTable)
  { sv.deps l T.reads with
    platformRole := fun subjectId role =>
      if role ≠ superadminRole then .ok false
      else holds ⟨"system", systemPlatformId, "superadmin"⟩ "user" subjectId ""
    companyRole := fun companyId subjectId role => holds ⟨"company", companyId, role⟩ "user" subjectId ""
    check := fun n subjType subjId => holds n subjType subjId ""
    checkInCompany := some holds }

section Meaning

variable {sv : Services} {l : Fragment.Loaded} {rd : Reads} {T : TupleTable} {r : Request} {b : Bool}

theorem checkerCheckInCompany_ok_iff {n subjType subjId companyId} (hrd : rd.Of T)
    (h : checkerCheckInCompany l rd n subjType subjId companyId = .ok b) :
    b = true ↔ n ∈ Holds ⟨l.model, subjType, subjId, companyId⟩ T.toTable := by
  have hcheck := mapError_eq_ok.mp h
  unfold Fragment.Loaded.checkInCompany at hcheck
  by_cases hinert : l.inert n.objType = true
  · rw [if_pos hinert] at hcheck
    cases hcheck
    exact iff_of_false Bool.false_ne_true (notMem_holds_of_inert rfl hinert)
  · rw [if_neg hinert] at hcheck
    exact run_ok_iff (hrd.serves n subjType subjId companyId) hcheck

open Classical in
theorem check_meaning {n subjType subjId} (hrd : rd.Of T) (h : checkerCheck l rd n subjType subjId = .ok b) :
    Except.ok (decide (n ∈ Holds ⟨l.model, subjType, subjId, ""⟩ T.toTable)) = (.ok b : Except String Bool) := by
  simp [← checkerCheck_ok_iff hrd h]

theorem platformRole_meaning {subjectId role} (hrd : rd.Of T)
    (h : (sv.deps l rd).platformRole subjectId role = .ok b) :
    (sv.meaning l T).platformRole subjectId role = .ok b := by
  change (if role ≠ superadminRole then _ else _) = _ at h ⊢
  split at h
  case isTrue hrole => rw [if_pos hrole, h]
  case isFalse hrole =>
    rw [if_neg hrole]
    exact check_meaning hrd h

theorem bound_meaning (hrd : rd.Of T) (h : (sv.deps l rd).bound r r.object = .ok b) :
    (sv.meaning l T).bound r r.object = .ok b := by
  unfold Deps.bound at h ⊢
  rw [show (sv.meaning l T).defines = (sv.deps l rd).defines from rfl]
  split_ifs at h ⊢
  · exact h
  · exact h
  · exact check_meaning hrd h
  · exact check_meaning hrd h
  · exact h

theorem relationAllowed_meaning {relation} (hrd : rd.Of T)
    (h : (sv.deps l rd).relationAllowed r r.object relation = .ok b) :
    (sv.meaning l T).relationAllowed r r.object relation = .ok b := by
  unfold Deps.relationAllowed at h ⊢
  cases hscope : r.scope with
  | company =>
    rw [hscope] at h
    simp [Services.meaning, ← checkerCheckInCompany_ok_iff hrd h]
  | global =>
    rw [hscope] at h
    exact check_meaning hrd h

theorem companyScope_meaning (hrd : rd.Of T) (ev : List Evidence) :
    OrUnavailable ((sv.deps l rd).companyScope r ev) ((sv.meaning l T).companyScope r ev) := by
  have hrole : ∀ (exempt : Bool) ev, OrUnavailable
      (if r.requiredCompanyRole ≠ "" ∧ exempt = false then (sv.deps l rd).companyRoleHeld r ev else pure ev)
      (if r.requiredCompanyRole ≠ "" ∧ exempt = false then (sv.meaning l T).companyRoleHeld r ev else pure ev) := by
    intro exempt ev
    split
    · exact .bind (.ask (fun _ => check_meaning hrd) _ _ _) fun _ => .refl _
    · exact .refl _
  refine .bind (.refl _) fun ev => .bind ?_ fun ⟨exempt, ev⟩ => ?_
  · unfold Deps.operatorException
    split
    · exact .bind (.ask (fun _ => platformRole_meaning hrd) _ _ _) fun _ => .refl _
    · exact .refl _
  · cases exempt with
    | true => exact hrole true ev
    | false => exact .bind (.refl _) (hrole false)

theorem relationStep_meaning (hrd : rd.Of T) (ev : List Evidence) :
    OrUnavailable ((sv.deps l rd).relationStep r r.object r.relation ev)
      ((sv.meaning l T).relationStep r r.object r.relation ev) := by
  unfold Deps.relationStep
  split
  · refine .bind ?_ fun ev => .bind (.ask (fun _ => relationAllowed_meaning hrd) _ _ _) fun _ => .refl _
    unfold Deps.objectCompany
    split
    · exact .refl _
    · exact .bind (.ask (fun _ => bound_meaning hrd) _ _ _) fun _ => .refl _
  · exact .refl _

/-- Whatever the order of the rows and whichever queries fail, a decision over the engine is the decision over the least
fixpoint, with its reason and its evidence, or a refusal for want of a dependency. -/
theorem evaluate_meaning (sv : Services) (l : Fragment.Loaded) (rd : Reads) (T : TupleTable) (hrd : rd.Of T)
    (r : Request) :
    (sv.deps l rd).evaluate r = (sv.meaning l T).evaluate r ∨ ((sv.deps l rd).evaluate r).allowed = false ∧
        ((sv.deps l rd).evaluate r).reason = .dependencyUnavailable := by
  have hsteps : OrUnavailable ((sv.deps l rd).evaluateSteps r) ((sv.meaning l T).evaluateSteps r) := by
    refine .bind (.refl _) fun ev => ?_
    split
    · exact .bind (.ask (fun _ => platformRole_meaning hrd) _ _ _) fun _ => .refl _
    · exact .bind (companyScope_meaning hrd ev) fun ev => .bind (.refl _) fun ev =>
        .bind (relationStep_meaning hrd ev) fun _ => .refl _
  unfold Deps.evaluate
  rcases hsteps with heq | ⟨dec, hdec, hrsn⟩
  · exact .inl (congrArg decided heq)
  · rw [hdec]
    exact .inr hrsn

end Meaning

theorem evaluate_meaning_viewDocument :
    ((everyoneIn.meaning docsLoaded sharedTable).evaluate (viewDocument acme)).allowed = true := by
  have hok : ((everyoneIn.deps docsLoaded sharedTable.reads).evaluate (viewDocument acme)).allowed = true := by
    decide +kernel
  rcases evaluate_meaning everyoneIn docsLoaded _ sharedTable sharedTable.reads_of (viewDocument acme) with
    heq | ⟨hden, _⟩
  · rwa [heq] at hok
  · cases hok.symm.trans hden

end Kiban
