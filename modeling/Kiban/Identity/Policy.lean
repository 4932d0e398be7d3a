import Kiban.Lib.Fallible
import Kiban.Lib.Keyed
import Kiban.Lib.Runs

/-!
# MFA policies

`identity.mfa_policy` holds one global policy and at most one override for each user.  A user's
effective policy is the override where there is one.  The rank of an override is compared with the
global policy when the override is written, and at no other time.
-/

namespace Kiban.Identity

open Fallible Keyed.Table

structure MfaPolicy where
  required : Bool
  method : String
deriving DecidableEq

/-- The policy columns of a row; `method` is nullable. -/
structure PolicyRow where
  required : Bool
  method : Option String

def PolicyRow.policy (r : PolicyRow) : MfaPolicy := ⟨r.required, r.method.getD ""⟩

def strOrNil (s : String) : Option String := if s = "" then none else some s

def policyRow (required : Bool) (method : String) : PolicyRow := ⟨required, strOrNil method⟩

/-- The CHECK on the column `method`. -/
def PolicyRow.allowed (r : PolicyRow) : Bool :=
  match r.method with
  | none => true
  | some m => m = "otp" ∨ m = "passkey" ∨ m = "otp_or_passkey"

/-- The tables of the service.  The migration writes the global row, and nothing removes it. -/
structure State where
  accounts : Keyed.Table String String
  global : PolicyRow
  overrides : Keyed.Table String PolicyRow

def State.start (accounts : Keyed.Table String String) : State := ⟨accounts, ⟨false, none⟩, .empty⟩

inductive PolicyError where
  | methodUnenforceable
  | weakerThanGlobal
  | userNotFound
  | internal (cause : String)

def isEnforceableMfaMethod (method : String) : Bool :=
  method = "otp" ∨ method = "passkey" ∨ method = "otp_or_passkey"

def mfaPolicyRank (p : MfaPolicy) : Nat :=
  if p.required = false then 0
  else if p.method = "otp" then 1
  else if p.method = "otp_or_passkey" then 2
  else if p.method = "passkey" then 3
  else 0

/-! ## Reads -/

variable (s : State)

def State.effectivePolicy (userId : String) : Except PolicyError MfaPolicy :=
  match s.overrides.get? userId with
  | some r => .ok r.policy
  | none => if s.accounts.get? userId = none then .error .userNotFound else .ok s.global.policy

structure UserPolicyInput where
  (userId kcSub : String)
  policy : MfaPolicy

/-- The accounts, left joined with the overrides; the query orders them by id. -/
def State.listEffectivePolicies : List UserPolicyInput :=
  s.accounts.rows.map fun ua =>
    match s.overrides.get? ua.1 with
    | some r => ⟨ua.1, ua.2, r.policy⟩
    | none => ⟨ua.1, ua.2, s.global.policy⟩

/-! ## Writes -/

/-- The audit record and the commit, in the transaction of the write. -/
abbrev Audit := Except String Unit

def commit (audit : Audit) (s : State) : Except PolicyError State :=
  match audit with
  | .ok () => .ok s
  | .error cause => .error (.internal ("identity: audit mutation: " ++ cause))

def State.setGlobalPolicy (required : Bool) (method : String) (audit : Audit) : Except PolicyError State :=
  if required = true ∧ isEnforceableMfaMethod method = false then .error .methodUnenforceable
  else if (policyRow required method).allowed = false then
    .error (.internal "identity: set global mfa policy: violates check constraint")
  else commit audit { s with global := policyRow required method }

def State.setUserPolicy (userId : String) (required : Bool) (method : String)
    (audit : Audit) : Except PolicyError State :=
  if required = true ∧ isEnforceableMfaMethod method = false then .error .methodUnenforceable
  else if s.accounts.get? userId = none then .error .userNotFound
  else if mfaPolicyRank ⟨required, method⟩ < mfaPolicyRank s.global.policy then
    .error .weakerThanGlobal
  else if (policyRow required method).allowed = false then
    .error (.internal "identity: set user mfa policy: violates check constraint")
  else commit audit { s with overrides := s.overrides.upsert userId (policyRow required method) }

def State.clearUserPolicy (userId : String) (audit : Audit) : Except PolicyError State :=
  if s.accounts.get? userId = none then .error .userNotFound
  else commit audit { s with overrides := s.overrides.erase userId }

inductive Call where
  | setGlobalPolicy (required : Bool) (method : String)
  | setUserPolicy (userId : String) (required : Bool) (method : String)
  | clearUserPolicy (userId : String)

def State.call : Call → Audit → Except PolicyError State
  | .setGlobalPolicy required method => s.setGlobalPolicy required method
  | .setUserPolicy userId required method => s.setUserPolicy userId required method
  | .clearUserPolicy userId => s.clearUserPolicy userId

/-- A refused call changes nothing. -/
def State.step (op : Call × Audit) : State :=
  match s.call op.1 op.2 with
  | .ok s' => s'
  | .error _ => s

/-! ## The floor -/

def State.Floor : Prop :=
  ∀ userId p, s.effectivePolicy userId = .ok p → mfaPolicyRank s.global.policy ≤ mfaPolicyRank p

/-- A call that sets the global policy puts it above no override that is stored. -/
def State.Keeps (op : Call × Audit) : Prop :=
  ∀ required method, op = (.setGlobalPolicy required method, .ok ()) →
    ∀ userId r, s.overrides.get? userId = some r → mfaPolicyRank ⟨required, method⟩ ≤ mfaPolicyRank r.policy

theorem policy_policyRow (required : Bool) (method : String) :
    (policyRow required method).policy = ⟨required, method⟩ := by
  unfold PolicyRow.policy policyRow strOrNil
  by_cases hm : method = ""
  · rw [if_pos hm, hm]
    rfl
  · rw [if_neg hm]
    rfl

theorem floor_iff {s : State} : s.Floor ↔ ∀ userId r, s.overrides.get? userId = some r →
      mfaPolicyRank s.global.policy ≤ mfaPolicyRank r.policy := by
  constructor
  · intro h userId r hr
    apply h userId
    unfold State.effectivePolicy
    rw [hr]
  · intro h userId p hp
    unfold State.effectivePolicy at hp
    cases hr : s.overrides.get? userId with
    | some r =>
      rw [hr] at hp
      rw [← Except.ok.inj hp]
      exact h userId r hr
    | none =>
      rw [hr] at hp
      have hglo := (ite_error_eq_ok.mp hp).2
      exact Nat.le_of_eq (congrArg mfaPolicyRank (Except.ok.inj hglo))

/-! What a call did: nothing, or the one write it makes. -/

theorem rank_of_refused {s : State} {required : Bool} {method : String} {e : PolicyError}
    (h : s.setGlobalPolicy required method (.ok ()) = .error e) :
    mfaPolicyRank ⟨required, method⟩ = 0 := by
  unfold State.setGlobalPolicy at h
  split at h
  · rename_i henf
    have hmeth : ¬ (method = "otp" ∨ method = "passkey" ∨ method = "otp_or_passkey") := by
      simpa [isEnforceableMfaMethod] using henf.2
    rw [not_or, not_or] at hmeth
    simp [mfaPolicyRank, hmeth.1, hmeth.2.1, hmeth.2.2]
  · rename_i henf
    split at h
    · rename_i hok
      -- a required policy that gets here has a method the column takes
      cases required with
      | false => rfl
      | true =>
        rw [not_and, Bool.not_eq_false] at henf
        have hmeth := of_decide_eq_true (henf rfl)
        rcases hmeth with rfl | rfl | rfl <;> exact absurd hok (by decide)
    · cases h

theorem step_setGlobalPolicy (required : Bool) (method : String) (audit : Audit) :
    (s.step (.setGlobalPolicy required method, audit) =
        { s with global := policyRow required method } ∧ audit = .ok ()) ∨
      (s.step (.setGlobalPolicy required method, audit) = s ∧
        (audit = .ok () → mfaPolicyRank ⟨required, method⟩ = 0)) := by
  unfold State.step
  cases hcall : s.call (.setGlobalPolicy required method) audit with
  | ok s' =>
    obtain ⟨_, h⟩ := ite_error_eq_ok.mp hcall
    obtain ⟨_, h⟩ := ite_error_eq_ok.mp h
    cases audit with
    | error cause => cases h
    | ok u => exact .inl ⟨(Except.ok.inj h).symm, rfl⟩
  | error e =>
    refine .inr ⟨rfl, ?_⟩
    rintro rfl
    exact rank_of_refused hcall

theorem step_setUserPolicy (userId : String) (required : Bool) (method : String) (audit : Audit) :
    s.step (.setUserPolicy userId required method, audit) = s ∨
      (s.step (.setUserPolicy userId required method, audit) =
          { s with overrides := s.overrides.upsert userId (policyRow required method) } ∧
        mfaPolicyRank s.global.policy ≤ mfaPolicyRank ⟨required, method⟩) := by
  unfold State.step
  cases hcall : s.call (.setUserPolicy userId required method) audit with
  | error e => exact .inl rfl
  | ok s' =>
    obtain ⟨_, h⟩ := ite_error_eq_ok.mp hcall
    obtain ⟨_, h⟩ := ite_error_eq_ok.mp h
    obtain ⟨hrank, h⟩ := ite_error_eq_ok.mp h
    obtain ⟨_, h⟩ := ite_error_eq_ok.mp h
    cases audit with
    | error cause => cases h
    | ok u => exact .inr ⟨(Except.ok.inj h).symm, Nat.le_of_not_lt hrank⟩

theorem step_clearUserPolicy (userId : String) (audit : Audit) : s.step (.clearUserPolicy userId, audit) = s ∨
      s.step (.clearUserPolicy userId, audit) = { s with overrides := s.overrides.erase userId } := by
  unfold State.step
  cases hcall : s.call (.clearUserPolicy userId) audit with
  | error e => exact .inl rfl
  | ok s' =>
    have h := (ite_error_eq_ok.mp hcall).2
    cases audit with
    | error cause => cases h
    | ok u => exact .inr (Except.ok.inj h).symm

theorem floor_step_iff (op : Call × Audit) (h : s.Floor) : (s.step op).Floor ↔ s.Keeps op := by
  obtain ⟨call, audit⟩ := op
  cases call with
  | setGlobalPolicy required method =>
    rcases step_setGlobalPolicy s required method audit with ⟨hstep, rfl⟩ | ⟨hstep, hrank⟩
    · rw [hstep, floor_iff]
      dsimp only
      rw [policy_policyRow]
      constructor
      · intro hfloor required' method' heq
        cases heq
        exact hfloor
      · exact fun hkeeps => hkeeps required method rfl
    · rw [hstep]
      refine iff_of_true h fun required' method' heq userId r _ => ?_
      cases heq
      rw [hrank rfl]
      exact Nat.zero_le _
  | setUserPolicy userId required method =>
    have hkeeps : s.Keeps (.setUserPolicy userId required method, audit) := by
      intro _ _ heq
      cases heq
    refine iff_of_true ?_ hkeeps
    rcases step_setUserPolicy s userId required method audit with hstep | ⟨hstep, hrank⟩
    · rw [hstep]
      exact h
    rw [hstep, floor_iff]
    intro id r hr
    dsimp only at hr ⊢
    rw [get?_upsert] at hr
    split at hr
    · rw [← Option.some.inj hr, policy_policyRow]
      exact hrank
    · exact floor_iff.mp h id r hr
  | clearUserPolicy userId =>
    have hkeeps : s.Keeps (.clearUserPolicy userId, audit) := by
      intro _ _ heq
      cases heq
    refine iff_of_true ?_ hkeeps
    rcases step_clearUserPolicy s userId audit with hstep | hstep
    · rw [hstep]
      exact h
    rw [hstep, floor_iff]
    intro id r hr
    dsimp only at hr ⊢
    rw [get?_erase] at hr
    split at hr
    · cases hr
    · exact floor_iff.mp h id r hr

theorem start_floor (accounts : Keyed.Table String String) : (State.start accounts).Floor :=
  floor_iff.mpr nofun

theorem listEffectivePolicies_policy {s : State} {e : UserPolicyInput}
    (he : e ∈ s.listEffectivePolicies) : s.effectivePolicy e.userId = .ok e.policy := by
  obtain ⟨ua, hua, rfl⟩ := List.mem_map.mp he
  unfold State.effectivePolicy
  cases hr : s.overrides.get? ua.1 with
  | some r => simp only [hr]
  | none =>
    have hacc : s.accounts.get? ua.1 = some ua.2 := get?_eq_some_iff.mpr hua
    simp only [hr, hacc]
    rfl

/-- No effective policy ranks below the global one at any time of a run exactly when no call of the
run raises the global policy above a stored override; the list that drives the sync reports the
effective policy of every account in every state. -/
theorem effectivePolicy_floor_iff (accounts : Keyed.Table String String) (ops : List (Call × Audit)) :
    ((∀ pre post, ops = pre ++ post → (pre.foldl State.step (.start accounts)).Floor) ↔
      ∀ pre op post, ops = pre ++ op :: post → (pre.foldl State.step (.start accounts)).Keeps op) ∧
    ∀ s : State, s.listEffectivePolicies.map UserPolicyInput.userId = s.accounts.rows.map Prod.fst ∧
      ∀ e ∈ s.listEffectivePolicies, s.effectivePolicy e.userId = .ok e.policy := by
  refine ⟨Runs.foldl_all_iff (start_floor accounts) floor_step_iff ops, fun s => ⟨?_, ?_⟩⟩
  · unfold State.listEffectivePolicies
    rw [List.map_map]
    refine List.map_congr_left fun ua _ => ?_
    cases hr : s.overrides.get? ua.1 with
    | some r | none => simp only [Function.comp, hr]
  · exact fun e he => listEffectivePolicies_policy he

def oneAccount : Keyed.Table String String := ⟨[("u", "kc-u")], by decide⟩

def overrideThenGlobal : List (Call × Audit) :=
  [(.setUserPolicy "u" true "otp", .ok ()), (.setGlobalPolicy true "passkey", .ok ())]

/-- An override set under no requirement, and then a global passkey policy: the user is left with the
weaker one. -/
theorem overrideThenGlobal_below : let s := overrideThenGlobal.foldl State.step (.start oneAccount)
    s.effectivePolicy "u" = .ok ⟨true, "otp"⟩ ∧ s.global.policy = ⟨true, "passkey"⟩ ∧
      mfaPolicyRank ⟨true, "otp"⟩ < mfaPolicyRank s.global.policy := by
  refine ⟨rfl, rfl, by decide⟩

end Kiban.Identity
