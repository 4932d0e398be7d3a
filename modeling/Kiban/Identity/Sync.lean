import Kiban.Identity.Policy

/-!
# The sync of MFA policies to Keycloak

`SyncMfaPolicy` writes the mode of every account's effective policy into one attribute of the Keycloak user: a GET of
the whole representation and a PUT of it with the attribute set, and Keycloak takes over every field that a PUT has.
Other administrators change users at any time; `others` remembers each user as the last of them left it.
-/

namespace Kiban.Identity.Sync

open Runs List Function

variable {φ : Type}

def requiredModeAttribute : String := "kiban.login_security.required_mode"

/-- A user representation: its fields, and among them the map of attributes. -/
structure UserRep (φ : Type) where
  fields : String → Option φ
  attributes : Option (String → Option (List String))

namespace UserRep

def getAttribute (r : UserRep φ) (key : String) : Option (List String) := r.attributes.bind fun attrs => attrs key

/-- What a PUT makes of a user: every field of the body is taken over. -/
def put (r body : UserRep φ) : UserRep φ where
  fields := fun k => (body.fields k).or (r.fields k)
  attributes := body.attributes.or r.attributes

/-- The body that `SetUserAttribute` sends. -/
def setAttribute (r : UserRep φ) (key value : String) : UserRep φ where
  fields := r.fields
  attributes := some (Function.update (r.attributes.getD fun _ => none) key (some [value]))

def SameApart (a b : UserRep φ) : Prop :=
  a.fields = b.fields ∧ ∀ key, key ≠ requiredModeAttribute → a.getAttribute key = b.getAttribute key

end UserRep

structure SyncOutcome where
  (userId kcSub : String)
  required : Bool
  requiredMode : String
  success : Bool
  error : String
deriving DecidableEq

/-- The methods are those the CHECK of the column allows, so that `%q` only adds the quotes. -/
def requiredModeFor (policy : MfaPolicy) : Except String String :=
  if policy.required = false then .ok "none"
  else if policy.method = "otp" then .ok "otp_required"
  else if policy.method = "passkey" then .ok "passkey_required"
  else if policy.method = "otp_or_passkey" then .ok "otp_or_passkey_required"
  else
    .error ("identity: mfa policy required=true has no enforceable method " ++
      "(want one of otp, passkey, otp_or_passkey, got \"" ++ policy.method ++ "\")")

/-- What the queries of `ListEffectivePolicies` have read; `kc_sub` is UNIQUE.  The global row is read by a
query of its own, after the accounts and their overrides. -/
structure PolicyRead where
  tables : State
  unique : (tables.accounts.rows.map Prod.snd).Nodup

def PolicyRead.inputs (r : PolicyRead) : List UserPolicyInput := r.tables.listEffectivePolicies

/-- Keycloak's users, and a sync under way: the users it has not come to, the representation it holds of
the first of them, and what it has to report. -/
structure World (φ : Type) where
  users : String → Option (UserRep φ)
  others : String → Option (UserRep φ)
  -- an administrator has written the user after the sync has
  rewritten : String → Bool
  inputs : List UserPolicyInput
  held : Option (UserRep φ)
  outcomes : List SyncOutcome

/-- How a PUT ends: it is carried out, it is not, or it is and the answer is lost. -/
inductive PutResult where
  | done
  | refused (cause : String)
  | lost (cause : String)

inductive Event (φ : Type) where
  | write (kcSub : String) (user : Option (UserRep φ))
  | unmapped
  | get (fault : Option String)
  | put (result : PutResult)

namespace World

def start (users : String → Option (UserRep φ)) (r : PolicyRead) : World φ :=
  ⟨users, users, fun _ => false, r.inputs, none, []⟩

/-- The outcome for the user the sync is at, and on to the next. -/
def report (w : World φ) (i : UserPolicyInput) (rest : List UserPolicyInput) (requiredMode : String)
    (error : Option String) : World φ :=
  { w with
    inputs := rest
    held := none
    outcomes := w.outcomes ++ [{ userId := i.userId, kcSub := i.kcSub, required := i.policy.required,
                                 requiredMode, success := error.isNone, error := error.getD "" }] }

def setUser (w : World φ) (kcSub : String) (user : UserRep φ) : World φ :=
  { w with
    users := Function.update w.users kcSub (some user)
    rewritten := Function.update w.rewritten kcSub false }

def attributeError (cause : String) : String := "identity: set user attribute: " ++ cause

def step (w : World φ) : Event φ → Option (World φ)
  | .write kcSub user =>
    some { w with
      users := Function.update w.users kcSub user
      others := Function.update w.others kcSub user
      rewritten := Function.update w.rewritten kcSub true }
  | .unmapped =>
    match w.inputs with
    | [] => none
    | i :: rest =>
      match requiredModeFor i.policy with
      | .error e => some (w.report i rest "" (some e))
      | .ok _ => none
  | .get fault =>
    match w.inputs, w.held with
    | i :: rest, none =>
      match requiredModeFor i.policy with
      | .error _ => none
      | .ok mode =>
        match fault, w.users i.kcSub with
        | some cause, _ => some (w.report i rest mode (some (attributeError cause)))
        | none, none =>
          some (w.report i rest mode (some (attributeError
            "identity: get-user request: unexpected status 404")))
        | none, some user => some { w with held := some user }
    | _, _ => none
  | .put result =>
    match w.inputs, w.held with
    | i :: rest, some got =>
      match requiredModeFor i.policy with
      | .error _ => none
      | .ok mode =>
        let body := got.setAttribute requiredModeAttribute mode
        match result, w.users i.kcSub with
        | .refused cause, _ => some (w.report i rest mode (some (attributeError cause)))
        | _, none =>
          some (w.report i rest mode (some (attributeError
            "identity: update-user request: unexpected status 404")))
        | .done, some user => some ((w.setUser i.kcSub (user.put body)).report i rest mode none)
        | .lost cause, some user =>
          some ((w.setUser i.kcSub (user.put body)).report i rest mode (some (attributeError cause)))
    | _, _ => none

end World

/-! ## What an event does -/

inductive Moved (w : World φ) (ev : Event φ) (w' : World φ) : Prop
  | written (kcSub : String) (user : Option (UserRep φ)) (hev : ev = .write kcSub user)
      (hw' : w' = { w with
        users := Function.update w.users kcSub user
        others := Function.update w.others kcSub user
        rewritten := Function.update w.rewritten kcSub true })
  | failed (i : UserPolicyInput) (rest : List UserPolicyInput) (mode error : String)
      (hinputs : w.inputs = i :: rest) (hw' : w' = w.report i rest mode (some error))
  | got (i : UserPolicyInput) (rest : List UserPolicyInput) (user : UserRep φ)
      (hinputs : w.inputs = i :: rest) (huser : w.users i.kcSub = some user)
      (hw' : w' = { w with held := some user })
  | put (i : UserPolicyInput) (rest : List UserPolicyInput) (got user : UserRep φ) (mode : String)
      (error : Option String) (hinputs : w.inputs = i :: rest) (hheld : w.held = some got)
      (hmode : requiredModeFor i.policy = .ok mode) (huser : w.users i.kcSub = some user)
      (hw' : w' = (w.setUser i.kcSub (user.put (got.setAttribute requiredModeAttribute mode))).report i rest
        mode error)

theorem step_moved {w w'} (ev : Event φ) (h : w.step ev = some w') : Moved w ev w' := by
  cases ev with
  | write kcSub user => exact .written kcSub user rfl (Option.some.inj h).symm
  | unmapped =>
    simp only [World.step] at h
    split at h
    · cases h
    rename_i i rest hinp
    split at h
    · rename_i e _
      exact .failed i rest "" e hinp (Option.some.inj h).symm
    · cases h
  | get fault =>
    simp only [World.step] at h
    split at h
    · rename_i i rest hinp hheld
      split at h
      · cases h
      split at h
      · exact .failed i rest _ _ hinp (Option.some.inj h).symm
      · exact .failed i rest _ _ hinp (Option.some.inj h).symm
      · rename_i user huser
        exact .got i rest user hinp huser (Option.some.inj h).symm
    · cases h
  | put result =>
    simp only [World.step] at h
    split at h
    · rename_i i rest got hinp hheld
      split at h
      · cases h
      rename_i mode hmode
      split at h
      · exact .failed i rest _ _ hinp (Option.some.inj h).symm
      · exact .failed i rest _ _ hinp (Option.some.inj h).symm
      · rename_i user huser
        exact .put i rest got user mode none hinp hheld hmode huser (Option.some.inj h).symm
      · rename_i cause user huser
        exact .put i rest got user mode _ hinp hheld hmode huser (Option.some.inj h).symm
    · cases h

/-! ## Nothing but the attribute -/

def Agree : Option (UserRep φ) → Option (UserRep φ) → Prop
  | none, none => True
  | some a, some b => a.SameApart b
  | _, _ => False

theorem agree_refl (a : Option (UserRep φ)) : Agree a a := by
  cases a with
  | none => trivial
  | some a => exact ⟨rfl, fun _ _ => rfl⟩

/-- A PUT of what was read a moment ago changes the attribute and nothing else. -/
theorem put_setAttribute_same (r : UserRep φ) (mode : String) :
    (r.put (r.setAttribute requiredModeAttribute mode)).SameApart r := by
  constructor
  · funext k
    change (r.fields k).or (r.fields k) = r.fields k
    rw [Option.or_self]
  intro key hkey
  change Function.update (r.attributes.getD fun _ => none) requiredModeAttribute (some [mode]) key = _
  rw [update_of_ne hkey]
  unfold UserRep.getAttribute
  cases r.attributes with
  | none | some attrs => rfl

theorem getAttribute_put (r got : UserRep φ) (mode : String) :
    (r.put (got.setAttribute requiredModeAttribute mode)).getAttribute requiredModeAttribute = some [mode] := by
  change Function.update (got.attributes.getD fun _ => none) requiredModeAttribute (some [mode])
    requiredModeAttribute = _
  rw [update_self]

/-- No other administrator updates a user while the sync holds a representation of it. -/
def Undisturbed (w : World φ) : Event φ → Prop
  | .write kcSub (some _) => ∀ i ∈ w.inputs.head?, w.held.isSome = true → i.kcSub ≠ kcSub
  | _ => True

structure Framed (w : World φ) : Prop where
  agree : ∀ k, Agree (w.users k) (w.others k)
  held : ∀ got, w.held = some got → ∃ i rest, w.inputs = i :: rest ∧
    ∀ user, w.users i.kcSub = some user → user = got

section Frame

variable {w w' : World φ}

theorem framed_step (hinv : Framed w) (ev : Event φ) (hund : Undisturbed w ev)
    (h : w.step ev = some w') : Framed w' := by
  cases step_moved ev h with
  | written kcSub user hev hw' =>
    subst hev hw'
    constructor
    · intro k
      by_cases hk : k = kcSub
      · subst hk
        simp only [update_self]
        exact agree_refl user
      · simp only [update_of_ne hk]
        exact hinv.agree k
    · intro got hgot
      obtain ⟨i, rest, hinp, hfound⟩ := hinv.held got hgot
      refine ⟨i, rest, hinp, fun user' huser' => ?_⟩
      have hsome : w.held.isSome = true := by
        rw [show w.held = some got from hgot]
        rfl
      change Function.update w.users kcSub user i.kcSub = some user' at huser'
      by_cases hk : i.kcSub = kcSub
      · rw [hk, update_self] at huser'
        subst huser'
        exact absurd hk (hund i (by rw [hinp]; rfl) hsome)
      · rw [update_of_ne hk] at huser'
        exact hfound user' huser'
  | failed i rest mode error hinp hw' =>
    subst hw'
    exact ⟨hinv.agree, nofun⟩
  | got i rest user hinp huser hw' =>
    subst hw'
    refine ⟨hinv.agree, fun got hgot => ⟨i, rest, hinp, fun user' huser' => ?_⟩⟩
    rw [← Option.some.inj hgot]
    exact Option.some.inj (huser'.symm.trans huser)
  | put i rest got user mode error hinp hheld hmode huser hw' =>
    subst hw'
    refine ⟨fun k => ?_, nofun⟩
    change Agree (Function.update w.users i.kcSub _ k) (w.others k)
    by_cases hk : k = i.kcSub
    · subst hk
      -- the user is as it was read
      obtain ⟨i', rest', hinp', hfound⟩ := hinv.held got hheld
      obtain ⟨rfl, rfl⟩ := List.cons.inj (hinp.symm.trans hinp')
      obtain rfl := hfound user huser
      have hagree := hinv.agree i.kcSub
      rw [huser] at hagree
      rw [update_self]
      cases hother : w.others i.kcSub with
      | none =>
        rw [hother] at hagree
        exact hagree
      | some other =>
        rw [hother] at hagree
        have hsame := put_setAttribute_same user mode
        exact ⟨hsame.1.trans hagree.1, fun key hkey => (hsame.2 key hkey).trans (hagree.2 key hkey)⟩
    · rw [update_of_ne hk]
      exact hinv.agree k

end Frame

/-! ## What is reported -/

theorem PolicyRead.nodup_kcSub (r : PolicyRead) : (r.inputs.map UserPolicyInput.kcSub).Nodup := by
  have hsubs : r.inputs.map UserPolicyInput.kcSub = r.tables.accounts.rows.map Prod.snd := by
    unfold PolicyRead.inputs State.listEffectivePolicies
    rw [map_map]
    refine map_congr_left fun ua _ => ?_
    cases hr : r.tables.overrides.get? ua.1 with
    | some row | none => simp only [Function.comp, hr]
  rw [hsubs]
  exact r.unique

/-- The user has the mode, unless an administrator wrote the user after the sync. -/
def World.Carries (w : World φ) (kcSub mode : String) : Prop :=
  w.rewritten kcSub = false →
    ∃ user, w.users kcSub = some user ∧ user.getAttribute requiredModeAttribute = some [mode]

structure Reported (r : PolicyRead) (w : World φ) : Prop where
  order : w.outcomes.map SyncOutcome.kcSub ++ w.inputs.map UserPolicyInput.kcSub =
    r.inputs.map UserPolicyInput.kcSub
  inputs : ∀ i ∈ w.inputs, i ∈ r.inputs
  success : ∀ o ∈ w.outcomes, o.success = true → (∃ policy, r.tables.effectivePolicy o.userId = .ok policy ∧
    requiredModeFor policy = .ok o.requiredMode) ∧ w.Carries o.kcSub o.requiredMode

section Report

variable {r : PolicyRead} {w w' : World φ}

theorem reported_order {i rest mode error} (hinv : Reported r w) (hinp : w.inputs = i :: rest) :
    (w.report i rest mode error).outcomes.map SyncOutcome.kcSub ++ rest.map UserPolicyInput.kcSub =
      r.inputs.map UserPolicyInput.kcSub := by
  rw [← hinv.order, hinp]
  simp [World.report]

theorem reported_step (hinv : Reported r w) (ev : Event φ) (h : w.step ev = some w') :
    Reported r w' := by
  cases step_moved ev h with
  | written kcSub user hev hw' =>
    subst hw'
    refine ⟨hinv.order, hinv.inputs, fun o ho hsucc => ?_⟩
    obtain ⟨hpol, hcarr⟩ := hinv.success o ho hsucc
    refine ⟨hpol, fun hrew => ?_⟩
    change Function.update w.rewritten kcSub true o.kcSub = false at hrew
    change ∃ u, Function.update w.users kcSub user o.kcSub = some u ∧ _
    by_cases hk : o.kcSub = kcSub
    · rw [hk, update_self] at hrew
      cases hrew
    · rw [update_of_ne hk] at hrew ⊢
      exact hcarr hrew
  | failed i rest mode error hinp hw' =>
    subst hw'
    refine ⟨reported_order hinv hinp, fun j hj => ?_, fun o ho hsucc => ?_⟩
    · exact hinv.inputs j (hinp ▸ mem_cons_of_mem i hj)
    · rcases mem_append.mp ho with hold | hnew
      · exact hinv.success o hold hsucc
      · rw [mem_singleton.mp hnew] at hsucc
        cases hsucc
  | got i rest user hinp huser hw' =>
    subst hw'
    exact ⟨hinv.order, hinv.inputs, hinv.success⟩
  | put i rest got user mode error hinp hheld hmode huser hw' =>
    have horder := hinv.order
    rw [hinp] at horder
    have hnodup := r.nodup_kcSub
    rw [← horder, map_cons] at hnodup
    subst hw'
    refine ⟨?_, fun j hj => ?_, fun o ho hsucc => ?_⟩
    · exact reported_order (w := w) hinv hinp
    · exact hinv.inputs j (hinp ▸ mem_cons_of_mem i hj)
    · rcases mem_append.mp ho with hold | hnew
      · -- an earlier outcome is about another user
        have hne : o.kcSub ≠ i.kcSub :=
          (nodup_append.mp hnodup).2.2 _ (mem_map_of_mem hold) _ mem_cons_self
        obtain ⟨hpol, hcarr⟩ := hinv.success o hold hsucc
        refine ⟨hpol, fun hrew => ?_⟩
        change Function.update w.rewritten i.kcSub false o.kcSub = false at hrew
        change ∃ u, Function.update w.users i.kcSub _ o.kcSub = some u ∧ _
        rw [update_of_ne hne] at hrew ⊢
        exact hcarr hrew
      · have hi : i ∈ r.inputs := hinv.inputs i (hinp ▸ mem_cons_self)
        rw [mem_singleton.mp hnew]
        refine ⟨⟨i.policy, listEffectivePolicies_policy hi, hmode⟩, fun _ => ⟨_, ?_, getAttribute_put user got mode⟩⟩
        exact update_self ..

end Report

theorem sync_frame (r : PolicyRead) (users : String → Option (UserRep φ)) (w : World φ)
    (hrun : Reach World.step Undisturbed (.start users r) w) :
    (∀ kcSub, Agree (w.users kcSub) (w.others kcSub)) ∧
    ∀ o ∈ w.outcomes, o.success = true → (∃ policy, r.tables.effectivePolicy o.userId = .ok policy ∧
      requiredModeFor policy = .ok o.requiredMode) ∧ w.Carries o.kcSub o.requiredMode := by
  have hfra : Framed w := hrun.invariant ⟨fun k => agree_refl _, nofun⟩
    fun _ _ ev hinv hund hstep => framed_step hinv ev hund hstep
  have hrep : Reported r w := hrun.invariant ⟨rfl, fun _ hi => hi, nofun⟩
    fun _ _ ev hinv _ hstep => reported_step hinv ev hstep
  exact ⟨hfra.agree, hrep.success⟩

/-! ## One user -/

def miaRead : PolicyRead :=
  ⟨⟨⟨[("u1", "mia")], by decide⟩, ⟨false, none⟩, ⟨[("u1", ⟨true, some "otp"⟩)], by decide⟩⟩, by decide⟩

def miaRep (enabled : Bool) : UserRep Bool :=
  ⟨fun k => if k = "enabled" then some enabled else none, none⟩

def miaUsers : String → Option (UserRep Bool) := fun k => if k = "mia" then some (miaRep true) else none

instance (w : World φ) : (ev : Event φ) → Decidable (Undisturbed w ev)
  | .write kcSub (some _) =>
    inferInstanceAs (Decidable (∀ i ∈ w.inputs.head?, w.held.isSome = true → i.kcSub ≠ kcSub))
  | .write _ none | .unmapped | .get _ | .put _ => inferInstanceAs (Decidable True)

/-- What is seen of the user in the two records, and what the sync reports. -/
def World.mia (w : World Bool) : Option Bool × Option Bool × List SyncOutcome :=
  ((w.users "mia").bind fun user => user.fields "enabled", (w.others "mia").bind fun user => user.fields "enabled",
    w.outcomes)

def otpWritten : SyncOutcome := ⟨"u1", "mia", true, "otp_required", true, ""⟩

/-- The account is disabled before the sync comes to it. -/
def disabledBefore : List (Event Bool) := [.write "mia" (some (miaRep false)), .get none, .put .done]

theorem sync_frame_disabledBefore : ∃ w, Reach World.step Undisturbed (.start miaUsers miaRead) w ∧
    w.mia = (some false, some false, [otpWritten]) ∧ Agree (w.users "mia") (w.others "mia") ∧
      w.Carries "mia" "otp_required" := by
  have hrun : (disabledBefore.foldlM (fun w ev => if decide (Undisturbed w ev) then w.step ev else none)
      (World.start miaUsers miaRead)).map World.mia = some (some false, some false, [otpWritten]) := by
    decide +kernel
  obtain ⟨w, hw, hmia⟩ := Option.map_eq_some_iff.mp hrun
  have hreach : Reach World.step Undisturbed (.start miaUsers miaRead) w :=
    reach_of_checked (fun w ev => decide (Undisturbed w ev)) (fun _ _ => of_decide_eq_true) disabledBefore hw
  have hframe := sync_frame miaRead miaUsers w hreach
  have hout : w.outcomes = [otpWritten] := congrArg (fun seen => seen.2.2) hmia
  have hcarr := hframe.2 otpWritten (hout ▸ mem_singleton_self _) rfl
  exact ⟨w, hreach, hmia, hframe.1 "mia", hcarr.2⟩

/-- The account is disabled between the GET and the PUT of the sync. -/
def disabledBetween : List (Event Bool) := [.get none, .write "mia" (some (miaRep false)), .put .done]

theorem disabledBetween_undone : ∃ w, disabledBetween.foldlM World.step (.start miaUsers miaRead) = some w ∧
    w.mia = (some true, some false, [otpWritten]) ∧ ¬ Agree (w.users "mia") (w.others "mia") := by
  have hrun : (disabledBetween.foldlM World.step (World.start miaUsers miaRead)).map World.mia =
      some (some true, some false, [otpWritten]) := by decide +kernel
  obtain ⟨w, hw, hmia⟩ := Option.map_eq_some_iff.mp hrun
  refine ⟨w, hw, hmia, fun hagree => ?_⟩
  obtain ⟨husers, hrest⟩ := Prod.mk.inj hmia
  obtain ⟨hoth, _⟩ := Prod.mk.inj hrest
  obtain ⟨user, huser, hena⟩ := Option.bind_eq_some_iff.mp husers
  obtain ⟨other, hother, hdis⟩ := Option.bind_eq_some_iff.mp hoth
  rw [huser, hother] at hagree
  rw [hagree.1, hdis] at hena
  cases hena

end Kiban.Identity.Sync
