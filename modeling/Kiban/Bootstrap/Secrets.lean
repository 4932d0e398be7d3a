import Mathlib.Logic.Function.Basic
import Mathlib.Data.List.Basic

/-!
# The file with the identity client's secret

`writeServiceSecrets` writes a new secret when it rotates, the configured one when there is one, and what Keycloak has
otherwise.  A configured secret is written without a look at what Keycloak has.
-/

namespace Kiban.Bootstrap

def identityServiceClientID : String := "kiban-identity-service"

def serviceUID : Nat := 65532

structure SecretDeps where
  (secretsDir identityClientSecret : String)
  rotateSecrets : Bool

/-- What a request for a new secret comes to: it may have been made although its answer is lost. -/
inductive Regenerate where
  | answered (value : String)
  | refused (err : String)
  | lost (value err : String)

/-- How the calls of one run end, where it makes them. -/
structure SecretCalls where
  find : Except String Bool
  regenerate : Regenerate
  (read mkdir : Except String Unit)
  readable : Bool
  -- a write that fails may leave anything in the file
  write : Except (String × Option String) Unit
  chown : Except String Unit

structure SecretWorld where
  secret : String
  files : String → Option String

def outcomeWord (changed : Bool) : String := if changed then "applied" else "converged"

section Source

variable (path : String → String) (d : SecretDeps) (c : SecretCalls) (w : SecretWorld)

def currentSecret : Except String String × SecretWorld :=
  if d.rotateSecrets then
    match c.regenerate with
    | .answered value => (.ok value, { w with secret := value })
    | .refused err => (.error ("rotate " ++ identityServiceClientID ++ " secret: " ++ err), w)
    | .lost value err =>
      (.error ("rotate " ++ identityServiceClientID ++ " secret: " ++ err), { w with secret := value })
  else if d.identityClientSecret = "" then
    match c.read with
    | .ok () => (.ok w.secret, w)
    | .error err => (.error ("read " ++ identityServiceClientID ++ " secret: " ++ err), w)
  else (.ok d.identityClientSecret, w)

def secretDetail (file : String) (changed : Bool) : String :=
  "secrets: identity client secret written to " ++ file ++ " (" ++ outcomeWord changed ++ ")" ++
    if d.rotateSecrets then " — ROTATED: operator must update KEYCLOAK_IDENTITY_CLIENT_SECRET (env/compose) to match, " ++
      "or the running identity service will keep using its old value until restarted with the new one" else ""

def handOver (file : String) (changed : Bool) (w : SecretWorld) : Except String (String × Bool) × SecretWorld :=
  match c.chown with
  | .error err => (.error ("chown " ++ file ++ " to uid " ++ toString serviceUID ++ ": " ++ err), w)
  | .ok () => (.ok (secretDetail d file changed, changed), w)

/-- `path` is `filepath.Join` of the directory with the name of the file. -/
def storeSecret (secret : String) (w : SecretWorld) : Except String (String × Bool) × SecretWorld :=
  match c.mkdir with
  | .error err => (.error ("mkdir " ++ d.secretsDir ++ ": " ++ err), w)
  | .ok () =>
    let file := path d.secretsDir
    let changed := d.rotateSecrets || !c.readable || w.files file ≠ some secret
    if changed then
      match c.write with
      | .error (err, left) => (.error ("write " ++ file ++ ": " ++ err), { w with files := Function.update w.files file left })
      | .ok () => handOver d c file changed { w with files := Function.update w.files file (some secret) }
    else handOver d c file changed w

def writeServiceSecrets : Except String (String × Bool) × SecretWorld :=
  if d.secretsDir = "" then (.ok ("secrets: skipped (SecretsDir not set)", false), w)
  else
    match c.find with
    | .error err => (.error err, w)
    | .ok false => (.error ("client " ++ identityServiceClientID ++ " not found"), w)
    | .ok true =>
      match currentSecret d c w with
      | (.error err, w) => (.error err, w)
      | (.ok secret, w) => storeSecret path d c secret w

end Source

/-! ## Runs -/

variable (path : String → String)

abbrev SecretRun := SecretDeps × SecretCalls

def stepSecret (w : SecretWorld) (r : SecretRun) : SecretWorld := (writeServiceSecrets path r.1 r.2 w).2

def Succeeds (w : SecretWorld) (r : SecretRun) : Prop :=
  r.1.secretsDir ≠ "" ∧ ∃ detail, (writeServiceSecrets path r.1 r.2 w).1 = .ok detail

/-- The file holds what Keycloak has once the run is over. -/
def FollowsKeycloak (w : SecretWorld) (r : SecretRun) : Prop :=
  Succeeds path w r → (stepSecret path w r).files (path r.1.secretsDir) = some (stepSecret path w r).secret

/-- The secret that the run is going to write is the one Keycloak has then. -/
def Current (w : SecretWorld) (r : SecretRun) : Prop :=
  r.1.rotateSecrets = true ∨ r.1.identityClientSecret = "" ∨ r.1.identityClientSecret = w.secret

variable {path : String → String} {d : SecretDeps} {c : SecretCalls} {w w' : SecretWorld} {secret : String}
  {detail : String × Bool}

theorem handOver_ok {file changed} (h : handOver d c file changed w = (.ok detail, w')) : w' = w := by
  unfold handOver at h
  split at h
  · cases h
  · exact (Prod.mk.inj h).2.symm

theorem storeSecret_ok (h : storeSecret path d c secret w = (.ok detail, w')) :
    w'.files (path d.secretsDir) = some secret ∧ w'.secret = w.secret := by
  unfold storeSecret at h
  split at h
  · cases h
  dsimp only at h
  split at h
  · split at h
    · cases h
    · rw [handOver_ok h]
      exact ⟨Function.update_self _ _ _, rfl⟩
  · rename_i hsame
    rw [handOver_ok h]
    simp only [Bool.or_eq_true, not_or, decide_eq_true_eq, not_not] at hsame
    exact ⟨hsame.2, rfl⟩

theorem currentSecret_ok (h : currentSecret d c w = (.ok secret, w')) : secret = w'.secret ↔ Current w (d, c) := by
  unfold currentSecret at h
  unfold Current
  split at h
  · rename_i hrot
    split at h
    · cases h
      exact iff_of_true rfl (.inl hrot)
    · cases h
    · cases h
  · rename_i hrot
    split at h
    · rename_i hempty
      split at h
      · cases h
        exact iff_of_true rfl (.inr (.inl hempty))
      · cases h
    · rename_i hset
      cases h
      rw [or_iff_right hrot, or_iff_right hset]

theorem followsKeycloak_iff (r : SecretRun) : FollowsKeycloak path w r ↔ (Succeeds path w r → Current w r) := by
  refine forall_congr' fun ⟨hdir, detail, hok⟩ => ?_
  generalize hrun : writeServiceSecrets path r.1 r.2 w = run at hok
  obtain ⟨answer, w'⟩ := run
  rw [stepSecret, hrun]
  obtain rfl : answer = .ok detail := hok
  unfold writeServiceSecrets at hrun
  rw [if_neg hdir] at hrun
  split at hrun
  · cases hrun
  · cases hrun
  · split at hrun
    · cases hrun
    · rename_i hcur
      obtain ⟨hfile, hsec⟩ := storeSecret_ok hrun
      rw [hfile, hsec, Option.some_inj]
      exact currentSecret_ok hcur

/-- In a sequence of runs the file follows Keycloak after each one that succeeds exactly when each of these rotates, or
has no secret configured, or has the one that Keycloak holds when it begins. -/
theorem secretFile_follows_iff (path : String → String) (w : SecretWorld) (runs : List SecretRun) :
    (∀ before r after, runs = before ++ r :: after → FollowsKeycloak path (before.foldl (stepSecret path) w) r) ↔
      ∀ before r after, runs = before ++ r :: after → Succeeds path (before.foldl (stepSecret path) w) r →
        Current (before.foldl (stepSecret path) w) r :=
  forall_congr' fun _ => forall_congr' fun r => forall_congr' fun _ => forall_congr' fun _ => followsKeycloak_iff r

def answering (value : String) : SecretCalls :=
  ⟨.ok true, .answered value, .ok (), .ok (), true, .ok (), .ok ()⟩

/-- A rotation, and then a run with the secret that was configured all along. -/
theorem secretFile_reverts : ∃ w : SecretWorld, w.secret = "s0" ∧
      ¬ ∀ before r after, [(⟨"/secrets", "s0", true⟩, answering "s1"), (⟨"/secrets", "s0", false⟩, answering "")] =
        before ++ r :: after → FollowsKeycloak id (before.foldl (stepSecret id) w) r := by
  refine ⟨⟨"s0", fun _ => none⟩, rfl, fun h => ?_⟩
  have hsec := h [(⟨"/secrets", "s0", true⟩, answering "s1")] _ [] rfl ⟨by decide, _, rfl⟩
  exact absurd (Option.some.inj hsec) (by decide)

end Kiban.Bootstrap
