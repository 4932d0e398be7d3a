import Kiban.Lib.Fallible
import Kiban.Lib.Keyed
import Kiban.Lib.Runs

/-!
# Concurrent transactions under READ COMMITTED

A transaction is a program of statements (`Prog`).  A statement reads the rows committed so far together with the
transaction's own writes, waits while another open transaction holds a lock it needs, adds to the writes and the locks
of its transaction, and decides how the program goes on.  Writes reach the others at the commit; locks are held to the
end.  `Prog.run` is a transaction that runs alone, `step` the machine that interleaves any number of them.

Invariants of the committed state are proved transaction by transaction: `Prog.wp` says that a program is ready to
commit whatever the others have committed meanwhile, as far as the locks it holds allow (the rely), and
`Contract.reach` that then every commit of every run is as promised.
-/

namespace Transactions

open List Keyed.Table

variable {σ ω κ ℓ ε α β ρ : Type}

/-- The rest of a transaction.  A statement has a label, the locks it waits for, those among them it
keeps, and its writes. -/
inductive Prog (σ ω κ ℓ ε α : Type) where
  | ret (a : α)
  | fail (e : ε)
  | stmt (label : ℓ) (waits takes : σ → List κ) (writes : σ → List ω)
      (next : σ → Prog σ ω κ ℓ ε α)

namespace Prog

def bind : Prog σ ω κ ℓ ε α → (α → Prog σ ω κ ℓ ε β) → Prog σ ω κ ℓ ε β
  | .ret a, f => f a
  | .fail e, _ => .fail e
  | .stmt label waits takes writes next, f => .stmt label waits takes writes fun s => (next s).bind f

instance : Monad (Prog σ ω κ ℓ ε) where
  pure := .ret
  bind := .bind

/-- A statement whose answer may be an error, which ends the transaction. -/
def exec (label : ℓ) (waits takes : σ → List κ) (answer : σ → Except ε (α × List ω)) : Prog σ ω κ ℓ ε α :=
  .stmt label waits takes (fun s => match answer s with
      | .ok r => r.2
      | .error _ => [])
    (fun s => match answer s with
      | .ok r => .ret r.1
      | .error e => .fail e)

def read (label : ℓ) (answer : σ → Except ε α) : Prog σ ω κ ℓ ε α :=
  exec label (fun _ => []) (fun _ => []) fun s => (answer s).map fun a => (a, [])

def ofExcept : Except ε α → Prog σ ω κ ℓ ε α
  | .ok a => .ret a
  | .error e => .fail e

/-- A program on a part of the state, inside a transaction on the whole. -/
def lift {σ' ω' κ' ℓ' ε' : Type} (part : σ' → σ) (write : ω → ω') (key : κ → κ') (name : ℓ → ℓ')
    (err : ε → ε') : Prog σ ω κ ℓ ε α → Prog σ' ω' κ' ℓ' ε' α
  | .ret a => .ret a
  | .fail e => .fail (err e)
  | .stmt label waits takes writes next =>
    .stmt (name label) (fun s => (waits (part s)).map key) (fun s => (takes (part s)).map key)
      (fun s => (writes (part s)).map write) fun s => (next (part s)).lift part write key name err

section Lift

variable {σ' ω' κ' ℓ' ε' : Type} {part : σ' → σ} {write : ω → ω'} {key : κ → κ'} {name : ℓ → ℓ'} {err : ε → ε'}

theorem lift_bind (p : Prog σ ω κ ℓ ε α) (f : α → Prog σ ω κ ℓ ε β) : (p >>= f).lift part write key name err =
      p.lift part write key name err >>= fun a => (f a).lift part write key name err := by
  induction p with
  | ret a | fail e => rfl
  | stmt label waits takes writes next ih =>
    exact congrArg (Prog.stmt _ _ _ _) (funext fun s => ih (part s))

theorem lift_exec (label : ℓ) (waits takes : σ → List κ) (answer : σ → Except ε (α × List ω)) :
    (exec label waits takes answer).lift part write key name err =
      exec (name label) (fun s => (waits (part s)).map key) (fun s => (takes (part s)).map key)
        fun s => ((answer (part s)).map fun r => (r.1, r.2.map write)).mapError err := by
  unfold exec lift
  congr 1
  · funext s
    dsimp only
    cases answer (part s) with
    | error e | ok r => rfl
  · funext s
    dsimp only
    cases answer (part s) with
    | error e | ok r => rfl

end Lift

/-! ## A transaction alone -/

def run (apply : σ → ω → σ) : Prog σ ω κ ℓ ε α → σ → Except ε (α × σ)
  | .ret a, s => .ok (a, s)
  | .fail e, _ => .error e
  | .stmt _ _ _ writes next, s => (next s).run apply ((writes s).foldl apply s)

variable {apply : σ → ω → σ}

theorem run_bind (p : Prog σ ω κ ℓ ε α) (f : α → Prog σ ω κ ℓ ε β) (s : σ) :
    (p >>= f).run apply s = p.run apply s >>= fun r => (f r.1).run apply r.2 := by
  induction p generalizing s with
  | ret a | fail e => rfl
  | stmt label waits takes writes next ih => exact ih s _

theorem run_bind_eq_ok {p} {f : α → Prog σ ω κ ℓ ε β} {s} {r : β × σ} : (p >>= f).run apply s = .ok r ↔
      ∃ a s₁, p.run apply s = .ok (a, s₁) ∧ (f a).run apply s₁ = .ok r := by
  rw [run_bind, Fallible.bind_eq_ok]
  exact ⟨fun ⟨q, hq⟩ => ⟨q.1, q.2, hq⟩, fun ⟨a, s₁, h⟩ => ⟨(a, s₁), h⟩⟩

theorem run_pure (a : α) (s : σ) : (pure a : Prog σ ω κ ℓ ε α).run apply s = .ok (a, s) := rfl

theorem run_exec (label : ℓ) (waits takes : σ → List κ) (answer : σ → Except ε (α × List ω)) (s : σ) :
    (exec label waits takes answer).run apply s = (answer s).map fun r => (r.1, r.2.foldl apply s) := by
  simp only [exec, run]
  cases answer s with
  | error e | ok r => rfl

theorem run_read (label : ℓ) (answer : σ → Except ε α) (s : σ) :
    (read label answer : Prog σ ω κ ℓ ε α).run apply s = (answer s).map fun a => (a, s) := by
  unfold read
  rw [run_exec]
  cases answer s with
  | error e | ok a => rfl

theorem run_ofExcept_eq_ok {x s s' a} :
    (ofExcept x : Prog σ ω κ ℓ ε α).run apply s = .ok (a, s') ↔ x = .ok a ∧ s = s' := by
  unfold ofExcept
  cases x with
  | error e => exact ⟨nofun, nofun⟩
  | ok b => simp [run, eq_comm]

section Lift

variable {σ' ω' κ' ℓ' ε' : Type} (part : σ' → σ) (put : σ' → σ → σ') {write : ω → ω'}
  {key : κ → κ'} {name : ℓ → ℓ'} {err : ε → ε'} {apply' : σ' → ω' → σ'}

theorem foldl_lift (hpart : ∀ s a, part (put s a) = a) (hself : ∀ s, put s (part s) = s)
    (hput : ∀ s a b, put (put s a) b = put s b)
    (happly : ∀ s w, apply' s (write w) = put s (apply (part s) w)) (ws : List ω) (s : σ') :
    (ws.map write).foldl apply' s = put s (ws.foldl apply (part s)) := by
  induction ws generalizing s with
  | nil => exact (hself s).symm
  | cons w ws ih => rw [map_cons, foldl_cons, ih, happly, hpart, hput, foldl_cons]

theorem run_lift (hpart : ∀ s a, part (put s a) = a) (hself : ∀ s, put s (part s) = s)
    (hput : ∀ s a b, put (put s a) b = put s b)
    (happly : ∀ s w, apply' s (write w) = put s (apply (part s) w)) (p : Prog σ ω κ ℓ ε α) (s : σ') :
    (p.lift part write key name err).run apply' s =
      ((p.run apply (part s)).map fun r => (r.1, put s r.2)).mapError err := by
  induction p generalizing s with
  | ret a =>
    change Except.ok (a, s) = Except.ok (a, put s (part s))
    rw [hself]
  | fail e => rfl
  | stmt label waits takes writes next ih =>
    change ((next (part s)).lift part write key name err).run apply'
      (((writes (part s)).map write).foldl apply' s) = _
    rw [foldl_lift part put hpart hself hput happly, ih, hpart]
    simp only [hput]
    rfl

end Lift

end Prog

/-! ## The machine -/

/-- What an open transaction has done: its writes, the locks it holds, the statements it has run. -/
structure Trail (ω κ ℓ : Type) where
  writes : List ω
  held : List κ
  log : List ℓ

def Trail.start : Trail ω κ ℓ := ⟨[], [], []⟩

abbrev Trail.extend (tr : Trail ω κ ℓ) (writes : List ω) (locks : List κ) (label : ℓ) : Trail ω κ ℓ :=
  ⟨tr.writes ++ writes, tr.held ++ locks, tr.log ++ [label]⟩

structure Session (σ ω κ ℓ ε ρ : Type) where
  request : ρ
  rest : Prog σ ω κ ℓ ε Unit
  trail : Trail ω κ ℓ

structure State (σ ω κ ℓ ε ρ : Type) where
  committed : σ
  sessions : Keyed.Table Nat (Session σ ω κ ℓ ε ρ)

inductive Action (ρ : Type) where
  | begin (t : Nat) (r : ρ)
  | exec (t : Nat)
  | commit (t : Nat)
  | rollback (t : Nat)

def Action.isCommit : Action ρ → Bool
  | .commit _ => true
  | _ => false

/-- How a write changes the rows, and the constraints checked when a transaction commits. -/
structure Schema (σ ω : Type) where
  apply : σ → ω → σ
  valid : σ → Bool

def Schema.view (db : Schema σ ω) (ws : List ω) (s : σ) : σ := ws.foldl db.apply s

theorem Schema.view_append (db : Schema σ ω) (ws new : List ω) (s : σ) :
    db.view (ws ++ new) s = db.view new (db.view ws s) := foldl_append

section Machine

variable [DecidableEq κ]

def State.blocked (s : State σ ω κ ℓ ε ρ) (t : Nat) (ks : List κ) : Bool :=
  s.sessions.rows.any fun r => r.1 != t && ks.any fun k => k ∈ r.2.trail.held

def step (db : Schema σ ω) (prog : ρ → Prog σ ω κ ℓ ε Unit) (s : State σ ω κ ℓ ε ρ) :
    Action ρ → Option (State σ ω κ ℓ ε ρ)
  | .begin t r =>
    match s.sessions.get? t with
    | some _ => none
    | none => some { s with sessions := s.sessions.insertMissing t ⟨r, prog r, .start⟩ }
  | .exec t =>
    match s.sessions.get? t with
    | some ⟨r, .stmt label waits takes writes next, tr⟩ =>
      let seen := db.view tr.writes s.committed
      if s.blocked t (waits seen ++ takes seen) then none
      else
        some { s with
          sessions := s.sessions.upsert t
            ⟨r, next seen, tr.writes ++ writes seen, tr.held ++ takes seen, tr.log ++ [label]⟩ }
    | _ => none
  | .commit t =>
    match s.sessions.get? t with
    | some ⟨_, .ret _, tr⟩ =>
      let after := db.view tr.writes s.committed
      if db.valid after then some ⟨after, s.sessions.erase t⟩ else none
    | _ => none
  | .rollback t =>
    match s.sessions.get? t with
    | some _ => some { s with sessions := s.sessions.erase t }
    | none => none

def State.start (s : σ) : State σ ω κ ℓ ε ρ := ⟨s, .empty⟩

variable {db : Schema σ ω} {prog : ρ → Prog σ ω κ ℓ ε Unit} {s s' : State σ ω κ ℓ ε ρ} {t : Nat}

/-! What each action needs and does. -/

theorem step_begin {r} (h : step db prog s (.begin t r) = some s') : s.sessions.get? t = none ∧
      s' = { s with sessions := s.sessions.insertMissing t ⟨r, prog r, .start⟩ } := by
  simp only [step] at h
  cases hget : s.sessions.get? t with
  | some ss =>
    rw [hget] at h
    cases h
  | none =>
    rw [hget] at h
    exact ⟨rfl, (Option.some.inj h).symm⟩

theorem step_exec (h : step db prog s (.exec t) = some s') : ∃ r label waits takes writes next tr,
      s.sessions.get? t = some ⟨r, .stmt label waits takes writes next, tr⟩ ∧
      s.blocked t (waits (db.view tr.writes s.committed) ++ takes (db.view tr.writes s.committed)) = false ∧
      s' = { s with
        sessions := s.sessions.upsert t ⟨r, next (db.view tr.writes s.committed),
            tr.writes ++ writes (db.view tr.writes s.committed),
            tr.held ++ takes (db.view tr.writes s.committed), tr.log ++ [label]⟩ } := by
  simp only [step] at h
  cases hget : s.sessions.get? t with
  | none =>
    rw [hget] at h
    cases h
  | some ss =>
    rw [hget] at h
    obtain ⟨r, rest, tr⟩ := ss
    cases rest with
    | ret a => cases h
    | fail e => cases h
    | stmt label waits takes writes next =>
      dsimp only at h
      by_cases hblk : s.blocked t (waits (db.view tr.writes s.committed) ++
          takes (db.view tr.writes s.committed)) = true
      · rw [if_pos hblk] at h
        cases h
      · rw [if_neg hblk] at h
        exact ⟨r, label, waits, takes, writes, next, tr, rfl, Bool.eq_false_iff.mpr hblk, (Option.some.inj h).symm⟩

theorem step_commit (h : step db prog s (.commit t) = some s') : ∃ r tr, s.sessions.get? t = some ⟨r, .ret (), tr⟩ ∧
      db.valid (db.view tr.writes s.committed) = true ∧
      s' = ⟨db.view tr.writes s.committed, s.sessions.erase t⟩ := by
  simp only [step] at h
  cases hget : s.sessions.get? t with
  | none =>
    rw [hget] at h
    cases h
  | some ss =>
    rw [hget] at h
    obtain ⟨r, rest, tr⟩ := ss
    cases rest with
    | fail e => cases h
    | stmt label waits takes writes next => cases h
    | ret a =>
      dsimp only at h
      by_cases hvalid : db.valid (db.view tr.writes s.committed) = true
      · rw [if_pos hvalid] at h
        exact ⟨r, tr, rfl, hvalid, (Option.some.inj h).symm⟩
      · rw [if_neg hvalid] at h
        cases h

theorem step_rollback (h : step db prog s (.rollback t) = some s') :
    s' = { s with sessions := s.sessions.erase t } := by
  simp only [step] at h
  cases hget : s.sessions.get? t with
  | none =>
    rw [hget] at h
    cases h
  | some ss =>
    rw [hget] at h
    exact (Option.some.inj h).symm

theorem step_committed {a} (h : step db prog s a = some s') (ha : a.isCommit = false) :
    s'.committed = s.committed := by
  cases a with
  | begin t r =>
    obtain ⟨_, rfl⟩ := step_begin h
    rfl
  | exec t =>
    obtain ⟨r, label, waits, takes, writes, next, tr, _, _, rfl⟩ := step_exec h
    rfl
  | commit t => cases ha
  | rollback t =>
    cases step_rollback h
    rfl

theorem State.free_of_blocked {ks} (h : s.blocked t ks = false) {t' ss}
    (hget : s.sessions.get? t' = some ss) (hne : t' ≠ t) {k} (hk : k ∈ ks) : k ∉ ss.trail.held := by
  intro hheld
  have hrow := any_eq_false.mp h (t', ss) (get?_eq_some_iff.mp hget)
  rw [Bool.and_eq_true, not_and] at hrow
  exact hrow (bne_iff_ne.mpr hne) (any_eq_true.mpr ⟨k, hk, decide_eq_true hheld⟩)

/-- A run without commits, where only a commit can be a bad step. -/
theorem reach_of_noCommit {good : State σ ω κ ℓ ε ρ → Action ρ → Prop} {s₀}
    (hgood : ∀ s a, a.isCommit = false → good s a) (as : List (Action ρ))
    (h : as.foldlM (step db prog) s₀ = some s) (has : (as.any Action.isCommit) = false) :
    Runs.Reach (step db prog) good s₀ s :=
  Runs.reach_of_foldlM as h fun a ha s =>
    hgood s a (Bool.eq_false_iff.mpr (any_eq_false.mp has a ha))

end Machine

/-- Nobody else has a transaction open when one commits. -/
def State.loneCommit (s : State σ ω κ ℓ ε ρ) : Action ρ → Bool
  | .commit t => s.sessions.rows.all fun r => r.1 == t
  | _ => true

theorem State.get?_of_loneCommit {s : State σ ω κ ℓ ε ρ} {t : Nat} (h : s.loneCommit (.commit t) = true)
    {t' : Nat} (hne : t' ≠ t) : s.sessions.get? t' = none := by
  refine Option.eq_none_iff_forall_ne_some.mpr fun ss hget => hne ?_
  exact beq_iff_eq.mp (all_eq_true.mp h (t', ss) (get?_eq_some_iff.mp hget))

section Lone

variable [DecidableEq κ] {db : Schema σ ω} {prog : ρ → Prog σ ω κ ℓ ε Unit}

def loneStep (db : Schema σ ω) (prog : ρ → Prog σ ω κ ℓ ε Unit) (s : State σ ω κ ℓ ε ρ) (a : Action ρ) :
    Option (State σ ω κ ℓ ε ρ) :=
  if s.loneCommit a then step db prog s a else none

theorem reach_of_loneCommit {good : State σ ω κ ℓ ε ρ → Action ρ → Prop} {s₀ s}
    (hgood : ∀ s a, s.loneCommit a = true → good s a) (as : List (Action ρ))
    (h : as.foldlM (loneStep db prog) s₀ = some s) : Runs.Reach (step db prog) good s₀ s :=
  Runs.reach_of_checked State.loneCommit hgood as h

end Lone

/-! ## Invariants of the committed state -/

def State.Exclusive (s : State σ ω κ ℓ ε ρ) : Prop :=
  ∀ t t' ss ss', s.sessions.get? t = some ss → s.sessions.get? t' = some ss' → t ≠ t' →
    ∀ k ∈ ss.trail.held, k ∉ ss'.trail.held

theorem State.Exclusive.erase {s : State σ ω κ ℓ ε ρ} (h : s.Exclusive) (t : Nat) (c : σ) :
    State.Exclusive ⟨c, s.sessions.erase t⟩ := by
  intro t₁ t₂ ss₁ ss₂ h₁ h₂
  rw [get?_erase] at h₁ h₂
  split at h₁
  · cases h₁
  · split at h₂
    · cases h₂
    · exact h t₁ t₂ ss₁ ss₂ h₁ h₂

/-- Whatever the others commit between the statements, as far as the rely allows for the statement
that is next and what has been done before it, the program ends with the postcondition.  A failed
program rolls back. -/
def Prog.wp (db : Schema σ ω) (Inv : σ → Prop) (R : Option ℓ → Trail ω κ ℓ → σ → σ → Prop)
    (post : α → Trail ω κ ℓ → σ → Prop) : Prog σ ω κ ℓ ε α → Trail ω κ ℓ → σ → Prop
  | .ret a, tr, c => post a tr c
  | .fail _, _, _ => True
  | .stmt label _ takes writes next, tr, c =>
    ∀ c', R (some label) tr c c' → Inv c' → (next (db.view tr.writes c')).wp db Inv R post
        ⟨tr.writes ++ writes (db.view tr.writes c'), tr.held ++ takes (db.view tr.writes c'), tr.log ++ [label]⟩ c'

/-- Where `cond` holds of what the statement reads it answers `a`, and has written `new` and taken `locks`. -/
abbrev Yields (db : Schema σ ω) (Inv : σ → Prop) (R : Option ℓ → Trail ω κ ℓ → σ → σ → Prop)
    (post : α → Trail ω κ ℓ → σ → Prop) (tr : Trail ω κ ℓ) (c : σ) (label : ℓ) (cond : σ → Prop) (a : α)
    (new : List ω) (locks : List κ) : Prop :=
  ∀ c', R (some label) tr c c' → Inv c' → cond (db.view tr.writes c') → post a (tr.extend new locks label) c'

section Wp

variable {db : Schema σ ω} {Inv : σ → Prop} {R : Option ℓ → Trail ω κ ℓ → σ → σ → Prop}
  {post post' : α → Trail ω κ ℓ → σ → Prop} {tr : Trail ω κ ℓ} {c c' : σ}
  {label : ℓ} {waits takes : σ → List κ} {answer : σ → Except ε (α × List ω)}

theorem Prog.wp_pure (a : α) : (pure a : Prog σ ω κ ℓ ε α).wp db Inv R post = post a := rfl

theorem Prog.wp_ret {a} (h : post a tr c) : (ret a : Prog σ ω κ ℓ ε α).wp db Inv R post tr c := h

theorem Prog.wp_fail (e : ε) : (fail e : Prog σ ω κ ℓ ε α).wp db Inv R post tr c := trivial

theorem Prog.wp_stmt {writes : σ → List ω} {next : σ → Prog σ ω κ ℓ ε α} :
    (stmt label waits takes writes next).wp db Inv R post tr c ↔ ∀ c', R (some label) tr c c' → Inv c' →
        (next (db.view tr.writes c')).wp db Inv R post
          (tr.extend (writes (db.view tr.writes c')) (takes (db.view tr.writes c')) label) c' := Iff.rfl

theorem Prog.wp_bind (p : Prog σ ω κ ℓ ε β) (f : β → Prog σ ω κ ℓ ε α) :
    (p >>= f).wp db Inv R post = p.wp db Inv R fun b => (f b).wp db Inv R post := by
  funext tr c
  induction p generalizing tr c with
  | ret b | fail e => rfl
  | stmt label waits takes writes next ih =>
    exact propext (forall_congr' fun c' => imp_congr_right fun _ => imp_congr_right fun _ => (ih _ _ _).to_iff)

theorem Prog.wp_exec (h : ∀ c' a new, R (some label) tr c c' → Inv c' →
      answer (db.view tr.writes c') = .ok (a, new) →
      post a (tr.extend new (takes (db.view tr.writes c')) label) c') :
    (exec label waits takes answer).wp db Inv R post tr c := by
  intro c' hR hInv
  cases hans : answer (db.view tr.writes c') with
  | error e => simp only [hans, wp]
  | ok r =>
    have hpost := h c' r.1 r.2 hR hInv hans
    simpa only [hans, wp] using hpost

theorem Prog.wp_lift_exec {σ' ω' κ' ℓ' ε' : Type} {db} {Inv : σ' → Prop}
    {R : Option ℓ' → Trail ω' κ' ℓ' → σ' → σ' → Prop} {post : α → Trail ω' κ' ℓ' → σ' → Prop}
    {tr c part} {write : ω → ω'} {key : κ → κ'} {name : ℓ → ℓ'} {err : ε → ε'}
    (h : ∀ c' a new, R (some (name label)) tr c c' → Inv c' → answer (part (db.view tr.writes c')) = .ok (a, new) →
      post a (tr.extend (new.map write) ((takes (part (db.view tr.writes c'))).map key) (name label)) c') :
    ((exec label waits takes answer).lift part write key name err).wp db Inv R post tr c := by
  rw [lift_exec]
  refine wp_exec fun c' a new hR hInv hans => ?_
  cases hread : answer (part (db.view tr.writes c')) with
  | error e =>
    rw [hread] at hans
    cases hans
  | ok r =>
    rw [hread] at hans
    cases hans
    exact h c' _ _ hR hInv hread

theorem Prog.wp_read {answer : σ → Except ε α} (h : ∀ c' a, R (some label) tr c c' → Inv c' →
      answer (db.view tr.writes c') = .ok a → post a { tr with log := tr.log ++ [label] } c') :
    (read label answer).wp db Inv R post tr c := by
  refine wp_exec fun c' a new hR hInv hans => ?_
  cases hread : answer (db.view tr.writes c') with
  | error e =>
    rw [hread] at hans
    cases hans
  | ok b =>
    rw [hread] at hans
    cases hans
    rw [Trail.extend, append_nil, append_nil]
    exact h c' _ hR hInv hread

theorem Prog.wp_ofExcept {x} (h : ∀ a, x = .ok a → post a tr c) :
    (ofExcept x : Prog σ ω κ ℓ ε α).wp db Inv R post tr c := by
  unfold ofExcept
  cases x with
  | error e => trivial
  | ok a => exact h a rfl

theorem Prog.wp.mono {p : Prog σ ω κ ℓ ε α} (h : p.wp db Inv R post tr c)
    (hpost : ∀ a tr c, post a tr c → post' a tr c) : p.wp db Inv R post' tr c := by
  induction p generalizing tr c with
  | ret a => exact hpost a tr c h
  | fail e => trivial
  | stmt label waits takes writes next ih => exact fun c' hR hInv => ih _ (h c' hR hInv)

theorem Prog.wp.and {p : Prog σ ω κ ℓ ε α} (h : p.wp db Inv R post tr c) (h' : p.wp db Inv R post' tr c) :
    p.wp db Inv R (fun a tr c => post a tr c ∧ post' a tr c) tr c := by
  induction p generalizing tr c with
  | ret a => exact ⟨h, h'⟩
  | fail e => trivial
  | stmt label waits takes writes next ih => exact fun c' hR hInv => ih _ (h c' hR hInv) (h' c' hR hInv)

theorem Prog.wp.of_rely {R' : Option ℓ → Trail ω κ ℓ → σ → σ → Prop} {p : Prog σ ω κ ℓ ε α}
    (h : p.wp db Inv R post tr c) (hR : ∀ next tr c c', R' next tr c c' → R next tr c c') :
    p.wp db Inv R' post tr c := by
  induction p generalizing tr c with
  | ret a => exact h
  | fail e => trivial
  | stmt label waits takes writes next ih => exact fun c' hR' hInv => ih _ (h c' (hR _ _ _ _ hR') hInv)

/-- A loop, with what holds before each turn of it. -/
theorem Prog.wp_forM {f : β → Prog σ ω κ ℓ ε Unit} {Q : List β → Trail ω κ ℓ → σ → Prop} (l : List β)
    (hstep : ∀ b rest tr c, Q (b :: rest) tr c → (f b).wp db Inv R (fun _ => Q rest) tr c)
    (h : Q l tr c) : (l.forM f).wp db Inv R (fun _ => Q []) tr c := by
  induction l generalizing tr c with
  | nil => exact h
  | cons b l ih =>
    change (f b >>= fun _ => l.forM f).wp db Inv R (fun _ => Q []) tr c
    rw [wp_bind]
    exact (hstep b l tr c h).mono fun _ tr' c' hrest => ih hrest

end Wp

/-- Every statement writes only what has the property. -/
def Prog.Writes (P : ω → Prop) : Prog σ ω κ ℓ ε α → Prop
  | .ret _ => True
  | .fail _ => True
  | .stmt _ _ _ writes next => (∀ s, ∀ w ∈ writes s, P w) ∧ ∀ s, (next s).Writes P

section Writes

variable {P : ω → Prop} {p : Prog σ ω κ ℓ ε α} {label : ℓ}

theorem Prog.Writes.bind {f : α → Prog σ ω κ ℓ ε β} (hp : p.Writes P)
    (hf : ∀ a, (f a).Writes P) : (p >>= f).Writes P := by
  induction p with
  | ret a => exact hf a
  | fail e => trivial
  | stmt label waits takes writes next ih => exact ⟨hp.1, fun s => ih s (hp.2 s)⟩

theorem Prog.writes_exec {waits takes : σ → List κ} {answer : σ → Except ε (α × List ω)}
    (h : ∀ s r, answer s = .ok r → ∀ w ∈ r.2, P w) : (exec label waits takes answer).Writes P := by
  refine ⟨fun s w hw => ?_, fun s => ?_⟩
  · dsimp only at hw
    cases hans : answer s with
    | error e =>
      rw [hans] at hw
      cases hw
    | ok r =>
      rw [hans] at hw
      exact h s r hans w hw
  · dsimp only
    cases answer s with
    | error e | ok r => trivial

theorem Prog.writes_any (h : ∀ w, P w) (p : Prog σ ω κ ℓ ε α) : p.Writes P := by
  induction p with
  | ret a | fail e => trivial
  | stmt label waits takes writes next ih => exact ⟨fun s w _ => h w, ih⟩

theorem Prog.writes_read {answer : σ → Except ε α} : (read label answer : Prog σ ω κ ℓ ε α).Writes P := by
  refine writes_exec fun s r hr w hw => ?_
  obtain ⟨a, _, rfl⟩ := Fallible.map_eq_ok.mp hr
  cases hw

theorem Prog.writes_forM {f : β → Prog σ ω κ ℓ ε Unit} (l : List β)
    (h : ∀ b ∈ l, (f b).Writes P) : (l.forM f).Writes P := by
  induction l with
  | nil => trivial
  | cons b l ih =>
    exact (h b mem_cons_self).bind fun _ => ih fun b' hb' => h b' (mem_cons_of_mem b hb')

theorem Prog.Writes.lift {σ' ω' κ' ℓ' ε' : Type} {part : σ' → σ} {write : ω → ω'} {key : κ → κ'}
    {name : ℓ → ℓ'} {err : ε → ε'} {P' : ω' → Prop} (hp : p.Writes P)
    (h : ∀ w, P w → P' (write w)) : (p.lift part write key name err).Writes P' := by
  induction p with
  | ret a | fail e => trivial
  | stmt label waits takes writes next ih =>
    refine ⟨fun s w hw => ?_, fun s => ih (part s) (hp.2 (part s))⟩
    obtain ⟨w', hw', rfl⟩ := mem_map.mp hw
    exact h w' (hp.1 (part s) w' hw')

/-- What is known of a transaction stays known while its statements write only what does not matter
to it. -/
theorem Prog.Writes.wp {db} {Inv : σ → Prop} {R : Option ℓ → Trail ω κ ℓ → σ → σ → Prop}
    {post : α → Trail ω κ ℓ → σ → Prop} {J : Trail ω κ ℓ → σ → Prop} {tr c} (hp : p.Writes P)
    (hrely : ∀ next tr c c', J tr c → R next tr c c' → J tr c')
    (hwrite : ∀ tr c new locks label, J tr c → (∀ w ∈ new, P w) → J (tr.extend new locks label) c)
    (hJ : J tr c) (hpost : ∀ a tr c, J tr c → post a tr c) : p.wp db Inv R post tr c := by
  induction p generalizing tr c with
  | ret a => exact hpost a tr c hJ
  | fail e => trivial
  | stmt label waits takes writes next ih =>
    intro c' hR _
    exact ih _ (hp.2 _) (hwrite tr c' _ _ label (hrely _ tr c c' hJ hR) (hp.1 _))

end Writes

/-- A program whose locks keep everybody else from committing runs as if it were alone. -/
theorem Prog.wp_alone {db : Schema σ ω} {Inv : σ → Prop} {R : Option ℓ → Trail ω κ ℓ → σ → σ → Prop}
    {post : α → Trail ω κ ℓ → σ → Prop} {tr : Trail ω κ ℓ} {c : σ} {p : Prog σ ω κ ℓ ε α}
    (halone : ∀ next tr' c', tr.held ⊆ tr'.held → R next tr' c c' → c' = c)
    (h : ∀ a tr', tr.held ⊆ tr'.held →
      p.run db.apply (db.view tr.writes c) = .ok (a, db.view tr'.writes c) → post a tr' c) :
    p.wp db Inv R post tr c := by
  induction p generalizing tr with
  | ret a => exact h a tr (List.Subset.refl _) rfl
  | fail e => trivial
  | stmt label waits takes writes next ih =>
    intro c' hR _
    cases halone _ _ c' (List.Subset.refl _) hR
    have hheld : tr.held ⊆ tr.held ++ takes (db.view tr.writes c) := subset_append_left _ _
    refine ih _ (fun next tr' c' hsub => halone next tr' c' (List.Subset.trans hheld hsub)) fun a tr' hsub hrun => ?_
    refine h a tr' (List.Subset.trans hheld hsub) ?_
    rw [← hrun]
    change (next _).run db.apply ((writes (db.view tr.writes c)).foldl db.apply _) = _
    unfold Schema.view
    rw [foldl_append]

/-- What a transaction owes when its program has ended: whatever the others commit before it does,
its commit keeps the invariant and its guarantee, if it may commit at all. -/
def Ready (db : Schema σ ω) (Inv : σ → Prop) (R : Option ℓ → Trail ω κ ℓ → σ → σ → Prop)
    (May : Trail ω κ ℓ → σ → Prop) (G : Trail ω κ ℓ → σ → σ → Prop) :
    Unit → Trail ω κ ℓ → σ → Prop :=
  fun _ tr c => ∀ c', R none tr c c' → Inv c' → db.valid (db.view tr.writes c') = true → May tr c' →
    Inv (db.view tr.writes c') ∧ G tr c' (db.view tr.writes c')

def Prog.label? : Prog σ ω κ ℓ ε α → Option ℓ
  | .stmt label _ _ _ _ => some label
  | _ => none

/-- A way to keep an invariant of the committed state along the runs whose steps are all good: a program for each
request that is ready to commit under the rely, which a good statement finds met, and guarantees that give every other
open transaction its rely. -/
structure Protocol (db : Schema σ ω) (prog : ρ → Prog σ ω κ ℓ ε Unit)
    (good : State σ ω κ ℓ ε ρ → Action ρ → Prop) (Inv : σ → Prop)
    (R : Option ℓ → Trail ω κ ℓ → σ → σ → Prop) (May : Trail ω κ ℓ → σ → Prop)
    (G : ρ → Trail ω κ ℓ → σ → σ → Prop) : Prop where
  exec : ∀ s t ss, good s (.exec t) → s.sessions.get? t = some ss →
    R ss.rest.label? ss.trail s.committed s.committed
  commit : ∀ tr c, R none tr c c
  may : ∀ s t r tr, good s (.commit t) → s.sessions.get? t = some ⟨r, .ret (), tr⟩ → May tr s.committed
  compatible : ∀ s t r tr t' ss, good s (.commit t) → s.sessions.get? t = some ⟨r, .ret (), tr⟩ →
    s.sessions.get? t' = some ss → t ≠ t' → (∀ e, ss.rest ≠ .fail e) → (∀ k ∈ tr.held, k ∉ ss.trail.held) →
    G r tr s.committed (db.view tr.writes s.committed) →
    ∀ c, R ss.rest.label? ss.trail (db.view tr.writes s.committed) c → R ss.rest.label? ss.trail s.committed c
  keeps : ∀ r c, Inv c → (prog r).wp db Inv R (Ready db Inv R May (G r)) .start c

/-- A protocol whose rely is met by every statement. -/
structure Contract (db : Schema σ ω) (prog : ρ → Prog σ ω κ ℓ ε Unit)
    (good : State σ ω κ ℓ ε ρ → Action ρ → Prop) (Inv : σ → Prop)
    (R : Option ℓ → Trail ω κ ℓ → σ → σ → Prop) (May : Trail ω κ ℓ → σ → Prop)
    (G : ρ → Trail ω κ ℓ → σ → σ → Prop) : Prop where
  refl : ∀ next tr c, R next tr c c
  trans : ∀ next tr a b c, R next tr a b → R next tr b c → R next tr a c
  may : ∀ s t r tr, good s (.commit t) → s.sessions.get? t = some ⟨r, .ret (), tr⟩ → May tr s.committed
  compatible : ∀ s t r tr t' ss, good s (.commit t) → s.sessions.get? t = some ⟨r, .ret (), tr⟩ →
    s.sessions.get? t' = some ss → t ≠ t' → (∀ k ∈ tr.held, k ∉ ss.trail.held) →
    G r tr s.committed (db.view tr.writes s.committed) →
    R ss.rest.label? ss.trail s.committed (db.view tr.writes s.committed)
  keeps : ∀ r c, Inv c → (prog r).wp db Inv R (Ready db Inv R May (G r)) .start c

section Contract

variable {db : Schema σ ω} {prog : ρ → Prog σ ω κ ℓ ε Unit}
  {good : State σ ω κ ℓ ε ρ → Action ρ → Prop} {Inv : σ → Prop}
  {R : Option ℓ → Trail ω κ ℓ → σ → σ → Prop} {May : Trail ω κ ℓ → σ → Prop}
  {G : ρ → Trail ω κ ℓ → σ → σ → Prop} {s s' : State σ ω κ ℓ ε ρ} {c c' : σ}

/-- What holds between the steps of a run. -/
structure State.Kept (db : Schema σ ω) (Inv : σ → Prop) (R : Option ℓ → Trail ω κ ℓ → σ → σ → Prop)
    (May : Trail ω κ ℓ → σ → Prop) (G : ρ → Trail ω κ ℓ → σ → σ → Prop) (s : State σ ω κ ℓ ε ρ) : Prop where
  inv : Inv s.committed
  ready : ∀ t ss, s.sessions.get? t = some ss →
    ss.rest.wp db Inv R (Ready db Inv R May (G ss.request)) ss.trail s.committed
  exclusive : s.Exclusive

theorem Contract.protocol (hc : Contract db prog good Inv R May G) : Protocol db prog good Inv R May G where
  exec _ _ _ _ _ := hc.refl _ _ _
  commit _ _ := hc.refl _ _ _
  may := hc.may
  compatible s t r tr t' ss hgood hget hget' hne _ hdisj hG c := by
    exact hc.trans _ _ _ _ c (hc.compatible s t r tr t' ss hgood hget hget' hne hdisj hG)
  keeps := hc.keeps

/-- What the others commit within the rely leaves a program as ready as it was. -/
theorem ready_rely {G' : Trail ω κ ℓ → σ → σ → Prop} {p : Prog σ ω κ ℓ ε Unit} {tr : Trail ω κ ℓ}
    (h : p.wp db Inv R (Ready db Inv R May G') tr c)
    (hR : (∀ e, p ≠ .fail e) → ∀ c'', R p.label? tr c' c'' → R p.label? tr c c'') :
    p.wp db Inv R (Ready db Inv R May G') tr c' := by
  cases p with
  | ret a => exact fun c'' hR' => h c'' (hR nofun c'' hR')
  | fail e => trivial
  | stmt label waits takes writes next => exact fun c'' hR' => h c'' (hR nofun c'' hR')

theorem Protocol.kept_step [DecidableEq κ] (hc : Protocol db prog good Inv R May G) {a : Action ρ}
    (hs : s.Kept db Inv R May G) (hgood : good s a) (hstep : step db prog s a = some s') :
    s'.Kept db Inv R May G := by
  cases a with
  | begin t r =>
    obtain ⟨hnone, rfl⟩ := step_begin hstep
    have hget := get?_insertMissing_of_none hnone ⟨r, prog r, .start⟩
    refine ⟨hs.inv, fun t' ss h => ?_, fun t₁ t₂ ss₁ ss₂ h₁ h₂ hne => ?_⟩
    · rw [hget] at h
      split at h
      · cases h
        exact hc.keeps r _ hs.inv
      · exact hs.ready t' ss h
    · rw [hget] at h₁ h₂
      split at h₁
      · cases h₁
        intro k hk
        cases hk
      split at h₂
      · cases h₂
        intro k _ hk
        cases hk
      · exact hs.exclusive t₁ t₂ ss₁ ss₂ h₁ h₂ hne
  | exec t =>
    obtain ⟨r, label, waits, takes, writes, next, tr, hget, hfree, rfl⟩ := step_exec hstep
    refine ⟨hs.inv, fun t' ss h => ?_, fun t₁ t₂ ss₁ ss₂ h₁ h₂ hne k hk => ?_⟩
    · rw [get?_upsert] at h
      split at h
      · cases h
        exact hs.ready t _ hget s.committed (hc.exec s t _ hgood hget) hs.inv
      · exact hs.ready t' ss h
    · rw [get?_upsert] at h₁ h₂
      -- a lock of the statement's transaction is an old one or one that nobody else held
      split at h₁
      · rename_i heq
        cases h₁
        rw [if_neg (fun h => hne (heq.trans h.symm))] at h₂
        rcases mem_append.mp hk with hold | hnew
        · exact hs.exclusive t t₂ _ ss₂ hget h₂ (heq ▸ hne) k hold
        · exact State.free_of_blocked hfree h₂ (fun h => hne (heq.trans h.symm)) (mem_append_right _ hnew)
      · split at h₂
        · rename_i hne₁ heq
          cases h₂
          intro hk'
          rcases mem_append.mp hk' with hold | hnew
          · exact hs.exclusive t₁ t ss₁ _ h₁ hget hne₁ k hk hold
          · exact State.free_of_blocked hfree h₁ hne₁ (mem_append_right _ hnew) hk
        · exact hs.exclusive t₁ t₂ ss₁ ss₂ h₁ h₂ hne k hk
  | commit t =>
    obtain ⟨r, tr, hget, hvalid, rfl⟩ := step_commit hstep
    obtain ⟨hInv, hG⟩ := hs.ready t _ hget s.committed (hc.commit tr _) hs.inv hvalid (hc.may s t r tr hgood hget)
    refine ⟨hInv, fun t' ss h => ?_, hs.exclusive.erase t _⟩
    rw [get?_erase] at h
    split at h
    · cases h
    · rename_i hne
      exact ready_rely (hs.ready t' ss h) fun hlive => (hc.compatible s t r tr t' ss hgood hget h (Ne.symm hne) hlive
        (hs.exclusive t t' _ ss hget h (Ne.symm hne)) hG)
  | rollback t =>
    rw [step_rollback hstep]
    refine ⟨hs.inv, fun t' ss h => ?_, hs.exclusive.erase t _⟩
    rw [get?_erase] at h
    split at h
    · cases h
    · exact hs.ready t' ss h

theorem Protocol.kept [DecidableEq κ] (hc : Protocol db prog good Inv R May G) (hstart : Inv c)
    (h : Runs.Reach (step db prog) good (.start c) s) : s.Kept db Inv R May G :=
  h.invariant ⟨hstart, nofun, nofun⟩ fun _ _ _ hs hgood hstep => hc.kept_step hs hgood hstep

/-- Every commit does what its request guarantees. -/
theorem Protocol.commits [DecidableEq κ] (hc : Protocol db prog good Inv R May G) (hstart : Inv c)
    (h : Runs.Reach (step db prog) good (.start c) s) {t ss} (hgood : good s (.commit t))
    (hget : s.sessions.get? t = some ss) (hstep : step db prog s (.commit t) = some s') :
    G ss.request ss.trail s.committed s'.committed := by
  have hkept := hc.kept hstart h
  obtain ⟨r, tr, hget', hvalid, rfl⟩ := step_commit hstep
  cases hget.symm.trans hget'
  exact (hkept.ready t _ hget s.committed (hc.commit tr _) hkept.inv hvalid (hc.may s t r tr hgood hget)).2

/-- Every committed state has the invariant. -/
theorem Contract.reach [DecidableEq κ] (hc : Contract db prog good Inv R May G) (hstart : Inv c)
    (h : Runs.Reach (step db prog) good (.start c) s) : Inv s.committed :=
  (hc.protocol.kept hstart h).inv

theorem Contract.commit [DecidableEq κ] (hc : Contract db prog good Inv R May G) (hstart : Inv c)
    (h : Runs.Reach (step db prog) good (.start c) s) {t ss} (hgood : good s (.commit t))
    (hget : s.sessions.get? t = some ss) (hstep : step db prog s (.commit t) = some s') :
    G ss.request ss.trail s.committed s'.committed :=
  hc.protocol.commits hstart h hgood hget hstep

end Contract

-- from here on a program is taken apart by the rules above, never by evaluating it
attribute [irreducible] Prog.wp

end Transactions
