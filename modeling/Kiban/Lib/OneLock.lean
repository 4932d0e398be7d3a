import Kiban.Lib.Transactions

/-!
# Transactions that write under one lock

Every transaction takes the same lock before its first write, and nobody else commits anything while it is held.  A
transaction whose first statement takes the lock is therefore a step from one committed state to the next.
-/

namespace Transactions.OneLock

variable {σ ω κ ℓ ε α β ρ : Type}

/-- Nothing is written before the lock is taken, and the rest of the program, from the statement that takes
it, is as `P` says of the state that statement meets. -/
def FromLock (k : κ) (P : σ → Prog σ ω κ ℓ ε α → Prop) : Prog σ ω κ ℓ ε α → Prop
  | .ret a => ∀ s, P s (.ret a)
  | .fail _ => True
  | .stmt label waits takes writes next =>
    ∀ s, (k ∈ takes s ∧ P s (.stmt label waits takes writes next)) ∨ (writes s = [] ∧ FromLock k P (next s))

/-- The first statement takes the lock, unless it fails. -/
def Starts (k : κ) : Prog σ ω κ ℓ ε α → Prop
  | .ret _ => False
  | .fail _ => True
  | .stmt _ _ takes writes next => ∀ s, k ∈ takes s ∨ (writes s = [] ∧ ∃ e, next s = .fail e)

/-- Run alone from a good state, a program ends in a good one, the way `G` says. -/
def Alone (db : Schema σ ω) (Inv : σ → Prop) (G : σ → σ → Prop) (s : σ) (p : Prog σ ω κ ℓ ε α) : Prop :=
  ∀ a s', Inv s → p.run db.apply s = .ok (a, s') → Inv s' ∧ G s s'

section Programs

variable {k : κ} {label : ℓ} {p : Prog σ ω κ ℓ ε α} {x : Except ε α} {f : α → Prog σ ω κ ℓ ε β}
  {P : σ → Prog σ ω κ ℓ ε β → Prop}

theorem starts_exec {waits takes : σ → List κ} {answer : σ → Except ε (α × List ω)}
    (hk : ∀ s r, answer s = .ok r → k ∈ takes s) : Starts k (Prog.exec label waits takes answer) := by
  intro s
  cases hans : answer s with
  | error e => exact .inr ⟨by simp only [hans], e, by simp only [hans]⟩
  | ok r => exact .inl (hk s r hans)

theorem Starts.bind (hp : Starts k p) (f : α → Prog σ ω κ ℓ ε β) : Starts k (p >>= f) := by
  cases p with
  | ret a => exact hp.elim
  | fail e => trivial
  | stmt label waits takes writes next =>
    intro s
    rcases hp s with htakes | ⟨hreads, e, he⟩
    · exact .inl htakes
    · refine .inr ⟨hreads, e, ?_⟩
      show (next s).bind f = .fail e
      rw [he]
      rfl

theorem starts_fail (e : ε) : Starts k (Prog.fail e : Prog σ ω κ ℓ ε α) := trivial

theorem starts_ofExcept (hf : ∀ a, Starts k (f a)) : Starts k (Prog.ofExcept x >>= f) := by
  cases x with
  | error e => trivial
  | ok a => exact hf a

theorem Starts.fromLock {P : σ → Prog σ ω κ ℓ ε α → Prop} (hp : Starts k p) (hP : ∀ s, P s p) : FromLock k P p := by
  cases p with
  | ret a => exact hp.elim
  | fail e => trivial
  | stmt label waits takes writes next =>
    intro s
    rcases hp s with htakes | ⟨hreads, e, he⟩
    · exact .inl ⟨htakes, hP s⟩
    · refine .inr ⟨hreads, ?_⟩
      rw [he]
      trivial

theorem fromLock_fail {P : σ → Prog σ ω κ ℓ ε α → Prop} (e : ε) : FromLock k P (.fail e) := trivial

theorem fromLock_read {answer} (hf : ∀ a, FromLock k P (f a)) : FromLock k P (Prog.read label answer >>= f) := by
  intro s
  refine .inr ?_
  dsimp only
  cases answer s with
  | error e => exact ⟨rfl, trivial⟩
  | ok a => exact ⟨rfl, hf a⟩

theorem fromLock_ofExcept (hf : ∀ a, FromLock k P (f a)) : FromLock k P (Prog.ofExcept x >>= f) := by
  cases x with
  | error e => trivial
  | ok a => exact hf a

theorem FromLock.map {db} {Inv : σ → Prop} {G : σ → σ → Prop} (hp : FromLock k (Alone db Inv G) p)
    (f : α → β) : FromLock k (Alone db Inv G) (p >>= fun a => pure (f a)) := by
  induction p with
  | ret a =>
    intro s b s' hInv hrun
    cases hrun
    exact hp s a s hInv rfl
  | fail e => trivial
  | stmt label waits takes writes next ih =>
    intro s
    rcases hp s with ⟨htakes, hP⟩ | ⟨hreads, hnext⟩
    · refine .inl ⟨htakes, fun b s' hInv hrun => ?_⟩
      obtain ⟨a, s₁, hrun, hlast⟩ := Prog.run_bind_eq_ok.mp
        (show (Prog.stmt label waits takes writes next >>= fun a => pure (f a)).run db.apply s = _ from hrun)
      cases hlast
      exact hP a s' hInv hrun
    · exact .inr ⟨hreads, ih s hnext⟩

end Programs

/-! ## Beside others -/

/-- While a transaction holds the lock, the others commit nothing. -/
def Rely (k : κ) (_ : Option ℓ) (tr : Trail ω κ ℓ) (c c' : σ) : Prop := k ∈ tr.held → c' = c

/-- Without the lock a transaction changes nothing. -/
def Guarantee (k : κ) (G : ρ → σ → σ → Prop) (r : ρ) (tr : Trail ω κ ℓ) (c c' : σ) : Prop :=
  (k ∉ tr.held → c' = c) ∧ G r c c'

variable {k : κ} {db : Schema σ ω} {Inv : σ → Prop} {G : ρ → σ → σ → Prop} {prog : ρ → Prog σ ω κ ℓ ε Unit}

theorem FromLock.wp {r : ρ} {p : Prog σ ω κ ℓ ε Unit} (hp : FromLock k (Alone db Inv (G r)) p)
    {tr : Trail ω κ ℓ} (hidle : tr.writes = []) (c : σ) :
    p.wp db Inv (Rely k) (Ready db Inv (Rely k) (fun _ _ => True) (Guarantee k G r)) tr c := by
  -- along the reads before the lock; the statement that takes it ends the induction
  induction p generalizing tr c with
  | ret a =>
    refine Prog.wp_ret fun c' _ hInv _ _ => ?_
    have hview : db.view tr.writes c' = c' := by
      rw [hidle]
      rfl
    rw [hview]
    obtain ⟨hInv', hG⟩ := hp c' a c' hInv rfl
    exact ⟨hInv', fun _ => rfl, hG⟩
  | fail e => exact Prog.wp_fail e
  | stmt label waits takes writes next ih =>
    rw [Prog.wp_stmt]
    intro c₁ _ hInv
    have hseen : db.view tr.writes c₁ = c₁ := by
      rw [hidle]
      rfl
    rw [hseen, Trail.extend, hidle, List.nil_append]
    rcases hp c₁ with ⟨htakes, hP⟩ | ⟨hreads, hnext⟩
    · have hlk : k ∈ tr.held ++ takes c₁ := List.mem_append_right _ htakes
      refine Prog.wp_alone (fun _ _ _ hsub hR => hR (hsub hlk)) fun a tr' hsub hrun => ?_
      intro c' hR _ _ _
      have hheld : k ∈ tr'.held := hsub hlk
      cases hR hheld
      obtain ⟨hInv', hG⟩ := hP a (db.view tr'.writes c₁) hInv hrun
      exact ⟨hInv', fun hfree => absurd hheld hfree, hG⟩
    · exact ih c₁ hnext hreads c₁

theorem contract (hprog : ∀ r, FromLock k (Alone db Inv (G r)) (prog r)) :
    Contract db prog (fun _ _ => True) Inv (Rely k) (fun _ _ => True) (Guarantee k G) where
  refl _ _ _ _ := rfl
  trans _ _ _ _ _ hab hbc hheld := (hbc hheld).trans (hab hheld)
  may _ _ _ _ _ _ := trivial
  compatible _ _ _ _ _ _ _ _ _ _ hdisj hG hheld := hG.1 fun hmine => hdisj k hmine hheld
  keeps r c _ := (hprog r).wp rfl c

section Runs

variable [DecidableEq κ] {c₀ : σ} {s s' : State σ ω κ ℓ ε ρ} {t : Nat} {ss : Session σ ω κ ℓ ε ρ}

/-- Every commit is a step of its program alone. -/
theorem commit (hprog : ∀ r, FromLock k (Alone db Inv (G r)) (prog r)) (hstart : Inv c₀)
    (hrun : Runs.Reach (step db prog) (fun _ _ => True) (.start c₀) s)
    (hget : s.sessions.get? t = some ss) (hstep : step db prog s (.commit t) = some s') :
    G ss.request s.committed s'.committed :=
  ((contract hprog).commit hstart hrun trivial hget hstep).2

/-- While a transaction holds the lock, nothing is committed but what it commits itself. -/
theorem committed_of_held (hprog : ∀ r, FromLock k (Alone db Inv (G r)) (prog r)) (hstart : Inv c₀)
    (hrun : Runs.Reach (step db prog) (fun _ _ => True) (.start c₀) s)
    (hget : s.sessions.get? t = some ss) (hheld : k ∈ ss.trail.held) {a} (ha : a ≠ .commit t)
    (hstep : step db prog s a = some s') : s'.committed = s.committed := by
  cases hcom : a.isCommit with
  | false => exact step_committed hstep hcom
  | true =>
    cases a with
    | commit t' =>
      obtain ⟨r, tr, hget', _, _⟩ := step_commit hstep
      have hne : t ≠ t' := fun h => ha (congrArg Action.commit h.symm)
      have hfree : k ∉ tr.held := ((contract hprog).protocol.kept hstart hrun).exclusive t t' ss _ hget hget' hne k hheld
      exact ((contract hprog).commit hstart hrun trivial hget' hstep).1 hfree
    | begin t' r => cases hcom
    | exec t' => cases hcom
    | rollback t' => cases hcom

end Runs

-- from here on a program is taken apart by the rules above
attribute [irreducible] FromLock Starts

end Transactions.OneLock
