import Kiban.Lib.Transactions

/-!
# Transactions that lock what they write

What the writes of a request do is said by a relation `Effect` between the committed rows and the writes.  Each write
has its locks, and what a lock stands for survives the commits of others (`Same`).  A transaction that holds the locks
of its writes therefore has its effect on the rows it commits to.
-/

namespace Transactions.LockedWrites

variable {σ ω κ ℓ ε ρ : Type}

/-- An effect is about what its locks stand for, and the writes leave everything else the same. -/
structure Locked (db : Schema σ ω) (Same : σ → σ → κ → Prop) (locks : ω → List κ)
    (Effect : σ → ρ → List ω → Prop) : Prop where
  refl : ∀ c k, Same c c k
  trans : ∀ a b c k, Same a b k → Same b c k → Same a c k
  stable : ∀ c c' r ws, Effect c r ws → (∀ w ∈ ws, ∀ k ∈ locks w, Same c c' k) → Effect c' r ws
  frame : ∀ c r ws k, Effect c r ws → (∀ w ∈ ws, k ∉ locks w) → Same c (db.view ws c) k

def Always (_ : σ) : Prop := True

/-- The others leave alone what the transaction has locked. -/
def Rely (Same : σ → σ → κ → Prop) (_ : Option ℓ) (tr : Trail ω κ ℓ) (c c' : σ) : Prop :=
  ∀ k ∈ tr.held, Same c c' k

def Guarantee (Same : σ → σ → κ → Prop) (Effect : σ → ρ → List ω → Prop) (r : ρ) (tr : Trail ω κ ℓ)
    (c c' : σ) : Prop :=
  (∀ k, k ∉ tr.held → Same c c' k) ∧ Effect c r tr.writes

/-- The writes have the effect, and their locks are held. -/
structure Done (locks : ω → List κ) (Effect : σ → ρ → List ω → Prop) (r : ρ) (tr : Trail ω κ ℓ) (c : σ) : Prop where
  effect : Effect c r tr.writes
  locked : ∀ w ∈ tr.writes, ∀ k ∈ locks w, k ∈ tr.held

variable {db : Schema σ ω} {Same : σ → σ → κ → Prop} {locks : ω → List κ} {Effect : σ → ρ → List ω → Prop}
  {prog : ρ → Prog σ ω κ ℓ ε Unit} {r : ρ} {tr : Trail ω κ ℓ} {c : σ}

theorem view_of_idle (hidle : tr.writes = []) : db.view tr.writes c = c := by
  rw [hidle]
  rfl

/-- What a transaction relies on in the runs whose steps are all good: its locks, and whatever else the commits of the
others leave to it. -/
structure Relies (db : Schema σ ω) (Same : σ → σ → κ → Prop) (good : State σ ω κ ℓ ε ρ → Action ρ → Prop)
    (R : Option ℓ → Trail ω κ ℓ → σ → σ → Prop) : Prop where
  held : ∀ next tr c c', R next tr c c' → ∀ k ∈ tr.held, Same c c' k
  exec : ∀ s t ss, good s (.exec t) → s.sessions.get? t = some ss →
    R ss.rest.label? ss.trail s.committed s.committed
  commit : ∀ tr c, R none tr c c
  compatible : ∀ s t ss t' ss' c, good s (.commit t) → s.sessions.get? t = some ss →
    s.sessions.get? t' = some ss' → t ≠ t' → (∀ e, ss'.rest ≠ .fail e) →
    (∀ k ∈ ss'.trail.held, Same s.committed (db.view ss.trail.writes s.committed) k) →
    R ss'.rest.label? ss'.trail (db.view ss.trail.writes s.committed) c → R ss'.rest.label? ss'.trail s.committed c

theorem relies_rely (hl : Locked db Same locks Effect) :
    Relies db Same (fun (_ : State σ ω κ ℓ ε ρ) _ => True) (Rely Same) where
  held _ _ _ _ hR := hR
  exec _ _ _ _ _ k _ := hl.refl _ k
  commit _ _ k _ := hl.refl _ k
  compatible _ _ _ _ _ _ _ _ _ _ _ hsame hR k hk := hl.trans _ _ _ k (hsame k hk) (hR k hk)

section Runs

variable {good : State σ ω κ ℓ ε ρ → Action ρ → Prop} {R : Option ℓ → Trail ω κ ℓ → σ → σ → Prop}

theorem Done.ready (hl : Locked db Same locks Effect) (hr : Relies db Same good R) (h : Done locks Effect r tr c) :
    Ready db Always R (fun _ _ => True) (Guarantee Same Effect r) () tr c := by
  intro c' hR _ _ _
  have heff := hl.stable c c' r tr.writes h.effect fun w hw k hk => hr.held _ _ _ _ hR k (h.locked w hw k hk)
  exact ⟨trivial, fun k hk => hl.frame c' r tr.writes k heff fun w hw hin => hk (h.locked w hw k hin), heff⟩

theorem protocol (hl : Locked db Same locks Effect) (hr : Relies db Same good R)
    (hkeeps : ∀ r c, (prog r).wp db Always R (fun _ => Done locks Effect r) .start c) :
    Protocol db prog good Always R (fun _ _ => True) (Guarantee Same Effect) where
  exec := hr.exec
  commit := hr.commit
  may _ _ _ _ _ _ := trivial
  compatible s t r tr t' ss hgood hget hget' hne hlive hdisj hG c := by
    exact hr.compatible s t _ t' ss c hgood hget hget' hne hlive fun k hk => hG.1 k fun hheld => hdisj k hheld hk
  keeps r c _ := (hkeeps r c).mono fun _ _ _ h => h.ready hl hr

/-- Every commit of a good run has the effect of its request on the rows committed before it. -/
theorem commit_effect [DecidableEq κ] (hl : Locked db Same locks Effect) (hr : Relies db Same good R)
    (hkeeps : ∀ r c, (prog r).wp db Always R (fun _ => Done locks Effect r) .start c)
    {c₀ s s' t} (hrun : Runs.Reach (step db prog) good (.start c₀) s) (hgood : good s (.commit t))
    (hstep : step db prog s (.commit t) = some s') :
    ∃ ss, s.sessions.get? t = some ss ∧ Effect s.committed ss.request ss.trail.writes ∧
      s'.committed = db.view ss.trail.writes s.committed := by
  obtain ⟨r, tr, hget, _, rfl⟩ := step_commit hstep
  exact ⟨_, hget, ((protocol hl hr hkeeps).commits trivial hrun hgood hget hstep).2, rfl⟩

end Runs

theorem committed_cases [DecidableEq κ] (hl : Locked db Same locks Effect)
    (hkeeps : ∀ r c, (prog r).wp db Always (Rely Same) (fun _ => Done locks Effect r) .start c)
    {c₀ s s' a} (hrun : Runs.Reach (step db prog) (fun _ _ => True) (.start c₀) s)
    (hstep : step db prog s a = some s') :
    s'.committed = s.committed ∨ ∃ r ws, Effect s.committed r ws ∧ s'.committed = db.view ws s.committed := by
  cases a with
  | commit t =>
    obtain ⟨ss, _, heff, hcom⟩ := commit_effect hl (relies_rely hl) hkeeps hrun trivial hstep
    exact .inr ⟨_, _, heff, hcom⟩
  | begin t r | exec t | rollback t => exact .inl (step_committed hstep rfl)

/-! ## Properties of commits -/

/-- A commit does to the rows what `P` says, and nothing else changes them. -/
def CommitsAs (P : ρ → σ → σ → Prop) (s : State σ ω κ ℓ ε ρ) (a : Action ρ) (s' : State σ ω κ ℓ ε ρ) : Prop :=
  match a with
  | .commit t => ∀ ss, s.sessions.get? t = some ss → P ss.request s.committed s'.committed
  | _ => s'.committed = s.committed

/-- Where the effects of the requests are as wanted, the commits of a good run are. -/
theorem commitsAs_of_effect [DecidableEq κ] {good R} {P : ρ → σ → σ → Prop}
    (hl : Locked db Same locks Effect) (hr : Relies db Same good R)
    (hkeeps : ∀ r c, (prog r).wp db Always R (fun _ => Done locks Effect r) .start c)
    (hP : ∀ c r ws, Effect c r ws → P r c (db.view ws c)) {c₀ s s' a}
    (hrun : Runs.Reach (step db prog) good (.start c₀) s) (hgood : good s a)
    (hstep : step db prog s a = some s') : CommitsAs P s a s' := by
  cases a with
  | commit t =>
    intro ss hget
    obtain ⟨ss', hget', heff, hcom⟩ := commit_effect hl hr hkeeps hrun hgood hstep
    cases hget.symm.trans hget'
    rw [hcom]
    exact hP _ _ _ heff
  | begin t r | exec t | rollback t => exact step_committed hstep rfl

end Transactions.LockedWrites
