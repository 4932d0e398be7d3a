import Kiban.Lib.Transactions

/-!
# What the statements of a transaction have seen

Under READ COMMITTED each statement of a transaction meets the rows that are committed at its own time.  `Ends` follows
a program to its end, with the rows that each statement meets, and `ends_of_commit` finds these rows in the run for a
transaction that commits.
-/

namespace Transactions

open List Keyed.Table

variable {σ ω κ ℓ ε α β ρ : Type}

/-- The program comes to its end, over these statements and the rows committed at the time of each. -/
inductive Ends (db : Schema σ ω) : Prog σ ω κ ℓ ε α → Trail ω κ ℓ → List (ℓ × σ) → α → Trail ω κ ℓ → Prop
  | ret {a : α} {tr : Trail ω κ ℓ} : Ends db (.ret a) tr [] a tr
  | stmt {label : ℓ} {waits takes : σ → List κ} {writes : σ → List ω} {next : σ → Prog σ ω κ ℓ ε α}
      {tr tr' : Trail ω κ ℓ} {c : σ} {cs : List (ℓ × σ)} {a : α}
      (h : Ends db (next (db.view tr.writes c))
        ⟨tr.writes ++ writes (db.view tr.writes c), tr.held ++ takes (db.view tr.writes c), tr.log ++ [label]⟩
        cs a tr') :
      Ends db (.stmt label waits takes writes next) tr ((label, c) :: cs) a tr'

section Rules

variable {db : Schema σ ω} {tr tr' : Trail ω κ ℓ} {cs : List (ℓ × σ)}

theorem Ends.pure {a b} (h : Ends db (pure a : Prog σ ω κ ℓ ε α) tr cs b tr') : b = a ∧ tr' = tr := by
  cases h
  exact ⟨rfl, rfl⟩

theorem Ends.bind {p} {f : α → Prog σ ω κ ℓ ε β} {b} (h : Ends db (p >>= f) tr cs b tr') :
    ∃ cs₁ cs₂ a tr₁, cs = cs₁ ++ cs₂ ∧ Ends db p tr cs₁ a tr₁ ∧ Ends db (f a) tr₁ cs₂ b tr' := by
  induction p generalizing tr cs with
  | ret a => exact ⟨[], cs, a, tr, rfl, .ret, h⟩
  | fail e => cases h
  | stmt label waits takes writes next ih =>
    cases h with
    | stmt h =>
      obtain ⟨cs₁, cs₂, a, tr₁, rfl, hp, hf⟩ := ih _ h
      exact ⟨_ :: cs₁, cs₂, a, tr₁, rfl, .stmt hp, hf⟩

theorem Ends.exec {label} {waits takes : σ → List κ} {answer : σ → Except ε (α × List ω)} {a}
    (h : Ends db (Prog.exec label waits takes answer) tr cs a tr') :
    ∃ c new, cs = [(label, c)] ∧ answer (db.view tr.writes c) = .ok (a, new) ∧
      tr' = (tr.extend new (takes (db.view tr.writes c)) label) := by
  cases h with
  | @stmt _ _ _ _ _ _ _ c _ _ h =>
    dsimp only at h
    cases hans : answer (db.view tr.writes c) with
    | error e =>
      rw [hans] at h
      cases h
    | ok r =>
      rw [hans] at h
      cases h
      exact ⟨c, r.2, rfl, hans, rfl⟩

theorem Ends.read {label} {answer : σ → Except ε α} {a}
    (h : Ends db (Prog.read label answer : Prog σ ω κ ℓ ε α) tr cs a tr') :
    ∃ c, cs = [(label, c)] ∧ answer (db.view tr.writes c) = .ok a ∧ tr'.writes = tr.writes := by
  obtain ⟨c, new, hcs, hans, rfl⟩ := Ends.exec h
  obtain ⟨b, hb, hpair⟩ := Fallible.map_eq_ok.mp hans
  cases hpair
  exact ⟨c, hcs, hb, append_nil _⟩

theorem Ends.ofExcept {x a} (h : Ends db (Prog.ofExcept x : Prog σ ω κ ℓ ε α) tr cs a tr') :
    x = .ok a ∧ cs = [] ∧ tr' = tr := by
  unfold Prog.ofExcept at h
  cases x with
  | error e => cases h
  | ok b =>
    cases h
    exact ⟨rfl, rfl, rfl⟩

theorem Ends.writes {p : Prog σ ω κ ℓ ε α} {P : ω → Prop} {a : α} (h : Ends db p tr cs a tr')
    (hp : p.Writes P) : ∃ new, tr'.writes = tr.writes ++ new ∧ ∀ w ∈ new, P w := by
  induction h with
  | ret => exact ⟨[], (append_nil _).symm, nofun⟩
  | @stmt _ _ _ writes _ tr _ c _ _ _ ih =>
    obtain ⟨new, hws, hnew⟩ := ih (hp.2 _)
    refine ⟨writes (db.view tr.writes c) ++ new, hws.trans (append_assoc _ _ _), fun w hw => ?_⟩
    rcases mem_append.mp hw with hw | hw
    · exact hp.1 _ w hw
    · exact hnew w hw

end Rules

/-! ## Where in a run -/

inductive Ran (db : Schema σ ω) (p₀ : Prog σ ω κ ℓ ε α) : List (ℓ × σ) → Prog σ ω κ ℓ ε α → Trail ω κ ℓ → Prop
  | start : Ran db p₀ [] p₀ .start
  | exec {label : ℓ} {waits takes : σ → List κ} {writes : σ → List ω} {next : σ → Prog σ ω κ ℓ ε α}
      {tr : Trail ω κ ℓ} {cs : List (ℓ × σ)} (h : Ran db p₀ cs (.stmt label waits takes writes next) tr) (c : σ) :
      Ran db p₀ (cs ++ [(label, c)]) (next (db.view tr.writes c))
        ⟨tr.writes ++ writes (db.view tr.writes c), tr.held ++ takes (db.view tr.writes c), tr.log ++ [label]⟩

theorem Ran.ends {db : Schema σ ω} {p₀ p : Prog σ ω κ ℓ ε α} {cs cs' : List (ℓ × σ)}
    {tr tr' : Trail ω κ ℓ} {a : α} (h : Ran db p₀ cs p tr) (hends : Ends db p tr cs' a tr') :
    Ends db p₀ .start (cs ++ cs') a tr' := by
  induction h generalizing cs' with
  | start => exact hends
  | exec _ c ih =>
    rw [append_assoc]
    exact ih (.stmt hends)

variable [DecidableEq κ] {db : Schema σ ω} {prog : ρ → Prog σ ω κ ℓ ε Unit} {s₀ s s' : State σ ω κ ℓ ε ρ}
  {as : List (Action ρ)} {t : Nat}

/-- At a time of the run the transaction, open ever since, was about to run the statement on these rows. -/
def Saw (db : Schema σ ω) (prog : ρ → Prog σ ω κ ℓ ε Unit) (s₀ : State σ ω κ ℓ ε ρ) (as : List (Action ρ)) (t : Nat)
    (r : ρ) (x : ℓ × σ) : Prop :=
  ∃ pre post s₁ ss₁, as = pre ++ .exec t :: post ∧ pre.foldlM (step db prog) s₀ = some s₁ ∧ s₁.committed = x.2 ∧
    s₁.sessions.get? t = some ss₁ ∧ ss₁.request = r ∧ ss₁.rest.label? = some x.1 ∧
    ∀ a ∈ post, a ≠ .commit t ∧ a ≠ .rollback t

theorem Saw.append {r x} (h : Saw db prog s₀ as t r x) {a} (ha : a ≠ .commit t ∧ a ≠ .rollback t) :
    Saw db prog s₀ (as ++ [a]) t r x := by
  obtain ⟨pre, post, s₁, ss₁, rfl, hpre, hc, hget, hr, hlabel, hopen⟩ := h
  refine ⟨pre, post ++ [a], s₁, ss₁, by simp, hpre, hc, hget, hr, hlabel, fun b hb => ?_⟩
  rcases mem_append.mp hb with hb | hb
  · exact hopen b hb
  · rw [mem_singleton.mp hb]
    exact ha

/-- What every open transaction has run, and where in the run. -/
def Followed (db : Schema σ ω) (prog : ρ → Prog σ ω κ ℓ ε Unit) (s₀ : State σ ω κ ℓ ε ρ) (as : List (Action ρ))
    (s : State σ ω κ ℓ ε ρ) : Prop :=
  ∀ t ss, s.sessions.get? t = some ss →
    ∃ cs, Ran db (prog ss.request) cs ss.rest ss.trail ∧ ∀ x ∈ cs, Saw db prog s₀ as t ss.request x

theorem Followed.step (hrun : as.foldlM (step db prog) s₀ = some s) (h : Followed db prog s₀ as s)
    {a} (hstep : Transactions.step db prog s a = some s') : Followed db prog s₀ (as ++ [a]) s' := by
  intro t' ss hget
  have hold : ∀ ss', s.sessions.get? t' = some ss' → (a ≠ .commit t' ∧ a ≠ .rollback t') →
      ∃ cs, Ran db (prog ss'.request) cs ss'.rest ss'.trail ∧
        ∀ x ∈ cs, Saw db prog s₀ (as ++ [a]) t' ss'.request x := by
    intro ss' hget' ha
    obtain ⟨cs, hran, hsaw⟩ := h t' ss' hget'
    exact ⟨cs, hran, fun x hx => (hsaw x hx).append ha⟩
  cases a with
  | begin t r =>
    obtain ⟨hnone, rfl⟩ := step_begin hstep
    rw [get?_insertMissing_of_none hnone] at hget
    split at hget
    · cases hget
      exact ⟨[], .start, by simp⟩
    · exact hold ss hget ⟨by simp, by simp⟩
  | exec t =>
    obtain ⟨r, label, waits, takes, writes, next, tr, hold', _, rfl⟩ := step_exec hstep
    rw [get?_upsert] at hget
    split at hget
    · rename_i heq
      subst heq
      cases hget
      obtain ⟨cs, hran, hsaw⟩ := hold _ hold' ⟨by simp, by simp⟩
      refine ⟨cs ++ [(label, s.committed)], hran.exec s.committed, fun x hx => ?_⟩
      rcases mem_append.mp hx with hx | hx
      · exact hsaw x hx
      · rw [mem_singleton.mp hx]
        exact ⟨as, [], s, _, rfl, hrun, rfl, hold', rfl, rfl, by simp⟩
    · exact hold ss hget ⟨by simp, by simp⟩
  | commit t =>
    obtain ⟨r, tr, _, _, rfl⟩ := step_commit hstep
    rw [get?_erase] at hget
    split at hget
    · cases hget
    · rename_i hne
      exact hold ss hget ⟨fun heq => hne (Action.commit.inj heq).symm, by simp⟩
  | rollback t =>
    cases step_rollback hstep
    rw [get?_erase] at hget
    split at hget
    · cases hget
    · rename_i hne
      exact hold ss hget ⟨by simp, fun heq => hne (Action.rollback.inj heq).symm⟩

/-- A transaction that commits has run its program to the end, each statement at its own time in the run. -/
theorem ends_of_commit {c₀ : σ} (hrun : as.foldlM (step db prog) (.start c₀) = some s)
    (hstep : step db prog s (.commit t) = some s') :
    ∃ r tr cs, s.sessions.get? t = some ⟨r, .ret (), tr⟩ ∧ Ends db (prog r) .start cs () tr ∧
      (∀ x ∈ cs, Saw db prog (.start c₀) as t r x) ∧ s'.committed = db.view tr.writes s.committed := by
  have hfol : Followed db prog (.start c₀) as s :=
    Runs.foldlM_history as hrun (fun _ _ h => nomatch h) fun _ _ _ _ hpre h hstep => h.step hpre hstep
  obtain ⟨r, tr, hget, _, rfl⟩ := step_commit hstep
  obtain ⟨cs, hran, hsaw⟩ := hfol t _ hget
  have hends : Ends db (prog r) .start (cs ++ []) () tr := hran.ends .ret
  rw [append_nil] at hends
  exact ⟨r, tr, cs, hget, hends, hsaw, rfl⟩

end Transactions
