import Kiban.Lib.Transactions

/-!
# Transactions that lock the rows they change

The state has a row for each key, and a transaction locks a key before it changes the key's row.  So
the row of a locked key stays as the transaction found it.  What a transaction has read without a lock
may be changed by others; how far is said by `Stable`, for the statement that is next.
-/

namespace Transactions.RowLocks

variable {σ ω κ ℓ ε ρ α K V : Type}

section Definitions

variable (row : σ → K → V) (lock : K → κ) (Stable : Option ℓ → σ → σ → Prop)

def Rely (next : Option ℓ) (tr : Trail ω κ ℓ) (c c' : σ) : Prop :=
  (∀ k, lock k ∈ tr.held → row c' k = row c k) ∧ Stable next c c'

def Guarantee (tr : Trail ω κ ℓ) (c c' : σ) : Prop := ∀ k, lock k ∉ tr.held → row c' k = row c k

/-- No commit changes what the next statement of another open transaction goes by. -/
def Undisturbed (db : Schema σ ω) (s : State σ ω κ ℓ ε ρ) : Action ρ → Prop
  | .commit t => ∀ ss, s.sessions.get? t = some ss → ∀ t' ss', t' ≠ t → s.sessions.get? t' = some ss' →
      Stable ss'.rest.label? s.committed (db.view ss.trail.writes s.committed)
  | _ => True

/-- A transaction that has locked its key and whose writes keep the invariant as long as the key's row is
as it is. -/
structure Settled (db : Schema σ ω) (Inv : σ → Prop) (k : K) (tr : Trail ω κ ℓ) (c : σ) : Prop where
  locked : lock k ∈ tr.held
  keeps : ∀ c', row c' k = row c k → Inv c' → Inv (db.view tr.writes c')
  others : ∀ c' k', k' ≠ k → row (db.view tr.writes c') k' = row c' k'

def Silent (db : Schema σ ω) (Inv : σ → Prop) (w : ω) : Prop :=
  ∀ c, (Inv c → Inv (db.apply c w)) ∧ ∀ k, row (db.apply c w) k = row c k

end Definitions

variable {row : σ → K → V} {lock : K → κ} {Stable : Option ℓ → σ → σ → Prop} {db : Schema σ ω}
  {Inv : σ → Prop} {k : K} {next : Option ℓ} {tr : Trail ω κ ℓ} {c c' : σ}

theorem undisturbed_of_loneCommit (s : State σ ω κ ℓ ε ρ) (a : Action ρ) (h : s.loneCommit a = true) :
    Undisturbed Stable db s a := by
  cases a with
  | commit t =>
    intro ss _ t' ss' hne hget
    exact nomatch hget.symm.trans (State.get?_of_loneCommit h hne)
  | begin t r | exec t | rollback t => trivial

theorem Settled.rely (h : Settled row lock db Inv k tr c) (hR : Rely row lock Stable next tr c c') :
    Settled row lock db Inv k tr c' :=
  ⟨h.locked, fun c'' hrow => h.keeps c'' (hrow.trans (hR.1 k h.locked)), h.others⟩

theorem view_of_silent {new} (hnew : ∀ w ∈ new, Silent row db Inv w) (c : σ) :
    (Inv c → Inv (db.view new c)) ∧ ∀ k, row (db.view new c) k = row c k := by
  induction new generalizing c with
  | nil => exact ⟨id, fun _ => rfl⟩
  | cons w new ih =>
    obtain ⟨hInv, hrow⟩ := hnew w List.mem_cons_self c
    obtain ⟨hInv', hrow'⟩ := ih (fun w hw => hnew w (List.mem_cons_of_mem _ hw)) (db.apply c w)
    exact ⟨fun h => hInv' (hInv h), fun k => (hrow' k).trans (hrow k)⟩

theorem Settled.extend (h : Settled row lock db Inv k tr c) {new} (locks : List κ) (label : ℓ)
    (hnew : ∀ w ∈ new, Silent row db Inv w) :
    Settled row lock db Inv k (tr.extend new locks label) c := by
  refine ⟨List.mem_append_left _ h.locked, fun c' hrow hInv => ?_, fun c' k' hne => ?_⟩
  · rw [Schema.view_append]
    exact (view_of_silent hnew _).1 (h.keeps c' hrow hInv)
  · rw [Schema.view_append]
    exact ((view_of_silent hnew _).2 k').trans (h.others c' k' hne)

/-- A settled transaction stays settled while its statements write nothing that matters. -/
theorem Settled.frame {p : Prog σ ω κ ℓ ε α} {post : α → Trail ω κ ℓ → σ → Prop}
    (h : Settled row lock db Inv k tr c) (hp : p.Writes (Silent row db Inv))
    (hpost : ∀ a tr c, Settled row lock db Inv k tr c → post a tr c) :
    p.wp db Inv (Rely row lock Stable) post tr c :=
  hp.wp (fun _ _ _ _ hset hR => hset.rely hR) (fun _ _ _ locks label hset hnew => hset.extend locks label hnew)
    h hpost

theorem Settled.ready (h : Settled row lock db Inv k tr c) :
    Ready db Inv (Rely row lock Stable) (fun _ _ => True) (Guarantee row lock) () tr c := by
  intro c' hR hInv _ _
  refine ⟨h.keeps c' (hR.1 k h.locked) hInv, fun k' hfree => h.others c' k' ?_⟩
  rintro rfl
  exact hfree h.locked

theorem ready_of_idle (hws : tr.writes = []) :
    Ready db Inv (Rely row lock Stable) (fun _ _ => True) (Guarantee row lock) () tr c := by
  intro c' _ hInv _ _
  rw [hws]
  exact ⟨hInv, fun _ _ => rfl⟩

/-- Programs that are ready under the rely keep the invariant in the runs that do not disturb them. -/
theorem contract {prog : ρ → Prog σ ω κ ℓ ε Unit} (hrefl : ∀ next c, Stable next c c)
    (htrans : ∀ next a b c, Stable next a b → Stable next b c → Stable next a c)
    (hkeeps : ∀ r c, Inv c → (prog r).wp db Inv (Rely row lock Stable)
      (Ready db Inv (Rely row lock Stable) (fun _ _ => True) (Guarantee row lock)) .start c) :
    Contract db prog (Undisturbed Stable db) Inv (Rely row lock Stable) (fun _ _ => True)
      fun _ => Guarantee row lock where
  refl next _ c := ⟨fun _ _ => rfl, hrefl next c⟩
  trans next _ a b c hab hbc :=
    ⟨fun k hk => (hbc.1 k hk).trans (hab.1 k hk), htrans next a b c hab.2 hbc.2⟩
  may _ _ _ _ _ _ := trivial
  compatible _ _ _ _ t' ss hgood hget hget' hne hdisj hG :=
    ⟨fun k hk => hG k fun hheld => hdisj _ hheld hk, hgood _ hget t' ss (Ne.symm hne) hget'⟩
  keeps := hkeeps

end Transactions.RowLocks
