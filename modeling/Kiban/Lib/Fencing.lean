import Mathlib.Data.List.Nodup

/-!
# Fencing tokens

What is leased is handed out under a token that was never issued before, and a lease is settled by the one who shows
its token.  The next token that is issued for the same key replaces the one held.  `held` is the token the system would
accept for each key; the log is what has happened, with the newest first.
-/

namespace Fencing

open List

variable {κ τ : Type*} [DecidableEq κ] {held held' : κ → Option τ} {k : κ} {t : τ}

structure Log (κ τ : Type*) where
  (issued settled : List (κ × τ))

namespace Log

variable {l : Log κ τ}

def empty : Log κ τ := ⟨[], []⟩

def latest (l : Log κ τ) (k : κ) : Option τ := l.issued.lookup k

def issue (l : Log κ τ) (new : List (κ × τ)) : Log κ τ := { l with issued := new ++ l.issued }

def settle (l : Log κ τ) (k : κ) (t : τ) : Log κ τ := { l with settled := (k, t) :: l.settled }

theorem latest_issue (new : List (κ × τ)) (k : κ) :
    (l.issue new).latest k = (new.lookup k).or (l.latest k) := lookup_append

theorem mem_of_lookup {es : List (κ × τ)} (h : es.lookup k = some t) : (k, t) ∈ es := by
  obtain ⟨before, after, hes, _⟩ := lookup_eq_some_iff.mp h
  rw [hes]
  simp

end Log

structure Valid (held : κ → Option τ) (l : Log κ τ) : Prop where
  fresh : (l.issued.map Prod.snd).Nodup
  latest : ∀ k t, held k = some t → l.latest k = some t
  unsettled : ∀ k t, held k = some t → (k, t) ∉ l.settled
  issued : ∀ e ∈ l.settled, e ∈ l.issued
  once : (l.settled.map Prod.snd).Nodup

namespace Valid

variable {l : Log κ τ}

theorem empty (h : ∀ k, held k = none) : Valid held Log.empty where
  fresh := nodup_nil
  latest k _ ht := nomatch (h k).symm.trans ht
  unsettled k _ ht := nomatch (h k).symm.trans ht
  issued := fun _ he => nomatch he
  once := nodup_nil

/-- A token stands for one key in the log. -/
theorem eq_of_token (h : Valid held l) {e e'} (he : e ∈ l.issued) (he' : e' ∈ l.issued)
    (heq : e.2 = e'.2) : e = e' := inj_on_of_nodup_map h.fresh he he' heq

theorem held_issued (h : Valid held l) (hk : held k = some t) : (k, t) ∈ l.issued :=
  Log.mem_of_lookup (h.latest k t hk)

theorem drop (h : Valid held l) (hheld : ∀ k t, held' k = some t → held k = some t) : Valid held' l where
  fresh := h.fresh
  latest k t ht := h.latest k t (hheld k t ht)
  unsettled k t ht := h.unsettled k t (hheld k t ht)
  issued := h.issued
  once := h.once

theorem issue (h : Valid held l) {new : List (κ × τ)} (hfresh : ((new ++ l.issued).map Prod.snd).Nodup)
    (hheld : ∀ k t, held' k = some t → new.lookup k = some t ∨ (new.lookup k = none ∧ held k = some t)) :
    Valid held' (l.issue new) where
  fresh := hfresh
  latest k t ht := by
    rw [Log.latest_issue]
    rcases hheld k t ht with hnew | ⟨hnone, hold⟩
    · rw [hnew, Option.some_or]
    · rw [hnone, Option.none_or]
      exact h.latest k t hold
  unsettled k t ht hmem := by
    rcases hheld k t ht with hnew | ⟨_, hold⟩
    · -- a settled token is an old one, a new one is not
      have hin : t ∈ new.map Prod.snd := mem_map_of_mem (f := Prod.snd) (Log.mem_of_lookup hnew)
      have hout : t ∈ l.issued.map Prod.snd := mem_map_of_mem (f := Prod.snd) (h.issued _ hmem)
      rw [map_append] at hfresh
      exact (nodup_append.mp hfresh).2.2 t hin t hout rfl
    · exact h.unsettled k t hold hmem
  issued e he := mem_append_right new (h.issued e he)
  once := h.once

theorem settle (h : Valid held l) (hk : held k = some t)
    (hheld : ∀ k' t', held' k' = some t' → k' ≠ k ∧ held k' = some t') :
    Valid held' (l.settle k t) where
  fresh := h.fresh
  latest k' t' ht := h.latest k' t' (hheld k' t' ht).2
  unsettled k' t' ht hmem := by
    rcases mem_cons.mp hmem with heq | hold
    · exact (hheld k' t' ht).1 (congrArg Prod.fst heq)
    · exact h.unsettled k' t' (hheld k' t' ht).2 hold
  issued e he := by
    rcases mem_cons.mp he with rfl | hold
    · exact h.held_issued hk
    · exact h.issued e hold
  once := by
    refine nodup_cons.mpr ⟨fun hmem => ?_, h.once⟩
    obtain ⟨e, he, htoken⟩ := mem_map.mp hmem
    have heq : e = (k, t) := h.eq_of_token (h.issued e he) (h.held_issued hk) htoken
    exact h.unsettled k t hk (heq ▸ he)

end Valid

end Fencing
