import Mathlib.Data.List.Basic

/-!
# Chains of versions

Versions of one thing, each of which supersedes the one before it.  Whoever adds a version takes the current one
as its predecessor and retires it; that keeps the versions in one chain.
-/

namespace VersionChain

open List

variable {K : Type}

structure Version (K : Type) where
  number : Nat
  root : K
  supersedes : Option K
  current : Bool
deriving DecidableEq

/-- The versions are those of `ids`: each has its place as its number and supersedes the one before it, and
the last is the current one.  The numbers tell the ids apart. -/
structure Chain (versions : K → Option (Version K)) (root : K) (ids : List K) : Prop where
  complete : ∀ id, (versions id).isSome = true → id ∈ ids
  version : ∀ n id, ids[n]? = some id →
    versions id = some ⟨n + 1, root, if n = 0 then none else ids[n - 1]?, n + 1 == ids.length⟩

variable {versions versions' : K → Option (Version K)} {root root' id new : K} {ids : List K}

theorem chain_nil (h : ∀ id, versions id = none) : Chain versions root [] where
  complete id hid := by
    rw [h id] at hid
    cases hid
  version n id hid := by cases hid

theorem Chain.version_last (h : Chain versions root ids) (hid : ids.getLast? = some id) :
    ∃ supersedes, versions id = some ⟨ids.length, root, supersedes, true⟩ := by
  rw [getLast?_eq_getElem?] at hid
  obtain ⟨hlt, _⟩ := List.getElem?_eq_some_iff.mp hid
  have hlen : ids.length - 1 + 1 = ids.length := by omega
  have hlast := h.version _ id hid
  rw [hlen, beq_self_eq_true] at hlast
  exact ⟨_, hlast⟩

/-- A new version supersedes the last one, and every other version is retired. -/
theorem Chain.extend (h : Chain versions root ids) (hnew : versions new = none) (hroot : ids ≠ [] → root' = root)
    (hadded : versions' new = some ⟨ids.length + 1, root', ids.getLast?, true⟩)
    (hret : ∀ id, id ≠ new → versions' id = (versions id).map fun v => { v with current := false }) :
    Chain versions' root' (ids ++ [new]) where
  complete id hid := by
    by_cases heq : id = new
    · rw [heq]
      exact mem_append_right _ mem_cons_self
    · rw [hret id heq, Option.isSome_map] at hid
      exact mem_append_left _ (h.complete id hid)
  version n id hid := by
    rw [length_append, length_singleton]
    by_cases hlt : n < ids.length
    · rw [getElem?_append_left hlt] at hid
      have hold := h.version n id hid
      have hne : id ≠ new := by
        rintro rfl
        cases hnew.symm.trans hold
      have hprev : (ids ++ [new])[n - 1]? = ids[n - 1]? := getElem?_append_left (by omega)
      have hcur : (n + 1 == ids.length + 1) = false := beq_eq_false_iff_ne.mpr (by omega)
      rw [hret id hne, hold, hprev, hcur, hroot (ne_nil_of_length_pos (by omega))]
      rfl
    · rw [getElem?_append_right (by omega)] at hid
      have hn : n = ids.length := by
        obtain ⟨hlt', _⟩ := List.getElem?_eq_some_iff.mp hid
        rw [length_singleton] at hlt'
        omega
      subst hn
      rw [Nat.sub_self] at hid
      cases hid
      rw [hadded, getLast?_eq_getElem?, beq_self_eq_true]
      split
      · rename_i hzero
        rw [getElem?_eq_none (by omega)]
      · rw [getElem?_append_left (by omega)]

end VersionChain
