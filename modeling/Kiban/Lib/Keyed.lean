import Mathlib.Data.List.Nodup

/-!
# Tables with a primary key

Rows that no two share a key of, with the writes a server makes on such a table: an insert that leaves
a row that is there alone, an update of the row with a key, and the two together.
-/

namespace Keyed

open List Option

variable {κ α : Type} [DecidableEq κ]

structure Table (κ α : Type) where
  rows : List (κ × α)
  nodup : (rows.map Prod.fst).Nodup

namespace Table

def empty : Table κ α := ⟨[], nodup_nil⟩

def get? (t : Table κ α) (k : κ) : Option α := t.rows.lookup k

/-- `INSERT … ON CONFLICT DO NOTHING` -/
def insertMissing (t : Table κ α) (k : κ) (v : α) : Table κ α :=
  if h : k ∈ t.rows.map Prod.fst then t
  else
    { rows := t.rows ++ [(k, v)]
      nodup := by
        rw [map_append, nodup_append]
        refine ⟨t.nodup, nodup_singleton k, fun a ha b hb hab => h ?_⟩
        have hbk : b = k := mem_singleton.mp hb
        rw [← hbk, ← hab]
        exact ha }

/-- `UPDATE … WHERE key = k` -/
def modify (t : Table κ α) (k : κ) (f : α → α) : Table κ α where
  rows := t.rows.map fun r => if r.1 = k then (k, f r.2) else r
  nodup := by
    have hkeys : (t.rows.map fun r => if r.1 = k then (k, f r.2) else r).map Prod.fst = t.rows.map Prod.fst := by
      rw [List.map_map]
      refine map_congr_left fun r _ => ?_
      by_cases hr : r.1 = k
      · simp [hr]
      · simp [hr]
    rw [hkeys]
    exact t.nodup

/-- `INSERT … ON CONFLICT (key) DO UPDATE` -/
def upsert (t : Table κ α) (k : κ) (v : α) : Table κ α :=
  (t.insertMissing k v).modify k fun _ => v

/-- `DELETE … WHERE key = k` -/
def erase (t : Table κ α) (k : κ) : Table κ α where
  rows := t.rows.filter fun r => r.1 ≠ k
  nodup := t.nodup.sublist (filter_sublist.map Prod.fst)

/-- `UPDATE` of every row; `f` leaves alone those its condition does not name. -/
def mapRows (t : Table κ α) (f : κ → α → α) : Table κ α where
  rows := t.rows.map fun r => (r.1, f r.1 r.2)
  nodup := by
    rw [List.map_map]
    exact t.nodup

/-- `DELETE` of the rows that do not pass. -/
def filter (t : Table κ α) (p : κ → α → Bool) : Table κ α where
  rows := t.rows.filter fun r => p r.1 r.2
  nodup := t.nodup.sublist (filter_sublist.map Prod.fst)

variable {t : Table κ α} {k : κ} {q : κ × α}

theorem mem_insertMissing {v} (h : q ∈ (t.insertMissing k v).rows) : q ∈ t.rows ∨ q = (k, v) := by
  unfold insertMissing at h
  split at h
  · exact .inl h
  · simpa using h

theorem mem_modify {f} (h : q ∈ (t.modify k f).rows) :
    (∃ v, (k, v) ∈ t.rows ∧ q = (k, f v)) ∨ (q ∈ t.rows ∧ q.1 ≠ k) := by
  obtain ⟨r, hr, hq⟩ := mem_map.mp h
  by_cases hk : r.1 = k
  · rw [if_pos hk] at hq
    exact .inl ⟨r.2, hk ▸ hr, hq.symm⟩
  · rw [if_neg hk] at hq
    exact .inr ⟨hq ▸ hr, hq ▸ hk⟩

theorem mem_upsert {v} (h : q ∈ (t.upsert k v).rows) : q = (k, v) ∨ (q ∈ t.rows ∧ q.1 ≠ k) := by
  rcases mem_modify h with ⟨_, _, hq⟩ | ⟨hq, hk⟩
  · exact .inl hq
  · rcases mem_insertMissing hq with hold | hnew
    · exact .inr ⟨hold, hk⟩
    · exact absurd (congrArg Prod.fst hnew) hk

/-! What is stored under a key. -/

theorem get?_eq_some_iff {v} : t.get? k = some v ↔ (k, v) ∈ t.rows := by
  unfold get?
  obtain ⟨rows, hnodup⟩ := t
  induction rows with
  | nil => simp
  | cons r rows ih =>
    rw [map_cons, nodup_cons] at hnodup
    rw [lookup_cons, mem_cons]
    by_cases hk : k = r.1
    · have hnot : (k, v) ∉ rows := fun h => hnodup.1 (hk ▸ mem_map_of_mem h)
      simp [hk, Prod.ext_iff, eq_comm, hk ▸ hnot]
    · rw [beq_eq_false_iff_ne.mpr hk]
      have hne : (k, v) ≠ r := fun h => hk (congrArg Prod.fst h)
      simp [ih hnodup.2, hne]

theorem exists_get?_of_mem_filter {p} (h : k ∈ (t.rows.filter p).map Prod.fst) :
    ∃ v, t.get? k = some v ∧ p (k, v) = true := by
  obtain ⟨⟨k', v⟩, hrow, rfl⟩ := mem_map.mp h
  obtain ⟨hmem, hp⟩ := List.mem_filter.mp hrow
  exact ⟨v, get?_eq_some_iff.mpr hmem, hp⟩

theorem get?_eq_none_iff : t.get? k = none ↔ ∀ v, (k, v) ∉ t.rows := by
  rw [eq_none_iff_forall_ne_some]
  exact forall_congr' fun v => not_congr get?_eq_some_iff

theorem get?_erase (k' : κ) : (t.erase k).get? k' = if k' = k then none else t.get? k' := by
  split
  · rename_i hk
    refine get?_eq_none_iff.mpr fun v hv => ?_
    simpa [hk] using (List.mem_filter.mp hv).2
  · rename_i hk
    refine Option.ext fun v => ?_
    rw [get?_eq_some_iff, get?_eq_some_iff, erase, List.mem_filter]
    simp [hk]

theorem get?_modify (f : α → α) (k' : κ) :
    (t.modify k f).get? k' = if k' = k then (t.get? k).map f else t.get? k' := by
  refine Option.ext fun v => ?_
  rw [get?_eq_some_iff]
  constructor
  · intro h
    rcases mem_modify h with ⟨w, hw, hq⟩ | ⟨hq, hk⟩
    · obtain ⟨rfl, rfl⟩ := Prod.mk.inj hq
      rw [if_pos rfl, get?_eq_some_iff.mpr hw]
      rfl
    · rw [if_neg hk]
      exact get?_eq_some_iff.mpr hq
  · intro h
    refine mem_map.mpr ?_
    split at h
    · rename_i hk
      obtain ⟨w, hw, rfl⟩ := map_eq_some_iff.mp h
      exact ⟨(k, w), get?_eq_some_iff.mp hw, by simp [hk]⟩
    · rename_i hk
      exact ⟨(k', v), get?_eq_some_iff.mp h, if_neg hk⟩

theorem get?_insertMissing (v : α) (k' : κ) :
    (t.insertMissing k v).get? k' = if k' = k then some ((t.get? k).getD v) else t.get? k' := by
  unfold insertMissing
  by_cases hmem : k ∈ t.rows.map Prod.fst
  · rw [dif_pos hmem]
    obtain ⟨r, hr, hk⟩ := mem_map.mp hmem
    have hget : t.get? k = some r.2 := get?_eq_some_iff.mpr (hk ▸ hr)
    split
    · rename_i heq
      rw [heq, hget]
      rfl
    · rfl
  · rw [dif_neg hmem]
    have hget : t.get? k = none :=
      get?_eq_none_iff.mpr fun w hw => hmem (mem_map_of_mem (f := Prod.fst) hw)
    refine Option.ext fun w => ?_
    rw [get?_eq_some_iff, mem_append, mem_singleton, ← get?_eq_some_iff]
    split
    · rename_i heq
      rw [heq, hget]
      simp [eq_comm]
    · rename_i heq
      simp [heq]

theorem get?_mapRows (f : κ → α → α) (k : κ) : (t.mapRows f).get? k = (t.get? k).map (f k) := by
  refine Option.ext fun v => ?_
  rw [get?_eq_some_iff, map_eq_some_iff]
  constructor
  · intro h
    obtain ⟨r, hr, heq⟩ := mem_map.mp h
    obtain ⟨rfl, rfl⟩ := Prod.mk.inj heq
    exact ⟨r.2, get?_eq_some_iff.mpr hr, rfl⟩
  · rintro ⟨w, hw, rfl⟩
    exact mem_map.mpr ⟨(k, w), get?_eq_some_iff.mp hw, rfl⟩

theorem get?_filter (p : κ → α → Bool) (k : κ) : (t.filter p).get? k = (t.get? k).filter (p k) := by
  refine Option.ext fun v => ?_
  rw [get?_eq_some_iff, filter_eq_some_iff, get?_eq_some_iff]
  exact List.mem_filter

theorem get?_modify_of_some {v} (h : t.get? k = some v) (f : α → α) (k' : κ) :
    (t.modify k f).get? k' = if k' = k then some (f v) else t.get? k' := by
  rw [get?_modify, h]
  rfl

theorem get?_insertMissing_of_none (h : t.get? k = none) (v : α) (k' : κ) :
    (t.insertMissing k v).get? k' = if k' = k then some v else t.get? k' := by
  rw [get?_insertMissing, h]
  rfl

theorem get?_insertMissing_of_some {v} (h : t.get? k = some v) (k' : κ) (w : α) :
    (t.insertMissing k' w).get? k = some v := by
  rw [get?_insertMissing]
  split
  · rename_i heq
    rw [← heq, h]
    rfl
  · exact h

theorem exists_get?_modify {β : Type} (column : α → β) (f : α → α)
    (hf : ∀ v, column (f v) = column v) {v} (h : t.get? k = some v) (k' : κ) :
    ∃ v', (t.modify k' f).get? k = some v' ∧ column v' = column v := by
  rw [get?_modify]
  split
  · rename_i heq
    exact ⟨f v, by rw [← heq, h, map_some], hf v⟩
  · exact ⟨v, h, rfl⟩

theorem isSome_get?_modify (f : α → α) (k' : κ) : ((t.modify k f).get? k').isSome = (t.get? k').isSome := by
  rw [get?_modify]
  split
  · rename_i heq
    rw [isSome_map, heq]
  · rfl

theorem isSome_get?_insertMissing {v k'} (h : ((t.insertMissing k v).get? k').isSome = true) :
    (t.get? k').isSome = true ∨ k' = k := by
  rw [get?_insertMissing] at h
  split at h
  · rename_i heq
    exact .inr heq
  · exact .inl h

theorem get?_upsert (v : α) (k' : κ) : (t.upsert k v).get? k' = if k' = k then some v else t.get? k' := by
  unfold upsert
  rw [get?_modify]
  by_cases hk : k' = k
  · rw [if_pos hk, if_pos hk, get?_insertMissing, if_pos rfl]
    rfl
  · rw [if_neg hk, if_neg hk, get?_insertMissing, if_neg hk]

section Fold

variable {ι : Type} {key : ι → κ} {val : ι → α} {l : List ι}

theorem get?_foldl_upsert_of_notMem (h : k ∉ l.map key) :
    (l.foldl (fun t i => t.upsert (key i) (val i)) t).get? k = t.get? k := by
  induction l generalizing t with
  | nil => rfl
  | cons i l ih =>
    rw [map_cons, mem_cons, not_or] at h
    rw [foldl_cons, ih h.2, get?_upsert, if_neg h.1]

theorem get?_foldl_upsert_of_mem (hnodup : (l.map key).Nodup) {i} (hi : i ∈ l) :
    (l.foldl (fun t i => t.upsert (key i) (val i)) t).get? (key i) = some (val i) := by
  induction l generalizing t with
  | nil => cases hi
  | cons i' l ih =>
    rw [map_cons, nodup_cons] at hnodup
    rw [foldl_cons]
    rcases mem_cons.mp hi with rfl | hi
    · rw [get?_foldl_upsert_of_notMem hnodup.1, get?_upsert, if_pos rfl]
    · exact ih hnodup.2 hi

end Fold

end Table

end Keyed
