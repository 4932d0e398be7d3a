import Kiban.Engine.Semantics
import Kiban.Lib.Fallible

/-!
# What `LoadModel` and `Merge` accept

Every definition in an accepted model is one the subset wall let through: its names are not empty, a
union has a child and an intersection has two.
-/

namespace Kiban

open Fallible List

-- the models an engine can be built with: loaded from a document, or merged from such models
inductive Loaded : Model → Prop
  | load {j : Json} {m : Model} (h : loadModel j = .ok m) : Loaded m
  | merge {a b m : Model} (ha : Loaded a) (hb : Loaded b) (h : a.merge b = .ok m) : Loaded m

mutual

def Expr.wellFormed : Expr → Bool
  | .this => true
  | .computedUserset r => r ≠ ""
  | .tupleToUserset ts cu => ts ≠ "" && cu ≠ ""
  | .union es => 1 ≤ es.length && Expr.allWellFormed es
  | .intersection es => 2 ≤ es.length && Expr.allWellFormed es
termination_by structural e => e

def Expr.allWellFormed : List Expr → Bool
  | [] => true
  | e :: es => e.wellFormed && Expr.allWellFormed es
termination_by structural es => es

end

variable {j : Json} {e : Expr}

def Model.WellFormed (m : Model) : Prop := ∀ p ∈ m, ∀ d ∈ p.2, d.2.wellFormed = true

/-! ## The subset wall -/

theorem decodeThis_wellFormed (h : decodeThis j = .ok e) : e.wellFormed = true := by
  unfold decodeThis at h
  split at h <;> cases h
  rfl

theorem decodeComputedUserset_wellFormed (h : decodeComputedUserset j = .ok e) : e.wellFormed = true := by
  unfold decodeComputedUserset at h
  split at h
  · have hok := ite_error_eq_ok.mp h
    cases hok.2
    simpa [Expr.wellFormed] using hok.1
  · cases h
  · cases h

theorem decodeTupleToUserset_wellFormed (h : decodeTupleToUserset j = .ok e) : e.wellFormed = true := by
  unfold decodeTupleToUserset at h
  split at h
  · cases h
  · obtain ⟨ts, _, h⟩ := bind_eq_ok.mp h
    obtain ⟨cu, _, h⟩ := bind_eq_ok.mp h
    have hok := ite_error_eq_ok.mp h
    cases hok.2
    simpa [Expr.wellFormed] using hok.1
  · cases h

mutual

theorem decodeExpr_wellFormed : ∀ (j : Json) (e : Expr), decodeExpr j = .ok e → e.wellFormed = true
  | .obj members, e, h => decodeMembers_wellFormed members e (by rwa [decodeExpr] at h)
  | .null, e, h | .bool _, e, h | .num _, e, h | .str _, e, h | .arr _, e, h => by
    unfold decodeExpr at h
    cases h

theorem decodeMembers_wellFormed :
    ∀ (ms : List (String × Json)) (e : Expr), decodeMembers ms = .ok e → e.wellFormed = true
  | [], e, h => by
    rw [decodeMembers] at h
    cases h
  | m :: ms, e, h => by
    rw [decodeMembers] at h
    split at h
    · exact decodeMember_wellFormed m e h
    · split at h
      · exact decodeMembers_wellFormed ms e h
      · cases h

theorem decodeMember_wellFormed : ∀ (m : String × Json) (e : Expr), decodeMember m = .ok e → e.wellFormed = true
  | (k, v), e, h => by
    rw [decodeMember] at h
    split at h
    · exact decodeThis_wellFormed h
    split at h
    · exact decodeComputedUserset_wellFormed h
    split at h
    · exact decodeTupleToUserset_wellFormed h
    split at h
    · obtain ⟨es, hes, h⟩ := bind_eq_ok.mp h
      have hok := ite_error_eq_ok.mp h
      cases hok.2
      have hall := decodeChildren_wellFormed v es hes
      have hlen : 1 ≤ es.length := Nat.one_le_iff_ne_zero.mpr hok.1
      simp [Expr.wellFormed, hall, hlen]
    split at h
    · obtain ⟨es, hes, h⟩ := bind_eq_ok.mp h
      have hok := ite_error_eq_ok.mp h
      cases hok.2
      have hall := decodeChildren_wellFormed v es hes
      have hlen : 2 ≤ es.length := Nat.not_lt.mp hok.1
      simp [Expr.wellFormed, hall, hlen]
    · cases h

theorem decodeChildren_wellFormed :
    ∀ (j : Json) (es : List Expr), decodeChildren j = .ok es → Expr.allWellFormed es = true
  | .arr items, es, h => decodeItems_wellFormed items es (by rwa [decodeChildren] at h)
  | .null, es, h => by
    rw [decodeChildren] at h
    cases h
    rfl
  | .bool _, es, h | .num _, es, h | .str _, es, h | .obj _, es, h => by
    unfold decodeChildren at h
    cases h

theorem decodeItems_wellFormed :
    ∀ (js : List Json) (es : List Expr), decodeItems js = .ok es → Expr.allWellFormed es = true
  | [], es, h => by
    rw [decodeItems] at h
    cases h
    rfl
  | j :: js, es, h => by
    rw [decodeItems] at h
    obtain ⟨e, he, h⟩ := bind_eq_ok.mp h
    obtain ⟨es', hes, h⟩ := bind_eq_ok.mp h
    cases h
    simp [Expr.allWellFormed, decodeExpr_wellFormed j e he, decodeItems_wellFormed js es' hes]

end

/-! ## Maps -/

variable {β : Type} {j : Json} {m : Model}

theorem mem_of_mem_lastWins {ms : List (String × β)} {p : String × β} (h : p ∈ lastWins ms) : p ∈ ms := by
  induction ms with
  | nil => exact h
  | cons m ms ih =>
    unfold lastWins at h
    split at h
    · exact mem_cons_of_mem m (ih h)
    · cases mem_cons.mp h with
      | inl heq => exact mem_cons.mpr (.inl heq)
      | inr hrest => exact mem_cons_of_mem m (ih hrest)

theorem mem_of_mem_entries {ms : List (String × β)} {p : String × β} (h : p ∈ entries ms) : p ∈ ms :=
  mem_of_mem_lastWins ((mem_insertionSort keyLe).mp h)

theorem decodeMap_mem {f : Json → Except String β} {ms : List (String × Json)}
    {ds : List (String × β)} (h : decodeMap f ms = .ok ds) {d : String × β} (hd : d ∈ ds) :
    ∃ j, (d.1, j) ∈ ms ∧ f j = .ok d.2 := by
  induction ms generalizing ds with
  | nil =>
    cases h
    cases hd
  | cons m ms ih =>
    unfold decodeMap at h
    obtain ⟨v, hv, h⟩ := bind_eq_ok.mp h
    obtain ⟨rest, hrest, h⟩ := bind_eq_ok.mp h
    cases h
    cases mem_cons.mp hd with
    | inl heq =>
      rw [heq]
      exact ⟨m.2, mem_cons_self, hv⟩
    | inr hmem =>
      obtain ⟨j, hj, hok⟩ := ih hrest hmem
      exact ⟨j, mem_cons_of_mem m hj, hok⟩

theorem decodeRels_wellFormed {rels : Rels} (h : decodeRels j = .ok rels) : ∀ d ∈ rels, d.2.wellFormed = true := by
  intro d hd
  unfold decodeRels at h
  split at h
  · cases h
    cases hd
  · obtain ⟨ds, hds, rfl⟩ := map_eq_ok.mp h
    obtain ⟨j', _, hok⟩ := decodeMap_mem hds (mem_of_mem_entries hd)
    exact decodeExpr_wellFormed j' d.2 hok
  · cases h

theorem decodeModel_wellFormed (h : decodeModel j = .ok m) : m.WellFormed := by
  intro p hp
  unfold decodeModel at h
  split at h
  · cases h
    cases hp
  · obtain ⟨ds, hds, rfl⟩ := map_eq_ok.mp h
    obtain ⟨j', _, hok⟩ := decodeMap_mem hds (mem_of_mem_entries hp)
    exact decodeRels_wellFormed hok
  · cases h

theorem loadModel_eq_ok (h : loadModel j = .ok m) : decodeModel j = .ok m ∧ m ≠ [] := by
  unfold loadModel at h
  obtain ⟨m', hm', h⟩ := bind_eq_ok.mp h
  have hok := ite_error_eq_ok.mp h
  obtain ⟨_, _, h⟩ := bind_eq_ok.mp hok.2
  cases h
  exact ⟨hm', fun hnil => hok.1 (by rw [hnil]; rfl)⟩

theorem Model.merge_eq_ok {a b} : a.merge b = .ok m ↔ m = a ++ b ∧ ∀ p ∈ b, a.lookup p.1 = none := by
  unfold Model.merge
  cases hfind : b.find? (fun p => (a.lookup p.1).isSome) with
  | some p =>
    have hp := find?_some hfind
    refine ⟨nofun, fun h => ?_⟩
    rw [h.2 p (mem_of_find?_eq_some hfind)] at hp
    cases hp
  | none =>
    have hnone : ∀ p ∈ b, a.lookup p.1 = none := by
      intro p hp
      exact Option.not_isSome_iff_eq_none.mp (find?_eq_none.mp hfind p hp)
    exact ⟨fun h => ⟨(Except.ok.inj h).symm, hnone⟩, fun h => congrArg Except.ok h.1.symm⟩

theorem Loaded.wellFormed (h : Loaded m) : m.WellFormed := by
  induction h with
  | load h => exact decodeModel_wellFormed (loadModel_eq_ok h).1
  | merge _ _ h iha ihb =>
    rw [(Model.merge_eq_ok.mp h).1]
    intro p hp
    cases mem_append.mp hp with
    | inl ha => exact iha p ha
    | inr hb => exact ihb p hb

theorem lookup_mem {l : List (String × β)} {k : String} {v} (h : l.lookup k = some v) : (k, v) ∈ l := by
  obtain ⟨l₁, l₂, rfl, _⟩ := lookup_eq_some_iff.mp h
  simp

theorem Model.relation_mem {typ rel e} (h : m.relation? typ rel = some e) :
    ∃ rels, (typ, rels) ∈ m ∧ (rel, e) ∈ rels := by
  obtain ⟨rels, htyp, hrel⟩ := Option.bind_eq_some_iff.mp h
  exact ⟨rels, lookup_mem htyp, lookup_mem hrel⟩

/-! ## Checks on a model -/

theorem forEntries_eq_ok {f : String → β → Except String Unit} {l : List (String × β)} :
    forEntries f l = .ok () ↔ ∀ p ∈ l, f p.1 p.2 = .ok () := by
  induction l with
  | nil => simp [forEntries]
  | cons p ps ih =>
    rw [forEntries, bind_eq_ok, forall_mem_cons, ← ih]
    exact ⟨fun ⟨_, h⟩ => h, fun h => ⟨(), h⟩⟩

theorem Expr.isThis_iff {e : Expr} : e.isThis = true ↔ e = .this := by
  cases e <;> simp [Expr.isThis]

theorem Model.validateCompanyModuleAnchor_eq_ok :
    m.validateCompanyModuleAnchor = .ok () ↔ ∀ p ∈ m, p.2.lookup "company_module" = some .this := by
  unfold Model.validateCompanyModuleAnchor
  rw [forEntries_eq_ok]
  refine forall₂_congr fun p _ => ?_
  cases hlook : p.2.lookup "company_module" with
  | none => exact ⟨nofun, nofun⟩
  | some e =>
    by_cases he : e = .this
    · rw [he]
      exact iff_of_true rfl rfl
    · have hthis : e.isThis = false := by
        rw [← Bool.not_eq_true, Expr.isThis_iff]
        exact he
      simp [hthis, he]

mutual

variable {defined defined' : List String}

theorem walkTargets_mono (h : defined ⊆ defined')
    (typ rel : String) : ∀ e : Expr, walkTargets defined typ rel e = .ok () →
      walkTargets defined' typ rel e = .ok ()
  | .this, _ | .computedUserset _, _ => rfl
  | .tupleToUserset _ cu, hok => by
    rw [walkTargets] at hok ⊢
    by_cases hcu : cu ∈ defined
    · rw [if_pos (h hcu)]
    · rw [if_neg hcu] at hok
      cases hok
  | .union es, hok => walkTargetsAll_mono h typ rel es hok
  | .intersection es, hok => walkTargetsAll_mono h typ rel es hok

theorem walkTargetsAll_mono (h : defined ⊆ defined')
    (typ rel : String) : ∀ es : List Expr, walkTargetsAll defined typ rel es = .ok () →
      walkTargetsAll defined' typ rel es = .ok ()
  | [], _ => rfl
  | e :: es, hok => by
    rw [walkTargetsAll] at hok ⊢
    obtain ⟨_, he, hes⟩ := bind_eq_ok.mp hok
    exact bind_eq_ok.mpr ⟨(), walkTargets_mono h typ rel e he, walkTargetsAll_mono h typ rel es hes⟩

end

theorem Model.validateTupleToUsersetTargets_eq_ok {m : Model} : m.validateTupleToUsersetTargets = .ok () ↔
      ∀ p ∈ m, ∀ d ∈ p.2, walkTargets m.definedRels p.1 d.1 d.2 = .ok () := by
  unfold Model.validateTupleToUsersetTargets
  rw [forEntries_eq_ok]
  exact forall₂_congr fun p _ => forEntries_eq_ok

theorem Model.definedRels_mono {a b : Model} (h : a ⊆ b) : a.definedRels ⊆ b.definedRels := by
  intro rel hrel
  obtain ⟨p, hp, hmem⟩ := mem_flatMap.mp hrel
  exact mem_flatMap.mpr ⟨p, h hp, hmem⟩

/-- A model has no dangling target when each of its entries lies in a part of it that has none. -/
theorem Model.validateTupleToUsersetTargets_of_parts {m : Model}
    (h : ∀ p ∈ m, ∃ part : Model, p ∈ part ∧ part ⊆ m ∧ part.validateTupleToUsersetTargets = .ok ()) :
    m.validateTupleToUsersetTargets = .ok () := by
  rw [Model.validateTupleToUsersetTargets_eq_ok]
  intro p hp d hd
  obtain ⟨part, hpart, hsub, hok⟩ := h p hp
  have htgt := Model.validateTupleToUsersetTargets_eq_ok.mp hok p hpart d hd
  exact walkTargets_mono (Model.definedRels_mono hsub) p.1 d.1 d.2 htgt

/-! ## Objects without rows -/

def Node.TextObject (n : Node) : Prop := Kiban.IsText n.objType ∧ Kiban.IsText n.objId

section TextObject

variable {cx : EvalCtx} {T : Table} {S : Set Node} {n : Node}

theorem textObject_of_row {r} (hr : r ∈ T.rowsFor n) : n.TextObject := by
  have htext := T.text _ (Table.mem_rowsFor.mp hr)
  exact ⟨htext.1, htext.2.1⟩

mutual

-- every definition bottoms out in a row of the object itself, since no intersection is empty
theorem textObject_of_exprHolds (hS : ∀ a ∈ S, a.TextObject) :
    ∀ e : Expr, e.wellFormed = true → exprHolds cx T S n e → n.TextObject
  | .this, _, ⟨_, hr, _⟩ => textObject_of_row hr
  | .computedUserset rel, _, h =>
    (hS ⟨n.objType, n.objId, rel⟩ h : (⟨n.objType, n.objId, rel⟩ : Node).TextObject)
  | .tupleToUserset ts cu, _, ⟨_, hr, _⟩ =>
    (textObject_of_row hr : (⟨n.objType, n.objId, ts⟩ : Node).TextObject)
  | .union es, hwf, h => textObject_of_someHolds hS es (by
      simp only [Expr.wellFormed, Bool.and_eq_true] at hwf
      exact hwf.2) h
  | .intersection [], hwf, _ => by simp [Expr.wellFormed] at hwf
  | .intersection (e :: es), hwf, h => textObject_of_exprHolds hS e (by
      simp only [Expr.wellFormed, Expr.allWellFormed, Bool.and_eq_true] at hwf
      exact hwf.2.1) h.1

theorem textObject_of_someHolds (hS : ∀ a ∈ S, a.TextObject) :
    ∀ es : List Expr, Expr.allWellFormed es = true → someHolds cx T S n es → n.TextObject
  | [], _, h => h.elim
  | e :: es, hwf, h => by
    simp only [Expr.allWellFormed, Bool.and_eq_true] at hwf
    cases h with
    | inl he => exact textObject_of_exprHolds hS e hwf.1 he
    | inr hes => exact textObject_of_someHolds hS es hwf.2 hes

end

theorem textObject_of_holds (hm : cx.model.WellFormed) (h : n ∈ Holds cx T) : n.TextObject := by
  have hclo : rules cx T { a | a.TextObject } ≤ { a | a.TextObject } := by
    intro a ⟨e, he, hold⟩
    obtain ⟨rels, hrels, hmem⟩ := Model.relation_mem he
    exact textObject_of_exprHolds (fun _ hb => hb) e (hm _ hrels _ hmem) hold
  exact OrderHom.lfp_le (rules cx T) hclo h

end TextObject

end Kiban
