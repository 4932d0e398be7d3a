import Kiban.Engine.Loaded

/-!
# Models that survive `jsonb`

A fragment is accepted as the document an app sent and loaded from a `jsonb` column.  Both give the same model unless a
`tupleToUserset` object names a field more than once: Go takes the members in document order and folds case, `jsonb`
drops and reorders them.
-/

namespace Kiban

open Fallible List

/-! ## Entries of a map -/

section Entries

variable {β γ : Type}

theorem lastWins_map (g : β → γ) (ms : List (String × β)) :
    lastWins (ms.map (Prod.map id g)) = (lastWins ms).map (Prod.map id g) := by
  induction ms with
  | nil => rfl
  | cons m ms ih =>
    have hkeys : (ms.map (Prod.map id g)).map Prod.fst = ms.map Prod.fst := by
      rw [map_map]
      rfl
    rw [map_cons, lastWins, lastWins, hkeys, ih]
    change (if m.1 ∈ ms.map Prod.fst then _ else _) = _
    split
    · rfl
    · rfl

theorem entries_map (g : β → γ) (ms : List (String × β)) :
    entries (ms.map (Prod.map id g)) = (entries ms).map (Prod.map id g) := by
  unfold entries
  rw [lastWins_map, ← map_insertionSort keyLe keyLe]
  exact fun _ _ _ _ => Iff.rfl

theorem mem_keys_lastWins {ms : List (String × β)} {k : String} :
    k ∈ (lastWins ms).map Prod.fst ↔ k ∈ ms.map Prod.fst := by
  induction ms with
  | nil => rfl
  | cons m ms ih =>
    unfold lastWins
    split
    · rename_i hlater
      rw [ih, map_cons, mem_cons]
      exact ⟨.inr, fun h => h.elim (fun heq => heq ▸ hlater) id⟩
    · rw [map_cons, map_cons, mem_cons, mem_cons, ih]

theorem nodup_keys_lastWins (ms : List (String × β)) : ((lastWins ms).map Prod.fst).Nodup := by
  induction ms with
  | nil => exact nodup_nil
  | cons m ms ih =>
    unfold lastWins
    split
    · exact ih
    · rename_i hlater
      rw [map_cons, nodup_cons, mem_keys_lastWins]
      exact ⟨hlater, ih⟩

theorem lastWins_of_nodup {ms : List (String × β)} (h : (ms.map Prod.fst).Nodup) : lastWins ms = ms := by
  induction ms with
  | nil => rfl
  | cons m ms ih =>
    rw [map_cons, nodup_cons] at h
    rw [lastWins, if_neg h.1, ih h.2]

theorem keyLe_total (a b : String × β) : keyLe a b ∨ keyLe b a := by
  unfold keyLe
  rcases Nat.lt_trichotomy a.1.utf8ByteSize b.1.utf8ByteSize with hlt | heq | hgt
  · exact .inl (.inl hlt)
  · rcases le_total a.1 b.1 with hle | hle
    · exact .inl (.inr ⟨heq, hle⟩)
    · exact .inr (.inr ⟨heq.symm, hle⟩)
  · exact .inr (.inl hgt)

theorem keyLe_trans {a b c : String × β} (hab : keyLe a b) (hbc : keyLe b c) : keyLe a c := by
  unfold keyLe at *
  rcases hab with hlt | ⟨heq, hle⟩
  · rcases hbc with hlt' | ⟨heq', _⟩
    · exact .inl (by omega)
    · exact .inl (by omega)
  · rcases hbc with hlt' | ⟨heq', hle'⟩
    · exact .inl (by omega)
    · exact .inr ⟨by omega, le_trans hle hle'⟩

instance : Std.Total (@keyLe β) := ⟨keyLe_total⟩

instance : IsTrans (String × β) keyLe := ⟨fun _ _ _ => keyLe_trans⟩

theorem nodup_keys_entries (ms : List (String × β)) : ((entries ms).map Prod.fst).Nodup := by
  have hperm := (perm_insertionSort keyLe (lastWins ms)).map Prod.fst
  exact hperm.nodup_iff.mpr (nodup_keys_lastWins ms)

theorem entries_entries (ms : List (String × β)) : entries (entries ms) = entries ms := by
  have hsor : (entries ms).Pairwise keyLe := pairwise_insertionSort keyLe _
  change (lastWins (entries ms)).insertionSort keyLe = entries ms
  rw [lastWins_of_nodup (nodup_keys_entries ms)]
  exact hsor.insertionSort_eq

end Entries

/-! ## Members that select one field -/

section Filter

variable {β : Type} {p : String × β → Bool}

theorem filter_lastWins (hp : ∀ a b : String × β, a.1 = b.1 → p a = p b) {ms} (h : ms.countP p ≤ 1) :
    (lastWins ms).filter p = ms.filter p := by
  induction ms with
  | nil => rfl
  | cons m ms ih =>
    rw [countP_cons] at h
    rw [lastWins, filter_cons]
    by_cases hm : p m = true
    · rw [if_pos hm] at h
      have hnone : ∀ a ∈ ms, p a ≠ true := countP_eq_zero.mp (by omega)
      have hlast : m.1 ∉ ms.map Prod.fst := by
        intro hmem
        obtain ⟨a, ha, hkey⟩ := mem_map.mp hmem
        exact hnone a ha (hp a m hkey ▸ hm)
      rw [if_neg hlast, if_pos hm, filter_cons, if_pos hm, ih (by omega)]
    · rw [if_neg hm] at h
      rw [if_neg hm, ← ih h]
      split
      · rfl
      · rw [filter_cons, if_neg hm]

-- one member cannot be dropped or moved past another
theorem filter_entries (hp : ∀ a b : String × β, a.1 = b.1 → p a = p b) {ms} (h : ms.countP p ≤ 1) :
    (entries ms).filter p = ms.filter p := by
  have hperm : ((entries ms).filter p).Perm (ms.filter p) := by
    rw [← filter_lastWins hp h]
    exact (perm_insertionSort keyLe _).filter p
  rw [countP_eq_length_filter] at h
  cases hms : ms.filter p with
  | nil => exact (hms ▸ hperm).eq_nil
  | cons a rest =>
    have hrest : rest = [] := by
      rw [hms, length_cons] at h
      exact length_eq_zero_iff.mp (by omega)
    rw [hms, hrest] at hperm
    rw [hrest]
    exact perm_singleton.mp hperm

end Filter

theorem stringField_filter (field : String) (ms : List (String × Json)) (acc : String) :
    stringField field (ms.filter (matchesField field)) acc = stringField field ms acc := by
  induction ms generalizing acc with
  | nil => rfl
  | cons m ms ih =>
    rw [filter_cons]
    by_cases hm : matchesField field m = true
    · rw [if_pos hm, stringField, stringField, if_pos hm, if_pos hm]
      split
      · exact ih _
      · exact ih _
      · rfl
    · rw [if_neg hm, stringField, if_neg hm]
      exact ih acc

theorem Json.jsonbMember_eq_map : ∀ m : String × Json, Json.jsonbMember m = m.map id Json.jsonb
  | (_, _) => by rw [Json.jsonbMember]; rfl

theorem Json.jsonbMembers_eq_map (ms : List (String × Json)) :
    Json.jsonbMembers ms = ms.map (Prod.map id Json.jsonb) := by
  induction ms with
  | nil => rfl
  | cons m ms ih =>
    rw [Json.jsonbMembers, Json.jsonbMember_eq_map, ih]
    rfl

theorem stringField_jsonb (field : String) (ms : List (String × Json)) (acc : String) :
    stringField field (ms.map (Prod.map id Json.jsonb)) acc = stringField field ms acc := by
  induction ms generalizing acc with
  | nil => rfl
  | cons m ms ih =>
    have hfield : matchesField field (Prod.map id Json.jsonb m) = matchesField field m := rfl
    rw [map_cons, stringField, stringField, hfield]
    split
    · obtain ⟨k, v⟩ := m
      cases v with
      | str s => exact ih s
      | null => exact ih acc
      | bool _ | num _ | arr _ | obj _ => rfl
    · exact ih acc

/-! ## Documents without repeated fields -/

/-- No field of a `TupleToUserset` is selected by two members. -/
def fieldsApart : Json → Bool
  | .obj ms =>
    ms.countP (matchesField "tupleset") ≤ 1 && ms.countP (matchesField "computedUserset") ≤ 1
  | _ => true

mutual

def exprPlain : Json → Bool
  | .obj members => membersPlain members
  | _ => true
termination_by structural j => j

def membersPlain : List (String × Json) → Bool
  | [] => true
  | m :: ms => memberPlain m && membersPlain ms
termination_by structural ms => ms

def memberPlain : String × Json → Bool
  | (k, v) =>
    if k = "tupleToUserset" then fieldsApart v
    else if k = "union" ∨ k = "intersection" then childrenPlain v
    else true
termination_by structural m => m

def childrenPlain : Json → Bool
  | .arr items => itemsPlain items
  | _ => true
termination_by structural j => j

def itemsPlain : List Json → Bool
  | [] => true
  | j :: js => exprPlain j && itemsPlain js
termination_by structural js => js

end

def relsPlain : Json → Bool
  | .obj ms => ms.all fun m => exprPlain m.2
  | _ => true

def modelPlain : Json → Bool
  | .obj ms => ms.all fun m => relsPlain m.2
  | _ => true

/-! ## The definition read back -/

theorem decodeThis_jsonb (j : Json) : decodeThis j.jsonb = decodeThis j := by
  cases j <;> rfl

theorem decodeComputedUserset_jsonb (j : Json) : decodeComputedUserset j.jsonb = decodeComputedUserset j := by
  cases j <;> rfl

theorem stringField_entries {field ms} (h : ms.countP (matchesField field) ≤ 1) (acc : String) :
    stringField field (entries (Json.jsonbMembers ms)) acc = stringField field ms acc := by
  have hkey : ∀ a b : String × Json, a.1 = b.1 → matchesField field a = matchesField field b := by
    intro a b hab
    rw [matchesField, matchesField, hab]
  have hcount : (Json.jsonbMembers ms).countP (matchesField field) ≤ 1 := by
    rw [Json.jsonbMembers_eq_map, countP_map]
    exact h
  rw [← stringField_filter, filter_entries hkey hcount, stringField_filter,
    Json.jsonbMembers_eq_map, stringField_jsonb]

theorem decodeTupleToUserset_jsonb {j} (h : fieldsApart j = true) :
    decodeTupleToUserset j.jsonb = decodeTupleToUserset j := by
  cases j with
  | obj ms =>
    rw [fieldsApart, Bool.and_eq_true, decide_eq_true_eq, decide_eq_true_eq] at h
    rw [Json.jsonb, decodeTupleToUserset, decodeTupleToUserset, stringField_entries h.1, stringField_entries h.2]
  | null | bool _ | num _ | str _ | arr _ => rfl

mutual

theorem decodeExpr_jsonb : ∀ (j : Json) (e : Expr), exprPlain j = true → decodeExpr j = .ok e →
    decodeExpr j.jsonb = .ok e
  | .obj members, e, hplain, h => by
    rw [exprPlain] at hplain
    rw [decodeExpr] at h
    obtain ⟨m, hlast, hm⟩ := decodeMembers_jsonb members e hplain h
    have hsin : entries (Json.jsonbMembers members) = [m] := by
      rw [entries, hlast]
      rfl
    rw [Json.jsonb, decodeExpr, hsin, decodeMembers]
    exact hm
  | .null, e, _, h | .bool _, e, _, h | .num _, e, _, h | .str _, e, _, h | .arr _, e, _, h => by
    unfold decodeExpr at h
    cases h

-- all members of the object have one name, so one of them is left
theorem decodeMembers_jsonb : ∀ (ms : List (String × Json)) (e : Expr), membersPlain ms = true →
    decodeMembers ms = .ok e → ∃ m, lastWins (Json.jsonbMembers ms) = [m] ∧ decodeMember m = .ok e
  | [], e, _, h => by
    rw [decodeMembers] at h
    cases h
  | m :: ms, e, hplain, h => by
    rw [membersPlain, Bool.and_eq_true] at hplain
    rw [decodeMembers] at h
    cases ms with
    | nil => exact ⟨Json.jsonbMember m, rfl, decodeMember_jsonb m e hplain.1 h⟩
    | cons m' ms =>
      rw [if_neg (by simp)] at h
      split at h
      · rename_i hall
        obtain ⟨last, hlast, hok⟩ := decodeMembers_jsonb (m' :: ms) e hplain.2 h
        have hname : m'.1 = m.1 := by simpa using all_eq_true.mp hall m' mem_cons_self
        have hrep : (Json.jsonbMember m).1 ∈ (Json.jsonbMembers (m' :: ms)).map Prod.fst := by
          rw [Json.jsonbMember_eq_map, Json.jsonbMembers_eq_map, map_map, map_cons]
          exact mem_cons.mpr (.inl hname.symm)
        exact ⟨last, by rw [Json.jsonbMembers, lastWins, if_pos hrep, hlast], hok⟩
      · cases h

theorem decodeMember_jsonb : ∀ (m : String × Json) (e : Expr), memberPlain m = true →
    decodeMember m = .ok e → decodeMember (Json.jsonbMember m) = .ok e
  | (k, v), e, hplain, h => by
    rw [memberPlain] at hplain
    rw [Json.jsonbMember, decodeMember, decodeThis_jsonb, decodeComputedUserset_jsonb]
    rw [decodeMember] at h
    by_cases hthis : k = "this"
    · rw [if_pos hthis] at h ⊢
      exact h
    rw [if_neg hthis] at h ⊢
    by_cases hcom : k = "computedUserset"
    · rw [if_pos hcom] at h ⊢
      exact h
    rw [if_neg hcom] at h ⊢
    by_cases hfrom : k = "tupleToUserset"
    · rw [if_pos hfrom] at h hplain ⊢
      rw [decodeTupleToUserset_jsonb hplain]
      exact h
    rw [if_neg hfrom] at h hplain ⊢
    by_cases hunion : k = "union"
    · rw [if_pos hunion] at h ⊢
      rw [if_pos (.inl hunion)] at hplain
      obtain ⟨es, hes, h⟩ := bind_eq_ok.mp h
      exact bind_eq_ok.mpr ⟨es, decodeChildren_jsonb v es hplain hes, h⟩
    rw [if_neg hunion] at h ⊢
    by_cases hinter : k = "intersection"
    · rw [if_pos hinter] at h ⊢
      rw [if_pos (.inr hinter)] at hplain
      obtain ⟨es, hes, h⟩ := bind_eq_ok.mp h
      exact bind_eq_ok.mpr ⟨es, decodeChildren_jsonb v es hplain hes, h⟩
    rw [if_neg hinter] at h
    cases h

theorem decodeChildren_jsonb : ∀ (j : Json) (es : List Expr), childrenPlain j = true →
    decodeChildren j = .ok es → decodeChildren j.jsonb = .ok es
  | .arr items, es, hplain, h => by
    rw [childrenPlain] at hplain
    rw [decodeChildren] at h
    rw [Json.jsonb, decodeChildren]
    exact decodeItems_jsonb items es hplain h
  | .null, _, _, h | .bool _, _, _, h | .num _, _, _, h | .str _, _, _, h => h
  | .obj _, _, _, h => by
    unfold decodeChildren at h
    cases h

theorem decodeItems_jsonb : ∀ (js : List Json) (es : List Expr), itemsPlain js = true →
    decodeItems js = .ok es → decodeItems (Json.jsonbItems js) = .ok es
  | [], _, _, h => h
  | j :: js, es, hplain, h => by
    rw [itemsPlain, Bool.and_eq_true] at hplain
    rw [decodeItems] at h
    obtain ⟨e, he, h⟩ := bind_eq_ok.mp h
    obtain ⟨es', hes, h⟩ := bind_eq_ok.mp h
    cases h
    rw [Json.jsonbItems, decodeItems, decodeExpr_jsonb j e hplain.1 he, decodeItems_jsonb js es' hplain.2 hes]
    rfl

end

/-! ## The model read back -/

section DecodeMap

variable {β : Type} {f : Json → Except String β} {ms : List (String × Json)}

theorem decodeMap_of_values {g} (h : ∀ m ∈ ms, f m.2 = .ok (g m.2)) :
    decodeMap f ms = .ok (ms.map (Prod.map id g)) := by
  induction ms with
  | nil => rfl
  | cons m ms ih =>
    rw [forall_mem_cons] at h
    rw [decodeMap, h.1, ih h.2]
    rfl

theorem decodeMap_values {ds} (h : decodeMap f ms = .ok ds) : ∀ m ∈ ms, ∃ v, f m.2 = .ok v := by
  induction ms generalizing ds with
  | nil => exact forall_mem_nil _
  | cons m ms ih =>
    rw [decodeMap] at h
    obtain ⟨v, hv, h⟩ := bind_eq_ok.mp h
    obtain ⟨rest, hrest, _⟩ := bind_eq_ok.mp h
    exact forall_mem_cons.mpr ⟨⟨v, hv⟩, ih hrest⟩

theorem decodeMap_jsonb [Inhabited β] {ds}
    (hback : ∀ m ∈ ms, ∀ v, f m.2 = .ok v → f m.2.jsonb = .ok v) (h : decodeMap f ms = .ok ds) :
    decodeMap f (entries (Json.jsonbMembers ms)) = .ok (entries ds) := by
  let g : Json → β := fun j => ((f j).toOption).getD default
  have hg : ∀ m ∈ ms, f m.2 = .ok (g m.2) := by
    intro m hm
    obtain ⟨v, hv⟩ := decodeMap_values h m hm
    simp [g, hv, Except.toOption]
  have hgback : ∀ m ∈ ms, f m.2.jsonb = .ok (g m.2.jsonb) ∧ g m.2.jsonb = g m.2 := by
    intro m hm
    have hok := hback m hm _ (hg m hm)
    have hsame : g m.2.jsonb = g m.2 := by
      change ((f m.2.jsonb).toOption).getD default = g m.2
      rw [hok]
      rfl
    exact ⟨by rw [hsame, hok], hsame⟩
  have hds : ds = ms.map (Prod.map id g) := Except.ok.inj (h.symm.trans (decodeMap_of_values hg))
  rw [Json.jsonbMembers_eq_map, entries_map, hds, entries_map]
  have hval : ∀ m ∈ (entries ms).map (Prod.map id Json.jsonb), f m.2 = .ok (g m.2) := by
    intro m hm
    obtain ⟨m', hm', rfl⟩ := mem_map.mp hm
    exact (hgback m' (mem_of_mem_entries hm')).1
  rw [decodeMap_of_values hval, map_map]
  refine congrArg Except.ok (map_congr_left fun m hm => ?_)
  exact Prod.ext rfl (hgback m (mem_of_mem_entries hm)).2

end DecodeMap

instance : Inhabited Expr := ⟨.this⟩

theorem decodeRels_jsonb {j rels} (hplain : relsPlain j = true) (h : decodeRels j = .ok rels) :
    decodeRels j.jsonb = .ok rels := by
  cases j with
  | obj ms =>
    rw [decodeRels] at h
    rw [relsPlain, all_eq_true] at hplain
    obtain ⟨ds, hds, rfl⟩ := map_eq_ok.mp h
    have hback := decodeMap_jsonb (fun m hm e => decodeExpr_jsonb m.2 e (hplain m hm)) hds
    rw [Json.jsonb, decodeRels]
    exact map_eq_ok.mpr ⟨_, hback, entries_entries ds⟩
  | null | bool _ | num _ | str _ => exact h
  | arr _ => cases h

theorem decodeModel_jsonb {j m} (hplain : modelPlain j = true) (h : decodeModel j = .ok m) :
    decodeModel j.jsonb = .ok m := by
  cases j with
  | obj ms =>
    rw [decodeModel] at h
    rw [modelPlain, all_eq_true] at hplain
    obtain ⟨ds, hds, rfl⟩ := map_eq_ok.mp h
    have hback := decodeMap_jsonb (fun m hm rels => decodeRels_jsonb (hplain m hm)) hds
    rw [Json.jsonb, decodeModel]
    exact map_eq_ok.mpr ⟨_, hback, entries_entries ds⟩
  | null | bool _ | num _ | str _ => exact h
  | arr _ => cases h

theorem loadModel_jsonb {j m} (hplain : modelPlain j = true) (h : loadModel j = .ok m) :
    loadModel j.jsonb = .ok m := by
  unfold loadModel at h ⊢
  obtain ⟨m', hm', h⟩ := bind_eq_ok.mp h
  exact bind_eq_ok.mpr ⟨m', decodeModel_jsonb hplain hm', h⟩

theorem loadModel_nodup {j m} (h : loadModel j = .ok m) : (m.map Prod.fst).Nodup := by
  have hdec := (loadModel_eq_ok h).1
  unfold decodeModel at hdec
  split at hdec
  · cases hdec
    exact nodup_nil
  · obtain ⟨ds, _, rfl⟩ := map_eq_ok.mp hdec
    exact nodup_keys_entries ds
  · cases hdec

end Kiban
