import Kiban.Engine.Jsonb
import Kiban.Fragment.Load

/-!
# When fragments load

`Load` succeeds on fragments that each merge with the base model on their own and share no type, in
whatever order the rows come and whichever modules are enabled.
-/

namespace Kiban.Fragment

open Fallible List

structure Mergeable (m : Model) : Prop where
  notBase : ∀ p ∈ m, isBaseType p.1 = false
  anchor : m.validateCompanyModuleAnchor = .ok ()
  targets : (baseModel ++ m).validateTupleToUsersetTargets = .ok ()

def Row.types (r : Row) : List String :=
  match loadModel r.fragment with
  | .ok m => m.map Prod.fst
  | .error _ => []

def Row.Sound (r : Row) : Prop := ∃ m, loadModel r.fragment = .ok m ∧ Mergeable m

def Row.Apart (r r' : Row) : Prop := ∀ t ∈ r.types, t ∉ r'.types

theorem Row.Apart.symm {r r' : Row} (h : r.Apart r') : r'.Apart r := fun t ht ht' => h t ht' ht

theorem Row.types_eq {r : Row} {m : Model} (h : loadModel r.fragment = .ok m) : r.types = m.map Prod.fst := by
  unfold Row.types
  rw [h]

theorem lookup_eq_none_of_notMem {β : Type} {l : List (String × β)} {k : String}
    (h : k ∉ l.map Prod.fst) : l.lookup k = none := by
  rw [lookup_eq_none_iff]
  intro p hp
  have hne : k ≠ p.1 := fun heq => h (heq ▸ mem_map_of_mem hp)
  simpa using hne

theorem ownTypes_of_free {moduleKey : String} (m : Model) {owner : List (String × String)}
    (hnodup : (m.map Prod.fst).Nodup) (hbase : ∀ p ∈ m, isBaseType p.1 = false)
    (hfree : ∀ p ∈ m, p.1 ∉ owner.map Prod.fst) :
    ∃ owner', ownTypes moduleKey m owner = .ok owner' := by
  induction m generalizing owner with
  | nil => exact ⟨owner, rfl⟩
  | cons p ps ih =>
    rw [map_cons, nodup_cons] at hnodup
    rw [forall_mem_cons] at hbase hfree
    have hps : ∀ q ∈ ps, q.1 ∉ ((p.1, moduleKey) :: owner).map Prod.fst := by
      intro q hq hmem
      rcases mem_cons.mp hmem with heq | hold
      · exact hnodup.1 (heq ▸ mem_map_of_mem hq)
      · exact hfree.2 q hq hold
    obtain ⟨owner', hown⟩ := ih hnodup.2 hbase.2 hps
    refine ⟨owner', ?_⟩
    rw [ownTypes, if_neg (by simp [hbase.1]), lookup_eq_none_of_notMem hfree.1]
    exact hown

-- what the loop keeps on its way to a model without undefined targets
structure Merged.Sound (acc : Merged) : Prop where
  base : baseModel ⊆ acc.model
  types : ∀ p ∈ acc.model, isBaseType p.1 = true ∨ p.1 ∈ acc.typeOwner.map Prod.fst
  parts : ∀ p ∈ acc.model, ∃ part : Model, p ∈ part ∧ part ⊆ acc.model ∧ part.validateTupleToUsersetTargets = .ok ()

theorem baseModel_targets : baseModel.validateTupleToUsersetTargets = .ok () := by
  have hok : baseModel.validateTupleToUsersetTargets.isOk = true := by decide +kernel
  exact (exists_ok_of_isOk hok).choose_spec

theorem isBaseType_of_mem {p} (h : p ∈ baseModel) : isBaseType p.1 = true := by
  rw [isBaseType_iff, ← baseModel_types]
  exact mem_map_of_mem h

theorem start_sound : Merged.start.Sound where
  base := fun _ hp => hp
  types := fun _ hp => .inl (isBaseType_of_mem hp)
  parts := fun _ hp => ⟨baseModel, hp, fun _ hq => hq, baseModel_targets⟩

section Merge

variable {acc : Merged} {r : Row} {m : Model}

theorem merge_of_free (hacc : acc.Sound) (hm : Mergeable m) (hfree : ∀ p ∈ m, p.1 ∉ acc.typeOwner.map Prod.fst) :
    acc.model.merge m = .ok (acc.model ++ m) := by
  refine Model.merge_eq_ok.mpr ⟨rfl, fun p hp => lookup_eq_none_of_notMem fun hmem => ?_⟩
  obtain ⟨q, hq, hqp⟩ := mem_map.mp hmem
  rcases hacc.types q hq with hbase | howned
  · rw [hqp, hm.notBase p hp] at hbase
    cases hbase
  · exact hfree p hp (hqp ▸ howned)

theorem mergeFragment_of_free (hacc : acc.Sound) (hload : loadModel r.fragment = .ok m)
    (hm : Mergeable m) (hfree : ∀ p ∈ m, p.1 ∉ acc.typeOwner.map Prod.fst) :
    ∃ owner, ownTypes r.moduleKey m acc.typeOwner = .ok owner ∧
      mergeFragment acc r = .ok ⟨acc.model ++ m, acc.allowedTypes, owner⟩ := by
  obtain ⟨owner, hown⟩ := ownTypes_of_free m (loadModel_nodup hload) hm.notBase hfree
  refine ⟨owner, hown, ?_⟩
  refine bind_eq_ok.mpr ⟨m, mapError_eq_ok.mpr hload, bind_eq_ok.mpr ⟨owner, hown, ?_⟩⟩
  refine bind_eq_ok.mpr ⟨(), mapError_eq_ok.mpr hm.anchor, ?_⟩
  exact bind_eq_ok.mpr ⟨_, mapError_eq_ok.mpr (merge_of_free hacc hm hfree), rfl⟩

theorem sound_append {owner} (hacc : acc.Sound) (hm : Mergeable m)
    (hown : ownTypes r.moduleKey m acc.typeOwner = .ok owner) :
    (⟨acc.model ++ m, acc.allowedTypes, owner⟩ : Merged).Sound := by
  have hsub : acc.model ⊆ acc.model ++ m := subset_append_left _ _
  have howner := (ownTypes_eq_ok m hown).2
  refine ⟨fun p hp => hsub (hacc.base hp), fun p hp => ?_, fun p hp => ?_⟩
  · rcases mem_append.mp hp with hold | hnew
    · refine (hacc.types p hold).imp id fun hmem => ?_
      obtain ⟨q, hq, hqp⟩ := mem_map.mp hmem
      exact hqp ▸ mem_map_of_mem ((howner q).mpr (.inl hq))
    · have hq : (p.1, r.moduleKey) ∈ owner :=
        (howner _).mpr (.inr ⟨rfl, mem_map_of_mem hnew⟩)
      exact .inr (mem_map_of_mem hq)
  · rcases mem_append.mp hp with hold | hnew
    · obtain ⟨part, hpart, hle, hok⟩ := hacc.parts p hold
      exact ⟨part, hpart, fun q hq => hsub (hle hq), hok⟩
    · refine ⟨baseModel ++ m, mem_append_right _ hnew, fun q hq => ?_, hm.targets⟩
      exact mem_append.mpr ((mem_append.mp hq).imp (hacc.base ·) id)

theorem mergeRow_of_free (known : KnownEnabled) (hacc : acc.Sound) (hr : r.Sound)
    (hfree : ∀ t ∈ r.types, t ∉ acc.typeOwner.map Prod.fst) :
    ∃ acc', mergeRow known acc r = .ok acc' ∧ acc'.Sound ∧
      ∀ t ∈ acc'.typeOwner.map Prod.fst, t ∈ acc.typeOwner.map Prod.fst ∨ t ∈ r.types := by
  obtain ⟨m, hload, hm⟩ := hr
  let named : Merged := { acc with allowedTypes := acc.allowedTypes ++ harvestTypeNames r.fragment }
  have hnamed : named.Sound := ⟨hacc.base, hacc.types, hacc.parts⟩
  rw [Row.types_eq hload] at hfree ⊢
  unfold mergeRow
  by_cases hinert : known r.moduleKey ≠ some true ∨ r.active = false
  · exact ⟨named, if_pos hinert, hnamed, fun t ht => .inl ht⟩
  have hm_free : ∀ p ∈ m, p.1 ∉ named.typeOwner.map Prod.fst :=
    fun p hp => hfree p.1 (mem_map_of_mem hp)
  obtain ⟨owner, hown, hmerge⟩ := mergeFragment_of_free hnamed hload hm hm_free
  refine ⟨_, (if_neg hinert).trans hmerge, sound_append hnamed hm hown, fun t ht => ?_⟩
  obtain ⟨q, hq, hqt⟩ := mem_map.mp ht
  rcases ((ownTypes_eq_ok m hown).2 q).mp hq with hold | hnew
  · exact .inl (hqt ▸ mem_map_of_mem hold)
  · exact .inr (hqt ▸ hnew.2)

end Merge

theorem foldlM_of_apart (known : KnownEnabled) (rs : List Row) {acc} (hacc : acc.Sound)
    (hsound : ∀ r ∈ rs, r.Sound) (hapart : rs.Pairwise Row.Apart)
    (hfree : ∀ r ∈ rs, ∀ t ∈ r.types, t ∉ acc.typeOwner.map Prod.fst) :
    ∃ acc', rs.foldlM (mergeRow known) acc = .ok acc' ∧ acc'.Sound := by
  induction rs generalizing acc with
  | nil => exact ⟨acc, rfl, hacc⟩
  | cons r rs ih =>
    rw [forall_mem_cons] at hsound hfree
    rw [pairwise_cons] at hapart
    obtain ⟨acc₁, hstep, hacc₁, howner⟩ := mergeRow_of_free known hacc hsound.1 hfree.1
    have hfree₁ : ∀ r' ∈ rs, ∀ t ∈ r'.types, t ∉ acc₁.typeOwner.map Prod.fst := by
      intro r' hr' t ht hmem
      rcases howner t hmem with hold | hnew
      · exact hfree.2 r' hr' t ht hold
      · exact hapart.1 r' hr' t hnew ht
    obtain ⟨acc', hfold, hacc'⟩ := ih hacc₁ hsound.2 hapart.2 hfree₁
    exact ⟨acc', by rw [foldlM_cons]; exact bind_eq_ok.mpr ⟨acc₁, hstep, hfold⟩, hacc'⟩

theorem load_of_apart {rows} (known : KnownEnabled) (hsound : ∀ r ∈ rows, r.Sound)
    (hapart : rows.Pairwise Row.Apart) : ∃ l, load rows known = .ok l := by
  have hfree : ∀ r ∈ rows, ∀ t ∈ r.types, t ∉ Merged.start.typeOwner.map Prod.fst :=
    fun _ _ _ _ => not_mem_nil
  obtain ⟨acc, hfold, hacc⟩ := foldlM_of_apart known rows start_sound hsound hapart hfree
  have htar := Model.validateTupleToUsersetTargets_of_parts hacc.parts
  refine ⟨⟨acc.model, acc.allowedTypes, acc.typeOwner, known⟩, ?_⟩
  exact bind_eq_ok.mpr ⟨acc, hfold, bind_eq_ok.mpr ⟨(), mapError_eq_ok.mpr htar, rfl⟩⟩

end Kiban.Fragment
