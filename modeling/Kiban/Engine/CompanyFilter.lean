import Kiban.Engine.BaseModel
import Kiban.Engine.CheckHolds

/-!
# Checks bound to a company

A check bound to a company skips the userset rows of a `this` relation whose subject is a position, group or member of
another company.  The rows of a tupleset are not filtered: where none it meets names such a subject, what is written on
them does not change its answer.
-/

namespace Kiban

open List

/-- The tables differ only in tuples on positions, groups and members that are outside the company
in both. -/
def DifferOutside (companyId : String) (T₁ T₂ : Table) : Prop :=
  ∀ t : Tuple, ¬ (t ∈ T₁ ↔ t ∈ T₂) →
    ¬ InCompany T₁ companyId t.objectType t.objectId ∧ ¬ InCompany T₂ companyId t.objectType t.objectId

mutual

def Expr.tuplesets : Expr → List String
  | .this => []
  | .computedUserset _ => []
  | .tupleToUserset ts _ => [ts]
  | .union es => Expr.tuplesetsAll es
  | .intersection es => Expr.tuplesetsAll es
termination_by structural e => e

def Expr.tuplesetsAll : List Expr → List String
  | [] => []
  | e :: es => e.tuplesets ++ Expr.tuplesetsAll es
termination_by structural es => es

end

/-- No direct row of a tupleset of `n` names a subject outside the company. -/
def TuplesetsInside (cx : EvalCtx) (T : Table) (n : Node) (e : Expr) : Prop :=
  ∀ ts ∈ e.tuplesets, ∀ r ∈ T.rowsFor ⟨n.objType, n.objId, ts⟩, r.subjectRelation = "" →
    InCompany T cx.companyId r.subjectType r.subjectId

section

variable {cx : EvalCtx} {T T₁ T₂ : Table} {companyId : String} {n root : Node}

-- the rows that say who belongs are on subjects inside the company, or on the company itself
theorem inCompany_congr (h : DifferOutside companyId T₁ T₂) (subjType subjId : String) :
    InCompany T₁ companyId subjType subjId ↔ InCompany T₂ companyId subjType subjId := by
  by_cases horg : subjType = "position" ∨ subjType = "group"
  · have hrow : ∀ T : Table, InCompany T companyId subjType subjId ↔
        (⟨subjType, subjId, "company", "company", companyId, ""⟩ : Tuple) ∈ T := by
      intro T
      rw [InCompany, if_pos horg]
    by_contra hne
    rw [hrow T₁, hrow T₂] at hne
    have hout := h ⟨subjType, subjId, "company", "company", companyId, ""⟩ hne
    rw [hrow T₁, hrow T₂] at hout
    exact hne (iff_of_false hout.1 hout.2)
  · by_cases hmb : subjType = "member"
    · have hco : InCompany T₁ companyId "company" companyId := by simp [InCompany]
      rw [InCompany, InCompany, if_neg horg, if_neg horg, if_pos hmb, if_pos hmb]
      by_contra hne
      exact (h ⟨"company", companyId, "member", "member", subjId, "mapped_user"⟩ hne).1 hco
    · rw [InCompany, InCompany, if_neg horg, if_neg horg, if_neg hmb, if_neg hmb]

theorem sameRows_of_inCompany (h : DifferOutside cx.companyId T₁ T₂)
    (hn : InCompany T₁ cx.companyId n.objType n.objId) : SameRows cx T₁ T₂ n where
  rows := by
    intro rel r
    rw [Table.mem_rowsFor, Table.mem_rowsFor]
    by_contra hne
    exact (h _ hne).1 hn
  follows := by
    intro r
    exact or_congr_right (inCompany_congr h r.subjectType r.subjectId)

mutual

-- a hop of a `this` relation is filtered, one of a `computedUserset` stays on the object, and one of
-- a `tupleToUserset` is covered by the condition
theorem exprHops_inCompany (hbound : cx.companyId ≠ "") (hn : InCompany T cx.companyId n.objType n.objId) :
    ∀ e : Expr, TuplesetsInside cx T n e → ∀ a ∈ exprHops cx T n e, InCompany T cx.companyId a.objType a.objId
  | .this => by
    intro _ a ⟨r, _, h, ha⟩
    rw [ha]
    exact h.2.resolve_left hbound
  | .computedUserset rel => by
    intro _ a ha
    rw [show a = ⟨n.objType, n.objId, rel⟩ from ha]
    exact hn
  | .tupleToUserset ts cu => by
    intro hin a ⟨r, hr, hdir, ha⟩
    rw [ha]
    exact hin ts (by simp [Expr.tuplesets]) r hr hdir
  | .union es => exprHopsAll_inCompany hbound hn es
  | .intersection es => exprHopsAll_inCompany hbound hn es

theorem exprHopsAll_inCompany (hbound : cx.companyId ≠ "") (hn : InCompany T cx.companyId n.objType n.objId) :
    ∀ es : List Expr, (∀ ts ∈ Expr.tuplesetsAll es, ∀ r ∈ T.rowsFor ⟨n.objType, n.objId, ts⟩,
        r.subjectRelation = "" → InCompany T cx.companyId r.subjectType r.subjectId) →
      ∀ a ∈ exprHopsAll cx T n es, InCompany T cx.companyId a.objType a.objId
  | [] => fun _ _ ha => ha.elim
  | e :: es => by
    intro hin a ha
    cases ha with
    | inl he =>
      exact exprHops_inCompany hbound hn e (fun ts hts => hin ts (mem_append_left _ hts)) a he
    | inr hes =>
      exact exprHopsAll_inCompany hbound hn es (fun ts hts => hin ts (mem_append_right _ hts)) a hes

end

theorem meets_inCompany (hbound : cx.companyId ≠ "") (hroot : InCompany T cx.companyId root.objType root.objId)
    (hts : ∀ n e, Meets cx T root n → cx.model.relation? n.objType n.rel = some e → TuplesetsInside cx T n e)
    (h : Meets cx T root n) : InCompany T cx.companyId n.objType n.objId := by
  induction h with
  | root => exact hroot
  | hop hmet he ha ih => exact exprHops_inCompany hbound ih _ (hts _ _ hmet he) _ ha

end

/-! ## What the tupleset rows decide -/

section

open CutFixpoint

variable {cx : EvalCtx} {T T₁ T₂ : Table} {root : Node}

def Outside (cx : EvalCtx) (T : Table) : Set Node := { a | ¬ InCompany T cx.companyId a.objType a.objId }

/-- The node holds with the rows that lead outside the company dropped, or does not with all of them granted. -/
def Settled (cx : EvalCtx) (T : Table) (n : Node) : Prop :=
  n ∈ lfpCut (rules cx T) (Outside cx T) ∨ n ∉ lfpGrant (rules cx T) (Outside cx T)

theorem outside_congr (h : DifferOutside cx.companyId T₁ T₂) : Outside cx T₁ = Outside cx T₂ := by
  ext a
  exact not_congr (inCompany_congr h a.objType a.objId)

theorem DifferOutside.symm {companyId} (h : DifferOutside companyId T₁ T₂) : DifferOutside companyId T₂ T₁ :=
  fun t hne => (h t fun hiff => hne hiff.symm).symm

theorem rules_inside (h : DifferOutside cx.companyId T₁ T₂) (S : Set Node) :
    rules cx T₁ S \ Outside cx T₁ ⊆ rules cx T₂ S := by
  rintro a ⟨⟨e, he, hold⟩, hin⟩
  exact ⟨e, he, exprHolds_transfer (sameRows_of_inCompany h (not_not.mp hin)) e (fun _ _ ha => ha) hold⟩

theorem holds_of_settled (h : DifferOutside cx.companyId T₁ T₂) (hset : Settled cx T₁ root)
    (hold : root ∈ Holds cx T₁) : root ∈ Holds cx T₂ := by
  have hgrant := hset.resolve_right (not_not.mpr (lfp_subset_lfpGrant _ _ hold))
  have hcut := lfpCut_mono (rules_inside h) hgrant
  exact lfpCut_subset_lfp _ _ hcut

theorem Settled.of_differOutside (h : DifferOutside cx.companyId T₁ T₂) (hset : Settled cx T₁ root) :
    Settled cx T₂ root := by
  apply hset.imp
  · rw [← outside_congr h]
    exact fun hcut => lfpCut_mono (rules_inside h) hcut
  intro hnot hgrant
  rw [← outside_congr h] at hgrant
  apply hnot
  apply lfpGrant_mono _ hgrant
  rw [outside_congr h]
  exact rules_inside h.symm

-- the nodes met are all inside, where the two fixpoints have the same rules
theorem settled_of_tuplesetsInside (hbound : cx.companyId ≠ "")
    (hroot : InCompany T cx.companyId root.objType root.objId)
    (hts : ∀ n e, Meets cx T root n → cx.model.relation? n.objType n.rel = some e → TuplesetsInside cx T n e) :
    Settled cx T root := by
  have hin : ∀ a, Meets cx T root a → a ∉ Outside cx T := fun a ha => not_not.mpr (meets_inCompany hbound hroot hts ha)
  have hclo : grant (rules cx T) (Outside cx T) { a | Meets cx T root a → a ∈ lfpCut (rules cx T) (Outside cx T) } ≤
      { a | Meets cx T root a → a ∈ lfpCut (rules cx T) (Outside cx T) } := by
    rintro a (⟨e, he, hold⟩ | hout) ha
    · rw [lfpCut_eq]
      refine ⟨⟨e, he, exprHolds_transfer (SameRows.refl cx T a) e ?_ hold⟩, hin a ha⟩
      exact fun b hb hmet => hmet (ha.hop he hb)
    · exact absurd hout (hin a ha)
  rw [Settled, or_iff_not_imp_right, not_not]
  exact fun hgrant => OrderHom.lfp_le _ hclo hgrant .root

end

/-- Company noninterference of a bound check: what is written on the positions, groups and members outside the company
changes no answer that is settled without them.  One that is not settled meets a tupleset row, which is not filtered,
with one of them. -/
theorem engineCheckInCompany_noninterference (cx : EvalCtx) (hbound : cx.companyId ≠ "") (T₁ T₂ : Table)
    (hdiffer : DifferOutside cx.companyId T₁ T₂) (root : Node)
    (hroot : InCompany T₁ cx.companyId root.objType root.objId) :
    (Settled cx T₁ root → ∀ db₁ db₂ b₁ b₂, db₁.Serves T₁ → db₂.Serves T₂ →
      engineCheckInCompany cx.model db₁ root cx.subjType cx.subjId cx.companyId = .ok b₁ →
      engineCheckInCompany cx.model db₂ root cx.subjType cx.subjId cx.companyId = .ok b₂ → b₁ = b₂) ∧
    (¬ Settled cx T₁ root → ∃ n e, Meets cx T₁ root n ∧ cx.model.relation? n.objType n.rel = some e ∧
      ¬ TuplesetsInside cx T₁ n e) := by
  constructor
  · intro hset db₁ db₂ b₁ b₂ hdb₁ hdb₂ h₁ h₂
    have hiff₁ : b₁ = true ↔ root ∈ Holds cx T₁ := run_ok_iff hdb₁ h₁
    have hiff₂ : b₂ = true ↔ root ∈ Holds cx T₂ := run_ok_iff hdb₂ h₂
    rw [Bool.eq_iff_iff, hiff₁, hiff₂]
    exact ⟨holds_of_settled hdiffer hset, holds_of_settled hdiffer.symm (hset.of_differOutside hdiffer)⟩
  · intro hnot
    by_contra hnone
    push Not at hnone
    exact hnot (settled_of_tuplesetsInside hbound hroot hnone)

theorem differOutside_cons {companyId T₁ T₂ t} (hrows : T₁.rows = T₂.rows ++ [t])
    (h₁ : ¬ InCompany T₁ companyId t.objectType t.objectId)
    (h₂ : ¬ InCompany T₂ companyId t.objectType t.objectId) : DifferOutside companyId T₁ T₂ := by
  intro t' hne
  have ht' : t' = t := by
    by_contra hother
    apply hne
    change t' ∈ T₁.rows ↔ t' ∈ T₂.rows
    rw [hrows, mem_append, mem_singleton]
    exact or_iff_left hother
  rw [ht']
  exact ⟨h₁, h₂⟩

-- a time entry that names a member of another company, with and without the user of that member
def entryRow : Tuple := ⟨"timesheet_entry", "e", "member", "member", "m", ""⟩

def mappedUser : Tuple := ⟨"member", "m", "mapped_user", "user", "u", ""⟩

-- the user owns the entry all the same
def ownerRow : Tuple := ⟨"timesheet_entry", "e", "owner", "user", "u", ""⟩

def ownedMappedTable : Table where
  rows := [ownerRow, entryRow, mappedUser]
  nodup := by decide
  text := by decide

def ownedTable : Table where
  rows := [ownerRow, entryRow]
  nodup := by decide
  text := by decide

def Expr.startsWithThis : Expr → Bool
  | .union (.this :: _) => true
  | _ => false

theorem settled_owned :
    Settled ⟨baseModel, "user", "u", "c"⟩ ownedMappedTable ⟨"timesheet_entry", "e", "owner"⟩ := by
  have hthis : (baseModel.relation? "timesheet_entry" "owner").map Expr.startsWithThis = some true := by
    decide +kernel
  obtain ⟨e, he, hsta⟩ := Option.map_eq_some_iff.mp hthis
  left
  rw [CutFixpoint.lfpCut_eq]
  refine ⟨(mem_rules he).mpr ?_, not_not.mpr (by decide)⟩
  unfold Expr.startsWithThis at hsta
  split at hsta
  · exact .inl ⟨ownerRow.row, by decide, .inl ⟨rfl, rfl, rfl⟩⟩
  · cases hsta

theorem engineCheckInCompany_noninterference_owned : mappedUser ∈ ownedMappedTable ∧ mappedUser ∉ ownedTable ∧
    ∃ b₁ b₂, engineCheckInCompany baseModel (ownedMappedTable.serve fun _ => false)
        ⟨"timesheet_entry", "e", "owner"⟩ "user" "u" "c" = .ok b₁ ∧
      engineCheckInCompany baseModel (ownedTable.serve fun _ => true)
        ⟨"timesheet_entry", "e", "owner"⟩ "user" "u" "c" = .ok b₂ ∧ b₁ = b₂ := by
  obtain ⟨hmap, howned⟩ : engineCheckInCompany baseModel (ownedMappedTable.serve fun _ => false)
        ⟨"timesheet_entry", "e", "owner"⟩ "user" "u" "c" = .ok true ∧
      engineCheckInCompany baseModel (ownedTable.serve fun _ => true)
        ⟨"timesheet_entry", "e", "owner"⟩ "user" "u" "c" = .ok true := by decide +kernel
  refine ⟨by decide, by decide, true, true, hmap, howned, ?_⟩
  have hsame := engineCheckInCompany_noninterference ⟨baseModel, "user", "u", "c"⟩ (by decide) ownedMappedTable
    ownedTable (differOutside_cons rfl (by decide) (by decide)) ⟨"timesheet_entry", "e", "owner"⟩ (by decide)
  exact hsame.1 settled_owned _ _ true true (ownedMappedTable.serve_serves fun _ => false)
    (ownedTable.serve_serves fun _ => true) hmap howned

/-! ## Tupleset rows -/

def mappedTable : Table where
  rows := [entryRow, mappedUser]
  nodup := by decide
  text := by decide

def unmappedTable : Table where
  rows := [entryRow]
  nodup := by decide
  text := by decide

theorem engineCheckInCompany_tupleset_row : DifferOutside "c" mappedTable unmappedTable ∧
    InCompany mappedTable "c" "timesheet_entry" "e" ∧
    engineCheckInCompany baseModel (mappedTable.serve fun _ => false) ⟨"timesheet_entry", "e", "owner"⟩
      "user" "u" "c" = .ok true ∧
    engineCheckInCompany baseModel (unmappedTable.serve fun _ => false)
      ⟨"timesheet_entry", "e", "owner"⟩ "user" "u" "c" = .ok false := by
  refine ⟨differOutside_cons rfl (by decide) (by decide), by decide, ?_⟩
  decide +kernel

end Kiban
