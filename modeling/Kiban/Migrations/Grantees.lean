import Kiban.Migrations.Fence

/-!
# Whom a migration grants to

The scan looks for the grantees after the first `TO` (`FROM` of a `REVOKE`) that follows `ON`.  Both words are
reserved in PostgreSQL, but as everywhere a reserved word may be a name after a dot, so the objects of the
statement may hold one.
-/

namespace Kiban.Migrations

open List

/-! ## What PostgreSQL reads -/

def roleKeyword (ts : List Token) : String := if kw ts 0 = "revoke" then "from" else "to"

/-- The keyword before the grantees: the first after `ON` that is not a name after a dot. -/
def granteesAt (ts : List Token) : Option Nat :=
  (firstKw ts "on" 0).bind fun on =>
    (List.range' on (ts.length - on)).find? fun j => kw ts j = roleKeyword ts ∧ ¬ punctAt ts (j - 1) "."

def roleListWithin (ts : List Token) : Nat → Nat → List String
  | 0, _ => []
  | fuel + 1, i =>
    let i := if kw ts i = "group" then i + 1 else i
    match identAt ts i with
    | none => []
    | some name => name :: if punctAt ts (i + 1) "," then roleListWithin ts fuel (i + 2) else []

/-- The roles of the list `[GROUP] role[, [GROUP] role...]` at `i`. -/
def roleList (ts : List Token) (i : Nat) : List String := roleListWithin ts (ts.length - i) i

def grantees (ts : List Token) : List String :=
  match granteesAt ts with
  | none => []
  | some j => roleList ts (j + 1)

/-- Where a statement grants or revokes: at its start, or at a `GRANT` among the elements of a `CREATE SCHEMA`. -/
def grantsAt (ts : List Token) : List Nat :=
  (List.range ts.length).filter fun p =>
    (p = 0 ∧ kw ts 0 ∈ ["grant", "revoke"]) ∨
      (0 < p ∧ kw ts 0 = "create" ∧ kw ts 1 = "schema" ∧ kw ts p = "grant" ∧ ¬ punctAt ts (p - 1) "." ∧
        kw ts (p - 1) ∉ ["as", "with"])

/-! ## What the scan goes by -/

/-- The first role keyword after `ON` is a name after a dot. -/
def Shadowed (ts : List Token) : Prop :=
  ∃ on j, firstKw ts "on" 0 = some on ∧ firstKw ts (roleKeyword ts) on = some j ∧ punctAt ts (j - 1) "." = true

/-- The scan does not get to the grantees: the grant is an element of a `CREATE SCHEMA`, or an object is named
like the keyword. -/
def Overlooked (ts : List Token) (p : Nat) : Prop := p ≠ 0 ∨ Shadowed ts

def GrantsOnlyTo (role : String) (ts : List Token) : Prop := grantees ts ≠ [] ∧ ∀ r ∈ grantees ts, r = role

theorem nameListWithin_eq_roleListWithin {ts} (fuel i : Nat) (h : ∀ r ∈ nameListWithin ts fuel i, r ≠ "group") :
    roleListWithin ts fuel i = nameListWithin ts fuel i := by
  induction fuel generalizing i with
  | zero => rfl
  | succ fuel ih =>
    have hplain : kw ts i ≠ "group" := by
      intro hgroup
      have hident : identAt ts i = some "group" := by
        unfold kw at hgroup
        unfold identAt
        cases hget : ts[i]? with
        | none => simp [hget] at hgroup
        | some t =>
          simp only [hget] at hgroup ⊢
          split at hgroup
          · rename_i hkind
            rw [if_pos hkind.1, hgroup]
          · simp at hgroup
      rw [nameListWithin, hident] at h
      exact h "group" mem_cons_self rfl
    rw [nameListWithin] at h ⊢
    rw [roleListWithin, if_neg hplain]
    cases hident : identAt ts i with
    | none => rfl
    | some name =>
      rw [hident] at h
      dsimp only at h ⊢
      split at h
      · rename_i hcomma
        rw [if_pos hcomma, if_pos hcomma, ih (i + 2) fun r hr => h r (mem_cons_of_mem _ hr)]
      · rename_i hcomma
        rw [if_neg hcomma, if_neg hcomma]

theorem granteesAt_of_not_shadowed {ts} (h : ¬ Shadowed ts) :
    granteesAt ts = (firstKw ts "on" 0).bind fun on => firstKw ts (roleKeyword ts) on := by
  unfold granteesAt
  cases hon : firstKw ts "on" 0 with
  | none => rfl
  | some on =>
    rw [Option.bind_some, Option.bind_some]
    cases hfirst : firstKw ts (roleKeyword ts) on with
    | none =>
      refine find?_eq_none.mpr fun j hj => ?_
      have := find?_eq_none.mp hfirst j hj
      simp only [decide_eq_true_eq] at this ⊢
      exact fun hboth => this hboth.1
    | some j =>
      have hplain : ¬ punctAt ts (j - 1) "." = true := fun hdot => h ⟨on, j, hon, hfirst, hdot⟩
      obtain ⟨hkw, before, after, hsplit, hbef⟩ := find?_eq_some_iff_append.mp hfirst
      refine find?_eq_some_iff_append.mpr ⟨?_, before, after, hsplit, fun i hi => ?_⟩
      · exact decide_eq_true ⟨of_decide_eq_true hkw, hplain⟩
      · have := hbef i hi
        simp only [Bool.not_eq_true', decide_eq_false_iff_not] at this ⊢
        exact fun hboth => this hboth.1

namespace SqlScan

variable {go : GoText} {s : SqlScan} {ts : List Token}

theorem roleKeyword_eq (hverb : kw ts 0 ∈ ["grant", "revoke"]) :
    (if go.upper (kw ts 0) = "REVOKE" then "from" else "to") = roleKeyword ts := by
  have hupper : ∀ word : String, (word.toList.all fun c => decide (c.toNat < 0x80)) = true →
      go.upper word = .ofList (word.toList.map Char.toUpper) := by
    intro word hword
    have hascii : ∀ c ∈ word.toList, c.toNat < 0x80 := fun c hc => of_decide_eq_true (all_eq_true.mp hword c hc)
    rw [GoText.upper, go.toUpper_ascii _ hascii]
  unfold roleKeyword
  simp only [mem_cons, not_mem_nil, or_false] at hverb
  rcases hverb with hgrant | hrev
  · rw [hgrant, hupper "grant" (by decide)]
    decide
  · rw [hrev, hupper "revoke" (by decide)]
    decide

/-- An accepted statement that the scan does not overlook grants to the module's role only. -/
theorem grantees_of_grant (h : s.grant go ts = []) (hverb : kw ts 0 ∈ ["grant", "revoke"])
    (hplain : ¬ Shadowed ts) : ∀ r ∈ grantees ts, r = "kiban_" ++ s.moduleKey := by
  have hat := granteesAt_of_not_shadowed hplain
  unfold grant at h
  cases hon : firstKw ts "on" 0 with
  | none =>
    rw [hon] at hat
    unfold grantees
    rw [hat]
    exact fun r hr => nomatch hr
  | some on =>
    rw [hon] at h hat
    rw [Option.bind_some] at hat
    have hroles := (append_eq_nil_iff.mp h).2
    unfold grantRoles at hroles
    rw [roleKeyword_eq hverb] at hroles
    dsimp only at hroles
    unfold grantees
    rw [hat]
    cases hfirst : firstKw ts (roleKeyword ts) on with
    | none => exact fun r hr => nomatch hr
    | some j =>
      rw [hfirst] at hroles
      have hnames : ∀ r ∈ nameList ts (j + 1), r = "kiban_" ++ s.moduleKey := by
        intro r hr
        by_contra hne
        have := flatMap_eq_nil_iff.mp hroles r hr
        rw [if_pos hne] at this
        cases this
      have hnog : ∀ r ∈ nameList ts (j + 1), r ≠ "group" := by
        intro r hr hgroup
        have := congrArg String.toList ((hnames r hr).symm.trans hgroup)
        rw [String.toList_append] at this
        exact absurd (congrArg List.head? this) (by simp)
      have hsame : roleList ts (j + 1) = nameList ts (j + 1) :=
        nameListWithin_eq_roleListWithin _ _ hnog
      dsimp only
      rw [hsame]
      exact hnames

end SqlScan

/-- Of a migration that the scan accepts: every grant and revocation in it names somebody, and nobody but the
module's role, exactly when each of them has a role after its keyword and those whose grantees the scan
does not get to name that role only. -/
theorem scanMigration_grantees_iff (go : GoText) (moduleKey : String) (mf : MigrationFile)
    (h : scanMigration go moduleKey mf = some []) :
    (∀ ts ∈ mf.statements go, ∀ p ∈ grantsAt ts, GrantsOnlyTo ("kiban_" ++ moduleKey) (ts.drop p)) ↔
      ∀ ts ∈ mf.statements go, ∀ p ∈ grantsAt ts, grantees (ts.drop p) ≠ [] ∧
        (Overlooked ts p → ∀ r ∈ grantees (ts.drop p), r = "kiban_" ++ moduleKey) := by
  constructor
  · intro hall ts hts p hp
    exact ⟨(hall ts hts p hp).1, fun _ => (hall ts hts p hp).2⟩
  intro hall ts hts p hp
  obtain ⟨hnamed, hove⟩ := hall ts hts p hp
  refine ⟨hnamed, ?_⟩
  by_cases hseen : Overlooked ts p
  · exact hove hseen
  obtain ⟨hp0, hplain⟩ := not_or.mp hseen
  obtain rfl : p = 0 := not_not.mp hp0
  have hverb : kw ts 0 ∈ ["grant", "revoke"] := by
    have hwhere := of_decide_eq_true (List.mem_filter.mp hp).2
    rcases hwhere with ⟨_, hverb⟩ | ⟨hpos, _⟩
    · exact hverb
    · exact absurd hpos (lt_irrefl 0)
  have hacc := (SqlScan.passed_of_statement (SqlScan.statement_of_statements h ts hts)).grant hverb
  rw [drop_zero]
  exact SqlScan.grantees_of_grant hacc hverb hplain

def ownGrants : MigrationFile := migration
  ["GRANT SELECT, INSERT ON widget.t, audit.widget__events TO kiban_widget;",
    "REVOKE UPDATE ON ALL TABLES IN SCHEMA widget FROM kiban_widget;"]

theorem scanMigration_grantees_iff_own : scanMigration asciiText "widget" ownGrants = some [] ∧
      ((∀ ts ∈ ownGrants.statements asciiText, ∀ p ∈ grantsAt ts, GrantsOnlyTo ("kiban_" ++ "widget") (ts.drop p)) ↔
        ∀ ts ∈ ownGrants.statements asciiText, ∀ p ∈ grantsAt ts, grantees (ts.drop p) ≠ [] ∧
          (Overlooked ts p → ∀ r ∈ grantees (ts.drop p), r = "kiban_" ++ "widget")) :=
  have haccepted : scanMigration asciiText "widget" ownGrants = some [] := by decide +kernel
  ⟨haccepted, scanMigration_grantees_iff asciiText "widget" ownGrants haccepted⟩

/-- A table named `to` is in the list; the grant is an element of the schema; nobody is named. -/
def strayGrants : List (MigrationFile × Nat × List String) :=
  [(migration ["GRANT SELECT ON widget.to, widget.t TO public"], 0, ["public"]),
    (migration ["REVOKE INSERT ON widget.from, widget.t FROM kiban_org"], 0, ["kiban_org"]),
    (migration ["CREATE SCHEMA widget GRANT SELECT ON widget.t TO public"], 3, ["public"]),
    (migration ["GRANT SELECT ON widget.t"], 0, [])]

theorem strayGrants_accepted : strayGrants.length = 4 ∧ ∀ m ∈ strayGrants,
    scanMigration asciiText "widget" m.1 = some [] ∧
      ∃ ts ∈ m.1.statements asciiText, m.2.1 ∈ grantsAt ts ∧ grantees (ts.drop m.2.1) = m.2.2 ∧
        ¬ (grantees (ts.drop m.2.1) ≠ [] ∧ ∀ r ∈ grantees (ts.drop m.2.1), r = "kiban_widget") := by
  decide +kernel

end Kiban.Migrations
