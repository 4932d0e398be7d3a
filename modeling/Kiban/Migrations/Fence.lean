import Kiban.Migrations.SqlScan

/-!
# The schema fence of a module migration

What a migration that the scan accepts can name.  A reference is `schema.name` in the tokens of a
statement; the scan looks at some of the places where one can stand, and there it finds every
reference and holds it inside the module's fence.
-/

namespace Kiban.Migrations

open List

/-! ## References and the fence -/

/-- The reference `r` is written in `ts` and does not continue a longer dotted name.  There is no empty
identifier in SQL. -/
structure Written (ts : List Token) (r : SchemaRef) : Prop where
  schema : identAt ts r.pos = some r.schema
  dot : punctAt ts (r.pos + 1) "."
  name : identAt ts (r.pos + 2) = some r.name
  start : r.pos = 0 ∨ ¬ punctAt ts (r.pos - 1) "."
  nonempty : r.schema ≠ ""

instance (ts : List Token) (r : SchemaRef) : Decidable (Written ts r) :=
  decidable_of_iff (identAt ts r.pos = some r.schema ∧ punctAt ts (r.pos + 1) "." ∧
      identAt ts (r.pos + 2) = some r.name ∧ (r.pos = 0 ∨ ¬ punctAt ts (r.pos - 1) ".") ∧ r.schema ≠ "")
    ⟨fun ⟨hschema, hdot, hname, hstart, hnonempty⟩ => ⟨hschema, hdot, hname, hstart, hnonempty⟩,
      fun h => ⟨h.schema, h.dot, h.name, h.start, h.nonempty⟩⟩

/-- The schema of the module, its audit objects and its version table. -/
def InFence (key : String) (r : SchemaRef) : Prop :=
  r.schema = key ∨ (r.schema = "audit" ∧ (key ++ "__").toList <+: r.name.toList) ∨
    (r.schema = "public" ∧ r.name = "schema_version_" ++ key)

instance (key : String) (r : SchemaRef) : Decidable (InFence key r) := by
  unfold InFence
  infer_instance

/-- The shared audit function may be referenced; the grandfathered files still replace it. -/
def SqlScan.Permits (s : SqlScan) (target : Bool) (r : SchemaRef) : Prop :=
  InFence s.moduleKey r ∨
    (r.schema = "audit" ∧ r.name = sharedAuditFunction ∧ (target = false ∨ s.grandfathered = true))

instance (s : SqlScan) (target : Bool) (r : SchemaRef) : Decidable (s.Permits target r) := by
  unfold SqlScan.Permits
  infer_instance

theorem SqlScan.Permits.reference {s : SqlScan} {r : SchemaRef} (h : s.Permits true r) : s.Permits false r :=
  h.imp_right fun ⟨hs, hn, _⟩ => ⟨hs, hn, .inl rfl⟩

theorem SqlScan.checkRef_eq_nil_iff (go : GoText) (s : SqlScan) (r : SchemaRef) (target : Bool) :
    s.checkRef go r target = [] ↔ s.Permits target r := by
  unfold SqlScan.checkRef SqlScan.Permits InFence SqlScan.fail
  rw [← isPrefixOf_iff_prefix]
  split_ifs with hown haudit hshd hgrand hver
  · exact iff_of_true rfl (.inl (.inl hown))
  · exact iff_of_true rfl (.inl (.inr (.inl haudit)))
  · refine iff_of_true rfl (.inr ⟨hshd.1, hshd.2, ?_⟩)
    simpa using hgrand
  · have hpub : ¬ r.schema = "public" := by simp [hshd.1]
    simp_all
  · exact iff_of_true rfl (.inl (.inr (.inr hver)))
  · simp_all

/-! ## The reader of references -/

theorem identAt_of_punctAt {ts i p} (h : punctAt ts i p) : identAt ts i = none := by
  unfold punctAt at h
  unfold identAt
  cases ht : ts[i]? with
  | none => rfl
  | some t => simp_all [Token.isPunct]

namespace Written

variable {ts : List Token} {r : SchemaRef}

theorem not_punctAt (h : Written ts r) (p : String) : ¬ punctAt ts r.pos p := by
  intro hp
  have hnone := identAt_of_punctAt hp
  rw [h.schema] at hnone
  cases hnone

theorem refAt_eq (h : Written ts r) : (refAt ts r.pos).1 = r := by
  have hname : dotted ts (r.pos + 1) = some r.name := by
    rw [dotted, if_pos h.dot]
    exact h.name
  rw [refAt, h.schema]
  simp [hname]

theorem lt_refAt (h : Written ts r) : r.pos < (refAt ts r.pos).2 := by
  unfold refAt
  rw [h.schema]
  dsimp only
  split
  · omega
  · dsimp only
    split <;> omega

/-- The name that the reader takes at `i` ends before a reference that is written after `i`. -/
theorem refAt_le (h : Written ts r) {i} (hi : i < r.pos) : (refAt ts i).2 ≤ r.pos := by
  -- a dot is no identifier, and the identifier after a dot continues a name
  have hdot : ∀ k, punctAt ts k "." → r.pos ≠ k ∧ r.pos ≠ k + 1 := fun k hk =>
    ⟨fun heq => h.not_punctAt "." (heq ▸ hk),
      fun heq => h.start.elim (by omega) fun hprev => hprev (by rwa [heq, Nat.add_sub_cancel])⟩
  have hdott : ∀ k, (dotted ts k).isSome → r.pos ≠ k ∧ r.pos ≠ k + 1 := by
    intro k hk
    unfold dotted at hk
    split at hk
    · next hp => exact hdot k hp
    · simp at hk
  unfold refAt
  split
  · exact hi.le
  split
  · exact hi
  next hsec =>
    have hfirst := hdott (i + 1) (by simp [hsec])
    dsimp only
    split
    · next hcol =>
        have := hdott (i + 3) hcol
        omega
    · omega

theorem add_two_lt_length (h : Written ts r) : r.pos + 2 < ts.length := by
  by_contra hge
  have hnone : ts[r.pos + 2]? = none := getElem?_eq_none (by omega)
  have hname := h.name
  simp [identAt, hnone] at hname

/-- The loop of `allRefs` stands at every reference of its range. -/
theorem mem_allRefsWithin (h : Written ts r) {stop} (hstop : r.pos < stop) :
    ∀ fuel i, i ≤ r.pos → stop ≤ i + fuel → r ∈ allRefsWithin ts stop fuel i := by
  intro fuel
  induction fuel with
  | zero => intro i hi hfuel; omega
  | succ fuel ih =>
    intro i hi hfuel
    rw [allRefsWithin, if_neg (by omega)]
    dsimp only
    rcases hi.eq_or_lt with heq | hlt
    · subst heq
      have hnext := h.lt_refAt
      rw [if_neg (by omega), h.refAt_eq, if_pos h.nonempty]
      exact mem_append_left _ (mem_singleton_self r)
    · have hnext := h.refAt_le hlt
      split
      · exact ih (i + 1) hlt (by omega)
      next hmoved =>
        have hafter : i < (refAt ts i).2 := by
          unfold refAt at hmoved ⊢
          grind
        exact mem_append_right _ (ih _ hnext (by omega))

theorem mem_allRefs (h : Written ts r) {start stop} (hstart : start ≤ r.pos) (hstop : r.pos < stop) :
    r ∈ allRefs ts start stop :=
  h.mem_allRefsWithin hstop _ _ hstart (by omega)

theorem mem_dmlRefs (h : Written ts r) {start stop j} (hpos : r.pos = j + 1)
    (hkw : kw ts j ∈ tableKeywords) (hstart : start ≤ j) (hstop : j < stop) :
    r ∈ dmlRefs ts start stop := by
  refine mem_flatMap.mpr ⟨j, mem_range'_1.mpr ⟨hstart, by omega⟩, ?_⟩
  have hnext := h.lt_refAt
  have heq := h.refAt_eq
  rw [hpos] at hnext heq
  rw [if_pos hkw]
  dsimp only
  rw [heq, if_pos ⟨hnext, h.nonempty⟩]
  exact mem_singleton_self r

end Written

/-! ## Lists of names -/

/-- A name of the list that starts at a place starts at `j`. -/
inductive Listed (ts : List Token) : Nat → Nat → Prop where
  | head (i : Nat) : Listed ts i i
  | tail {i j : Nat} : i < (refAt ts i).2 → punctAt ts (skipArguments ts (refAt ts i).2) "," →
      Listed ts (skipArguments ts (refAt ts i).2 + 1) j → Listed ts i j

theorem le_skipArgumentsWithin (ts : List Token) (fuel depth i : Nat) :
    i ≤ skipArgumentsWithin ts fuel depth i := by
  induction fuel generalizing depth i with
  | zero => exact le_rfl
  | succ fuel ih =>
    have hstep : ∀ depth, i ≤ skipArgumentsWithin ts fuel depth (i + 1) := fun depth =>
      (Nat.le_succ i).trans (ih depth (i + 1))
    rw [skipArgumentsWithin]
    split_ifs
    · exact le_rfl
    · exact hstep _
    · exact Nat.le_succ i
    · exact hstep _
    · exact hstep _

theorem le_skipArguments (ts : List Token) (i : Nat) : i ≤ skipArguments ts i := by
  unfold skipArguments
  split
  · exact le_skipArgumentsWithin ts _ 0 i
  · exact le_rfl

namespace SqlScan

variable {go : GoText} {s : SqlScan} {ts : List Token}

/-- The loop of `targetList` stands at every name of the list. -/
theorem mem_targetListWithin {r} (hr : Written ts r) {i j} (hj : Listed ts i j) (hpos : r.pos = j) :
    ∀ fuel, ts.length ≤ i + fuel → r ∈ (s.targetListWithin ts fuel i).1 := by
  have hlen := hr.add_two_lt_length
  induction hj with
  | head i =>
    intro fuel hfuel
    obtain ⟨fuel, rfl⟩ : ∃ n, fuel = n + 1 := ⟨fuel - 1, by omega⟩
    have hnext := hr.lt_refAt
    have heq := hr.refAt_eq
    rw [hpos] at hnext heq
    rw [targetListWithin]
    dsimp only
    rw [if_neg (by omega), heq, if_neg hr.nonempty]
    exact mem_cons_self
  | @tail i j hlt hcomma hrest ih =>
    intro fuel hfuel
    have hskip := le_skipArguments ts (refAt ts i).2
    obtain ⟨fuel, rfl⟩ : ∃ n, fuel = n + 1 := by
      cases fuel with
      | zero =>
        have hend : ts[skipArguments ts (refAt ts i).2]? = none :=
          getElem?_eq_none (by omega)
        simp [punctAt, hend] at hcomma
      | succ n => exact ⟨n, rfl⟩
    have hmem := ih hpos fuel (by omega)
    rw [targetListWithin]
    dsimp only
    rw [if_neg (by omega), if_pos hcomma]
    split
    · exact hmem
    · exact mem_cons_of_mem _ hmem

theorem permits_of_checkTargets {i j} (h : s.checkTargets go ts i = []) (hj : Listed ts i j) {r}
    (hr : Written ts r) (hpos : r.pos = j) : s.Permits true r := by
  have hche := flatMap_eq_nil_iff.mp (append_eq_nil_iff.mp h).2
  exact (checkRef_eq_nil_iff go s r true).mp (hche r (mem_targetListWithin hr hj hpos _ (by omega)))

end SqlScan

/-! ## What the scan looks at -/

def CreatesObject (ts : List Token) : Prop :=
  kw ts 0 = "create" ∧ kw ts (createHead ts).kindAt ≠ "schema"

def createQuery (ts : List Token) : Nat :=
  queryAt ts (kw ts (createHead ts).kindAt) (refAt ts (createHead ts).name).2

/-- A `GRANT` on schemas names no object. -/
def grantList (ts : List Token) (i : Nat) : Option Nat :=
  if kw ts i = "schema" ∨ kw ts i = "all" then none
  else if kw ts i ∈ grantedKinds then some (i + 1)
  else some i

/-- Where the list of the objects that a statement acts on starts. -/
def listAt (ts : List Token) : Option Nat :=
  match kw ts 0 with
  | "drop" => if kw ts 1 = "schema" then none else some (dropList ts (kw ts 1))
  | "grant" | "revoke" => (firstKw ts "on" 0).bind fun on => grantList ts (on + 1)
  | "truncate" => some (truncateList ts)
  | "comment" => some (commentList ts (kw ts 2))
  | _ => none

/-- The statement creates, alters, drops, grants on, truncates, comments on, reads or writes the object
named at a place. -/
inductive ActsOn (ts : List Token) : Nat → Prop where
  | created : CreatesObject ts → ActsOn ts (createHead ts).name
  | createdOn {on : Nat} : CreatesObject ts →
      firstKw ts "on" (refAt ts (createHead ts).name).2 = some on → ActsOn ts (on + 1)
  | altered : kw ts 0 = "alter" → ActsOn ts (alterTarget ts (kw ts (alterKindAt ts)))
  | listed {i j : Nat} : listAt ts = some i → Listed ts i j → ActsOn ts j
  | table {j : Nat} : kw ts 0 ∈ ["insert", "update", "delete", "with"] → kw ts j ∈ tableKeywords →
      ActsOn ts (j + 1)

/-- The definition that the statement creates or alters refers to the object named at a place. -/
inductive RefersTo (ts : List Token) : Nat → Prop where
  | created {j : Nat} : CreatesObject ts → (createHead ts).name ≤ j → j < createQuery ts → RefersTo ts j
  | queried {j : Nat} : CreatesObject ts → (createHead ts).name ≤ j → createQuery ts ≤ j →
      kw ts j ∈ tableKeywords → RefersTo ts (j + 1)
  | altered {j : Nat} : kw ts 0 = "alter" → alterTarget ts (kw ts (alterKindAt ts)) ≤ j → RefersTo ts j

/-- The statement names a schema as such; it may then only be the `audit` schema when that is not
`owned` by one module. -/
inductive NamesSchema (ts : List Token) : Bool → String → Prop where
  | created : kw ts 0 = "create" → kw ts (createHead ts).kindAt = "schema" →
      NamesSchema ts (!(createHead ts).ifNotExists) (kw ts (createHead ts).name)
  | dropped : kw ts 0 = "drop" → kw ts 1 = "schema" → NamesSchema ts true (kw ts (dropName ts))
  | granted {on : Nat} {name : String} : kw ts 0 ∈ ["grant", "revoke"] → firstKw ts "on" 0 = some on →
      kw ts (on + 1) = "schema" → name ∈ nameList ts (on + 2) → NamesSchema ts false name
  | grantedAll {on : Nat} {name : String} : kw ts 0 ∈ ["grant", "revoke"] →
      firstKw ts "on" 0 = some on → kw ts (on + 1) = "all" → name ∈ nameList ts (allInSchema ts (on + 1)) →
      NamesSchema ts true name

def allowedVerbs : List String :=
  ["create", "alter", "drop", "grant", "revoke", "truncate", "insert", "update", "delete", "with",
    "comment"]

structure SqlScan.Fences (s : SqlScan) (ts : List Token) : Prop where
  verb : kw ts 0 ∈ allowedVerbs
  target : ∀ r, Written ts r → ActsOn ts r.pos → s.Permits true r
  reference : ∀ r, Written ts r → RefersTo ts r.pos → s.Permits false r
  truncated : kw ts 0 = "truncate" → ∀ r, Written ts r → ActsOn ts r.pos → r.schema = s.moduleKey
  schema : ∀ owned name, NamesSchema ts owned name → name = s.moduleKey ∨ (owned = false ∧ name = "audit")

/-! ## Each statement -/

theorem le_of_firstKw {ts word start j} (h : firstKw ts word start = some j) : start ≤ j :=
  (mem_range'_1.mp (mem_of_find?_eq_some h)).1

theorem le_refAt (ts : List Token) (i : Nat) : i ≤ (refAt ts i).2 := by
  unfold refAt
  grind

namespace SqlScan

variable {go : GoText} {s : SqlScan} {ts : List Token} {r : SchemaRef}

section Create

variable {kind : String} {i : Nat}

theorem createObject_target (h : s.createObject go ts kind i = []) (hr : Written ts r)
    (hpos : r.pos = i) : s.Permits true r := by
  simp only [createObject, append_eq_nil_iff] at h
  obtain ⟨⟨⟨⟨-, htgt⟩, -⟩, -⟩, -⟩ := h
  rw [← hpos, hr.refAt_eq, if_pos hr.nonempty] at htgt
  exact (checkRef_eq_nil_iff go s r true).mp htgt

theorem createObject_on (h : s.createObject go ts kind i = []) (hr : Written ts r) {on}
    (hon : firstKw ts "on" (refAt ts i).2 = some on) (hpos : r.pos = on + 1) :
    s.Permits true r := by
  simp only [createObject, append_eq_nil_iff] at h
  obtain ⟨⟨⟨-, htable⟩, -⟩, -⟩ := h
  have hnext := hr.lt_refAt
  rw [checkOnTable, hon] at htable
  dsimp only at htable
  rw [← hpos, hr.refAt_eq, if_neg (by omega), if_neg (fun hu => hr.nonempty hu.1), if_pos hr.nonempty] at htable
  exact (checkRef_eq_nil_iff go s r true).mp htable

theorem createObject_reference (h : s.createObject go ts kind i = []) (hr : Written ts r)
    (hpos : i ≤ r.pos) (hquery : r.pos < queryAt ts kind (refAt ts i).2) : s.Permits false r := by
  rcases hpos.eq_or_lt with heq | hlt
  · exact (createObject_target h hr heq.symm).reference
  · simp only [createObject, append_eq_nil_iff, flatMap_eq_nil_iff] at h
    obtain ⟨-, hrefs⟩ := h
    exact (checkRef_eq_nil_iff go s r false).mp (hrefs r (hr.mem_allRefs (hr.refAt_le hlt) hquery))

theorem createObject_query (h : s.createObject go ts kind i = []) (hr : Written ts r) {j}
    (hpos : r.pos = j + 1) (hquery : queryAt ts kind (refAt ts i).2 ≤ j)
    (hkw : kw ts j ∈ tableKeywords) : s.Permits false r := by
  simp only [createObject, append_eq_nil_iff, flatMap_eq_nil_iff] at h
  obtain ⟨⟨-, hrefs⟩, -⟩ := h
  have hlen := hr.add_two_lt_length
  exact (checkRef_eq_nil_iff go s r false).mp (hrefs r (hr.mem_dmlRefs hpos hkw hquery (by omega)))

/-- A `CREATE` that is accepted and has a reference after its leading keywords creates no extension. -/
theorem createObject_of_create (h : s.create go ts = [])
    (hobj : kw ts (createHead ts).kindAt ≠ "schema") (hr : Written ts r)
    (hpos : (createHead ts).name ≤ r.pos) :
    s.createObject go ts (kw ts (createHead ts).kindAt) (createHead ts).name = [] := by
  unfold create at h
  dsimp only at h
  rw [if_neg hobj] at h
  split_ifs at h with hkind hext
  · have hlen := hr.add_two_lt_length
    unfold createExtension at h
    split at h
    · simp [fail] at h
    · next hone => omega
  · exact h
  · simp [fail] at h

end Create

section Alter

theorem alter_target (h : s.alter go ts = []) (hr : Written ts r)
    (hpos : r.pos = alterTarget ts (kw ts (alterKindAt ts))) : s.Permits true r := by
  unfold alter at h
  dsimp only at h
  split at h
  · simp [fail] at h
  · simp only [append_eq_nil_iff] at h
    obtain ⟨⟨-, htgt⟩, -⟩ := h
    rw [← hpos, hr.refAt_eq, if_neg hr.nonempty] at htgt
    exact (checkRef_eq_nil_iff go s r true).mp htgt

theorem alter_reference (h : s.alter go ts = []) (hr : Written ts r)
    (hpos : alterTarget ts (kw ts (alterKindAt ts)) ≤ r.pos) : s.Permits false r := by
  rcases hpos.eq_or_lt with heq | hlt
  · exact (alter_target h hr heq.symm).reference
  unfold alter at h
  dsimp only at h
  split at h
  · simp [fail] at h
  · simp only [append_eq_nil_iff, flatMap_eq_nil_iff] at h
    have hlen := hr.add_two_lt_length
    exact (checkRef_eq_nil_iff go s r false).mp (h.2 r (hr.mem_allRefs (hr.refAt_le hlt) (by omega)))

end Alter

section Lists

variable {i : Nat}

theorem drop_targets (h : s.drop go ts = []) (hkind : kw ts 1 ≠ "schema") :
    s.checkTargets go ts (dropList ts (kw ts 1)) = [] := by
  unfold drop at h
  dsimp only at h
  rw [if_neg hkind] at h
  split at h
  · simp [fail] at h
  · exact h

theorem comment_targets (h : s.comment go ts = some []) : s.checkTargets go ts (commentList ts (kw ts 2)) = [] := by
  unfold comment at h
  dsimp only at h
  split at h
  · split at h <;> simp [fail] at h
  · exact Option.some.inj h

theorem grantObjects_of_grant (h : s.grant go ts = []) {on} (hon : firstKw ts "on" 0 = some on) :
    s.grantObjects go ts (go.upper (kw ts 0)) (on + 1) = [] := by
  unfold grant at h
  simp only [hon, append_eq_nil_iff] at h
  exact h.1.2

theorem grantObjects_targets {verb j} (h : s.grantObjects go ts verb j = [])
    (hi : grantList ts j = some i) : s.checkTargets go ts i = [] := by
  unfold grantList at hi
  unfold grantObjects at h
  split at hi
  · cases hi
  next hsch =>
    rw [if_neg (fun hs => hsch (.inl hs)), if_neg (fun ha => hsch (.inr ha))] at h
    split at hi
    · next hkind =>
        cases hi
        rwa [if_pos hkind] at h
    next hkind =>
      cases hi
      rw [if_neg hkind] at h
      split at h
      · simp [fail] at h
      · exact h

theorem truncate_own (h : s.truncate go ts = []) (hr : Written ts r)
    (hj : Listed ts (truncateList ts) r.pos) : r.schema = s.moduleKey := by
  have hche := flatMap_eq_nil_iff.mp (append_eq_nil_iff.mp h).2 r
    (mem_targetListWithin hr hj rfl _ (by omega))
  by_contra hother
  rw [if_pos hother] at hche
  simp [fail] at hche

/-- The list of an accepted statement is checked name by name; that of a `TRUNCATE` by a rule of its
own. -/
theorem checkTargets_of_statement (h : s.statement go ts = some []) (hi : listAt ts = some i)
    (hverb : kw ts 0 ≠ "truncate") : s.checkTargets go ts i = [] := by
  have hgrant : s.grant go ts = [] → (firstKw ts "on" 0).bind (fun on => grantList ts (on + 1)) = some i →
      s.checkTargets go ts i = [] := by
    intro hg hlist
    obtain ⟨on, hon, hlist⟩ := Option.bind_eq_some_iff.mp hlist
    exact grantObjects_targets (grantObjects_of_grant hg hon) hlist
  unfold listAt at hi
  unfold statement at h
  split at hi
  · next hdrop =>
      simp only [hdrop, Option.some.injEq] at h
      split at hi
      · cases hi
      · next hkind =>
          cases hi
          exact drop_targets h hkind
  · next hv =>
      simp only [hv, Option.some.injEq] at h
      exact hgrant h hi
  · next hv =>
      simp only [hv, Option.some.injEq] at h
      exact hgrant h hi
  · next hv => exact absurd hv hverb
  · next hv =>
      simp only [hv] at h
      cases hi
      exact comment_targets h
  · cases hi

end Lists

/-! ## The whole statement and the whole file -/

/-- What an accepted statement has passed, by its verb. -/
structure Passed (go : GoText) (s : SqlScan) (ts : List Token) : Prop where
  verb : kw ts 0 ∈ allowedVerbs
  create : kw ts 0 = "create" → s.create go ts = []
  alter : kw ts 0 = "alter" → s.alter go ts = []
  drop : kw ts 0 = "drop" → s.drop go ts = []
  truncate : kw ts 0 = "truncate" → s.truncate go ts = []
  grant : kw ts 0 ∈ ["grant", "revoke"] → s.grant go ts = []
  dml : kw ts 0 ∈ ["insert", "update", "delete", "with"] →
    ∀ r ∈ dmlRefs ts 0 ts.length, s.checkRef go r true = []

section Statement

variable (h : s.statement go ts = some [])
include h

theorem passed_of_statement : Passed go s ts where
  verb := by
    by_contra hverb
    simp only [allowedVerbs, mem_cons, not_mem_nil, or_false, not_or] at hverb
    unfold statement at h
    split at h
    all_goals simp_all [fail]
  create hverb := by simpa only [statement, hverb, Option.some.injEq] using h
  alter hverb := by simpa only [statement, hverb, Option.some.injEq] using h
  drop hverb := by simpa only [statement, hverb, Option.some.injEq] using h
  truncate hverb := by simpa only [statement, hverb, Option.some.injEq] using h
  grant hverb := by
    rcases mem_pair.mp hverb with hv | hv
    all_goals simpa only [statement, hv, Option.some.injEq] using h
  dml hverb := by
    refine flatMap_eq_nil_iff.mp ?_
    simp only [mem_cons, not_mem_nil, or_false] at hverb
    rcases hverb with hv | hv | hv | hv
    all_goals simpa only [statement, hv, Option.some.injEq] using h

theorem permits_target (hr : Written ts r) (hact : ActsOn ts r.pos) : s.Permits true r := by
  generalize hpos : r.pos = j at hact
  cases hact with
  | created hobj =>
    have hcre := (passed_of_statement h).create hobj.1
    exact createObject_target (createObject_of_create hcre hobj.2 hr hpos.ge) hr hpos
  | createdOn hobj hon =>
    have hcre := (passed_of_statement h).create hobj.1
    have hname := le_refAt ts (createHead ts).name
    have hnext := le_of_firstKw hon
    exact createObject_on (createObject_of_create hcre hobj.2 hr (by omega)) hr hon hpos
  | altered hverb => exact alter_target ((passed_of_statement h).alter hverb) hr hpos
  | listed hi hj =>
    by_cases hverb : kw ts 0 = "truncate"
    · simp only [listAt, hverb, Option.some.injEq] at hi
      subst hi hpos
      exact .inl (.inl (truncate_own ((passed_of_statement h).truncate hverb) hr hj))
    · exact permits_of_checkTargets (checkTargets_of_statement h hi hverb) hj hr hpos
  | table hverb hkw =>
    have hlen := hr.add_two_lt_length
    exact (checkRef_eq_nil_iff go s r true).mp
      ((passed_of_statement h).dml hverb r (hr.mem_dmlRefs hpos hkw (Nat.zero_le _) (by omega)))

theorem permits_reference (hr : Written ts r) (href : RefersTo ts r.pos) : s.Permits false r := by
  generalize hpos : r.pos = j at href
  cases href with
  | created hobj hname hquery =>
    subst hpos
    have hcre := (passed_of_statement h).create hobj.1
    exact createObject_reference (createObject_of_create hcre hobj.2 hr hname) hr hname hquery
  | queried hobj hname hquery hkw =>
    have hcre := (passed_of_statement h).create hobj.1
    exact createObject_query (createObject_of_create hcre hobj.2 hr (by omega)) hr hpos hquery hkw
  | altered hverb htgt =>
    subst hpos
    exact alter_reference ((passed_of_statement h).alter hverb) hr htgt

theorem truncated_own (hverb : kw ts 0 = "truncate") (hr : Written ts r) (hact : ActsOn ts r.pos) :
    r.schema = s.moduleKey := by
  generalize hpos : r.pos = j at hact
  cases hact with
  | created hobj | createdOn hobj => exact absurd (hverb.symm.trans hobj.1) (by decide)
  | altered halter => exact absurd (hverb.symm.trans halter) (by decide)
  | table hdml => simp [hverb] at hdml
  | listed hi hj =>
    simp only [listAt, hverb, Option.some.injEq] at hi
    subst hi hpos
    exact truncate_own ((passed_of_statement h).truncate hverb) hr hj

theorem schema_fenced {owned name} (hname : NamesSchema ts owned name) :
    name = s.moduleKey ∨ (owned = false ∧ name = "audit") := by
  cases hname with
  | created hverb hkind =>
    have hcre := (passed_of_statement h).create hverb
    simp only [create, hkind, createKinds, mem_cons, true_or, not_true_eq_false, if_false,
      if_true, createSchema, append_eq_nil_iff] at hcre
    by_contra hother
    rw [if_pos ⟨fun heq => hother (.inl heq), fun ⟨haudit, hidem⟩ =>
      hother (.inr ⟨by simp [hidem], haudit⟩)⟩] at hcre
    simp [fail] at hcre
  | dropped hverb hkind =>
    have hdrop := (passed_of_statement h).drop hverb
    simp only [drop, hkind, dropKinds, mem_cons, true_or, not_true_eq_false, if_false, if_true] at hdrop
    by_contra hother
    rw [if_pos (fun heq => hother (.inl heq))] at hdrop
    simp [fail] at hdrop
  | granted hverb hon hkind hmem =>
    have hobjs := grantObjects_of_grant ((passed_of_statement h).grant hverb) hon
    rw [grantObjects, if_pos hkind, flatMap_eq_nil_iff] at hobjs
    have hone := hobjs name hmem
    by_contra hother
    rw [if_pos (by simpa [not_or] using hother)] at hone
    simp [fail] at hone
  | grantedAll hverb hon hkind hmem =>
    have hobjs := grantObjects_of_grant ((passed_of_statement h).grant hverb) hon
    rw [grantObjects, if_neg (by simp [hkind]), if_pos hkind, flatMap_eq_nil_iff] at hobjs
    have hone := hobjs name hmem
    by_contra hother
    rw [if_pos (fun heq => hother (.inl heq))] at hone
    simp [fail] at hone

theorem fences_of_statement : s.Fences ts where
  verb := (passed_of_statement h).verb
  target _ hr hact := permits_target h hr hact
  reference _ hr href := permits_reference h hr href
  truncated hverb _ hr hact := truncated_own h hverb hr hact
  schema _ _ hname := schema_fenced h hname

end Statement

theorem statement_of_statements {stmts} (h : s.statements go stmts = some []) :
    ∀ ts ∈ stmts, s.statement go ts = some [] := by
  induction stmts with
  | nil => simp
  | cons ts rest ih =>
    simp only [statements, Option.bind_eq_bind, Option.bind_eq_some_iff, Option.pure_def,
      Option.some.injEq, append_eq_nil_iff] at h
    obtain ⟨errs, hts, more, hrest, rfl, rfl⟩ := h
    exact forall_mem_cons.mpr ⟨hts, ih hrest⟩

end SqlScan

/-- Every statement of a migration that the scan accepts keeps inside the module's fence what it acts
on and what its definitions refer to. -/
theorem scanMigration_fences (go : GoText) (moduleKey : String) (mf : MigrationFile)
    (h : scanMigration go moduleKey mf = some []) :
    ∀ ts ∈ mf.statements go, (mf.scope moduleKey).Fences ts := fun ts hts =>
  SqlScan.fences_of_statement (SqlScan.statement_of_statements h ts hts)

/-! ## Runs -/

def widgetMigration : MigrationFile := migration ["CREATE TABLE audit.widget__events (",
    "    id bigint GENERATED ALWAYS AS IDENTITY);",
    "CREATE TRIGGER append_only",
    "    BEFORE DELETE ON audit.widget__events",
    "    EXECUTE FUNCTION audit.reject_mutation();",
    "ALTER TABLE widget.t ADD FOREIGN KEY (a)",
    "    REFERENCES widget.u (id);",
    "INSERT INTO widget.t -- the items of old",
    "    SELECT u.id FROM widget.u u;",
    "DROP TABLE widget.u, audit.widget__events;"]

theorem scanMigration_fences_widget : scanMigration asciiText "widget" widgetMigration = some [] ∧
      ∀ ts ∈ widgetMigration.statements asciiText, (widgetMigration.scope "widget").Fences ts :=
  have haccepted : scanMigration asciiText "widget" widgetMigration = some [] := by decide +kernel
  ⟨haccepted, scanMigration_fences asciiText "widget" widgetMigration haccepted⟩

/-- Accepted statements with a reference where the scan does not look: in an expression, as the second item of a `FROM`
list, after an `AS` that starts no query, in an element of a schema and after a `*` in a list. -/
def overlooked : List (List String × SchemaRef) :=
  [(["INSERT INTO widget.t (id)", "SELECT org.next_id()"], ⟨"org", "next_id", 9⟩),
    (["INSERT INTO widget.t (id)", "SELECT m.id FROM widget.t w, org.member m"], ⟨"org", "member", 18⟩),
    (["CREATE TABLE widget.t (", "id bigint GENERATED ALWAYS AS IDENTITY,",
      "m uuid REFERENCES org.member (id))"], ⟨"org", "member", 16⟩),
    (["CREATE SCHEMA widget", "CREATE TABLE org.member (id uuid)"], ⟨"org", "member", 5⟩),
    (["TRUNCATE widget.t *, org.member"], ⟨"org", "member", 6⟩)]

theorem overlooked_accepted :
    (overlooked.length = 5 ∧ ∀ o ∈ overlooked, scanMigration asciiText "widget" (migration o.1) = some [] ∧
      ∃ ts ∈ (migration o.1).statements asciiText, Written ts o.2 ∧
        ¬ ((migration o.1).scope "widget").Permits false o.2) ∧
    scanMigration asciiText "widget" (migration ["DROP SCHEMA widget, org CASCADE"]) = some [] := by
  decide +kernel

end Kiban.Migrations
