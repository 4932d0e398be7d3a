import Kiban.Engine.Eval
import Kiban.Lib.CutFixpoint

/-!
# What a check is for

The meaning of a model over a set of tuples: the least set of nodes closed under the definitions of
their relations.  Nothing here depends on the order of rows, on paths or on a memo.
-/

namespace Kiban

open CutFixpoint List

/-- A position or group belongs to a company through its own `company` row, a member through the
`member` row of the company; subjects of other types belong everywhere. -/
def InCompany (T : Table) (companyId subjType subjId : String) : Prop :=
  if subjType = "position" ∨ subjType = "group" then
    ⟨subjType, subjId, "company", "company", companyId, ""⟩ ∈ T
  else if subjType = "member" then
    ⟨"company", companyId, "member", "member", subjId, "mapped_user"⟩ ∈ T
  else True

instance (T : Table) (companyId subjType subjId : String) : Decidable (InCompany T companyId subjType subjId) :=
  inferInstanceAs (Decidable (ite _ _ _))

/-- The userset rows that stay in a check of the context: all of them, or those of the company. -/
def EvalCtx.Follows (cx : EvalCtx) (T : Table) (r : TupleRow) : Prop :=
  cx.companyId = "" ∨ InCompany T cx.companyId r.subjectType r.subjectId

def EvalCtx.IsSubject (cx : EvalCtx) (r : TupleRow) : Prop :=
  r.subjectType = cx.subjType ∧ r.subjectId = cx.subjId

def TupleRow.hop (r : TupleRow) (rel : String) : Node := ⟨r.subjectType, r.subjectId, rel⟩

/-- What one row of a `this` relation contributes when the nodes of `S` hold. -/
def thisRowHolds (cx : EvalCtx) (T : Table) (S : Set Node) (r : TupleRow) : Prop :=
  (r.subjectRelation = "" ∧ cx.IsSubject r) ∨
    (r.subjectRelation ≠ "" ∧ cx.Follows T r ∧ r.hop r.subjectRelation ∈ S)

def tuplesetRowHolds (S : Set Node) (computedUserset : String) (r : TupleRow) : Prop :=
  r.subjectRelation = "" ∧ r.hop computedUserset ∈ S

section

variable (cx : EvalCtx) (T : Table) (S : Set Node) (n : Node)

mutual

/-- The definition `e` of a relation of `n` holds once the nodes of `S` do. -/
def exprHolds : Expr → Prop
  | .this => ∃ r ∈ T.rowsFor n, thisRowHolds cx T S r
  | .computedUserset rel => ⟨n.objType, n.objId, rel⟩ ∈ S
  | .tupleToUserset ts cu => ∃ r ∈ T.rowsFor ⟨n.objType, n.objId, ts⟩, tuplesetRowHolds S cu r
  | .union es => someHolds es
  | .intersection es => allHold es
termination_by structural e => e

def someHolds : List Expr → Prop
  | [] => False
  | e :: es => exprHolds e ∨ someHolds es
termination_by structural es => es

def allHold : List Expr → Prop
  | [] => True
  | e :: es => exprHolds e ∧ allHold es
termination_by structural es => es

end

end

/-! ## What a definition depends on -/

section

variable (cx : EvalCtx) (T : Table) (n : Node)

mutual

def exprHops : Expr → Set Node
  | .this =>
    { a | ∃ r ∈ T.rowsFor n, (r.subjectRelation ≠ "" ∧ cx.Follows T r) ∧ a = r.hop r.subjectRelation }
  | .computedUserset rel => {⟨n.objType, n.objId, rel⟩}
  | .tupleToUserset ts cu =>
    { a | ∃ r ∈ T.rowsFor ⟨n.objType, n.objId, ts⟩, r.subjectRelation = "" ∧ a = r.hop cu }
  | .union es => exprHopsAll es
  | .intersection es => exprHopsAll es
termination_by structural e => e

def exprHopsAll : List Expr → Set Node
  | [] => ∅
  | e :: es => exprHops e ∪ exprHopsAll es
termination_by structural es => es

end

end

mutual

def Expr.targets : Expr → List String
  | .this => []
  | .computedUserset rel => [rel]
  | .tupleToUserset _ cu => [cu]
  | .union es => Expr.targetsAll es
  | .intersection es => Expr.targetsAll es
termination_by structural e => e

def Expr.targetsAll : List Expr → List String
  | [] => []
  | e :: es => e.targets ++ Expr.targetsAll es
termination_by structural es => es

end

def Node.object (n : Node) : String × String := (n.objType, n.objId)

def TupleRow.object (r : TupleRow) : String × String := (r.subjectType, r.subjectId)

section

variable {cx : EvalCtx} {T : Table} {n a : Node}

mutual

/-- A hop leads to the subject of a row or stays with the object, and its relation is that of a row or named. -/
theorem hop_cases : ∀ e : Expr, a ∈ exprHops cx T n e →
    (a.object = n.object ∨ ∃ t ∈ T.rows, a.object = t.row.object) ∧
      (a.rel ∈ e.targets ∨ ∃ t ∈ T.rows, a.rel = t.subjectRelation)
  | .this => by
    rintro ⟨r, hr, _, rfl⟩
    have ht := Table.mem_rowsFor.mp hr
    exact ⟨.inr ⟨_, ht, rfl⟩, .inr ⟨_, ht, rfl⟩⟩
  | .computedUserset rel => by
    rintro rfl
    exact ⟨.inl rfl, .inl mem_cons_self⟩
  | .tupleToUserset ts cu => by
    rintro ⟨r, hr, _, rfl⟩
    exact ⟨.inr ⟨_, Table.mem_rowsFor.mp hr, rfl⟩, .inl mem_cons_self⟩
  | .union es => hop_cases_all es
  | .intersection es => hop_cases_all es

theorem hop_cases_all : ∀ es : List Expr, a ∈ exprHopsAll cx T n es →
    (a.object = n.object ∨ ∃ t ∈ T.rows, a.object = t.row.object) ∧
      (a.rel ∈ Expr.targetsAll es ∨ ∃ t ∈ T.rows, a.rel = t.subjectRelation)
  | [] => fun h => h.elim
  | e :: es => by
    rintro (h | h)
    · obtain ⟨hobj, hrel⟩ := hop_cases e h
      exact ⟨hobj, hrel.imp_left fun h => mem_append_left _ h⟩
    · obtain ⟨hobj, hrel⟩ := hop_cases_all es h
      exact ⟨hobj, hrel.imp_left fun h => mem_append_right _ h⟩

end

end

-- the rows of the object of `n` and the belonging of subjects are the same in both tables
structure SameRows (cx : EvalCtx) (T T' : Table) (n : Node) : Prop where
  rows : ∀ rel r, r ∈ T.rowsFor ⟨n.objType, n.objId, rel⟩ ↔ r ∈ T'.rowsFor ⟨n.objType, n.objId, rel⟩
  follows : ∀ r, cx.Follows T r ↔ cx.Follows T' r

theorem SameRows.refl (cx : EvalCtx) (T : Table) (n : Node) : SameRows cx T T n :=
  ⟨fun _ _ => Iff.rfl, fun _ => Iff.rfl⟩

section

variable {cx : EvalCtx} {T T' : Table} {S S' : Set Node} {n : Node}

mutual

theorem exprHolds_transfer (hsame : SameRows cx T T' n) : ∀ e : Expr, (∀ a ∈ exprHops cx T n e, a ∈ S → a ∈ S') →
      exprHolds cx T S n e → exprHolds cx T' S' n e
  | .this => by
    intro hS ⟨r, hr, h⟩
    refine ⟨r, (hsame.rows n.rel r).mp hr, ?_⟩
    cases h with
    | inl hdir => exact .inl hdir
    | inr huser =>
      have hmem := hS _ ⟨r, hr, ⟨huser.1, huser.2.1⟩, rfl⟩ huser.2.2
      exact .inr ⟨huser.1, (hsame.follows r).mp huser.2.1, hmem⟩
  | .computedUserset rel => fun hS h => hS ⟨n.objType, n.objId, rel⟩ rfl h
  | .tupleToUserset ts cu => by
    intro hS ⟨r, hr, hdir, h⟩
    exact ⟨r, (hsame.rows ts r).mp hr, hdir, hS _ ⟨r, hr, hdir, rfl⟩ h⟩
  | .union es => someHolds_transfer hsame es
  | .intersection es => allHold_transfer hsame es

theorem someHolds_transfer (hsame : SameRows cx T T' n) :
    ∀ es : List Expr, (∀ a ∈ exprHopsAll cx T n es, a ∈ S → a ∈ S') →
      someHolds cx T S n es → someHolds cx T' S' n es
  | [] => fun _ h => h
  | e :: es => fun hS => Or.imp
      (exprHolds_transfer hsame e fun a ha => hS a (.inl ha))
      (someHolds_transfer hsame es fun a ha => hS a (.inr ha))

theorem allHold_transfer (hsame : SameRows cx T T' n) :
    ∀ es : List Expr, (∀ a ∈ exprHopsAll cx T n es, a ∈ S → a ∈ S') → allHold cx T S n es → allHold cx T' S' n es
  | [] => fun _ h => h
  | e :: es => fun hS => And.imp
      (exprHolds_transfer hsame e fun a ha => hS a (.inl ha))
      (allHold_transfer hsame es fun a ha => hS a (.inr ha))

end

end

variable {cx : EvalCtx} {T : Table} {S : Set Node} {n : Node} {e : Expr}

theorem exprHolds_mono {S'} (hS : S ⊆ S') (e : Expr) (h : exprHolds cx T S n e) : exprHolds cx T S' n e :=
  exprHolds_transfer (SameRows.refl cx T n) e (fun _ _ ha => hS ha) h

def rules (cx : EvalCtx) (T : Table) : Set Node →o Set Node where
  toFun S := { n | ∃ e, cx.model.relation? n.objType n.rel = some e ∧ exprHolds cx T S n e }
  monotone' := fun _ _ hS _ ⟨e, he, h⟩ => ⟨e, he, exprHolds_mono hS e h⟩

def Holds (cx : EvalCtx) (T : Table) : Set Node := OrderHom.lfp (rules cx T)

theorem mem_rules (he : cx.model.relation? n.objType n.rel = some e) : n ∈ rules cx T S ↔ exprHolds cx T S n e := by
  constructor
  · rintro ⟨e', he', h⟩
    rw [he] at he'
    exact Option.some.inj he' ▸ h
  · exact fun h => ⟨e, he, h⟩

theorem mem_holds_iff (he : cx.model.relation? n.objType n.rel = some e) :
    n ∈ Holds cx T ↔ exprHolds cx T (Holds cx T) n e := by
  rw [← mem_rules he]
  exact ⟨mem_of_mem_lfp _, mem_lfp_of_mem _⟩

/-! ## The nodes a check meets -/

inductive Meets (cx : EvalCtx) (T : Table) (root : Node) : Node → Prop
  | root : Meets cx T root root
  | hop {n a : Node} {e : Expr} (h : Meets cx T root n)
      (he : cx.model.relation? n.objType n.rel = some e) (ha : a ∈ exprHops cx T n e) :
      Meets cx T root a

theorem Meets.of_hop {root a} (h : Meets cx T n a)
    (he : cx.model.relation? root.objType root.rel = some e) (hn : n ∈ exprHops cx T root e) :
    Meets cx T root a := by
  induction h with
  | root => exact .hop .root he hn
  | hop _ he' ha' ih => exact .hop ih he' ha'

end Kiban
