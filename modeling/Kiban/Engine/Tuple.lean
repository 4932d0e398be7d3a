import Kiban.Engine.Json
import Mathlib.Data.List.Nodup
import Mathlib.Data.List.Perm.Basic

/-!
# The tuple table

`authz.tuple` holds relation tuples `object#relation @ subject`.  All six columns are `text NOT NULL`
and together they are the primary key; the empty `subjectRelation` marks a direct subject and any
other one a userset subject.
-/

namespace Kiban

structure Tuple where
  (objectType objectId relation subjectType subjectId : String)
  subjectRelation : String := ""
deriving DecidableEq, Repr

def Tuple.IsText (t : Tuple) : Prop :=
  Kiban.IsText t.objectType ∧ Kiban.IsText t.objectId ∧ Kiban.IsText t.relation ∧
    Kiban.IsText t.subjectType ∧ Kiban.IsText t.subjectId ∧ Kiban.IsText t.subjectRelation

instance (t : Tuple) : Decidable t.IsText := inferInstanceAs (Decidable (_ ∧ _))

/-- The contents of `authz.tuple`: the primary key holds and every column is text. -/
structure Table where
  rows : List Tuple
  nodup : rows.Nodup
  text : ∀ t ∈ rows, t.IsText

instance : Membership Tuple Table := ⟨fun T t => t ∈ T.rows⟩

instance (t : Tuple) (T : Table) : Decidable (t ∈ T) := inferInstanceAs (Decidable (t ∈ T.rows))

def Table.empty : Table := ⟨[], List.nodup_nil, by simp⟩

/-- An object and one of its relations, the unit a check is about and the key of a row query. -/
structure Node where
  (objType objId rel : String)
deriving DecidableEq, Repr

structure TupleRow where
  (subjectType subjectId subjectRelation : String)
deriving DecidableEq, Repr

def Tuple.row (t : Tuple) : TupleRow := ⟨t.subjectType, t.subjectId, t.subjectRelation⟩

def Tuple.node (t : Tuple) : Node := ⟨t.objectType, t.objectId, t.relation⟩

def TupleRow.on (r : TupleRow) (n : Node) : Tuple :=
  ⟨n.objType, n.objId, n.rel, r.subjectType, r.subjectId, r.subjectRelation⟩

/-- The rows `sqlTupleRows` selects, in the order of the table. -/
def Table.rowsFor (T : Table) (n : Node) : List TupleRow :=
  (T.rows.filter fun t => t.node = n).map Tuple.row

theorem Table.mem_rowsFor {T : Table} {n : Node} {r : TupleRow} : r ∈ T.rowsFor n ↔ r.on n ∈ T := by
  simp only [Table.rowsFor, List.mem_map, List.mem_filter, decide_eq_true_eq]
  constructor
  · rintro ⟨t, ⟨ht, rfl⟩, rfl⟩
    exact ht
  · intro h
    exact ⟨r.on n, ⟨h, rfl⟩, rfl⟩

/-- The parameters of a row query that Postgres takes as text. -/
def Node.IsText (n : Node) : Prop :=
  Kiban.IsText n.objType ∧ Kiban.IsText n.objId ∧ Kiban.IsText n.rel

instance (n : Node) : Decidable n.IsText := inferInstanceAs (Decidable (_ ∧ _))

end Kiban
