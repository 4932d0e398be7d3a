import Kiban.Engine.Tuple

/-!
# The transactional store

`Grant`, `Revoke` and their relatives run inside a caller's transaction: each either fails, and nothing of it is
committed, or leaves the tuple table, the grant ledger and the default-grant claims changed together.  What Postgres
does not determine (the order of the rows a DELETE returns) is an argument.
-/

namespace Kiban

open List

/-! ## `authz.tuple` -/

/-- The rows the index `tuple_one_anchor_per_object` covers. -/
def Tuple.IsAnchorRow (t : Tuple) : Prop :=
  t.relation = "company_module" ∧ t.subjectType = "company_module"

instance (t : Tuple) : Decidable t.IsAnchorRow := inferInstanceAs (Decidable (_ ∧ _))

def Tuple.OnObject (t : Tuple) (objectType objectId : String) : Prop :=
  t.objectType = objectType ∧ t.objectId = objectId

instance (t : Tuple) (objectType objectId : String) : Decidable (t.OnObject objectType objectId) :=
  inferInstanceAs (Decidable (_ ∧ _))

/-- The table with its unique index: an object has at most one anchor row. -/
structure TupleTable extends Table where
  one_anchor : ∀ t ∈ rows, ∀ t' ∈ rows, t.IsAnchorRow → t'.IsAnchorRow →
    t.OnObject t'.objectType t'.objectId → t = t'

namespace TupleTable

instance : Membership Tuple TupleTable := ⟨fun T t => t ∈ T.rows⟩

instance (t : Tuple) (T : TupleTable) : Decidable (t ∈ T) := inferInstanceAs (Decidable (t ∈ T.rows))

def empty : TupleTable := { Table.empty with one_anchor := by simp [Table.empty] }

/-- An anchor row the index would not let in beside the rows of the table. -/
def Conflicts (T : TupleTable) (t : Tuple) : Prop :=
  t.IsAnchorRow ∧ ∃ t' ∈ T.rows, t'.IsAnchorRow ∧ t.OnObject t'.objectType t'.objectId

instance (T : TupleTable) (t : Tuple) : Decidable (T.Conflicts t) :=
  inferInstanceAs (Decidable (_ ∧ ∃ t' ∈ T.rows, _))

def insert (T : TupleTable) (t : Tuple) (htext : t.IsText) (hnew : t ∉ T)
    (hindex : ¬ T.Conflicts t) : TupleTable where
  rows := T.rows ++ [t]
  nodup := T.nodup.append (nodup_singleton t) (disjoint_singleton.mpr hnew)
  text := by
    intro t' ht'
    cases mem_append.mp ht' with
    | inl hold => exact T.text t' hold
    | inr hself => exact mem_singleton.mp hself ▸ htext
  one_anchor := by
    intro a ha b hb hanchor hanchor' hobj
    cases mem_append.mp ha with
    | inl hold =>
      cases mem_append.mp hb with
      | inl hold' => exact T.one_anchor a hold b hold' hanchor hanchor' hobj
      | inr hself =>
        rw [mem_singleton.mp hself] at hanchor' hobj
        exact absurd ⟨hanchor', a, hold, hanchor, hobj.1.symm, hobj.2.symm⟩ hindex
    | inr hself =>
      cases mem_append.mp hb with
      | inl hold' =>
        rw [mem_singleton.mp hself] at hanchor hobj
        exact absurd ⟨hanchor, b, hold', hanchor', hobj⟩ hindex
      | inr hself' => rw [mem_singleton.mp hself, mem_singleton.mp hself']

def filter (T : TupleTable) (keep : Tuple → Bool) : TupleTable where
  rows := T.rows.filter keep
  nodup := T.nodup.filter keep
  text := fun t ht => T.text t (mem_of_mem_filter ht)
  one_anchor := fun a ha b hb =>
    T.one_anchor a (mem_of_mem_filter ha) b (mem_of_mem_filter hb)

theorem mem_insert {T : TupleTable} {t t' : Tuple} {htext : t.IsText} {hnew : t ∉ T}
    {hindex : ¬ T.Conflicts t} : t' ∈ T.insert t htext hnew hindex ↔ t' ∈ T ∨ t' = t := by
  change t' ∈ T.rows ++ [t] ↔ _
  rw [mem_append, mem_singleton]
  rfl

theorem mem_filter {T : TupleTable} {keep : Tuple → Bool} {t : Tuple} : t ∈ T.filter keep ↔ t ∈ T ∧ keep t = true :=
  List.mem_filter

end TupleTable

/-! ## Statements -/

inductive GrantOp where
  | grant
  | revoke
deriving DecidableEq, Repr

inductive StoreError where
  | noTuples (op : GrantOp)
  | emptyField (op : GrantOp) (t : Tuple)
  | anchorConflict (t : Tuple)
  | shapeNotPermitted (t : Tuple)
  | idsRequired
  | query (cause : String)
deriving DecidableEq

structure LedgerRow where
  actor : String
  tuple : Tuple
  op : GrantOp
  correlationId : Option String
deriving DecidableEq

structure Store where
  tuple : TupleTable
  ledger : List LedgerRow
  defaultGrant : List (String × String)

instance (s : Store) (companyId moduleKey : String) : Decidable ((companyId, moduleKey) ∈ s.defaultGrant) :=
  inferInstance

def Store.empty : Store := ⟨TupleTable.empty, [], []⟩

def invalidText : StoreError := .query "invalid byte sequence for encoding \"UTF8\": 0x00"

/-- `insertTupleSQL`: `none` when the very tuple is there already. -/
def TupleTable.insertTuple (T : TupleTable) (t : Tuple) : Except StoreError (Option TupleTable) :=
  if htext : t.IsText then
    if hin : t ∈ T then .ok none
    else if hindex : T.Conflicts t then .error (.anchorConflict t)
    else .ok (some (T.insert t htext hin hindex))
  else .error invalidText

/-- `deleteTupleSQL`: `none` when there is no such tuple. -/
def TupleTable.deleteTuple (T : TupleTable) (t : Tuple) : Except StoreError (Option TupleTable) :=
  if t.IsText then
    if t ∈ T then .ok (some (T.filter (· ≠ t))) else .ok none
  else .error invalidText

/-- The order in which a DELETE returns the rows it removed. -/
structure RowOrder where
  arrange : List Tuple → List Tuple
  perm : ∀ l, (arrange l).Perm l

/-- `deleteObjectTuplesSQL`. -/
def TupleTable.deleteObjectTuples (T : TupleTable) (order : RowOrder) (objectType objectId : String) :
    TupleTable × List Tuple :=
  (T.filter fun t => ¬ t.OnObject objectType objectId,
    order.arrange (T.rows.filter fun t => t.OnObject objectType objectId))

-- who writes: the validated bearer subject, and the correlation id of the request if it has one
structure Author where
  (actor correlationId : String)

def Author.IsText (au : Author) : Prop := Kiban.IsText au.actor ∧ Kiban.IsText au.correlationId

instance (au : Author) : Decidable au.IsText := inferInstanceAs (Decidable (_ ∧ _))

def Author.row (au : Author) (op : GrantOp) (t : Tuple) : LedgerRow :=
  ⟨au.actor, t, op, if au.correlationId = "" then none else some au.correlationId⟩

variable (s : Store)

def Store.insertLedger (au : Author) (op : GrantOp) (ts : List Tuple) : Except StoreError Store :=
  if au.IsText ∨ ts = [] then .ok { s with ledger := s.ledger ++ ts.map (au.row op) }
  else .error invalidText

/-! ## `Grant` and `Revoke` -/

def Tuple.HasEmptyField (t : Tuple) : Prop :=
  t.objectType = "" ∨ t.objectId = "" ∨ t.relation = "" ∨ t.subjectType = "" ∨ t.subjectId = ""

instance (t : Tuple) : Decidable t.HasEmptyField := inferInstanceAs (Decidable (_ ∨ _))

def Store.revokeObjectRest (au : Author) (order : RowOrder)
    (objectType objectId : String) : Except StoreError Store :=
  let (T, gone) := s.tuple.deleteObjectTuples order objectType objectId
  Store.insertLedger { s with tuple := T } au .revoke gone

def Store.grantTuple (au : Author) (s : Store) (t : Tuple) : Except StoreError Store :=
  if t.HasEmptyField then .error (.emptyField .grant t)
  else do
    match ← s.tuple.insertTuple t with
    | none => return s
    | some T => Store.insertLedger { s with tuple := T } au .grant [t]

-- revoking the anchor takes everything else on the object with it
def Store.revokeTuple (au : Author) (order : RowOrder) (s : Store) (t : Tuple) : Except StoreError Store :=
  if t.HasEmptyField then .error (.emptyField .revoke t)
  else do
    match ← s.tuple.deleteTuple t with
    | none => return s
    | some T => do
      let s ← Store.insertLedger { s with tuple := T } au .revoke [t]
      if t.IsAnchorRow then s.revokeObjectRest au order t.objectType t.objectId else return s

def Store.grant (au : Author) (ts : List Tuple) : Except StoreError Store :=
  if ts = [] then .error (.noTuples .grant) else ts.foldlM (Store.grantTuple au) s

def Store.revoke (au : Author) (order : RowOrder) (ts : List Tuple) : Except StoreError Store :=
  if ts = [] then .error (.noTuples .revoke) else ts.foldlM (Store.revokeTuple au order) s

/-! ## The platform's own writers -/

def systemPlatformId : String := "platform"

def moduleObjectId (companyId moduleKey : String) : String := companyId ++ "/" ++ moduleKey

def companyAnchor (companyId moduleKey : String) : Tuple :=
  ⟨"company_module", moduleObjectId companyId moduleKey, "company", "company", companyId, ""⟩

def systemAnchor (companyId moduleKey : String) : Tuple :=
  ⟨"company_module", moduleObjectId companyId moduleKey, "system", "system", systemPlatformId, ""⟩

def Store.ensureCompanyModuleAnchor (au : Author) (companyId moduleKey : String) : Except StoreError Store :=
  if companyAnchor companyId moduleKey ∈ s.tuple then .ok s
  else s.grant au [companyAnchor companyId moduleKey]

/-- The second component says whether this call wrote the default grant. -/
def Store.ensureDefaultGrant (au : Author) (companyId moduleKey : String) : Except StoreError (Store × Bool) :=
  if companyId = "" ∨ moduleKey = "" then .error .idsRequired
  else do
    let s ← s.ensureCompanyModuleAnchor au companyId moduleKey
    if ¬ IsText au.actor then throw invalidText
    else if (companyId, moduleKey) ∈ s.defaultGrant then return (s, false)
    else do
      let claimed := { s with defaultGrant := s.defaultGrant ++ [(companyId, moduleKey)] }
      let s ← claimed.grant au [systemAnchor companyId moduleKey]
      return (s, true)

/-- The shapes `authz.revoke_position_or_member_tuple` lets through. -/
def Tuple.OrgOwned (t : Tuple) : Prop :=
  (t.objectType = "position" ∧ t.relation = "holder" ∧ t.subjectType = "member" ∧
    t.subjectRelation = "mapped_user") ∨
  (t.objectType = "member" ∧ t.relation = "mapped_user" ∧ t.subjectType = "user" ∧ t.subjectRelation = "") ∨
  (t.objectType = "group" ∧ t.relation = "member" ∧ t.subjectType = "member" ∧ t.subjectRelation = "mapped_user") ∨
  (t.objectType = "company" ∧ t.relation = "member" ∧ t.subjectType = "member" ∧
    t.subjectRelation = "mapped_user") ∨
  (t.objectType = "position" ∧ t.relation = "company" ∧ t.subjectType = "company" ∧ t.subjectRelation = "") ∨
  (t.objectType = "group" ∧ t.relation = "company" ∧ t.subjectType = "company" ∧ t.subjectRelation = "")

instance (t : Tuple) : Decidable t.OrgOwned := inferInstanceAs (Decidable (_ ∨ _))

-- unlike `Revoke` this writes a ledger row even when there was nothing to delete
def Store.revokePositionOrMemberTuple (au : Author) (t : Tuple) : Except StoreError Store :=
  if t.HasEmptyField then .error (.emptyField .revoke t)
  else if ¬ t.OrgOwned then .error (.shapeNotPermitted t)
  else do
    match ← s.tuple.deleteTuple t with
    | none => s.insertLedger au .revoke [t]
    | some T => Store.insertLedger { s with tuple := T } au .revoke [t]

/-! ## Committed operations -/

inductive StoreOp where
  | grant (au : Author) (ts : List Tuple)
  | revoke (au : Author) (order : RowOrder) (ts : List Tuple)
  | ensureDefaultGrant (au : Author) (companyId moduleKey : String)
  | ensureCompanyModuleAnchor (au : Author) (companyId moduleKey : String)
  | revokePositionOrMember (au : Author) (t : Tuple)

def Store.perform : StoreOp → Except StoreError Store
  | .grant au ts => s.grant au ts
  | .revoke au order ts => s.revoke au order ts
  | .ensureDefaultGrant au companyId moduleKey => Prod.fst <$> s.ensureDefaultGrant au companyId moduleKey
  | .ensureCompanyModuleAnchor au companyId moduleKey => s.ensureCompanyModuleAnchor au companyId moduleKey
  | .revokePositionOrMember au t => s.revokePositionOrMemberTuple au t

/-- A failed operation is rolled back, so only a successful one is a step of the database. -/
def Store.commit (op : StoreOp) : Option Store := (s.perform op).toOption

end Kiban
