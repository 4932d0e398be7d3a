import Kiban.Grants.WriteGate

/-!
# Histories of the grants route

Requests run at the same time: each checks its rules against the committed table and, if it is
accepted, writes in one transaction later, whatever was committed in between.  Org writes its own
base-type tuples beside them.
-/

namespace Kiban

open Fallible Runs Option

structure PendingGrant where
  claims : Claims
  req : GrantsRequest
  op : GrantOp
  moduleKey : String
  seen : TupleTable

def PendingGrant.anchorId (p : PendingGrant) : String := p.req.anchorId p.moduleKey

/-- The anchor a grant of `t` rests on: the one the checks saw on the object, else the request's. -/
def PendingGrant.authority (p : PendingGrant) (t : Tuple) : String :=
  ((p.seen.anchorRow? t.objectType t.objectId).map Tuple.subjectId).getD p.anchorId

/-- `granted` is no part of the program: it remembers the anchor each stored tuple was granted under. -/
structure GrantsState where
  store : Store
  pending : List PendingGrant
  granted : Tuple → Option String

def GrantsState.empty : GrantsState := ⟨Store.empty, [], fun _ => none⟩

inductive GrantsEvent where
  | check (sv : Services) (rd : Reads) (claims : Claims) (req : GrantsRequest)
  | write (i : Nat) (order : RowOrder)
  | org (op : StoreOp)

def GrantsState.record (st : GrantsState) (p : PendingGrant) : Tuple → Option String :=
  fun t => if p.op = .grant ∧ t ∈ p.req.tuples ∧ t ∉ st.store.tuple then some (p.authority t)
    else st.granted t

def GrantsState.check (loaded : Except String Fragment.Loaded) (st : GrantsState) (sv : Services)
    (rd : Reads) (claims : Claims) (req : GrantsRequest) : Option GrantsState := do
  let auth ← (checkGrants sv rd claims req loaded).toOption
  return { st with pending := st.pending ++ [⟨claims, req, auth.op, auth.moduleKey, st.store.tuple⟩] }

def GrantsState.write (st : GrantsState) (i : Nat) (order : RowOrder) : Option GrantsState := do
  let p ← st.pending[i]?
  let s ← (writeGrants p.claims p.req p.op order (.ok ()) st.store).toOption
  return ⟨s, st.pending.eraseIdx i, st.record p⟩

def GrantsState.step (loaded : Except String Fragment.Loaded) (st : GrantsState) : GrantsEvent → Option GrantsState
  | .check sv rd claims req => st.check loaded sv rd claims req
  | .write i order => st.write i order
  | .org op => (st.store.commit op).map fun s => { st with store := s }

/-- What the environment keeps to: reads are of the committed table and org stays on base types. -/
def GrantsState.Admits (st : GrantsState) : GrantsEvent → Prop
  | .check _ rd _ _ => rd.Of st.store.tuple
  | .write _ _ => True
  | .org op => op.OnBaseTypes

/-! ## What each step does -/

section

variable {loaded : Except String Fragment.Loaded} {st st' : GrantsState}

theorem check_eq_some {sv rd claims req} (h : st.check loaded sv rd claims req = some st') :
    ∃ auth, checkGrants sv rd claims req loaded = .ok auth ∧ st' = { st with pending :=
        st.pending ++ [⟨claims, req, auth.op, auth.moduleKey, st.store.tuple⟩] } := by
  obtain ⟨auth, hauth, h⟩ := bind_eq_some_iff.mp h
  exact ⟨auth, toOption_eq_some.mp hauth, (Option.some.inj h).symm⟩

theorem write_eq_some {i order} (h : st.write i order = some st') :
    ∃ p, st.pending[i]? = some p ∧ writeGrants p.claims p.req p.op order (.ok ()) st.store = .ok st'.store ∧
      (∀ q ∈ st'.pending, q ∈ st.pending) ∧ st'.granted = st.record p := by
  obtain ⟨p, hp, h⟩ := bind_eq_some_iff.mp h
  obtain ⟨s, hs, h⟩ := bind_eq_some_iff.mp h
  cases h
  exact ⟨p, hp, toOption_eq_some.mp hs, fun q hq => List.mem_of_mem_eraseIdx hq, rfl⟩

theorem org_eq_some {op} (h : st.step loaded (.org op) = some st') :
    st.store.perform op = .ok st'.store ∧ st'.pending = st.pending ∧ st'.granted = st.granted := by
  obtain ⟨s, hs, h⟩ := map_eq_some_iff.mp h
  rw [← h]
  exact ⟨toOption_eq_some.mp hs, rfl, rfl⟩

end

/-! ## Requests whose objects can be told apart -/

/-- No two objects of the request have the same `type:id`. -/
def GrantsRequest.KeysApart (req : GrantsRequest) : Prop :=
  ∀ t ∈ req.tuples, ∀ u ∈ req.tuples, t.objectKey = u.objectKey → t.OnObject u.objectType u.objectId

section

variable {rows : List Fragment.Row} {known : Fragment.KnownEnabled} {l : Fragment.Loaded}
  {sv : Services} {rd : Reads} {claims : Claims} {req : GrantsRequest} {T : TupleTable}
  {op : GrantOp} {moduleKey m : String} {t : Tuple}

-- an appointment writes on no object of a module
theorem moduleAccepted_of_owns (hload : Fragment.load rows known = .ok l)
    (hacc : AppointmentAccepted sv l rd claims req ∨ ModuleAccepted sv l rd claims req T op moduleKey)
    (ht : t ∈ req.tuples) (howns : l.Owns m t.objectType) :
    ModuleAccepted sv l rd claims req T op moduleKey ∧ m = moduleKey := by
  rcases hacc with hapt | hmodu
  · exact absurd (hapt.tuples t ht).1 (objectType_ne_of_owns hload howns isBaseType_company)
  · refine ⟨hmodu, ?_⟩
    rcases hmodu.object t ht with hmod | ⟨_, howns'⟩
    · exact absurd hmod.1.1 (objectType_ne_of_owns hload howns isBaseType_companyModule)
    · exact owns_unique howns howns'

theorem anchorOn_mem_of_key {anchorId} (hapart : req.KeysApart) (ht : t ∈ req.tuples)
    (hkey : t.objectKey ∈ inRequestAnchor .grant anchorId req.tuples) :
    anchorOn t.objectType t.objectId anchorId ∈ req.tuples := by
  obtain ⟨u, hu, hanc, hsame⟩ := mem_inRequestAnchor.mp hkey
  have hobj := hapart t ht u hu hsame.symm
  rw [eq_anchorOn_of_isAnchorAt hanc] at hu
  rw [hobj.1, hobj.2]
  exact hu

end

/-! ## Requests that run alone -/

def keepOrder : RowOrder := ⟨id, List.Perm.refl⟩

def GrantsState.checkEvent (st : GrantsState) (req : GrantsRequest) : GrantsEvent :=
  .check everyoneIn st.store.tuple.reads editor req

/-- A request that is written as soon as it is checked. -/
def GrantsState.alone (loaded : Except String Fragment.Loaded) (st : GrantsState)
    (req : GrantsRequest) : Option GrantsState :=
  (st.step loaded (st.checkEvent req)).bind fun st₁ =>
    st₁.step loaded (.write st.pending.length keepOrder)

section

variable {loaded : Except String Fragment.Loaded} {good : GrantsState → GrantsEvent → Prop}
  {s₀ st st' : GrantsState} {req : GrantsRequest}

theorem reach_alone (hreach : Reach (GrantsState.step loaded) good s₀ st)
    (h : st.alone loaded req = some st') (hcheck : good st (st.checkEvent req))
    (hwrite : ∀ op moduleKey,
      good { st with pending := st.pending ++ [⟨editor, req, op, moduleKey, st.store.tuple⟩] }
        (.write st.pending.length keepOrder)) :
    Reach (GrantsState.step loaded) good s₀ st' := by
  obtain ⟨st₁, h₁, h₂⟩ := bind_eq_some_iff.mp h
  obtain ⟨auth, _, heq⟩ := check_eq_some h₁
  have hgood : good st₁ (.write st.pending.length keepOrder) := by
    rw [heq]
    exact hwrite auth.op auth.moduleKey
  exact (hreach.next hcheck h₁).next hgood h₂

end

theorem TupleTable.eq_of_rows {T T' : TupleTable} (h : T.rows = T'.rows) : T = T' := by
  obtain ⟨⟨rows, _, _⟩, _⟩ := T
  obtain ⟨⟨rows', _, _⟩, _⟩ := T'
  cases h
  rfl

end Kiban
