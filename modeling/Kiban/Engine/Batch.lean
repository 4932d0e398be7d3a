import Kiban.Engine.CheckHolds
import Kiban.Lib.Runs

/-!
# Batches

`BatchCan` checks many nodes for one subject.  Up to eight workers pull the items from a channel; each has its own path
and count of cuts, which it keeps from item to item, and all share one memo that keeps the first value stored under a
key.  A list of atomic moves is an interleaving.
-/

namespace Kiban

open MemoProg CutFixpoint List Option

def batchWorkers : Nat := 8

abbrev BatchItem := Node

structure BatchResult where
  item : BatchItem
  allowed : Bool
  err : Option EvalError
deriving DecidableEq

structure Job where
  idx : Nat
  item : BatchItem

-- a worker between two items keeps its `evalCtx`; inside one it has the rest of the check to do
inductive Worker where
  | idle (ec : EvalState)
  | busy (j : Job) (rest : EvalProg (Except EvalError Bool × EvalState))

-- a cell of `results` is `none` until a worker writes it
structure BatchState where
  memo : Memo String Bool
  jobs : List Job
  workers : List Worker
  results : List (Option BatchResult)

def batchStart (items : List BatchItem) : BatchState where
  memo := fun _ => none
  jobs := items.mapIdx Job.mk
  workers := List.replicate (min batchWorkers items.length) (.idle {})
  results := List.replicate items.length none

def Job.result (j : Job) : Except EvalError Bool → BatchResult
  | .ok allowed => ⟨j.item, allowed, none⟩
  | .error e => ⟨j.item, false, some e⟩

/-- What the database may answer while the contents of `T` do not change. -/
def Answered (T : Table) (n : Node) : Answer → Prop
  | .ok rows => n.IsText ∧ rows.Perm (T.rowsFor n)
  | .error _ => True

instance (T : Table) (n : Node) (a : Answer) : Decidable (Answered T n a) :=
  match a with
  | .ok _ => inferInstanceAs (Decidable (_ ∧ _))
  | .error _ => inferInstanceAs (Decidable True)

/-- The next step of worker `w`: pull an item, do one load, store or row query of the check (with
the answer the query gets), or write the result. -/
inductive Move where
  | pull (w : Nat)
  | act (w : Nat) (answer : Answer)
  | finish (w : Nat)

def BatchState.pull (cx : EvalCtx) (st : BatchState) (w : Nat) : Worker → Option BatchState
  | .idle ec =>
    match st.jobs with
    | [] => none
    | j :: jobs =>
      some { st with
        jobs := jobs
        workers := st.workers.set w (.busy j (cx.check (maxDepth + 1) j.item ec)) }
  | .busy _ _ => none

def BatchState.act (T : Table) (st : BatchState) (w : Nat) (answer : Answer) : Worker → Option BatchState
  | .idle _ => none
  | .busy j rest =>
    (rest.step keepFirst (Answered T) st.memo answer).map fun (memo, rest') =>
      { st with memo := memo, workers := st.workers.set w (.busy j rest') }

def BatchState.finish (st : BatchState) (w : Nat) : Worker → Option BatchState
  | .busy j (.ret (r, ec)) =>
    some { st with
      workers := st.workers.set w (.idle ec)
      results := st.results.set j.idx (some (j.result r)) }
  | _ => none

def BatchState.advance (cx : EvalCtx) (T : Table) (st : BatchState) : Move → Option BatchState
  | .pull w => st.workers[w]?.bind (st.pull cx w)
  | .act w answer => st.workers[w]?.bind (st.act T w answer)
  | .finish w => st.workers[w]?.bind (st.finish w)

/-- The channel is drained and every worker is back: `wg.Wait` returns. -/
def BatchState.Finished (st : BatchState) : Prop :=
  st.jobs = [] ∧ ∀ w ∈ st.workers, ∃ ec, w = .idle ec

/-! ## The scope of a batch -/

def Model.RelationsText (m : Model) : Prop := ∀ p ∈ m, ∀ d ∈ p.2, IsText d.1

instance (m : Model) : Decidable m.RelationsText :=
  inferInstanceAs (Decidable (∀ p ∈ m, ∀ d ∈ p.2, IsText d.1))

theorem isText_iff_count (s : String) : IsText s ↔ s.toList.count '\x00' = 0 :=
  count_eq_zero.symm

theorem count_memoKey (n : Node) : (memoKey n).toList.count '\x00' =
      n.objType.toList.count '\x00' + n.objId.toList.count '\x00' + n.rel.toList.count '\x00' + 2 := by
  rw [toList_memoKey, count_append, count_cons_self, count_append, count_cons_self]
  omega

-- a key with exactly two separators is the key of one node only
theorem memoKey_inj_of_isText {a b} (ha : a.IsText) (h : memoKey a = memoKey b) : a = b := by
  have hcount := count_memoKey a
  rw [h, count_memoKey b, (isText_iff_count _).mp ha.1, (isText_iff_count _).mp ha.2.1,
    (isText_iff_count _).mp ha.2.2] at hcount
  have htype : b.objType.toList.count '\x00' = 0 := by omega
  have hid : b.objId.toList.count '\x00' = 0 := by omega
  exact memoKey_inj_of_text ha.1 ha.2.1 ((isText_iff_count _).mpr htype) ((isText_iff_count _).mpr hid) h

theorem isText_of_holds {cx T n} (hm : cx.model.WellFormed) (hrel : cx.model.RelationsText)
    (h : n ∈ Holds cx T) : n.IsText := by
  have hobj := textObject_of_holds hm h
  obtain ⟨e, he, _⟩ := mem_of_mem_lfp _ h
  obtain ⟨rels, hrels, hmem⟩ := Model.relation_mem he
  exact ⟨hobj.1, hobj.2, hrel _ hrels _ hmem⟩

/-- The items of a batch can name any object, so its scope is all nodes. -/
def batchScope (cx : EvalCtx) (T : Table) (hm : cx.model.WellFormed)
    (hrel : cx.model.RelationsText) : Scope cx T where
  nodes := Set.univ
  key_inj := fun _ _ hold _ _ h => memoKey_inj_of_isText (isText_of_holds hm hrel hold) h
  computed := fun _ _ _ => Set.mem_univ _
  hop := fun _ _ _ _ _ _ => Set.mem_univ _

theorem answered_rely {cx T} (sc : Scope cx T) (n : Node) (a : Answer) (h : Answered T n a) :
    sc.rely.answer n a := by
  intro rows hok
  rw [hok] at h
  exact h

-- a worker starts each item with an empty path, so the answer is about the least fixpoint itself,
-- whatever its count of cuts is by then
theorem check_wp {cx T} (sc : Scope cx T) {n} (hn : n ∈ sc.nodes) {ec} (hec : ec.visiting = []) (left : Nat) :
    (cx.check left n ec).wp sc.rely fun o =>
      o.2.visiting = [] ∧ ∀ b, o.1 = .ok b → (b = true ↔ n ∈ Holds cx T) := by
  have hdec : Decides sc [] (n ∈ ·) (cx.check left n) := check_decides left hn []
  apply (hdec ec hec).mono
  intro o ho
  have hcom := ho.complete
  rw [hec, sc.path_nil, lfpCut_empty] at hcom
  have hvis : o.2.visiting = [] := by rw [ho.visiting, hec]
  have hans : ∀ b, o.1 = .ok b → (b = true ↔ n ∈ Holds cx T) := by
    intro b hb
    cases b with
    | true => exact iff_of_true rfl (ho.sound hb)
    | false => exact iff_of_false (by decide) (hcom hb)
  exact ⟨hvis, hans⟩

/-! ## The invariant -/

section Invariant

variable {cx : EvalCtx} {T : Table}

def ResultOk (cx : EvalCtx) (T : Table) (items : List BatchItem) (i : Nat) (res : BatchResult) : Prop :=
  items[i]? = some res.item ∧ (res.err = none → (res.allowed = true ↔ res.item ∈ Holds cx T))

def WorkerOk (sc : Scope cx T) (items : List BatchItem) : Worker → Prop
  | .idle ec => ec.visiting = []
  | .busy j rest =>
    items[j.idx]? = some j.item ∧ rest.wp sc.rely fun o =>
        o.2.visiting = [] ∧ ∀ b, o.1 = .ok b → (b = true ↔ j.item ∈ Holds cx T)

def HasItem (ws : List Worker) (i : Nat) : Prop :=
  ∃ (v : Nat) (j : Job) (rest : _), ws[v]? = some (.busy j rest) ∧ j.idx = i

/-- Item `i` is still in the channel, or a worker has it, or its result is written. -/
def BatchState.Covers (st : BatchState) (i : Nat) : Prop :=
  (∃ j ∈ st.jobs, j.idx = i) ∨ HasItem st.workers i ∨ ∃ res, st.results[i]? = some (some res)

structure BatchInv (sc : Scope cx T) (items : List BatchItem) (st : BatchState) : Prop where
  memo : st.memo.Sound sc.rely
  jobs : ∀ j ∈ st.jobs, items[j.idx]? = some j.item
  workers : ∀ w ∈ st.workers, WorkerOk sc items w
  length : st.results.length = items.length
  results : ∀ i res, st.results[i]? = some (some res) → ResultOk cx T items i res
  covers : ∀ i < items.length, st.Covers i

theorem batchStart_inv (sc : Scope cx T) (items : List BatchItem) : BatchInv sc items (batchStart items) where
  memo := nofun
  jobs := by
    intro j hj
    obtain ⟨i, hi, rfl⟩ := mem_mapIdx.mp hj
    exact getElem?_eq_getElem hi
  workers := by
    intro w hw
    rw [eq_of_mem_replicate hw]
    rfl
  length := length_replicate
  results := by
    intro i res h
    have hnone := eq_of_mem_replicate (mem_of_getElem? h)
    cases hnone
  covers := by
    intro i hi
    exact .inl ⟨⟨i, items[i]⟩, mem_mapIdx.mpr ⟨i, hi, rfl⟩, rfl⟩

theorem workerOk_set {sc : Scope cx T} {items : List BatchItem} {ws : List Worker} {w : Nat}
    {x : Worker} (hws : ∀ y ∈ ws, WorkerOk sc items y) (hx : WorkerOk sc items x) :
    ∀ y ∈ ws.set w x, WorkerOk sc items y := by
  intro y hy
  cases mem_or_eq_of_mem_set hy with
  | inl hold => exact hws y hold
  | inr hnew => exact hnew ▸ hx

theorem hasItem_set {ws w i x} (y : Worker) (h : HasItem ws i) (hx : ws[w]? = some x) :
    (∃ j rest, x = .busy j rest ∧ j.idx = i) ∨ HasItem (ws.set w y) i := by
  obtain ⟨v, j, rest, hv, hidx⟩ := h
  by_cases heq : v = w
  · rw [heq, hx] at hv
    exact .inl ⟨j, rest, Option.some.inj hv, hidx⟩
  · rw [← getElem?_set_ne (Ne.symm heq) (a := y)] at hv
    exact .inr ⟨v, j, rest, hv, hidx⟩

variable {sc : Scope cx T} {items : List BatchItem} {st st' : BatchState} {w : Nat} {x : Worker}

theorem pull_inv (hn : ∀ n, n ∈ sc.nodes) (h : BatchInv sc items st) (hx : st.workers[w]? = some x)
    (hstep : st.pull cx w x = some st') : BatchInv sc items st' := by
  have hok := h.workers x (mem_of_getElem? hx)
  cases x with
  | busy j rest => cases hstep
  | idle ec =>
    unfold BatchState.pull at hstep
    cases hjobs : st.jobs with
    | nil =>
      rw [hjobs] at hstep
      cases hstep
    | cons j jobs =>
      rw [hjobs] at hstep
      cases hstep
      have hitem := h.jobs j (by rw [hjobs]; exact mem_cons_self)
      have hlt : w < st.workers.length := (List.getElem?_eq_some_iff.mp hx).1
      refine ⟨h.memo, ?_, ?_, h.length, h.results, ?_⟩
      · intro j' hj'
        exact h.jobs j' (by rw [hjobs]; exact mem_cons_of_mem j hj')
      · exact workerOk_set h.workers ⟨hitem, check_wp sc (hn _) hok _⟩
      · intro i hi
        cases h.covers i hi with
        | inl hjob =>
          obtain ⟨j', hj', hidx⟩ := hjob
          rw [hjobs] at hj'
          cases mem_cons.mp hj' with
          | inl heq =>
            -- the pulled item moves from the channel to the worker
            rw [heq] at hidx
            exact .inr (.inl ⟨w, j, _, getElem?_set_self hlt, hidx⟩)
          | inr hrest => exact .inl ⟨j', hrest, hidx⟩
        | inr hrest =>
          cases hrest with
          | inl hbusy =>
            exact .inr (.inl ((hasItem_set _ hbusy hx).resolve_left nofun))
          | inr hres => exact .inr (.inr hres)

theorem act_inv (h : BatchInv sc items st) (hx : st.workers[w]? = some x) {answer : Answer}
    (hstep : st.act T w answer x = some st') : BatchInv sc items st' := by
  have hok := h.workers x (mem_of_getElem? hx)
  cases x with
  | idle ec => cases hstep
  | busy j rest =>
    obtain ⟨⟨memo, rest'⟩, hprog, hst⟩ := map_eq_some_iff.mp hstep
    have hwp := Prog.wp_step (answered_rely sc) stores_keepFirst hprog h.memo hok.2
    have hlt : w < st.workers.length := (List.getElem?_eq_some_iff.mp hx).1
    rw [← hst]
    refine ⟨hwp.1, h.jobs, workerOk_set h.workers ⟨hok.1, hwp.2⟩, h.length, h.results, ?_⟩
    intro i hi
    cases h.covers i hi with
    | inl hjob => exact .inl hjob
    | inr hrest =>
      cases hrest with
      | inl hbusy =>
        cases hasItem_set (.busy j rest') hbusy hx with
        | inl hself =>
          obtain ⟨j', _, heq, hidx⟩ := hself
          cases heq
          exact .inr (.inl ⟨w, j, rest', getElem?_set_self hlt, hidx⟩)
        | inr hset => exact .inr (.inl hset)
      | inr hres => exact .inr (.inr hres)

theorem result_ok {j : Job} {r : Except EvalError Bool} (hitem : items[j.idx]? = some j.item)
    (hr : ∀ b, r = .ok b → (b = true ↔ j.item ∈ Holds cx T)) :
    ResultOk cx T items j.idx (j.result r) := by
  cases r with
  | ok b => exact ⟨hitem, fun _ => hr b rfl⟩
  | error e => exact ⟨hitem, nofun⟩

theorem finish_inv (h : BatchInv sc items st) (hx : st.workers[w]? = some x)
    (hstep : st.finish w x = some st') : BatchInv sc items st' := by
  have hok := h.workers x (mem_of_getElem? hx)
  unfold BatchState.finish at hstep
  split at hstep
  · rename_i j r ec
    cases hstep
    have hidx : j.idx < st.results.length := by
      rw [h.length]
      exact (List.getElem?_eq_some_iff.mp hok.1).1
    have hres : ResultOk cx T items j.idx (j.result r) := result_ok hok.1 hok.2.2
    refine ⟨h.memo, h.jobs, workerOk_set h.workers hok.2.1, ?_, ?_, ?_⟩
    · rw [← h.length]
      exact length_set
    · intro i res hi
      by_cases heq : j.idx = i
      · rw [← heq, getElem?_set_self hidx] at hi
        cases hi
        exact heq ▸ hres
      · rw [getElem?_set_ne heq] at hi
        exact h.results i res hi
    · intro i hi
      by_cases heq : j.idx = i
      · rw [← heq]
        exact .inr (.inr ⟨j.result r, getElem?_set_self hidx⟩)
      cases h.covers i hi with
      | inl hjob => exact .inl hjob
      | inr hrest =>
        cases hrest with
        | inl hbusy =>
          cases hasItem_set (.idle ec) hbusy hx with
          | inl hself =>
            obtain ⟨j', _, hj', hidx'⟩ := hself
            cases hj'
            exact absurd hidx' heq
          | inr hset => exact .inr (.inl hset)
        | inr hold =>
          obtain ⟨res, hold⟩ := hold
          rw [← getElem?_set_ne heq] at hold
          exact .inr (.inr ⟨res, hold⟩)
  · cases hstep

theorem advance_inv (hn : ∀ n, n ∈ sc.nodes) (h : BatchInv sc items st) {mv}
    (hstep : st.advance cx T mv = some st') : BatchInv sc items st' := by
  cases mv with
  | pull w =>
    obtain ⟨x, hx, hstep⟩ := bind_eq_some_iff.mp hstep
    exact pull_inv hn h hx hstep
  | act w answer =>
    obtain ⟨x, hx, hstep⟩ := bind_eq_some_iff.mp hstep
    exact act_inv h hx hstep
  | finish w =>
    obtain ⟨x, hx, hstep⟩ := bind_eq_some_iff.mp hstep
    exact finish_inv h hx hstep

theorem run_inv (hn : ∀ n, n ∈ sc.nodes) {moves : List Move}
    (hrun : moves.foldlM (BatchState.advance cx T) (batchStart items) = some st) :
    BatchInv sc items st :=
  Runs.foldlM_invariant moves hrun (batchStart_inv sc items) fun _ _ _ h hstep =>
    advance_inv hn h hstep

theorem covers_of_finished {i} (h : st.Covers i) (hfin : st.Finished) :
    ∃ res, st.results[i]? = some (some res) := by
  cases h with
  | inl hjob =>
    obtain ⟨j, hj, _⟩ := hjob
    rw [hfin.1] at hj
    cases hj
  | inr hrest =>
    cases hrest with
    | inl hbusy =>
      obtain ⟨v, j, rest, hv, _⟩ := hbusy
      obtain ⟨ec, hec⟩ := hfin.2 _ (mem_of_getElem? hv)
      cases hec
    | inr hres => exact hres

end Invariant

/-- In every state of every interleaving: the shared memo holds nothing but least-fixpoint answers,
each result that is written is at its own index and, without an error, is the least-fixpoint answer
and the one of a check on its own; and once the workers are done every result is written. -/
theorem batchCan_ok_iff_holds (m : Model) (hm : Loaded m) (hrel : m.RelationsText) (T : Table)
    (subjType subjId : String) (items : List BatchItem) (moves : List Move) (st : BatchState)
    (hrun : moves.foldlM (BatchState.advance ⟨m, subjType, subjId, ""⟩ T) (batchStart items) = some st) :
    (∀ n v, st.memo (memoKey n) = some v → (v = true ↔ n ∈ Holds ⟨m, subjType, subjId, ""⟩ T)) ∧
    (∀ (i : Nat) res, st.results[i]? = some (some res) → items[i]? = some res.item ∧ (res.err = none →
        (res.allowed = true ↔ res.item ∈ Holds ⟨m, subjType, subjId, ""⟩ T) ∧
        ∀ db b, Db.Serves db T → engineCheck m db res.item subjType subjId = .ok b → res.allowed = b)) ∧
    (st.Finished → ∀ i < items.length, ∃ res, st.results[i]? = some (some res)) := by
  have hinv : BatchInv (batchScope ⟨m, subjType, subjId, ""⟩ T hm.wellFormed hrel) items st :=
    run_inv (fun _ => Set.mem_univ _) hrun
  refine ⟨?_, ?_, ?_⟩
  · intro n v hv
    exact hinv.memo _ v hv n (Set.mem_univ n) rfl
  · intro i res hres
    have hok := hinv.results i res hres
    refine ⟨hok.1, fun herr => ⟨hok.2 herr, ?_⟩⟩
    intro db b hdb hcheck
    have halone : b = true ↔ res.item ∈ Holds ⟨m, subjType, subjId, ""⟩ T := run_ok_iff hdb hcheck
    rw [Bool.eq_iff_iff, hok.2 herr, halone]
  · intro hfin i hi
    exact covers_of_finished (hinv.covers i hi) hfin

-- two groups that contain each other, checked by two workers that take turns
def ringDoc : Json := .obj [("group", .obj [("member", .obj [("this", .bool true)])])]

def ringItems : List BatchItem := [⟨"group", "a", "member"⟩, ⟨"group", "b", "member"⟩]

def ringMoves : List Move :=
  let a : Answer := .ok [⟨"group", "b", "member"⟩]
  let b : Answer := .ok [⟨"user", "u", ""⟩, ⟨"group", "a", "member"⟩]
  [.pull 0, .pull 1, .act 0 a, .act 1 b, .act 1 b, .act 0 a, .act 1 b, .act 0 a, .finish 1, .act 0 a, .finish 0]

theorem batchCan_ok_iff_holds_ring : ((ringMoves.foldlM (BatchState.advance ⟨ringModel, "user", "u", ""⟩ ringTable)
        (batchStart ringItems)).map (·.results) =
      some [some ⟨⟨"group", "a", "member"⟩, true, none⟩, some ⟨⟨"group", "b", "member"⟩, true, none⟩]) ∧
    ⟨"group", "a", "member"⟩ ∈ Holds ⟨ringModel, "user", "u", ""⟩ ringTable := by
  have hres : (ringMoves.foldlM (BatchState.advance ⟨ringModel, "user", "u", ""⟩ ringTable)
      (batchStart ringItems)).map (·.results) =
      some [some ⟨⟨"group", "a", "member"⟩, true, none⟩, some ⟨⟨"group", "b", "member"⟩, true, none⟩] := by decide
  refine ⟨hres, ?_⟩
  obtain ⟨st, hrun, hst⟩ := map_eq_some_iff.mp hres
  have hloa : Loaded ringModel := Loaded.load (j := ringDoc) rfl
  have hbatch := (batchCan_ok_iff_holds ringModel hloa (by decide) ringTable "user" "u"
    ringItems ringMoves st hrun).2.1 0 ⟨⟨"group", "a", "member"⟩, true, none⟩ (by rw [hst]; rfl)
  exact (hbatch.2 rfl).1.mp rfl

/-! ## A relation name with NUL -/

-- `"x\x00y"` reads `z`; the other two relations are direct
def nulDoc : Json :=
  .obj [("t", .obj [("z", .obj [("this", .bool true)]), ("y", .obj [("this", .bool true)]),
    ("x\x00y", .obj [("computedUserset", .str "z")])])]

def nulModel : Model :=
  [("t", [("y", .this), ("z", .this), ("x\x00y", .computedUserset "z")])]

def nulTable : Table where
  rows := [⟨"t", "id", "z", "user", "u", ""⟩]
  nodup := by decide
  text := by decide

def nulItems : List BatchItem := [⟨"t", "id", "x\x00y"⟩, ⟨"t", "id\x00x", "y"⟩]

-- one worker does the first item, then the other worker the second
def nulMoves : List Move :=
  let rows : Answer := .ok [⟨"user", "u", ""⟩]
  [.pull 0, .act 0 rows, .act 0 rows, .act 0 rows, .act 0 rows, .act 0 rows, .finish 0,
    .pull 1, .act 1 rows, .finish 1]

theorem nulModel_loaded : loadModel nulDoc = .ok nulModel := by rfl

/-- With NUL in a relation name two items of a batch can share a memo key: the second item is
allowed although the object it names has no rows at all. -/
theorem batchCan_nul_relation : Loaded nulModel ∧
    (nulMoves.foldlM (BatchState.advance ⟨nulModel, "user", "u", ""⟩ nulTable)
        (batchStart nulItems)).map (·.results) =
      some [some ⟨⟨"t", "id", "x\x00y"⟩, true, none⟩, some ⟨⟨"t", "id\x00x", "y"⟩, true, none⟩] ∧
    ⟨"t", "id\x00x", "y"⟩ ∉ Holds ⟨nulModel, "user", "u", ""⟩ nulTable := by
  have hloa : Loaded nulModel := Loaded.load nulModel_loaded
  refine ⟨hloa, by decide, ?_⟩
  intro h
  have hobj := textObject_of_holds hloa.wellFormed h
  exact absurd hobj.2 (by decide)

end Kiban
