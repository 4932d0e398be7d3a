import Kiban.Engine.Model
import Kiban.Engine.Tuple
import Kiban.Lib.MemoProg

/-!
# The check evaluator

A check walks the definition of `(object, relation)` depth first.  It remembers answers in a memo, marks the nodes on
its path, answers `false` on re-entering one of them (counting the cut), and remembers a `false` only when no cut was
taken beneath it.  The evaluator is a program over the memo and the row queries, so that one definition serves a check
running alone and the workers of a batch.
-/

namespace Kiban

open MemoProg

def maxDepth : Nat := 32

/-- `CheckError`, its codes DEPTH_EXCEEDED, UNKNOWN_TYPE and UNKNOWN_RELATION with the values their
messages name. -/
inductive CheckError where
  | depthExceeded (n : Node)
  | unknownType (objType : String)
  | unknownRelation (rel objType : String)
deriving DecidableEq

inductive EvalError where
  | check (e : CheckError)
  | query (cause : String)
deriving DecidableEq

abbrev Answer := Except String (List TupleRow)

abbrev EvalProg (α : Type) := Prog String Bool Node Answer α

def memoKey (n : Node) : String := n.objType ++ "\x00" ++ n.objId ++ "\x00" ++ n.rel

/-- The part of `evalCtx` a goroutine owns. -/
structure EvalState where
  visiting : List String := []
  cuts : Nat := 0

/-- The part of `evalCtx` that stays fixed; the empty company leaves the check unbound. -/
structure EvalCtx where
  model : Model
  (subjType subjId : String)
  companyId : String := ""

/-- A computation of the evaluator.  Its state outlives an error. -/
def Eval (α : Type) := EvalState → EvalProg (Except EvalError α × EvalState)

namespace Eval

variable {α β : Type}

def pure (a : α) : Eval α := fun s => .ret (.ok a, s)

def throw (e : EvalError) : Eval α := fun s => .ret (.error e, s)

def andThen (x : Eval α) (f : α → Eval β) : Eval β := fun s =>
  (x s).bind fun
    | (.ok a, s') => f a s'
    | (.error e, s') => .ret (.error e, s')

instance : Monad Eval where
  pure := Eval.pure
  bind := Eval.andThen

end Eval

def fetchRows (n : Node) : Eval (List TupleRow) := fun s =>
  .ask n fun
    | .ok rows => .ret (.ok rows, s)
    | .error cause => .ret (.error (.query cause), s)

def EvalCtx.subjectInCompany (cx : EvalCtx) (subjType subjId : String) : Eval Bool :=
  if subjType = "position" ∨ subjType = "group" then do
    let rows ← fetchRows ⟨subjType, subjId, "company"⟩
    return rows.any fun r =>
      r.subjectType = "company" ∧ r.subjectId = cx.companyId ∧ r.subjectRelation = ""
  else if subjType = "member" then do
    let rows ← fetchRows ⟨"company", cx.companyId, "member"⟩
    return rows.any fun r =>
      r.subjectType = "member" ∧ r.subjectId = subjId ∧ r.subjectRelation = "mapped_user"
  else return true

/-- The company filter of `evalThis` on a userset row; an unbound check follows every row. -/
def EvalCtx.followsRow (cx : EvalCtx) (r : TupleRow) : Eval Bool :=
  if cx.companyId = "" then return true
  else cx.subjectInCompany r.subjectType r.subjectId

section Expr

variable (cx : EvalCtx) (chk : Node → Eval Bool)

def evalThisRows : List TupleRow → Eval Bool
  | [] => return false
  | r :: rows =>
    if r.subjectRelation = "" then
      if r.subjectType = cx.subjType ∧ r.subjectId = cx.subjId then return true
      else evalThisRows rows
    else do
      if ← cx.followsRow r then
        if ← chk ⟨r.subjectType, r.subjectId, r.subjectRelation⟩ then return true
        else evalThisRows rows
      else evalThisRows rows

def evalThis (n : Node) : Eval Bool := do
  let rows ← fetchRows n
  evalThisRows cx chk rows

/-- The loop of `evalTupleToUserset`; a userset-valued row is skipped. -/
def evalTupleToUsersetRows (computedUserset : String) : List TupleRow → Eval Bool
  | [] => return false
  | r :: rows =>
    if r.subjectRelation = "" then do
      if ← chk ⟨r.subjectType, r.subjectId, computedUserset⟩ then return true
      else evalTupleToUsersetRows computedUserset rows
    else evalTupleToUsersetRows computedUserset rows

def evalTupleToUserset (n : Node) (tupleset computedUserset : String) : Eval Bool := do
  let rows ← fetchRows ⟨n.objType, n.objId, tupleset⟩
  evalTupleToUsersetRows chk computedUserset rows

mutual

def evalExpr (n : Node) : Expr → Eval Bool
  | .this => evalThis cx chk n
  | .computedUserset r => chk ⟨n.objType, n.objId, r⟩
  | .tupleToUserset ts cu => evalTupleToUserset chk n ts cu
  | .union es => evalUnion n es
  | .intersection es => evalIntersection n es
termination_by structural e => e

def evalUnion (n : Node) : List Expr → Eval Bool
  | [] => return false
  | e :: es => do
    if ← evalExpr n e then return true
    else evalUnion n es
termination_by structural es => es

def evalIntersection (n : Node) : List Expr → Eval Bool
  | [] => return true
  | e :: es => do
    if ← evalExpr n e then evalIntersection n es
    else return false
termination_by structural es => es

end

/-- The part of `check` after the fence: look the definition up, evaluate it with the node on the
path, and remember the result unless it is a `false` with a cut beneath it. -/
def evalNode (n : Node) : Eval Bool := fun s =>
  match cx.model.lookup n.objType with
  | none => .ret (.error (.check (.unknownType n.objType)), s)
  | some typeDef =>
    match typeDef.lookup n.rel with
    | none => .ret (.error (.check (.unknownRelation n.rel n.objType)), s)
    | some expr =>
      (evalExpr cx chk n expr { s with visiting := memoKey n :: s.visiting }).bind fun (r, s') =>
        let left := { s' with visiting := s'.visiting.filter (· ≠ memoKey n) }
        match r with
        | .error e => .ret (.error e, left)
        | .ok result =>
          if result ∨ left.cuts = s.cuts then
            .store (memoKey n) result (.ret (.ok result, left))
          else .ret (.ok result, left)

end Expr

/-- The part of `check` before the fence: the memo, then the path. -/
def enter (n : Node) (body : Eval Bool) : Eval Bool := fun s =>
  .load (memoKey n) fun
    | some v => .ret (.ok v, s)
    | none =>
      if memoKey n ∈ s.visiting then .ret (.ok false, { s with cuts := s.cuts + 1 })
      else body s

/-- `check` at depth `maxDepth + 1 - left`: with nothing left the fence is passed. -/
def EvalCtx.check (cx : EvalCtx) : Nat → Node → Eval Bool
  | 0, n => enter n (Eval.throw (.check (.depthExceeded n)))
  | left + 1, n => enter n (evalNode cx (cx.check left) n)

/-- The answers of the database to the first, second, ... row query of one check. -/
abbrev Db := Nat → Node → Answer

def EvalCtx.run (cx : EvalCtx) (db : Db) (n : Node) : Except EvalError Bool :=
  ((cx.check (maxDepth + 1) n {}).run overwrite db 0 fun _ => none).1.1

/-- `Engine.Check`, with a fresh `mapMemo`. -/
def engineCheck (m : Model) (db : Db) (n : Node) (subjType subjId : String) : Except EvalError Bool :=
  EvalCtx.run ⟨m, subjType, subjId, ""⟩ db n

def engineCheckInCompany (m : Model) (db : Db) (n : Node) (subjType subjId companyId : String) :
    Except EvalError Bool :=
  EvalCtx.run ⟨m, subjType, subjId, companyId⟩ db n

/-- The database serves the contents of `T`: a query that succeeds has text parameters and gets
exactly the matching rows, each time in any order. -/
def Db.Serves (db : Db) (T : Table) : Prop :=
  ∀ i n rows, db i n = .ok rows → n.IsText ∧ rows.Perm (T.rowsFor n)

end Kiban
