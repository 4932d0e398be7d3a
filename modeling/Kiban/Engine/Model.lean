import Kiban.Engine.Json

/-!
# Relation models

The supported subset of relation definitions, the wall a JSON document has to pass to become a model, and the checks on
models made before one is used: references inside a type, `tupleToUserset` targets over the whole effective model, and
the company anchor every fragment type carries.
-/

namespace Kiban

inductive Expr where
  | this
  | computedUserset (rel : String)
  | tupleToUserset (tupleset computedUserset : String)
  | union (children : List Expr)
  | intersection (children : List Expr)

def Expr.isThis : Expr → Bool
  | .this => true
  | _ => false

abbrev Rels := List (String × Expr)

/-- Object type to relation name to definition. -/
abbrev Model := List (String × Rels)

def Model.relation? (m : Model) (typ rel : String) : Option Expr :=
  (m.lookup typ).bind (·.lookup rel)

def Model.defines (m : Model) (typ rel : String) : Bool := (m.relation? typ rel).isSome

/-! ## The subset wall -/

/-- The field of `TupleToUserset` a member name selects: an exact match first, else one equal
under case folding, under which `ſ` is an `s` too. -/
def foldRune (c : Char) : Char := if c = 'ſ' then 's' else c.toLower

def foldName (s : String) : List Char := s.toList.map foldRune

def matchesField (field : String) (m : String × Json) : Bool := foldName m.1 = foldName field

/-- A string field of a Go struct: each member selecting it assigns it in turn, `null` leaves it
as it is and any other value is a type error. -/
def stringField (field : String) : List (String × Json) → String → Except String String
  | [], acc => .ok acc
  | m :: ms, acc =>
    if matchesField field m then
      match m.2 with
      | .str s => stringField field ms s
      | .null => stringField field ms acc
      | _ => .error "json: cannot unmarshal into Go struct field of type string"
    else stringField field ms acc

def decodeThis : Json → Except String Expr
  | .bool true => .ok .this
  | .bool false => .error "relation expr: \"this\": false has no meaning in the subset"
  | .null => .error "relation expr: \"this\": false has no meaning in the subset"
  | _ => .error "relation expr: \"this\" must be a JSON bool"

def decodeComputedUserset : Json → Except String Expr
  | .str s =>
    if s = "" then .error "relation expr: \"computedUserset\" must name a relation"
    else .ok (.computedUserset s)
  | .null => .error "relation expr: \"computedUserset\" must name a relation"
  | _ => .error "relation expr: \"computedUserset\" must be a string"

def decodeTupleToUserset : Json → Except String Expr
  | .null => .error "relation expr: \"tupleToUserset\" requires non-empty tupleset and computedUserset"
  | .obj ms => do
    let tupleset ← stringField "tupleset" ms ""
    let computed ← stringField "computedUserset" ms ""
    if tupleset = "" ∨ computed = "" then
      .error "relation expr: \"tupleToUserset\" requires non-empty tupleset and computedUserset"
    else .ok (.tupleToUserset tupleset computed)
  | _ => .error "relation expr: \"tupleToUserset\": cannot unmarshal"

mutual

/-- `Expr.UnmarshalJSON`: an object with exactly one name, a recognized one.  The name may be
repeated; only the last value counts then. -/
def decodeExpr : Json → Except String Expr
  | .obj members => decodeMembers members
  | .null => .error "relation expr: expected exactly 1 key, got 0"
  | _ => .error "relation expr: not a JSON object"
termination_by structural j => j

def decodeMembers : List (String × Json) → Except String Expr
  | [] => .error "relation expr: expected exactly 1 key, got 0"
  | m :: ms =>
    if ms.isEmpty then decodeMember m
    else if ms.all (·.1 = m.1) then decodeMembers ms
    else .error "relation expr: expected exactly 1 key"
termination_by structural ms => ms

def decodeMember : String × Json → Except String Expr
  | (k, v) =>
    if k = "this" then decodeThis v
    else if k = "computedUserset" then decodeComputedUserset v
    else if k = "tupleToUserset" then decodeTupleToUserset v
    else if k = "union" then do
      let children ← decodeChildren v
      if children.length = 0 then
        .error "relation expr: \"union\" must have at least one child"
      else .ok (.union children)
    else if k = "intersection" then do
      let children ← decodeChildren v
      if children.length < 2 then
        .error "relation expr: \"intersection\" must have at least two children"
      else .ok (.intersection children)
    else .error ("relation expr: construct \"" ++ k ++ "\" is outside the supported subset (allowed: this, computedUserset, tupleToUserset, union, intersection)")
termination_by structural m => m

-- `null` decodes to a nil slice
def decodeChildren : Json → Except String (List Expr)
  | .arr items => decodeItems items
  | .null => .ok []
  | _ => .error "json: cannot unmarshal into Go value of type []engine.Expr"
termination_by structural j => j

def decodeItems : List Json → Except String (List Expr)
  | [] => .ok []
  | j :: js => do
    let e ← decodeExpr j
    let es ← decodeItems js
    .ok (e :: es)
termination_by structural js => js

end

/-- A Go map with values decoded by `f`.  A value that does not decode is an error even where a
later member of the same name replaces it. -/
def decodeMap {β : Type} (f : Json → Except String β) : List (String × Json) → Except String (List (String × β))
  | [] => .ok []
  | m :: ms => do
    let v ← f m.2
    let rest ← decodeMap f ms
    .ok ((m.1, v) :: rest)

/-- The relations of one type; `null` decodes to a type without any. -/
def decodeRels : Json → Except String Rels
  | .null => .ok []
  | .obj ms => entries <$> decodeMap decodeExpr ms
  | _ => .error "json: cannot unmarshal into Go value of type map[string]engine.Expr"

def decodeModel : Json → Except String Model
  | .null => .ok []
  | .obj ms => entries <$> decodeMap decodeRels ms
  | _ => .error "json: cannot unmarshal into Go value of type engine.Model"

/-! ## Checks on a model -/

mutual

/-- A `computedUserset` and a tupleset name relations of the type they stand in. -/
def validateSelfRefs (rels : Rels) (typ rel : String) : Expr → Except String Unit
  | .this => .ok ()
  | .computedUserset r =>
    if (rels.lookup r).isSome then .ok ()
    else .error ("model: " ++ typ ++ "#" ++ rel ++ ": computedUserset \"" ++ r ++ "\" not defined on type \"" ++ typ ++ "\"")
  | .tupleToUserset ts _ =>
    if (rels.lookup ts).isSome then .ok ()
    else .error ("model: " ++ typ ++ "#" ++ rel ++ ": tupleToUserset tupleset \"" ++ ts ++ "\" not defined on type \"" ++ typ ++ "\"")
  | .union es => validateSelfRefsAll rels typ rel es
  | .intersection es => validateSelfRefsAll rels typ rel es
termination_by structural e => e

def validateSelfRefsAll (rels : Rels) (typ rel : String) : List Expr → Except String Unit
  | [] => .ok ()
  | e :: es => do
    validateSelfRefs rels typ rel e
    validateSelfRefsAll rels typ rel es
termination_by structural es => es

end

/-- Run `f` on each entry of a map and stop at the first error.  Go visits a map in any order;
which of several errors is reported is not determined, whether there is one is. -/
def forEntries {β : Type} (f : String → β → Except String Unit) : List (String × β) → Except String Unit
  | [] => .ok ()
  | m :: ms => do
    f m.1 m.2
    forEntries f ms

def loadModel (data : Json) : Except String Model := do
  let m ← decodeModel data
  if m.length = 0 then .error "model: empty"
  else
    forEntries (fun typ rels =>
      forEntries (fun rel e => validateSelfRefs ((m.lookup typ).getD []) typ rel e) rels) m
    .ok m

/-- `Model.Merge`: a type declared on both sides is an error. -/
def Model.merge (m other : Model) : Except String Model :=
  match other.find? (fun p => (m.lookup p.1).isSome) with
  | some p => .error ("model: object type \"" ++ p.1 ++ "\" is declared by more than one model")
  | none => .ok (m ++ other)

def Model.definedRels (m : Model) : List String := m.flatMap fun p => p.2.map Prod.fst

mutual

def walkTargets (defined : List String) (typ rel : String) : Expr → Except String Unit
  | .this => .ok ()
  | .computedUserset _ => .ok ()
  | .tupleToUserset _ cu =>
    if cu ∈ defined then .ok ()
    else .error ("model: " ++ typ ++ "#" ++ rel ++ ": tupleToUserset computedUserset \"" ++ cu ++ "\" is not defined on any type of the effective model")
  | .union es => walkTargetsAll defined typ rel es
  | .intersection es => walkTargetsAll defined typ rel es
termination_by structural e => e

def walkTargetsAll (defined : List String) (typ rel : String) : List Expr → Except String Unit
  | [] => .ok ()
  | e :: es => do
    walkTargets defined typ rel e
    walkTargetsAll defined typ rel es
termination_by structural es => es

end

def Model.validateTupleToUsersetTargets (m : Model) : Except String Unit :=
  forEntries (fun typ rels => forEntries (walkTargets m.definedRels typ) rels) m

def Model.validateCompanyModuleAnchor (m : Model) : Except String Unit :=
  forEntries (fun typ (rels : Rels) =>
    match rels.lookup "company_module" with
    | some anchor =>
      if anchor.isThis then .ok ()
      else .error ("model: object type \"" ++ typ ++ "\" must define relation \"company_module\" as \x7b\"this\": true\x7d (the company anchor every module object carries)")
    | none => .error ("model: object type \"" ++ typ ++ "\" must define relation \"company_module\" as \x7b\"this\": true\x7d (the company anchor every module object carries)")) m

end Kiban
