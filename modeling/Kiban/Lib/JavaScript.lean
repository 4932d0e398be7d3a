import Kiban.Lib.Keyed
import Mathlib.Data.List.Infix

/-!
# Plain objects as maps

A JavaScript object literal may serve as a map from texts to arrays of texts.  A key that was never written is
looked up in the prototypes of the object, and what is written under `__proto__` becomes its prototype.  A record here
is an object that begins as a literal without members, with the keys written since.
-/

namespace JavaScript

/-- A text that is there and not empty. -/
def truthy (s : Option String) : Option String := s.filter (· ≠ "")

inductive Value where
  | undefined
  | array (items : List String)
  | text (s : String)
  | number (n : Nat)
  | function
  | object
deriving DecidableEq

/-- The functions of `Object.prototype`. -/
def objectMethods : List String :=
  ["constructor", "__defineGetter__", "__defineSetter__", "hasOwnProperty", "__lookupGetter__", "__lookupSetter__",
    "isPrototypeOf", "propertyIsEnumerable", "toString", "valueOf", "toLocaleString"]

/-- The functions of `Array.prototype` under names of its own. -/
def arrayMethods : List String :=
  ["at", "concat", "copyWithin", "entries", "every", "fill", "filter", "find", "findIndex", "findLast",
    "findLastIndex", "flat", "flatMap", "forEach", "includes", "indexOf", "join", "keys", "lastIndexOf", "map", "pop",
    "push", "reduce", "reduceRight", "reverse", "shift", "slice", "some", "sort", "splice", "toReversed", "toSorted",
    "toSpliced", "unshift", "values", "with"]

structure Record where
  own : Keyed.Table String (List String)
  -- the array written under `__proto__`; without one it is `Object.prototype`
  prototype : Option (List String)

def Record.empty : Record := ⟨.empty, none⟩

def Record.set (o : Record) (key : String) (items : List String) : Record :=
  if key = "__proto__" then { o with prototype := some items } else { o with own := o.own.upsert key items }

/-- What an object with this prototype has under a key that is not its own. -/
def inherited (prototype : Option (List String)) (key : String) : Value :=
  match prototype with
  | none => if key = "__proto__" then .object else if key ∈ objectMethods then .function else .undefined
  | some items =>
    if key = "__proto__" then .array items
    else if key = "length" then .number items.length
    else
      match items.zipIdx.find? fun item => toString item.2 = key with
      | some item => .text item.1
      | none => if key ∈ arrayMethods ∨ key ∈ objectMethods then .function else .undefined

def Record.get (o : Record) (key : String) : Value :=
  match o.own.get? key with
  | some items => .array items
  | none => inherited o.prototype key

/-- `(value ?? []).includes(x)`, where an array looks for an item and a text for a part. -/
def Value.includes (value : Value) (x : String) : Except String Bool :=
  match value with
  | .undefined => .ok false
  | .array items => .ok (x ∈ items)
  | .text s => .ok (x.toList <:+: s.toList)
  | _ => .error "TypeError: includes is not a function"

section Fold

variable {ι : Type} {l : List ι} {key : ι → String} {val : String → List String} {o : Record} {k : String}

theorem own_foldl_set : (l.foldl (fun o i => o.set (key i) (val (key i))) o).own.get? k =
    if k ∈ l.map key ∧ k ≠ "__proto__" then some (val k) else o.own.get? k := by
  induction l generalizing o with
  | nil => simp
  | cons i l ih =>
    rw [List.foldl_cons, ih]
    unfold Record.set
    by_cases hproto : key i = "__proto__"
    · rw [if_pos hproto]
      by_cases hk : k = "__proto__"
      · simp [hk]
      · have hne : k ≠ key i := fun h => hk (h.trans hproto)
        simp [hk, hne]
    · rw [if_neg hproto, Keyed.Table.get?_upsert]
      by_cases hk : k = key i
      · subst hk
        simp [hproto]
      · simp [hk]

theorem prototype_foldl_set : (l.foldl (fun o i => o.set (key i) (val (key i))) o).prototype =
    if "__proto__" ∈ l.map key then some (val "__proto__") else o.prototype := by
  induction l generalizing o with
  | nil => simp
  | cons i l ih =>
    rw [List.foldl_cons, ih]
    unfold Record.set
    by_cases hproto : key i = "__proto__"
    · rw [if_pos hproto]
      simp [hproto]
    · rw [if_neg hproto]
      have hne : "__proto__" ≠ key i := fun h => hproto h.symm
      simp [hne]

/-- A key that was written reads what was written, `__proto__` too. -/
theorem get_foldl_set_of_mem (hk : k ∈ l.map key) :
    (l.foldl (fun o i => o.set (key i) (val (key i))) Record.empty).get k = .array (val k) := by
  unfold Record.get
  rw [own_foldl_set, prototype_foldl_set]
  by_cases hproto : k = "__proto__"
  · subst hproto
    rw [if_neg (by simp), if_pos hk]
    rfl
  · rw [if_pos ⟨hk, hproto⟩]

theorem get_foldl_set_of_notMem (hk : k ∉ l.map key) :
    (l.foldl (fun o i => o.set (key i) (val (key i))) Record.empty).get k =
      inherited (if "__proto__" ∈ l.map key then some (val "__proto__") else none) k := by
  unfold Record.get
  rw [own_foldl_set, if_neg fun h => hk h.1, prototype_foldl_set]
  rfl

end Fold

/-- Where no array is the prototype, the test can be made for the keys that inherit nothing, and finds nothing. -/
theorem includes_inherited_none {k x b} :
    (inherited none k).includes x = .ok b ↔ b = false ∧ k ≠ "__proto__" ∧ k ∉ objectMethods := by
  unfold inherited
  by_cases hproto : k = "__proto__"
  · simp [hproto, Value.includes]
  · by_cases hmeth : k ∈ objectMethods
    · simp [hproto, hmeth, Value.includes]
    · simp [hproto, hmeth, Value.includes, eq_comm]

end JavaScript
