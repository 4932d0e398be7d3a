import Mathlib.Data.List.Sort
import Mathlib.Data.String.Basic

/-!
# JSON documents as Go decodes them and `jsonb` stores them

A document keeps the members of its objects in document order, repeats included: Go's decoder
walks them in that order, and a `jsonb` column drops all but the last member of a name and orders
the rest by length and then by bytes.
-/

namespace Kiban

inductive Json where
  | null
  | bool (b : Bool)
  | num (literal : String)
  | str (s : String)
  | arr (items : List Json)
  | obj (members : List (String × Json))

/-- The values a Postgres `text` can hold: the server refuses NUL. -/
def IsText (s : String) : Prop := '\x00' ∉ s.toList

instance (s : String) : Decidable (IsText s) := inferInstanceAs (Decidable (_ ∉ _))

section Members

variable {β γ : Type}

/-- A map literal read in order: of several members of one name the last one stays. -/
def lastWins : List (String × β) → List (String × β)
  | [] => []
  | m :: ms => if m.1 ∈ ms.map Prod.fst then lastWins ms else m :: lastWins ms

/-- The order of the member names in `jsonb`: by length in bytes, then by bytes (which for UTF-8
is the order of the code points). -/
def keyLe (a b : String × β) : Prop :=
  a.1.utf8ByteSize < b.1.utf8ByteSize ∨ (a.1.utf8ByteSize = b.1.utf8ByteSize ∧ a.1 ≤ b.1)

instance : DecidableRel (keyLe (β := β)) := fun _ _ => inferInstanceAs (Decidable (_ ∨ _))

/-- The entries of a map read from a list of members.  A Go map has no order of its own; the model
keeps its entries in the order `jsonb` would. -/
def entries (ms : List (String × β)) : List (String × β) := (lastWins ms).insertionSort keyLe

end Members

mutual

/-- The document a `jsonb` column gives back. -/
def Json.jsonb : Json → Json
  | .arr items => .arr (Json.jsonbItems items)
  | .obj members => .obj (entries (Json.jsonbMembers members))
  | j => j
termination_by structural j => j

def Json.jsonbItems : List Json → List Json
  | [] => []
  | j :: js => j.jsonb :: Json.jsonbItems js
termination_by structural js => js

def Json.jsonbMembers : List (String × Json) → List (String × Json)
  | [] => []
  | m :: ms => Json.jsonbMember m :: Json.jsonbMembers ms
termination_by structural ms => ms

def Json.jsonbMember : String × Json → String × Json
  | (k, v) => (k, v.jsonb)
termination_by structural m => m

end

mutual

/-- The names and strings of the document are ones `jsonb` accepts. -/
def Json.storable : Json → Bool
  | .str s => decide (IsText s)
  | .arr items => Json.storableItems items
  | .obj members => Json.storableMembers members
  | _ => true
termination_by structural j => j

def Json.storableItems : List Json → Bool
  | [] => true
  | j :: js => j.storable && Json.storableItems js
termination_by structural js => js

def Json.storableMembers : List (String × Json) → Bool
  | [] => true
  | m :: ms => Json.storableMember m && Json.storableMembers ms
termination_by structural ms => ms

def Json.storableMember : String × Json → Bool
  | (k, v) => decide (IsText k) && v.storable
termination_by structural m => m

end

end Kiban
