import EmbeddingSearch.Data.Sorted

/-!
# JSON values

The values of the data format: what records hold, what payloads are stored as, and what requests
and answers are written in.

## Contents
- `Json.Number`: an integer is kept exact and apart from a binary64 number, so `3` and `3.0` are
  two values with two texts.
- `Json`: values whose objects list their members; `Json.ordered` puts the members of every object
  into ascending key order and keeps the last of several with one key.
- `Json.Kind`: what a value is, by name.
-/

namespace EmbeddingSearch

/-- A number as it was written: without fraction and exponent it is an integer. -/
inductive Json.Number where
  | integer (n : Int)
  | float (x : Float)
deriving DecidableEq, Repr

inductive Json where
  | null
  | bool (b : Bool)
  | number (n : Json.Number)
  | string (s : String)
  | array (items : List Json)
  | object (members : List (String × Json))
deriving Repr

namespace Json

/-! ## Numbers -/

/-- The binary64 value of a number: an integer is rounded once, to the nearest. -/
def Number.toFloat : Number → Float
  | .integer n => Float.ofInt n
  | .float x => x

/-- A binary64 number as a value; JSON has no infinities and no NaN, so those become null. -/
def ofFloat (x : Float) : Json := if x.isFinite then .number (.float x) else .null

def ofInt (n : Int) : Json := .number (.integer n)

def ofNat (n : Nat) : Json := ofInt n

/-! ## Objects -/

/-- An object with the given members, put into key order. -/
def ofMembers (members : List (String × Json)) : Json := .object (Sorted.ofList members)

/-- A member of an object. -/
def member? (name : String) : Json → Option Json
  | .object members => Sorted.find? name members
  | _ => none

mutual

/-- The value with the members of every object in key order, the last one of a key winning. -/
def ordered : Json → Json
  | .array items => .array (orderedItems items)
  | .object members => .object (Sorted.ofList (orderedMembers members))
  | v => v

def orderedItems : List Json → List Json
  | [] => []
  | v :: vs => ordered v :: orderedItems vs

def orderedMembers : List (String × Json) → List (String × Json)
  | [] => []
  | (k, v) :: ms => (k, ordered v) :: orderedMembers ms

end

/-! ## Kinds -/

inductive Kind where
  | null | bool | number | string | array | object
deriving DecidableEq, Repr

def Kind.name : Kind → String
  | .null => "null"
  | .bool => "bool"
  | .number => "number"
  | .string => "string"
  | .array => "array"
  | .object => "object"

def kind : Json → Kind
  | .null => .null
  | .bool _ => .bool
  | .number _ => .number
  | .string _ => .string
  | .array _ => .array
  | .object _ => .object

end Json

end EmbeddingSearch
