import EmbeddingSearch.Json.Basic
import EmbeddingSearch.Numeric.Binary

/-!
# Reading values of known shape

Typed reading of JSON values, with the first problem as the error.

## Contents
- `Json.Mismatch`: what can be wrong with a value.
- Readers of single values: `readBool`, `readText`, `readNat`, `readInt64`, `readFloat`,
  `readFloat32`, `readOption`, `readList`, `readMap`.
- `Json.Choice`: one of several named variants.
- `Json.Shape`: a structure, read from an object by name or from an array by position. The members
  of an object are checked in the order they are listed, and only then missing ones are looked for,
  in declaration order.
-/

namespace EmbeddingSearch

namespace Json

/-- Why a value has not the wanted shape. -/
inductive Mismatch where
  | missingField (name : String)
  | duplicateField (name : String)
  | unknownVariant (name : String)
  | invalidType
  | invalidValue
  | invalidLength (n : Nat)
  /-- A text that stands for nothing of its kind, with the reason. -/
  | invalidText (reason : String)
deriving DecidableEq, Repr

def Mismatch.message : Mismatch → String
  | .missingField name => s!"missing field `{name}`"
  | .duplicateField name => s!"duplicate field `{name}`"
  | .unknownVariant name => s!"unknown variant `{name}`"
  | .invalidType => "invalid type"
  | .invalidValue => "invalid value"
  | .invalidLength n => s!"invalid length {n}"
  | .invalidText reason => reason

/-- A typed reading of values. -/
abbrev Reader (α : Type) := Json → Except Mismatch α

/-! ## Single values -/

def readBool : Reader Bool
  | .bool b => .ok b
  | _ => .error .invalidType

def readText : Reader String
  | .string s => .ok s
  | _ => .error .invalidType

/-- The largest count and the largest duration that can be written. -/
def maxUnsigned : Nat := 18446744073709551615

/-- A natural number of at most 64 bits. -/
def readNat : Reader Nat
  | .number (.integer n) =>
    if n < 0 || n > maxUnsigned then .error .invalidValue else .ok n.toNat
  | _ => .error .invalidType

/-- A signed number of at most 64 bits. -/
def readInt64 : Reader Int
  | .number (.integer n) =>
    if n < -9223372036854775808 || n > 9223372036854775807 then .error .invalidValue else .ok n
  | _ => .error .invalidType

/-- Whether an integer fits 64 bits, with a sign or without. -/
def fitsWord (n : Int) : Bool := -9223372036854775808 ≤ n && n ≤ maxUnsigned

/-- Any number, as binary64. -/
def readFloat : Reader Float
  | .number (.float x) => .ok x
  | .number (.integer n) => if fitsWord n then .ok (Float.ofInt n) else .error .invalidType
  | _ => .error .invalidType

/-- Any number, as binary32. An integer is rounded once, a binary64 number once more. -/
def readFloat32 : Reader Float32
  | .number (.float x) => .ok (narrow x)
  | .number (.integer n) => if fitsWord n then .ok (Float32.ofInt n) else .error .invalidType
  | _ => .error .invalidType

/-- Null for nothing, and else a value. -/
def readOption {α : Type} (read : Reader α) : Reader (Option α)
  | .null => .ok none
  | v => some <$> read v

def readList {α : Type} (read : Reader α) : Reader (List α)
  | .array items => items.mapM read
  | _ => .error .invalidType

/-- The members of an object, whatever they are. -/
def readMap : Reader (List (String × Json))
  | .object members => .ok members
  | _ => .error .invalidType

/-! ## Named variants -/

/-- The variants of a type, by the names they are written with. -/
abbrev Choice (α : Type) := List (String × α)

/-- A variant is written as its name, or as an object whose only member has that name and is
null. -/
def readChoice {α : Type} (variants : Choice α) : Reader α
  | .string s => variant s
  | .object [(s, v)] => do
    let a ← variant s
    match v with
    | .null => .ok a
    | _ => .error .invalidType
  | .object _ => .error .invalidValue
  | _ => .error .invalidType
where
  variant (s : String) : Except Mismatch α :=
    match variants.lookup s with
    | some a => .ok a
    | none => .error (.unknownVariant s)

/-! ## Structures -/

/-- How a structure is put together from the members of an object, or from the items of an
array. -/
structure Shape (α : Type) where
  /-- The named members with the check that each has to pass. -/
  checks : List (String × (Json → Except Mismatch Unit))
  /-- The structure, from members that have passed their checks. -/
  ofMembers : (String → Option Json) → Except Mismatch α
  /-- The structure from items by position, and the items it leaves over; the number is that of
  the items already taken. -/
  ofItems : Nat → List Json → Except Mismatch (α × Nat × List Json)

namespace Shape

variable {α β : Type}

instance : Functor Shape where
  map f s :=
    { checks := s.checks
      ofMembers := fun get => f <$> s.ofMembers get
      ofItems := fun n vs => do
        let (a, n, vs) ← s.ofItems n vs
        .ok (f a, n, vs) }

instance : Seq Shape where
  seq f s :=
    let s := s ()
    { checks := f.checks ++ s.checks
      ofMembers := fun get => do
        let g ← f.ofMembers get
        let a ← s.ofMembers get
        .ok (g a)
      ofItems := fun n vs => do
        let (g, n, vs) ← f.ofItems n vs
        let (a, n, vs) ← s.ofItems n vs
        .ok (g a, n, vs) }

/-- A member that takes the value of `absent` when an object has none of its name, and that of
`short` when an array ends before it. -/
def field (name : String) (read : Reader α) (absent : Except Mismatch α)
    (short : Nat → Except Mismatch α) : Shape α where
  checks := [(name, fun v => (fun _ => ()) <$> read v)]
  ofMembers get := match get name with
    | some v => read v
    | none => absent
  ofItems n vs := match vs with
    | v :: vs => (fun a => (a, n + 1, vs)) <$> read v
    | [] => (fun a => (a, n, [])) <$> short n

/-- A member that has to be there. -/
def required (name : String) (read : Reader α) : Shape α :=
  field name read (.error (.missingField name)) fun n => .error (.invalidLength n)

/-- A member with a default. -/
def withDefault (name : String) (read : Reader α) (default : α) : Shape α :=
  field name read (.ok default) fun _ => .ok default

/-- A member that an object may leave out but an array may not. -/
def optional (name : String) (read : Reader α) : Shape (Option α) :=
  field name (readOption read) (.ok none) fun n => .error (.invalidLength n)

/-- Checks the members one after the other; a name that was met before is refused. -/
def checkMembers (s : Shape α) (met : List String) : List (String × Json) → Except Mismatch Unit
  | [] => .ok ()
  | (name, v) :: rest =>
    match s.checks.lookup name with
    | none => checkMembers s met rest
    | some check =>
      if met.contains name then .error (.duplicateField name)
      else do
        check v
        checkMembers s (name :: met) rest

/-- How many members a structure has. -/
def width (s : Shape α) : Nat := s.checks.length

/-- Reads a structure from an object or an array of just its members. -/
def read (s : Shape α) : Reader α
  | .object members => do
    s.checkMembers [] members
    s.ofMembers fun name => members.lookup name
  | .array items => do
    let (a, _, rest) ← s.ofItems 0 items
    if rest.isEmpty then .ok a else .error (.invalidLength items.length)
  | _ => .error .invalidType

end Shape

end Json

end EmbeddingSearch
