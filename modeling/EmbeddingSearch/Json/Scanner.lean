import EmbeddingSearch.Json.Reader
import EmbeddingSearch.Json.Shape

/-!
# Reading texts of known shape

A text that is to hold a value of some type is read straight into this type, without a value of the
data format in between. A member that a structure does not have is passed over: it has to look like
a value, but neither how large its numbers are, nor which characters its escapes stand for, nor how
deep it is nested is looked at.

## Contents
- Passing over: `skipString`, `skipNumber`, `skipValue`.
- `Problem`: why a text does not hold what is wanted.
- `Scanner`: readers of the front of a text, among them `scanNumber`, `scanText`, `scanOption` and
  `scanList`.
- `Layout`: a structure, read from an object or from an array of its members.
- `Scanner.all`: the reading of a whole text.
-/

namespace EmbeddingSearch

namespace Json

open Text (Taken hexValue?)

/-! ## Passing over -/

/-- Where the next character of a string stands. -/
inductive Inside where
  | text
  /-- After a backslash. -/
  | escape
  /-- In the digits of a `\u` escape, so many of which follow the next one. -/
  | code (more : Nat)
deriving DecidableEq, Repr

/-- What follows a string whose opening quote is already read. -/
def skipString (place : Inside) : List Char → Except SyntaxError (List Char)
  | [] => .error .endOfString
  | c :: rest =>
    match place with
    | .text =>
      if c = '"' then .ok rest
      else if c = '\\' then skipString .escape rest
      else if c.toNat < 32 then .error .controlCharacter
      else skipString .text rest
    | .escape =>
      if c = 'u' then
        if (String.ofList (rest.take 4)).utf8ByteSize < 4 then .error .endOfString
        else skipString (.code 3) rest
      else if ['"', '\\', '/', 'b', 'f', 'n', 'r', 't'].contains c then skipString .text rest
      else .error .invalidEscape
    | .code more =>
      if (hexValue? c).isNone then .error .invalidEscape
      else
        match more with
        | 0 => skipString .text rest
        | more + 1 => skipString (.code more) rest

/-- What follows the digits that have to be there. -/
def skipDigits (cs : List Char) : Except SyntaxError (List Char) :=
  if (cs.takeWhile Char.isDigit).isEmpty then .error .invalidNumber
  else .ok (cs.dropWhile Char.isDigit)

/-- What follows the exponent of a number, if it has one. -/
def skipExponent (cs : List Char) : Except SyntaxError (List Char) :=
  match cs with
  | 'e' :: rest => skipDigits (afterSign rest)
  | 'E' :: rest => skipDigits (afterSign rest)
  | _ => .ok cs
where
  afterSign : List Char → List Char
    | '+' :: rest => rest
    | '-' :: rest => rest
    | cs => cs

/-- What follows the part of a number after its sign. -/
def skipUnsigned (cs : List Char) : Except SyntaxError (List Char) := do
  let rest ← skipDigits cs
  if cs.head? = some '0' && (cs.takeWhile Char.isDigit).length > 1 then throw .invalidNumber
  match rest with
  | '.' :: rest => skipExponent (← skipDigits rest)
  | _ => skipExponent rest

def skipNumber (cs : List Char) : Except SyntaxError (List Char) :=
  match cs with
  | '-' :: rest => skipUnsigned rest
  | _ => skipUnsigned cs

mutual

/-- What follows a value, with `fuel` as for `readValue`. -/
def skipValue (fuel : Nat) (cs : List Char) : Except SyntaxError (List Char) :=
  match fuel with
  | 0 => .error .endOfValue
  | fuel + 1 =>
    match skipBlanks cs with
    | [] => .error .endOfValue
    | c :: rest =>
      if c = 'n' then Prod.snd <$> readWord ['u', 'l', 'l'] .null rest
      else if c = 't' then Prod.snd <$> readWord ['r', 'u', 'e'] .null rest
      else if c = 'f' then Prod.snd <$> readWord ['a', 'l', 's', 'e'] .null rest
      else if c = '-' || c.isDigit then skipNumber (c :: rest)
      else if c = '"' then skipString .text rest
      else if c = '[' then skipItems fuel true rest
      else if c = '\x7b' then skipMembers fuel true rest
      else .error .expectedValue

/-- What follows an array of which the items are left. -/
def skipItems (fuel : Nat) (first : Bool) (cs : List Char) : Except SyntaxError (List Char) :=
  match fuel with
  | 0 => .error .endOfArray
  | fuel + 1 =>
    match skipBlanks cs with
    | [] => .error .endOfArray
    | ']' :: rest => .ok rest
    | c :: rest => do
      let cs ← if first then .ok (c :: rest) else if c = ',' then .ok rest
        else .error .expectedItemEnd
      let cs ← skipValue fuel cs
      skipItems fuel false cs

/-- What follows an object of which the members are left. -/
def skipMembers (fuel : Nat) (first : Bool) (cs : List Char) : Except SyntaxError (List Char) :=
  match fuel with
  | 0 => .error .endOfObject
  | fuel + 1 =>
    match skipBlanks cs with
    | [] => .error .endOfObject
    | '\x7d' :: rest => .ok rest
    | c :: rest => do
      let cs ← if first then .ok (c :: rest) else if c = ',' then .ok (skipBlanks rest)
        else .error .expectedMemberEnd
      let cs ← match cs with
        | [] => .error .endOfObject
        | '"' :: rest => skipString .text rest
        | _ => .error .keyNotString
      let cs ← readMembers.afterColon (skipBlanks cs)
      let cs ← skipValue fuel cs
      skipMembers fuel false cs

end

/-! ## Readers -/

/-- Why a text does not hold a value of some type. -/
inductive Problem where
  | malformed (e : SyntaxError)
  | mismatch (m : Mismatch)
deriving DecidableEq, Repr

def Problem.message : Problem → String
  | .malformed e => e.message
  | .mismatch m => m.message

/-- A reader of a value at the front of a text. The number is as for `readValue`. -/
abbrev Scanner (α : Type) := Nat → List Char → Except Problem (Taken α)

variable {α β σ : Type}

/-- What is wrong with a value of another type. A word, a number or a text is read to its end before
this is said. -/
def misfit (fuel : Nat) (cs : List Char) : Problem :=
  match readValue fuel 0 cs with
  | .ok _ => .mismatch .invalidType
  | .error .tooDeep => .mismatch .invalidType
  | .error e => .malformed e

/-- A number, of which something is made. -/
def scanNumber (read : Reader α) : Scanner α := fun fuel cs =>
  match skipBlanks cs with
  | c :: rest =>
    if c = '-' || c.isDigit then do
      let (n, rest) ← (readNumber (c :: rest)).mapError .malformed
      let a ← (read (.number n)).mapError .mismatch
      .ok (a, rest)
    else .error (misfit fuel cs)
  | [] => .error (misfit fuel cs)

def scanText : Scanner String := fun fuel cs =>
  match skipBlanks cs with
  | '"' :: rest => (readString fuel rest).mapError .malformed
  | _ => .error (misfit fuel cs)

/-- Null for nothing, and else a value. -/
def scanOption (scan : Scanner α) : Scanner (Option α) := fun fuel cs =>
  match skipBlanks cs with
  | 'n' :: rest => do
    let (_, rest) ← (readWord ['u', 'l', 'l'] .null rest).mapError .malformed
    .ok (none, rest)
  | _ => do
    let (a, rest) ← scan fuel cs
    .ok (some a, rest)

/-- The items of an array up to its closing bracket. -/
def scanItems (scan : Scanner α) (fuel : Nat) (first : Bool) (cs : List Char) :
    Except Problem (Taken (List α)) :=
  match fuel with
  | 0 => .error (.malformed .endOfArray)
  | fuel + 1 =>
    match skipBlanks cs with
    | [] => .error (.malformed .endOfArray)
    | ']' :: rest => .ok ([], rest)
    | c :: rest => do
      let cs ← (readItems.itemStart first c rest).mapError .malformed
      let (a, cs) ← scan fuel cs
      let (as, cs) ← scanItems scan fuel false cs
      .ok (a :: as, cs)

def scanList (scan : Scanner α) : Scanner (List α) := fun fuel cs =>
  match fuel, skipBlanks cs with
  | fuel + 1, '[' :: rest => scanItems scan fuel true rest
  | fuel, _ => .error (misfit fuel cs)

/-! ## Structures -/

/-- A member of a structure of which `σ` is what has been read so far. -/
structure Member (σ : Type) where
  name : String
  /-- Whether it has been read. -/
  met : σ → Bool
  /-- Reads it and says how to add it. -/
  scan : Scanner (σ → σ)

/-- A member with its place in what has been read. -/
def Member.of (name : String) (get : σ → Option β) (set : β → σ → σ) (scan : Scanner β) :
    Member σ where
  name := name
  met s := (get s).isSome
  scan fuel cs := do
    let (b, rest) ← scan fuel cs
    .ok (set b, rest)

/-- How a structure is put together from its members. -/
structure Layout (σ α : Type) where
  /-- What there is before any member is read. -/
  start : σ
  members : List (Member σ)
  /-- The structure, when there are no more members to read. -/
  finish : σ → Except Mismatch α

/-- A member that has to be there. -/
def present (name : String) : Option α → Except Mismatch α
  | some a => .ok a
  | none => .error (.missingField name)

namespace Layout

/-- The members of an object up to its closing brace, in any order. A name of a member may be met
once, and other members are passed over. -/
def scanMembers (l : Layout σ α) (fuel : Nat) (first : Bool) (s : σ) (cs : List Char) :
    Except Problem (Taken σ) :=
  match fuel with
  | 0 => .error (.malformed .endOfObject)
  | fuel + 1 =>
    match skipBlanks cs with
    | [] => .error (.malformed .endOfObject)
    | '\x7d' :: rest => .ok (s, rest)
    | c :: rest => do
      let cs ← (readMembers.memberStart first c rest).mapError .malformed
      let (name, cs) ← (readString fuel cs).mapError .malformed
      match l.members.find? fun m => m.name = name with
      | none =>
        let cs ← (readMembers.afterColon (skipBlanks cs)).mapError .malformed
        let cs ← (skipValue fuel cs).mapError .malformed
        l.scanMembers fuel false s cs
      | some m =>
        if m.met s then .error (.mismatch (.duplicateField name))
        else
          let cs ← (readMembers.afterColon (skipBlanks cs)).mapError .malformed
          let (add, cs) ← m.scan fuel cs
          l.scanMembers fuel false (add s) cs

/-- The members of a structure as the items of an array, which has no more than these; `n` is how
many of them are already read. -/
def scanPlaces (fuel n : Nat) (s : σ) (members : List (Member σ)) (cs : List Char) :
    Except Problem (Taken σ) :=
  match fuel with
  | 0 => .error (.malformed .endOfArray)
  | fuel + 1 =>
    match members, skipBlanks cs with
    | _, [] => .error (.malformed .endOfArray)
    | [], ']' :: rest => .ok (s, rest)
    | [], ',' :: rest =>
      .error (.malformed <|
        if (skipBlanks rest).head? = some ']' then .trailingComma else .trailingCharacters)
    | [], _ => .error (.malformed .trailingCharacters)
    | _ :: _, ']' :: _ => .error (.mismatch (.invalidLength n))
    | m :: members, c :: rest => do
      let cs ← (readItems.itemStart (n = 0) c rest).mapError .malformed
      let (add, cs) ← m.scan fuel cs
      scanPlaces fuel (n + 1) (add s) members cs

/-- A structure as an object or as an array of its members. -/
def scan (l : Layout σ α) : Scanner α := fun fuel cs =>
  match fuel, skipBlanks cs with
  | fuel + 1, '\x7b' :: rest => do
    let (s, rest) ← l.scanMembers fuel true l.start rest
    let a ← (l.finish s).mapError .mismatch
    .ok (a, rest)
  | fuel + 1, '[' :: rest => do
    let (s, rest) ← scanPlaces fuel 0 l.start l.members rest
    let a ← (l.finish s).mapError .mismatch
    .ok (a, rest)
  | fuel, _ => .error (misfit fuel cs)

end Layout

/-- The value that a whole text holds. -/
def Scanner.all (scan : Scanner α) (s : String) : Except Problem α := do
  let cs := s.toList
  let (a, rest) ← scan (2 * cs.length + 2) cs
  if (skipBlanks rest).isEmpty then .ok a else .error (.malformed .trailingCharacters)

end Json

end EmbeddingSearch
