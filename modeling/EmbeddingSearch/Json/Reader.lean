import EmbeddingSearch.Json.Basic
import EmbeddingSearch.Json.SyntaxError
import EmbeddingSearch.Numeric.Decimal
import EmbeddingSearch.Text.Digits

/-!
# Reading JSON text

`Json.parse` reads a whole text as one value, with nothing but blanks around it. Members of an
object come out as they are written, repeated names included; `Json.ordered` makes a map of them.

## Contents
- Numbers: `readNumber`. Without fraction and exponent a number that fits 64 bits is an integer;
  `-0` and larger ones are binary64 numbers.
- Strings: `readString`, after the opening quote.
- Values: `readValue`, nested at most `maxNesting` deep.
-/

namespace EmbeddingSearch

namespace Json

open Text (Taken decimal digitValue hexValue?)

def isBlank (c : Char) : Bool := c = ' ' || c = '\n' || c = '\t' || c = '\r'

def skipBlanks (cs : List Char) : List Char := cs.dropWhile isBlank

/-! ## Numbers -/

/-- The largest significand that is kept; further digits only count as powers of ten. -/
def maxSignificand : Nat := 18446744073709551615

/-- A significand extended by digits as long as it fits, and how many of the digits fit. -/
def extend (significand : Nat) : List Char → Nat × Nat
  | [] => (significand, 0)
  | c :: cs =>
    let next := significand * 10 + digitValue c
    if next > maxSignificand then (significand, 0)
    else
      let (s, n) := extend next cs
      (s, n + 1)

/-- The largest exponent that is taken at its value. -/
def maxExponent : Nat := 2147483647

/-- The number of a sign, a significand and a power of ten. -/
def scaled (negative : Bool) (significand : Nat) (exponent : Int) : Except SyntaxError Number :=
  match Decimal.scale ⟨significand, exponent⟩ with
  | some x => .ok (.float (if negative then -x else x))
  | none => .error .numberOutOfRange

/-- The exponent part after its `e`. -/
def readExponent (negative : Bool) (significand : Nat) (start : Int) (cs : List Char) :
    Except SyntaxError (Taken Number) := do
  let (down, cs) := match cs with
    | '+' :: rest => (false, rest)
    | '-' :: rest => (true, rest)
    | _ => (false, cs)
  match cs with
  | [] => throw .endOfValue
  | c :: _ => unless c.isDigit do throw .invalidNumber
  let digits := cs.takeWhile Char.isDigit
  let rest := cs.dropWhile Char.isDigit
  let exponent := decimal digits
  if exponent > maxExponent then
    if significand ≠ 0 && !down then throw .numberOutOfRange
    pure (.float (if negative then -0 else 0), rest)
  else
    let shift : Int := if down then -exponent else exponent
    pure (← scaled negative significand (start + shift), rest)

/-- What may follow the digits of a number: an exponent or nothing. -/
def readTail (negative : Bool) (significand : Nat) (start : Int) (cs : List Char) :
    Except SyntaxError (Taken Number) := do
  match cs with
  | 'e' :: rest => readExponent negative significand start rest
  | 'E' :: rest => readExponent negative significand start rest
  | _ => pure (← scaled negative significand start, cs)

/-- The fraction after its point. -/
def readFraction (negative : Bool) (significand : Nat) (start : Int) (cs : List Char) :
    Except SyntaxError (Taken Number) := do
  let digits := cs.takeWhile Char.isDigit
  let rest := cs.dropWhile Char.isDigit
  if digits.isEmpty then
    throw (if rest.isEmpty then .endOfValue else .invalidNumber)
  let (significand, used) := extend significand digits
  readTail negative significand (start - used) rest

/-- An integer as written: `-0` and what does not fit 64 bits are binary64 numbers. -/
def integer (negative : Bool) (n : Nat) : Number :=
  if negative then
    if n = 0 || n > Nat.pow 2 63 then .float (-(Float.ofNat n)) else .integer (-n)
  else .integer n

/-- The part of a number after its sign. -/
def readUnsigned (negative : Bool) (cs : List Char) : Except SyntaxError (Taken Number) := do
  match cs with
  | [] => throw .endOfValue
  | c :: _ =>
    unless c.isDigit do throw .invalidNumber
    let digits := cs.takeWhile Char.isDigit
    let rest := cs.dropWhile Char.isDigit
    if c = '0' && digits.length > 1 then throw .invalidNumber
    let (significand, used) := extend 0 digits
    let dropped := digits.length - used
    match rest with
    | '.' :: rest => readFraction negative significand dropped rest
    | 'e' :: _ => readTail negative significand dropped rest
    | 'E' :: _ => readTail negative significand dropped rest
    | _ =>
      if dropped = 0 then pure (integer negative significand, rest)
      else readTail negative significand dropped rest

def readNumber (cs : List Char) : Except SyntaxError (Taken Number) :=
  match cs with
  | '-' :: rest => readUnsigned true rest
  | _ => readUnsigned false cs

/-! ## Strings -/

/-- Four hexadecimal digits. -/
def readHex4 (cs : List Char) : Except SyntaxError (Taken Nat) :=
  match (cs.take 4).mapM hexValue? with
  | some [a, b, c, d] => .ok (((a * 16 + b) * 16 + c) * 16 + d, cs.drop 4)
  | _ =>
    .error (if (String.ofList (cs.take 4)).utf8ByteSize < 4 then .endOfString else .invalidEscape)

/-- The character of a `\u` escape after its `u`. Two escapes that form a surrogate pair stand for
one character; a surrogate that is not part of a pair stands for none. -/
def readUnicodeEscape (cs : List Char) : Except SyntaxError (Taken Char) := do
  let (unit, rest) ← readHex4 cs
  if 0xDC00 ≤ unit && unit ≤ 0xDFFF then throw .loneSurrogate
  if unit < 0xD800 || 0xDBFF < unit then return (Char.ofNat unit, rest)
  match rest with
  | [] => throw .endOfString
  | ['\\'] => throw .endOfString
  | '\\' :: 'u' :: rest =>
    let (second, rest) ← readHex4 rest
    if second < 0xDC00 || 0xDFFF < second then throw .loneSurrogate
    return (Char.ofNat (0x10000 + (unit - 0xD800) * 0x400 + (second - 0xDC00)), rest)
  | _ => throw .unfinishedSurrogatePair

/-- The character of an escape after its backslash. -/
def readEscape (cs : List Char) : Except SyntaxError (Taken Char) :=
  match cs with
  | [] => .error .endOfString
  | '"' :: rest => .ok ('"', rest)
  | '\\' :: rest => .ok ('\\', rest)
  | '/' :: rest => .ok ('/', rest)
  | 'b' :: rest => .ok ('\x08', rest)
  | 'f' :: rest => .ok ('\x0c', rest)
  | 'n' :: rest => .ok ('\n', rest)
  | 'r' :: rest => .ok ('\r', rest)
  | 't' :: rest => .ok ('\t', rest)
  | 'u' :: rest => readUnicodeEscape rest
  | _ => .error .invalidEscape

/-- The characters of a string after its opening quote, in front of which stand those of `done` in
reverse. Every step takes a character off the text, so `fuel` may be its length. -/
def readChars (fuel : Nat) (done : List Char) (cs : List Char) :
    Except SyntaxError (Taken String) :=
  match fuel, cs with
  | _, [] => .error .endOfString
  | 0, _ => .error .endOfString
  | fuel + 1, c :: rest =>
    if c = '"' then .ok (String.ofList done.reverse, rest)
    else if c = '\\' then do
      let (d, rest) ← readEscape rest
      readChars fuel (d :: done) rest
    else if c.toNat < 32 then .error .controlCharacter
    else readChars fuel (c :: done) rest

/-- The string whose opening quote is already read. -/
def readString (fuel : Nat) (cs : List Char) : Except SyntaxError (Taken String) :=
  readChars fuel [] cs

/-! ## Values -/

/-- How deep arrays and objects may be nested. -/
def maxNesting : Nat := 127

/-- One of the words `null`, `true` and `false`, of which the first letter is already read. -/
def readWord (word : List Char) (v : Json) (cs : List Char) : Except SyntaxError (Taken Json) :=
  match word, cs with
  | [], _ => .ok (v, cs)
  | _ :: _, [] => .error .endOfValue
  | w :: word, c :: rest => if c = w then readWord word v rest else .error .expectedIdent

mutual

/-- A value, with `room` for so many further levels of nesting. Between two calls at least one
character is taken off the text, so `fuel` may be twice its length, and what is left of it is always
enough for a string. -/
def readValue (fuel room : Nat) (cs : List Char) : Except SyntaxError (Taken Json) :=
  match fuel with
  | 0 => .error .endOfValue
  | fuel + 1 =>
    let cs := skipBlanks cs
    match cs with
    | [] => .error .endOfValue
    | c :: rest =>
      if c = 'n' then readWord ['u', 'l', 'l'] .null rest
      else if c = 't' then readWord ['r', 'u', 'e'] (.bool true) rest
      else if c = 'f' then readWord ['a', 'l', 's', 'e'] (.bool false) rest
      else if c = '-' || c.isDigit then do
        let (n, rest) ← readNumber cs
        .ok (.number n, rest)
      else if c = '"' then do
        let (s, rest) ← readString fuel rest
        .ok (.string s, rest)
      else if c = '[' then
        match room with
        | 0 => .error .tooDeep
        | room + 1 => do
          let (items, rest) ← readItems fuel room true rest
          .ok (.array items, rest)
      else if c = '\x7b' then
        match room with
        | 0 => .error .tooDeep
        | room + 1 => do
          let (members, rest) ← readMembers fuel room true rest
          .ok (.object members, rest)
      else .error .expectedValue

/-- The items of an array up to its closing bracket. -/
def readItems (fuel room : Nat) (first : Bool) (cs : List Char) :
    Except SyntaxError (Taken (List Json)) :=
  match fuel with
  | 0 => .error .endOfArray
  | fuel + 1 =>
    match skipBlanks cs with
    | [] => .error .endOfArray
    | ']' :: rest => .ok ([], rest)
    | c :: rest => do
      let cs ← itemStart first c rest
      let (v, cs) ← readValue fuel room cs
      let (vs, cs) ← readItems fuel room false cs
      .ok (v :: vs, cs)
where
  /-- Where the next item starts: after the comma, except for the first one. -/
  itemStart (first : Bool) (c : Char) (rest : List Char) : Except SyntaxError (List Char) :=
    if first then .ok (c :: rest)
    else if c = ',' then
      match skipBlanks rest with
      | [] => .error .endOfValue
      | ']' :: _ => .error .trailingComma
      | rest => .ok rest
    else .error .expectedItemEnd

/-- The members of an object up to its closing brace. -/
def readMembers (fuel room : Nat) (first : Bool) (cs : List Char) :
    Except SyntaxError (Taken (List (String × Json))) :=
  match fuel with
  | 0 => .error .endOfObject
  | fuel + 1 =>
    match skipBlanks cs with
    | [] => .error .endOfObject
    | '\x7d' :: rest => .ok ([], rest)
    | c :: rest => do
      let cs ← memberStart first c rest
      let (name, cs) ← readString fuel cs
      let cs ← afterColon (skipBlanks cs)
      let (v, cs) ← readValue fuel room cs
      let (ms, cs) ← readMembers fuel room false cs
      .ok ((name, v) :: ms, cs)
where
  /-- Where the name of the next member starts: after its opening quote. -/
  memberStart (first : Bool) (c : Char) (rest : List Char) : Except SyntaxError (List Char) :=
    if first then
      if c = '"' then .ok rest else .error .keyNotString
    else if c = ',' then
      match skipBlanks rest with
      | [] => .error .endOfValue
      | '"' :: rest => .ok rest
      | '\x7d' :: _ => .error .trailingComma
      | _ => .error .keyNotString
    else .error .expectedMemberEnd
  afterColon : List Char → Except SyntaxError (List Char)
    | [] => .error .endOfObject
    | ':' :: rest => .ok rest
    | _ => .error .expectedColon

end

/-- The value that a whole text stands for, members of objects as they are written. -/
def parseRaw (s : String) : Except SyntaxError Json := do
  let cs := s.toList
  let (v, rest) ← readValue (2 * cs.length + 2) maxNesting cs
  if (skipBlanks rest).isEmpty then .ok v else .error .trailingCharacters

/-- The value that a whole text stands for. -/
def parse (s : String) : Except SyntaxError Json := ordered <$> parseRaw s

end Json

end EmbeddingSearch
