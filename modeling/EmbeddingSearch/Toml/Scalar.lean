import EmbeddingSearch.Text.Digits
import EmbeddingSearch.Time.Calendar
import EmbeddingSearch.Toml.Basic

/-!
# Unquoted values

Numbers, truth values and moments in time.

## Contents
- `joinDigits?`: digits with single underscores between them.
- `integer?`, `radix?`, `float?`: numbers.
- `date?`, `time?`, `offset?`, `isMoment`: dates and times.
- `scalar?`: the value of words.
-/

namespace EmbeddingSearch

namespace Toml

open Text (decimal isHexDigit number)

/-! ## Digits -/

/-- The characters without underscores, if each of these stands between digits; `afterDigit` says
whether a digit comes before the first character. -/
def joinDigits? (isDigit : Char → Bool) (afterDigit : Bool) : List Char → Option (List Char)
  | [] => some []
  | '_' :: c :: rest =>
    if afterDigit && isDigit c then (c :: ·) <$> joinDigits? isDigit true rest else none
  | c :: rest => if c = '_' then none else (c :: ·) <$> joinDigits? isDigit (isDigit c) rest

/-- Whether the first digit is not a zero in front of others. -/
def noLeadingZero (ds : List Char) : Bool := ds.length = 1 || ds.head? ≠ some '0'

/-- The sign in front of a number. -/
def signed (cs : List Char) : Bool × List Char :=
  match cs with
  | '-' :: rest => (true, rest)
  | '+' :: rest => (false, rest)
  | _ => (false, cs)

/-! ## Numbers -/

/-- The largest integer that is held: that of 128 bits without a sign. -/
def maxInteger : Nat := 340282366920938463463374607431768211455

/-- An integer. A negative one is held if it fits 128 bits with its sign. -/
def Value.ofInt (n : Int) : Value :=
  if n ≤ maxInteger && -2 * n ≤ maxInteger + 1 then .integer n else .unreadable

/-- The integer that digits in a base stand for. -/
def Value.ofDigits (base : Nat) (isDigit : Char → Bool) (negative : Bool) (ds : List Char) :
    Value :=
  if ds.isEmpty || !ds.all isDigit then .unreadable
  else .ofInt (if negative then -(number base ds : Int) else number base ds)

/-- Whether a character after digits makes them something else than an integer: a point or an
exponent, or the blank in front of a time of day. -/
def isFloatMark (c : Char) : Bool := c = '.' || c = 'e' || c = 'E' || c = ' '

/-- An integer in decimal notation. Whatever follows its first underscore looks like a part of it as
long as digits, decimal or hexadecimal, stand on both sides of every underscore. -/
def integer? (cs : List Char) : Option Value := do
  let (negative, body) := signed cs
  let rest := body.dropWhile Char.isDigit
  guard (!body.isEmpty && noLeadingZero body)
  guard (rest.isEmpty || (rest.head? = some '_' && !rest.any isFloatMark))
  let ds ← joinDigits? isHexDigit false body
  return .ofDigits 10 Char.isDigit negative ds

/-- A number in another base, after its mark. The mark alone looks like one. -/
def radix? (cs : List Char) : Option Value := do
  let (base, isDigit, body) ← match cs with
    | '0' :: 'x' :: rest => some (16, isHexDigit, rest)
    | '0' :: 'o' :: rest => some (8, fun c => '0' ≤ c && c ≤ '7', rest)
    | '0' :: 'b' :: rest => some (2, fun c => c = '0' || c = '1', rest)
    | _ => none
  let ds ← joinDigits? isDigit false body
  guard (ds.all isDigit)
  return .ofDigits base isDigit false ds

/-- A number with a fraction or an exponent, or one of the words for what is no finite number. -/
def float? (cs : List Char) : Option Value := do
  let (negative, cs) := signed cs
  let sign : Float → Value := fun x => .float (if negative then -x else x)
  if cs = ['i', 'n', 'f'] then return sign (1.0 / 0.0)
  if cs = ['n', 'a', 'n'] then return sign (0.0 / 0.0)
  let cs ← joinDigits? Char.isDigit false cs
  let isPower := fun c => c = 'e' || c = 'E'
  let mantissa := cs.takeWhile fun c => !isPower c
  let whole := mantissa.takeWhile (· ≠ '.')
  guard (isDigits whole && noLeadingZero whole && whole.length < cs.length)
  let fraction ← match mantissa.dropWhile (· ≠ '.') with
    | [] => some []
    | _ :: ds => if isDigits ds then some ds else none
  let (down, power) ← match cs.dropWhile fun c => !isPower c with
    | [] => some (false, 0)
    | _ :: rest =>
      let (down, ds) := signed rest
      if isDigits ds then some (down, decimal ds) else none
  let exponent : Int := (if down then -(power : Int) else power) - fraction.length
  let x := Float.ofScientific (decimal (whole ++ fraction)) (exponent < 0) exponent.natAbs
  return if x.isInf then .unreadable else sign x
where
  isDigits (ds : List Char) : Bool := !ds.isEmpty && ds.all Char.isDigit

/-! ## Dates and times -/

/-- So many digits at the front of a text, as a number within bounds. -/
def fixed? (count low high : Nat) (cs : List Char) : Option (Nat × List Char) :=
  let ds := cs.take count
  let n := decimal ds
  if ds.length = count && ds.all Char.isDigit && low ≤ n && n ≤ high then some (n, cs.drop count)
  else none

def mark? (c : Char) : List Char → Option (List Char)
  | d :: rest => if d = c then some rest else none
  | [] => none

def date? (cs : List Char) : Option (List Char) := do
  let (year, cs) ← fixed? 4 0 9999 cs
  let cs ← mark? '-' cs
  let (month, cs) ← fixed? 2 1 12 cs
  let cs ← mark? '-' cs
  let (day, cs) ← fixed? 2 1 31 cs
  guard (Calendar.Day.isValid ⟨year, month, day⟩)
  return cs

/-- A time of day; the seconds may be left out. -/
def time? (cs : List Char) : Option (List Char) := do
  let (_, cs) ← fixed? 2 0 23 cs
  let cs ← mark? ':' cs
  let (_, cs) ← fixed? 2 0 59 cs
  match cs with
  | ':' :: rest =>
    let (_, cs) ← fixed? 2 0 60 rest
    match cs with
    | '.' :: rest =>
      guard ((rest.head?.map Char.isDigit).getD false)
      return rest.dropWhile Char.isDigit
    | _ => return cs
  | _ => return cs

/-- An offset from Universal Time, or nothing. -/
def offset? (cs : List Char) : Option (List Char) := do
  match cs with
  | [] => return []
  | c :: rest =>
    if c = 'Z' || c = 'z' then return rest
    guard (c = '+' || c = '-')
    let (_, cs) ← fixed? 2 0 23 rest
    let cs ← mark? ':' cs
    let (_, cs) ← fixed? 2 0 59 cs
    return cs

/-- Whether a word is a date, a time of day, or a date with a time. -/
def isMoment (cs : List Char) : Bool :=
  match date? cs with
  | some [] => true
  | some (c :: rest) =>
    (c = 'T' || c = 't' || c = ' ') && (time? rest).bind offset? = some []
  | none => time? cs = some []

/-! ## Words -/

/-- The value of a word. -/
def scalar? (cs : List Char) : Option Value :=
  if cs = ['t', 'r', 'u', 'e'] then some (.boolean true)
  else if cs = ['f', 'a', 'l', 's', 'e'] then some (.boolean false)
  else if isMoment cs then some (.moment (String.ofList cs))
  else integer? cs <|> radix? cs <|> float? cs

end Toml

end EmbeddingSearch
