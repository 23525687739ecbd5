import EmbeddingSearch.Text.Blank
import EmbeddingSearch.Text.Digits
import EmbeddingSearch.Time.Calendar

/-!
# Points in time

A point in time is written as a day, a time of day and an offset from Universal Time, such as
`2024-01-02T03:04:05.5+02:00`, and written back in Universal Time.

## Contents
- `Timestamp`: seconds and nanoseconds; in a leap second the nanoseconds go on past a billion.
- `Timestamp.parse`: reading. Between the parts white space is allowed, the `T` may be a blank, and
  the offset may be `Z` or `UTC`.
- `Timestamp.text`: writing, with as many groups of three decimals as are needed.
-/

namespace EmbeddingSearch

/-- A point in time. -/
structure Timestamp where
  /-- Seconds since 1 January 1970 in Universal Time. -/
  seconds : Int
  /-- Nanoseconds after that, below two billion. -/
  nanos : Nat
deriving DecidableEq, Repr

/-- Why a text is no point in time. -/
inductive TimestampError where
  | outOfRange
  | invalid
  | tooShort
  | tooLong
  /-- The day is in range as it is written, but not in Universal Time. -/
  | impossible
deriving DecidableEq, Repr

def TimestampError.message : TimestampError → String
  | .outOfRange => "input is out of range"
  | .invalid => "input contains invalid characters"
  | .tooShort => "premature end of input"
  | .tooLong => "trailing input"
  | .impossible => "no possible date and time matching input"

namespace Timestamp

open Text (Taken decimal)

def billion : Nat := 1000000000

def ofMs (ms : Nat) : Timestamp := ⟨ms / 1000, ms % 1000 * 1000000⟩

/-! ## Reading -/

def skipBlanks (cs : List Char) : List Char := cs.dropWhile Text.isBlank

/-- The longest run of digits, of at most `width` if one is given. -/
def takeDigits (width : Option Nat) (cs : List Char) :
    Except TimestampError (Taken (List Char)) :=
  let all := cs.takeWhile Char.isDigit
  let ds := match width with
    | some w => all.take w
    | none => all
  if ds.isEmpty then .error (if cs.isEmpty then .tooShort else .invalid)
  else .ok (ds, cs.drop ds.length)

/-- A number of at most `width` digits within bounds, after white space. -/
def takeNumber (width low high : Nat) (cs : List Char) : Except TimestampError (Taken Nat) := do
  let (ds, rest) ← takeDigits (some width) (skipBlanks cs)
  let n := decimal ds
  if low ≤ n && n ≤ high then .ok (n, rest) else .error .outOfRange

/-- A year: four digits at most, or any number of them after a sign. It has to fit 32 bits. -/
def takeYear (cs : List Char) : Except TimestampError (Taken Int) := do
  let (sign, width, cs) : Int × Option Nat × List Char := match skipBlanks cs with
    | '-' :: rest => (-1, none, rest)
    | '+' :: rest => (1, none, rest)
    | cs => (1, some 4, cs)
  let (ds, rest) ← takeDigits width cs
  let year := sign * decimal ds
  if -2147483648 ≤ year && year ≤ 2147483647 then .ok (year, rest) else .error .outOfRange

/-- A separator after white space. -/
def takeMark (mark : Char) (cs : List Char) : Except TimestampError (List Char) :=
  match skipBlanks cs with
  | [] => .error .tooShort
  | c :: rest => if c = mark then .ok rest else .error .invalid

/-- The decimals of the seconds, as nanoseconds; those past the ninth are dropped. -/
def takeFraction (cs : List Char) : Except TimestampError (Taken Nat) := do
  match cs with
  | '.' :: rest =>
    let (ds, rest) ← takeDigits (some 9) rest
    .ok (decimal ds * Nat.pow 10 (9 - ds.length), rest.dropWhile Char.isDigit)
  | _ => .ok (0, cs)

/-- Two digits, the first of them at most `tens`. -/
def takePair (tens : Char) (cs : List Char) : Except TimestampError (Taken Nat) :=
  match cs with
  | a :: b :: rest =>
    if a.isDigit && b.isDigit then
      if a ≤ tens then .ok (decimal [a, b], rest) else .error .outOfRange
    else .error .invalid
  -- a character of several bytes is as long as two digits
  | [c] => .error (if c.utf8Size < 2 then .tooShort else .invalid)
  | [] => .error .tooShort

/-- The offset from Universal Time in seconds. -/
def takeOffset (cs : List Char) : Except TimestampError (Taken Int) := do
  match cs with
  | [] => throw .tooShort
  | c :: rest =>
    if (cs.take 3).map Char.toUpper = ['U', 'T', 'C'] then return (0, cs.drop 3)
    if c = 'Z' || c = 'z' then return (0, rest)
    unless c = '+' || c = '-' || c = '−' do throw .invalid
    let (hours, rest) ← takePair '9' rest
    let rest := rest.dropWhile fun c => c = ':' || Text.isBlank c
    let (minutes, rest) ← takePair '5' rest
    let offset : Int := hours * 3600 + minutes * 60
    return (if c = '+' then offset else -offset, rest)

/-- The first and the last day that a point in time may be in. -/
def firstDay : Calendar.Day := ⟨-262143, 1, 1⟩
def lastDay : Calendar.Day := ⟨262142, 12, 31⟩

/-- Whether a day is one of the calendar and in range. -/
def isInRange (date : Calendar.Day) : Bool :=
  date.isValid && firstDay.year ≤ date.year && date.year ≤ lastDay.year

/-- The point in time at so many seconds of a day, in local time with an offset. -/
def ofLocal (date : Calendar.Day) (second : Int) (nanos : Nat) (offset : Int) :
    Except TimestampError Timestamp :=
  let seconds := Calendar.dayNumber date * 86400 + second - offset
  let day := Int.fdiv seconds 86400
  if !isInRange date || offset.natAbs ≥ 86400 then .error .outOfRange
  else if day < Calendar.dayNumber firstDay || Calendar.dayNumber lastDay < day then
    .error .impossible
  else .ok ⟨seconds, nanos⟩

/-- The point in time that a text stands for. -/
def parse (s : String) : Except TimestampError Timestamp := do
  let (year, cs) ← takeYear s.toList
  let cs ← takeMark '-' cs
  let (month, cs) ← takeNumber 2 1 12 cs
  let cs ← takeMark '-' cs
  let (day, cs) ← takeNumber 2 1 31 cs
  let cs ← match cs with
    | [] => throw .tooShort
    | c :: rest => if c = 'T' || c = 't' || c = ' ' then pure rest else throw .invalid
  let (hour, cs) ← takeNumber 2 0 23 cs
  let cs ← takeMark ':' cs
  let (minute, cs) ← takeNumber 2 0 59 cs
  let cs ← takeMark ':' cs
  let (second, cs) ← takeNumber 2 0 60 cs
  let (nanos, cs) ← takeFraction cs
  let (offset, cs) ← takeOffset (skipBlanks cs)
  unless (skipBlanks cs).isEmpty do throw .tooLong
  -- a leap second is the last second of its minute, going on for longer
  let (second, nanos) := if second = 60 then (59, nanos + billion) else (second, nanos)
  ofLocal ⟨year, month, day⟩ (hour * 3600 + minute * 60 + second) nanos offset

/-! ## Writing -/

/-- A number with leading zeros up to a width. -/
def padded (width n : Nat) : String :=
  let ds := Nat.toDigits 10 n
  String.ofList (List.replicate (width - ds.length) '0' ++ ds)

def yearText (year : Int) : String :=
  if 0 ≤ year && year ≤ 9999 then padded 4 year.toNat
  else (if year < 0 then "-" else "+") ++ padded 4 year.natAbs

/-- The decimals of the seconds in groups of three; none for a whole second. -/
def fractionText (nanos : Nat) : String :=
  if nanos = 0 then ""
  else if nanos % 1000000 = 0 then "." ++ padded 3 (nanos / 1000000)
  else if nanos % 1000 = 0 then "." ++ padded 6 (nanos / 1000)
  else "." ++ padded 9 nanos

/-- The text in Universal Time. -/
def text (t : Timestamp) : String :=
  let days := Int.fdiv t.seconds 86400
  let time := (t.seconds - days * 86400).toNat
  let d := Calendar.ofDayNumber days
  let leap := t.nanos ≥ billion
  let second := time % 60 + if leap then 1 else 0
  let nanos := if leap then t.nanos - billion else t.nanos
  yearText d.year ++ "-" ++ padded 2 d.month ++ "-" ++ padded 2 d.day ++ "T" ++
    padded 2 (time / 3600) ++ ":" ++ padded 2 (time / 60 % 60) ++ ":" ++ padded 2 second ++
    fractionText nanos ++ "Z"

end Timestamp

end EmbeddingSearch
