/-!
# Digits

The numbers that digits stand for, in the notations that use them.

## Contents
- `Text.Taken`: what is read off the front of a text, with the rest of it.
- `Text.hexValue?`, `Text.isHexDigit`, `Text.digitValue`: the values of single digits.
- `Text.number`, `Text.decimal`: the numbers that several of them stand for.
-/

namespace EmbeddingSearch

namespace Text

/-- What is read off the front of a text, and the rest of the text. -/
abbrev Taken (α : Type) := α × List Char

/-- The value of a hexadecimal digit; letters may be in either case. -/
def hexValue? (c : Char) : Option Nat :=
  if c.isDigit then some (c.toNat - '0'.toNat)
  else if 'a' ≤ c && c ≤ 'f' then some (c.toNat - 'a'.toNat + 10)
  else if 'A' ≤ c && c ≤ 'F' then some (c.toNat - 'A'.toNat + 10)
  else none

def isHexDigit (c : Char) : Bool := (hexValue? c).isSome

/-- The value of a digit, and zero for anything else. -/
def digitValue (c : Char) : Nat := (hexValue? c).getD 0

/-- The number that digits stand for in a base. -/
def number (base : Nat) (ds : List Char) : Nat :=
  ds.foldl (fun n c => n * base + digitValue c) 0

def decimal (ds : List Char) : Nat := number 10 ds

end Text

end EmbeddingSearch
