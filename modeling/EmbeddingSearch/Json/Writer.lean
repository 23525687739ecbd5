import EmbeddingSearch.Json.Basic
import EmbeddingSearch.Numeric.Decimal

/-!
# Compact JSON text

The text of a value without any blank: members in the order they are held, strings with the fewest
escapes, integers in decimal and other numbers in the shortest form that reads back.

## Contents
- `Json.floatText`: the number format, set by `FloatStyle`.
- `Json.quoted`: the text of a string.
- `Json.text`: the text of a value.
-/

namespace EmbeddingSearch

namespace Json

/-! ## Numbers -/

/-- How a non-integer number is written. -/
structure FloatStyle where
  /-- The least power of ten of the first digit that is written without an exponent. -/
  plainFrom : Int
  /-- The first power of ten from which an exponent is written. -/
  plainBelow : Int

/-- Numbers from `0.00001` up to sixteen digits before the point are written in full. -/
def numberStyle : FloatStyle := ⟨-5, 16⟩

/-- Digits with a decimal point such that the first digit stands for `10 ^ power`. A point always
has a digit on both sides. -/
def plainDigits (digits : List Char) (power : Int) : List Char :=
  match power with
  | .negSucc n => '0' :: '.' :: (List.replicate n '0' ++ digits)
  | .ofNat n =>
    if digits.length ≤ n + 1 then
      digits ++ List.replicate (n + 1 - digits.length) '0' ++ ['.', '0']
    else digits.take (n + 1) ++ '.' :: digits.drop (n + 1)

/-- One digit before the point, the others after it, and the exponent with its sign. -/
def scientificDigits (digits : List Char) (power : Int) : List Char :=
  let fraction := match digits.drop 1 with
    | [] => []
    | rest => '.' :: rest
  let sign := if power < 0 then '-' else '+'
  digits.take 1 ++ fraction ++ 'e' :: sign :: Nat.toDigits 10 power.natAbs

/-- The text of a finite number; it always shows a point or an exponent. -/
def floatText (style : FloatStyle) (x : Float) : String :=
  match Decimal.shortest x with
  | none => "null"
  | some (negative, d) =>
    let digits := Nat.toDigits 10 d.digits
    let power := d.exponent + digits.length - 1
    let body :=
      if style.plainFrom ≤ power && power < style.plainBelow then plainDigits digits power
      else scientificDigits digits power
    String.ofList (if negative then '-' :: body else body)

def Number.text : Number → String
  | .integer n => toString n
  | .float x => floatText numberStyle x

/-! ## Strings -/

/-- The text that stands for a character inside quotes. Only the quote, the backslash and control
characters below the blank are escaped. -/
def escaped (c : Char) : List Char :=
  match c with
  | '"' => ['\\', '"']
  | '\\' => ['\\', '\\']
  | '\x08' => ['\\', 'b']
  | '\t' => ['\\', 't']
  | '\n' => ['\\', 'n']
  | '\x0c' => ['\\', 'f']
  | '\r' => ['\\', 'r']
  | _ =>
    if c.toNat < 32 then
      ['\\', 'u', '0', '0', Nat.digitChar (c.toNat / 16), Nat.digitChar (c.toNat % 16)]
    else [c]

def quoted (s : String) : String :=
  String.ofList ('"' :: (s.toList.flatMap escaped ++ ['"']))

/-! ## Values -/

mutual

/-- The compact text of a value. -/
def text : Json → String
  | .null => "null"
  | .bool b => if b then "true" else "false"
  | .number n => n.text
  | .string s => quoted s
  | .array items => "[" ++ String.intercalate "," (itemTexts items) ++ "]"
  | .object members => "\x7b" ++ String.intercalate "," (memberTexts members) ++ "\x7d"

def itemTexts : List Json → List String
  | [] => []
  | v :: vs => text v :: itemTexts vs

def memberTexts : List (String × Json) → List String
  | [] => []
  | (k, v) :: ms => (quoted k ++ ":" ++ text v) :: memberTexts ms

end

end Json

end EmbeddingSearch
