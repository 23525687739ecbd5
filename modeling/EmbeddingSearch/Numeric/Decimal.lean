/-!
# Decimal text of binary64 numbers

The two directions between a binary64 number and a decimal significand with a power of ten.

## Contents
- `Decimal.scale`: the number that a significand and a decimal exponent stand for, computed in
  binary64: one rounding for the significand and one for the multiplication or division.
- `Decimal.shortest`: the fewest digits that determine a finite number, and of those the nearest.
-/

namespace EmbeddingSearch

/-- The number `digits · 10 ^ exponent`. -/
structure Decimal where
  digits : Nat
  exponent : Int
deriving DecidableEq, Repr

namespace Decimal

/-! ## From decimal to binary64 -/

/-- The binary64 number nearest to `10 ^ n`. -/
def powerOfTen (n : Nat) : Float := Float.ofScientific 1 false n

/-- The largest power of ten that binary64 holds. -/
def maxPower : Nat := 308

/-- `x / 10 ^ n`. Past the largest power the quotient is taken in two steps, and past its double
nothing is left of a significand that fits 64 bits. -/
def divide (x : Float) (n : Nat) : Float :=
  if n ≤ maxPower then x / powerOfTen n
  else if n ≤ 2 * maxPower then x / powerOfTen maxPower / powerOfTen (n - maxPower)
  else 0

/-- The binary64 value of a decimal, or `none` when it is too large. -/
def scale (d : Decimal) : Option Float :=
  let x := Float.ofNat d.digits
  match d.exponent with
  | .negSucc n => some (divide x (n + 1))
  | .ofNat n =>
    if n ≤ maxPower then
      let y := x * powerOfTen n
      if y.isInf then none else some y
    else if d.digits = 0 then some 0 else none

/-! ## From binary64 to decimal -/

/-- The rounding interval of a positive number, as numerators over one denominator: every real
strictly between `low` and `high` is read back as `value`, and so are both ends if `closed`. -/
structure Interval where
  low : Nat
  value : Nat
  high : Nat
  den : Nat
  closed : Bool
deriving Repr

/-- The interval of `mantissa · 2 ^ exponent`. Below a power of two the neighbour is only half as
far away as above it. -/
def Interval.of (mantissa : Nat) (exponent : Int) (belowIsCloser : Bool) : Interval :=
  let e := exponent - 2
  let up := Nat.pow 2 e.toNat
  { low := (4 * mantissa - if belowIsCloser then 1 else 2) * up
    value := 4 * mantissa * up
    high := (4 * mantissa + 2) * up
    den := Nat.pow 2 (-e).toNat
    closed := mantissa % 2 = 0 }

/-- Whether the fraction `num / den` lies in the interval. -/
def Interval.contains (i : Interval) (num den : Nat) : Bool :=
  let x := num * i.den
  if i.closed then i.low * den ≤ x && x ≤ i.high * den
  else i.low * den < x && x < i.high * den

/-- The number of decimal digits before the point of `num / den`, zero or negative below one. -/
def digitsBeforePoint (num den : Nat) : Int :=
  if num ≥ den then ((Nat.toDigits 10 (num / den)).length : Int)
  else
    -- below one: the first power of ten that lifts the fraction to one or more
    let guess := (Nat.toDigits 10 (den / num)).length
    if num * Nat.pow 10 (guess - 1) ≥ den then 2 - (guess : Int) else 1 - (guess : Int)

/-- The candidate with digits down to the place `10 ^ place`: of the two neighbours on that grid
those inside the interval, the nearer first and the even one on a tie. -/
def Interval.onGrid (i : Interval) (place : Int) : Option Decimal :=
  let unit := Nat.pow 10 place.toNat
  let den := Nat.pow 10 (-place).toNat
  let scaled := i.value * den
  let step := i.den * unit
  let down := scaled / step
  let above := 2 * (scaled % step)
  let upFirst := above > step || (above = step && down % 2 = 1)
  let fits := fun n => n > 0 && i.contains (n * unit) den
  let order := if upFirst then [down + 1, down] else [down, down + 1]
  (order.find? fits).map fun n => ⟨n, place⟩

/-- Trailing zeros of the digits moved into the exponent; `steps` bounds how many. -/
def trimZeros (steps : Nat) (d : Decimal) : Decimal :=
  match steps with
  | 0 => d
  | k + 1 =>
    if d.digits ≠ 0 && d.digits % 10 = 0 then trimZeros k ⟨d.digits / 10, d.exponent + 1⟩ else d

/-- No binary64 number needs more digits than this. -/
def maxDigits : Nat := 17

/-- The shortest decimal in the interval, on the coarsest grid that has one. -/
def Interval.shortest (i : Interval) : Decimal :=
  let top := digitsBeforePoint i.value i.den
  match (List.range maxDigits).findSome? fun (n : Nat) => i.onGrid (top - 1 - (n : Int)) with
  | some d => trimZeros (maxDigits + 1) d
  | none => ⟨i.value / i.den, 0⟩

/-- The sign and the shortest decimal of a finite number; `none` for infinities and NaN. -/
def shortest (x : Float) : Option (Bool × Decimal) :=
  match x.toModel.unpack with
  | .zero sign => some (sign == .negative, ⟨0, 0⟩)
  | .finite sign m e _ =>
    some (sign == .negative, (Interval.of m e (m = Nat.pow 2 52 && e > -1074)).shortest)
  | _ => none

end Decimal

end EmbeddingSearch
