/-!
# Binary32 and binary64 values

Vectors are held in binary32; sizes, percentages and the numbers of a document in binary64. This
module converts between the two formats, one correctly rounded step at a time.

## Contents
- `narrow`: binary64 to binary32, to nearest with ties to the even neighbour; too large a value
  becomes an infinity and small ones become subnormal or zero.
- `widen`: binary32 to binary64, which is always exact.
- `negZero`: the value a left-to-right sum starts from.
-/

namespace EmbeddingSearch

open Float.Model (Format UnpackedFloat)

/-- A finite value rounded to the format `f`; zeros, infinities and NaN stay what they are. -/
def roundTo (f : Format) : UnpackedFloat → UnpackedFloat
  | .finite sign mantissa exponent _ => .round f sign mantissa exponent
  | x => x

/-- The binary32 value nearest to a binary64 value. -/
def narrow (x : Float) : Float32 := ⟨.pack (roundTo .binary32 x.toModel.unpack)⟩

/-- The binary64 value equal to a binary32 value. -/
def widen (x : Float32) : Float := ⟨.pack (roundTo .binary64 x.toModel.unpack)⟩

/-- The neutral element of binary32 addition: `-0 + x` is `x` for every `x`, also for `x = -0`. -/
def negZero : Float32 := -0

end EmbeddingSearch
