import EmbeddingSearch.Numeric.Binary

/-!
# Cosine similarity

Vector arithmetic in binary32, left to right, one rounding for each operation. Every function is
total: vectors of different length, empty ones and those without a direction are similar to nothing.

## Contents
- `sum`, `dot`, `magnitude`: the sums that the similarity is made of.
- `cosineWith`: the similarity of two vectors whose magnitudes are known.
- `cosine`: the similarity of two vectors.
-/

namespace EmbeddingSearch

/-- A dense vector. -/
abbrev Embedding := List Float32

/-- The sum from left to right. Nothing adds up to `-0`. -/
def sum (xs : List Float32) : Float32 := xs.foldl (· + ·) negZero

/-- The dot product over the common prefix. -/
def dot (a b : Embedding) : Float32 := sum (List.zipWith (· * ·) a b)

/-- The Euclidean length of a vector. -/
def magnitude (v : Embedding) : Float32 := (sum (v.map fun x => x * x)).sqrt

/-- The cosine of the angle between two vectors, given their magnitudes. It is zero where the
quotient has no meaning: lengths differ, a vector is empty, a magnitude is zero, or the quotient
is not a finite number. -/
def cosineWith (a : Embedding) (magA : Float32) (b : Embedding) (magB : Float32) : Float32 :=
  if a.length ≠ b.length || a.isEmpty || magA == 0 || magB == 0 then 0
  else
    let similarity := dot a b / (magA * magB)
    if similarity.isFinite then similarity else 0

/-- The cosine of the angle between two vectors. -/
def cosine (a b : Embedding) : Float32 :=
  if a.length ≠ b.length || a.isEmpty then 0 else cosineWith a (magnitude a) b (magnitude b)

end EmbeddingSearch
