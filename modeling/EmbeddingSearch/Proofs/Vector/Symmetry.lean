import EmbeddingSearch.Proofs.Vector.Parallel

/-!
# Similarity in either order

The product of two numbers is the same in either order, down to the sign of a zero and to what is
no number, and the products are added up in the order of the places. So it does not matter which of
two vectors is the query.

## Contents
- `Numeric.sign_mul_comm`, `Numeric.unpacked_mul_comm`, `Numeric.single_mul_comm`: products.
- `dot_comm`, `cosineWith_comm`, `cosine_comm`: similarities.
-/

namespace EmbeddingSearch

/-! ## Products -/

namespace Numeric

open Float.Model (Format UnpackedFloat)

theorem sign_mul_comm (s t : Float.Model.UnpackedFloat.Sign) : s * t = t * s := by
  cases s <;> cases t <;> rfl

/-- Both significands and both exponents enter a product alike. -/
theorem unpacked_mul_comm (f : Format) (u v : UnpackedFloat) :
    UnpackedFloat.mul f u v = UnpackedFloat.mul f v u := by
  cases u with
  | notANumber => cases v <;> rfl
  | infinity s =>
    cases v with
    | notANumber => rfl
    | infinity t => exact congrArg UnpackedFloat.infinity (sign_mul_comm s t)
    | zero t => rfl
    | finite t m e hm => exact congrArg UnpackedFloat.infinity (sign_mul_comm s t)
  | zero s =>
    cases v with
    | notANumber => rfl
    | infinity t => rfl
    | zero t => exact congrArg UnpackedFloat.zero (sign_mul_comm s t)
    | finite t m e hm => exact congrArg UnpackedFloat.zero (sign_mul_comm s t)
  | finite s m e hm =>
    cases v with
    | notANumber => rfl
    | infinity t => exact congrArg UnpackedFloat.infinity (sign_mul_comm s t)
    | zero t => exact congrArg UnpackedFloat.zero (sign_mul_comm s t)
    | finite t n d hn =>
      rw [UnpackedFloat.mul, UnpackedFloat.mul, sign_mul_comm, Nat.mul_comm, Int.add_comm]

theorem single_mul_comm (x y : Float32) : x * y = y * x := by
  show Float32.ofModel (.pack (UnpackedFloat.mul .binary32 x.toModel.unpack y.toModel.unpack)) =
    Float32.ofModel (.pack (UnpackedFloat.mul .binary32 y.toModel.unpack x.toModel.unpack))
  rw [unpacked_mul_comm]

end Numeric

/-! ## Similarities -/

/-- The products are the same, place by place, and so are all sums of them. -/
theorem dot_comm (a b : Embedding) : dot a b = dot b a := by
  rw [dot, dot, List.zipWith_comm_of_comm Numeric.single_mul_comm]

theorem cosineWith_comm (a : Embedding) (magA : Float32) (b : Embedding) (magB : Float32) :
    cosineWith a magA b magB = cosineWith b magB a magA := by
  have htests : (a.length ≠ b.length || a.isEmpty || magA == 0 || magB == 0) =
      (b.length ≠ a.length || b.isEmpty || magB == 0 || magA == 0) := by
    by_cases hlength : a.length = b.length
    · have hempty : a.isEmpty = b.isEmpty := by
        rw [Bool.eq_iff_iff, List.isEmpty_iff_length_eq_zero, List.isEmpty_iff_length_eq_zero, hlength]
      rw [hlength, hempty, Bool.or_right_comm]
    · rw [decide_eq_true hlength, decide_eq_true (Ne.symm hlength)]
      rfl
  rw [cosineWith, cosineWith, htests, dot_comm a b, Numeric.single_mul_comm magA magB]

theorem cosine_comm (a b : Embedding) : cosine a b = cosine b a := by
  rw [← cosineWith_magnitude, ← cosineWith_magnitude, cosineWith_comm]

end EmbeddingSearch
