import EmbeddingSearch.Proofs.Numeric.Conversion
import EmbeddingSearch.Proofs.Numeric.SquareRoot

/-!
# The numbers that binary32 values stand for

A binary32 result that is finite was computed from finite operands, and is the exact result rounded
once: nothing that is not finite ever becomes finite again, but for the zeros that a quotient has
where only its denominator is infinite.

## Contents
- `unpack_pack_of_isFinite`: what is packed without overflow is unpacked as it was.
- `single`: the number that a value stands for.
- `isFinite_add`, `isFinite_mul`, `isFinite_div`, `isFinite_sqrt`: the operands of finite results.
- `single_add`, `single_mul`, `single_div`, `single_sqrt`: finite results are rounded once.
- `isFinite_mul_of_lt`, `isFinite_div_of_lt`: results that are not too large are finite.
- `abs_single_add_sub_le`, `single_add_of_lt`, `abs_single_mul_sub_le`: the errors of sums and products.
-/

namespace EmbeddingSearch

namespace Numeric

open Float.Model (Format UnpackedFloat)
open Float.Model.UnpackedFloat

variable {f : Format}

/-! ## Overflow -/

theorem unpack_packedInfinity (s : Sign) : unpack f (packedInfinity f s) = .infinity s := by
  simp [unpack, packedInfinity]

/-- Too large an exponent is packed as an infinity. -/
theorem pack_of_maxExponent_lt {s : Sign} {m : Nat} {e : ℤ} {hm : 0 < m} (he : maxExponent f < e) :
    pack f (.finite s m e hm) = packedInfinity f s := by
  have hbits := two_pow_exponentBits f
  have hlarge : 2 ^ f.exponentBits ≤
      (e + f.exponentBias + f.mantissaBitsWithoutImplicit).toNat + 1 := by
    unfold maxExponent at he
    omega
  simp only [pack, if_pos hlarge]

/-- A canonical value that does not become an infinity when it is packed is unpacked as it was. -/
theorem unpack_pack_of_isFinite {u : UnpackedFloat} (hu : Canonical f u)
    (h : (unpack f (pack f u)).isFinite = true) : unpack f (pack f u) = u := by
  cases u with
  | notANumber => exact unpack_packedNaN
  | infinity s => exact unpack_packedInfinity s
  | zero s => exact unpack_packedZero
  | finite s m e hm =>
    apply unpack_pack_finite hu
    by_contra he
    rw [pack_of_maxExponent_lt (not_le.mp he), unpack_packedInfinity] at h
    cases h

/-- Packing makes nothing finite. -/
theorem isFinite_of_pack {u : UnpackedFloat} (h : (unpack f (pack f u)).isFinite = true) :
    u.isFinite = true := by
  cases u with
  | notANumber =>
    rw [pack, unpack_packedNaN] at h
    exact h
  | infinity s =>
    rw [pack, unpack_packedInfinity] at h
    exact h
  | zero s => rfl
  | finite s m e hm => rfl

/-- Packing keeps NaN. -/
theorem isNaN_of_pack {u : UnpackedFloat} (h : (unpack f (pack f u)).isNaN = false) :
    u.isNaN = false := by
  cases u with
  | notANumber =>
    rw [pack, unpack_packedNaN] at h
    exact h
  | _ => rfl

/-! ## Values of binary32 -/

/-- The number that a value stands for, and zero for infinities and NaN. -/
def single (x : Float32) : ℚ := (value? x.toModel.unpack).getD 0

theorem canonical_single (x : Float32) : Canonical .binary32 x.toModel.unpack :=
  canonical_unpack _ _

theorem value?_of_isFinite {x : Float32} (hx : x.isFinite = true) :
    value? x.toModel.unpack = some (single x) := by
  obtain ⟨a, ha⟩ := isFinite_iff.mp hx
  rw [single, ha]
  rfl

theorem single_eq_zero {x : Float32} (hx : ¬ x.isFinite = true) : single x = 0 := by
  have hnone : value? x.toModel.unpack = none := by
    rw [Option.eq_none_iff_forall_ne_some]
    intro a ha
    exact hx (isFinite_iff.mpr ⟨a, ha⟩)
  rw [single, hnone]
  rfl

theorem representable_single (x : Float32) : Representable .binary32 |single x| := by
  by_cases hx : x.isFinite = true
  · exact representable_of_canonical (canonical_single x) (value?_of_isFinite hx)
  · rw [single_eq_zero hx, abs_zero]
    exact ⟨0, 0, by simp, Nat.two_pow_pos _, by decide⟩

theorem abs_single_lt (x : Float32) : |single x| < 2 ^ (128 : ℤ) := by
  by_cases hx : x.isFinite = true
  · exact abs_value_lt (value?_of_isFinite hx)
  · rw [single_eq_zero hx, abs_zero]
    exact two_zpow_pos _

section Operations

variable {x y : Float32}

/-- Operands of a finite sum are finite. -/
theorem isFinite_add (h : (x + y).isFinite = true) : x.isFinite = true ∧ y.isFinite = true := by
  have hsum := isFinite_of_pack (f := .binary32) h
  show x.toModel.unpack.isFinite = true ∧ y.toModel.unpack.isFinite = true
  generalize x.toModel.unpack = u at *
  generalize y.toModel.unpack = v at *
  cases u with
  | notANumber => cases hsum
  | infinity s =>
    cases v with
    | infinity s' => cases s <;> cases s' <;> cases hsum
    | _ => cases hsum
  | zero s => cases v <;> first | exact ⟨rfl, rfl⟩ | cases hsum
  | finite s m e hm => cases v <;> first | exact ⟨rfl, rfl⟩ | cases hsum

/-- Factors of a finite product are finite. -/
theorem isFinite_mul (h : (x * y).isFinite = true) : x.isFinite = true ∧ y.isFinite = true := by
  have hprod := isFinite_of_pack (f := .binary32) h
  show x.toModel.unpack.isFinite = true ∧ y.toModel.unpack.isFinite = true
  generalize x.toModel.unpack = u at *
  generalize y.toModel.unpack = v at *
  cases u <;> cases v <;> first | exact ⟨rfl, rfl⟩ | cases hprod

/-- A product with NaN is NaN. -/
theorem isNaN_mul (h : (x * y).isNaN = false) : x.isNaN = false ∧ y.isNaN = false := by
  have hprod := isNaN_of_pack (f := .binary32) h
  show x.toModel.unpack.isNaN = false ∧ y.toModel.unpack.isNaN = false
  generalize x.toModel.unpack = u at *
  generalize y.toModel.unpack = v at *
  cases u <;> cases v <;> first | exact ⟨rfl, rfl⟩ | cases hprod

/-- A finite quotient has a finite numerator and some denominator. -/
theorem isFinite_div (h : (x / y).isFinite = true) : x.isFinite = true ∧ y.isNaN = false := by
  have hquot := isFinite_of_pack (f := .binary32) h
  show x.toModel.unpack.isFinite = true ∧ y.toModel.unpack.isNaN = false
  generalize x.toModel.unpack = u at *
  generalize y.toModel.unpack = v at *
  cases u <;> cases v <;> first | exact ⟨rfl, rfl⟩ | cases hquot

/-- A finite root is that of a finite value that is not negative. -/
theorem isFinite_sqrt (h : x.sqrt.isFinite = true) : x.isFinite = true ∧ 0 ≤ single x := by
  have hroot := isFinite_of_pack (f := .binary32) h
  show x.toModel.unpack.isFinite = true ∧ 0 ≤ (value? x.toModel.unpack).getD 0
  generalize x.toModel.unpack = u at *
  cases u with
  | notANumber => cases hroot
  | infinity s => cases s <;> cases hroot
  | zero s => exact ⟨rfl, le_rfl⟩
  | finite s m e hm =>
    cases s with
    | negative => cases hroot
    | positive => exact ⟨rfl, significand_nonneg m e⟩

/-! ## Finite results -/

/-- A finite result is the rounded number. -/
theorem single_pack {u : UnpackedFloat} {q : ℚ} (hu : Result .binary32 q u)
    (h : Float32.isFinite ⟨.pack u⟩ = true) : single ⟨.pack u⟩ = rounded .binary32 q := by
  have hunpack : unpack .binary32 (pack .binary32 u) = u := unpack_pack_of_isFinite hu.1 h
  show (value? (unpack .binary32 (pack .binary32 u))).getD 0 = _
  rw [hunpack, hu.2, Option.getD_some]

theorem single_add (h : (x + y).isFinite = true) :
    single (x + y) = rounded .binary32 (single x + single y) := by
  obtain ⟨hx, hy⟩ := isFinite_add h
  exact single_pack (add_result (canonical_single x) (canonical_single y) (value?_of_isFinite hx)
    (value?_of_isFinite hy)) h

theorem single_mul (h : (x * y).isFinite = true) :
    single (x * y) = rounded .binary32 (single x * single y) := by
  obtain ⟨hx, hy⟩ := isFinite_mul h
  exact single_pack (mul_result (canonical_single x) (canonical_single y) (value?_of_isFinite hx)
    (value?_of_isFinite hy)) h

theorem single_div (h : (x / y).isFinite = true) (hy : y.isFinite = true) (hy0 : single y ≠ 0) :
    single (x / y) = rounded .binary32 (single x / single y) :=
  single_pack (div_result (value?_of_isFinite (isFinite_div h).1) (value?_of_isFinite hy) hy0) h

/-- A finite quotient by something that is not finite is a zero. -/
theorem single_div_of_not_isFinite (h : (x / y).isFinite = true) (hy : ¬ y.isFinite = true) :
    single (x / y) = 0 := by
  have hnum := (isFinite_div h).1
  have hquot := isFinite_of_pack (f := .binary32) h
  have hresult : Result .binary32 0 (div .binary32 x.toModel.unpack y.toModel.unpack) := by
    have hx' : x.toModel.unpack.isFinite = true := hnum
    have hy' : ¬ y.toModel.unpack.isFinite = true := hy
    generalize x.toModel.unpack = u at *
    generalize y.toModel.unpack = v at *
    cases v with
    | notANumber => cases u <;> cases hquot
    | infinity s =>
      cases u with
      | notANumber => cases hx'
      | infinity s' => cases hx'
      | zero s' => exact Result.zero
      | finite s' m e hm => exact Result.zero
    | zero s => exact absurd rfl hy'
    | finite s m e hm => exact absurd rfl hy'
  rw [← rounded_zero (f := .binary32)]
  exact single_pack hresult h

/-- A finite root is the rounding of numbers on either side of the root. -/
theorem single_sqrt (h : x.sqrt.isFinite = true) : ∃ a b : ℚ, 0 ≤ a ∧ 0 ≤ b ∧
    a ^ 2 ≤ single x ∧ single x ≤ b ^ 2 ∧ single x.sqrt = rounded .binary32 a ∧
    single x.sqrt = rounded .binary32 b := by
  obtain ⟨hx, hnonneg⟩ := isFinite_sqrt h
  obtain ⟨a, b, ha, hb, hax, hxb, hra, hrb⟩ := sqrt_result (value?_of_isFinite hx) hnonneg
  exact ⟨a, b, ha, hb, hax, hxb, single_pack hra h, single_pack hrb h⟩

/-- A rounded result that is not too large is finite. -/
theorem isFinite_pack {u : UnpackedFloat} {q : ℚ} (hu : Result .binary32 q u)
    (h : |rounded .binary32 q| < 2 ^ (128 : ℤ)) : Float32.isFinite ⟨.pack u⟩ = true := by
  have hunpack : unpack .binary32 (pack .binary32 u) = u :=
    unpack_pack_of_lt (by decide) hu.1 hu.2 h
  show (unpack .binary32 (pack .binary32 u)).isFinite = true
  rw [hunpack]
  exact isFinite_iff.mpr ⟨_, hu.2⟩

theorem isFinite_mul_of_lt (hx : x.isFinite = true) (hy : y.isFinite = true)
    (h : |rounded .binary32 (single x * single y)| < 2 ^ (128 : ℤ)) : (x * y).isFinite = true :=
  isFinite_pack (mul_result (canonical_single x) (canonical_single y) (value?_of_isFinite hx)
    (value?_of_isFinite hy)) h

theorem isFinite_div_of_lt (hx : x.isFinite = true) (hy : y.isFinite = true) (hy0 : single y ≠ 0)
    (h : |rounded .binary32 (single x / single y)| < 2 ^ (128 : ℤ)) : (x / y).isFinite = true :=
  isFinite_pack (div_result (value?_of_isFinite hx) (value?_of_isFinite hy) hy0) h

/-- The test for zero is passed by nothing else. -/
theorem beq_zero_iff (hx : x.isFinite = true) : (x == 0) = true ↔ single x = 0 := by
  have hzero : value? (0 : Float32).toModel.unpack = some 0 := rfl
  have hcompare := compare_value (canonical_single x) (canonical_single 0) (value?_of_isFinite hx)
    hzero
  show x.toModel.unpack.beq (0 : Float32).toModel.unpack = true ↔ _
  rw [UnpackedFloat.beq, hcompare, beq_iff_eq, Option.some.injEq, compare_eq_iff_eq]

/-! ## Errors -/

/-- The largest relative error in the normal range of binary32. -/
def roundoff : ℚ := unitRoundoff .binary32

/-- The largest error below the normal range of binary32. -/
def underflow : ℚ := underflowError .binary32

theorem roundoff_eq : roundoff = 1 / 2 ^ 24 := by
  show (2 : ℚ) ^ (-24 : ℤ) = _
  norm_num

theorem roundoff_pos : 0 < roundoff := unitRoundoff_pos _

theorem roundoff_lt_one : roundoff < 1 := by
  rw [roundoff_eq]
  norm_num

theorem underflow_eq : underflow = roundoff * 2 ^ (-126 : ℤ) := by
  show (2 : ℚ) ^ (-150 : ℤ) = 2 ^ (-24 : ℤ) * 2 ^ (-126 : ℤ)
  rw [← zpow_add₀ two_ne_zero]
  rfl

theorem multiple_single (x : Float32) : Multiple .binary32 (single x) :=
  multiple_of_representable (representable_single x)

/-- The error of a finite sum is relative. -/
theorem abs_single_add_sub_le (h : (x + y).isFinite = true) :
    |single (x + y) - (single x + single y)| ≤ roundoff * |single x + single y| := by
  rw [single_add h]
  exact abs_rounded_sub_le_of_multiple ((multiple_single x).add (multiple_single y))

/-- Small sums are exact. -/
theorem single_add_of_lt (h : (x + y).isFinite = true)
    (hlt : |single x + single y| < 2 ^ (-125 : ℤ)) : single (x + y) = single x + single y := by
  rw [single_add h]
  exact rounded_of_multiple ((multiple_single x).add (multiple_single y)) hlt

theorem abs_single_mul_sub_le (h : (x * y).isFinite = true) :
    |single (x * y) - single x * single y| ≤ roundoff * |single x * single y| + underflow := by
  rw [single_mul h]
  exact abs_rounded_sub_le _

/-- The error of a small product is absolute. -/
theorem abs_single_mul_sub_le_of_lt (h : (x * y).isFinite = true)
    (hlt : |single x * single y| < 2 ^ (-125 : ℤ)) :
    |single (x * y) - single x * single y| ≤ underflow := by
  rw [single_mul h]
  exact abs_rounded_sub_le_of_lt le_rfl hlt

/-- The error of a normal product is relative. -/
theorem abs_single_mul_sub_le_mul (h : (x * y).isFinite = true)
    (hle : 2 ^ (-126 : ℤ) ≤ |single x * single y|) :
    |single (x * y) - single x * single y| ≤ roundoff * |single x * single y| := by
  rw [single_mul h]
  exact abs_rounded_sub_le_mul hle

end Operations

end Numeric

end EmbeddingSearch
