import EmbeddingSearch.Proofs.Numeric.Single

/-!
# Integers in both formats

An integer that binary64 holds is rounded once on its way to binary32, whether it goes there
directly or through binary64. The sign of the zero is the same on both ways.

## Contents
- `rounded_neg`, `rounded_intCast_ne_zero`: rounding and the sign.
- `eq_of_single`: a binary32 value is determined by its number, zero apart.
- `IsNearest`: a finite binary32 value that stands for a rounded number.
- `isNearest_ofInt`: integers become the nearest binary32 value.
- `number?_ofInt`: integers up to the precision of binary64 are kept.
- `narrow_ofInt`: the two ways to binary32 agree on them.
-/

namespace EmbeddingSearch

namespace Numeric

open Float.Model (Format UnpackedFloat)
open Float.Model.UnpackedFloat

variable {f : Format}

/-! ## Rounding and the sign -/

theorem rounded_neg (x : ℚ) : rounded f (-x) = -rounded f x := by
  rcases lt_trichotomy x 0 with hx | rfl | hx
  · rw [rounded_of_nonneg (neg_nonneg.mpr hx.le), rounded, if_pos hx, neg_neg]
  · rw [neg_zero, rounded_zero, neg_zero]
  · rw [rounded_of_nonneg hx.le, rounded, if_pos (neg_lt_zero.mpr hx), neg_neg]

/-- One is a value of every format, so that nothing above it is rounded to zero. -/
theorem rounded_natCast_pos {n : Nat} (hn : 0 < n) : 0 < rounded f n := by
  have hone : Representable f (2 ^ (0 : ℤ)) := representable_two_zpow (minExponent_le_zero f)
  rw [zpow_zero] at hone
  exact one_pos.trans_le (le_rounded hone (by exact_mod_cast hn) (by exact_mod_cast hn))

theorem rounded_intCast_ne_zero {n : ℤ} (hn : n ≠ 0) : rounded f n ≠ 0 := by
  obtain ⟨k, rfl | rfl⟩ := n.eq_nat_or_neg
  · rw [Int.cast_natCast]
    exact (rounded_natCast_pos (by omega)).ne'
  · rw [Int.cast_neg, Int.cast_natCast, rounded_neg]
    exact neg_ne_zero.mpr (rounded_natCast_pos (by omega)).ne'

theorem abs_intCast (n : ℤ) : |(n : ℚ)| = n.natAbs := by
  rw [← Int.cast_abs, Int.abs_eq_natAbs, Int.cast_natCast]

/-! ## Binary32 values of integers -/

/-- No two finite values stand for the same number, zero apart. -/
theorem eq_of_single {x y : Float32} (hx : x.isFinite = true) (hy : y.isFinite = true)
    (h : single x = single y) (h0 : single y ≠ 0) : x = y := by
  have hunpack : x.toModel.unpack = y.toModel.unpack :=
    (canonical_single x).eq_of_value (canonical_single y) (h ▸ value?_of_isFinite hx)
      (value?_of_isFinite hy) h0
  rw [← pack_unpack_single x, hunpack, pack_unpack_single]

/-- Machine words are far inside the range of binary32. -/
theorem abs_rounded_intCast_lt {n : ℤ} (hn : n.natAbs ≤ 2 ^ 64) :
    |rounded .binary32 n| < 2 ^ (128 : ℤ) := by
  have hword : |(n : ℚ)| ≤ 2 ^ (64 : ℤ) := by
    rw [abs_intCast]
    exact_mod_cast hn
  have hrepr : Representable .binary32 (2 ^ (64 : ℤ)) := representable_two_zpow (by decide)
  exact (abs_rounded_le hrepr hword).trans_lt (zpow_lt_zpow_right₀ one_lt_two (by omega))

/-- Whether a binary32 value is finite and stands for a number rounded once. -/
def IsNearest (q : ℚ) (x : Float32) : Prop := x.isFinite = true ∧ single x = rounded .binary32 q

theorem isNearest_pack {u : UnpackedFloat} {q : ℚ} (hu : Result .binary32 q u)
    (h : |rounded .binary32 q| < 2 ^ (128 : ℤ)) : IsNearest q ⟨.pack u⟩ := by
  have hfinite := isFinite_pack hu h
  exact ⟨hfinite, single_pack hu hfinite⟩

theorem value?_one : value? (Float32.ofBits 0x3F800000).toModel.unpack = some 1 := by
  show value? (.finite .positive (2 ^ 23) (-23) (by decide)) = _
  rw [value?, signed]
  norm_num

theorem isNearest_ofNat {n : Nat} (hn : n < 2 ^ 64) : IsNearest n (Float32.ofNat n) := by
  have hrange : |rounded .binary32 n| < 2 ^ (128 : ℤ) :=
    abs_rounded_intCast_lt (n := n) (by omega)
  show IsNearest n (Float32.ofScientific n false 0)
  unfold Float32.ofScientific
  split
  · next hsmall =>
    -- a small number is converted by a machine word and multiplied by one
    have hvalue : n.toUInt64.toNat = n := by
      rw [Nat.toUInt64_eq, UInt64.toNat_ofNat']
      exact Nat.mod_eq_of_lt hn
    have hexact : rounded .binary32 n = n := by
      refine rounded_of_representable ?_
      rw [abs_of_nonneg n.cast_nonneg]
      exact representable_natCast (hsmall.1.trans (by decide)) (by decide)
    have hword : IsNearest n.toUInt64.toNat n.toUInt64.toFloat32 :=
      isNearest_pack (ofNat_result _) (by rwa [hvalue])
    rw [hvalue] at hword
    have hprod := mul_result (canonical_single n.toUInt64.toFloat32) (canonical_single _)
      (value?_of_isFinite hword.1) value?_one
    rw [hword.2, hexact, mul_one] at hprod
    exact isNearest_pack hprod hrange
  · next hlarge =>
    have hpos : 0 < n := by
      by_contra hzero
      exact hlarge ⟨by omega, by omega⟩
    exact isNearest_pack (ofScientific_result hpos) hrange

theorem IsNearest.neg {x : Float32} {q : ℚ} (hx : IsNearest q x) : IsNearest (-q) x.neg := by
  have hneg : rounded .binary32 (-single x) = -single x :=
    rounded_value (canonical_single x).neg (value?_neg (value?_of_isFinite hx.1))
  have hresult : Result .binary32 (-single x) x.toModel.unpack.neg :=
    Result.of_canonical (canonical_single x).neg (value?_neg (value?_of_isFinite hx.1))
  have hrange : |rounded .binary32 (-single x)| < 2 ^ (128 : ℤ) := by
    rw [hneg, abs_neg]
    exact abs_single_lt x
  obtain ⟨hfinite, hsingle⟩ := isNearest_pack hresult hrange
  refine ⟨hfinite, ?_⟩
  rw [rounded_neg, ← hx.2, ← hneg]
  exact hsingle

/-- Integers are converted to the nearest value. -/
theorem isNearest_ofInt {n : ℤ} (hn : n.natAbs < 2 ^ 64) : IsNearest n (Float32.ofInt n) := by
  cases n with
  | ofNat k =>
    rw [Int.ofNat_eq_natCast, Int.cast_natCast]
    exact isNearest_ofNat hn
  | negSucc k =>
    rw [Int.cast_negSucc]
    exact (isNearest_ofNat hn).neg

/-! ## Binary64 values of integers -/

/-- Natural numbers up to the precision are kept. -/
theorem number?_natCast {n : Nat} (hn : n ≤ 2 ^ 53) : number? (Float.ofNat n) = some (n : ℚ) := by
  have hexact : rounded .binary64 n = n := by
    rcases hn.lt_or_eq with hlt | rfl
    · exact rounded_natCast hlt
    · have hrepr : Representable .binary64 (2 ^ (53 : ℤ)) := representable_two_zpow (by decide)
      refine rounded_of_representable ?_
      rw [abs_of_nonneg (Nat.cast_nonneg _)]
      exact_mod_cast hrepr
  rw [number?_ofNat (by omega), hexact]

theorem number?_neg {x : Float} {a : ℚ} (hx : number? x = some a) (h : |a| ≤ 2 ^ (1023 : ℤ)) :
    number? x.neg = some (-a) := by
  have hresult : Result .binary64 (-a) x.toModel.unpack.neg :=
    Result.of_canonical (canonical_float x).neg (value?_neg hx)
  rw [← rounded_value (canonical_float x).neg (value?_neg hx)]
  exact number?_pack hresult (by rwa [abs_neg])

/-- Integers up to the precision are kept. -/
theorem number?_ofInt {n : ℤ} (hn : n.natAbs ≤ 2 ^ 53) :
    number? (Float.ofInt n) = some (n : ℚ) := by
  cases n with
  | ofNat k =>
    rw [Int.ofNat_eq_natCast, Int.cast_natCast]
    exact number?_natCast hn
  | negSucc k =>
    have hk : k + 1 ≤ 2 ^ 53 := hn
    rw [Int.cast_negSucc]
    exact number?_neg (number?_natCast hk) (cast_le_largest (by omega))

/-! ## Both ways to binary32 -/

theorem isNearest_narrow {x : Float} {a : ℚ} (hx : number? x = some a)
    (h : |rounded .binary32 a| < 2 ^ (128 : ℤ)) : IsNearest a (narrow x) :=
  isNearest_pack (roundTo_result hx) h

/-- An integer that binary64 holds is converted to the same value directly and through binary64. -/
theorem narrow_ofInt {n : ℤ} (hn : n.natAbs ≤ 2 ^ 53) :
    narrow (Float.ofInt n) = Float32.ofInt n := by
  by_cases hzero : n = 0
  · -- both zeros are positive
    subst hzero
    rfl
  · have hdirect : IsNearest n (Float32.ofInt n) := isNearest_ofInt (by omega)
    have hvia : IsNearest n (narrow (Float.ofInt n)) :=
      isNearest_narrow (number?_ofInt hn) (abs_rounded_intCast_lt (by omega))
    refine eq_of_single hvia.1 hdirect.1 (hvia.2.trans hdirect.2.symm) ?_
    rw [hdirect.2]
    exact rounded_intCast_ne_zero hzero

/-- Past the precision of binary64 the two ways differ: the detour rounds twice. -/
example : narrow (Float.ofInt (2 ^ 54 + 2 ^ 30 + 1)) ≠ Float32.ofInt (2 ^ 54 + 2 ^ 30 + 1) := by
  decide +kernel

end Numeric

end EmbeddingSearch
