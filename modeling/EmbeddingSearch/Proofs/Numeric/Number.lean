import EmbeddingSearch.Proofs.Numeric.Arithmetic

/-!
# The numbers that binary64 values stand for

Rounding is the only thing that sets the arithmetic of values apart from that of the numbers they
stand for, and the order of values is the order of these numbers.

## Contents
- `compare_value`: canonical values are compared as numbers.
- `unpack_pack_of_lt`: values that are not too large are unpacked as they were packed.
- `number?`: the number that a value stands for; infinities and NaN stand for none.
- `number?_add`, `number?_sub`, `number?_mul`, `number?_div`, `number?_ofNat`: the operations give
  the exact result, rounded once, as long as it is not too large.
- `lt_iff_number`, `le_iff_number`, `number?_of_between`: the order.
-/

namespace EmbeddingSearch

namespace Numeric

open Float.Model (Format UnpackedFloat totalExponent)
open Float.Model.UnpackedFloat

variable {f : Format}

/-! ## Comparison -/

theorem compare_neg_neg (x y : ℚ) : compare (-x) (-y) = (compare x y).swap := by
  rcases lt_trichotomy x y with h | rfl | h
  · rw [compare_lt_iff_lt.mpr h, compare_gt_iff_gt.mpr (neg_lt_neg h)]
    rfl
  · rw [compare_eq_iff_eq.mpr rfl, compare_eq_iff_eq.mpr rfl]
    rfl
  · rw [compare_gt_iff_gt.mpr h, compare_lt_iff_lt.mpr (neg_lt_neg h)]
    rfl

/-- Of two canonical values the one with the larger exponent is larger. -/
theorem lt_of_exponent_lt {s s' : Sign} {m m' : Nat} {e e' : ℤ} {hm : 0 < m} {hm' : 0 < m'}
    (hu : Canonical f (.finite s m e hm)) (hv : Canonical f (.finite s' m' e' hm'))
    (he : e < e') : (m : ℚ) * 2 ^ e < m' * 2 ^ e' := by
  have hnormal : 2 ^ f.mantissaBitsWithoutImplicit ≤ m' := by
    refine hv.2.2.resolve_right ?_
    intro h
    have := hu.2.1
    omega
  calc (m : ℚ) * 2 ^ e < 2 ^ (f.mantissaBitsWithoutImplicit + 1 + e : ℤ) :=
        lt_two_zpow_of_significand hu.1
    _ ≤ 2 ^ (f.mantissaBitsWithoutImplicit + e' : ℤ) :=
        zpow_le_zpow_right₀ one_le_two (by omega)
    _ ≤ m' * 2 ^ e' := by
        rw [zpow_add₀ two_ne_zero, zpow_natCast]
        exact mul_le_mul_of_nonneg_right (by exact_mod_cast hnormal) (two_zpow_pos e').le

/-- Exponents and significands of canonical values are compared in this order. -/
theorem compare_significands {s s' : Sign} {m m' : Nat} {e e' : ℤ} {hm : 0 < m} {hm' : 0 < m'}
    (hu : Canonical f (.finite s m e hm)) (hv : Canonical f (.finite s' m' e' hm')) :
    (compare e e').then (compare m m') = compare ((m : ℚ) * 2 ^ e) (m' * 2 ^ e') := by
  rcases lt_trichotomy e e' with he | rfl | he
  · rw [compare_lt_iff_lt.mpr he, compare_lt_iff_lt.mpr (lt_of_exponent_lt hu hv he)]
    rfl
  · rw [compare_eq_iff_eq.mpr rfl, Ordering.then]
    rcases lt_trichotomy m m' with h | rfl | h
    · have : (m : ℚ) * 2 ^ e < m' * 2 ^ e :=
        mul_lt_mul_of_pos_right (by exact_mod_cast h) (two_zpow_pos e)
      rw [compare_lt_iff_lt.mpr h, compare_lt_iff_lt.mpr this]
    · rw [compare_eq_iff_eq.mpr rfl, compare_eq_iff_eq.mpr rfl]
    · have : (m' : ℚ) * 2 ^ e < m * 2 ^ e :=
        mul_lt_mul_of_pos_right (by exact_mod_cast h) (two_zpow_pos e)
      rw [compare_gt_iff_gt.mpr h, compare_gt_iff_gt.mpr this]
  · rw [compare_gt_iff_gt.mpr he, compare_gt_iff_gt.mpr (lt_of_exponent_lt hv hu he)]
    rfl

/-- Canonical values are compared as the numbers they stand for. -/
theorem compare_value {u v : UnpackedFloat} {x y : ℚ} (hu : Canonical f u) (hv : Canonical f v)
    (hx : value? u = some x) (hy : value? v = some y) :
    UnpackedFloat.compare u v = some (compare x y) := by
  cases u with
  | infinity s => cases hx
  | notANumber => cases hx
  | zero s =>
    obtain rfl : 0 = x := Option.some.inj hx
    cases v with
    | infinity s => cases hy
    | notANumber => cases hy
    | zero s' =>
      obtain rfl : 0 = y := Option.some.inj hy
      rw [compare_eq_iff_eq.mpr rfl]
      cases s <;> cases s' <;> rfl
    | finite s' m e hm =>
      obtain rfl := Option.some.inj hy
      cases s' with
      | negative =>
        rw [compare_gt_iff_gt.mpr (show signed .negative _ < 0 from
          neg_lt_zero.mpr (significand_pos hm e))]
        cases s <;> rfl
      | positive =>
        rw [compare_lt_iff_lt.mpr (show (0 : ℚ) < signed .positive _ from significand_pos hm e)]
        cases s <;> rfl
  | finite s m e hm =>
    obtain rfl := Option.some.inj hx
    cases v with
    | infinity s => cases hy
    | notANumber => cases hy
    | zero s' =>
      obtain rfl : 0 = y := Option.some.inj hy
      cases s with
      | negative =>
        rw [compare_lt_iff_lt.mpr (show signed .negative _ < 0 from
          neg_lt_zero.mpr (significand_pos hm e))]
        rfl
      | positive =>
        rw [compare_gt_iff_gt.mpr (show 0 < signed .positive _ from significand_pos hm e)]
        rfl
    | finite s' m' e' hm' =>
      obtain rfl := Option.some.inj hy
      have hcmp := compare_significands hu hv
      have hpos := significand_pos hm e
      have hpos' := significand_pos hm' e'
      cases s with
      | negative =>
        cases s' with
        | negative =>
          rw [signed, signed, compare_neg_neg, ← hcmp]
          rfl
        | positive =>
          rw [signed, signed, compare_lt_iff_lt.mpr (by linarith)]
          rfl
      | positive =>
        cases s' with
        | negative =>
          rw [signed, signed, compare_gt_iff_gt.mpr (by linarith)]
          rfl
        | positive =>
          rw [signed, signed, ← hcmp]
          rfl

/-! ## Packing -/

/-- What is below the least power of two that is too large is unpacked as it was packed. -/
theorem unpack_pack_of_lt (hf : f.minExponent ≤ maxExponent f) {u : UnpackedFloat} {x : ℚ}
    (hu : Canonical f u) (hx : value? u = some x) (hlt : |x| < 2 ^ (maxExponent f + f.mantissaBits)) :
    unpack f (pack f u) = u := by
  cases u with
  | infinity s => cases hx
  | notANumber => cases hx
  | zero s => rw [pack, unpack_packedZero]
  | finite s m e hm =>
    apply unpack_pack_finite hu
    obtain ⟨-, hmin, hnormal⟩ := hu
    obtain rfl := Option.some.inj hx
    rw [abs_signed (significand_nonneg m e)] at hlt
    -- a larger exponent would be that of a number beyond the bound
    by_contra hgt
    have hm' : 2 ^ f.mantissaBitsWithoutImplicit ≤ m := hnormal.resolve_right (by omega)
    have hle : (2 : ℚ) ^ (maxExponent f + f.mantissaBits) ≤ m * 2 ^ e := by
      have hsplit : maxExponent f + f.mantissaBits =
          f.mantissaBitsWithoutImplicit + (maxExponent f + 1) := by
        rw [Format.mantissaBits]
        push_cast
        ring
      rw [hsplit, zpow_add₀ two_ne_zero, zpow_natCast]
      refine mul_le_mul (by exact_mod_cast hm') ?_ (two_zpow_pos _).le m.cast_nonneg
      exact zpow_le_zpow_right₀ one_le_two (by omega)
    exact absurd hlt (not_lt.mpr hle)

/-! ## Values of binary64 -/

/-- The number that a value stands for. -/
def number? (x : Float) : Option ℚ := value? x.toModel.unpack

theorem canonical_float (x : Float) : Canonical .binary64 x.toModel.unpack :=
  canonical_unpack _ _

theorem representable_largest : Representable .binary64 (2 ^ (1023 : ℤ)) :=
  representable_two_zpow (by decide)

/-- What is packed stands for the rounded number, as long as that is not too large. -/
theorem number?_pack {x : ℚ} {u : UnpackedFloat} (hu : Result .binary64 x u)
    (hx : |x| ≤ 2 ^ (1023 : ℤ)) : number? ⟨.pack u⟩ = some (rounded .binary64 x) := by
  have hbound := abs_rounded_le representable_largest hx
  have hlt : (2 : ℚ) ^ (1023 : ℤ) < 2 ^ (1024 : ℤ) := zpow_lt_zpow_right₀ one_lt_two (by omega)
  show value? (unpack .binary64 (pack .binary64 u)) = _
  rw [unpack_pack_of_lt (by decide) hu.1 hu.2 (hbound.trans_lt hlt)]
  exact hu.2

section Operations

variable {x y : Float} {a b : ℚ}

theorem number?_add (hx : number? x = some a) (hy : number? y = some b)
    (h : |a + b| ≤ 2 ^ (1023 : ℤ)) : number? (x + y) = some (rounded .binary64 (a + b)) :=
  number?_pack (add_result (canonical_float x) (canonical_float y) hx hy) h

theorem number?_sub (hx : number? x = some a) (hy : number? y = some b)
    (h : |a - b| ≤ 2 ^ (1023 : ℤ)) : number? (x - y) = some (rounded .binary64 (a - b)) :=
  number?_pack (sub_result (canonical_float x) (canonical_float y) hx hy) h

theorem number?_mul (hx : number? x = some a) (hy : number? y = some b)
    (h : |a * b| ≤ 2 ^ (1023 : ℤ)) : number? (x * y) = some (rounded .binary64 (a * b)) :=
  number?_pack (mul_result (canonical_float x) (canonical_float y) hx hy) h

theorem number?_div (hx : number? x = some a) (hy : number? y = some b) (hb : b ≠ 0)
    (h : |a / b| ≤ 2 ^ (1023 : ℤ)) : number? (x / y) = some (rounded .binary64 (a / b)) :=
  number?_pack (div_result hx hy hb) h

end Operations

/-! ## Natural numbers -/

theorem representable_nat {n : Nat} (hn : n < 2 ^ 53) : Representable .binary64 n :=
  representable_natCast hn (by decide)

theorem cast_le_largest {n : Nat} (hn : n < 2 ^ 64) : |(n : ℚ)| ≤ 2 ^ (1023 : ℤ) := by
  rw [abs_of_nonneg n.cast_nonneg]
  have hlt : (n : ℚ) < 2 ^ (64 : ℤ) := by exact_mod_cast hn
  exact hlt.le.trans (zpow_le_zpow_right₀ one_le_two (by omega))

theorem rounded_natCast {n : Nat} (hn : n < 2 ^ 53) : rounded .binary64 n = n := by
  refine rounded_of_representable ?_
  rw [abs_of_nonneg n.cast_nonneg]
  exact representable_nat hn

theorem number?_toFloat (n : UInt64) :
    number? n.toFloat = some (rounded .binary64 n.toNat) :=
  number?_pack (ofNat_result n.toNat) (cast_le_largest n.toNat_lt)

theorem number?_one : number? (Float.ofBits 0x3FF0000000000000) = some 1 := by
  show value? (.finite .positive (2 ^ 52) (-52) (by decide)) = _
  rw [value?, signed]
  norm_num

/-- The product that a decimal significand is converted by, with no power of ten. -/
theorem ofScientific_result {n : Nat} (hn : 0 < n) :
    Result f n (UnpackedFloat.ofScientific f n 0) := by
  have hlog := log2_shiftLeft hn f.mantissaBits
  have hm : 0 < n <<< f.mantissaBits := Nat.shiftLeft_pos_iff.mpr hn
  have hvalue : (n : ℚ) = (n <<< f.mantissaBits : ℕ) * 2 ^ (-f.mantissaBits : ℤ) := by
    rw [Nat.shiftLeft_eq, zpow_neg, zpow_natCast]
    push_cast
    rw [mul_assoc, mul_inv_cancel₀ (pow_ne_zero _ two_ne_zero), mul_one]
  have hpos : (0 : ℚ) < (n <<< f.mantissaBits : ℕ) * 2 ^ (-f.mantissaBits : ℤ) := by
    rw [← hvalue]
    exact_mod_cast hn
  have hbits : (0 : ℤ) < 2 ^ f.exponentBits := by positivity
  unfold UnpackedFloat.ofScientific
  rw [dif_neg hn.ne', if_neg (by omega), if_neg (by omega), if_pos le_rfl]
  unfold UnpackedFloat.mul
  dsimp only
  rw [Int.toNat_zero, pow_zero, mul_one, add_zero,
    show Sign.positive * Sign.positive = Sign.positive from rfl, Result, hvalue,
    rounded_of_nonneg hpos.le]
  refine roundWithAccuracy_rounds hm (sub_self _) (le_max_of_le_left ?_)
  rw [totalExponent, hlog]
  omega

/-- Natural numbers are converted to the nearest value. -/
theorem number?_ofNat {n : Nat} (hn : n < 2 ^ 64) :
    number? (Float.ofNat n) = some (rounded .binary64 n) := by
  show number? (Float.ofScientific n false 0) = _
  unfold Float.ofScientific
  split
  · next hsmall =>
    -- a small number is converted by a machine word and multiplied by one
    have hvalue : n.toUInt64.toNat = n := by
      rw [Nat.toUInt64_eq, UInt64.toNat_ofNat']
      exact Nat.mod_eq_of_lt hn
    have hfloat := number?_toFloat n.toUInt64
    rw [hvalue, rounded_natCast hsmall.1] at hfloat
    have hmul := number?_mul hfloat number?_one (by rw [mul_one]; exact cast_le_largest hn)
    rwa [mul_one] at hmul
  · next hlarge =>
    have hpos : 0 < n := by
      by_contra hzero
      exact hlarge ⟨by omega, by omega⟩
    exact number?_pack (ofScientific_result hpos) (cast_le_largest hn)

/-! ## Order -/

theorem float_lt_iff (x y : Float) : x < y ↔ x.toModel.unpack.lt y.toModel.unpack = true := by
  show decide (x.toModel.unpack.lt y.toModel.unpack = true) = true ↔ _
  exact decide_eq_true_iff

theorem float_le_iff (x y : Float) : x ≤ y ↔ x.toModel.unpack.le y.toModel.unpack = true := by
  show decide (x.toModel.unpack.le y.toModel.unpack = true) = true ↔ _
  exact decide_eq_true_iff

theorem lt_iff_number {x y : Float} {a b : ℚ} (hx : number? x = some a) (hy : number? y = some b) :
    x < y ↔ a < b := by
  rw [float_lt_iff, UnpackedFloat.lt, compare_value (canonical_float x) (canonical_float y) hx hy,
    ← compare_lt_iff_lt]
  cases compare a b <;> decide

theorem le_iff_number {x y : Float} {a b : ℚ} (hx : number? x = some a) (hy : number? y = some b) :
    x ≤ y ↔ a ≤ b := by
  rw [float_le_iff, UnpackedFloat.le, compare_value (canonical_float x) (canonical_float y) hx hy,
    ← compare_le_iff_le]
  cases compare a b <;> decide

/-- A value that is bounded on both sides by numbers is a number. -/
theorem number?_of_between {x y z : Float} {a b : ℚ} (hy : number? y = some a)
    (hz : number? z = some b) (hyx : y ≤ x) (hxz : x < z) : ∃ c, number? x = some c := by
  rw [float_le_iff] at hyx
  rw [float_lt_iff] at hxz
  unfold number? at hy hz ⊢
  generalize x.toModel.unpack = u at *
  generalize y.toModel.unpack = v at *
  generalize z.toModel.unpack = w at *
  cases u with
  | zero s => exact ⟨_, rfl⟩
  | finite s m e hm => exact ⟨_, rfl⟩
  | notANumber => cases w <;> cases hxz
  | infinity s =>
    -- no number is below the one infinity or above the other
    cases s with
    | negative =>
      cases v with
      | infinity s => cases hy
      | notANumber => cases hy
      | zero s => cases hyx
      | finite s m e hm => cases s <;> cases hyx
    | positive =>
      cases w with
      | infinity s => cases hz
      | notANumber => cases hz
      | zero s => cases hxz
      | finite s m e hm => cases s <;> cases hxz

end Numeric

end EmbeddingSearch
