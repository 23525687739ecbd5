import EmbeddingSearch.Proofs.Numeric.Arithmetic

/-!
# How far rounding goes

A number is rounded to within half of its last place. That is a fixed part of a number in the normal
range and a fixed amount below it, and nothing at all for small multiples of the least value, which
are values of the format themselves. So the relative error of a sum is bounded, however small it is.

## Contents
- `unitRoundoff`, `underflowError`: the largest relative and the largest absolute error.
- `abs_rounded_sub_le`: an error is within the two together.
- `abs_rounded_sub_le_mul`, `abs_rounded_sub_le_of_lt`: errors in the normal range, and below it.
- `Multiple`, `rounded_of_multiple`, `abs_rounded_sub_le_of_multiple`: errors of sums.
-/

namespace EmbeddingSearch

namespace Numeric

open Float.Model (Format)

variable {f : Format}

/-- The largest relative error in the normal range: half of the last place of one. -/
def unitRoundoff (f : Format) : ℚ := 2 ^ (-(f.mantissaBits : ℤ))

/-- The largest error below the normal range: half of the least value. -/
def underflowError (f : Format) : ℚ := 2 ^ (f.minExponent - 1)

theorem unitRoundoff_pos (f : Format) : 0 < unitRoundoff f := two_zpow_pos _

theorem underflowError_pos (f : Format) : 0 < underflowError f := two_zpow_pos _

/-! ## Half of the last place -/

theorem abs_halfEven_sub_le (x : ℚ) : |(halfEven x : ℚ) - x| ≤ 1 / 2 := by
  have hfract : x = ⌊x⌋ + Int.fract x := (Int.floor_add_fract x).symm
  have hnonneg := Int.fract_nonneg x
  have hlt := Int.fract_lt_one x
  rw [abs_le]
  unfold halfEven
  split
  · next h =>
    rw [compare_lt_iff_lt] at h
    constructor <;> linarith
  · next h =>
    rw [compare_eq_iff_eq] at h
    -- either neighbour is as near as the other
    rcases Int.emod_two_eq_zero_or_one ⌊x⌋ with heven | hodd
    · rw [heven, add_zero]
      constructor <;> linarith
    · rw [hodd]
      push_cast
      constructor <;> linarith
  · next h =>
    rw [compare_gt_iff_gt] at h
    push_cast
    constructor <;> linarith

theorem abs_nearest_sub_le (f : Format) (x : ℚ) :
    |nearest f x - x| ≤ 2 ^ lastPlace f x / 2 := by
  have hplace := two_zpow_pos (lastPlace f x)
  have hsplit : nearest f x - x =
      (halfEven (x / 2 ^ lastPlace f x) - x / 2 ^ lastPlace f x) * 2 ^ lastPlace f x := by
    rw [sub_mul, div_mul_cancel₀ x hplace.ne']
    rfl
  rw [hsplit, abs_mul, abs_of_pos hplace]
  have := mul_le_mul_of_nonneg_right (abs_halfEven_sub_le (x / 2 ^ lastPlace f x)) hplace.le
  linarith

theorem abs_rounded_sub_le_half (f : Format) (x : ℚ) :
    |rounded f x - x| ≤ 2 ^ lastPlace f |x| / 2 := by
  rcases lt_or_ge x 0 with hneg | hpos
  · have hswap : rounded f x - x = -(nearest f (-x) - -x) := by
      rw [rounded, if_pos hneg]
      ring
    rw [hswap, abs_neg, abs_of_neg hneg]
    exact abs_nearest_sub_le f (-x)
  · rw [rounded_of_nonneg hpos, abs_of_nonneg hpos]
    exact abs_nearest_sub_le f x

/-! ## Relative and absolute errors -/

/-- In the normal range an error is a small part of the number. -/
theorem abs_rounded_sub_le_mul {x : ℚ}
    (hx : 2 ^ (f.minExponent + f.mantissaBitsWithoutImplicit) ≤ |x|) :
    |rounded f x - x| ≤ unitRoundoff f * |x| := by
  have hpos : 0 < |x| := (two_zpow_pos _).trans_le hx
  have hlog := (Int.zpow_le_iff_le_log one_lt_two hpos).mp hx
  have hplace : lastPlace f |x| = Int.log 2 |x| + 1 + -(f.mantissaBits : ℤ) := by
    unfold lastPlace Format.targetExponent Format.mantissaBits
    omega
  calc |rounded f x - x| ≤ 2 ^ lastPlace f |x| / 2 := abs_rounded_sub_le_half f x
    _ = unitRoundoff f * 2 ^ Int.log 2 |x| := by
        rw [hplace, zpow_add₀ two_ne_zero, zpow_add_one₀ two_ne_zero, unitRoundoff]
        ring
    _ ≤ unitRoundoff f * |x| :=
        mul_le_mul_of_nonneg_left (Int.zpow_log_le_self one_lt_two hpos) (unitRoundoff_pos f).le

/-- Below a power of two an error is at most half of the last place that numbers have there. -/
theorem abs_rounded_sub_le_of_lt {x : ℚ} {k : ℤ} (hk : f.minExponent ≤ k)
    (hx : |x| < 2 ^ (k + f.mantissaBits)) : |rounded f x - x| ≤ 2 ^ (k - 1) := by
  rcases eq_or_ne x 0 with rfl | hne
  · rw [rounded_zero, sub_self, abs_zero]
    exact (two_zpow_pos _).le
  · have hlog := (Int.lt_zpow_iff_log_lt one_lt_two (abs_pos.mpr hne)).mp hx
    have hplace : lastPlace f |x| ≤ k := by
      unfold lastPlace Format.targetExponent
      omega
    calc |rounded f x - x| ≤ 2 ^ lastPlace f |x| / 2 := abs_rounded_sub_le_half f x
      _ ≤ 2 ^ k / 2 := by
          have := zpow_le_zpow_right₀ (one_le_two (α := ℚ)) hplace
          linarith
      _ = 2 ^ (k - 1) := (zpow_sub_one₀ two_ne_zero k).symm

theorem two_zpow_normal_lt (f : Format) : (2 : ℚ) ^ (f.minExponent + f.mantissaBitsWithoutImplicit) <
    2 ^ (f.minExponent + f.mantissaBits) := by
  apply zpow_lt_zpow_right₀ one_lt_two
  unfold Format.mantissaBits
  omega

/-- An error is relative or absolute. -/
theorem abs_rounded_sub_le (x : ℚ) :
    |rounded f x - x| ≤ unitRoundoff f * |x| + underflowError f := by
  by_cases hx : 2 ^ (f.minExponent + f.mantissaBitsWithoutImplicit) ≤ |x|
  · have := abs_rounded_sub_le_mul hx
    have := underflowError_pos f
    linarith
  · have hsmall : |rounded f x - x| ≤ underflowError f :=
      abs_rounded_sub_le_of_lt le_rfl ((not_le.mp hx).trans (two_zpow_normal_lt f))
    have := mul_nonneg (unitRoundoff_pos f).le (abs_nonneg x)
    linarith

/-! ## Multiples of the least value -/

/-- Whether a number is a multiple of the least value of a format. -/
def Multiple (f : Format) (x : ℚ) : Prop := ∃ k : ℤ, x = k * 2 ^ f.minExponent

theorem Multiple.add {x y : ℚ} (hx : Multiple f x) (hy : Multiple f y) : Multiple f (x + y) := by
  obtain ⟨k, rfl⟩ := hx
  obtain ⟨l, rfl⟩ := hy
  refine ⟨k + l, ?_⟩
  push_cast
  ring

theorem Multiple.neg {x : ℚ} (hx : Multiple f x) : Multiple f (-x) := by
  obtain ⟨k, rfl⟩ := hx
  refine ⟨-k, ?_⟩
  push_cast
  ring

/-- The values of a format are multiples of the least one. -/
theorem multiple_of_representable {x : ℚ} (hx : Representable f |x|) : Multiple f x := by
  have habs : Multiple f |x| := by
    obtain ⟨m, e, heq, -, he⟩ := hx
    obtain ⟨k, rfl⟩ := Int.le.dest he
    refine ⟨m * 2 ^ k, ?_⟩
    rw [heq, zpow_add₀ two_ne_zero, zpow_natCast]
    push_cast
    ring
  rcases abs_choice x with h | h
  · rwa [h] at habs
  · rw [h] at habs
    simpa using habs.neg

/-- Small multiples of the least value are values of the format. -/
theorem rounded_of_multiple {x : ℚ} (hx : Multiple f x)
    (hlt : |x| < 2 ^ (f.minExponent + f.mantissaBits)) : rounded f x = x := by
  obtain ⟨k, rfl⟩ := hx
  have hplace := two_zpow_pos f.minExponent
  have habs : |(k : ℚ) * 2 ^ f.minExponent| = k.natAbs * 2 ^ f.minExponent := by
    rw [abs_mul, abs_of_pos hplace, ← Int.cast_abs, Int.abs_eq_natAbs, Int.cast_natCast]
  apply rounded_of_representable
  refine ⟨k.natAbs, f.minExponent, habs, ?_, le_rfl⟩
  rw [habs, add_comm, zpow_add₀ two_ne_zero, zpow_natCast, mul_lt_mul_iff_left₀ hplace] at hlt
  exact_mod_cast hlt

/-- The error of a multiple of the least value is relative, also below the normal range. -/
theorem abs_rounded_sub_le_of_multiple {x : ℚ} (hx : Multiple f x) :
    |rounded f x - x| ≤ unitRoundoff f * |x| := by
  by_cases hnormal : 2 ^ (f.minExponent + f.mantissaBitsWithoutImplicit) ≤ |x|
  · exact abs_rounded_sub_le_mul hnormal
  · rw [rounded_of_multiple hx ((not_le.mp hnormal).trans (two_zpow_normal_lt f)), sub_self, abs_zero]
    exact mul_nonneg (unitRoundoff_pos f).le (abs_nonneg x)

end Numeric

end EmbeddingSearch
