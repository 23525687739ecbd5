import EmbeddingSearch.Proofs.Numeric.Rounding

/-!
# Arithmetic on unpacked values

Sum, difference, product and quotient of two values of a format are the exact results, rounded once.

## Contents
- `rounded`: the value of a format nearest to a number of either sign.
- `Result`: an unpacked value that is a number rounded to a format.
- `add_result`, `sub_result`, `mul_result`, `div_result`, `ofNat_result`: the operations.
-/

namespace EmbeddingSearch

namespace Numeric

open Float.Model (Format UnpackedFloat totalExponent)
open Float.Model.UnpackedFloat

variable {f : Format}

/-! ## Rounded results -/

/-- The value of a format nearest to a number, as if there were no largest exponent. -/
def rounded (f : Format) (x : ℚ) : ℚ := if x < 0 then -nearest f (-x) else nearest f x

/-- Whether an unpacked value is a number rounded to a format. -/
def Result (f : Format) (x : ℚ) (u : UnpackedFloat) : Prop :=
  Canonical f u ∧ value? u = some (rounded f x)

theorem rounded_of_nonneg {x : ℚ} (hx : 0 ≤ x) : rounded f x = nearest f x :=
  if_neg (not_lt.mpr hx)

theorem rounded_signed {s : Sign} {x : ℚ} (hx : 0 < x) :
    rounded f (signed s x) = signed s (nearest f x) := by
  cases s with
  | negative => simp [rounded, signed, hx]
  | positive => exact rounded_of_nonneg hx.le

theorem rounded_of_representable {x : ℚ} (hx : Representable f |x|) : rounded f x = x := by
  rcases lt_or_ge x 0 with hneg | hpos
  · rw [abs_of_neg hneg] at hx
    rw [rounded, if_pos hneg, nearest_of_representable hx, neg_neg]
  · rw [abs_of_nonneg hpos] at hx
    rw [rounded_of_nonneg hpos, nearest_of_representable hx]

@[simp] theorem rounded_zero : rounded f 0 = 0 := by
  rw [rounded_of_nonneg le_rfl, nearest]
  simp [show halfEven 0 = 0 from halfEven_intCast 0]

theorem nearest_nonneg {x : ℚ} (hx : 0 < x) : 0 ≤ nearest f x :=
  le_nearest ⟨0, f.minExponent, by simp, Nat.two_pow_pos _, le_rfl⟩ hx hx.le

/-- Rounding does not go beyond a value of the format. -/
theorem abs_rounded_le {x y : ℚ} (hy : Representable f y) (h : |x| ≤ y) : |rounded f x| ≤ y := by
  rcases lt_trichotomy x 0 with hneg | rfl | hpos
  · rw [abs_of_neg hneg] at h
    rw [rounded, if_pos hneg, abs_neg, abs_of_nonneg (nearest_nonneg (neg_pos.mpr hneg))]
    exact nearest_le hy (neg_pos.mpr hneg) h
  · rwa [rounded_zero]
  · rw [abs_of_pos hpos] at h
    rw [rounded_of_nonneg hpos.le, abs_of_nonneg (nearest_nonneg hpos)]
    exact nearest_le hy hpos h

theorem le_rounded {x y : ℚ} (hy : Representable f y) (hx : 0 < x) (h : y ≤ x) :
    y ≤ rounded f x := by
  rw [rounded_of_nonneg hx.le]
  exact le_nearest hy hx h

theorem lt_of_rounded_lt {x y : ℚ} (hy : Representable f y) (hpos : 0 < y)
    (h : rounded f x < y) : x < y := by
  by_contra hle
  exact absurd (le_rounded hy (hpos.trans_le (not_lt.mp hle)) (not_lt.mp hle)) (not_le.mpr h)

theorem abs_signed {s : Sign} {x : ℚ} (hx : 0 ≤ x) : |signed s x| = x := by
  cases s <;> simp [signed, abs_of_nonneg hx]

theorem significand_nonneg (m : Nat) (e : ℤ) : (0 : ℚ) ≤ m * 2 ^ e :=
  mul_nonneg m.cast_nonneg (two_zpow_pos e).le

theorem significand_pos {m : Nat} (hm : 0 < m) (e : ℤ) : (0 : ℚ) < m * 2 ^ e :=
  mul_pos (by exact_mod_cast hm) (two_zpow_pos e)

/-- What is canonical is a value of the format. -/
theorem representable_of_canonical {u : UnpackedFloat} {x : ℚ} (hu : Canonical f u)
    (hx : value? u = some x) : Representable f |x| := by
  cases u with
  | infinity s => cases hx
  | notANumber => cases hx
  | zero s =>
    obtain rfl : 0 = x := Option.some.inj hx
    exact ⟨0, f.minExponent, by simp, Nat.two_pow_pos _, le_rfl⟩
  | finite s m e hm =>
    obtain rfl : signed s (m * 2 ^ e) = x := Option.some.inj hx
    exact ⟨m, e, abs_signed (significand_nonneg m e), hu.1, hu.2.1⟩

theorem rounded_value {u : UnpackedFloat} {x : ℚ} (hu : Canonical f u) (hx : value? u = some x) :
    rounded f x = x :=
  rounded_of_representable (representable_of_canonical hu hx)

/-- What is canonical is its own rounding. -/
theorem Result.of_canonical {u : UnpackedFloat} {x : ℚ} (hu : Canonical f u)
    (hx : value? u = some x) : Result f x u :=
  ⟨hu, by rw [rounded_value hu hx, hx]⟩

theorem Result.zero {s : Sign} : Result f 0 (.zero s) := ⟨trivial, by rw [rounded_zero, value?]⟩

/-! ## Normalization -/

theorem decreaseExponent_snd_le (m : Nat) (e t : ℤ) : (decreaseExponent m e t).2 ≤ t := by
  unfold decreaseExponent
  dsimp only
  omega

theorem decreaseExponent_pos {m : Nat} (hm : 0 < m) (e t : ℤ) : 0 < (decreaseExponent m e t).1 :=
  Nat.shiftLeft_pos_iff.mpr hm

/-- Decreasing the exponent does not change the value. -/
theorem decreaseExponent_value (m : Nat) (e t : ℤ) :
    ((decreaseExponent m e t).1 : ℚ) * 2 ^ (decreaseExponent m e t).2 = m * 2 ^ e := by
  unfold decreaseExponent
  dsimp only
  rw [Nat.shiftLeft_eq, zpow_sub₀ two_ne_zero, zpow_natCast]
  push_cast
  field_simp

theorem log2_shiftLeft {m : Nat} (hm : 0 < m) (k : Nat) : (m <<< k).log2 = m.log2 + k := by
  have hlog := (Nat.log2_eq_iff hm.ne').mp rfl
  rw [Nat.log2_eq_iff (Nat.shiftLeft_pos_iff.mpr hm).ne', Nat.shiftLeft_eq]
  constructor
  · rw [pow_add]
    exact Nat.mul_le_mul_right _ hlog.1
  · rw [show m.log2 + k + 1 = m.log2 + 1 + k by ring, pow_add]
    exact Nat.mul_lt_mul_of_pos_right hlog.2 (Nat.two_pow_pos k)

theorem decreaseExponent_totalExponent {m : Nat} (hm : 0 < m) (e t : ℤ) :
    totalExponent (decreaseExponent m e t).1 (decreaseExponent m e t).2 = totalExponent m e := by
  unfold decreaseExponent totalExponent
  dsimp only
  rw [log2_shiftLeft hm]
  push_cast
  ring

theorem round_result {s : Sign} {m : Nat} {e : ℤ} (hm : 0 < m) :
    Result f (signed s (m * 2 ^ e)) (UnpackedFloat.round f s m e) := by
  unfold UnpackedFloat.round
  dsimp only
  generalize ht : f.targetExponent (totalExponent m e) = t
  have hle : (decreaseExponent m e t).2
      ≤ f.targetExponent (totalExponent (decreaseExponent m e t).1 (decreaseExponent m e t).2) := by
    rw [decreaseExponent_totalExponent hm, ht]
    exact decreaseExponent_snd_le m e t
  have hrounds := roundWithAccuracy_rounds (f := f) (s := s) (a := .exact)
    (x := (decreaseExponent m e t).1) (decreaseExponent_pos hm e t) (sub_self _) hle
  rw [decreaseExponent_value] at hrounds
  have hpos : (0 : ℚ) < m * 2 ^ e := significand_pos hm e
  rw [Result, rounded_signed hpos]
  exact hrounds

theorem normalize_result {m : ℤ} {e : ℤ} {z : Sign} :
    Result f (m * 2 ^ e) (UnpackedFloat.normalize f m e z) := by
  unfold UnpackedFloat.normalize
  rcases lt_trichotomy m 0 with hm | rfl | hm
  · rw [Int.compare_eq_lt.mpr hm]
    have hcast : (((-m).toNat : ℕ) : ℚ) = -m := by exact_mod_cast Int.toNat_of_nonneg (by omega)
    have hround := round_result (f := f) (s := .negative) (m := (-m).toNat) (e := e) (by omega)
    rwa [hcast, signed, neg_mul, neg_neg] at hround
  · simpa using Result.zero
  · rw [Int.compare_eq_gt.mpr hm]
    have hcast : ((m.toNat : ℕ) : ℚ) = m := by exact_mod_cast Int.toNat_of_nonneg hm.le
    have hround := round_result (f := f) (s := .positive) (m := m.toNat) (e := e) (by omega)
    rwa [hcast, signed] at hround

theorem ofNat_result (n : Nat) : Result f n (UnpackedFloat.ofNat f n) := by
  have := normalize_result (f := f) (m := n) (e := 0) (z := .positive)
  rwa [zpow_zero, mul_one, Int.cast_natCast] at this

theorem decreaseExponent_eq (m : Nat) {e t : ℤ} (h : t ≤ e) : (decreaseExponent m e t).2 = t := by
  unfold decreaseExponent
  dsimp only
  omega

theorem apply_cast (s : Sign) (n : ℤ) : ((s.apply n : ℤ) : ℚ) = signed s n := by
  cases s <;> simp [Sign.apply, signed]

theorem signed_mul (s : Sign) (x y : ℚ) : signed s (x * y) = signed s x * y := by
  cases s <;> simp [signed]

theorem signed_neg (s : Sign) (x : ℚ) : signed (-s) x = -signed s x := by
  cases s with
  | negative => exact (neg_neg x).symm
  | positive => rfl

/-- Significands brought to a common exponent, with their signs. -/
theorem aligned_value (s : Sign) (m : Nat) {e t : ℤ} (h : t ≤ e) :
    ((s.apply ((decreaseExponent m e t).1 : ℤ) : ℤ) : ℚ) * 2 ^ t = signed s (m * 2 ^ e) := by
  rw [apply_cast, ← signed_mul, ← decreaseExponent_value m e t, decreaseExponent_eq m h]
  norm_cast

theorem add_result {u v : UnpackedFloat} {x y : ℚ} (hu : Canonical f u) (hv : Canonical f v)
    (hx : value? u = some x) (hy : value? v = some y) : Result f (x + y) (add f u v) := by
  cases u with
  | infinity s => cases hx
  | notANumber => cases hx
  | zero s =>
    obtain rfl : 0 = x := Option.some.inj hx
    rw [zero_add]
    cases v with
    | infinity s => cases hy
    | notANumber => cases hy
    | zero s' =>
      obtain rfl : 0 = y := Option.some.inj hy
      unfold add
      dsimp only
      split <;> exact Result.zero
    | finite s' m e hm => exact Result.of_canonical hv hy
  | finite s m e hm =>
    cases v with
    | infinity s => cases hy
    | notANumber => cases hy
    | zero s' =>
      obtain rfl : 0 = y := Option.some.inj hy
      rw [add_zero]
      exact Result.of_canonical hu hx
    | finite s' m' e' hm' =>
      obtain rfl := Option.some.inj hx
      obtain rfl := Option.some.inj hy
      rw [← aligned_value s m (min_le_left e e'), ← aligned_value s' m' (min_le_right e e'),
        ← add_mul, ← Int.cast_add]
      exact normalize_result

theorem Canonical.neg {u : UnpackedFloat} (hu : Canonical f u) : Canonical f u.neg := by
  cases u with
  | finite s m e hm => exact hu
  | _ => trivial

theorem value?_neg {u : UnpackedFloat} {x : ℚ} (hx : value? u = some x) :
    value? u.neg = some (-x) := by
  cases u with
  | infinity s => cases hx
  | notANumber => cases hx
  | zero s =>
    obtain rfl : 0 = x := Option.some.inj hx
    rw [neg_zero]
    rfl
  | finite s m e hm =>
    obtain rfl := Option.some.inj hx
    rw [← signed_neg]
    rfl

theorem apply_neg (s : Sign) (n : ℤ) : (-s).apply n = -s.apply n := by
  cases s with
  | negative => exact (neg_neg n).symm
  | positive => rfl

/-- A difference is a sum, also in the signs of its zeros. -/
theorem sub_eq_add (u v : UnpackedFloat) : sub f u v = add f u v.neg := by
  cases u with
  | notANumber => rfl
  | infinity s =>
    cases v with
    | infinity s' => cases s <;> cases s' <;> rfl
    | _ => rfl
  | zero s =>
    cases v with
    | zero s' => cases s <;> cases s' <;> rfl
    | _ => rfl
  | finite s m e hm =>
    cases v with
    | finite s' m' e' hm' =>
      unfold sub add UnpackedFloat.neg
      dsimp only
      rw [apply_neg, ← Int.sub_eq_add_neg]
    | _ => rfl

theorem sub_result {u v : UnpackedFloat} {x y : ℚ} (hu : Canonical f u) (hv : Canonical f v)
    (hx : value? u = some x) (hy : value? v = some y) : Result f (x - y) (sub f u v) := by
  rw [sub_eq_add, sub_eq_add_neg]
  exact add_result hu hv.neg hx (value?_neg hy)

/-! ## Products and quotients -/

theorem minExponent_le_zero (f : Format) : f.minExponent ≤ 0 := by
  rw [minExponent_eq]
  have := f.hm
  omega

theorem log2_add_le (m n : Nat) (hm : 0 < m) (hn : 0 < n) :
    m.log2 + n.log2 ≤ (m * n).log2 := by
  rw [Nat.le_log2 (Nat.mul_pos hm hn).ne', pow_add]
  exact Nat.mul_le_mul (Nat.log2_self_le hm.ne') (Nat.log2_self_le hn.ne')

/-- The product of two significands need not be shifted to the left. -/
theorem le_targetExponent_mul {s s' : Sign} {m m' : Nat} {e e' : ℤ} {hm : 0 < m} {hm' : 0 < m'}
    (hu : Canonical f (.finite s m e hm)) (hv : Canonical f (.finite s' m' e' hm')) :
    e + e' ≤ f.targetExponent (totalExponent (m * m') (e + e')) := by
  have hlog := log2_add_le m m' hm hm'
  have hzero := minExponent_le_zero f
  have normal : ∀ {n : Nat}, 0 < n → 2 ^ f.mantissaBitsWithoutImplicit ≤ n →
      f.mantissaBitsWithoutImplicit ≤ n.log2 := fun hn h => (Nat.le_log2 hn.ne').mpr h
  unfold Format.targetExponent totalExponent Format.mantissaBits
  -- one normal factor is enough, and without one the least exponent is large enough
  rcases hu.2.2 with h | h
  · have := normal hm h
    omega
  · rcases hv.2.2 with h' | h'
    · have := normal hm' h'
      omega
    · omega

theorem signed_mul_signed (s s' : Sign) (x y : ℚ) :
    signed (s * s') (x * y) = signed s x * signed s' y := by
  cases s with
  | negative =>
    cases s' with
    | negative => exact (neg_mul_neg x y).symm
    | positive => exact (neg_mul x y).symm
  | positive =>
    cases s' with
    | negative => exact (mul_neg x y).symm
    | positive => rfl

theorem mul_result {u v : UnpackedFloat} {x y : ℚ} (hu : Canonical f u) (hv : Canonical f v)
    (hx : value? u = some x) (hy : value? v = some y) : Result f (x * y) (mul f u v) := by
  cases u with
  | infinity s => cases hx
  | notANumber => cases hx
  | zero s =>
    obtain rfl : 0 = x := Option.some.inj hx
    rw [zero_mul]
    cases v with
    | infinity s => cases hy
    | notANumber => cases hy
    | zero s' => exact Result.zero
    | finite s' m e hm => exact Result.zero
  | finite s m e hm =>
    cases v with
    | infinity s => cases hy
    | notANumber => cases hy
    | zero s' =>
      obtain rfl : 0 = y := Option.some.inj hy
      rw [mul_zero]
      exact Result.zero
    | finite s' m' e' hm' =>
      obtain rfl := Option.some.inj hx
      obtain rfl := Option.some.inj hy
      have hprod : (m : ℚ) * 2 ^ e * (m' * 2 ^ e') = (m * m' : ℕ) * 2 ^ (e + e') := by
        rw [zpow_add₀ two_ne_zero]
        push_cast
        ring
      have hpos : (0 : ℚ) < (m * m' : ℕ) * 2 ^ (e + e') :=
        significand_pos (Nat.mul_pos hm hm') _
      rw [← signed_mul_signed, hprod, Result, rounded_signed hpos]
      exact roundWithAccuracy_rounds (Nat.mul_pos hm hm') (sub_self _)
        (le_targetExponent_mul hu hv)

theorem cutOff_accuracyOfFraction {n d : Nat} (h : n < d) :
    CutOff (accuracyOfFraction n d) ((n : ℚ) / d) := by
  have hd : (0 : ℚ) < d := by exact_mod_cast (Nat.zero_le n).trans_lt h
  unfold accuracyOfFraction
  split
  · next hzero => simp [CutOff, hzero]
  · next hzero =>
    have hn : (0 : ℚ) < n := by exact_mod_cast Nat.pos_of_ne_zero hzero
    have hlt : (n : ℚ) / d < 1 := by rw [div_lt_one hd]; exact_mod_cast h
    rcases lt_trichotomy (2 * n) d with hc | hc | hc
    · rw [Nat.compare_eq_lt.mpr hc]
      refine ⟨div_pos hn hd, ?_⟩
      rw [div_lt_div_iff₀ hd two_pos]
      exact_mod_cast (by omega : n * 2 < 1 * d)
    · rw [Nat.compare_eq_eq.mpr hc]
      show (n : ℚ) / d = 1 / 2
      rw [div_eq_div_iff hd.ne' two_ne_zero]
      exact_mod_cast (by omega : n * 2 = 1 * d)
    · rw [Nat.compare_eq_gt.mpr hc]
      refine ⟨?_, hlt⟩
      rw [div_lt_div_iff₀ two_pos hd]
      exact_mod_cast (by omega : 1 * d < n * 2)

theorem signed_div_signed (s s' : Sign) (x y : ℚ) :
    signed (s / s') (x / y) = signed s x / signed s' y := by
  cases s with
  | negative =>
    cases s' with
    | negative => exact (neg_div_neg_eq x y).symm
    | positive => exact (neg_div y x).symm
  | positive =>
    cases s' with
    | negative => exact (div_neg x).symm
    | positive => rfl

/-- A number between powers of two by the place of its leading digit. -/
theorem totalExponent_bounds {m : Nat} (hm : 0 < m) (e : ℤ) :
    (2 : ℚ) ^ (totalExponent m e - 1) ≤ m * 2 ^ e ∧
      (m : ℚ) * 2 ^ e < 2 ^ totalExponent m e := by
  have hx : (0 : ℚ) < m * 2 ^ e := significand_pos hm e
  have hlog := log_significand (e := e) hm le_rfl (lt_add_one (m : ℚ))
  constructor
  · refine (Int.zpow_le_iff_le_log one_lt_two hx).mpr ?_
    rw [hlog, totalExponent]
    omega
  · refine (Int.lt_zpow_iff_log_lt one_lt_two hx).mpr ?_
    rw [hlog, totalExponent]
    omega

/-- The logarithm of a quotient is known to within one. -/
theorem log_quotient {m m' : Nat} (hm : 0 < m) (hm' : 0 < m') (e e' : ℤ) :
    totalExponent m e - totalExponent m' e' - 1 ≤
      Int.log 2 ((m : ℚ) * 2 ^ e / (m' * 2 ^ e')) := by
  have hnum := totalExponent_bounds hm e
  have hden := totalExponent_bounds hm' e'
  have hx : (0 : ℚ) < m * 2 ^ e := significand_pos hm e
  have hy : (0 : ℚ) < m' * 2 ^ e' := significand_pos hm' e'
  refine (Int.zpow_le_iff_le_log one_lt_two (div_pos hx hy)).mp ?_
  rw [le_div_iff₀ hy]
  calc (2 : ℚ) ^ (totalExponent m e - totalExponent m' e' - 1) * (m' * 2 ^ e')
      ≤ 2 ^ (totalExponent m e - totalExponent m' e' - 1) * 2 ^ totalExponent m' e' :=
        mul_le_mul_of_nonneg_left hden.2.le (two_zpow_pos _).le
    _ = 2 ^ (totalExponent m e - 1) := by
        rw [← zpow_add₀ two_ne_zero]
        congr 1
        ring
    _ ≤ m * 2 ^ e := hnum.1

/-- The numerator can be shifted to the left before it is divided. -/
theorem shifted_quotient (m m' : Nat) {e e' t : ℤ} (h : t ≤ e - e') :
    (m : ℚ) * 2 ^ e / (m' * 2 ^ e') = (m <<< (e - e' - t).toNat : ℕ) / m' * 2 ^ t := by
  have hk : ((e - e' - t).toNat : ℤ) = e - e' - t := Int.toNat_of_nonneg (by omega)
  have hshift : ((m <<< (e - e' - t).toNat : ℕ) : ℚ) = m * 2 ^ (e - e' - t) := by
    rw [Nat.shiftLeft_eq, ← hk, zpow_natCast]
    push_cast
    rfl
  rw [hshift, zpow_sub₀ two_ne_zero, zpow_sub₀ two_ne_zero]
  field_simp

/-- What an integer division leaves of a quotient. -/
theorem quotient_sub (n : Nat) {d : Nat} (hd : 0 < d) :
    (n : ℚ) / d - (n / d : ℕ) = (n % d : ℕ) / d := by
  have hcast : (n : ℚ) = d * (n / d : ℕ) + (n % d : ℕ) := by
    exact_mod_cast (Nat.div_add_mod n d).symm
  have hne : (d : ℚ) ≠ 0 := by exact_mod_cast hd.ne'
  rw [eq_div_iff hne, sub_mul, div_mul_cancel₀ _ hne]
  linarith

/-- The quotient of two finite values is rounded. -/
theorem div_finite {s s' : Sign} {m m' : Nat} {e e' : ℤ} {hm : 0 < m} {hm' : 0 < m'} :
    Result f (signed s (m * 2 ^ e) / signed s' (m' * 2 ^ e'))
      (div f (.finite s m e hm) (.finite s' m' e' hm')) := by
  have hlog := log_quotient hm hm' e e'
  have hvpos : (0 : ℚ) < m * 2 ^ e / (m' * 2 ^ e') :=
    div_pos (significand_pos hm e) (significand_pos hm' e')
  unfold div
  dsimp only [divCore]
  generalize hT : totalExponent m e - totalExponent m' e' = T at *
  generalize ht : min (e - e') (f.targetExponent T) = t
  have hte : t ≤ e - e' := ht ▸ min_le_left _ _
  have htT : t ≤ T - f.mantissaBits ∨ t ≤ f.minExponent := by
    have : t ≤ f.targetExponent T := ht ▸ min_le_right _ _
    unfold Format.targetExponent at this
    omega
  have hvalue := shifted_quotient m m' hte
  generalize m <<< (e - e' - t).toNat = M at *
  have hcut := cutOff_accuracyOfFraction (Nat.mod_lt M hm')
  rw [← quotient_sub M hm'] at hcut
  have hbounds := hcut.bounds
  rw [hvalue] at hvpos hlog
  rw [← signed_div_signed, Result, hvalue, rounded_signed hvpos]
  rcases Nat.eq_zero_or_pos (M / m') with hzero | hq1
  · -- with no digit before the point, the shift went as far as the least exponent
    rw [hzero, Nat.cast_zero, sub_zero] at hcut
    have hfrac : (0 : ℚ) < M / m' := pos_of_mul_pos_left hvpos (two_zpow_pos t).le
    have hsmall : Int.log 2 ((M : ℚ) / m' * 2 ^ t) < t := by
      refine (Int.lt_zpow_iff_log_lt one_lt_two hvpos).mp ?_
      exact mul_lt_of_lt_one_left (two_zpow_pos t) hcut.bounds.2
    rw [hzero]
    refine roundWithAccuracy_rounds_zero hfrac hcut (htT.resolve_left ?_)
    unfold Format.mantissaBits
    omega
  · have hplace := log_significand (e := t) hq1 (x := (M : ℚ) / m') (by linarith) (by linarith)
    refine roundWithAccuracy_rounds hq1 hcut ?_
    rw [hplace] at hlog
    unfold Format.targetExponent Format.mantissaBits totalExponent at *
    omega

theorem value?_eq_zero {u : UnpackedFloat} (hu : value? u = some 0) : ∃ s, u = .zero s := by
  cases u with
  | infinity s => cases hu
  | notANumber => cases hu
  | zero s => exact ⟨s, rfl⟩
  | finite s m e hm =>
    have hpos : (0 : ℚ) < m * 2 ^ e := significand_pos hm e
    have habs := abs_signed (s := s) hpos.le
    rw [Option.some.inj hu, abs_zero] at habs
    exact absurd habs hpos.ne

/-- A quotient is rounded. -/
theorem div_result {u v : UnpackedFloat} {x y : ℚ} (hx : value? u = some x)
    (hy : value? v = some y) (hy0 : y ≠ 0) : Result f (x / y) (div f u v) := by
  cases v with
  | infinity s => cases hy
  | notANumber => cases hy
  | zero s => exact absurd (Option.some.inj hy).symm hy0
  | finite s' m' e' hm' =>
    obtain rfl := Option.some.inj hy
    cases u with
    | infinity s => cases hx
    | notANumber => cases hx
    | zero s =>
      obtain rfl := Option.some.inj hx
      rw [zero_div]
      exact Result.zero
    | finite s m e hm =>
      obtain rfl := Option.some.inj hx
      exact div_finite

end Numeric

end EmbeddingSearch
