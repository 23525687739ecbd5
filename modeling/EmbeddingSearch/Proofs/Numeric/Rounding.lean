import Mathlib.Data.Rat.Floor
import Mathlib.Data.Int.Log
import EmbeddingSearch.Proofs.Numeric.Packing

/-!
# Rounding to nearest

What the arithmetic of a binary format does to an exact result: it takes the nearest value of the
format, and of two equally near ones the one with the even significand.

## Contents
- `halfEven`: the nearest integer.
- `nearest`: the nearest value of a format, as a function on rational numbers.
- `CutOff`, `Approximates`: what the two residual bits of a shifted significand say.
- `roundWithAccuracy_rounds`: rounding by shifts and residual bits gives `nearest`.
- `Representable`, `le_nearest`, `nearest_le`, `nearest_of_representable`: rounding never crosses a
  value of the format, and leaves such values alone.
-/

namespace EmbeddingSearch

namespace Numeric

open Float.Model (Format UnpackedFloat totalExponent)
open Float.Model.UnpackedFloat

/-! ## Integers -/

/-- The integer nearest to a number; of two equally near ones the even one. -/
def halfEven (x : ℚ) : ℤ :=
  match compare (Int.fract x) (1 / 2) with
  | .lt => ⌊x⌋
  | .eq => ⌊x⌋ + ⌊x⌋ % 2
  | .gt => ⌊x⌋ + 1

theorem halfEven_intCast (n : ℤ) : halfEven n = n := by
  have hhalf : compare (Int.fract (n : ℚ)) (1 / 2) = .lt := by
    rw [compare_lt_iff_lt, Int.fract_intCast]
    norm_num
  rw [halfEven, hhalf, Int.floor_intCast]

theorem floor_le_halfEven (x : ℚ) : ⌊x⌋ ≤ halfEven x := by
  unfold halfEven
  split <;> omega

theorem halfEven_le_floor_succ (x : ℚ) : halfEven x ≤ ⌊x⌋ + 1 := by
  unfold halfEven
  split <;> omega

theorem halfEven_mono {x y : ℚ} (h : x ≤ y) : halfEven x ≤ halfEven y := by
  rcases (Int.floor_le_floor h).lt_or_eq with hlt | heq
  · have := halfEven_le_floor_succ x
    have := floor_le_halfEven y
    omega
  · -- with the same integer part, the fractions decide
    have hfract : Int.fract x ≤ Int.fract y := by
      simp only [Int.fract, heq]
      linarith
    unfold halfEven
    rw [← heq]
    rcases lt_trichotomy (Int.fract x) (1 / 2) with hx | hx | hx
    · rw [compare_lt_iff_lt.mpr hx]
      cases compare (Int.fract y) (1 / 2) <;> dsimp only <;> omega
    · rw [compare_eq_iff_eq.mpr hx]
      rcases lt_or_eq_of_le (hx ▸ hfract) with hy | hy
      · rw [compare_gt_iff_gt.mpr hy]
        dsimp only
        omega
      · rw [compare_eq_iff_eq.mpr hy.symm]
    · rw [compare_gt_iff_gt.mpr hx, compare_gt_iff_gt.mpr (hx.trans_le hfract)]

theorem intCast_le_halfEven {n : ℤ} {x : ℚ} (h : (n : ℚ) ≤ x) : n ≤ halfEven x :=
  halfEven_intCast n ▸ halfEven_mono h

theorem halfEven_le_intCast {n : ℤ} {x : ℚ} (h : x ≤ n) : halfEven x ≤ n :=
  halfEven_intCast n ▸ halfEven_mono h

/-! ## Rounded values -/

/-- The exponent of the last place of a positive number in a format. -/
def lastPlace (f : Format) (x : ℚ) : ℤ := f.targetExponent (Int.log 2 x + 1)

/-- The value of a format nearest to a number that is not negative, as if there were no largest
exponent. -/
def nearest (f : Format) (x : ℚ) : ℚ :=
  halfEven (x / 2 ^ lastPlace f x) * 2 ^ lastPlace f x

/-- A number with a sign put in front of it. -/
def signed : Sign → ℚ → ℚ
  | .negative, x => -x
  | .positive, x => x

/-- The number that an unpacked value stands for; infinities and NaN stand for none. -/
def value? : UnpackedFloat → Option ℚ
  | .zero _ => some 0
  | .finite s m e _ => some (signed s (m * 2 ^ e))
  | _ => none

/-! ## Logarithms -/

theorem two_zpow_pos (e : ℤ) : (0 : ℚ) < 2 ^ e := zpow_pos (by norm_num) e

theorem log_eq_of_bounds {x : ℚ} {k : ℤ} (hlo : 2 ^ k ≤ x) (hhi : x < 2 ^ (k + 1)) :
    Int.log 2 x = k := by
  have hx : 0 < x := (two_zpow_pos k).trans_le hlo
  have h1 := (Int.zpow_le_iff_le_log one_lt_two hx).mp hlo
  have h2 := (Int.lt_zpow_iff_log_lt one_lt_two hx).mp hhi
  omega

/-- The binary logarithm of a significand with a fraction behind it. -/
theorem log_significand {m : Nat} {e : ℤ} {x : ℚ} (hm : 0 < m) (hlo : (m : ℚ) ≤ x)
    (hhi : x < m + 1) : Int.log 2 (x * 2 ^ e) = m.log2 + e := by
  have hlog := (Nat.log2_eq_iff hm.ne').mp rfl
  apply log_eq_of_bounds
  · rw [zpow_add₀ two_ne_zero, zpow_natCast]
    have : (2 : ℚ) ^ m.log2 ≤ x := le_trans (by exact_mod_cast hlog.1) hlo
    exact mul_le_mul_of_nonneg_right this (two_zpow_pos e).le
  · rw [show (m.log2 : ℤ) + e + 1 = ((m.log2 + 1 : ℕ) : ℤ) + e by push_cast; ring,
      zpow_add₀ two_ne_zero, zpow_natCast]
    have : x < (2 : ℚ) ^ (m.log2 + 1) := hhi.trans_le (by exact_mod_cast hlog.2)
    exact mul_lt_mul_of_pos_right this (two_zpow_pos e)

/-! ## Shifting -/

/-- Whether `r` is a part of the last place that is cut off with the given accuracy. -/
def CutOff : Accuracy → ℚ → Prop
  | .exact, r => r = 0
  | .inexact .lt, r => 0 < r ∧ r < 1 / 2
  | .inexact .eq, r => r = 1 / 2
  | .inexact .gt, r => 1 / 2 < r ∧ r < 1

/-- Whether a significand with its two residual bits stands for a number. -/
def Approximates (em : ExtendedMantissa) (x : ℚ) : Prop := CutOff em.accuracy (x - em.mantissa)

theorem CutOff.bounds {a : Accuracy} {r : ℚ} (h : CutOff a r) : 0 ≤ r ∧ r < 1 := by
  rcases a with _ | (_ | _ | _) <;> simp only [CutOff] at h <;> constructor <;> linarith

theorem approximates_ofMantissaAndAccuracy {m : Nat} {a : Accuracy} {x : ℚ}
    (h : CutOff a (x - m)) : Approximates (.ofMantissaAndAccuracy m a) x := by
  rcases a with _ | (_ | _ | _) <;> exact h

theorem Approximates.floor_eq {em : ExtendedMantissa} {x : ℚ} (h : Approximates em x) :
    ⌊x⌋ = em.mantissa := by
  have hbounds := CutOff.bounds h
  rw [Int.floor_eq_iff]
  push_cast
  constructor <;> linarith

theorem Approximates.roundedMantissa_eq {em : ExtendedMantissa} {x : ℚ}
    (h : Approximates em x) : (em.roundedMantissa : ℤ) = halfEven x := by
  have hfloor := h.floor_eq
  have hfract : Int.fract x = x - em.mantissa := by
    rw [Int.fract, hfloor]
    rfl
  unfold halfEven ExtendedMantissa.roundedMantissa
  rw [hfract, hfloor]
  unfold Approximates at h
  rcases hacc : em.accuracy with _ | (_ | _ | _) <;> rw [hacc] at h <;>
    simp only [CutOff] at h
  · rw [compare_lt_iff_lt.mpr (by linarith), Accuracy.roundToNearestEven]
  · rw [compare_lt_iff_lt.mpr h.2, Accuracy.roundToNearestEven]
  · rw [compare_eq_iff_eq.mpr h, Accuracy.roundToNearestEven]
    push_cast
    rfl
  · rw [compare_gt_iff_gt.mpr h.1, Accuracy.roundToNearestEven]
    push_cast
    rfl

/-- Halving a number with the bit `b` in front of the part that is cut off. -/
theorem CutOff.half {m m' : Nat} {b r s : Bool} {d : ℚ}
    (h : CutOff (ExtendedMantissa.accuracy ⟨m, r, s⟩) d) :
    CutOff (ExtendedMantissa.accuracy ⟨m', b, r || s⟩) ((d + b.toNat) / 2) := by
  -- the bit that was shifted out last decides about a half, all the others about equality
  rcases r with _ | _ <;> rcases s with _ | _ <;>
    simp only [ExtendedMantissa.accuracy, CutOff] at h
  · cases b <;> norm_num [ExtendedMantissa.accuracy, CutOff, h]
  · obtain ⟨hlo, hhi⟩ := h
    cases b <;> norm_num [ExtendedMantissa.accuracy, CutOff] <;> constructor <;> linarith
  · cases b <;> norm_num [ExtendedMantissa.accuracy, CutOff, h]
  · obtain ⟨hlo, hhi⟩ := h
    cases b <;> norm_num [ExtendedMantissa.accuracy, CutOff] <;> constructor <;> linarith

theorem Approximates.shiftRightOne {em : ExtendedMantissa} {x : ℚ} (h : Approximates em x) :
    Approximates em.shiftRightOne (x / 2) := by
  obtain ⟨m, r, s⟩ := em
  have hbit : m % 2 = (m % 2 != 0).toNat := by
    rcases Nat.mod_two_eq_zero_or_one m with h | h <;> rw [h] <;> rfl
  have hsplit : (m : ℚ) = 2 * (m / 2 : ℕ) + (m % 2 != 0).toNat := by
    exact_mod_cast hbit ▸ (Nat.div_add_mod m 2).symm
  have hpart : x / 2 - (m / 2 : ℕ) = (x - m + (m % 2 != 0).toNat) / 2 := by
    rw [hsplit]
    ring
  unfold Approximates at h ⊢
  rw [ExtendedMantissa.shiftRightOne, hpart]
  exact CutOff.half h

theorem Approximates.shiftRight {em : ExtendedMantissa} {x : ℚ} (h : Approximates em x)
    (n : Nat) : Approximates (em >>> n) (x / 2 ^ n) := by
  show Approximates (n.repeat ExtendedMantissa.shiftRightOne em) _
  induction n with
  | zero => simpa [Nat.repeat] using h
  | succ n ih =>
    rw [pow_succ, ← div_div]
    exact ih.shiftRightOne

/-! ## Rounding -/

/-- Whether an unpacked value is, up to a sign, a number rounded to a format. -/
def Rounds (f : Format) (s : Sign) (x : ℚ) (u : UnpackedFloat) : Prop :=
  Canonical f u ∧ value? u = some (signed s (nearest f x))

theorem lastPlace_significand {f : Format} {m : Nat} {e : ℤ} {x : ℚ} (hm : 0 < m)
    (hlo : (m : ℚ) ≤ x) (hhi : x < m + 1) :
    lastPlace f (x * 2 ^ e) = f.targetExponent (totalExponent m e) := by
  rw [lastPlace, log_significand hm hlo hhi, totalExponent]
  congr 1
  ring

/-- A significand that fits needs no further shift. -/
theorem shiftToTargetExponent_of_lt {f : Format} {m : Nat} {e : ℤ} (hm : m < 2 ^ f.mantissaBits)
    (he : f.minExponent ≤ e) :
    shiftToTargetExponent f m e .exact = (⟨m, false, false⟩, e) := by
  have hlog : m.log2 + 1 ≤ f.mantissaBits := by
    rcases Nat.eq_zero_or_pos m with rfl | hpos
    · simp [Format.mantissaBits]
    · exact (Nat.log2_lt hpos.ne').mpr hm
  have hshift : (f.targetExponent (totalExponent m e) - e).toNat = 0 := by
    unfold Format.targetExponent totalExponent
    omega
  simp only [shiftToTargetExponent, shiftToExponent, hshift, Nat.cast_zero, add_zero]
  rfl

/-- A significand that was rounded up to one bit more than fits is shifted once. -/
theorem shiftToTargetExponent_two_pow {f : Format} {e : ℤ} (he : f.minExponent ≤ e) :
    shiftToTargetExponent f (2 ^ f.mantissaBits) e .exact
      = (⟨2 ^ f.mantissaBitsWithoutImplicit, false, false⟩, e + 1) := by
  have hshift : (f.targetExponent (totalExponent (2 ^ f.mantissaBits) e) - e).toNat = 1 := by
    unfold Format.targetExponent totalExponent
    rw [Nat.log2_two_pow]
    omega
  have hpow : 2 ^ f.mantissaBits = 2 * 2 ^ f.mantissaBitsWithoutImplicit := by
    rw [Format.mantissaBits, pow_add, pow_one]
  simp only [shiftToTargetExponent, shiftToExponent, hshift, Nat.cast_one]
  show (ExtendedMantissa.shiftRightOne ⟨2 ^ f.mantissaBits, false, false⟩, e + 1) = _
  simp [ExtendedMantissa.shiftRightOne, hpow]

/-- The significand of a rounded number, before it is shifted once more if need be. -/
theorem roundedMantissa_bounds {f : Format} {m : Nat} {e : ℤ} {x : ℚ} {r : Nat} (hm : 0 < m)
    (hlo : (m : ℚ) ≤ x) (hhi : x < m + 1)
    (hr : (r : ℤ) = halfEven (x * 2 ^ e / 2 ^ f.targetExponent (totalExponent m e))) :
    r ≤ 2 ^ f.mantissaBits ∧ (2 ^ f.mantissaBitsWithoutImplicit ≤ r ∨
      f.targetExponent (totalExponent m e) = f.minExponent) := by
  have hlog := log_significand (e := e) hm hlo hhi
  have hx : 0 < x * 2 ^ e :=
    mul_pos (lt_of_lt_of_le (by exact_mod_cast hm) hlo) (two_zpow_pos e)
  generalize ht : f.targetExponent (totalExponent m e) = t at hr ⊢
  have htarget : t = max (m.log2 + 1 + e - f.mantissaBits) f.minExponent := ht.symm
  constructor
  · have hupper : x * 2 ^ e / 2 ^ t ≤ ((2 ^ f.mantissaBits : ℤ) : ℚ) := by
      rw [div_le_iff₀ (two_zpow_pos t)]
      push_cast
      rw [← zpow_natCast, ← zpow_add₀ two_ne_zero]
      exact ((Int.lt_zpow_iff_log_lt one_lt_two hx).mpr (by rw [hlog]; omega)).le
    have := halfEven_le_intCast hupper
    exact_mod_cast hr ▸ this
  · by_cases hmin : t = f.minExponent
    · exact Or.inr hmin
    left
    have hlower : ((2 ^ f.mantissaBitsWithoutImplicit : ℤ) : ℚ) ≤ x * 2 ^ e / 2 ^ t := by
      rw [le_div_iff₀ (two_zpow_pos t)]
      push_cast
      rw [← zpow_natCast, ← zpow_add₀ two_ne_zero]
      refine (Int.zpow_le_iff_le_log one_lt_two hx).mpr ?_
      rw [hlog]
      unfold Format.mantissaBits at htarget
      omega
    have := intCast_le_halfEven hlower
    exact_mod_cast hr ▸ this

/-- A significand is shifted to the last place of a number, rounded there, and shifted once more if it
was rounded up to one bit more than fits. -/
theorem roundWithAccuracy_of_lastPlace {f : Format} {s : Sign} {m : Nat} {e : ℤ} {a : Accuracy}
    {x : ℚ} (hx : CutOff a (x - m)) (he : e ≤ f.targetExponent (totalExponent m e))
    (hplace : lastPlace f (x * 2 ^ e) = f.targetExponent (totalExponent m e))
    (hbounds : ∀ r : Nat,
      (r : ℤ) = halfEven (x * 2 ^ e / 2 ^ f.targetExponent (totalExponent m e)) →
        r ≤ 2 ^ f.mantissaBits ∧ (2 ^ f.mantissaBitsWithoutImplicit ≤ r ∨
          f.targetExponent (totalExponent m e) = f.minExponent)) :
    Rounds f s (x * 2 ^ e) (roundWithAccuracy f s m e a) := by
  have hmin : f.minExponent ≤ f.targetExponent (totalExponent m e) := le_max_right _ _
  unfold roundWithAccuracy
  generalize ht : f.targetExponent (totalExponent m e) = t at *
  have hk : ((t - e).toNat : ℤ) = t - e := Int.toNat_of_nonneg (by omega)
  have hfirst : shiftToTargetExponent f m e a
      = (ExtendedMantissa.ofMantissaAndAccuracy m a >>> (t - e).toNat, t) := by
    simp only [shiftToTargetExponent, shiftToExponent, ht, hk]
    congr 1
    ring
  rw [hfirst]
  dsimp only
  generalize hem : ExtendedMantissa.ofMantissaAndAccuracy m a >>> (t - e).toNat = em at *
  have hvalue : x * 2 ^ e / 2 ^ t = x / 2 ^ (t - e).toNat := by
    rw [← zpow_natCast, hk, zpow_sub₀ two_ne_zero]
    field_simp
  have hround : (em.roundedMantissa : ℤ) = halfEven (x * 2 ^ e / 2 ^ t) := by
    rw [hvalue, ← hem]
    exact ((approximates_ofMantissaAndAccuracy hx).shiftRight _).roundedMantissa_eq
  obtain ⟨hle, hnormal⟩ := hbounds _ hround
  have hnearest : nearest f (x * 2 ^ e) = em.roundedMantissa * 2 ^ t := by
    rw [nearest, hplace, ← hround]
    push_cast
    rfl
  rw [Rounds, hnearest]
  generalize em.roundedMantissa = r at *
  -- rounding up may carry into one bit more than fits, and only then is there a second shift
  rcases hle.lt_or_eq with hlt | rfl
  · rw [shiftToTargetExponent_of_lt hlt hmin]
    dsimp only
    split
    · next hzero =>
      subst hzero
      exact ⟨trivial, by cases s <;> simp [value?, signed]⟩
    · exact ⟨⟨hlt, hmin, hnormal⟩, rfl⟩
  · rw [shiftToTargetExponent_two_pow hmin]
    dsimp only
    rw [dif_neg (Nat.two_pow_pos _).ne']
    refine ⟨⟨?_, by omega, Or.inl le_rfl⟩, ?_⟩
    · rw [Format.mantissaBits, pow_add]
      have := Nat.two_pow_pos f.mantissaBitsWithoutImplicit
      omega
    · rw [value?, zpow_add₀ two_ne_zero, Format.mantissaBits]
      push_cast
      ring_nf

/-- Rounding gives the nearest value of the format, in canonical form. -/
theorem roundWithAccuracy_rounds {f : Format} {s : Sign} {m : Nat} {e : ℤ} {a : Accuracy} {x : ℚ}
    (hm : 0 < m) (hx : CutOff a (x - m)) (he : e ≤ f.targetExponent (totalExponent m e)) :
    Rounds f s (x * 2 ^ e) (roundWithAccuracy f s m e a) := by
  have hbounds := hx.bounds
  have hlo : (m : ℚ) ≤ x := by linarith
  have hhi : x < m + 1 := by linarith
  exact roundWithAccuracy_of_lastPlace hx he (lastPlace_significand hm hlo hhi)
    fun r hr => roundedMantissa_bounds hm hlo hhi hr

/-- A number below the least value of the format is rounded to that value or to zero. -/
theorem roundWithAccuracy_rounds_zero {f : Format} {s : Sign} {e : ℤ} {a : Accuracy} {x : ℚ}
    (hpos : 0 < x) (hx : CutOff a x) (he : e ≤ f.minExponent) :
    Rounds f s (x * 2 ^ e) (roundWithAccuracy f s 0 e a) := by
  have htarget : f.targetExponent (totalExponent 0 e) = f.minExponent := by
    unfold Format.targetExponent totalExponent Format.mantissaBits
    rw [Nat.log2_zero]
    omega
  have hlog : Int.log 2 (x * 2 ^ e) < e := by
    refine (Int.lt_zpow_iff_log_lt one_lt_two (mul_pos hpos (two_zpow_pos e))).mp ?_
    exact mul_lt_of_lt_one_left (two_zpow_pos e) hx.bounds.2
  have hplace : lastPlace f (x * 2 ^ e) = f.minExponent := by
    unfold lastPlace Format.targetExponent Format.mantissaBits
    omega
  have hcut : CutOff a (x - (0 : ℕ)) := by rwa [Nat.cast_zero, sub_zero]
  refine roundWithAccuracy_of_lastPlace hcut (htarget ▸ he) (hplace.trans htarget.symm) ?_
  intro r hr
  refine ⟨?_, .inr htarget⟩
  have hone : x * 2 ^ e / 2 ^ f.targetExponent (totalExponent 0 e) ≤ ((1 : ℤ) : ℚ) := by
    rw [htarget, div_le_iff₀ (two_zpow_pos _), Int.cast_one, one_mul]
    exact ((mul_lt_of_lt_one_left (two_zpow_pos e) hx.bounds.2).le).trans
      (zpow_le_zpow_right₀ one_le_two he)
  have hle := halfEven_le_intCast hone
  have := Nat.one_le_two_pow (n := f.mantissaBits)
  omega

/-! ## The nearest value -/

/-- Whether a number that is not negative is a value of a format, were there no largest exponent. -/
def Representable (f : Format) (x : ℚ) : Prop :=
  ∃ (m : Nat) (e : ℤ), x = m * 2 ^ e ∧ m < 2 ^ f.mantissaBits ∧ f.minExponent ≤ e

theorem representable_two_zpow {f : Format} {e : ℤ} (he : f.minExponent ≤ e) :
    Representable f (2 ^ e) :=
  ⟨1, e, by simp, Nat.one_lt_two_pow (by simp [Format.mantissaBits]), he⟩

theorem representable_natCast {f : Format} {n : Nat} (hn : n < 2 ^ f.mantissaBits)
    (hmin : f.minExponent ≤ 0) : Representable f n :=
  ⟨n, 0, by simp, hn, hmin⟩

/-- A multiple of the last place of another number stays below it, or above it, when that number is
rounded. -/
theorem halfEven_div {x : ℚ} {m : Nat} {e t : ℤ} (h : t ≤ e) :
    ((m : ℚ) * 2 ^ e ≤ x → (m : ℚ) * 2 ^ e ≤ halfEven (x / 2 ^ t) * 2 ^ t) ∧
      (x ≤ m * 2 ^ e → (halfEven (x / 2 ^ t) : ℚ) * 2 ^ t ≤ m * 2 ^ e) := by
  obtain ⟨k, rfl⟩ := Int.le.dest h
  have hsplit : (m : ℚ) * 2 ^ (t + k) = ((m * 2 ^ k : ℤ) : ℚ) * 2 ^ t := by
    rw [zpow_add₀ two_ne_zero, zpow_natCast]
    push_cast
    ring
  rw [hsplit]
  constructor <;> intro hx
  · refine mul_le_mul_of_nonneg_right ?_ (two_zpow_pos t).le
    exact_mod_cast intCast_le_halfEven ((le_div_iff₀ (two_zpow_pos t)).mpr hx)
  · refine mul_le_mul_of_nonneg_right ?_ (two_zpow_pos t).le
    exact_mod_cast halfEven_le_intCast ((div_le_iff₀ (two_zpow_pos t)).mpr hx)

theorem lastPlace_cases (f : Format) (x : ℚ) : lastPlace f x = f.minExponent ∨
    lastPlace f x = Int.log 2 x - f.mantissaBitsWithoutImplicit := by
  unfold lastPlace Format.targetExponent Format.mantissaBits
  omega

theorem lt_two_zpow_of_significand {f : Format} {m : Nat} {e : ℤ} (hm : m < 2 ^ f.mantissaBits) :
    (m : ℚ) * 2 ^ e < 2 ^ (f.mantissaBitsWithoutImplicit + 1 + e) := by
  rw [show (f.mantissaBitsWithoutImplicit : ℤ) + 1 + e = (f.mantissaBits : ℤ) + e by
    unfold Format.mantissaBits; push_cast; ring, zpow_add₀ two_ne_zero, zpow_natCast]
  exact mul_lt_mul_of_pos_right (by exact_mod_cast hm) (two_zpow_pos e)

/-- The largest value of a format below a power of two. -/
theorem Representable.le_of_lt {f : Format} {x : ℚ} {k : ℤ} (hx : Representable f x)
    (hlt : x < 2 ^ (k + f.mantissaBits)) : x ≤ (2 ^ f.mantissaBits - 1) * 2 ^ k := by
  obtain ⟨m, e, rfl, hm, -⟩ := hx
  have htop : (m : ℚ) ≤ 2 ^ f.mantissaBits - 1 := by
    have : (m : ℚ) + 1 ≤ 2 ^ f.mantissaBits := by exact_mod_cast hm
    linarith
  rcases le_total e k with h | h
  · exact mul_le_mul htop (zpow_le_zpow_right₀ one_le_two h) (two_zpow_pos e).le
      (m.cast_nonneg.trans htop)
  · -- a larger exponent makes a multiple of the last place
    obtain ⟨j, rfl⟩ := Int.le.dest h
    have hsplit : (m : ℚ) * 2 ^ (k + j) = (m * 2 ^ j : ℕ) * 2 ^ k := by
      rw [zpow_add₀ two_ne_zero, zpow_natCast]
      push_cast
      ring
    rw [hsplit] at hlt ⊢
    rw [add_comm k, zpow_add₀ two_ne_zero, zpow_natCast] at hlt
    have hnat : m * 2 ^ j < 2 ^ f.mantissaBits := by
      exact_mod_cast lt_of_mul_lt_mul_right hlt (two_zpow_pos k).le
    refine mul_le_mul_of_nonneg_right ?_ (two_zpow_pos k).le
    have : ((m * 2 ^ j : ℕ) : ℚ) + 1 ≤ 2 ^ f.mantissaBits := by exact_mod_cast hnat
    linarith

/-- Rounding does not go below a value of the format. -/
theorem le_nearest {f : Format} {x y : ℚ} (hy : Representable f y) (hx : 0 < x) (h : y ≤ x) :
    y ≤ nearest f x := by
  obtain ⟨m, e, rfl, hm, he⟩ := hy
  by_cases hplace : lastPlace f x ≤ e
  · exact (halfEven_div hplace).1 h
  · -- the power of two below `x` is a multiple of its last place, and above `y`
    have hlog := (lastPlace_cases f x).resolve_left (by omega)
    have hpow : (2 : ℚ) ^ Int.log 2 x ≤ nearest f x := by
      have := (halfEven_div (x := x) (m := 1) (e := Int.log 2 x) (t := lastPlace f x)
        (by omega)).1
      simp only [Nat.cast_one, one_mul] at this
      exact this (Int.zpow_log_le_self one_lt_two hx)
    refine le_trans (lt_two_zpow_of_significand hm).le (le_trans ?_ hpow)
    exact zpow_le_zpow_right₀ one_le_two (by omega)

/-- Rounding does not go above a value of the format. -/
theorem nearest_le {f : Format} {x y : ℚ} (hy : Representable f y) (hx : 0 < x) (h : x ≤ y) :
    nearest f x ≤ y := by
  obtain ⟨m, e, rfl, hm, he⟩ := hy
  by_cases hplace : lastPlace f x ≤ e
  · exact (halfEven_div hplace).2 h
  · -- a number with a larger last place than `y` is larger itself
    have hlog := (lastPlace_cases f x).resolve_left (by omega)
    have hpow := Int.zpow_log_le_self (R := ℚ) one_lt_two hx
    have hlt := lt_two_zpow_of_significand (e := e) hm
    have hle : (2 : ℚ) ^ (f.mantissaBitsWithoutImplicit + 1 + e) ≤ 2 ^ Int.log 2 x :=
      zpow_le_zpow_right₀ one_le_two (by omega)
    push_cast at *
    linarith

/-- A value of the format is not changed. -/
theorem nearest_of_representable {f : Format} {x : ℚ} (hx : Representable f x) :
    nearest f x = x := by
  rcases (show 0 ≤ x by
    obtain ⟨m, e, rfl, -⟩ := hx
    exact mul_nonneg m.cast_nonneg (two_zpow_pos e).le).eq_or_lt with rfl | hpos
  · simp [nearest, show halfEven 0 = 0 from halfEven_intCast 0]
  · exact le_antisymm (nearest_le hx hpos le_rfl) (le_nearest hx hpos le_rfl)

end Numeric

end EmbeddingSearch
