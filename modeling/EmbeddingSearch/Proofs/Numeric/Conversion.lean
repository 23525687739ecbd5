import EmbeddingSearch.Numeric.Binary
import EmbeddingSearch.Proofs.Numeric.Number

/-!
# Conversion between the two formats

Every finite binary32 value is a binary64 value, and going there and back again gives the same
value with the same sign, a zero included.

## Contents
- `Canonical.eq_of_value`: no two canonical values stand for the same number, zero apart.
- `le_maxExponent_unpack`: the exponents of bit patterns are bounded.
- `number?_widen`: widening keeps the number.
- `narrow_widen`: narrowing takes widening back.
-/

namespace EmbeddingSearch

namespace Numeric

open Float.Model (Format UnpackedFloat)
open Float.Model.UnpackedFloat

variable {f : Format}

/-! ## One canonical value for a number -/

theorem signed_pos_iff {s : Sign} {x : ℚ} (hx : 0 < x) : 0 < signed s x ↔ s = .positive := by
  cases s with
  | negative => simp [signed, hx.le]
  | positive => simp [signed, hx]

theorem Canonical.eq_of_value {u v : UnpackedFloat} {x : ℚ} (hu : Canonical f u)
    (hv : Canonical f v) (hux : value? u = some x) (hvx : value? v = some x) (hx : x ≠ 0) :
    u = v := by
  cases u with
  | infinity s => cases hux
  | notANumber => cases hux
  | zero s => exact absurd (Option.some.inj hux).symm hx
  | finite s m e hm =>
    cases v with
    | infinity s => cases hvx
    | notANumber => cases hvx
    | zero s => exact absurd (Option.some.inj hvx).symm hx
    | finite s' m' e' hm' =>
      have hpos : (0 : ℚ) < m * 2 ^ e := significand_pos hm e
      have hpos' : (0 : ℚ) < m' * 2 ^ e' := significand_pos hm' e'
      have heq : signed s (m * 2 ^ e) = signed s' (m' * 2 ^ e') :=
        (Option.some.inj hux).trans (Option.some.inj hvx).symm
      have hsign : s = .positive ↔ s' = .positive := by
        rw [← signed_pos_iff hpos, ← signed_pos_iff hpos', heq]
      have habs : (m : ℚ) * 2 ^ e = m' * 2 ^ e' := by
        rw [← abs_signed (s := s) hpos.le, heq, abs_signed hpos'.le]
      -- the larger exponent would be that of the larger number
      obtain rfl : e = e' := by
        rcases lt_trichotomy e e' with h | h | h
        · exact absurd habs (lt_of_exponent_lt hu hv h).ne
        · exact h
        · exact absurd habs (lt_of_exponent_lt hv hu h).ne'
      obtain rfl : m = m' := by exact_mod_cast mul_right_cancel₀ (two_zpow_pos e).ne' habs
      obtain rfl : s = s' := by cases s <;> cases s' <;> simp_all
      rfl

/-! ## The range of a format -/

theorem toNat_succ_lt {n : Nat} {c : BitVec n} (hc : c ≠ -1#n) : c.toNat + 1 < 2 ^ n := by
  have hne : c.toNat ≠ 2 ^ n - 1 := by
    intro hall
    apply hc
    rw [BitVec.neg_one_eq_allOnes]
    exact BitVec.eq_of_toNat_eq (by simpa using hall)
  have := c.isLt
  omega

/-- The largest stored exponent is kept for infinities and NaN. -/
theorem le_maxExponent_unpack (hbias : 0 < f.exponentBias) {b : BitVec f.numBits} {s : Sign}
    {m : Nat} {e : ℤ} {hm : 0 < m} (h : unpack f b = .finite s m e hm) : e ≤ maxExponent f := by
  have hbits := two_pow_exponentBits f
  unfold unpack at h
  dsimp only at h
  unfold maxExponent
  split at h
  · split at h <;> cases h
  · next hfinite =>
    have hlt := toNat_succ_lt hfinite
    split at h
    · next hzero =>
      split at h
      · cases h
      · have hexp := (UnpackedFloat.finite.inj h).2.2
        rw [hzero, BitVec.toNat_zero] at hexp
        omega
    · have hexp := (UnpackedFloat.finite.inj h).2.2
      omega

/-- The numbers of binary32 values are bounded. -/
theorem abs_value_lt {x : Float32} {a : ℚ} (hx : value? x.toModel.unpack = some a) :
    |a| < 2 ^ (128 : ℤ) := by
  have hc : Canonical .binary32 x.toModel.unpack := canonical_unpack _ _
  generalize hu : x.toModel.unpack = u at hx hc
  cases u with
  | infinity s => cases hx
  | notANumber => cases hx
  | zero s =>
    obtain rfl : 0 = a := Option.some.inj hx
    rw [abs_zero]
    exact two_zpow_pos _
  | finite s m e hm =>
    obtain rfl : signed s (m * 2 ^ e) = a := Option.some.inj hx
    have hexp : e ≤ 104 := le_maxExponent_unpack (f := .binary32) (by decide) hu
    rw [abs_signed (significand_nonneg m e)]
    refine (lt_two_zpow_of_significand hc.1).trans_le (zpow_le_zpow_right₀ one_le_two ?_)
    show (23 : ℤ) + 1 + e ≤ 128
    omega

/-- The values of binary32 are values of binary64. -/
theorem Representable.widen {x : ℚ} (h : Representable .binary32 x) :
    Representable .binary64 x := by
  obtain ⟨m, e, rfl, hm, he⟩ := h
  refine ⟨m, e, rfl, hm.trans_le (Nat.pow_le_pow_right two_pos (by decide)), ?_⟩
  exact le_trans (by decide) he

/-! ## Rounding to another format -/

theorem roundTo_result {u : UnpackedFloat} {x : ℚ} (hu : value? u = some x) :
    Result f x (roundTo f u) := by
  cases u with
  | infinity s => cases hu
  | notANumber => cases hu
  | zero s =>
    obtain rfl : 0 = x := Option.some.inj hu
    exact Result.zero
  | finite s m e hm =>
    obtain rfl : signed s (m * 2 ^ e) = x := Option.some.inj hu
    exact round_result hm

/-- Widening is exact. -/
theorem number?_widen {x : Float32} {a : ℚ} (hx : value? x.toModel.unpack = some a) :
    number? (widen x) = some a := by
  have hrepr : Representable .binary32 |a| :=
    representable_of_canonical (canonical_unpack _ _) hx
  have hbound : |a| ≤ 2 ^ (1023 : ℤ) :=
    (abs_value_lt hx).le.trans (zpow_le_zpow_right₀ one_le_two (by omega))
  rw [widen, number?_pack (roundTo_result hx) hbound, rounded_of_representable hrepr.widen]

theorem isFinite_iff {u : UnpackedFloat} : u.isFinite ↔ ∃ x, value? u = some x := by
  cases u with
  | infinity s => simp [UnpackedFloat.isFinite, value?]
  | notANumber => simp [UnpackedFloat.isFinite, value?]
  | zero s => simp [UnpackedFloat.isFinite, value?]
  | finite s m e hm => simp [UnpackedFloat.isFinite, value?]

/-- What is finite stays so. -/
theorem isFinite_widen {x : Float32} (hx : x.isFinite) : (widen x).isFinite := by
  obtain ⟨a, ha⟩ := isFinite_iff.mp hx
  exact isFinite_iff.mpr ⟨a, number?_widen ha⟩

/-- A binary32 value is determined by its parts. -/
theorem pack_unpack_single (x : Float32) : (⟨.pack x.toModel.unpack⟩ : Float32) = x := by
  apply Float32.toBits_inj.mp
  apply UInt32.toBitVec_inj.mp
  exact pack_unpack_of_valid x.toModel.valid

/-- No finite binary32 value is lost in binary64. -/
theorem narrow_widen {x : Float32} (hx : x.isFinite) : narrow (widen x) = x := by
  have hc : Canonical .binary32 x.toModel.unpack := canonical_unpack _ _
  obtain ⟨a, ha⟩ := isFinite_iff.mp hx
  have hback : roundTo .binary32 (widen x).toModel.unpack = x.toModel.unpack := by
    by_cases hzero : a = 0
    · -- a zero is not rounded, so that it keeps its sign
      obtain ⟨s, hs⟩ := value?_eq_zero (hzero ▸ ha)
      have hwide : (widen x).toModel.unpack = .zero s := by
        rw [widen, hs]
        exact unpack_packedZero
      rw [hwide, hs]
      rfl
    · obtain ⟨hcanonical, hvalue⟩ := roundTo_result (f := .binary32) (number?_widen ha)
      rw [rounded_value hc ha] at hvalue
      exact hcanonical.eq_of_value hc hvalue ha hzero
  rw [narrow, hback, pack_unpack_single]

end Numeric

end EmbeddingSearch
