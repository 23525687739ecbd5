import EmbeddingSearch.Proofs.Numeric.RoundingError

/-!
# Square roots

The square root of a value is in general not rational, and what is computed is the rounding of it all
the same: on either side of the root there is a rational number that is rounded to the result.

## Contents
- `exists_squares`: rational numbers on both sides of a root.
- `cutOff_sqrt`: what the remainder of an integer root says about the part that is cut off.
- `sqrt_result`: the computed root is the rounding of a number whose square is not above the
  radicand, and of one whose square is not below it.
-/

namespace EmbeddingSearch

namespace Numeric

open Float.Model (Format UnpackedFloat totalExponent)
open Float.Model.UnpackedFloat

variable {f : Format}

/-! ## Integer roots -/

/-- Between two numbers whose squares lie on both sides of a third one, there are numbers as near to
its root as one likes. -/
theorem exists_squares {c d q : ℚ} (hc : 0 ≤ c) (hd : 0 ≤ d) (hcq : c ^ 2 < q) (hqd : q < d ^ 2) :
    ∃ x y : ℚ, (c < x ∧ x < d ∧ x ^ 2 ≤ q) ∧ c < y ∧ y < d ∧ q ≤ y ^ 2 := by
  have hq : (0 : ℝ) ≤ q := by
    have : 0 ≤ q := (sq_nonneg c).trans hcq.le
    exact_mod_cast this
  have hlow : (c : ℝ) < √(q : ℝ) := by
    apply Real.lt_sqrt_of_sq_lt
    exact_mod_cast hcq
  have hhigh : √(q : ℝ) < d := by
    rw [Real.sqrt_lt hq (by exact_mod_cast hd)]
    exact_mod_cast hqd
  obtain ⟨x, hcx, hx⟩ := exists_rat_btwn hlow
  obtain ⟨y, hy, hyd⟩ := exists_rat_btwn hhigh
  have hx0 : (0 : ℝ) ≤ x := le_trans (by exact_mod_cast hc) hcx.le
  have hy0 : (0 : ℝ) ≤ y := (Real.sqrt_nonneg _).trans hy.le
  refine ⟨x, y, ⟨?_, ?_, ?_⟩, ?_, ?_, ?_⟩
  · exact_mod_cast hcx
  · exact_mod_cast hx.trans hhigh
  · have := (Real.le_sqrt hx0 hq).mp hx.le
    exact_mod_cast this
  · exact_mod_cast hlow.trans hy
  · exact_mod_cast hyd
  · have := (Real.sqrt_le_left hy0).mp hy.le
    exact_mod_cast this

/-- What is left of the radicand says in which half of the last place the root is cut off. -/
theorem cutOff_sqrt {n : Nat} {a : Accuracy}
    (ha : a = if n - n.sqrt * n.sqrt = 0 then .exact
      else .inexact (if n - n.sqrt * n.sqrt ≤ n.sqrt then .lt else .gt)) :
    ∃ x y : ℚ, x ^ 2 ≤ n ∧ n ≤ y ^ 2 ∧ CutOff a (x - n.sqrt) ∧ CutOff a (y - n.sqrt) := by
  have hle := Nat.sqrt_le n
  have hsucc := Nat.lt_succ_sqrt n
  generalize n.sqrt = r at *
  have hr : (0 : ℚ) ≤ r := r.cast_nonneg
  obtain ⟨k, rfl⟩ := Nat.exists_eq_add_of_le hle
  rw [Nat.add_sub_cancel_left] at ha
  have hk : k ≤ 2 * r := by
    rw [Nat.succ_mul_succ_eq] at hsucc
    omega
  push_cast
  by_cases hzero : k = 0
  · rw [if_pos hzero] at ha
    subst ha
    refine ⟨r, r, ?_, ?_, sub_self _, sub_self _⟩ <;> rw [hzero, Nat.cast_zero] <;> linarith
  · rw [if_neg hzero] at ha
    have hone : (1 : ℚ) ≤ k := by exact_mod_cast Nat.one_le_iff_ne_zero.mpr hzero
    by_cases hhalf : k ≤ r
    · rw [if_pos hhalf] at ha
      subst ha
      have hkr : (k : ℚ) ≤ r := by exact_mod_cast hhalf
      obtain ⟨x, y, ⟨hcx, hxd, hx⟩, hcy, hyd, hy⟩ :=
        exists_squares (c := r) (d := r + 1 / 2) (q := r * r + k) hr (by linarith)
          (by linarith) (by linarith)
      exact ⟨x, y, hx, hy, ⟨by linarith, by linarith⟩, ⟨by linarith, by linarith⟩⟩
    · rw [if_neg hhalf] at ha
      subst ha
      have hkr : (r : ℚ) + 1 ≤ k := by exact_mod_cast Nat.succ_le_of_lt (not_le.mp hhalf)
      have hkr' : (k : ℚ) ≤ 2 * r := by exact_mod_cast hk
      obtain ⟨x, y, ⟨hcx, hxd, hx⟩, hcy, hyd, hy⟩ :=
        exists_squares (c := r + 1 / 2) (d := r + 1) (q := r * r + k) (by linarith) (by linarith)
          (by linarith) (by linarith)
      exact ⟨x, y, hx, hy, ⟨by linarith, by linarith⟩, ⟨by linarith, by linarith⟩⟩

/-- A root has half as many digits as the radicand. -/
theorem log2_sqrt {n : Nat} (hn : 0 < n) : n.sqrt.log2 = n.log2 / 2 := by
  have hlog := (Nat.log2_eq_iff hn.ne').mp rfl
  have hroot : n.sqrt ≠ 0 := (Nat.sqrt_pos.mpr hn).ne'
  rw [Nat.log2_eq_iff hroot]
  constructor
  · rw [Nat.le_sqrt, ← pow_add]
    exact (Nat.pow_le_pow_right two_pos (by omega)).trans hlog.1
  · rw [Nat.sqrt_lt, ← pow_add]
    exact hlog.2.trans_le (Nat.pow_le_pow_right two_pos (by omega))

/-! ## Roots of values -/

theorem sqrt_finite {m : Nat} {e : ℤ} {hm : 0 < m} :
    ∃ x y : ℚ, 0 ≤ x ∧ 0 ≤ y ∧ x ^ 2 ≤ m * 2 ^ e ∧ m * 2 ^ e ≤ y ^ 2 ∧
      Result f x (sqrt f (.finite .positive m e hm)) ∧
      Result f y (sqrt f (.finite .positive m e hm)) := by
  unfold sqrt
  dsimp only [sqrtCore]
  generalize ht : min (e.ediv 2) (f.targetExponent ((totalExponent m e + 1).ediv 2)) = t
  have hte : t ≤ e / 2 := ht ▸ min_le_left _ _
  have htarget : t ≤ f.targetExponent ((totalExponent m e + 1) / 2) := ht ▸ min_le_right _ _
  have hk : ((e - 2 * t).toNat : ℤ) = e - 2 * t := Int.toNat_of_nonneg (by omega)
  have hn : 0 < m <<< (e - 2 * t).toNat := Nat.shiftLeft_pos_iff.mpr hm
  have hlog := log2_shiftLeft hm (e - 2 * t).toNat
  -- the radicand is brought to an even exponent, of which the root has the half
  have hvalue : (m : ℚ) * 2 ^ e = (m <<< (e - 2 * t).toNat : ℕ) * (2 ^ t) ^ 2 := by
    rw [Nat.shiftLeft_eq, ← zpow_natCast, ← zpow_mul, mul_comm t]
    push_cast
    rw [← zpow_natCast, hk, mul_assoc, ← zpow_add₀ two_ne_zero]
    congr 2
    ring
  rw [hvalue]
  generalize m <<< (e - 2 * t).toNat = n at *
  obtain ⟨x, y, hx, hy, hcutx, hcuty⟩ := cutOff_sqrt (n := n) rfl
  have hroot : 0 < n.sqrt := Nat.sqrt_pos.mpr hn
  have hplace : t ≤ f.targetExponent (totalExponent n.sqrt t) := by
    have htotal : totalExponent n.sqrt t = (totalExponent m e + 1) / 2 := by
      unfold totalExponent
      rw [log2_sqrt hn]
      omega
    rwa [htotal]
  have hpos : ∀ {z : ℚ} {a : Accuracy}, CutOff a (z - n.sqrt) → 0 < z * 2 ^ t := by
    intro z a hz
    have hcast : (0 : ℚ) < n.sqrt := by exact_mod_cast hroot
    have := hz.bounds.1
    exact mul_pos (by linarith) (two_zpow_pos t)
  have hresult : ∀ {z : ℚ} {a : Accuracy}, CutOff a (z - n.sqrt) →
      Result f (z * 2 ^ t) (roundWithAccuracy f .positive n.sqrt t a) := by
    intro z a hz
    have hrounds := roundWithAccuracy_rounds (f := f) (s := .positive) hroot hz hplace
    rw [Result, rounded_of_nonneg (hpos hz).le]
    exact hrounds
  refine ⟨x * 2 ^ t, y * 2 ^ t, (hpos hcutx).le, (hpos hcuty).le, ?_, ?_, hresult hcutx,
    hresult hcuty⟩
  · rw [mul_pow]
    exact mul_le_mul_of_nonneg_right hx (sq_nonneg _)
  · rw [mul_pow]
    exact mul_le_mul_of_nonneg_right hy (sq_nonneg _)

/-- A root is the rounding of numbers on either side of it. -/
theorem sqrt_result {u : UnpackedFloat} {q : ℚ} (hu : value? u = some q) (hq : 0 ≤ q) :
    ∃ x y : ℚ, 0 ≤ x ∧ 0 ≤ y ∧ x ^ 2 ≤ q ∧ q ≤ y ^ 2 ∧ Result f x (sqrt f u) ∧
      Result f y (sqrt f u) := by
  cases u with
  | infinity s => cases hu
  | notANumber => cases hu
  | zero s =>
    obtain rfl := Option.some.inj hu
    exact ⟨0, 0, le_rfl, le_rfl, by norm_num, by norm_num, Result.zero, Result.zero⟩
  | finite s m e hm =>
    obtain rfl := Option.some.inj hu
    have hpos : (0 : ℚ) < m * 2 ^ e := significand_pos hm e
    cases s with
    | negative =>
      rw [signed] at hq
      linarith
    | positive => exact sqrt_finite

end Numeric

end EmbeddingSearch
