import EmbeddingSearch.Cache.Settings
import EmbeddingSearch.Proofs.Numeric.Number

/-!
# Sizes of sets of vectors

A cache estimates sizes and adds them up in binary64. All of them are whole numbers of bytes,
divided by 2^20, and below 2^33 megabytes no such number needs more than 53 bits: there nothing is
rounded, and what is rounded beyond does not fall below this bound.

## Contents
- `Measures`: a value that is exactly a number of bytes, in megabytes.
- `Measures.add`, `Measures.sub`, `Measures.add_le_budget`, `Measures.lt_of_over_budget`: totals.
- `CacheSettings.Bounded`: the settings for which sizes are exact.
- `CacheSettings.Bounded.admittedMb?_spec`: what a set of vectors is admitted with.
-/

namespace EmbeddingSearch

open Numeric

/-! ## Sizes -/

/-- The exact number of megabytes in a number of bytes. -/
def megabytes (bytes : Nat) : ℚ := bytes / 2 ^ 20

theorem megabytes_add (m n : Nat) : megabytes (m + n) = megabytes m + megabytes n := by
  rw [megabytes, megabytes, megabytes, Nat.cast_add, add_div]

theorem megabytes_nonneg (n : Nat) : 0 ≤ megabytes n := div_nonneg n.cast_nonneg (by norm_num)

theorem megabytes_lt {n : Nat} : megabytes n < 2 ^ 33 ↔ n < 2 ^ 53 := by
  rw [megabytes, div_lt_iff₀ (by norm_num)]
  norm_cast

theorem representable_megabytes {n : Nat} (hn : n < 2 ^ 53) :
    Representable .binary64 (megabytes n) := by
  refine ⟨n, -20, ?_, hn, by decide⟩
  rw [megabytes, div_eq_mul_inv, zpow_neg]
  rfl

/-- Whether a value is exactly a number of bytes, in megabytes. -/
def Measures (x : Float) (bytes : Nat) : Prop := number? x = some (megabytes bytes)

theorem Measures.zero : Measures 0 0 := by
  have hzero := number?_ofNat (n := 0) (by norm_num)
  rw [Nat.cast_zero, rounded_zero] at hzero
  rw [Measures, megabytes, Nat.cast_zero, zero_div]
  exact hzero

/-- What is below 2^33 megabytes is not rounded. -/
theorem rounded_megabytes {n : Nat} (hn : n < 2 ^ 53) :
    rounded .binary64 (megabytes n) = megabytes n := by
  refine rounded_of_representable ?_
  rw [abs_of_nonneg (megabytes_nonneg n)]
  exact representable_megabytes hn

/-- What is not below 2^33 megabytes does not fall below it when it is rounded. -/
theorem le_rounded_megabytes {n : Nat} (hn : 2 ^ 53 ≤ n) :
    2 ^ 33 ≤ rounded .binary64 (megabytes n) := by
  have hlarge : (2 : ℚ) ^ 33 ≤ megabytes n := not_lt.mp (mt megabytes_lt.mp (not_lt.mpr hn))
  have hpow : Representable .binary64 ((2 : ℚ) ^ 33) := by
    have := representable_two_zpow (f := .binary64) (e := 33) (by decide)
    exact_mod_cast this
  exact le_rounded hpow (lt_of_lt_of_le (by norm_num) hlarge) hlarge

theorem two_pow_le_largest {k : Nat} (hk : k ≤ 1023) : (2 : ℚ) ^ k ≤ 2 ^ (1023 : ℤ) := by
  rw [← zpow_natCast]
  exact zpow_le_zpow_right₀ one_le_two (by exact_mod_cast hk)

theorem megabytes_le_largest {n : Nat} (hn : n < 2 ^ 256) :
    |megabytes n| ≤ 2 ^ (1023 : ℤ) := by
  rw [abs_of_nonneg (megabytes_nonneg n), megabytes, div_le_iff₀ (by norm_num)]
  have hcast : (n : ℚ) ≤ 2 ^ 256 := by exact_mod_cast hn.le
  refine (hcast.trans (two_pow_le_largest (by norm_num))).trans
    (le_mul_of_one_le_right (two_zpow_pos _).le ?_)
  norm_num

/-! ## Totals -/

section Totals

variable {x y : Float} {m n : Nat}

theorem Measures.add (hx : Measures x m) (hy : Measures y n) (h : m + n < 2 ^ 53) :
    Measures (x + y) (m + n) := by
  have hsum := number?_add hx hy (by
    rw [← megabytes_add]
    exact megabytes_le_largest (h.trans (by norm_num)))
  rwa [← megabytes_add, rounded_megabytes h] at hsum

/-- A sum that may be rounded is still not below 2^33 megabytes. -/
theorem Measures.add_large (hx : Measures x m) (hy : Measures y n) (hm : m < 2 ^ 53)
    (hn : n < 2 ^ 53) (h : 2 ^ 53 ≤ m + n) : ∃ z, number? (x + y) = some z ∧ 2 ^ 33 ≤ z := by
  have hsum := number?_add hx hy (by
    rw [← megabytes_add]
    exact megabytes_le_largest (by omega))
  rw [← megabytes_add] at hsum
  exact ⟨_, hsum, le_rounded_megabytes h⟩

theorem Measures.sub (hx : Measures x (m + n)) (hy : Measures y n) (h : m + n < 2 ^ 53) :
    Measures (x - y) m := by
  have hdiff : megabytes (m + n) - megabytes n = megabytes m := by
    rw [megabytes_add, add_sub_cancel_right]
  have hsub := number?_sub hx hy (by
    rw [hdiff]
    exact megabytes_le_largest (by omega))
  rwa [hdiff, rounded_megabytes (by omega)] at hsub

/-- A sum that is within a budget below 2^33 megabytes was not rounded. -/
theorem Measures.add_le_budget {budget : Float} {b : ℚ} (hb : number? budget = some b)
    (hlt : b < 2 ^ 33) (hx : Measures x m) (hy : Measures y n) (hm : m < 2 ^ 53) (hn : n < 2 ^ 53)
    (h : ¬ x + y > budget) : Measures (x + y) (m + n) ∧ megabytes (m + n) ≤ b := by
  -- a rounded sum would be at least 2^33, and the budget is less
  have hsmall : m + n < 2 ^ 53 := by
    by_contra hlarge
    obtain ⟨z, hz, hle⟩ := hx.add_large hy hm hn (not_lt.mp hlarge)
    exact h ((lt_iff_number hb hz).mpr (hlt.trans_le hle))
  have hsum := hx.add hy hsmall
  exact ⟨hsum, not_lt.mp (mt (lt_iff_number hb hsum).mpr h)⟩

/-- A sum that is over a budget below 2^33 megabytes stands for one that is, rounded or not. -/
theorem Measures.lt_of_over_budget {budget : Float} {b : ℚ} (hb : number? budget = some b)
    (hlt : b < 2 ^ 33) (hx : Measures x m) (hy : Measures y n) (h : x + y > budget) :
    b < megabytes (m + n) := by
  by_cases hsmall : m + n < 2 ^ 53
  · exact (lt_iff_number hb (hx.add hy hsmall)).mp h
  · exact hlt.trans_le (not_lt.mp (mt megabytes_lt.mp hsmall))

end Totals

/-! ## Estimates -/

namespace CacheSettings

/-- What the settings of a cache are: a budget below 2^33 megabytes, and counts that fit in a
machine word. -/
structure Bounded (s : CacheSettings) : Prop where
  budget_nonneg : 0 ≤ s.budgetMb
  budget_lt : s.budgetMb < 8589934592
  maxVectors_lt : s.maxVectors < 2 ^ 64
  bytesPerVector_lt : s.bytesPerVector < 2 ^ 64

variable {s : CacheSettings}

theorem Bounded.budget (h : s.Bounded) :
    ∃ b, number? s.budgetMb = some b ∧ 0 ≤ b ∧ b < 2 ^ 33 := by
  have hlimit : number? 8589934592 = some ((8589934592 : ℕ) : ℚ) := by
    have := number?_ofNat (n := 8589934592) (by norm_num)
    rwa [rounded_natCast (by norm_num)] at this
  have hzero : number? 0 = some 0 := by
    have := Measures.zero
    rwa [Measures, megabytes, Nat.cast_zero, zero_div] at this
  obtain ⟨b, hb⟩ := number?_of_between hzero hlimit h.budget_nonneg h.budget_lt
  refine ⟨b, hb, (le_iff_number hzero hb).mp h.budget_nonneg, ?_⟩
  have hlt := (lt_iff_number hb hlimit).mp h.budget_lt
  norm_num at hlt ⊢
  exact hlt

theorem number?_bytesPerMb : number? bytesPerMb = some (2 ^ 20) := by
  have hnat := number?_ofNat (n := 1048576) (by norm_num)
  rw [rounded_natCast (by norm_num)] at hnat
  refine hnat.trans ?_
  norm_num

/-- A count that is rounded stays where it was with respect to a small one. -/
theorem le_rounded_count {m n : Nat} (hm : m ≤ 2 ^ 53) (hpos : 0 < m) (h : m ≤ n) :
    (m : ℚ) ≤ rounded .binary64 n := by
  have hrep : Representable .binary64 m := by
    rcases hm.lt_or_eq with hlt | rfl
    · exact representable_nat hlt
    · have := representable_two_zpow (f := .binary64) (e := 53) (by decide)
      exact_mod_cast this
  have hcast : (m : ℚ) ≤ n := by exact_mod_cast h
  exact le_rounded hrep (lt_of_lt_of_le (by exact_mod_cast hpos) hcast) hcast

theorem abs_rounded_count {n : Nat} (hn : n < 2 ^ 64) : |rounded .binary64 n| ≤ 2 ^ 64 := by
  have hrep := representable_two_zpow (f := .binary64) (e := 64) (by decide)
  have hcast : |(n : ℚ)| ≤ 2 ^ (64 : ℤ) := by
    rw [abs_of_nonneg n.cast_nonneg]
    exact_mod_cast hn.le
  exact_mod_cast abs_rounded_le hrep hcast

/-- Counts with a small product are not rounded, or one of them is zero. -/
theorem rounded_mul_rounded {m n : Nat} (h : m * n < 2 ^ 53) :
    rounded .binary64 m * rounded .binary64 n = (m * n : ℕ) := by
  rcases Nat.eq_zero_or_pos m with rfl | hm
  · simp
  rcases Nat.eq_zero_or_pos n with rfl | hn
  · simp
  rw [rounded_natCast ((Nat.le_mul_of_pos_right m hn).trans_lt h),
    rounded_natCast ((Nat.le_mul_of_pos_left n hm).trans_lt h), ← Nat.cast_mul]

/-- Counts with a large product still have one when they are rounded. -/
theorem le_rounded_mul_rounded {m n : Nat} (h : 2 ^ 53 ≤ m * n) :
    (2 : ℚ) ^ 53 ≤ rounded .binary64 m * rounded .binary64 n := by
  have hpos : 0 < m * n := by omega
  have hm : (1 : ℚ) ≤ rounded .binary64 m := by
    exact_mod_cast le_rounded_count (m := 1) (by norm_num) one_pos (Nat.pos_of_mul_pos_right hpos)
  have hn : (1 : ℚ) ≤ rounded .binary64 n := by
    exact_mod_cast le_rounded_count (m := 1) (by norm_num) one_pos (Nat.pos_of_mul_pos_left hpos)
  -- a factor that is large by itself is enough, and two small ones are not rounded
  by_cases hlarge : 2 ^ 53 ≤ m
  · have hbig := le_rounded_count le_rfl (by norm_num) hlarge
    push_cast at hbig
    exact hbig.trans (le_mul_of_one_le_right (by linarith) hn)
  by_cases hlarge' : 2 ^ 53 ≤ n
  · have hbig := le_rounded_count le_rfl (by norm_num) hlarge'
    push_cast at hbig
    exact hbig.trans (le_mul_of_one_le_left (by linarith) hm)
  rw [rounded_natCast (not_le.mp hlarge), rounded_natCast (not_le.mp hlarge')]
  exact_mod_cast h

/-- The product of a count and a size: exact when it is small, and large otherwise. -/
theorem number?_product {count bytes : Nat} (hc : count < 2 ^ 64) (hb : bytes < 2 ^ 64) :
    ∃ p, number? (Float.ofNat count * Float.ofNat bytes) = some p ∧ |p| ≤ 2 ^ 128 ∧
      (count * bytes < 2 ^ 53 → p = (count * bytes : ℕ)) ∧
      (2 ^ 53 ≤ count * bytes → 2 ^ 53 ≤ p) := by
  have habs : |rounded .binary64 count * rounded .binary64 bytes| ≤ 2 ^ 128 := by
    rw [abs_mul, show (2 : ℚ) ^ 128 = 2 ^ 64 * 2 ^ 64 by norm_num]
    exact mul_le_mul (abs_rounded_count hc) (abs_rounded_count hb) (abs_nonneg _) (by norm_num)
  have hrep := representable_two_zpow (f := .binary64) (e := 128) (by decide)
  have hrep53 := representable_two_zpow (f := .binary64) (e := 53) (by decide)
  have hprod := number?_mul (number?_ofNat hc) (number?_ofNat hb)
    (habs.trans (two_pow_le_largest (by norm_num)))
  refine ⟨_, hprod, ?_, fun hsmall => ?_, fun hlarge => ?_⟩
  · exact_mod_cast abs_rounded_le hrep (by exact_mod_cast habs)
  · rw [rounded_mul_rounded hsmall, rounded_natCast hsmall]
  · have hge : (2 : ℚ) ^ (53 : ℤ) ≤ rounded .binary64 count * rounded .binary64 bytes := by
      exact_mod_cast le_rounded_mul_rounded hlarge
    exact_mod_cast le_rounded hrep53 ((two_zpow_pos 53).trans_le hge) hge

/-- An estimate is exact, or not below 2^33 megabytes. -/
theorem estimateMb_cases {count : Nat} (hc : count < 2 ^ 64) (hb : s.bytesPerVector < 2 ^ 64) :
    (count * s.bytesPerVector < 2 ^ 53 ∧
        Measures (s.estimateMb count) (count * s.bytesPerVector)) ∨
      ∃ z, number? (s.estimateMb count) = some z ∧ 2 ^ 33 ≤ z := by
  obtain ⟨p, hp, habs, hsmall, hlarge⟩ := number?_product hc hb
  have hquot : |p / 2 ^ 20| ≤ 2 ^ (1023 : ℤ) := by
    rw [abs_div, abs_of_pos (by norm_num : (0 : ℚ) < 2 ^ 20), div_le_iff₀ (by norm_num)]
    refine habs.trans ((two_pow_le_largest (by norm_num)).trans ?_)
    exact le_mul_of_one_le_right (two_zpow_pos _).le (by norm_num)
  have hdiv := number?_div hp number?_bytesPerMb (by norm_num) hquot
  rcases lt_or_ge (count * s.bytesPerVector) (2 ^ 53) with h | h
  · left
    obtain rfl := hsmall h
    have hround := rounded_megabytes h
    rw [megabytes] at hround
    rw [hround] at hdiv
    exact ⟨h, hdiv⟩
  · right
    have hp53 := hlarge h
    have hrep := representable_two_zpow (f := .binary64) (e := 33) (by decide)
    have hge : (2 : ℚ) ^ (33 : ℤ) ≤ p / 2 ^ 20 := by
      rw [le_div_iff₀ (by norm_num)]
      refine le_trans (le_of_eq ?_) hp53
      norm_num
    refine ⟨_, hdiv, ?_⟩
    exact_mod_cast le_rounded hrep ((two_zpow_pos 33).trans_le hge) hge

/-- What is admitted is counted to the byte, and within the limits. -/
theorem Bounded.admittedMb?_spec (h : s.Bounded) {count : Nat} {size : Float}
    (hsize : s.admittedMb? count = some size) :
    count ≤ s.maxVectors ∧ size ≤ s.budgetMb ∧ Measures size (count * s.bytesPerVector) := by
  obtain ⟨b, hb, -, hlt⟩ := h.budget
  unfold admittedMb? at hsize
  split at hsize
  · cases hsize
  · next hcount =>
    have hcount' : count ≤ s.maxVectors := not_lt.mp hcount
    dsimp only at hsize
    split at hsize
    · cases hsize
    · next hfits =>
      obtain rfl := Option.some.inj hsize
      rcases estimateMb_cases (hcount'.trans_lt h.maxVectors_lt) h.bytesPerVector_lt with
        ⟨-, hexact⟩ | ⟨z, hz, hle⟩
      · refine ⟨hcount', ?_, hexact⟩
        exact (le_iff_number hexact hb).mpr (not_lt.mp (mt (lt_iff_number hb hexact).mpr hfits))
      · -- an estimate that is not exact is over the budget
        exact absurd ((lt_iff_number hb hz).mpr (hlt.trans_le hle)) hfits

end CacheSettings

end EmbeddingSearch
