import EmbeddingSearch.Proofs.Vector.Malformed

/-!
# Rounding errors of sums and lengths

A left-to-right sum grows or shrinks by one rounding for each term, and not at all while it is small.
So the dot product and the length of a vector are known to within a factor, as long as the squares of
the components have not been lost below the normal range.

## Contents
- `abs_foldl_le`, `le_foldl`, `foldl_eq_of_lt`: left-to-right sums.
- `abs_dot_le`, `le_dot_self`, `le_dot_self_of_lt`: dot products.
- `magnitude_sq_bounds`: lengths.
- `normSq`, `normSq_le`: the exact length of a vector and the computed one.
-/

namespace EmbeddingSearch

open Numeric

/-! ## Sums -/

section Sums

variable {xs : List Float32} {acc x : Float32}

theorem abs_single_add_le (h : (acc + x).isFinite = true) :
    |single (acc + x)| ≤ (1 + roundoff) * (|single acc| + |single x|) := by
  have herror := abs_single_add_sub_le h
  have hsum := abs_add_le (single acc) (single x)
  have hround := abs_sub_abs_le_abs_sub (single (acc + x)) (single acc + single x)
  have hpos := roundoff_pos
  nlinarith

theorem le_single_add (h : (acc + x).isFinite = true) (hacc : 0 ≤ single acc)
    (hx : 0 ≤ single x) : (1 - roundoff) * (single acc + single x) ≤ single (acc + x) := by
  have herror := abs_single_add_sub_le h
  rw [abs_of_nonneg (add_nonneg hacc hx)] at herror
  have := (abs_le.mp herror).1
  linarith

/-- The sum of a number and another that is not negative is not below the first one. -/
theorem single_le_add (h : (acc + x).isFinite = true) (hacc : 0 ≤ single acc)
    (hx : 0 ≤ single x) : single acc ≤ single (acc + x) := by
  have hrep := representable_single acc
  rw [abs_of_nonneg hacc] at hrep
  rw [single_add h]
  rcases (add_nonneg hacc hx).eq_or_lt with hzero | hpos
  · rw [← hzero, rounded_zero]
    linarith
  · exact le_rounded hrep hpos (by linarith)

theorem isFinite_of_foldl_cons (h : ((x :: xs).foldl (· + ·) acc).isFinite = true) :
    (acc + x).isFinite = true := by
  rw [List.foldl_cons] at h
  exact (isFinite_of_foldl h).1

theorem abs_foldl_le (h : (xs.foldl (· + ·) acc).isFinite = true) :
    |single (xs.foldl (· + ·) acc)| ≤
      (1 + roundoff) ^ xs.length * (|single acc| + (xs.map fun x => |single x|).sum) := by
  induction xs generalizing acc with
  | nil => simp
  | cons x xs ih =>
    have hstep := abs_single_add_le (isFinite_of_foldl_cons h)
    have hpos := roundoff_pos
    have hrest : 0 ≤ (xs.map fun x => |single x|).sum :=
      List.sum_nonneg (List.forall_mem_map.mpr fun x _ => abs_nonneg _)
    rw [List.foldl_cons, List.length_cons, List.map_cons, List.sum_cons, pow_succ, mul_assoc]
    refine (ih h).trans (mul_le_mul_of_nonneg_left ?_ (pow_nonneg (by linarith) _))
    nlinarith

/-- The terms of a sum that are not negative are lost by no more than the roundings. -/
theorem le_foldl (h : (xs.foldl (· + ·) acc).isFinite = true) (hacc : 0 ≤ single acc)
    (hxs : ∀ x ∈ xs, 0 ≤ single x) :
    (1 - roundoff) ^ xs.length * (single acc + (xs.map single).sum) ≤
      single (xs.foldl (· + ·) acc) := by
  induction xs generalizing acc with
  | nil => simp
  | cons x xs ih =>
    obtain ⟨hx, hxs⟩ := List.forall_mem_cons.mp hxs
    have hfinite := isFinite_of_foldl_cons h
    have hstep := le_single_add hfinite hacc hx
    have hnonneg := hacc.trans (single_le_add hfinite hacc hx)
    have hpos := roundoff_pos
    have hone := roundoff_lt_one
    have hrest : 0 ≤ (xs.map single).sum := List.sum_nonneg (List.forall_mem_map.mpr hxs)
    rw [List.foldl_cons, List.length_cons, List.map_cons, List.sum_cons, pow_succ, mul_assoc]
    refine (mul_le_mul_of_nonneg_left ?_ (pow_nonneg (by linarith) _)).trans (ih h hnonneg hxs)
    nlinarith

theorem single_le_foldl (h : (xs.foldl (· + ·) acc).isFinite = true) (hacc : 0 ≤ single acc)
    (hxs : ∀ x ∈ xs, 0 ≤ single x) : single acc ≤ single (xs.foldl (· + ·) acc) := by
  induction xs generalizing acc with
  | nil => exact le_rfl
  | cons x xs ih =>
    obtain ⟨hx, hxs⟩ := List.forall_mem_cons.mp hxs
    have hle := single_le_add (isFinite_of_foldl_cons h) hacc hx
    exact hle.trans (ih h (hacc.trans hle) hxs)

/-- While a sum of terms that are not negative is small, it is exact. -/
theorem foldl_eq_of_lt (h : (xs.foldl (· + ·) acc).isFinite = true) (hacc : 0 ≤ single acc)
    (hxs : ∀ x ∈ xs, 0 ≤ single x) (hlt : single (xs.foldl (· + ·) acc) < 2 ^ (-125 : ℤ)) :
    single (xs.foldl (· + ·) acc) = single acc + (xs.map single).sum := by
  induction xs generalizing acc with
  | nil => simp
  | cons x xs ih =>
    obtain ⟨hx, hxs⟩ := List.forall_mem_cons.mp hxs
    have hfinite := isFinite_of_foldl_cons h
    have hnonneg := hacc.trans (single_le_add hfinite hacc hx)
    have hmono : single (acc + x) ≤ single (xs.foldl (· + ·) (acc + x)) :=
      single_le_foldl h hnonneg hxs
    have hsmall : single acc + single x < 2 ^ (-125 : ℤ) := by
      apply lt_of_rounded_lt (representable_two_zpow (f := .binary32) (by decide)) (two_zpow_pos _)
      rw [← single_add hfinite]
      exact hmono.trans_lt hlt
    have hexact := single_add_of_lt hfinite (by rwa [abs_of_nonneg (add_nonneg hacc hx)])
    rw [List.foldl_cons, ih h hnonneg hxs hlt, hexact, List.map_cons, List.sum_cons, add_assoc]

end Sums

theorem single_negZero : single negZero = 0 := by decide +kernel

/-! ## Dot products -/

/-- The square of the length of a vector. -/
def normSq (v : Embedding) : ℚ := (v.map fun x => single x ^ 2).sum

theorem normSq_nonneg (v : Embedding) : 0 ≤ normSq v :=
  List.sum_nonneg (List.forall_mem_map.mpr fun _ _ => sq_nonneg _)

theorem dot_self (v : Embedding) : dot v v = sum (v.map fun x => x * x) := by
  rw [dot, List.zipWith_self]

theorem magnitude_eq (v : Embedding) : magnitude v = (dot v v).sqrt := by
  rw [dot_self]
  rfl

/-- A sum of terms of which each is multiplied and displaced by the same. -/
theorem sum_affine {β : Type} (l : List β) (f : β → ℚ) (c d : ℚ) :
    (l.map fun x => c * f x + d).sum = c * (l.map f).sum + l.length * d := by
  rw [List.sum_map_add, List.sum_map_mul_left, List.map_const', List.sum_replicate, nsmul_eq_mul]

section Dot

variable {a b v : Embedding}

theorem abs_dot_le (h : (dot a b).isFinite = true) :
    |single (dot a b)| ≤ (1 + roundoff) ^ (a.zip b).length *
      ((1 + roundoff) * ((a.zip b).map fun p => |single p.1 * single p.2|).sum +
        (a.zip b).length * underflow) := by
  have hdot : dot a b = sum ((a.zip b).map fun p => p.1 * p.2) := by
    rw [List.map_zip_eq_zipWith]
    rfl
  rw [hdot] at h ⊢
  have hterms := isFinite_of_sum h
  have hsum := abs_foldl_le h
  have hpos := roundoff_pos
  rw [single_negZero, abs_zero, zero_add, List.length_map, List.map_map] at hsum
  refine hsum.trans (mul_le_mul_of_nonneg_left ?_ (pow_nonneg (by linarith) _))
  -- each product is off by one rounding
  have hterm : ∀ p ∈ a.zip b, |single (p.1 * p.2)| ≤
      (1 + roundoff) * |single p.1 * single p.2| + underflow := by
    intro p hp
    have herror := abs_single_mul_sub_le (hterms _ (List.mem_map_of_mem hp))
    have := abs_sub_abs_le_abs_sub (single (p.1 * p.2)) (single p.1 * single p.2)
    linarith
  exact (List.sum_le_sum hterm).trans (sum_affine _ _ _ _).le

theorem single_mul_self_nonneg {x : Float32} (h : (x * x).isFinite = true) :
    0 ≤ single (x * x) := by
  rw [single_mul h]
  rcases (mul_self_nonneg (single x)).eq_or_lt with hzero | hpos
  · rw [← hzero, rounded_zero]
  · rw [rounded_of_nonneg hpos.le]
    exact nearest_nonneg hpos

/-- The squares that are added up. -/
theorem squares_nonneg (h : (dot v v).isFinite = true) :
    ∀ y ∈ v.map fun x => x * x, 0 ≤ single y := by
  rw [dot_self] at h
  intro y hy
  have hfinite := isFinite_of_sum h y hy
  obtain ⟨x, -, rfl⟩ := List.mem_map.mp hy
  exact single_mul_self_nonneg hfinite

/-- The squares of the components are lost by no more than the roundings. -/
theorem le_dot_self (h : (dot v v).isFinite = true) :
    (1 - roundoff) ^ v.length * ((1 - roundoff) * normSq v + v.length * -underflow) ≤
      single (dot v v) := by
  have hnonneg := squares_nonneg h
  rw [dot_self] at h ⊢
  have hterms := isFinite_of_sum h
  have hsum := le_foldl h single_negZero.ge hnonneg
  rw [single_negZero, zero_add, List.length_map, List.map_map] at hsum
  have hone := roundoff_lt_one
  refine le_trans (mul_le_mul_of_nonneg_left ?_ (pow_nonneg (by linarith) _)) hsum
  rw [normSq, ← sum_affine]
  apply List.sum_le_sum
  intro x hx
  have herror := abs_single_mul_sub_le (hterms _ (List.mem_map_of_mem hx))
  rw [abs_mul_self] at herror
  have := (abs_le.mp herror).1
  show (1 - roundoff) * single x ^ 2 + -underflow ≤ single (x * x)
  linarith

/-- Where the sum is small, only the squares are rounded, each to within half of the least value. -/
theorem le_dot_self_of_lt (h : (dot v v).isFinite = true)
    (hlt : single (dot v v) < 2 ^ (-125 : ℤ)) :
    1 * normSq v + v.length * -underflow ≤ single (dot v v) := by
  have hnonneg := squares_nonneg h
  rw [dot_self] at h hlt ⊢
  have hterms := isFinite_of_sum h
  have hsum : single (sum (v.map fun x => x * x)) = _ :=
    foldl_eq_of_lt h single_negZero.ge hnonneg hlt
  rw [single_negZero, zero_add] at hsum
  rw [hsum] at hlt ⊢
  rw [normSq, ← sum_affine, List.map_map]
  apply List.sum_le_sum
  intro x hx
  have hmem : x * x ∈ v.map fun x => x * x := List.mem_map_of_mem hx
  -- a term is not larger than the sum
  have hterm : single (x * x) < 2 ^ (-125 : ℤ) :=
    lt_of_le_of_lt (List.single_le_sum (List.forall_mem_map.mpr hnonneg) _
      (List.mem_map_of_mem hmem)) hlt
  have hsmall : |single x * single x| < 2 ^ (-125 : ℤ) := by
    rw [abs_mul_self]
    apply lt_of_rounded_lt (representable_two_zpow (f := .binary32) (by decide)) (two_zpow_pos _)
    rwa [← single_mul (hterms _ hmem)]
  have := (abs_le.mp (abs_single_mul_sub_le_of_lt (hterms _ hmem) hsmall)).1
  show 1 * single x ^ 2 + -underflow ≤ single (x * x)
  linarith

end Dot

/-! ## Lengths -/

/-- What is rounded to a value in the normal range is in the normal range itself. -/
theorem normal_of_lt_rounded {q : ℚ} (h : 2 ^ (-126 : ℤ) < rounded .binary32 q) :
    2 ^ (-126 : ℤ) ≤ |q| := by
  by_contra hlt
  have hle := abs_rounded_le (representable_two_zpow (f := .binary32) (e := -126) (by decide))
    (not_le.mp hlt).le
  exact absurd ((le_abs_self _).trans hle) (not_le.mpr h)

theorem least_le_mul {x y : ℚ} (hx : 2 ^ (-63 : ℤ) ≤ x) (hy : 2 ^ (-63 : ℤ) ≤ y) :
    2 ^ (-126 : ℤ) ≤ x * y := by
  have := mul_le_mul hx hy (two_zpow_pos _).le ((two_zpow_pos _).le.trans hx)
  rwa [← zpow_add₀ two_ne_zero] at this

section Lengths

variable {v : Embedding}

theorem isFinite_dot_of_magnitude (h : (magnitude v).isFinite = true) :
    (dot v v).isFinite = true := by
  rw [magnitude_eq] at h
  exact (isFinite_sqrt h).1

/-- The square of a length is the sum of the squares, but for the rounding of the root. -/
theorem magnitude_sq_bounds (h : (magnitude v).isFinite = true)
    (hmag : 2 ^ (-63 : ℤ) ≤ single (magnitude v)) :
    (1 - roundoff) ^ 2 * single (dot v v) ≤ single (magnitude v) ^ 2 ∧
      single (magnitude v) ^ 2 ≤ (1 + roundoff) ^ 2 * single (dot v v) := by
  rw [magnitude_eq] at *
  obtain ⟨x, y, hx, hy, hxd, hdy, hrx, hry⟩ := single_sqrt h
  generalize single (dot v v).sqrt = r at *
  generalize single (dot v v) = d at *
  have hlt : (2 : ℚ) ^ (-126 : ℤ) < r :=
    (zpow_lt_zpow_right₀ one_lt_two (by omega)).trans_le hmag
  have herror : ∀ {z : ℚ}, 0 ≤ z → r = rounded .binary32 z → |r - z| ≤ roundoff * z := by
    intro z hz hr
    rw [hr] at hlt
    have hbound := abs_rounded_sub_le_mul (f := .binary32) (normal_of_lt_rounded hlt)
    rwa [← hr, abs_of_nonneg hz] at hbound
  have hlow := (abs_le.mp (herror hy hry)).1
  have hhigh := (abs_le.mp (herror hx hrx)).2
  have hr : 0 ≤ r := (two_zpow_pos _).le.trans hmag
  rw [roundoff_eq] at *
  constructor
  · calc (1 - 1 / 2 ^ 24) ^ 2 * d ≤ (1 - 1 / 2 ^ 24) ^ 2 * y ^ 2 :=
          mul_le_mul_of_nonneg_left hdy (sq_nonneg _)
      _ = ((1 - 1 / 2 ^ 24) * y) ^ 2 := (mul_pow _ _ 2).symm
      _ ≤ r ^ 2 := pow_le_pow_left₀ (mul_nonneg (by norm_num) hy) (by linarith) 2
  · calc r ^ 2 ≤ ((1 + 1 / 2 ^ 24) * x) ^ 2 := pow_le_pow_left₀ hr (by linarith) 2
      _ = (1 + 1 / 2 ^ 24) ^ 2 * x ^ 2 := mul_pow _ _ 2
      _ ≤ (1 + 1 / 2 ^ 24) ^ 2 * d := mul_le_mul_of_nonneg_left hxd (sq_nonneg _)

/-- The roundings of so many steps, upwards and downwards. -/
theorem roundoff_pow_bounds (n : Nat) : 1 - n * roundoff ≤ (1 - roundoff) ^ n ∧
    (1 - n * roundoff) * (1 + roundoff) ^ n ≤ 1 := by
  have hpos := roundoff_pos
  have hone := roundoff_lt_one
  have hbernoulli := one_add_mul_le_pow (a := -roundoff) (by linarith) n
  have hdown : 1 - n * roundoff ≤ (1 - roundoff) ^ n := by
    rw [sub_eq_add_neg 1 roundoff]
    linarith
  refine ⟨hdown, ?_⟩
  calc (1 - n * roundoff) * (1 + roundoff) ^ n ≤ (1 - roundoff) ^ n * (1 + roundoff) ^ n :=
        mul_le_mul_of_nonneg_right hdown (pow_nonneg (by linarith) n)
    _ = (1 - roundoff ^ 2) ^ n := by
        rw [← mul_pow]
        ring
    _ ≤ 1 := pow_le_one₀ (by nlinarith) (by nlinarith)

/-- A small part that is taken away is made up for by a slightly larger one. -/
theorem le_of_one_sub_mul_le {w s t : ℚ} (hw : 0 ≤ w) (hw' : w ≤ 1 / 256) (ht : 0 ≤ t)
    (h : (1 - w) * t ≤ s) : t ≤ (1 + 65 / 64 * w) * s := by
  have hmore : 1 ≤ (1 + 65 / 64 * w) * (1 - w) := by nlinarith
  calc t ≤ (1 + 65 / 64 * w) * (1 - w) * t := le_mul_of_one_le_left ht hmore
    _ = (1 + 65 / 64 * w) * ((1 - w) * t) := mul_assoc _ _ _
    _ ≤ (1 + 65 / 64 * w) * s := mul_le_mul_of_nonneg_left h (by linarith)

/-- The roundings of as many steps as a vector has components. -/
theorem length_mul_roundoff {n : Nat} (hn : n ≤ 65536) :
    0 ≤ n * roundoff ∧ n * roundoff ≤ 1 / 256 := by
  have hcast : (n : ℚ) ≤ 65536 := by exact_mod_cast hn
  rw [roundoff_eq]
  constructor
  · positivity
  · linarith

theorem length_mul_underflow (n : Nat) :
    (n : ℚ) * underflow = n * roundoff * 2 ^ (-126 : ℤ) := by
  rw [underflow_eq, mul_assoc]

/-- The exact length of a vector is not much above the computed one, unless that is below the square
root of the least normal number. -/
theorem normSq_le (h : (magnitude v).isFinite = true)
    (hmag : 2 ^ (-63 : ℤ) ≤ single (magnitude v)) (hlen : v.length ≤ 65536) :
    (1 - roundoff) * normSq v ≤
      (1 + 97 / 64 * (v.length * roundoff)) * single (dot v v) := by
  have hdot := isFinite_dot_of_magnitude h
  have hnorm := normSq_nonneg v
  have hleast := length_mul_underflow v.length
  have hpow := (roundoff_pow_bounds v.length).1
  obtain ⟨hw, hw'⟩ := length_mul_roundoff hlen
  have hu := roundoff_eq
  generalize v.length * roundoff = w at *
  rcases lt_or_ge (single (dot v v)) (2 ^ (-125 : ℤ)) with hlt | hge
  · -- only the squares are rounded, and the sum is not much below the least normal number
    have hsum := le_dot_self_of_lt hdot hlt
    have hsq : (2 : ℚ) ^ (-126 : ℤ) ≤ (1 + roundoff) ^ 2 * single (dot v v) := by
      refine le_trans ?_ (magnitude_sq_bounds h hmag).2
      rw [sq]
      exact least_le_mul hmag hmag
    have hlost := mul_le_mul_of_nonneg_left hsq hw
    have hpos := two_zpow_pos (-126)
    generalize (2 : ℚ) ^ (-126 : ℤ) = least at *
    generalize single (dot v v) = d at *
    rw [hu] at *
    have hd : 0 ≤ d := by linarith
    nlinarith
  · -- what is lost below the normal range is at most half of a rounding for each component
    have hsum := le_dot_self hdot
    have hhalf : (2 : ℚ) ^ (-126 : ℤ) ≤ single (dot v v) / 2 := by
      have htwo : (2 : ℚ) ^ (-125 : ℤ) = 2 ^ (-126 : ℤ) * 2 := by
        rw [← zpow_add_one₀ two_ne_zero]
        rfl
      rw [htwo] at hge
      exact (le_div_iff₀ two_pos).mpr hge
    have hlost := mul_le_mul_of_nonneg_left hhalf hw
    have hpos := two_zpow_pos (-126)
    rw [mul_neg, hleast] at hsum
    generalize (2 : ℚ) ^ (-126 : ℤ) = least at *
    generalize single (dot v v) = d at *
    rcases le_or_gt ((1 - roundoff) * normSq v + -(w * least)) 0 with hneg | hrest
    · nlinarith
    · have hterms := le_of_one_sub_mul_le hw hw' hrest.le
        ((mul_le_mul_of_nonneg_right hpow hrest.le).trans hsum)
      linarith

end Lengths

end EmbeddingSearch
