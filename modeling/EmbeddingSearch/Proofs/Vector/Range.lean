import EmbeddingSearch.Proofs.Vector.Sums

/-!
# The range of similarities

The cosine of an angle is between -1 and 1, and so is a similarity but for its rounding, if the squares
of the components of both vectors are not lost below the normal range. A vector of which they are lost
comes out too short, and may be more similar to another one than that is to itself.

## Contents
- `sum_mul_sq_le`, `sum_products_sq_le`: the exact bound on a dot product.
- `Measured`: vectors whose length is zero, or known to within rounding.
- `abs_dot_le_magnitudes`: the computed dot product and the computed lengths.
- `abs_cosine_le`: similarities are in range.
- `le_cosine_self`: what an exact match scores.
- `similarity_in_range`: the range, and that no vector outranks an exact match.
-/

namespace EmbeddingSearch

open Numeric

/-! ## Exact dot products -/

/-- A sum of products is bounded by the sums of the squares. -/
theorem sum_mul_sq_le {β : Type} (l : List β) (f g : β → ℚ) :
    (l.map fun x => |f x * g x|).sum ^ 2 ≤
      (l.map fun x => f x ^ 2).sum * (l.map fun x => g x ^ 2).sum := by
  induction l with
  | nil => simp
  | cons x l ih =>
    have hX : 0 ≤ (l.map fun x => |f x * g x|).sum :=
      List.sum_nonneg (List.forall_mem_map.mpr fun _ _ => abs_nonneg _)
    have hF : 0 ≤ (l.map fun x => f x ^ 2).sum :=
      List.sum_nonneg (List.forall_mem_map.mpr fun _ _ => sq_nonneg _)
    have hG : 0 ≤ (l.map fun x => g x ^ 2).sum :=
      List.sum_nonneg (List.forall_mem_map.mpr fun _ _ => sq_nonneg _)
    simp only [List.map_cons, List.sum_cons]
    generalize (l.map fun x => |f x * g x|).sum = X at *
    generalize (l.map fun x => f x ^ 2).sum = F at *
    generalize (l.map fun x => g x ^ 2).sum = G at *
    have hsq : |f x * g x| ^ 2 = f x ^ 2 * g x ^ 2 := by rw [sq_abs, mul_pow]
    -- twice the mixed term is at most the sum of the two others
    have hmixed : 2 * X * |f x * g x| ≤ F * g x ^ 2 + f x ^ 2 * G := by
      refine (abs_le_of_sq_le_sq' ?_ (by positivity)).2
      have hstep := mul_le_mul_of_nonneg_right ih (sq_nonneg (f x * g x))
      nlinarith [sq_nonneg (F * g x ^ 2 - f x ^ 2 * G)]
    nlinarith

theorem sum_products_sq_le {a b : Embedding} (hlen : a.length = b.length) :
    ((a.zip b).map fun p => |single p.1 * single p.2|).sum ^ 2 ≤ normSq a * normSq b := by
  have hsum := sum_mul_sq_le (a.zip b) (fun p => single p.1) fun p => single p.2
  have hleft : ((a.zip b).map fun p => single p.1 ^ 2) =
      ((a.zip b).map Prod.fst).map fun x => single x ^ 2 := by
    rw [List.map_map]
    rfl
  have hright : ((a.zip b).map fun p => single p.2 ^ 2) =
      ((a.zip b).map Prod.snd).map fun x => single x ^ 2 := by
    rw [List.map_map]
    rfl
  rwa [hleft, hright, List.map_fst_zip hlen.le, List.map_snd_zip hlen.ge] at hsum

/-! ## Computed dot products -/

/-- Whether the length of a vector is zero, or not below the square root of the least normal number.
Lengths that are not finite are harmless. -/
def Measured (v : Embedding) : Prop :=
  single (magnitude v) = 0 ∨ 2 ^ (-63 : ℤ) ≤ single (magnitude v)

instance (v : Embedding) : Decidable (Measured v) := inferInstanceAs (Decidable (_ ∨ _))

/-- The roundings of a similarity stay within the allowance. -/
theorem roundings_le {w : ℚ} (hw : 0 ≤ w) (hw' : w ≤ 1 / 256) :
    (1 + 65 / 64 * w) * ((1 + roundoff) * (1 + 97 / 64 * w) + w) ≤
      (1 + (4 * w + 32 * roundoff)) * (1 - roundoff) ^ 4 := by
  rw [roundoff_eq]
  nlinarith

section Finite

variable {a b v : Embedding}

theorem normSq_le_magnitude (h : (magnitude v).isFinite = true)
    (hmag : 2 ^ (-63 : ℤ) ≤ single (magnitude v)) (hlen : v.length ≤ 65536) :
    (1 - roundoff) ^ 3 * normSq v ≤
      (1 + 97 / 64 * (v.length * roundoff)) * single (magnitude v) ^ 2 := by
  have hnorm := normSq_le h hmag hlen
  have hroot := (magnitude_sq_bounds h hmag).1
  have hw := (length_mul_roundoff hlen).1
  calc (1 - roundoff) ^ 3 * normSq v = (1 - roundoff) ^ 2 * ((1 - roundoff) * normSq v) := by ring
    _ ≤ (1 - roundoff) ^ 2 * ((1 + 97 / 64 * (v.length * roundoff)) * single (dot v v)) :=
        mul_le_mul_of_nonneg_left hnorm (sq_nonneg _)
    _ = (1 + 97 / 64 * (v.length * roundoff)) * ((1 - roundoff) ^ 2 * single (dot v v)) := by ring
    _ ≤ (1 + 97 / 64 * (v.length * roundoff)) * single (magnitude v) ^ 2 :=
        mul_le_mul_of_nonneg_left hroot (by linarith)

/-- The exact products of the components add up to little more than the product of the computed
lengths. -/
theorem sum_products_le_magnitudes (hlen : a.length = b.length) (hn : a.length ≤ 65536)
    (ha : (magnitude a).isFinite = true) (hb : (magnitude b).isFinite = true)
    (hma : 2 ^ (-63 : ℤ) ≤ single (magnitude a)) (hmb : 2 ^ (-63 : ℤ) ≤ single (magnitude b)) :
    (1 - roundoff) ^ 3 * ((a.zip b).map fun p => |single p.1 * single p.2|).sum ≤
      (1 + 97 / 64 * (a.length * roundoff)) * (single (magnitude a) * single (magnitude b)) := by
  have hna := normSq_le_magnitude ha hma hn
  have hnb := normSq_le_magnitude hb hmb (hlen ▸ hn)
  rw [← hlen] at hnb
  have hw := (length_mul_roundoff hn).1
  have hP := (two_zpow_pos (-126)).le.trans (least_le_mul hma hmb)
  have hcube : 0 ≤ (1 - roundoff) ^ 3 := pow_nonneg (sub_nonneg.mpr roundoff_lt_one.le) 3
  generalize a.length * roundoff = w at *
  refine (abs_le_of_sq_le_sq' ?_ (mul_nonneg (by linarith) hP)).2
  calc ((1 - roundoff) ^ 3 * ((a.zip b).map fun p => |single p.1 * single p.2|).sum) ^ 2
      ≤ ((1 - roundoff) ^ 3) ^ 2 * (normSq a * normSq b) := by
        rw [mul_pow]
        exact mul_le_mul_of_nonneg_left (sum_products_sq_le hlen) (sq_nonneg _)
    _ = ((1 - roundoff) ^ 3 * normSq a) * ((1 - roundoff) ^ 3 * normSq b) := by ring
    _ ≤ ((1 + 97 / 64 * w) * single (magnitude a) ^ 2) *
        ((1 + 97 / 64 * w) * single (magnitude b) ^ 2) :=
        mul_le_mul hna hnb (mul_nonneg hcube (normSq_nonneg b))
          (mul_nonneg (by linarith) (sq_nonneg _))
    _ = ((1 + 97 / 64 * w) * (single (magnitude a) * single (magnitude b))) ^ 2 := by ring

/-- A dot product is at most the product of the computed lengths, but for rounding. -/
theorem abs_dot_le_magnitudes (hlen : a.length = b.length) (hn : a.length ≤ 65536)
    (hdot : (dot a b).isFinite = true) (ha : (magnitude a).isFinite = true)
    (hb : (magnitude b).isFinite = true) (hma : 2 ^ (-63 : ℤ) ≤ single (magnitude a))
    (hmb : 2 ^ (-63 : ℤ) ≤ single (magnitude b)) :
    |single (dot a b)| ≤ (1 + (4 * (a.length * roundoff) + 32 * roundoff)) * (1 - roundoff) *
      (single (magnitude a) * single (magnitude b)) := by
  have hsum := abs_dot_le hdot
  have hX := sum_products_le_magnitudes hlen hn ha hb hma hmb
  have hX0 : 0 ≤ ((a.zip b).map fun p => |single p.1 * single p.2|).sum :=
    List.sum_nonneg (List.forall_mem_map.mpr fun _ _ => abs_nonneg _)
  have hzip : (a.zip b).length = a.length := by rw [List.length_zip, ← hlen, min_self]
  rw [hzip, length_mul_underflow] at hsum
  obtain ⟨hw, hw'⟩ := length_mul_roundoff hn
  have hpos := roundoff_pos
  have hone := roundoff_lt_one
  have hgrowth := le_of_one_sub_mul_le hw hw' (pow_nonneg (by linarith) _)
    (roundoff_pow_bounds a.length).2
  have hallowed := roundings_le hw hw'
  have hleast := least_le_mul hma hmb
  have hleast0 := two_zpow_pos (-126)
  have hcube : 0 < (1 - roundoff) ^ 3 ∧ (1 - roundoff) ^ 3 ≤ 1 :=
    ⟨pow_pos (by linarith) 3, pow_le_one₀ (by linarith) (by linarith)⟩
  generalize a.length * roundoff = w at *
  generalize ((a.zip b).map fun p => |single p.1 * single p.2|).sum = X at *
  generalize single (magnitude a) * single (magnitude b) = P at *
  generalize (2 : ℚ) ^ (-126 : ℤ) = least at *
  have hlost : (1 - roundoff) ^ 3 * least ≤ P :=
    (mul_le_of_le_one_left hleast0.le hcube.2).trans hleast
  refine le_of_mul_le_mul_left ?_ hcube.1
  calc (1 - roundoff) ^ 3 * |single (dot a b)|
      ≤ (1 - roundoff) ^ 3 * ((1 + 65 / 64 * w) * 1 * ((1 + roundoff) * X + w * least)) := by
        refine mul_le_mul_of_nonneg_left (hsum.trans ?_) hcube.1.le
        refine mul_le_mul_of_nonneg_right hgrowth (add_nonneg ?_ (mul_nonneg hw hleast0.le))
        exact mul_nonneg (by linarith) hX0
    _ = (1 + 65 / 64 * w) * ((1 + roundoff) * ((1 - roundoff) ^ 3 * X) +
          w * ((1 - roundoff) ^ 3 * least)) := by ring
    _ ≤ (1 + 65 / 64 * w) * ((1 + roundoff) * ((1 + 97 / 64 * w) * P) + w * P) := by
        refine mul_le_mul_of_nonneg_left (add_le_add ?_ ?_) (by linarith)
        · exact mul_le_mul_of_nonneg_left hX (by linarith)
        · exact mul_le_mul_of_nonneg_left hlost hw
    _ = (1 + 65 / 64 * w) * ((1 + roundoff) * (1 + 97 / 64 * w) + w) * P := by ring
    _ ≤ (1 + (4 * w + 32 * roundoff)) * (1 - roundoff) ^ 4 * P :=
        mul_le_mul_of_nonneg_right hallowed (hleast0.le.trans hleast)
    _ = (1 - roundoff) ^ 3 * ((1 + (4 * w + 32 * roundoff)) * (1 - roundoff) * P) := by ring

/-- The computed product of two lengths is near to the exact one. -/
theorem abs_mul_magnitudes_sub_le (h : (magnitude a * magnitude b).isFinite = true)
    (hma : 2 ^ (-63 : ℤ) ≤ single (magnitude a)) (hmb : 2 ^ (-63 : ℤ) ≤ single (magnitude b)) :
    |single (magnitude a * magnitude b) - single (magnitude a) * single (magnitude b)| ≤
      roundoff * (single (magnitude a) * single (magnitude b)) := by
  have hleast := least_le_mul hma hmb
  have habs : |single (magnitude a) * single (magnitude b)| =
      single (magnitude a) * single (magnitude b) :=
    abs_of_nonneg ((two_zpow_pos _).le.trans hleast)
  have herror := abs_single_mul_sub_le_mul h (habs.symm ▸ hleast)
  rwa [habs] at herror

end Finite

/-! ## Similarities -/

/-- A similarity is zero, or the finite quotient of finite numbers that are not zero. -/
theorem single_cosine_cases (a b : Embedding) :
    single (cosine a b) = 0 ∨
      (a.length = b.length ∧ (dot a b).isFinite = true) ∧
        ((magnitude a).isFinite = true ∧ single (magnitude a) ≠ 0) ∧
        ((magnitude b).isFinite = true ∧ single (magnitude b) ≠ 0) ∧
        (magnitude a * magnitude b).isFinite = true ∧
        (dot a b / (magnitude a * magnitude b)).isFinite = true ∧
        cosine a b = dot a b / (magnitude a * magnitude b) := by
  rw [← cosineWith_magnitude]
  by_cases hzero : cosineWith a (magnitude a) b (magnitude b) = 0
  · rw [hzero]
    exact .inl rfl
  · obtain ⟨⟨hlen, -⟩, ⟨hma, hmb⟩, heq, hfinite⟩ := cosineWith_of_ne_zero hzero
    rw [heq]
    by_cases hD : (magnitude a * magnitude b).isFinite = true
    · obtain ⟨ha, hb⟩ := isFinite_mul hD
      refine .inr ⟨⟨hlen, (isFinite_div hfinite).1⟩, ⟨ha, ?_⟩, ⟨hb, ?_⟩, hD, hfinite, rfl⟩
      · intro hsingle
        rw [(beq_zero_iff ha).mpr hsingle] at hma
        cases hma
      · intro hsingle
        rw [(beq_zero_iff hb).mpr hsingle] at hmb
        cases hmb
    · exact .inl (single_div_of_not_isFinite hfinite hD)

/-- The allowance is a value of binary32. -/
theorem representable_allowance {n : Nat} (hn : n ≤ 65536) :
    Representable .binary32 (1 + (n + 8) / 2 ^ 22) := by
  refine ⟨2 ^ 22 + n + 8, -22, ?_, ?_, by decide⟩
  · push_cast
    norm_num
    ring
  · show 2 ^ 22 + n + 8 < 2 ^ 24
    omega

theorem abs_cosine_le {a b : Embedding} (hn : a.length ≤ 65536) (ha : Measured a)
    (hb : Measured b) : |single (cosine a b)| ≤ 1 + (a.length + 8) / 2 ^ 22 := by
  rcases single_cosine_cases a b with hzero | ⟨⟨hlen, hdot⟩, ⟨hfa, hma⟩, ⟨hfb, hmb⟩, hD, hfinite, heq⟩
  · rw [hzero, abs_zero]
    positivity
  · replace hma := ha.resolve_left hma
    replace hmb := hb.resolve_left hmb
    have hbound := abs_dot_le_magnitudes hlen hn hdot hfa hfb hma hmb
    have hlow := (abs_le.mp (abs_mul_magnitudes_sub_le hD hma hmb)).1
    have hu := roundoff_eq
    have hDpos : 0 < single (magnitude a * magnitude b) := by
      have hpos := (two_zpow_pos (-126)).trans_le (least_le_mul hma hmb)
      rw [hu] at hlow
      linarith
    rw [heq, single_div hfinite hD hDpos.ne']
    refine abs_rounded_le (representable_allowance hn) ?_
    rw [abs_div, abs_of_pos hDpos, div_le_iff₀ hDpos]
    have hallowance : 1 + (4 * (a.length * roundoff) + 32 * roundoff) =
        1 + ((a.length : ℚ) + 8) / 2 ^ 22 := by
      rw [hu]
      ring
    rw [hallowance, mul_assoc] at hbound
    refine hbound.trans (mul_le_mul_of_nonneg_left ?_ (by positivity))
    linarith

/-! ## Exact matches -/

section ExactMatch

variable {a : Embedding}

/-- The length of a vector whose squares do not overflow is below the root of the least power of two
that does. -/
theorem magnitude_le (h : (magnitude a).isFinite = true) :
    single (magnitude a) ≤ (2 ^ 24 - 1) * 2 ^ (40 : ℤ) := by
  have hrep := representable_single (magnitude a)
  rw [magnitude_eq] at h hrep ⊢
  obtain ⟨x, y, hx, -, hxd, -, hrx, -⟩ := single_sqrt h
  have hsum : single (dot a a) ≤ (2 ^ 24 - 1) * 2 ^ (104 : ℤ) :=
    (le_abs_self _).trans ((representable_single (dot a a)).le_of_lt (abs_single_lt _))
  have hroot : x < 2 ^ 64 - 2 ^ 39 := by
    refine lt_of_pow_lt_pow_left₀ 2 (by norm_num) (hxd.trans_lt (hsum.trans_lt ?_))
    norm_num
  have herror : |single (dot a a).sqrt - x| ≤ 2 ^ (40 - 1 : ℤ) := by
    rw [hrx]
    refine abs_rounded_sub_le_of_lt (by decide) ?_
    rw [abs_of_nonneg hx]
    refine hroot.trans ?_
    show (2 : ℚ) ^ 64 - 2 ^ 39 < 2 ^ (40 + 24 : ℤ)
    norm_num
  have hlarge := (abs_le.mp herror).2
  refine (le_abs_self _).trans (hrep.le_of_lt ?_)
  show |single (dot a a).sqrt| < 2 ^ (40 + 24 : ℤ)
  rw [abs_lt]
  have hsmall := (abs_le.mp herror).1
  norm_num at *
  constructor <;> linarith

theorem isFinite_mul_magnitude (h : (magnitude a).isFinite = true)
    (hma : 0 ≤ single (magnitude a)) : (magnitude a * magnitude a).isFinite = true := by
  have hle := magnitude_le h
  have hsq := mul_le_mul hle hle hma (by positivity)
  have hrep : Representable .binary32 ((2 ^ 24 - 1) * 2 ^ (104 : ℤ)) :=
    ⟨2 ^ 24 - 1, 104, by norm_num, by decide, by decide⟩
  refine isFinite_mul_of_lt h h (lt_of_le_of_lt (abs_rounded_le hrep ?_) (by norm_num))
  rw [abs_of_nonneg (mul_nonneg hma hma)]
  exact hsq.trans (by norm_num)

/-- A vector is as similar to itself as rounding allows. -/
theorem le_cosine_self (h : (magnitude a).isFinite = true)
    (hma : 2 ^ (-63 : ℤ) ≤ single (magnitude a)) :
    1 - 1 / 2 ^ 22 ≤ single (cosine a a) := by
  have hdot := isFinite_dot_of_magnitude h
  have hM : 0 < single (magnitude a) := (two_zpow_pos _).trans_le hma
  have hD := isFinite_mul_magnitude h hM.le
  have hroot := magnitude_sq_bounds h hma
  have herror := abs_le.mp (abs_mul_magnitudes_sub_le hD hma hma)
  have hsq := mul_pos hM hM
  rw [roundoff_eq, sq (single (magnitude a))] at hroot
  rw [roundoff_eq] at herror
  have hDpos : 0 < single (magnitude a * magnitude a) := by linarith
  have hbounds : 1 - 1 / 2 ^ 22 ≤ single (dot a a) / single (magnitude a * magnitude a) ∧
      single (dot a a) / single (magnitude a * magnitude a) ≤ 2 := by
    rw [le_div_iff₀ hDpos, div_le_iff₀ hDpos]
    constructor <;> linarith
  have hpos : 0 < single (dot a a) / single (magnitude a * magnitude a) :=
    lt_of_lt_of_le (by norm_num) hbounds.1
  have hfinite : (dot a a / (magnitude a * magnitude a)).isFinite = true := by
    refine isFinite_div_of_lt hdot hD hDpos.ne' ?_
    have htwo : Representable .binary32 2 := ⟨2, 0, by norm_num, by decide, by decide⟩
    refine lt_of_le_of_lt (abs_rounded_le htwo ?_) (by norm_num)
    rw [abs_of_pos hpos]
    exact hbounds.2
  have hnonzero : (magnitude a == 0) = false := by
    rw [← Bool.not_eq_true, beq_zero_iff h]
    exact hM.ne'
  have hempty : a ≠ [] := by
    rintro rfl
    have hzero : single (magnitude []) = 0 := by decide +kernel
    exact hM.ne' hzero
  rw [← cosineWith_magnitude, cosineWith_of_isFinite rfl hempty hnonzero hnonzero hfinite,
    single_div hfinite hD hDpos.ne']
  have hrep : Representable .binary32 (1 - 1 / 2 ^ 22) :=
    ⟨2 ^ 22 - 1, -22, by norm_num, by decide, by decide⟩
  exact le_rounded hrep hpos hbounds.1

/-- A vector of which the length is known is similar to itself, and any other to nothing. -/
theorem cosine_self_cases (ha : Measured a) :
    (∀ b, single (cosine a b) = 0) ∨ 1 - 1 / 2 ^ 22 ≤ single (cosine a a) := by
  by_cases h : (magnitude a).isFinite = true ∧ single (magnitude a) ≠ 0
  · exact .inr (le_cosine_self h.1 (ha.resolve_left h.2))
  · left
    intro b
    rcases single_cosine_cases a b with hzero | ⟨-, hmagnitude, -⟩
    · exact hzero
    · exact absurd hmagnitude h

end ExactMatch

/-- The similarity of two vectors of up to 65536 components is between -1 and 1 but for rounding, and
not above that of the first one to itself, if the squares of the components have not been lost. -/
theorem similarity_in_range {a b : Embedding} (hn : a.length ≤ 65536) (ha : Measured a)
    (hb : Measured b) :
    (cosine a b).isFinite = true ∧ |single (cosine a b)| ≤ 1 + (a.length + 8) / 2 ^ 22 ∧
      single (cosine a b) ≤ single (cosine a a) + (a.length + 9) / 2 ^ 22 := by
  have hrange := abs_cosine_le hn ha hb
  refine ⟨?_, hrange, ?_⟩
  · rw [← cosineWith_magnitude]
    exact cosineWith_isFinite _ _ _ _
  · rcases cosine_self_cases ha with hzero | hself
    · rw [hzero, hzero, zero_add]
      positivity
    · have hle := (abs_le.mp hrange).2
      have hsplit : ((a.length : ℚ) + 9) / 2 ^ 22 = (a.length + 8) / 2 ^ 22 + 1 / 2 ^ 22 := by ring
      linarith

/-- A vector that is just long enough, and one in nearly the opposite direction. -/
theorem similarity_in_range_opposite :
    let a : Embedding := [1.1e-19, 0]
    let b : Embedding := [-3, 1e-20]
    a.length ≤ 65536 ∧ Measured a ∧ Measured b ∧ (cosine a b).isFinite = true ∧
      |single (cosine a b)| ≤ 1 + 10 / 2 ^ 22 ∧
      single (cosine a b) ≤ single (cosine a a) + 11 / 2 ^ 22 := by
  intro a b
  have hn : a.length ≤ 65536 := by decide
  have ha : Measured a := by decide +kernel
  have hb : Measured b := by decide +kernel
  obtain ⟨hfinite, hrange, hself⟩ := similarity_in_range hn ha hb
  refine ⟨hn, ha, hb, hfinite, hrange.trans (le_of_eq ?_), hself.trans (le_of_eq ?_)⟩
  · show 1 + (((2 : ℕ) : ℚ) + 8) / 2 ^ 22 = _
    norm_num
  · show single (cosine a a) + (((2 : ℕ) : ℚ) + 9) / 2 ^ 22 = _
    norm_num

/-- The square of a single small component is rounded down by so much that the length is a sixth too
short. -/
example : 6 / 5 < single (cosine [4.5e-23] [1]) := by decide +kernel

end EmbeddingSearch
