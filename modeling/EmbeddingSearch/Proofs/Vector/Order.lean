import EmbeddingSearch.Proofs.Numeric.Number
import EmbeddingSearch.Vector.Ranking

/-!
# The order of results

Similarities are ranked as the numbers they stand for, between the two infinities and below NaN, so
ranking is a total preorder on all results. Results with different ids have exactly one ranking,
whichever way it is found.

## Contents
- `place`, `compareScores_eq`: similarities are compared by their places in a linear order.
- `compareScores_eq_lt`, `compareScores_eq_eq`: below NaN, the order of numbers.
- `Scored.le_trans`, `Scored.le_total`: the order of results.
- `ranked_perm`, `ranked_pairwise`, `eq_ranked`: a ranking, and that there is no other one.
-/

namespace EmbeddingSearch

open Float.Model (Format UnpackedFloat)
open Numeric

/-! ## Places of values -/

/-- The place of a value in the order of similarities: below all numbers, at a number, above all
numbers, or on top as NaN. -/
def place : UnpackedFloat → ℕ ×ₗ ℚ
  | .infinity .negative => toLex (0, 0)
  | .infinity .positive => toLex (2, 0)
  | .notANumber => toLex (3, 0)
  | u => toLex (1, (value? u).getD 0)

theorem compare_toLex (m n : ℕ) (x y : ℚ) :
    compare (toLex (m, x)) (toLex (n, y)) = (compare m n).then (compare x y) := by
  simp [Prod.Lex.compare_def, compareLex, compareOn]

/-- Values other than NaN are compared by their places. -/
theorem compare_place {f : Format} {u v : UnpackedFloat} (hu : Canonical f u) (hv : Canonical f v)
    (hun : u.isNaN = false) (hvn : v.isNaN = false) :
    UnpackedFloat.compare u v = some (compare (place u) (place v)) := by
  have number : ∀ {x y : ℚ}, value? u = some x → value? v = some y →
      place u = toLex (1, x) → place v = toLex (1, y) →
      UnpackedFloat.compare u v = some (compare (place u) (place v)) := by
    intro x y hx hy hpu hpv
    rw [compare_value hu hv hx hy, hpu, hpv, compare_toLex]
    rfl
  cases u with
  | notANumber => cases hun
  | infinity s =>
    cases v with
    | notANumber => cases hvn
    | infinity s' => cases s <;> cases s' <;> rfl
    | zero s' => cases s <;> rfl
    | finite s' m e hm => cases s <;> rfl
  | zero s =>
    cases v with
    | notANumber => cases hvn
    | infinity s' => cases s' <;> rfl
    | zero s' => exact number rfl rfl rfl rfl
    | finite s' m e hm => exact number rfl rfl rfl rfl
  | finite s m e hm =>
    cases v with
    | notANumber => cases hvn
    | infinity s' => cases s <;> cases s' <;> rfl
    | zero s' => exact number rfl rfl rfl rfl
    | finite s' m' e' hm' => exact number rfl rfl rfl rfl

/-- NaN is above everything else. -/
theorem compare_place_notANumber {u : UnpackedFloat} (h : u.isNaN = false) :
    compare (place u) (place .notANumber) = .lt := by
  cases u with
  | notANumber => cases h
  | infinity s => cases s <;> rfl
  | zero s => rfl
  | finite s m e hm => rfl

/-- NaN is compared with nothing. -/
theorem compare_eq_none {u v : UnpackedFloat} (h : u.isNaN = true ∨ v.isNaN = true) :
    UnpackedFloat.compare u v = none := by
  cases u with
  | notANumber => rfl
  | _ =>
    cases v with
    | notANumber => rfl
    | _ => simp [UnpackedFloat.isNaN] at h

/-! ## Similarities -/

/-- The place of a similarity. -/
def placeOf (x : Float32) : ℕ ×ₗ ℚ := place x.toModel.unpack

theorem float32_lt_iff (x y : Float32) :
    x < y ↔ UnpackedFloat.compare x.toModel.unpack y.toModel.unpack = some .lt := by
  show decide (x.toModel.unpack.lt y.toModel.unpack = true) = true ↔ _
  rw [decide_eq_true_iff, UnpackedFloat.lt, beq_iff_eq]

theorem float32_beq_iff (x y : Float32) :
    (x == y) = true ↔ UnpackedFloat.compare x.toModel.unpack y.toModel.unpack = some .eq := by
  show x.toModel.unpack.beq y.toModel.unpack = true ↔ _
  rw [UnpackedFloat.beq, beq_iff_eq]

theorem compare_unpack {x y : Float32} (hx : x.isNaN = false) (hy : y.isNaN = false) :
    UnpackedFloat.compare x.toModel.unpack y.toModel.unpack =
      some (compare (placeOf x) (placeOf y)) :=
  compare_place (canonical_unpack .binary32 _) (canonical_unpack .binary32 _) hx hy

theorem placeOf_eq_of_isNaN {x : Float32} (h : x.isNaN = true) : placeOf x = place .notANumber := by
  have hx : x.toModel.unpack.isNaN = true := h
  unfold placeOf
  cases hu : x.toModel.unpack <;> simp_all [UnpackedFloat.isNaN]

/-- Similarities are compared by their places. -/
theorem compareScores_eq (x y : Float32) : compareScores x y = compare (placeOf x) (placeOf y) := by
  unfold compareScores
  simp only [float32_lt_iff, float32_beq_iff]
  by_cases hx : x.isNaN = true
  · -- with NaN on one side none of the three tests succeeds
    have hnone := compare_eq_none (u := x.toModel.unpack) (v := y.toModel.unpack) (.inl hx)
    have hnone' := compare_eq_none (u := y.toModel.unpack) (v := x.toModel.unpack) (.inr hx)
    simp only [hnone, hnone', hx, placeOf_eq_of_isNaN hx, reduceCtorEq, if_false, if_true]
    by_cases hy : y.isNaN = true
    · rw [if_pos hy, placeOf_eq_of_isNaN hy, compare_eq_iff_eq.mpr rfl]
    · rw [if_neg hy]
      have hlt := compare_place_notANumber (u := y.toModel.unpack) (Bool.eq_false_of_not_eq_true hy)
      exact (compare_gt_iff_gt.mpr (compare_lt_iff_lt.mp hlt)).symm
  · have hx' := Bool.eq_false_of_not_eq_true hx
    by_cases hy : y.isNaN = true
    · have hnone := compare_eq_none (u := x.toModel.unpack) (v := y.toModel.unpack) (.inr hy)
      have hnone' := compare_eq_none (u := y.toModel.unpack) (v := x.toModel.unpack) (.inl hy)
      simp only [hnone, hnone', hx', placeOf_eq_of_isNaN hy, reduceCtorEq, if_false,
        Bool.false_eq_true]
      exact (compare_place_notANumber (u := x.toModel.unpack) hx').symm
    · have hy' := Bool.eq_false_of_not_eq_true hy
      simp only [compare_unpack hx' hy', compare_unpack hy' hx', Option.some.injEq]
      rcases lt_trichotomy (placeOf x) (placeOf y) with h | h | h
      · simp [compare_lt_iff_lt.mpr h]
      · simp [h]
      · simp [compare_lt_iff_lt.mpr h, compare_gt_iff_gt.mpr h]

/-- Below NaN, a similarity comes first when it is the smaller number. -/
theorem compareScores_eq_lt {x y : Float32} (hx : x.isNaN = false) (hy : y.isNaN = false) :
    compareScores x y = .lt ↔ x < y := by
  rw [compareScores_eq, float32_lt_iff, compare_unpack hx hy, Option.some.injEq]

/-- Below NaN, similarities tie when they are the same number. -/
theorem compareScores_eq_eq {x y : Float32} (hx : x.isNaN = false) (hy : y.isNaN = false) :
    compareScores x y = .eq ↔ (x == y) = true := by
  rw [compareScores_eq, float32_beq_iff, compare_unpack hx hy, Option.some.injEq]

/-! ## Results -/

/-- What a result is ranked by: the place of its similarity, from the top down, and then its id. -/
def Scored.rankKey (a : Scored) : (ℕ ×ₗ ℚ)ᵒᵈ ×ₗ String :=
  toLex (.toDual (placeOf a.similarity), a.recordId)

theorem Scored.compare_eq (a b : Scored) : a.compare b = Ord.compare a.rankKey b.rankKey := by
  rw [Scored.compare, compareScores_eq]
  simp [Scored.rankKey, Prod.Lex.compare_def, compareLex, compareOn]
  rfl

theorem Scored.le_iff {a b : Scored} : a.le b = true ↔ a.rankKey ≤ b.rankKey := by
  rw [Scored.le, Scored.compare_eq, ← compare_le_iff_le]
  cases Ord.compare a.rankKey b.rankKey <;> simp

theorem Scored.le_trans (a b c : Scored) (hab : a.le b = true) (hbc : b.le c = true) :
    a.le c = true := by
  rw [Scored.le_iff] at *
  exact hab.trans hbc

theorem Scored.le_total (a b : Scored) : (a.le b || b.le a) = true := by
  rw [Bool.or_eq_true, Scored.le_iff, Scored.le_iff]
  exact LinearOrder.le_total a.rankKey b.rankKey

/-- Results that may stand on either side of each other have the same id. -/
theorem Scored.recordId_eq_of_le {a b : Scored} (hab : a.le b = true) (hba : b.le a = true) :
    a.recordId = b.recordId := by
  have h : a.rankKey = b.rankKey := le_antisymm (Scored.le_iff.mp hab) (Scored.le_iff.mp hba)
  exact congrArg (fun k => (ofLex k).2) h

/-! ## Rankings -/

theorem ranked_perm (results : List Scored) : (ranked results).Perm results :=
  List.mergeSort_perm results Scored.le

theorem ranked_pairwise (results : List Scored) :
    (ranked results).Pairwise fun a b => a.le b = true :=
  List.pairwise_mergeSort Scored.le_trans Scored.le_total results

/-- However results with different ids are sorted, what comes out is their ranking. -/
theorem eq_ranked {results sorted : List Scored} (hids : (results.map Scored.recordId).Nodup)
    (hperm : sorted.Perm results) (hsorted : sorted.Pairwise fun a b => a.le b = true) :
    sorted = ranked results := by
  refine List.Perm.eq_of_pairwise ?_ hsorted (ranked_pairwise results)
    (hperm.trans (ranked_perm results).symm)
  intro a b ha hb hab hba
  have ha' := hperm.mem_iff.mp ha
  have hb' := (ranked_perm results).mem_iff.mp hb
  exact List.inj_on_of_nodup_map hids ha' hb' (Scored.recordId_eq_of_le hab hba)

end EmbeddingSearch
