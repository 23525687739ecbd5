import EmbeddingSearch.Proofs.Text.Bytes
import EmbeddingSearch.Proofs.Vector.Order

/-!
# The best results

Whatever the similarities are, every two results can be compared, so there is a first part of every
list of results that nothing left out belongs into. A way to sort is free to choose only among
results that tie; where none do, there is one ranking, and a smaller limit cuts it short.

## Contents
- `Outranks`, `Ties`: the order of similarities, in terms of the numbers and of NaN.
- `Scored.Before`, `Scored.Level`: the order of results, by similarity and by the bytes of the id.
- `Scored.notAfter_total`, `Scored.NotAfter.trans`: it is a total preorder.
- `FrontOf`, `BestOf`, `FrontOf.bestOf`: the first results of a sorted list are its best.
- `eq_of_distinct`: results of which no two are level can only be sorted in one way.
- `best_characterized`: the best results, however they are sorted.
-/

namespace EmbeddingSearch

/-! ## Similarities -/

/-- Whether a similarity is above another one: as the larger number, or as NaN above a number. -/
def Outranks (x y : Float32) : Prop := y < x ∨ x.isNaN = true ∧ y.isNaN = false

/-- Whether two similarities are equal: as numbers, or both as NaN. -/
def Ties (x y : Float32) : Prop := (x == y) = true ∨ x.isNaN = true ∧ y.isNaN = true

instance (x y : Float32) : Decidable (Outranks x y) := inferInstanceAs (Decidable (_ ∨ _))

instance (x y : Float32) : Decidable (Ties x y) := inferInstanceAs (Decidable (_ ∨ _))

/-- NaN is neither below, above nor equal to anything as a number. -/
theorem incomparable_of_isNaN {x y : Float32} (h : x.isNaN = true ∨ y.isNaN = true) :
    ¬ x < y ∧ ¬ y < x ∧ ¬ (x == y) = true := by
  have hxy := compare_eq_none (u := x.toModel.unpack) (v := y.toModel.unpack) h
  have hyx := compare_eq_none (u := y.toModel.unpack) (v := x.toModel.unpack) h.symm
  rw [float32_lt_iff, float32_lt_iff, float32_beq_iff, hxy, hyx]
  simp

/-- Nothing is above NaN, and only NaN is equal to it. -/
theorem nan_greatest {x : Float32} (hx : x.isNaN = true) (y : Float32) :
    ¬ Outranks y x ∧ (Ties x y ↔ y.isNaN = true) := by
  obtain ⟨hlt, -, heq⟩ := incomparable_of_isNaN (y := y) (.inl hx)
  refine ⟨?_, ?_⟩
  · rintro (h | ⟨-, hx'⟩)
    · exact hlt h
    · exact Bool.noConfusion (hx.symm.trans hx')
  · exact ⟨fun h => (h.resolve_left heq).2, fun hy => .inr ⟨hx, hy⟩⟩

theorem compareScores_eq_lt_iff (x y : Float32) : compareScores x y = .lt ↔ Outranks y x := by
  by_cases hx : x.isNaN = true
  · refine iff_of_false ?_ (nan_greatest hx y).1
    obtain ⟨hlt, hgt, heq⟩ := incomparable_of_isNaN (y := y) (.inl hx)
    rw [compareScores, if_neg hlt, if_neg hgt, if_neg heq, if_pos hx]
    cases y.isNaN <;> decide
  · by_cases hy : y.isNaN = true
    · refine iff_of_true ?_ (.inr ⟨hy, Bool.eq_false_of_not_eq_true hx⟩)
      obtain ⟨hlt, hgt, heq⟩ := incomparable_of_isNaN (x := x) (.inr hy)
      rw [compareScores, if_neg hlt, if_neg hgt, if_neg heq, if_neg hx]
    · rw [compareScores_eq_lt (Bool.eq_false_of_not_eq_true hx) (Bool.eq_false_of_not_eq_true hy)]
      exact (or_iff_left fun h => hy h.1).symm

theorem compareScores_eq_eq_iff (x y : Float32) : compareScores x y = .eq ↔ Ties x y := by
  by_cases hx : x.isNaN = true
  · obtain ⟨hlt, hgt, heq⟩ := incomparable_of_isNaN (y := y) (.inl hx)
    rw [(nan_greatest hx y).2, compareScores, if_neg hlt, if_neg hgt, if_neg heq, if_pos hx]
    cases y.isNaN <;> decide
  · have hties : Ties x y ↔ (x == y) = true := or_iff_left fun h => hx h.1
    rw [hties]
    by_cases hy : y.isNaN = true
    · obtain ⟨hlt, hgt, heq⟩ := incomparable_of_isNaN (x := x) (.inr hy)
      rw [compareScores, if_neg hlt, if_neg hgt, if_neg heq, if_neg hx]
      exact iff_of_false (by decide) heq
    · exact compareScores_eq_eq (Bool.eq_false_of_not_eq_true hx) (Bool.eq_false_of_not_eq_true hy)

theorem Ties.symm {x y : Float32} (h : Ties x y) : Ties y x := by
  rw [← compareScores_eq_eq_iff, compareScores_eq, compare_eq_iff_eq] at h ⊢
  exact h.symm

theorem Ties.comm {x y : Float32} : Ties x y ↔ Ties y x := ⟨Ties.symm, Ties.symm⟩

/-- The two zeros are equal. -/
theorem ties_zeros : Ties negZero 0 := .inl (by decide)

/-! ## Results -/

namespace Scored

/-- Whether a result comes before another one: its similarity is above, or equal and the bytes of
its id come first. -/
def Before (a b : Scored) : Prop :=
  Outranks a.similarity b.similarity ∨
    Ties a.similarity b.similarity ∧ Text.bytes a.recordId < Text.bytes b.recordId

/-- Whether a result may stand before another one. -/
def NotAfter (a b : Scored) : Prop := ¬ b.Before a

/-- Whether neither of two results comes before the other. -/
def Level (a b : Scored) : Prop := Ties a.similarity b.similarity ∧ a.recordId = b.recordId

instance (a b : Scored) : Decidable (a.Before b) := inferInstanceAs (Decidable (_ ∨ _ ∧ _))

instance (a b : Scored) : Decidable (a.NotAfter b) := inferInstanceAs (Decidable (¬ _))

instance (a b : Scored) : Decidable (a.Level b) := inferInstanceAs (Decidable (_ ∧ _))

theorem Level.symm {a b : Scored} (h : a.Level b) : b.Level a := ⟨h.1.symm, h.2.symm⟩

theorem compare_eq_lt_iff (a b : Scored) : a.compare b = .lt ↔ a.Before b := by
  rw [compare, Ordering.then_eq_lt, compareScores_eq_lt_iff, compareScores_eq_eq_iff,
    compare_lt_iff_lt, Before, Text.bytes_lt_iff, Ties.comm]

theorem compare_eq_eq_iff (a b : Scored) : a.compare b = .eq ↔ a.Level b := by
  rw [compare, Ordering.then_eq_eq, compareScores_eq_eq_iff, compare_eq_iff_eq, Level, Ties.comm]

theorem notAfter_iff {a b : Scored} : a.NotAfter b ↔ a.rankKey ≤ b.rankKey := by
  rw [NotAfter, ← compare_eq_lt_iff, compare_eq, compare_lt_iff_lt, not_lt]

theorem notAfter_iff_le {a b : Scored} : a.NotAfter b ↔ a.le b = true := by
  rw [notAfter_iff, le_iff]

theorem notAfter_total (a b : Scored) : a.NotAfter b ∨ b.NotAfter a := by
  rw [notAfter_iff, notAfter_iff]
  exact LinearOrder.le_total a.rankKey b.rankKey

theorem NotAfter.trans {a b c : Scored} (hab : a.NotAfter b) (hbc : b.NotAfter c) :
    a.NotAfter c := by
  rw [notAfter_iff] at *
  exact hab.trans hbc

/-- Results that may stand on either side of each other are level. -/
theorem NotAfter.level {a b : Scored} (hab : a.NotAfter b) (hba : b.NotAfter a) : a.Level b := by
  rw [← compare_eq_eq_iff, compare_eq, compare_eq_iff_eq]
  exact le_antisymm (notAfter_iff.mp hab) (notAfter_iff.mp hba)

end Scored

/-! ## The first results -/

/-- Whether some results are the first of a list in one of the ways to sort it. A limit of zero
stands for ten. -/
def FrontOf (results : List Scored) (limit : Nat) (kept : List Scored) : Prop :=
  ∃ sorted : List Scored, sorted.Perm results ∧ sorted.Pairwise Scored.NotAfter ∧
    kept = sorted.take (if limit = 0 then 10 else limit)

/-- Whether some results are the best of a list: as many as the limit allows, in order, and together
with others that do not come before any of them they are the list. -/
structure BestOf (results : List Scored) (limit : Nat) (kept : List Scored) : Prop where
  length : kept.length = min (if limit = 0 then 10 else limit) results.length
  ordered : kept.Pairwise Scored.NotAfter
  others : ∃ dropped, (kept ++ dropped).Perm results ∧ ∀ a ∈ kept, ∀ b ∈ dropped, a.NotAfter b

theorem ranked_notAfter (results : List Scored) : (ranked results).Pairwise Scored.NotAfter :=
  (ranked_pairwise results).imp Scored.notAfter_iff_le.mpr

theorem best_frontOf (results : List Scored) (limit : Nat) :
    FrontOf results limit (best results limit) :=
  ⟨ranked results, ranked_perm results, ranked_notAfter results, rfl⟩

/-- However results are sorted, the first of them are the best. -/
theorem FrontOf.bestOf {results kept : List Scored} {limit : Nat} (h : FrontOf results limit kept) :
    BestOf results limit kept := by
  obtain ⟨sorted, hperm, hsorted, rfl⟩ := h
  generalize hn : (if limit = 0 then 10 else limit) = n
  have hparts := List.take_append_drop n sorted
  rw [← hparts] at hsorted
  obtain ⟨hfront, -, hcross⟩ := List.pairwise_append.mp hsorted
  refine ⟨?_, hfront, sorted.drop n, ?_, hcross⟩
  · rw [List.length_take, hperm.length_eq, hn]
  · rw [hparts]
    exact hperm

/-- Results of which no two are level can only be sorted in one way. -/
theorem eq_of_distinct {results sorted sorted' : List Scored}
    (hdistinct : results.Pairwise fun a b => ¬ a.Level b) (hperm : sorted.Perm results)
    (hperm' : sorted'.Perm results) (hsorted : sorted.Pairwise Scored.NotAfter)
    (hsorted' : sorted'.Pairwise Scored.NotAfter) : sorted = sorted' := by
  have : Std.Symm fun a b : Scored => ¬ a.Level b := ⟨fun _ _ h h' => h h'.symm⟩
  refine List.Perm.eq_of_pairwise ?_ hsorted hsorted' (hperm.trans hperm'.symm)
  intro a b ha hb hab hba
  by_contra hne
  exact hdistinct.forall (hperm.mem_iff.mp ha) (hperm'.mem_iff.mp hb) hne (hab.level hba)

/-- Any two results can be compared, by similarity with NaN above all numbers and then by the bytes
of their ids. Whatever the results are and however they are sorted, the first of them up to the
limit are the best, and a smaller limit gives the first of them. If no two results are level, they
are the same in whatever order the results come and in whatever way they are sorted. -/
theorem best_characterized (results : List Scored) :
    ((∀ a b : Scored, (a.compare b = .lt ↔ a.Before b) ∧ (a.compare b = .eq ↔ a.Level b)) ∧
        (∀ a b : Scored, a.NotAfter b ∨ b.NotAfter a) ∧
        (∀ a b c : Scored, a.NotAfter b → b.NotAfter c → a.NotAfter c) ∧
        (∀ x y : Float32, x.isNaN = true → ¬ Outranks y x ∧ (Ties x y ↔ y.isNaN = true)) ∧
        Ties negZero 0) ∧
      (∀ limit, FrontOf results limit (best results limit)) ∧
      (∀ limit kept, FrontOf results limit kept → BestOf results limit kept) ∧
      (∀ k k', 1 ≤ k → k ≤ k' → best results k <+: best results k') ∧
      ((results.Pairwise fun a b => ¬ a.Level b) → ∀ others limit kept,
        others.Perm results → FrontOf others limit kept → kept = best results limit) := by
  refine ⟨⟨fun a b => ⟨a.compare_eq_lt_iff b, a.compare_eq_eq_iff b⟩, Scored.notAfter_total,
    fun _ _ _ => Scored.NotAfter.trans, fun _ y hx => nan_greatest hx y, ties_zeros⟩,
    best_frontOf results, fun _ _ => FrontOf.bestOf, ?_, ?_⟩
  · intro k k' hk hle
    rw [best, best, if_neg (Nat.ne_of_gt hk), if_neg (Nat.ne_of_gt (hk.trans hle))]
    exact List.take_prefix_take_left hle
  · rintro hdistinct others limit kept hperm ⟨sorted, hsorts, hsorted, rfl⟩
    rw [eq_of_distinct hdistinct (hsorts.trans hperm) (ranked_perm results) hsorted
      (ranked_notAfter results)]
    rfl

/-- NaN above an infinity, and two zeros that only their ids tell apart, in a list and its
reverse. -/
theorem best_characterized_zeros :
    let results : List Scored := [⟨"b", 0⟩, ⟨"é", 1 / 0⟩, ⟨"a", negZero⟩, ⟨"z", 0 / 0⟩]
    let kept : List Scored := [⟨"z", 0 / 0⟩, ⟨"é", 1 / 0⟩, ⟨"a", negZero⟩]
    (results.Pairwise fun a b => ¬ a.Level b) ∧ results.reverse.Perm results ∧
      FrontOf results.reverse 3 kept ∧ best results 3 = kept ∧
      (1 ≤ 2 ∧ 2 ≤ 3) ∧ best results 2 <+: kept := by
  intro results kept
  have hdistinct : results.Pairwise fun a b => ¬ a.Level b := by decide +kernel
  have hfront : FrontOf results.reverse 3 kept :=
    ⟨kept ++ [⟨"b", 0⟩], by decide +kernel, by decide +kernel, rfl⟩
  obtain ⟨-, -, -, hprefix, hunique⟩ := best_characterized results
  have hkept := hunique hdistinct results.reverse 3 kept results.reverse_perm hfront
  refine ⟨hdistinct, results.reverse_perm, hfront, hkept.symm, ⟨by decide, by decide⟩, ?_⟩
  rw [hkept]
  exact hprefix 2 3 (by decide) (by decide)

end EmbeddingSearch
