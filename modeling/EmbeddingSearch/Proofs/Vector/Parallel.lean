import EmbeddingSearch.Proofs.Vector.Chunks
import EmbeddingSearch.Proofs.Vector.Order

/-!
# Ranking in parallel

A set of candidates is scored in chunks by several workers, with magnitudes that were computed
ahead, and the chunks are put together in the order in which the workers end. The results are those
of scoring one candidate after the other with the cosine of its vector, and so is their ranking.

## Contents
- `cosine_isNaN`: no score is NaN.
- `directScores`, `scoreChunk_ofVector`: the scores, with nothing computed ahead.
- `Scored.Precedes`, `ranked_precedes`: which result is shown before which.
- `parallel_ranking_unique`: the ranking of a set of candidates, however it is found.
-/

namespace EmbeddingSearch

/-! ## Scores -/

theorem isNaN_of_isFinite {x : Float32} (h : x.isFinite = true) : x.isNaN = false := by
  show x.toModel.unpack.isNaN = false
  have hx : x.toModel.unpack.isFinite = true := h
  cases hu : x.toModel.unpack with
  | notANumber =>
    rw [hu] at hx
    cases hx
  | _ => rfl

theorem cosineWith_isFinite (a : Embedding) (magA : Float32) (b : Embedding) (magB : Float32) :
    (cosineWith a magA b magB).isFinite = true := by
  unfold cosineWith
  dsimp only
  split
  · decide
  · split
    · assumption
    · decide

/-- With the magnitudes of the vectors at hand, the similarity is that of the vectors. -/
theorem cosineWith_magnitude (a b : Embedding) :
    cosineWith a (magnitude a) b (magnitude b) = cosine a b := by
  unfold cosine
  split
  · next h =>
    -- where the cosine is zero from the start, the first two tests are the same
    unfold cosineWith
    rw [if_pos]
    simp_all
  · rfl

theorem cosine_isNaN (a b : Embedding) : (cosine a b).isNaN = false := by
  rw [← cosineWith_magnitude]
  exact isNaN_of_isFinite (cosineWith_isFinite _ _ _ _)

/-- The score of every record except the excluded one, one after the other and with nothing computed
ahead. -/
def directScores (v : Embedding) (items : List (String × Embedding)) (exclude : Option String) :
    List Scored :=
  (items.filter fun p => exclude ≠ some p.1).map fun p => ⟨p.1, cosine v p.2⟩

theorem scoreChunk_ofVector (v : Embedding) (items : List (String × Embedding))
    (exclude : Option String) :
    scoreChunk (Query.ofVector v) exclude (items.map fun p => Candidate.ofVector p.1 p.2) =
      directScores v items exclude := by
  unfold scoreChunk directScores
  rw [List.filter_map, List.map_map]
  apply List.map_congr_left
  intro p _
  show Scored.mk p.1 (cosineWith v (magnitude v) p.2 (magnitude p.2)) = _
  rw [cosineWith_magnitude]

theorem directScores_nodup (v : Embedding) {items : List (String × Embedding)}
    (exclude : Option String) (hids : (items.map Prod.fst).Nodup) :
    ((directScores v items exclude).map Scored.recordId).Nodup := by
  unfold directScores
  rw [List.map_map]
  exact hids.sublist (List.filter_sublist.map Prod.fst)

theorem directScores_isNaN {v : Embedding} {items : List (String × Embedding)}
    {exclude : Option String} {a : Scored} (ha : a ∈ directScores v items exclude) :
    a.similarity.isNaN = false := by
  obtain ⟨p, _, rfl⟩ := List.mem_map.mp ha
  exact cosine_isNaN v p.2

/-! ## The ranking -/

/-- Whether a result is shown before another: it is more similar, or equally similar and its id is
smaller. -/
def Scored.Precedes (a b : Scored) : Prop :=
  b.similarity < a.similarity ∨ (a.similarity == b.similarity) = true ∧ a.recordId < b.recordId

theorem Scored.precedes_of_le {a b : Scored} (ha : a.similarity.isNaN = false)
    (hb : b.similarity.isNaN = false) (hid : a.recordId ≠ b.recordId) (hle : a.le b = true) :
    a.Precedes b := by
  unfold Scored.le Scored.compare at hle
  cases hs : compareScores b.similarity a.similarity with
  | gt =>
    rw [hs] at hle
    cases hle
  | lt => exact .inl ((compareScores_eq_lt hb ha).mp hs)
  | eq =>
    rw [hs] at hle
    have hs' : compareScores a.similarity b.similarity = .eq := by
      rw [compareScores_eq] at hs ⊢
      exact compare_eq_iff_eq.mpr (compare_eq_iff_eq.mp hs).symm
    refine .inr ⟨(compareScores_eq_eq ha hb).mp hs', ?_⟩
    exact lt_of_le_of_ne (compare_le_iff_le.mp (Ordering.isLE_iff_ne_gt.mp hle)) hid

/-- In a ranking of scores with different ids, every result precedes those that are shown after
it. -/
theorem ranked_precedes {results : List Scored} (hids : (results.map Scored.recordId).Nodup)
    (hnan : ∀ a ∈ results, a.similarity.isNaN = false) :
    (ranked results).Pairwise Scored.Precedes := by
  have hperm := ranked_perm results
  have hdistinct : (ranked results).Pairwise fun a b => a.recordId ≠ b.recordId :=
    List.pairwise_map.mp ((hperm.map Scored.recordId).nodup_iff.mpr hids)
  refine ((ranked_pairwise results).and hdistinct).imp_of_mem ?_
  rintro a b ha hb ⟨hle, hid⟩
  exact Scored.precedes_of_le (hnan a (hperm.mem_iff.mp ha)) (hnan b (hperm.mem_iff.mp hb)) hid hle

/-- A set of candidates has one ranking, whatever the number of workers, the order in which they end
and the way the results are sorted: that of the direct scores, of which the best are the first. -/
theorem parallel_ranking_unique (v : Embedding) {items : List (String × Embedding)}
    (hids : (items.map Prod.fst).Nodup) (exclude : Option String) :
    ∃ order : List Scored, order.Perm (directScores v items exclude) ∧
      order.Pairwise Scored.Precedes ∧
      ∀ (workers : Nat) (parts : List (List Scored)),
        parts.Perm (chunkScores workers (Query.ofVector v)
          (items.map fun p => Candidate.ofVector p.1 p.2) exclude) →
        parts.flatten.Perm (directScores v items exclude) ∧
          (∀ sorted : List Scored, sorted.Perm parts.flatten →
            (sorted.Pairwise fun a b => a.le b = true) → sorted = order) ∧
          ∀ limit, best parts.flatten limit = order.take (if limit = 0 then 10 else limit) := by
  have hnodup := directScores_nodup v exclude hids
  refine ⟨ranked (directScores v items exclude), ranked_perm _,
    ranked_precedes hnodup fun a ha => directScores_isNaN ha, ?_⟩
  intro workers parts hparts
  have hflat : parts.flatten.Perm (directScores v items exclude) := by
    rw [← scoreChunk_ofVector, ← rank_eq workers]
    exact hparts.flatten
  refine ⟨hflat, ?_, ?_⟩
  · intro sorted hperm hsorted
    exact eq_ranked hnodup (hperm.trans hflat) hsorted
  · intro limit
    have hsame : ranked parts.flatten = ranked (directScores v items exclude) :=
      eq_ranked hnodup ((ranked_perm _).trans hflat) (ranked_pairwise _)
    rw [best, hsame]
    rfl

/-- Three workers that end in the opposite order, and two records that are equally similar. -/
theorem parallel_ranking_unique_tie :
    let items : List (String × Embedding) :=
      [("b", [0, 1]), ("d", [1, 1]), ("a", [0, 2]), ("c", [3, 0])]
    let parts := (chunkScores 3 (Query.ofVector [1, 0])
      (items.map fun p => Candidate.ofVector p.1 p.2) (some "d")).reverse
    (items.map Prod.fst).Nodup ∧ best parts.flatten 0 = [⟨"c", 1⟩, ⟨"a", 0⟩, ⟨"b", 0⟩] := by
  intro items parts
  have hids : (items.map Prod.fst).Nodup := by decide
  obtain ⟨order, -, -, hparts⟩ := parallel_ranking_unique [1, 0] hids (some "d")
  obtain ⟨-, hsorted, hbest⟩ := hparts 3 parts (List.reverse_perm _)
  have horder : [⟨"c", 1⟩, ⟨"a", 0⟩, ⟨"b", 0⟩] = order :=
    hsorted _ (by decide +kernel) (by decide +kernel)
  refine ⟨hids, ?_⟩
  rw [hbest, ← horder]
  rfl

end EmbeddingSearch
