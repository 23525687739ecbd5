import Mathlib.Tactic
import EmbeddingSearch.Vector.Engine

/-!
# Scoring in chunks

The chunks of a set, put together, are the set. So the scores are those of the set, whatever the
number of workers.

## Contents
- `flatten_slices`, `flatten_chunks`: consecutive ranges cut a list into parts.
- `rank_eq`: the scores of a set of candidates.
-/

namespace EmbeddingSearch

theorem chunkSize_pos (len workers : Nat) : 0 < chunkSize len workers :=
  lt_of_lt_of_le Nat.one_pos (le_max_right _ _)

/-- The first `n` ranges of a size give the first `n * size` items. -/
theorem flatten_slices {α : Type} (xs : List α) (size n : Nat) :
    ((List.range n).map fun i =>
      slice xs (i * size, min (i * size + size) xs.length)).flatten = xs.take (n * size) := by
  induction n with
  | zero => simp
  | succ n ih =>
    -- the last range may be cut short by the end of the list
    have hend : xs.take (min (n * size + size) xs.length) = xs.take (n * size + size) := by
      rcases le_total (n * size + size) xs.length with h | h
      · rw [min_eq_left h]
      · rw [min_eq_right h, List.take_length, List.take_of_length_le h]
    have hstart : xs.take (n * size) = (xs.take (n * size + size)).take (n * size) := by
      rw [List.take_take, min_eq_left (Nat.le_add_right _ _)]
    rw [List.range_succ, List.map_append, List.flatten_append, ih, List.map_singleton,
      List.flatten_singleton, slice, hend, hstart, List.take_append_drop, Nat.succ_mul]

/-- So many ranges cover the list. -/
theorem le_ranges_mul (len : Nat) {size : Nat} (h : 0 < size) :
    len ≤ (len + size - 1) / size * size := by
  have hdiv := Nat.div_add_mod (len + size - 1) size
  have hmod := Nat.mod_lt (len + size - 1) h
  rw [Nat.mul_comm]
  omega

theorem flatten_chunks {α : Type} (xs : List α) (workers : Nat) :
    ((chunkRanges xs.length workers).map (slice xs)).flatten = xs := by
  rw [chunkRanges, List.map_map]
  refine (flatten_slices xs _ _).trans (List.take_of_length_le ?_)
  exact le_ranges_mul xs.length (chunkSize_pos _ _)

/-- The scores of a set do not depend on the number of workers. -/
theorem rank_eq (workers : Nat) (query : Query) (candidates : List Candidate)
    (exclude : Option String) :
    rank workers query candidates exclude = scoreChunk query exclude candidates := by
  have hchunks : chunkScores workers query candidates exclude =
      ((chunkRanges candidates.length workers).map (slice candidates)).map
        (scoreChunk query exclude) := by
    rw [List.map_map]
    rfl
  have hscore : ∀ chunks : List (List Candidate),
      (chunks.map (scoreChunk query exclude)).flatten =
        scoreChunk query exclude chunks.flatten := by
    intro chunks
    induction chunks with
    | nil => rfl
    | cons chunk rest ih =>
      rw [List.map_cons, List.flatten_cons, ih, List.flatten_cons]
      simp only [scoreChunk, List.filter_append, List.map_append]
  rw [rank, hchunks, hscore, flatten_chunks]

end EmbeddingSearch
