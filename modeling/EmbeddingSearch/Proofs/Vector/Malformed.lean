import EmbeddingSearch.Proofs.Numeric.Single
import EmbeddingSearch.Proofs.Vector.Parallel

/-!
# Malformed vectors

A similarity is finite only if every component that went into it is, and where it would not be finite
it is zero. So a vector that has no direction scores zero against everything, and leaves the ranking of
the others as it would be without it.

## Contents
- `Usable`: vectors with a magnitude that can be compared with others.
- `isFinite_of_sum`, `isFinite_of_dot`: the terms of finite sums.
- `cosineWith_of_ne_zero`, `usable_of_cosineWith`: similarities other than zero.
- `ranked_insert`: a ranking with one result more.
- `malformed_harmless`: malformed vectors and the ranking.
-/

namespace EmbeddingSearch

open Numeric

/-- Whether a vector, with the magnitude that it is taken to have, has a direction. -/
structure Usable (v : Embedding) (mag : Float32) : Prop where
  nonempty : v ≠ []
  nonzero : (mag == 0) = false
  number : mag.isNaN = false
  finite : ∀ x ∈ v, x.isFinite = true

/-! ## Finite sums -/

/-- One term that is not finite is enough for the sum not to be. -/
theorem isFinite_of_foldl {xs : List Float32} {acc : Float32}
    (h : (xs.foldl (· + ·) acc).isFinite = true) :
    acc.isFinite = true ∧ ∀ x ∈ xs, x.isFinite = true := by
  induction xs generalizing acc with
  | nil => exact ⟨h, fun x hx => by cases hx⟩
  | cons x xs ih =>
    obtain ⟨hacc, hxs⟩ := ih h
    obtain ⟨hacc, hx⟩ := isFinite_add hacc
    refine ⟨hacc, ?_⟩
    intro y hy
    rcases List.mem_cons.mp hy with rfl | hy
    · exact hx
    · exact hxs y hy

theorem isFinite_of_sum {xs : List Float32} (h : (sum xs).isFinite = true) :
    ∀ x ∈ xs, x.isFinite = true :=
  (isFinite_of_foldl h).2

/-- Components of which all products are finite are finite, as many as there are in both vectors. -/
theorem isFinite_of_products {a b : Embedding} (hlen : a.length = b.length)
    (h : ∀ p ∈ List.zipWith (· * ·) a b, p.isFinite = true) :
    (∀ x ∈ a, x.isFinite = true) ∧ ∀ y ∈ b, y.isFinite = true := by
  induction a generalizing b with
  | nil =>
    obtain rfl := List.eq_nil_of_length_eq_zero hlen.symm
    exact ⟨fun x hx => (by cases hx), fun y hy => by cases hy⟩
  | cons x a ih =>
    cases b with
    | nil => cases hlen
    | cons y b =>
      rw [List.zipWith_cons_cons] at h
      obtain ⟨hx, hy⟩ := isFinite_mul (h (x * y) List.mem_cons_self)
      obtain ⟨ha, hb⟩ := ih (Nat.succ.inj hlen) fun p hp => h p (List.mem_cons_of_mem _ hp)
      exact ⟨List.forall_mem_cons.mpr ⟨hx, ha⟩, List.forall_mem_cons.mpr ⟨hy, hb⟩⟩

theorem isFinite_of_dot {a b : Embedding} (hlen : a.length = b.length)
    (h : (dot a b).isFinite = true) :
    (∀ x ∈ a, x.isFinite = true) ∧ ∀ y ∈ b, y.isFinite = true :=
  isFinite_of_products hlen (isFinite_of_sum h)

/-! ## Similarities -/

/-- A similarity that is not zero is the quotient that it is meant to be. -/
theorem cosineWith_of_ne_zero {a b : Embedding} {magA magB : Float32}
    (h : cosineWith a magA b magB ≠ 0) :
    (a.length = b.length ∧ a ≠ []) ∧ ((magA == 0) = false ∧ (magB == 0) = false) ∧
      cosineWith a magA b magB = dot a b / (magA * magB) ∧
      (dot a b / (magA * magB)).isFinite = true := by
  unfold cosineWith at h ⊢
  dsimp only at h ⊢
  split at h
  · exact absurd rfl h
  · next hguard =>
    rw [if_neg hguard]
    simp only [ne_eq, decide_not, Bool.or_eq_true, Bool.not_eq_true', decide_eq_false_iff_not,
      List.isEmpty_iff, not_or, not_not, Bool.not_eq_true] at hguard
    obtain ⟨⟨hvectors, hmagA⟩, hmagB⟩ := hguard
    split at h
    · next hfinite =>
      rw [if_pos hfinite]
      exact ⟨hvectors, ⟨hmagA, hmagB⟩, rfl, hfinite⟩
    · exact absurd rfl h

/-- A quotient that is finite is the similarity, if nothing else makes it zero. -/
theorem cosineWith_of_isFinite {a b : Embedding} {magA magB : Float32} (hlen : a.length = b.length)
    (hempty : a ≠ []) (hmagA : (magA == 0) = false) (hmagB : (magB == 0) = false)
    (h : (dot a b / (magA * magB)).isFinite = true) :
    cosineWith a magA b magB = dot a b / (magA * magB) := by
  unfold cosineWith
  dsimp only
  rw [if_pos h, if_neg]
  simp [hlen, hmagA, hmagB, List.isEmpty_iff, hempty]

/-- A similarity that is not zero is that of two usable vectors of one length. -/
theorem usable_of_cosineWith {a b : Embedding} {magA magB : Float32}
    (h : cosineWith a magA b magB ≠ 0) :
    a.length = b.length ∧ Usable a magA ∧ Usable b magB := by
  obtain ⟨⟨hlen, hempty⟩, ⟨hmagA, hmagB⟩, -, hfinite⟩ := cosineWith_of_ne_zero h
  obtain ⟨hdot, hmag⟩ := isFinite_div hfinite
  obtain ⟨hnumA, hnumB⟩ := isNaN_mul hmag
  obtain ⟨ha, hb⟩ := isFinite_of_dot hlen hdot
  refine ⟨hlen, ⟨hempty, hmagA, hnumA, ha⟩, ⟨?_, hmagB, hnumB, hb⟩⟩
  rintro rfl
  exact hempty (List.eq_nil_of_length_eq_zero hlen)

/-- A vector that is not usable is similar to nothing. -/
theorem cosineWith_eq_zero {a b : Embedding} {magA magB : Float32}
    (h : ¬ (a.length = b.length ∧ Usable a magA ∧ Usable b magB)) :
    cosineWith a magA b magB = 0 := by
  by_contra hne
  exact h (usable_of_cosineWith hne)

/-- A component that is not finite leaves nothing to compare. -/
theorem cosine_eq_zero {a b : Embedding} (h : ∃ x ∈ a ++ b, x.isFinite = false) :
    cosine a b = 0 := by
  rw [← cosineWith_magnitude]
  apply cosineWith_eq_zero
  rintro ⟨-, ha, hb⟩
  obtain ⟨x, hx, hfinite⟩ := h
  have htrue : x.isFinite = true := (List.mem_append.mp hx).elim (ha.finite x) (hb.finite x)
  rw [hfinite] at htrue
  cases htrue

/-! ## The ranking -/

/-- A result more is put at some place among the others, behind which all are those that may stand
behind it. -/
theorem ranked_insert {xs ys : List Scored} {s : Scored}
    (hids : ((xs ++ s :: ys).map Scored.recordId).Nodup) :
    ∃ above below, ranked (xs ++ ys) = above ++ below ∧
      ranked (xs ++ s :: ys) = above ++ s :: below ∧ ∀ t ∈ below, s.le t = true := by
  have hperm := ranked_perm (xs ++ s :: ys)
  have hsorted := ranked_pairwise (xs ++ s :: ys)
  obtain ⟨above, below, heq⟩ : ∃ above below, ranked (xs ++ s :: ys) = above ++ s :: below :=
    List.append_of_mem (hperm.mem_iff.mpr List.mem_append_cons_self)
  rw [heq] at hperm hsorted
  refine ⟨above, below, ?_, heq, ?_⟩
  · -- what is left without the result is still sorted
    have hrest : (above ++ below).Perm (xs ++ ys) :=
      (List.perm_middle.symm.trans (hperm.trans List.perm_middle)).cons_inv
    have hsub : (above ++ below).Sublist (above ++ s :: below) :=
      (List.sublist_cons_self s below).append_left above
    have hsub' : (xs ++ ys).Sublist (xs ++ s :: ys) := (List.sublist_cons_self s ys).append_left xs
    exact (eq_ranked (hids.sublist (hsub'.map _)) hrest (hsorted.sublist hsub)).symm
  · exact (List.pairwise_cons.mp (List.pairwise_append.mp hsorted).2.1).1

/-- Nothing positive stands behind a result that scores zero. -/
theorem not_pos_of_le {id : String} {t : Scored} (h : Scored.le ⟨id, 0⟩ t = true) :
    ¬ 0 < t.similarity := by
  intro hpos
  have hlt : compareScores 0 t.similarity = .lt := if_pos hpos
  have hgt : compareScores t.similarity 0 = .gt := by
    rw [compareScores_eq] at hlt ⊢
    exact compare_gt_iff_gt.mpr (compare_lt_iff_lt.mp hlt)
  unfold Scored.le Scored.compare at h
  rw [hgt] at h
  cases h

theorem scoreChunk_append (q : Query) (exclude : Option String) (cs ds : List Candidate) :
    scoreChunk q exclude (cs ++ ds) = scoreChunk q exclude cs ++ scoreChunk q exclude ds := by
  rw [scoreChunk, List.filter_append, List.map_append]
  rfl

theorem scoreChunk_nodup (q : Query) (exclude : Option String) {cs : List Candidate}
    (hids : (cs.map Candidate.recordId).Nodup) :
    ((scoreChunk q exclude cs).map Scored.recordId).Nodup := by
  unfold scoreChunk
  rw [List.map_map]
  exact hids.sublist (List.filter_sublist.map Candidate.recordId)

/-- The ranking of a set of candidates, however many workers score it and in whatever order they
end. -/
theorem ranked_parts {q : Query} {cs : List Candidate} (hids : (cs.map Candidate.recordId).Nodup)
    {exclude : Option String} {workers : Nat} {parts : List (List Scored)}
    (hparts : parts.Perm (chunkScores workers q cs exclude)) :
    ranked parts.flatten = ranked (scoreChunk q exclude cs) := by
  have hflat : parts.flatten.Perm (scoreChunk q exclude cs) := by
    rw [← rank_eq workers]
    exact hparts.flatten
  exact eq_ranked (scoreChunk_nodup q exclude hids) ((ranked_perm _).trans hflat) (ranked_pairwise _)

/-- A candidate that is not usable is put into the ranking with a score of zero, unless it is
excluded, and nothing positive is behind it. -/
theorem ranked_insert_unusable {q : Query} {before after : List Candidate} {c : Candidate}
    (hids : ((before ++ c :: after).map Candidate.recordId).Nodup)
    (hc : ¬ (q.vector.length = c.vector.length ∧ Usable c.vector c.magnitude))
    (exclude : Option String) :
    ∃ above below, ranked (scoreChunk q exclude (before ++ after)) = above ++ below ∧
      ranked (scoreChunk q exclude (before ++ c :: after)) =
        above ++ (if exclude = some c.recordId then [] else [⟨c.recordId, 0⟩]) ++ below ∧
      ∀ s ∈ below, ¬ 0 < s.similarity := by
  have hscore : q.score c = ⟨c.recordId, 0⟩ := by
    rw [Query.score, cosineWith_eq_zero]
    rintro ⟨hlen, -, husable⟩
    exact hc ⟨hlen, husable⟩
  have hscores := scoreChunk_nodup q exclude hids
  rw [← List.singleton_append, scoreChunk_append, scoreChunk_append] at hscores ⊢
  rw [scoreChunk_append]
  by_cases hexclude : exclude = some c.recordId
  · have hnone : scoreChunk q exclude [c] = [] := by simp [scoreChunk, hexclude]
    rw [if_pos hexclude, hnone, List.nil_append]
    refine ⟨ranked (scoreChunk q exclude before ++ scoreChunk q exclude after), [], ?_, ?_, ?_⟩
    · rw [List.append_nil]
    · rw [List.append_nil, List.append_nil]
    · intro s hs
      cases hs
  · have hone : scoreChunk q exclude [c] = [⟨c.recordId, 0⟩] := by
      simp [scoreChunk, hexclude, hscore]
    rw [hone, List.singleton_append] at hscores
    obtain ⟨above, below, hwithout, hwith, hbelow⟩ := ranked_insert hscores
    rw [if_neg hexclude, hone, List.singleton_append]
    refine ⟨above, below, hwithout, ?_, ?_⟩
    · rw [hwith, List.append_assoc, List.singleton_append]
    · intro s hs
      exact not_pos_of_le (hbelow s hs)

/-- Similarities are finite, and those of malformed vectors are zero, whatever magnitudes they are
taken to have. A malformed candidate among others leaves their scores and their order as they are
without it, however the set is scored, and is ranked below all that are positive. -/
theorem malformed_harmless :
    (∀ (a : Embedding) (magA : Float32) (b : Embedding) (magB : Float32),
      (cosineWith a magA b magB).isFinite = true ∧
        (¬ (a.length = b.length ∧ Usable a magA ∧ Usable b magB) →
          cosineWith a magA b magB = 0)) ∧
    (∀ a b : Embedding, (∃ x ∈ a ++ b, x.isFinite = false) → cosine a b = 0) ∧
    ∀ (q : Query) (before : List Candidate) (c : Candidate) (after : List Candidate)
      (exclude : Option String), ((before ++ c :: after).map Candidate.recordId).Nodup →
      ¬ (q.vector.length = c.vector.length ∧ Usable c.vector c.magnitude) →
      ∃ above below : List Scored,
        (∀ (workers : Nat) (parts : List (List Scored)),
          parts.Perm (chunkScores workers q (before ++ after) exclude) →
            ranked parts.flatten = above ++ below) ∧
        (∀ (workers : Nat) (parts : List (List Scored)),
          parts.Perm (chunkScores workers q (before ++ c :: after) exclude) →
            ranked parts.flatten =
              above ++ (if exclude = some c.recordId then [] else [⟨c.recordId, 0⟩]) ++ below) ∧
        ∀ s ∈ below, ¬ 0 < s.similarity := by
  refine ⟨?_, fun a b h => cosine_eq_zero h, ?_⟩
  · intro a magA b magB
    exact ⟨cosineWith_isFinite a magA b magB, fun h => cosineWith_eq_zero h⟩
  · intro q before c after exclude hids hc
    obtain ⟨above, below, hwithout, hwith, hbelow⟩ := ranked_insert_unusable hids hc exclude
    refine ⟨above, below, ?_, ?_, hbelow⟩
    · intro workers parts hparts
      have hsub : (before ++ after).Sublist (before ++ c :: after) :=
        (List.sublist_cons_self c after).append_left before
      rw [ranked_parts (hids.sublist (hsub.map _)) hparts, hwithout]
    · intro workers parts hparts
      rw [ranked_parts hids hparts, hwith]

/-- NaN and an infinity, and a candidate with the one between two others. -/
theorem malformed_harmless_nan :
    let q : Query := Query.ofVector [1, 0]
    let b : Candidate := Candidate.ofVector "b" [0, 1]
    let c : Candidate := Candidate.ofVector "c" [3, 0]
    let d : Candidate := Candidate.ofVector "d" [0 / 0, 2]
    cosineWith [0 / 0, 2] 2 [1, 0] 1 = 0 ∧ cosine [1, 0] [1 / 0, 1] = 0 ∧
      ([b, d, c].map Candidate.recordId).Nodup ∧ ¬ Usable d.vector d.magnitude ∧
      ∃ above below, above ++ below = [⟨"c", 1⟩, ⟨"b", 0⟩] ∧
        ranked (chunkScores 2 q [b, d, c] none).flatten = above ++ [⟨"d", 0⟩] ++ below ∧
        ∀ s ∈ below, ¬ 0 < s.similarity := by
  intro q b c d
  obtain ⟨hscores, hinfinite, hranking⟩ := malformed_harmless
  have hd : ∀ mag, ¬ Usable [0 / 0, 2] mag := fun mag h =>
    absurd (h.finite (0 / 0) List.mem_cons_self) (by decide +kernel)
  have hids : ([b, d, c].map Candidate.recordId).Nodup := by decide
  obtain ⟨above, below, hwithout, hwith, hbelow⟩ :=
    hranking q [b] d [c] none hids fun h => hd _ h.2
  refine ⟨(hscores _ _ _ _).2 fun h => hd _ h.2.1, ?_, hids, hd _, above, below, ?_, ?_, hbelow⟩
  · exact hinfinite [1, 0] [1 / 0, 1] ⟨1 / 0, by simp, by decide +kernel⟩
  · rw [← hwithout 1 _ (List.Perm.refl _)]
    exact (eq_ranked (by decide +kernel) (by decide +kernel) (by decide +kernel)).symm
  · exact hwith 2 _ (List.Perm.refl _)

end EmbeddingSearch
