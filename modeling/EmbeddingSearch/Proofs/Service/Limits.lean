import EmbeddingSearch.Proofs.Service.Transparency
import EmbeddingSearch.Proofs.Vector.Order

/-!
# How many results a search gives

A limit is read twice. The settings turn what a request asks for into a number that is never above
the largest one allowed, and the ranking takes zero for its own default. So a search keeps to the
largest number allowed as long as the settings do not give it zero, which they do only when zero is
the number of results for a request that asks for none.

## Contents
- `length_best`: how many results are kept.
- `QueryLimits.resolve_le`, `QueryLimits.resolve_eq_zero_iff`: what a limit is resolved to.
- `Service.search_results`: the results of a search are the best of what was scored.
- `search_bounded_iff`: when a search gives no more than it may.
-/

namespace EmbeddingSearch

/-! ## Limits -/

/-- No more results are kept than there are, and than the limit; zero stands for the default. -/
theorem length_best (results : List Scored) (limit : Nat) :
    (best results limit).length = min (if limit = 0 then defaultLimit else limit) results.length := by
  rw [best, List.length_take, (ranked_perm results).length_eq]

namespace QueryLimits

/-- Whether a request asks for a number of results. -/
def Asks (requested : Option Int) : Prop := ∃ n, requested = some n ∧ 0 < n

theorem resolve_le (q : QueryLimits) (requested : Option Int) :
    q.resolve requested ≤ max 1 q.maxResults := by
  unfold resolve
  exact (Nat.min_le_right _ _).trans (Nat.max_comm _ _).le

theorem resolve_some_le (q : QueryLimits) {n : Int} (hn : 0 < n) :
    (q.resolve (some n) : Int) ≤ n := by
  simp only [resolve, gt_iff_lt, hn, if_true]
  omega

/-- A limit is only resolved to zero when that is the default, and nothing else is asked for. -/
theorem resolve_eq_zero_iff (q : QueryLimits) (requested : Option Int) :
    q.resolve requested = 0 ↔ q.defaultLimit = 0 ∧ ¬ Asks requested := by
  cases requested with
  | none =>
    simp only [resolve, Asks, reduceCtorEq, false_and, exists_false, not_false_iff, and_true]
    omega
  | some n =>
    by_cases hn : 0 < n
    · have hasks : Asks (some n) := ⟨n, rfl, hn⟩
      simp only [resolve, gt_iff_lt, hn, if_true, hasks, not_true, and_false, iff_false]
      omega
    · have hasks : ¬ Asks (some n) := by
        rintro ⟨m, hm, hpos⟩
        obtain rfl := Option.some.inj hm
        exact hn hpos
      simp only [resolve, gt_iff_lt, hn, if_false, hasks, not_false_iff, and_true]
      omega

end QueryLimits

/-! ## Searches -/

/-- The results of a search that succeeds are the best of what was scored. -/
theorem Service.search_results {s : Service} {r : SearchRequest} {w w' : World} {a : SearchAnswer}
    (h : (s.search r).run w = (.ok a, w')) : ∃ scores,
      a.results = best scores (s.settings.query.resolve r.limit) ∧
        a.diagnostics.processed = scores.length := by
  rw [search_eq, Action.run_bind_ok] at h
  obtain ⟨p, w₁, -, h⟩ := h
  rw [answerTo, Action.run_bind_ok] at h
  obtain ⟨loaded, w₂, -, h⟩ := h
  rw [Action.run_bind_ok] at h
  obtain ⟨info, w₃, -, h⟩ := h
  cases h
  exact ⟨_, rfl, rfl⟩

/-- A search that succeeds, whatever its settings, its world and its request are, gives at most as
many results as a request asks for. It gives at most as many as the settings allow, one at least,
unless nothing is asked for, the settings have zero for that, and there are more candidates: then up
to ten are given. -/
theorem search_bounded_iff {s : Service} {r : SearchRequest} {w w' : World} {a : SearchAnswer}
    (h : (s.search r).run w = (.ok a, w')) :
    (a.results.length ≤ max 1 s.settings.query.maxResults ↔
        s.settings.query.defaultLimit ≠ 0 ∨ QueryLimits.Asks r.limit ∨
          min defaultLimit a.diagnostics.processed ≤ max 1 s.settings.query.maxResults) ∧
      ∀ n, r.limit = some n → 0 < n → (a.results.length : Int) ≤ n := by
  obtain ⟨scores, hresults, hprocessed⟩ := Service.search_results h
  have hlength := length_best scores (s.settings.query.resolve r.limit)
  rw [← hresults, ← hprocessed] at hlength
  have hzero := s.settings.query.resolve_eq_zero_iff r.limit
  have hle := s.settings.query.resolve_le r.limit
  refine ⟨?_, fun n hn hpos => ?_⟩
  · by_cases hlimit : s.settings.query.resolve r.limit = 0
    · -- the limit says nothing, and the default of the ranking is not bounded
      obtain ⟨hdefault, hasks⟩ := hzero.mp hlimit
      rw [hlength, if_pos hlimit]
      simp [hdefault, hasks]
    · rw [hlength, if_neg hlimit]
      refine iff_of_true ((Nat.min_le_left _ _).trans hle) ?_
      rw [hzero, not_and_or, not_not] at hlimit
      exact hlimit.imp_right .inl
  · have hsome := s.settings.query.resolve_some_le hpos
    rw [hn] at hlength hzero
    have hlimit : s.settings.query.resolve (some n) ≠ 0 := fun heq =>
      (hzero.mp heq).2 ⟨n, rfl, hpos⟩
    rw [if_neg hlimit] at hlength
    omega

/-- Two results where one is allowed: the settings have zero for a request that asks for none. -/
theorem search_bounded_iff_unasked :
    let row : String → Row := fun id => ⟨id, "A", "f", .single [1], "m", 1, ⟨0, 0⟩⟩
    let s : Service :=
      { settings :=
          { ai := { enabled := true }, query := { defaultLimit := 0, maxResults := 1 } }
        providerName := "p", providerAvailable := true }
    let w : World :=
      { catalog := { datasets := [⟨"A", "a", [⟨"f", .text, true⟩]⟩] }
        store := ({} : Store).insert (row "q") |>.insert (row "r") |>.insert (row "t")
        provider := ⟨"p", true, fun _ _ => .ok ⟨[[1]], "m", none⟩⟩ }
    let r := SearchRequest.byRecord "A" "f" "q"
    ∃ a w', (s.search r).run w = (.ok a, w') ∧ a.diagnostics.processed = 2 ∧
      ¬ a.results.length ≤ max 1 s.settings.query.maxResults := by
  intro row s w r
  rcases hrun : (s.search r).run w with ⟨res, w'⟩
  have hprocessed : (match ((s.search r).run w).1 with
      | .ok a => some a.diagnostics.processed
      | .error _ => none) = some 2 := by decide +kernel
  rw [hrun] at hprocessed
  cases res with
  | error e => cases hprocessed
  | ok a =>
    have htwo : a.diagnostics.processed = 2 := Option.some.inj hprocessed
    refine ⟨a, w', rfl, htwo, fun hle => ?_⟩
    rcases (search_bounded_iff hrun).1.mp hle with hdefault | ⟨n, hn, -⟩ | hmin
    · exact hdefault rfl
    · cases hn
    · rw [htwo] at hmin
      exact absurd hmin (by decide)

end EmbeddingSearch
