import EmbeddingSearch.Proofs.Cache.Entries

/-!
# What the history of a cache remembers

A generation that was taken before an invalidation stays behind it for ever: no later invalidation
hides an earlier one, and neither does anything else that happens to the cache.

## Contents
- `Invalidations.touchedSince_ofKey`, `touchedSince_ofDataset`, `touchedSince_ofAll`: what an
  invalidation touches.
- `Cache.Follows`: a cache that holds nothing new and has forgotten no invalidation.
- `Cache.Forgets`: a cache that has invalidated a key.
- `Cache.setIfUnchanged_cases`: what a set that was loaded is refused or stored for.
-/

namespace EmbeddingSearch

namespace Invalidations

variable {κ : Type} [DecidableEq κ]

/-! ## Places -/

theorem latest_cons (k k' : κ) (n : Nat) (places : List (κ × Nat)) :
    latest k ((k', n) :: places) = if k = k' then n else latest k places := by
  unfold latest
  rw [List.lookup_cons]
  by_cases h : k = k'
  · simp [h]
  · simp [h, beq_eq_false_iff_ne.mpr h]

theorem latest_filter_of_ne {k k' : κ} (h : k ≠ k') (places : List (κ × Nat)) :
    latest k (places.filter fun p => p.1 ≠ k') = latest k places := by
  induction places with
  | nil => rfl
  | cons p places ih =>
    obtain ⟨l, n⟩ := p
    by_cases hl : l = k'
    · rw [List.filter_cons_of_neg (by simpa using hl), ih, latest_cons, if_neg (hl ▸ h)]
    · rw [List.filter_cons_of_pos (by simpa using hl), latest_cons, latest_cons, ih]

theorem latest_mark (k k' : κ) (n : Nat) (places : List (κ × Nat)) :
    latest k (mark k' n places) = if k = k' then n else latest k places := by
  rw [mark, latest_cons]
  split
  · rfl
  · next h => exact latest_filter_of_ne h places

/-! ## Touched keys -/

variable {h : Invalidations} {k : FieldKey} {since : Generation}

theorem touchedSince_iff : h.touchedSince k since = true ↔
    since.invalidations < h.cleared ∨ since.invalidations < latest k h.keys ∨
      since.invalidations < latest k.dataset h.datasets := by
  simp [touchedSince, or_assoc]

theorem touchedSince_ofKey (hs : since.invalidations ≤ h.count) :
    (h.ofKey k).touchedSince k since = true := by
  rw [touchedSince_iff, ofKey, latest_mark, if_pos rfl]
  exact .inr (.inl (Nat.lt_succ_of_le hs))

theorem touchedSince_ofDataset {d : String} (hd : k.dataset = d)
    (hs : since.invalidations ≤ h.count) : (h.ofDataset d).touchedSince k since = true := by
  rw [touchedSince_iff, ofDataset, latest_mark, if_pos hd]
  exact .inr (.inr (Nat.lt_succ_of_le hs))

theorem touchedSince_ofAll (hs : since.invalidations ≤ h.count) :
    h.ofAll.touchedSince k since = true := by
  rw [touchedSince_iff, ofAll]
  exact .inl (Nat.lt_succ_of_le hs)

theorem touchedSince_ofKey_of_touched {k' : FieldKey} (hs : since.invalidations ≤ h.count)
    (ht : h.touchedSince k since = true) : (h.ofKey k').touchedSince k since = true := by
  -- the new mark is later than any that it replaces
  by_cases hk : k = k'
  · subst hk
    exact touchedSince_ofKey hs
  · rw [touchedSince_iff] at ht ⊢
    rwa [ofKey, latest_mark, if_neg hk]

theorem touchedSince_ofDataset_of_touched {d : String} (hs : since.invalidations ≤ h.count)
    (ht : h.touchedSince k since = true) : (h.ofDataset d).touchedSince k since = true := by
  by_cases hd : k.dataset = d
  · exact touchedSince_ofDataset hd hs
  · rw [touchedSince_iff] at ht ⊢
    rwa [ofDataset, latest_mark, if_neg hd]

end Invalidations

namespace Cache

open Invalidations

/-! ## Later caches -/

/-- Whether a cache holds nothing that an earlier one did not hold, and has forgotten none of its
invalidations. -/
structure Follows (c c' : Cache) : Prop where
  count_le : c.history.count ≤ c'.history.count
  touched : ∀ k since, since.invalidations ≤ c.history.count →
    c.history.touchedSince k since = true → c'.history.touchedSince k since = true
  entries : ∀ e ∈ c'.entries, ∃ e' ∈ c.entries, e'.key = e.key ∧ e'.candidates = e.candidates

theorem Follows.refl (c : Cache) : Follows c c where
  count_le := le_rfl
  touched _ _ _ h := h
  entries e he := ⟨e, he, rfl, rfl⟩

theorem Follows.trans {c c' c'' : Cache} (h : Follows c c') (h' : Follows c' c'') :
    Follows c c'' where
  count_le := h.count_le.trans h'.count_le
  touched k since hs ht := h'.touched k since (hs.trans h.count_le) (h.touched k since hs ht)
  entries e he := by
    obtain ⟨e', he', hkey, hcs⟩ := h'.entries e he
    obtain ⟨e'', he'', hkey', hcs'⟩ := h.entries e' he'
    exact ⟨e'', he'', hkey'.trans hkey, hcs'.trans hcs⟩

/-- Entries can be dropped at any time. -/
theorem Follows.of_subset {c c' : Cache} (hh : c'.history = c.history)
    (he : ∀ e ∈ c'.entries, e ∈ c.entries) : Follows c c' where
  count_le := by rw [hh]
  touched k since _ ht := by rwa [hh]
  entries e h := ⟨e, he e h, rfl, rfl⟩

theorem remove_follows (c : Cache) (k : FieldKey) : Follows c (c.remove k) :=
  .of_subset (remove_history c k) fun e he => by
    rw [remove_entries, mem_without] at he
    exact he.1

theorem get_follows (c : Cache) (now : Nat) (k : FieldKey) : Follows c (c.get now k).2 := by
  rcases get_cases c now k with ⟨-, h⟩ | ⟨e, -, -, h⟩ | ⟨e, hk, -, h⟩
  · rw [h]
    exact Follows.refl c
  · rw [h]
    exact remove_follows c k
  · rw [h]
    refine ⟨le_rfl, fun _ _ _ ht => ht, fun e' he' => ?_⟩
    rcases List.mem_cons.mp he' with rfl | he'
    · exact ⟨e, (entry?_eq_some hk).1, rfl, rfl⟩
    · exact ⟨e', (mem_without.mp he').1, rfl, rfl⟩

theorem invalidate_follows (c : Cache) (k : FieldKey) : Follows c (c.invalidate k) where
  count_le := by
    rw [invalidate_history]
    exact Nat.le_succ _
  touched k' since hs ht := by
    rw [invalidate_history]
    exact touchedSince_ofKey_of_touched hs ht
  entries e he := by
    rw [invalidate_entries, mem_without] at he
    exact ⟨e, he.1, rfl, rfl⟩

theorem invalidateDataset_follows (c : Cache) (d : String) : Follows c (c.invalidateDataset d) where
  count_le := by
    rw [invalidateDataset_history]
    exact Nat.le_succ _
  touched k since hs ht := by
    rw [invalidateDataset_history]
    exact touchedSince_ofDataset_of_touched hs ht
  entries e he := ⟨e, (mem_invalidateDataset.mp he).1, rfl, rfl⟩

theorem clear_follows (c : Cache) : Follows c c.clear where
  count_le := Nat.le_succ _
  touched _ _ hs _ := touchedSince_ofAll hs
  entries e he := by cases he

/-! ## Invalidated keys -/

/-- Whether a cache has invalidated a key since an earlier one: it holds nothing for it, and refuses
everything that was loaded for it before. -/
structure Forgets (c c' : Cache) (k : FieldKey) : Prop where
  entries : ∀ e ∈ c'.entries, e.key ≠ k
  touched : ∀ since : Generation, since.invalidations ≤ c.history.count →
    c'.history.touchedSince k since = true

theorem invalidate_forgets (c : Cache) (k : FieldKey) : Forgets c (c.invalidate k) k where
  entries e he := by
    rw [invalidate_entries, mem_without] at he
    exact he.2
  touched since hs := by
    rw [invalidate_history]
    exact touchedSince_ofKey hs

theorem invalidateDataset_forgets (c : Cache) {k : FieldKey} {d : String} (hd : k.dataset = d) :
    Forgets c (c.invalidateDataset d) k where
  entries e he hk := (mem_invalidateDataset.mp he).2 (hk ▸ hd)
  touched since hs := by
    rw [invalidateDataset_history]
    exact touchedSince_ofDataset hd hs

theorem clear_forgets (c : Cache) (k : FieldKey) : Forgets c c.clear k where
  entries e he := by cases he
  touched _ hs := touchedSince_ofAll hs

/-! ## Loaded sets -/

/-- A set that was loaded is refused, or it was not invalidated meanwhile and takes the place of the
entry of its key. -/
theorem setIfUnchanged_cases (c : Cache) (now : Nat) (k : FieldKey) (candidates : List Candidate)
    (since : Generation) : (c.setIfUnchanged now k candidates since).2 = c ∨
      (c.history.touchedSince k since = false ∧
        (c.setIfUnchanged now k candidates since).2.history = c.history ∧
        ∀ e ∈ (c.setIfUnchanged now k candidates since).2.entries,
          (e.key = k ∧ e.candidates = candidates) ∨ e ∈ c.entries) := by
  unfold setIfUnchanged
  cases c.settings.admittedMb? candidates.length with
  | none => exact .inl rfl
  | some sizeMb =>
    dsimp only
    split
    · exact .inl rfl
    · next ht =>
      refine .inr ⟨Bool.eq_false_of_not_eq_true ht, insert_history c now k candidates sizeMb, ?_⟩
      intro e he
      -- what is kept beside the new entry was there before, less what made room
      obtain ⟨kept, hentries, hkept⟩ := insert_entries c now k candidates sizeMb
      rw [hentries] at he
      rcases List.mem_cons.mp he with rfl | he
      · exact .inl ⟨rfl, rfl⟩
      · exact .inr (mem_without.mp (hkept.subset he)).1

end Cache

end EmbeddingSearch
