import EmbeddingSearch.Proofs.Cache.Entries

/-!
# Finding entries

What the entry of a key is after each operation: an operation on another key leaves it where it can
be found, unless room is made for an entry of that other key.

## Contents
- `find?_without`, `entry?_remove`, `entry?_invalidateDataset`: removals.
- `entry?_get_self`, `entry?_get_of_ne`, `entry?_insert_self`: look-up and storing.
- `evicted`, `victims`, `entry?_insert_of_ne`: what is given up to make room for another key.
- `insert_distinct`, `get_distinct`: a key still has one entry at most.
-/

namespace EmbeddingSearch

namespace Cache

/-! ## Removal -/

theorem find?_without (k k' : FieldKey) (entries : List Entry) :
    (without k entries).find? (fun e => e.key = k') =
      if k' = k then none else entries.find? fun e => e.key = k' := by
  unfold without
  by_cases hk : k' = k
  · subst hk
    rw [if_pos rfl, List.find?_eq_none]
    intro e he
    simpa using (List.mem_filter.mp he).2
  · rw [if_neg hk, List.find?_filter]
    congr 1
    funext e
    by_cases he : e.key = k'
    · simp [he, hk]
    · simp [he]

theorem entry?_remove (c : Cache) (k k' : FieldKey) :
    entry? (c.remove k) k' = if k' = k then none else c.entry? k' := by
  unfold entry?
  rw [remove_entries, find?_without]

theorem entry?_invalidate (c : Cache) (k k' : FieldKey) :
    entry? (c.invalidate k) k' = if k' = k then none else c.entry? k' :=
  entry?_remove _ k k'

theorem entry?_foldl_remove (keys : List FieldKey) (c : Cache) (k : FieldKey) :
    entry? (keys.foldl remove c) k = if k ∈ keys then none else c.entry? k := by
  induction keys generalizing c with
  | nil => simp
  | cons k' rest ih =>
    rw [List.foldl_cons, ih, entry?_remove]
    by_cases hk : k = k'
    · simp [hk]
    · simp [hk]

theorem entry?_invalidateDataset (c : Cache) (d : String) (k : FieldKey) :
    entry? (c.invalidateDataset d) k = if d = k.dataset then none else c.entry? k := by
  by_cases hd : d = k.dataset
  · rw [if_pos hd, entry?, List.find?_eq_none]
    intro e he hkey
    have hkey' : e.key = k := by simpa using hkey
    exact (mem_invalidateDataset.mp he).2 (hkey' ▸ hd.symm)
  · rw [if_neg hd, invalidateDataset, entry?_foldl_remove, if_neg]
    · rfl
    · intro hk
      obtain ⟨e, he, rfl⟩ := List.mem_map.mp hk
      have hed : e.key.dataset = d := by simpa using (List.mem_filter.mp he).2
      exact hd hed.symm

/-! ## Look-up and storing -/

theorem entry?_get_of_ne (c : Cache) (now : Nat) {k k' : FieldKey} (h : k' ≠ k) :
    entry? (c.get now k).2 k' = c.entry? k' := by
  rcases get_cases c now k with ⟨-, hget⟩ | ⟨e, -, -, hget⟩ | ⟨e, hk, -, hget⟩
  · rw [hget]
  · rw [hget, entry?_remove, if_neg h]
  · have hne : ¬ e.key = k' := fun he => h (he.symm.trans (entry?_eq_some hk).2)
    rw [hget]
    show (({ e with usedAt := now } : Entry) :: without k c.entries).find? _ = _
    rw [List.find?_cons_of_neg (by simpa using hne), find?_without, if_neg h, entry?]

/-- What a look-up leaves of its own entry: a hit is its last use, and an entry that has expired is
removed. -/
theorem entry?_get_self (c : Cache) (now : Nat) (k : FieldKey) :
    entry? (c.get now k).2 k = (c.entry? k).bind fun e =>
      if c.expired now e then none else some { e with usedAt := now } := by
  rcases get_cases c now k with ⟨hk, hget⟩ | ⟨e, hk, hlate, hget⟩ | ⟨e, hk, htime, hget⟩
  · rw [hget, hk]
    rfl
  · rw [hget, entry?_remove, if_pos rfl, hk, Option.bind_some, if_pos hlate]
  · have hfront : ({ e with usedAt := now } : Entry).key = k := (entry?_eq_some hk).2
    rw [hget, hk, Option.bind_some, htime, if_neg Bool.false_ne_true, entry?,
      List.find?_cons_of_pos (by simpa using hfront)]

/-- A look-up finds what it leaves. -/
theorem get_found (c : Cache) (now : Nat) (k : FieldKey) :
    (c.get now k).1 = ( entry? (c.get now k).2 k).map Entry.candidates := by
  rw [entry?_get_self]
  rcases get_cases c now k with ⟨hk, hget⟩ | ⟨e, hk, hlate, hget⟩ | ⟨e, hk, htime, hget⟩
  · rw [hget, hk]
    rfl
  · simp [hget, hk, hlate]
  · simp [hget, hk, htime]

theorem expired_eq_true_iff (c : Cache) (now : Nat) (e : Entry) :
    c.expired now e = true ↔ ¬ now ≤ e.usedAt + c.settings.idleMs := by
  rw [expired, decide_eq_true_iff]
  omega

theorem entry?_insert_self (c : Cache) (now : Nat) (k : FieldKey) (candidates : List Candidate)
    (sizeMb : Float) : entry? (c.insert now k candidates sizeMb) k =
      some ⟨k, candidates, sizeMb, now, now⟩ := by
  obtain ⟨kept, hentries, -⟩ := insert_entries c now k candidates sizeMb
  unfold entry?
  rw [hentries, List.find?_cons_of_pos (by simp)]

/-! ## Making room -/

/-- The entries that are given up, listed with the least recently used one first, until `sizeMb`
more fits. -/
def evicted (budgetMb sizeMb totalMb : Float) : List Entry → List Entry
  | [] => []
  | e :: rest =>
    if totalMb + sizeMb > budgetMb then
      e :: evicted budgetMb sizeMb (release totalMb e.sizeMb rest) rest
    else []

theorem evicted_append_evict (budgetMb sizeMb totalMb : Float) (entries : List Entry) :
    evicted budgetMb sizeMb totalMb entries ++ (evict budgetMb sizeMb totalMb entries).1 =
      entries := by
  induction entries generalizing totalMb with
  | nil => rfl
  | cons e rest ih =>
    unfold evicted evict
    by_cases hroom : totalMb + sizeMb > budgetMb
    · simp [if_pos hroom, ih]
    · simp [if_neg hroom]

/-- The keys that are evicted when an entry of the given size is stored under `k`. -/
def victims (c : Cache) (k : FieldKey) (sizeMb : Float) : List FieldKey :=
  let c := c.remove k
  (evicted c.settings.budgetMb sizeMb c.usedMb c.entries.reverse).map Entry.key

/-- In two lists that have no key twice, the entry of a key is in the first one unless the second
one has the key. -/
theorem find?_of_append {kept gone : List Entry} (hd : Distinct (kept ++ gone)) (k : FieldKey) :
    kept.find? (fun e => e.key = k) =
      if k ∈ gone.map Entry.key then none else (kept ++ gone).find? fun e => e.key = k := by
  rw [Distinct, List.map_append] at hd
  by_cases hk : k ∈ gone.map Entry.key
  · rw [if_pos hk, List.find?_eq_none]
    intro e he hkey
    have hkey : e.key = k := by simpa using hkey
    exact List.disjoint_of_nodup_append hd (List.mem_map_of_mem he) (hkey ▸ hk)
  · have hgone : gone.find? (fun e => e.key = k) = none := by
      rw [List.find?_eq_none]
      intro e he hkey
      exact hk (List.mem_map.mpr ⟨e, he, by simpa using hkey⟩)
    rw [if_neg hk, List.find?_append, hgone, Option.or_none]

/-- Storing under another key leaves an entry as it is, unless it is evicted. -/
theorem entry?_insert_of_ne {c : Cache} (hd : Distinct c.entries) (now : Nat) {k k' : FieldKey}
    (h : k' ≠ k) (candidates : List Candidate) (sizeMb : Float) :
    entry? (c.insert now k candidates sizeMb) k' =
      if k' ∈ c.victims k sizeMb then none else c.entry? k' := by
  have hrest : entry? (c.remove k) k' = c.entry? k' := by
    rw [entry?_remove, if_neg h]
  have hd' : Distinct (c.remove k).entries := by
    rw [remove_entries]
    exact hd.sublist (without_sublist k c.entries)
  unfold insert victims
  rw [← hrest]
  generalize c.remove k = c at hd'
  have hparts := evicted_append_evict c.settings.budgetMb sizeMb c.usedMb c.entries.reverse
  -- the entries are listed with the most recently used one first, and are given up from the end
  rw [← List.reverse_eq_iff, List.reverse_append] at hparts
  have hkept := find?_of_append (hparts ▸ hd') k'
  simp only [List.map_reverse, List.mem_reverse, hparts] at hkept
  show (Entry.mk k candidates sizeMb now now :: _).find? _ = _
  rw [List.find?_cons_of_neg (by simpa using h.symm)]
  exact hkept

/-! ## One entry for each key -/

theorem insert_distinct {c : Cache} (hd : Distinct c.entries) (now : Nat) (k : FieldKey)
    (candidates : List Candidate) (sizeMb : Float) :
    Distinct (c.insert now k candidates sizeMb).entries := by
  obtain ⟨kept, hentries, hkept⟩ := insert_entries c now k candidates sizeMb
  rw [hentries]
  exact hd.cons_without rfl hkept

theorem foldl_remove_sublist (keys : List FieldKey) (c : Cache) :
    (keys.foldl remove c).entries.Sublist c.entries := by
  rw [foldl_remove_entries]
  exact List.filter_sublist

theorem get_distinct {c : Cache} (hd : Distinct c.entries) (now : Nat) (k : FieldKey) :
    Distinct (c.get now k).2.entries := by
  rcases get_cases c now k with ⟨-, hget⟩ | ⟨e, -, -, hget⟩ | ⟨e, hk, -, hget⟩
  · rwa [hget]
  · rw [hget, remove_entries]
    exact hd.sublist (without_sublist k c.entries)
  · rw [hget]
    exact hd.cons_without (entry?_eq_some hk).2 (List.Sublist.refl _)

end Cache

end EmbeddingSearch
