import Mathlib.Data.List.Nodup
import Mathlib.Tactic
import EmbeddingSearch.Cache.Session

/-!
# The entries of a cache

What each operation does to the list of entries, whatever the sizes are, and that a key never has
two entries.

## Contents
- `mem_without`, `remove_entries`, `invalidateDataset_entries`: what is left after a removal.
- `evict_suffix`, `insert_entries`: making room gives up entries and changes none.
- `Distinct`: every key has one entry at most; each operation keeps it so.
-/

namespace EmbeddingSearch

namespace Cache

/-! ## Removal -/

@[simp] theorem mem_without {k : FieldKey} {entries : List Entry} {e : Entry} :
    e ∈ without k entries ↔ e ∈ entries ∧ e.key ≠ k := by
  simp [without]

theorem without_sublist (k : FieldKey) (entries : List Entry) :
    (without k entries).Sublist entries := List.filter_sublist

theorem entry?_eq_none {c : Cache} {k : FieldKey} (h : c.entry? k = none) :
    without k c.entries = c.entries := by
  rw [without, List.filter_eq_self]
  intro e he
  simpa using List.find?_eq_none.mp h e he

theorem entry?_eq_some {c : Cache} {k : FieldKey} {e : Entry} (h : c.entry? k = some e) :
    e ∈ c.entries ∧ e.key = k :=
  ⟨List.mem_of_find?_eq_some h, by simpa using List.find?_some h⟩

@[simp] theorem remove_entries (c : Cache) (k : FieldKey) :
    (c.remove k).entries = without k c.entries := by
  unfold remove
  cases h : c.entry? k with
  | none => exact (entry?_eq_none h).symm
  | some e => rfl

@[simp] theorem remove_settings (c : Cache) (k : FieldKey) :
    (c.remove k).settings = c.settings := by
  unfold remove
  cases c.entry? k <;> rfl

@[simp] theorem remove_history (c : Cache) (k : FieldKey) : (c.remove k).history = c.history := by
  unfold remove
  cases c.entry? k <;> rfl

@[simp] theorem invalidate_entries (c : Cache) (k : FieldKey) :
    (c.invalidate k).entries = without k c.entries := by
  rw [invalidate, remove_entries]

@[simp] theorem invalidate_history (c : Cache) (k : FieldKey) :
    (c.invalidate k).history = c.history.ofKey k := by
  rw [invalidate, remove_history]

@[simp] theorem foldl_remove_history (keys : List FieldKey) (c : Cache) :
    (keys.foldl remove c).history = c.history := by
  induction keys generalizing c with
  | nil => rfl
  | cons k keys ih => rw [List.foldl_cons, ih, remove_history]

@[simp] theorem invalidateDataset_history (c : Cache) (d : String) :
    (c.invalidateDataset d).history = c.history.ofDataset d := by
  simp only [invalidateDataset, foldl_remove_history]

@[simp] theorem invalidate_settings (c : Cache) (k : FieldKey) :
    (c.invalidate k).settings = c.settings := by
  rw [invalidate, remove_settings]

@[simp] theorem foldl_remove_settings (keys : List FieldKey) (c : Cache) :
    (keys.foldl remove c).settings = c.settings := by
  induction keys generalizing c with
  | nil => rfl
  | cons k keys ih => rw [List.foldl_cons, ih, remove_settings]

@[simp] theorem invalidateDataset_settings (c : Cache) (d : String) :
    (c.invalidateDataset d).settings = c.settings := by
  simp only [invalidateDataset, foldl_remove_settings]

theorem foldl_remove_entries (keys : List FieldKey) (c : Cache) :
    (keys.foldl remove c).entries = c.entries.filter fun e => e.key ∉ keys := by
  induction keys generalizing c with
  | nil => simp
  | cons k keys ih =>
    rw [List.foldl_cons, ih, remove_entries, without, List.filter_filter]
    refine List.filter_congr ?_
    intro e _
    rw [← Bool.decide_and, decide_eq_decide, List.mem_cons, not_or, and_comm]

theorem invalidateDataset_entries (c : Cache) (d : String) :
    (c.invalidateDataset d).entries = c.entries.filter fun e => e.key.dataset ≠ d := by
  rw [invalidateDataset, foldl_remove_entries]
  refine List.filter_congr ?_
  intro e he
  refine decide_eq_decide.mpr (not_congr ⟨fun hkey => ?_, fun hd => ?_⟩)
  · obtain ⟨e', he', hkey'⟩ := List.mem_map.mp hkey
    rw [← hkey']
    simpa using (List.mem_filter.mp he').2
  · exact List.mem_map_of_mem (List.mem_filter.mpr ⟨he, by simpa using hd⟩)

theorem mem_invalidateDataset {c : Cache} {d : String} {e : Entry} :
    e ∈ (c.invalidateDataset d).entries ↔ e ∈ c.entries ∧ e.key.dataset ≠ d := by
  rw [invalidateDataset_entries, List.mem_filter, decide_eq_true_iff]

/-! ## Look-up -/

/-- A hit moves an entry to the front and changes only the time of its last use. -/
theorem get_cases (c : Cache) (now : Nat) (k : FieldKey) :
    (c.entry? k = none ∧ c.get now k = (none, c)) ∨
      (∃ e, c.entry? k = some e ∧ c.expired now e = true ∧ c.get now k = (none, c.remove k)) ∨
      ∃ e, c.entry? k = some e ∧ c.expired now e = false ∧ c.get now k =
        (some e.candidates,
          { c with entries := { e with usedAt := now } :: without k c.entries }) := by
  unfold get
  cases h : c.entry? k with
  | none => exact .inl ⟨rfl, rfl⟩
  | some e =>
    cases hx : c.expired now e with
    | true => exact .inr (.inl ⟨e, rfl, hx, by simp [hx]⟩)
    | false => exact .inr (.inr ⟨e, rfl, hx, by simp [hx]⟩)

@[simp] theorem get_settings (c : Cache) (now : Nat) (k : FieldKey) :
    (c.get now k).2.settings = c.settings := by
  rcases get_cases c now k with ⟨-, h⟩ | ⟨e, -, -, h⟩ | ⟨e, -, -, h⟩
  · rw [h]
  · rw [h, remove_settings]
  · rw [h]

@[simp] theorem get_history (c : Cache) (now : Nat) (k : FieldKey) :
    (c.get now k).2.history = c.history := by
  rcases get_cases c now k with ⟨-, h⟩ | ⟨e, -, -, h⟩ | ⟨e, -, -, h⟩
  · rw [h]
  · rw [h, remove_history]
  · rw [h]

/-! ## Storing -/

/-- Making room gives up the entries at the front of the list. -/
theorem evict_suffix (budgetMb sizeMb totalMb : Float) (entries : List Entry) :
    (evict budgetMb sizeMb totalMb entries).1 <:+ entries := by
  induction entries generalizing totalMb with
  | nil => exact List.suffix_rfl
  | cons e rest ih =>
    unfold evict
    split
    · exact (ih _).trans (List.suffix_cons e rest)
    · exact List.suffix_rfl

theorem insert_entries (c : Cache) (now : Nat) (k : FieldKey) (candidates : List Candidate)
    (sizeMb : Float) : ∃ kept, (c.insert now k candidates sizeMb).entries =
      ⟨k, candidates, sizeMb, now, now⟩ :: kept ∧ kept.Sublist (without k c.entries) := by
  refine ⟨_, rfl, ?_⟩
  rw [← List.reverse_reverse (without k c.entries), ← remove_entries, List.reverse_sublist]
  exact (evict_suffix _ _ _ _).sublist

@[simp] theorem insert_history (c : Cache) (now : Nat) (k : FieldKey)
    (candidates : List Candidate) (sizeMb : Float) :
    (c.insert now k candidates sizeMb).history = c.history := by
  rw [insert]
  exact remove_history c k

@[simp] theorem insert_settings (c : Cache) (now : Nat) (k : FieldKey)
    (candidates : List Candidate) (sizeMb : Float) :
    (c.insert now k candidates sizeMb).settings = c.settings := by
  rw [insert]
  exact remove_settings c k

@[simp] theorem set_settings (c : Cache) (now : Nat) (k : FieldKey)
    (candidates : List Candidate) : (c.set now k candidates).2.settings = c.settings := by
  unfold set
  cases c.settings.admittedMb? candidates.length with
  | none => rfl
  | some sizeMb => exact insert_settings c now k candidates sizeMb

@[simp] theorem setIfUnchanged_settings (c : Cache) (now : Nat) (k : FieldKey)
    (candidates : List Candidate) (since : Generation) :
    (c.setIfUnchanged now k candidates since).2.settings = c.settings := by
  unfold setIfUnchanged
  cases c.settings.admittedMb? candidates.length with
  | none => rfl
  | some sizeMb =>
    dsimp only
    split
    · rfl
    · exact insert_settings c now k candidates sizeMb

@[simp] theorem set_history (c : Cache) (now : Nat) (k : FieldKey)
    (candidates : List Candidate) : (c.set now k candidates).2.history = c.history := by
  unfold set
  cases c.settings.admittedMb? candidates.length with
  | none => rfl
  | some sizeMb => exact insert_history c now k candidates sizeMb

@[simp] theorem setIfUnchanged_history (c : Cache) (now : Nat) (k : FieldKey)
    (candidates : List Candidate) (since : Generation) :
    (c.setIfUnchanged now k candidates since).2.history = c.history := by
  unfold setIfUnchanged
  cases c.settings.admittedMb? candidates.length with
  | none => rfl
  | some sizeMb =>
    dsimp only
    split
    · rfl
    · exact insert_history c now k candidates sizeMb

/-! ## One entry for each key -/

/-- Whether no two entries have the same key. -/
def Distinct (entries : List Entry) : Prop := (entries.map Entry.key).Nodup

theorem Distinct.sublist {entries entries' : List Entry} (h : Distinct entries)
    (hsub : entries'.Sublist entries) : Distinct entries' :=
  List.Nodup.sublist (hsub.map Entry.key) h

theorem Distinct.cons_without {k : FieldKey} {entries kept : List Entry} {e : Entry}
    (h : Distinct entries) (he : e.key = k) (hkept : kept.Sublist (without k entries)) :
    Distinct (e :: kept) := by
  refine List.nodup_cons.mpr ⟨?_, h.sublist (hkept.trans (without_sublist k entries))⟩
  intro hmem
  obtain ⟨e', he', hkey⟩ := List.mem_map.mp hmem
  exact (mem_without.mp (hkept.subset he')).2 (hkey.trans he)

/-- The entry of a key is the only one that a removal takes out. -/
theorem Distinct.perm_without {c : Cache} {k : FieldKey} {e : Entry} (h : Distinct c.entries)
    (he : c.entry? k = some e) : c.entries.Perm (e :: without k c.entries) := by
  unfold entry? at he
  generalize c.entries = entries at *
  induction entries with
  | nil => cases he
  | cons e' rest ih =>
    obtain ⟨hnot, hrest⟩ := List.nodup_cons.mp h
    by_cases hkey : e'.key = k
    · -- the first entry of the key is the one that is found, and there is no second one
      obtain rfl : e' = e := by simpa [hkey] using he
      have hwithout : without k (e' :: rest) = rest := by
        rw [without, List.filter_cons_of_neg (by simpa using hkey), List.filter_eq_self]
        intro e₂ he₂
        have : e₂.key ≠ k := fun hk => hnot (hkey ▸ hk ▸ List.mem_map_of_mem he₂)
        simpa using this
      rw [hwithout]
    · have hwithout : without k (e' :: rest) = e' :: without k rest := by
        rw [without, List.filter_cons_of_pos (by simpa using hkey)]
        rfl
      rw [hwithout]
      refine ((ih hrest ?_).cons e').trans (List.Perm.swap e e' _)
      simpa [hkey] using he

end Cache

end EmbeddingSearch
