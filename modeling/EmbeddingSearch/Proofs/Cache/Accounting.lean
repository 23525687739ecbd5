import EmbeddingSearch.Proofs.Cache.Entries
import EmbeddingSearch.Proofs.Cache.Sizes

/-!
# Accounting for memory

Replacing, evicting, expiring and invalidating entries all work on one running total. It is exact at
any time, and within the budget.

## Contents
- `Accounted`: the total is that of the entries, which are within the limits.
- `remove_accounted`, `evict_spec`, `insert_accounted`, `get_accounted`: what an operation does.
- `step_accounted`, `run_accounted`: the same for a step and for a run.
- `run_total_exact`: the account of a run that starts with an empty cache.
-/

namespace EmbeddingSearch

namespace Cache

open Numeric

/-! ## Accounts -/

/-- The estimated size of an entry in bytes. -/
def Entry.bytes (s : CacheSettings) (e : Entry) : Nat := e.candidates.length * s.bytesPerVector

/-- The estimated size of entries together. -/
def bytes (s : CacheSettings) (entries : List Entry) : Nat := (entries.map (Entry.bytes s)).sum

/-- Whether an entry is within the limits, and its size is that of its candidates. -/
structure Entry.Counted (s : CacheSettings) (e : Entry) : Prop where
  count : e.candidates.length ≤ s.maxVectors
  size : Measures e.sizeMb (e.bytes s)

/-- Whether the total of a cache is exactly that of its entries, and within the budget. -/
structure Accounted (c : Cache) : Prop where
  counted : ∀ e ∈ c.entries, e.Counted c.settings
  total : Measures c.usedMb (bytes c.settings c.entries)
  fits : c.usedMb ≤ c.settings.budgetMb
  distinct : Distinct c.entries

theorem bytes_cons (s : CacheSettings) (e : Entry) (entries : List Entry) :
    bytes s (e :: entries) = e.bytes s + bytes s entries := by
  rw [bytes, List.map_cons, List.sum_cons, bytes]

theorem bytes_perm {s : CacheSettings} {entries entries' : List Entry}
    (h : entries.Perm entries') : bytes s entries = bytes s entries' :=
  (h.map _).sum_eq

/-- The size of entries is the exact sum of their sizes. -/
theorem megabytes_bytes (s : CacheSettings) (entries : List Entry) :
    megabytes (bytes s entries) = (entries.map fun e => megabytes (e.bytes s)).sum := by
  induction entries with
  | nil => simp [bytes, megabytes]
  | cons e rest ih => rw [bytes_cons, megabytes_add, ih, List.map_cons, List.sum_cons]

theorem Accounted.bytes_le {c : Cache} (h : Accounted c) {b : ℚ}
    (hb : number? c.settings.budgetMb = some b) : megabytes (bytes c.settings c.entries) ≤ b :=
  (le_iff_number h.total hb).mp h.fits

theorem megabytes_mono {m n : Nat} (h : m ≤ n) : megabytes m ≤ megabytes n :=
  div_le_div_of_nonneg_right (by exact_mod_cast h) (by norm_num)

theorem empty_accounted {s : CacheSettings} (hs : s.Bounded) : Accounted { settings := s } where
  counted e he := by cases he
  total := Measures.zero
  fits := hs.budget_nonneg
  distinct := List.nodup_nil

/-! ## Removal -/

/-- The total after an entry has left. -/
theorem release_measures {s : CacheSettings} {total : Float} {e : Entry} {rest : List Entry}
    (htotal : Measures total (bytes s (e :: rest))) (he : e.Counted s)
    (hlt : bytes s (e :: rest) < 2 ^ 53) :
    Measures (release total e.sizeMb rest) (bytes s rest) := by
  unfold release
  rw [bytes_cons, Nat.add_comm] at htotal hlt
  -- with no entry left the total is set to zero and not computed
  cases rest with
  | nil => exact Measures.zero
  | cons e' rest => exact htotal.sub he.size hlt

theorem remove_accounted {c : Cache} (hs : c.settings.Bounded) (h : Accounted c) (k : FieldKey) :
    Accounted (c.remove k) := by
  obtain ⟨b, hb, -, hlt⟩ := hs.budget
  unfold remove
  cases hk : c.entry? k with
  | none => exact h
  | some e =>
    -- the entries are the one that leaves and the rest, so the total is that of both
    have hperm := h.distinct.perm_without hk
    have hfits := h.bytes_le hb
    have htotal := h.total
    rw [bytes_perm hperm] at hfits htotal
    have hsmall := megabytes_lt.mp (hfits.trans_lt hlt)
    have hrest := release_measures htotal (h.counted e (entry?_eq_some hk).1) hsmall
    refine ⟨fun e' he' => h.counted e' (mem_without.mp he').1, hrest, ?_,
      h.distinct.sublist (without_sublist k c.entries)⟩
    rw [bytes_cons] at hfits
    exact (le_iff_number hrest hb).mpr ((megabytes_mono (Nat.le_add_left _ _)).trans hfits)

theorem foldl_remove_accounted {c : Cache} (hs : c.settings.Bounded) (h : Accounted c)
    (keys : List FieldKey) : Accounted (keys.foldl remove c) := by
  induction keys generalizing c with
  | nil => exact h
  | cons k keys ih => exact ih (by rwa [remove_settings]) (remove_accounted hs h k)

/-! ## Storing -/

/-- Making room ends with a total to which the new size can be added exactly. -/
theorem evict_spec {s : CacheSettings} {b : ℚ} (hb : number? s.budgetMb = some b)
    (hlt : b < 2 ^ 33) {size : Float} {n : Nat} (hsize : Measures size n) (hn : megabytes n ≤ b)
    {entries : List Entry} (hcounted : ∀ e ∈ entries, e.Counted s) {total : Float}
    (htotal : Measures total (bytes s entries)) (hfits : megabytes (bytes s entries) ≤ b) :
    Measures ((evict s.budgetMb size total entries).2 + size)
        (bytes s (evict s.budgetMb size total entries).1 + n) ∧
      megabytes (bytes s (evict s.budgetMb size total entries).1 + n) ≤ b := by
  have hnlt := megabytes_lt.mp (hn.trans_lt hlt)
  induction entries generalizing total with
  | nil =>
    refine ⟨htotal.add hsize ?_, ?_⟩
    · exact (Nat.zero_add n).trans_lt hnlt
    · exact (congrArg megabytes (Nat.zero_add n)).trans_le hn
  | cons e rest ih =>
    have hsmall := megabytes_lt.mp (hfits.trans_lt hlt)
    unfold evict
    split
    · -- still too much: what is left is smaller and was within the budget before
      have he := hcounted e List.mem_cons_self
      refine ih (fun e' he' => hcounted e' (List.mem_cons_of_mem e he'))
        (release_measures htotal he hsmall) (le_trans (megabytes_mono ?_) hfits)
      rw [bytes_cons]
      exact Nat.le_add_left _ _
    · next hroom => exact Measures.add_le_budget hb hlt htotal hsize hsmall hnlt hroom

theorem insert_accounted {c : Cache} (hs : c.settings.Bounded) (h : Accounted c) (now : Nat)
    (k : FieldKey) (candidates : List Candidate) {size : Float}
    (hsize : c.settings.admittedMb? candidates.length = some size) :
    Accounted (c.insert now k candidates size) := by
  obtain ⟨b, hb, -, hlt⟩ := hs.budget
  obtain ⟨hcount, hle, hmeasure⟩ := hs.admittedMb?_spec hsize
  have hfits := (le_iff_number hmeasure hb).mp hle
  have hrem := remove_accounted hs h k
  rw [← remove_settings c k] at hb hcount hmeasure hfits
  -- room is made from the other end of the list, which does not change the sum
  have hperm := bytes_perm (s := (c.remove k).settings) (List.reverse_perm (c.remove k).entries)
  have hroom := evict_spec hb hlt hmeasure hfits
    (fun e he => hrem.counted e (List.mem_reverse.mp he)) (hperm ▸ hrem.total)
    (hperm ▸ hrem.bytes_le hb)
  have hkept := evict_suffix (c.remove k).settings.budgetMb size (c.remove k).usedMb
    (c.remove k).entries.reverse
  unfold insert
  dsimp only
  generalize evict (c.remove k).settings.budgetMb size (c.remove k).usedMb
    (c.remove k).entries.reverse = r at hroom hkept ⊢
  obtain ⟨kept, total⟩ := r
  have hsub : kept.reverse.Sublist (c.remove k).entries :=
    List.reverse_sublist.mp (by rw [List.reverse_reverse]; exact hkept.sublist)
  have hbytes : bytes (c.remove k).settings (⟨k, candidates, size, now, now⟩ :: kept.reverse) =
      bytes (c.remove k).settings kept +
        candidates.length * (c.remove k).settings.bytesPerVector := by
    rw [bytes_cons, bytes_perm (List.reverse_perm kept), Nat.add_comm]
    rfl
  refine ⟨fun e he => ?_, hbytes ▸ hroom.1, (le_iff_number hroom.1 hb).mpr hroom.2, ?_⟩
  · rcases List.mem_cons.mp he with rfl | he
    · exact ⟨hcount, hmeasure⟩
    · exact hrem.counted e (hsub.subset he)
  · rw [remove_entries] at hsub
    exact h.distinct.cons_without rfl hsub

theorem set_accounted {c : Cache} (hs : c.settings.Bounded) (h : Accounted c) (now : Nat)
    (k : FieldKey) (candidates : List Candidate) : Accounted (c.set now k candidates).2 := by
  unfold set
  cases hsize : c.settings.admittedMb? candidates.length with
  | none => exact h
  | some size => exact insert_accounted hs h now k candidates hsize

theorem setIfUnchanged_accounted {c : Cache} (hs : c.settings.Bounded) (h : Accounted c)
    (now : Nat) (k : FieldKey) (candidates : List Candidate) (since : Generation) :
    Accounted (c.setIfUnchanged now k candidates since).2 := by
  unfold setIfUnchanged
  cases hsize : c.settings.admittedMb? candidates.length with
  | none => exact h
  | some size =>
    dsimp only
    split
    · exact h
    · exact insert_accounted hs h now k candidates hsize

/-! ## Look-up -/

theorem get_accounted {c : Cache} (hs : c.settings.Bounded) (h : Accounted c) (now : Nat)
    (k : FieldKey) : Accounted (c.get now k).2 := by
  rcases get_cases c now k with ⟨-, hget⟩ | ⟨e, -, -, hget⟩ | ⟨e, hk, -, hget⟩
  · rw [hget]
    exact h
  · rw [hget]
    exact remove_accounted hs h k
  · -- a hit only moves its entry to the front
    rw [hget]
    have hbytes : bytes c.settings ({ e with usedAt := now } :: without k c.entries) =
        bytes c.settings c.entries := (bytes_perm (h.distinct.perm_without hk)).symm
    obtain ⟨hmem, hkey⟩ := entry?_eq_some hk
    refine ⟨fun e' he' => ?_, hbytes ▸ h.total, h.fits, ?_⟩
    · rcases List.mem_cons.mp he' with rfl | he'
      · exact ⟨(h.counted e hmem).count, (h.counted e hmem).size⟩
      · exact h.counted e' (mem_without.mp he').1
    · exact h.distinct.cons_without hkey (List.Sublist.refl _)

/-! ## Runs -/

theorem invalidate_accounted {c : Cache} (hs : c.settings.Bounded) (h : Accounted c)
    (k : FieldKey) : Accounted (c.invalidate k) :=
  remove_accounted (c := { c with history := c.history.ofKey k }) hs ⟨h.1, h.2, h.3, h.4⟩ k

theorem invalidateDataset_accounted {c : Cache} (hs : c.settings.Bounded) (h : Accounted c)
    (d : String) : Accounted (c.invalidateDataset d) :=
  foldl_remove_accounted (c := { c with history := c.history.ofDataset d }) hs
    ⟨h.1, h.2, h.3, h.4⟩ _

theorem clear_accounted {c : Cache} (hs : c.settings.Bounded) : Accounted c.clear :=
  have h := empty_accounted hs
  ⟨h.1, h.2, h.3, h.4⟩

namespace Session

/-- A step keeps the account, and the settings. -/
theorem step_accounted {s : Session} (hs : s.cache.settings.Bounded) (h : Accounted s.cache)
    (x : Step) : Accounted (s.step x).2.cache ∧ (s.step x).2.cache.settings = s.cache.settings := by
  cases x with
  | get k => exact ⟨get_accounted hs h s.now k, get_settings s.cache s.now k⟩
  | set k candidates =>
    exact ⟨set_accounted hs h s.now k candidates, set_settings s.cache s.now k candidates⟩
  | setIfUnchanged k candidates slot =>
    exact ⟨setIfUnchanged_accounted hs h s.now k candidates (s.slot slot),
      setIfUnchanged_settings s.cache s.now k candidates (s.slot slot)⟩
  | invalidate k => exact ⟨invalidate_accounted hs h k, invalidate_settings s.cache k⟩
  | invalidateDataset d =>
    exact ⟨invalidateDataset_accounted hs h d, invalidateDataset_settings s.cache d⟩
  | clear => exact ⟨clear_accounted hs, rfl⟩
  | generation slot than => exact ⟨h, rfl⟩
  | advance ms => exact ⟨h, rfl⟩
  | stats => exact ⟨h, rfl⟩
  | info => exact ⟨h, rfl⟩
  | settings => exact ⟨h, rfl⟩

/-- A run keeps the account, and the settings. -/
theorem run_accounted {s : Session} (hs : s.cache.settings.Bounded) (h : Accounted s.cache)
    (steps : List Step) :
    Accounted (s.run steps).cache ∧ (s.run steps).cache.settings = s.cache.settings := by
  induction steps generalizing s with
  | nil => exact ⟨h, rfl⟩
  | cons x steps ih =>
    obtain ⟨hstep, hsettings⟩ := step_accounted hs h x
    obtain ⟨hrun, hsame⟩ := ih (s := (s.step x).2) (hsettings ▸ hs) hstep
    exact ⟨hrun, hsame.trans hsettings⟩

/-- After any operations on a new cache, the running total is exactly the sum of the sizes of the
entries, which are exactly those of their vectors, and no limit is exceeded. -/
theorem run_total_exact {s : CacheSettings} (hs : s.Bounded) (steps : List Step) :
    let c := (run { cache := { settings := s } } steps).cache
    (∃ sizes : List ℚ, c.entries.map (fun e => number? e.sizeMb) = sizes.map some ∧
        number? c.usedMb = some sizes.sum) ∧
      (∀ e ∈ c.entries,
        number? e.sizeMb = some ((e.candidates.length : ℚ) * s.bytesPerVector / 2 ^ 20)) ∧
      c.usedMb ≤ s.budgetMb ∧
      (∀ e ∈ c.entries, e.candidates.length ≤ s.maxVectors) ∧
      (c.entries.map Entry.key).Nodup := by
  intro c
  obtain ⟨h, hsame⟩ := run_accounted (s := { cache := { settings := s } }) hs
    (empty_accounted hs) steps
  have hsettings : c.settings = s := hsame
  have hexact : ∀ e ∈ c.entries, number? e.sizeMb = some (megabytes (e.bytes s)) := fun e he =>
    hsettings ▸ (h.counted e he).size
  refine ⟨⟨c.entries.map fun e => megabytes (e.bytes s), ?_, ?_⟩, fun e he => ?_, ?_, ?_,
    h.distinct⟩
  · rw [List.map_map]
    exact List.map_congr_left hexact
  · rw [← megabytes_bytes, ← hsettings]
    exact h.total
  · rw [hexact e he, megabytes, Entry.bytes, Nat.cast_mul]
  · exact hsettings ▸ h.fits
  · exact fun e he => hsettings ▸ (h.counted e he).count

/-- Two sets that do not fit together: the account of the one that is left. -/
theorem run_total_exact_evicted :
    let s : CacheSettings := { budgetMb := 1, maxVectors := 4, bytesPerVector := 400000 }
    let steps : List Step :=
      [.set ⟨"d", "f"⟩ [⟨"a", [], 0⟩, ⟨"b", [], 0⟩], .advance 5, .set ⟨"d", "g"⟩ [⟨"a", [], 0⟩]]
    let c := (run { cache := { settings := s } } steps).cache
    s.Bounded ∧ c.entries.map Entry.key = [⟨"d", "g"⟩] ∧
      (∃ sizes : List ℚ, c.entries.map (fun e => number? e.sizeMb) = sizes.map some ∧
        number? c.usedMb = some sizes.sum) := by
  have hs : CacheSettings.Bounded { budgetMb := 1, maxVectors := 4, bytesPerVector := 400000 } :=
    ⟨by decide, by decide, by decide, by decide⟩
  exact ⟨hs, by decide +kernel, (run_total_exact hs _).1⟩

end Session

end Cache

end EmbeddingSearch
