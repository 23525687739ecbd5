import EmbeddingSearch.Proofs.Cache.History

/-!
# What a generation stands for

A generation is a point in the history of a cache. What the cache keeps of this history is one
counter, one place for each key and dataset that was invalidated since the last clearing, and the
place of that clearing; this is enough to tell of any earlier generation and any key whether the key
was invalidated after it.

## Contents
- `Step.Invalidates`, `Step.isInvalidation`: the steps of a run that invalidate.
- `Step.record`, `step_history`: what a step adds to the history.
- `touchedSince_record`, `run_touchedSince`: a generation of the past, after a step and after a run.
- `Timely`, `run_timely`: nothing that is recorded lies ahead of the present generation.
- `setIfUnchanged_eq`: what a set that was loaded earlier comes to.
- `run_stale_iff`: when a set that was loaded after some generation is refused.
-/

namespace EmbeddingSearch

namespace Cache

open Invalidations

/-! ## Steps that invalidate -/

/-- Whether a step invalidates a key: this key, its dataset, or everything. -/
def Step.Invalidates (k : FieldKey) : Step → Prop
  | .invalidate k' => k' = k
  | .invalidateDataset d => d = k.dataset
  | .clear => True
  | _ => False

instance (k : FieldKey) (x : Step) : Decidable (x.Invalidates k) := by
  cases x with
  | invalidate k' => exact inferInstanceAs (Decidable (k' = k))
  | invalidateDataset d => exact inferInstanceAs (Decidable (d = k.dataset))
  | clear => exact .isTrue trivial
  | _ => exact .isFalse id

/-- Whether a step is an invalidation of anything. -/
def Step.isInvalidation : Step → Bool
  | .invalidate _ | .invalidateDataset _ | .clear => true
  | _ => false

/-- What a step adds to the history. -/
def Step.record (h : Invalidations) : Step → Invalidations
  | .invalidate k => h.ofKey k
  | .invalidateDataset d => h.ofDataset d
  | .clear => h.ofAll
  | _ => h

theorem Step.record_count (h : Invalidations) (x : Step) :
    (x.record h).count = h.count + [x].countP Step.isInvalidation := by
  cases x <;> rfl

/-- After one more step, a key has been invalidated since an earlier generation if it had been
before, or if the step invalidates it. -/
theorem Step.touchedSince_record {h : Invalidations} {k : FieldKey} {since : Generation}
    (hs : since.invalidations ≤ h.count) (x : Step) :
    (x.record h).touchedSince k since = true ↔ h.touchedSince k since = true ∨ x.Invalidates k := by
  cases x with
  | invalidate k' =>
    show (h.ofKey k').touchedSince k since = true ↔ _ ∨ k' = k
    by_cases hk : k' = k
    · subst hk
      simp [touchedSince_ofKey hs]
    · simp [touchedSince_iff, ofKey, latest_mark, hk, Ne.symm hk]
  | invalidateDataset d =>
    show (h.ofDataset d).touchedSince k since = true ↔ _ ∨ d = k.dataset
    by_cases hd : d = k.dataset
    · subst hd
      simp [touchedSince_ofDataset rfl hs]
    · simp [touchedSince_iff, ofDataset, latest_mark, hd, Ne.symm hd]
  | clear =>
    show h.ofAll.touchedSince k since = true ↔ _ ∨ True
    simp [touchedSince_ofAll hs]
  | _ => simp [Step.record, Step.Invalidates]

/-- Whether no recorded invalidation lies ahead of the present generation. -/
def Timely (h : Invalidations) : Prop := ∀ k, h.touchedSince k h.now = false

theorem timely_empty : Timely {} := fun _ => rfl

theorem Timely.places {h : Invalidations} (ht : Timely h) (k : FieldKey) :
    h.cleared ≤ h.count ∧ latest k h.keys ≤ h.count ∧ latest k.dataset h.datasets ≤ h.count := by
  simpa [touchedSince, now, and_assoc] using ht k

/-- A step records nothing but the generation that it brings about. -/
theorem Timely.record {h : Invalidations} (ht : Timely h) (x : Step) : Timely (x.record h) := by
  intro k
  obtain ⟨hcleared, hkey, hdataset⟩ := ht.places k
  cases x with
  | invalidate k' =>
    have hmark : latest k (mark k' (h.count + 1) h.keys) ≤ h.count + 1 := by
      rw [latest_mark]
      split <;> omega
    simp [Step.record, touchedSince, now, ofKey]
    omega
  | invalidateDataset d =>
    have hmark : latest k.dataset (mark d (h.count + 1) h.datasets) ≤ h.count + 1 := by
      rw [latest_mark]
      split <;> omega
    simp [Step.record, touchedSince, now, ofDataset]
    omega
  | clear => simp [Step.record, touchedSince, now, ofAll, latest]
  | _ => exact ht k

/-- A set is stored as if it was new, or refused because it may be out of date. -/
theorem setIfUnchanged_eq (c : Cache) (now : Nat) (k : FieldKey) (candidates : List Candidate)
    (since : Generation) : c.setIfUnchanged now k candidates since =
      if c.history.touchedSince k since then (false, c) else c.set now k candidates := by
  unfold setIfUnchanged set
  cases c.settings.admittedMb? candidates.length with
  | none => simp
  | some sizeMb => rfl

namespace Session

/-! ## Histories of runs -/

theorem step_history (s : Session) (x : Step) :
    (s.step x).2.cache.history = x.record s.cache.history := by
  cases x with
  | get k => exact get_history s.cache s.now k
  | set k candidates => exact set_history s.cache s.now k candidates
  | setIfUnchanged k candidates slot =>
    exact setIfUnchanged_history s.cache s.now k candidates (s.slot slot)
  | invalidate k => exact invalidate_history s.cache k
  | invalidateDataset d => exact invalidateDataset_history s.cache d
  | _ => rfl

/-- The generation of a cache is the number of invalidations before it. -/
theorem run_count (s : Session) (steps : List Step) :
    (s.run steps).cache.history.count =
      s.cache.history.count + steps.countP Step.isInvalidation := by
  induction steps generalizing s with
  | nil => rfl
  | cons x rest ih =>
    show ((s.step x).2.run rest).cache.history.count = _
    rw [ih, step_history, Step.record_count, Nat.add_assoc, ← List.countP_append]
    rfl

/-- After a run, a key has been invalidated since an earlier generation if it had been before, or if
a step of the run invalidates it. -/
theorem run_touchedSince {s : Session} {since : Generation}
    (hs : since.invalidations ≤ s.cache.history.count) (k : FieldKey) (steps : List Step) :
    (s.run steps).cache.history.touchedSince k since = true ↔
      s.cache.history.touchedSince k since = true ∨ ∃ x ∈ steps, x.Invalidates k := by
  induction steps generalizing s with
  | nil => simp [run]
  | cons x rest ih =>
    have hs' : since.invalidations ≤ (s.step x).2.cache.history.count := by
      rw [step_history, Step.record_count]
      exact hs.trans (Nat.le_add_right _ _)
    show ((s.step x).2.run rest).cache.history.touchedSince k since = true ↔ _
    rw [ih hs', step_history, Step.touchedSince_record hs, List.exists_mem_cons_iff, or_assoc]

theorem run_timely {s : Session} (h : Timely s.cache.history) (steps : List Step) :
    Timely (s.run steps).cache.history := by
  induction steps generalizing s with
  | nil => exact h
  | cons x rest ih =>
    apply ih
    rw [step_history]
    exact h.record x

/-! ## Sets that were loaded earlier -/

/-- A generation tells exactly whether a key was invalidated after it, by itself, with its dataset
or with everything else, and nothing but this decides over a set that was loaded when it was taken:
with such an invalidation the set is refused and the cache is left as it is, and without one the set
is treated as a new one. Generations are in the order of the numbers of invalidations before
them. -/
theorem run_stale_iff (settings : CacheSettings) (before after : List Step) :
    let start : Session := { cache := { settings } }
    let since := (start.run before).cache.generation
    let s := (start.run before).run after
    (∀ k, s.cache.history.touchedSince k since = true ↔ ∃ x ∈ after, x.Invalidates k) ∧
      (∀ now k candidates, s.cache.setIfUnchanged now k candidates since =
        if ∃ x ∈ after, x.Invalidates k then (false, s.cache)
        else s.cache.set now k candidates) ∧
      ∀ steps, since.compare (start.run steps).cache.generation =
        Ord.compare (before.countP Step.isInvalidation) (steps.countP Step.isInvalidation) := by
  intro start since s
  have hcount : ∀ steps, (start.run steps).cache.generation =
      ⟨steps.countP Step.isInvalidation⟩ := by
    intro steps
    have h := run_count start steps
    rw [Nat.zero_add] at h
    exact congrArg Generation.mk h
  have htouched : ∀ k, s.cache.history.touchedSince k since = true ↔
      ∃ x ∈ after, x.Invalidates k := by
    intro k
    have hnow : (start.run before).cache.history.touchedSince k since = false :=
      run_timely (s := start) timely_empty before k
    rw [run_touchedSince (Nat.le_refl _), hnow]
    simp
  refine ⟨htouched, ?_, ?_⟩
  · intro now k candidates
    rw [setIfUnchanged_eq]
    simp only [htouched]
  · intro steps
    rw [hcount steps, show since = ⟨_⟩ from hcount before]
    rfl

end Session

end Cache

end EmbeddingSearch
