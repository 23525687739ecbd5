import Mathlib.Algebra.Order.Floor.Div
import EmbeddingSearch.Proofs.Vector.Chunks

/-!
# The ranges of the chunks

The ranges that a set is split into are a partition of its places, whatever its length and the number
of workers: none of them is empty, each starts where the one before it ends, and together they go from
the first place to the last. They are of one size, except that the last one may be smaller.

No sum that this takes is above twice the length, and no divisor and no step is zero. So with words
that hold this much, as they do for every list in memory, nothing can go wrong.

## Contents
- `Tiles`: consecutive ranges that are not empty; every place lies in exactly one of them.
- `lt_ranges_iff`, `clampedWorkers`, `chunkSize_le`: how many ranges of a size there are, and how
  large this is.
- `chunkRanges_tiles`, `length_chunkRanges_le`, `chunkRanges_sizes`: the ranges of a set.
- `Checked.ranges`, `Checked.ranges_eq`: the same ranges by operations that can fail, and when they do.
- `chunkRanges_partition`: all of it.
-/

namespace EmbeddingSearch

/-! ## Consecutive ranges -/

/-- Whether ranges, each given by its start and its end, which is not in it, lead from one place to
another: each starts where the one before it ends, and none of them is empty. -/
def Tiles : Nat → Nat → List (Nat × Nat) → Prop
  | start, stop, [] => start = stop
  | start, stop, r :: rest => r.1 = start ∧ r.1 < r.2 ∧ Tiles r.2 stop rest

/-- Whether a place lies in a range. -/
def covers (i : Nat) (r : Nat × Nat) : Bool := r.1 ≤ i && i < r.2

namespace Tiles

variable {start stop : Nat} {ranges : List (Nat × Nat)}

theorem le (h : Tiles start stop ranges) : start ≤ stop := by
  induction ranges generalizing start with
  | nil => exact h.le
  | cons r rest ih =>
    obtain ⟨rfl, hr, hrest⟩ := h
    exact hr.le.trans (ih hrest)

theorem eq_nil_iff (h : Tiles start stop ranges) : ranges = [] ↔ start = stop := by
  cases ranges with
  | nil => exact iff_of_true rfl h
  | cons r rest =>
    obtain ⟨rfl, hr, hrest⟩ := h
    have hle := hrest.le
    simp
    omega

theorem concat {r : Nat × Nat} (h : Tiles start r.1 ranges) (hr : r.1 < r.2) :
    Tiles start r.2 (ranges ++ [r]) := by
  induction ranges generalizing start with
  | nil => exact ⟨h.symm, hr, rfl⟩
  | cons r' rest ih =>
    obtain ⟨hstart, hr', hrest⟩ := h
    exact ⟨hstart, hr', ih hrest⟩

/-- Every place from the start to the end lies in exactly one of the ranges, and no other in any. -/
theorem countP_covers (h : Tiles start stop ranges) (i : Nat) :
    ranges.countP (covers i) = if start ≤ i ∧ i < stop then 1 else 0 := by
  induction ranges generalizing start with
  | nil =>
    have hnone : ¬ (start ≤ i ∧ i < stop) := by
      rw [show start = stop from h]
      omega
    rw [if_neg hnone]
    rfl
  | cons r rest ih =>
    obtain ⟨rfl, hr, hrest⟩ := h
    have hle := hrest.le
    rw [List.countP_cons, ih hrest]
    -- a place of the first range comes before all others
    by_cases hi : r.1 ≤ i ∧ i < r.2
    · have hcovers : covers i r = true := by simp [covers, hi]
      rw [if_neg (by omega), if_pos hcovers, if_pos (by omega)]
    · have hcovers : ¬ covers i r = true := by simpa [covers] using hi
      rw [if_neg hcovers, Nat.add_zero]
      exact if_congr (by omega) rfl rfl

end Tiles

/-! ## Sizes -/

/-- So many ranges of a size are enough. -/
theorem ranges_le_iff {len size : Nat} (h : 0 < size) (n : Nat) :
    (len + size - 1) / size ≤ n ↔ len ≤ n * size := by
  rw [← Nat.ceilDiv_eq_add_pred_div, ceilDiv_le_iff_le_mul h, Nat.mul_comm]

/-- So many of them start before the end. -/
theorem lt_ranges_iff {len size : Nat} (h : 0 < size) (i : Nat) :
    i < (len + size - 1) / size ↔ i * size < len := by
  rw [← not_le, ranges_le_iff h, not_le]

/-- How many workers a set is split for: one at least, and no more than there are items. -/
def clampedWorkers (len workers : Nat) : Nat := min (max workers 1) (max len 1)

theorem clampedWorkers_pos (len workers : Nat) : 0 < clampedWorkers len workers := by
  unfold clampedWorkers
  omega

theorem clampedWorkers_le (len workers : Nat) : clampedWorkers len workers ≤ max 1 workers := by
  unfold clampedWorkers
  omega

theorem chunkSize_eq (len workers : Nat) : chunkSize len workers =
    max ((len + clampedWorkers len workers - 1) / clampedWorkers len workers) 1 := rfl

/-- The workers can take all items in chunks of this size. -/
theorem le_workers_mul_chunkSize (len workers : Nat) :
    len ≤ clampedWorkers len workers * chunkSize len workers := by
  have hall := le_ranges_mul len (clampedWorkers_pos len workers)
  rw [Nat.mul_comm, chunkSize_eq]
  exact hall.trans (Nat.mul_le_mul_right _ (le_max_left _ _))

/-- An equal share of the items, rounded up, is at most all of them. -/
theorem share_le (len workers : Nat) :
    (len + clampedWorkers len workers - 1) / clampedWorkers len workers ≤ len := by
  have hpos := clampedWorkers_pos len workers
  refine (ranges_le_iff hpos len).mpr ?_
  exact Nat.le_mul_of_pos_right len hpos

theorem chunkSize_le (len workers : Nat) : chunkSize len workers ≤ max len 1 := by
  rw [chunkSize_eq]
  exact max_le_max (share_le len workers) le_rfl

/-! ## The ranges of a set -/

/-- One of the ranges of a size that a set is split into. -/
def chunkAt (len size i : Nat) : Nat × Nat := (i * size, min (i * size + size) len)

/-- How many of them there are. -/
def chunkCount (len workers : Nat) : Nat :=
  (len + chunkSize len workers - 1) / chunkSize len workers

theorem chunkRanges_eq (len workers : Nat) : chunkRanges len workers =
    (List.range (chunkCount len workers)).map (chunkAt len (chunkSize len workers)) := rfl

theorem lt_chunkCount_iff {len workers i : Nat} :
    i < chunkCount len workers ↔ i * chunkSize len workers < len :=
  lt_ranges_iff (chunkSize_pos len workers) i

/-- As long as every range starts before the end, they follow one another. -/
theorem tiles_chunkAt {len size : Nat} (hsize : 0 < size) (n : Nat)
    (hn : ∀ i < n, i * size < len) :
    Tiles 0 (min (n * size) len) ((List.range n).map (chunkAt len size)) := by
  induction n with
  | zero =>
    show 0 = min (0 * size) len
    rw [Nat.zero_mul, Nat.zero_min]
  | succ n ih =>
    have hstart := hn n (Nat.lt_succ_self n)
    have htiles := ih fun i hi => hn i (Nat.lt_succ_of_lt hi)
    rw [min_eq_left hstart.le] at htiles
    have hnonempty : (chunkAt len size n).1 < (chunkAt len size n).2 := by
      show n * size < min (n * size + size) len
      omega
    rw [List.range_succ, List.map_append, Nat.succ_mul]
    exact Tiles.concat htiles hnonempty

/-- The ranges of a set lead from its first place to its last. -/
theorem chunkRanges_tiles (len workers : Nat) : Tiles 0 len (chunkRanges len workers) := by
  have htiles := tiles_chunkAt (chunkSize_pos len workers) (chunkCount len workers)
    fun i hi => lt_chunkCount_iff.mp hi
  have hall : len ≤ chunkCount len workers * chunkSize len workers :=
    le_ranges_mul len (chunkSize_pos len workers)
  rwa [min_eq_right hall, ← chunkRanges_eq] at htiles

/-- There is at most one range for each worker. -/
theorem length_chunkRanges_le (len workers : Nat) :
    (chunkRanges len workers).length ≤ max 1 workers := by
  rw [chunkRanges_eq, List.length_map, List.length_range]
  refine le_trans ?_ (clampedWorkers_le len workers)
  exact (ranges_le_iff (chunkSize_pos len workers) _).mpr (le_workers_mul_chunkSize len workers)

/-- A range that is not the last one is followed by a place, so the end has not cut it short. -/
theorem chunkRanges_sizes (len workers : Nat) :
    (∀ r ∈ (chunkRanges len workers).dropLast, r.2 = r.1 + chunkSize len workers) ∧
      ∀ r ∈ chunkRanges len workers, r.2 ≤ r.1 + chunkSize len workers := by
  constructor
  · intro r hr
    rw [chunkRanges_eq, ← List.map_dropLast, List.dropLast_eq_take, List.take_range,
      List.length_range] at hr
    obtain ⟨i, hi, rfl⟩ := List.mem_map.mp hr
    have hnext : i + 1 < chunkCount len workers := by
      have hlast := List.mem_range.mp hi
      omega
    have hend := lt_chunkCount_iff.mp hnext
    rw [Nat.succ_mul] at hend
    exact min_eq_left hend.le
  · intro r hr
    obtain ⟨i, -, rfl⟩ := List.mem_map.mp hr
    exact min_le_left _ _

/-- Going on by a chunk from where a range starts does not lead beyond twice the length. -/
theorem chunkRanges_start_add_le {len workers : Nat} {r : Nat × Nat}
    (hr : r ∈ chunkRanges len workers) : r.1 + chunkSize len workers ≤ 2 * len := by
  rw [chunkRanges_eq] at hr
  obtain ⟨i, hi, rfl⟩ := List.mem_map.mp hr
  have hstart := lt_chunkCount_iff.mp (List.mem_range.mp hi)
  have hsize := chunkSize_le len workers
  show i * chunkSize len workers + chunkSize len workers ≤ 2 * len
  omega

/-! ## Arithmetic that can fail -/

namespace Checked

/-- Why an operation on numbers stops. -/
inductive Fault where
  /-- The bounds to keep a number within are the wrong way round. -/
  | crossedBounds
  | zeroDivisor
  | zeroStep
  /-- A sum is larger than the largest number there is. -/
  | overflow
deriving DecidableEq, Repr

/-- A number, or the bound that it is beyond. -/
def clamp (low high n : Nat) : Except Fault Nat :=
  if high < low then .error .crossedBounds else .ok (min (max n low) high)

/-- A quotient, rounded up. -/
def divideUp (n divisor : Nat) : Except Fault Nat :=
  if divisor = 0 then .error .zeroDivisor
  else .ok (n / divisor + if n % divisor = 0 then 0 else 1)

/-- The numbers below `len` that are reached from zero in steps. -/
def steps (len step : Nat) : Except Fault (List Nat) :=
  if step = 0 then .error .zeroStep else .ok ((List.range len).filter fun i => i % step = 0)

/-- A sum, where `largest` is the largest number there is. -/
def add (largest m n : Nat) : Except Fault Nat :=
  if largest < m + n then .error .overflow else .ok (m + n)

/-- The range from a start to where one more step leads, or to the end of the set. -/
def rangeFrom (largest len size start : Nat) : Except Fault (Nat × Nat) := do
  let next ← add largest start size
  return (start, min next len)

/-- The ranges of a set by these operations: one from every step. -/
def ranges (largest len workers : Nat) : Except Fault (List (Nat × Nat)) := do
  let workers ← clamp 1 (max len 1) workers
  let size ← divideUp len workers
  let starts ← steps len (max size 1)
  starts.mapM (rangeFrom largest len (max size 1))

theorem divideUp_eq {divisor : Nat} (h : 0 < divisor) (n : Nat) :
    divideUp n divisor = .ok ((n + divisor - 1) / divisor) := by
  have hquotient := Nat.div_add_mod n divisor
  have hrest := Nat.mod_lt n h
  rw [divideUp, if_neg h.ne']
  congr 1
  symm
  split
  · apply Nat.div_eq_of_lt_le
    · rw [Nat.add_zero, Nat.mul_comm]
      omega
    · rw [Nat.add_zero, Nat.succ_mul, Nat.mul_comm]
      omega
  · apply Nat.div_eq_of_lt_le
    · rw [Nat.succ_mul, Nat.mul_comm]
      omega
    · rw [Nat.succ_mul, Nat.succ_mul, Nat.mul_comm]
      omega

/-- The steps are the multiples of their size, from zero on. -/
theorem steps_eq {size : Nat} (h : 0 < size) (len : Nat) :
    steps len size = .ok ((List.range ((len + size - 1) / size)).map (· * size)) := by
  rw [steps, if_neg h.ne']
  congr 1
  -- both lists ascend, so it is enough that they have the same elements
  have hfilter : ((List.range len).filter fun i => i % size = 0).Pairwise (· < ·) :=
    List.pairwise_lt_range.sublist List.filter_sublist
  have hmap : ((List.range ((len + size - 1) / size)).map (· * size)).Pairwise (· < ·) :=
    List.pairwise_map.mpr (List.pairwise_lt_range.imp fun hlt => Nat.mul_lt_mul_of_pos_right hlt h)
  refine List.Perm.eq_of_pairwise (fun a b _ _ hab hba => absurd hab hba.asymm) hfilter hmap ?_
  refine (List.perm_ext_iff_of_nodup (hfilter.imp ne_of_lt) (hmap.imp ne_of_lt)).mpr fun i => ?_
  simp only [List.mem_filter, List.mem_range, decide_eq_true_eq, List.mem_map, lt_ranges_iff h]
  constructor
  · rintro ⟨hi, hmod⟩
    obtain ⟨k, rfl⟩ := Nat.dvd_of_mod_eq_zero hmod
    exact ⟨k, by rwa [Nat.mul_comm], Nat.mul_comm k size⟩
  · rintro ⟨k, hk, rfl⟩
    exact ⟨hk, Nat.mul_mod_left k size⟩

theorem rangeFrom_eq (largest len size start : Nat) : rangeFrom largest len size start =
    if start + size ≤ largest then .ok (start, min (start + size) len) else .error .overflow := by
  unfold rangeFrom add
  by_cases h : start + size ≤ largest
  · rw [if_neg (not_lt.mpr h), if_pos h]
    rfl
  · rw [if_pos (not_le.mp h), if_neg h]
    rfl

/-- A list for whose elements something can fail in one way only. -/
theorem mapM_eq {α β : Type} {f : α → Except Fault β} {g : α → β} {p : α → Prop} [DecidablePred p]
    {e : Fault} (h : ∀ x, f x = if p x then .ok (g x) else .error e) (xs : List α) :
    xs.mapM f = if ∀ x ∈ xs, p x then .ok (xs.map g) else .error e := by
  induction xs with
  | nil => exact (if_pos (List.forall_mem_nil p)).symm
  | cons x xs ih =>
    rw [List.mapM_cons, h x, ih]
    by_cases hx : p x
    · by_cases hxs : ∀ y ∈ xs, p y
      · rw [if_pos hx, if_pos hxs, if_pos (List.forall_mem_cons.mpr ⟨hx, hxs⟩)]
        rfl
      · rw [if_pos hx, if_neg hxs, if_neg fun hall => hxs (List.forall_mem_cons.mp hall).2]
        rfl
    · rw [if_neg hx, if_neg fun hall => hx (List.forall_mem_cons.mp hall).1]
      rfl

/-- Nothing but a sum that is too large can go wrong. -/
theorem ranges_eq (largest len workers : Nat) : ranges largest len workers =
    if ∀ r ∈ chunkRanges len workers, r.1 + chunkSize len workers ≤ largest then
      .ok (chunkRanges len workers)
    else .error .overflow := by
  have hclamp : clamp 1 (max len 1) workers = .ok (clampedWorkers len workers) :=
    if_neg (not_lt.mpr (le_max_right _ _))
  have hdivide := divideUp_eq (clampedWorkers_pos len workers) len
  have hsteps := steps_eq (chunkSize_pos len workers) len
  rw [ranges, hclamp]
  show (divideUp len (clampedWorkers len workers) >>= _) = _
  rw [hdivide]
  show (steps len (chunkSize len workers) >>= _) = _
  rw [hsteps]
  refine (mapM_eq (rangeFrom_eq largest len (chunkSize len workers)) _).trans ?_
  rw [chunkRanges_eq]
  refine if_congr ?_ ?_ rfl
  · rw [List.forall_mem_map, List.forall_mem_map]
    rfl
  · rw [List.map_map]
    rfl

/-- Numbers up to twice the length are enough for all of it. -/
theorem ranges_eq_ok {largest len : Nat} (h : 2 * len ≤ largest) (workers : Nat) :
    ranges largest len workers = .ok (chunkRanges len workers) := by
  rw [ranges_eq, if_pos fun r hr => (chunkRanges_start_add_le hr).trans h]

end Checked

/-! ## The partition -/

/-- For every length and every number of workers, the ranges lead from the first place to the last
without a gap, and none is empty; every place lies in exactly one of them; there are at most as many
as workers, and none only if there are no items; all but the last are of the same size, which the
last does not exceed. The division that gives this size gives at most the length, the size is at
least one, and a step of it from where a range starts leads at most to twice the length. No operation
fails except such a step, and this only where it leads beyond the largest number, so not where twice
the length is to be had. -/
theorem chunkRanges_partition (len workers : Nat) :
    Tiles 0 len (chunkRanges len workers) ∧
      (∀ i, (chunkRanges len workers).countP (covers i) = if i < len then 1 else 0) ∧
      (chunkRanges len workers).length ≤ max 1 workers ∧
      (chunkRanges len workers = [] ↔ len = 0) ∧
      (∀ r ∈ (chunkRanges len workers).dropLast, r.2 = r.1 + chunkSize len workers) ∧
      (∀ r ∈ chunkRanges len workers, r.2 ≤ r.1 + chunkSize len workers ∧
        r.1 + chunkSize len workers ≤ 2 * len) ∧
      (∃ share ≤ len, Checked.divideUp len (clampedWorkers len workers) = .ok share ∧
        chunkSize len workers = max share 1) ∧
      (∀ largest, Checked.ranges largest len workers =
        if ∀ r ∈ chunkRanges len workers, r.1 + chunkSize len workers ≤ largest then
          .ok (chunkRanges len workers)
        else .error .overflow) ∧
      ∀ largest, 2 * len ≤ largest →
        Checked.ranges largest len workers = .ok (chunkRanges len workers) := by
  have htiles := chunkRanges_tiles len workers
  obtain ⟨hsame, hlast⟩ := chunkRanges_sizes len workers
  refine ⟨htiles, ?_, length_chunkRanges_le len workers, ?_, hsame, ?_, ?_,
    fun largest => Checked.ranges_eq largest len workers,
    fun largest h => Checked.ranges_eq_ok h workers⟩
  · intro i
    simpa using htiles.countP_covers i
  · exact htiles.eq_nil_iff.trans eq_comm
  · intro r hr
    exact ⟨hlast r hr, chunkRanges_start_add_le hr⟩
  · have hdivide := Checked.divideUp_eq (clampedWorkers_pos len workers) len
    exact ⟨_, share_le len workers, hdivide, chunkSize_eq len workers⟩

/-- Eleven items for seven workers: six ranges are enough, and the last is the smaller one. -/
theorem chunkRanges_partition_eleven :
    let ranges := [(0, 2), (2, 4), (4, 6), (6, 8), (8, 10), (10, 11)]
    2 * 11 ≤ 2 ^ 64 - 1 ∧ Checked.ranges (2 ^ 64 - 1) 11 7 = .ok ranges ∧ Tiles 0 11 ranges ∧
      ranges.length ≤ max 1 7 := by
  intro ranges
  have hroom : 2 * 11 ≤ 2 ^ 64 - 1 := by decide
  obtain ⟨htiles, -, hlength, -, -, -, -, -, hchecked⟩ := chunkRanges_partition 11 7
  have hranges : chunkRanges 11 7 = ranges := by decide
  rw [hranges] at htiles hlength hchecked
  exact ⟨hroom, hchecked _ hroom, htiles, hlength⟩

/-- The length alone is not enough: the step from the second of two chunks leads past it. -/
example : Checked.ranges 15 15 2 = .error .overflow := by decide

end EmbeddingSearch
