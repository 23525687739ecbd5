/-!
# The history of invalidations

What is kept of the past so that a set loaded before an invalidation is not put back after it.

## Contents
- `FieldKey`: what an entry is filed under.
- `Generation`: a point in the history, the number of invalidations before it.
- `Invalidations`: for every key and dataset the place of its latest invalidation, and the place of
  the latest clearing, which makes all earlier ones irrelevant.
- `Invalidations.touchedSince`: whether a key was invalidated after a generation was taken.
-/

namespace EmbeddingSearch

/-- A field of a dataset. -/
structure FieldKey where
  dataset : String
  field : String
deriving DecidableEq, Repr

/-- The written form of a key. -/
def FieldKey.text (k : FieldKey) : String := k.dataset ++ ":" ++ k.field

/-- A point in the history of invalidations. -/
structure Generation where
  invalidations : Nat
deriving DecidableEq, Repr

def Generation.compare (g h : Generation) : Ordering := Ord.compare g.invalidations h.invalidations

/-- The invalidations so far. -/
structure Invalidations where
  /-- How many there were. -/
  count : Nat := 0
  /-- The latest invalidation of each key since the last clearing. -/
  keys : List (FieldKey × Nat) := []
  /-- The latest invalidation of each dataset since the last clearing. -/
  datasets : List (String × Nat) := []
  /-- The last clearing. -/
  cleared : Nat := 0
deriving DecidableEq, Repr

namespace Invalidations

/-- A list of latest places with that of `k` set to `n`. -/
def mark {κ : Type} [DecidableEq κ] (k : κ) (n : Nat) (places : List (κ × Nat)) :
    List (κ × Nat) :=
  (k, n) :: places.filter fun p => p.1 ≠ k

/-- The latest place of `k`, zero if there is none. -/
def latest {κ : Type} [DecidableEq κ] (k : κ) (places : List (κ × Nat)) : Nat :=
  (places.lookup k).getD 0

def ofKey (h : Invalidations) (k : FieldKey) : Invalidations :=
  { h with count := h.count + 1, keys := mark k (h.count + 1) h.keys }

def ofDataset (h : Invalidations) (d : String) : Invalidations :=
  { h with count := h.count + 1, datasets := mark d (h.count + 1) h.datasets }

def ofAll (h : Invalidations) : Invalidations :=
  { count := h.count + 1, keys := [], datasets := [], cleared := h.count + 1 }

/-- The present point in the history. -/
def now (h : Invalidations) : Generation := ⟨h.count⟩

/-- Whether the key, its dataset or everything was invalidated after `since` was taken. -/
def touchedSince (h : Invalidations) (k : FieldKey) (since : Generation) : Bool :=
  h.cleared > since.invalidations || latest k h.keys > since.invalidations ||
    latest k.dataset h.datasets > since.invalidations

end Invalidations

end EmbeddingSearch
