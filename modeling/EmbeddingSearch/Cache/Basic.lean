import EmbeddingSearch.Cache.Settings
import EmbeddingSearch.Cache.Invalidations
import EmbeddingSearch.Vector.Engine

/-!
# The cache of candidate sets

One entry holds the candidates of a field of a dataset, with their magnitudes. The cache keeps to a
memory budget by giving up the entries that were used least recently, and an entry that was not used
for a while expires when it is next asked for. Time is a number of milliseconds that the caller
supplies.

## Contents
- `Cache.Entry`, `Cache`: entries in the order of their last use, most recent first.
- `Cache.get`: a hit counts as use; an expired entry is removed.
- `Cache.set`, `Cache.setIfUnchanged`: what does not fit at all is refused, and for the rest room is
  made.
- `Cache.invalidate`, `Cache.invalidateDataset`, `Cache.clear`: removal, noted in the history.
-/

namespace EmbeddingSearch

/-- The candidates of one key. -/
structure Cache.Entry where
  key : FieldKey
  candidates : List Candidate
  sizeMb : Float
  createdAt : Nat
  usedAt : Nat
deriving DecidableEq, Repr

/-- The state of a cache. -/
structure Cache where
  settings : CacheSettings := {}
  /-- The entries, the most recently used first. -/
  entries : List Cache.Entry := []
  /-- The sizes of all entries together, as a running total. -/
  usedMb : Float := 0
  history : Invalidations := {}
deriving DecidableEq, Repr

namespace Cache

/-! ## Entries -/

def entry? (c : Cache) (k : FieldKey) : Option Entry := c.entries.find? fun e => e.key = k

def without (k : FieldKey) (entries : List Entry) : List Entry :=
  entries.filter fun e => e.key ≠ k

/-- The running total after an entry of the given size has left `rest` behind. With no entry left
it starts again from zero. -/
def release (totalMb sizeMb : Float) (rest : List Entry) : Float :=
  if rest.isEmpty then 0 else totalMb - sizeMb

/-- The cache without the entry of a key. -/
def remove (c : Cache) (k : FieldKey) : Cache :=
  match c.entry? k with
  | none => c
  | some e =>
    let rest := without k c.entries
    { c with entries := rest, usedMb := release c.usedMb e.sizeMb rest }

/-! ## Look-up -/

/-- Whether an entry was not used for longer than it may be. -/
def expired (c : Cache) (now : Nat) (e : Entry) : Bool := now - e.usedAt > c.settings.idleMs

/-- The candidates of a key. A hit makes the entry the most recently used one; an expired entry is
removed and missed. -/
def get (c : Cache) (now : Nat) (k : FieldKey) : Option (List Candidate) × Cache :=
  match c.entry? k with
  | none => (none, c)
  | some e =>
    if c.expired now e then (none, c.remove k)
    else
      (some e.candidates, { c with entries := { e with usedAt := now } :: without k c.entries })

/-! ## Storing -/

/-- Gives up entries, listed with the least recently used one first, until `sizeMb` more fits. -/
def evict (budgetMb sizeMb totalMb : Float) : List Entry → List Entry × Float
  | [] => ([], totalMb)
  | e :: rest =>
    if totalMb + sizeMb > budgetMb then evict budgetMb sizeMb (release totalMb e.sizeMb rest) rest
    else (e :: rest, totalMb)

/-- The cache with an entry of an admitted size in front, in place of an older one of its key. -/
def insert (c : Cache) (now : Nat) (k : FieldKey) (candidates : List Candidate)
    (sizeMb : Float) : Cache :=
  let c := c.remove k
  let (kept, total) := evict c.settings.budgetMb sizeMb c.usedMb c.entries.reverse
  { c with
    entries := ⟨k, candidates, sizeMb, now, now⟩ :: kept.reverse
    usedMb := total + sizeMb }

/-- Stores the candidates of a key, and says whether it did. Too many of them, or more than the
budget allows, are refused and change nothing. -/
def set (c : Cache) (now : Nat) (k : FieldKey) (candidates : List Candidate) : Bool × Cache :=
  match c.settings.admittedMb? candidates.length with
  | none => (false, c)
  | some sizeMb => (true, c.insert now k candidates sizeMb)

/-- The present point in the history of invalidations. -/
def generation (c : Cache) : Generation := c.history.now

/-- Stores candidates that were loaded after `since` was taken; they are refused if their key was
invalidated in between. -/
def setIfUnchanged (c : Cache) (now : Nat) (k : FieldKey) (candidates : List Candidate)
    (since : Generation) : Bool × Cache :=
  match c.settings.admittedMb? candidates.length with
  | none => (false, c)
  | some sizeMb =>
    if c.history.touchedSince k since then (false, c)
    else (true, c.insert now k candidates sizeMb)

/-! ## Removal -/

/-- Removes the entry of a key. -/
def invalidate (c : Cache) (k : FieldKey) : Cache :=
  { c with history := c.history.ofKey k }.remove k

/-- Removes every entry of a dataset, the most recently used one first. -/
def invalidateDataset (c : Cache) (d : String) : Cache :=
  let keys := (c.entries.filter fun e => e.key.dataset = d).map Entry.key
  keys.foldl remove { c with history := c.history.ofDataset d }

/-- Removes every entry. -/
def clear (c : Cache) : Cache :=
  { c with entries := [], usedMb := 0, history := c.history.ofAll }

end Cache

end EmbeddingSearch
