import EmbeddingSearch.Cache.Basic

/-!
# Reports on the cache

Snapshots of what the cache holds; taking one changes nothing.
-/

namespace EmbeddingSearch

/-- What a cache holds, in short. -/
structure CacheInfo where
  entries : Nat
  usedMb : Float
  budgetMb : Float
  usagePercent : Float
deriving DecidableEq, Repr

/-- One entry in a report. -/
structure EntryStats where
  key : String
  count : Nat
  sizeMb : Float
  /-- Milliseconds since the entry was stored. -/
  ageMs : Nat
  /-- Milliseconds since the entry was last used. -/
  idleMs : Nat
deriving DecidableEq, Repr

/-- What a cache holds, entry by entry. -/
structure CacheStats where
  entriesCount : Nat
  totalVectors : Nat
  usedMb : Float
  budgetMb : Float
  usagePercent : Float
  maxVectors : Nat
  idleSecs : Nat
  entries : List EntryStats
deriving DecidableEq, Repr

namespace Cache

/-- The used part of a budget in percent; of a budget that is not positive nothing is used. -/
def usagePercent (usedMb budgetMb : Float) : Float :=
  if budgetMb > 0 then usedMb / budgetMb * 100 else 0

def info (c : Cache) : CacheInfo where
  entries := c.entries.length
  usedMb := c.usedMb
  budgetMb := c.settings.budgetMb
  usagePercent := usagePercent c.usedMb c.settings.budgetMb

/-- The longest time that can be reported. -/
def maxMs : Nat := 18446744073709551615

def Entry.stats (now : Nat) (e : Entry) : EntryStats where
  key := e.key.text
  count := e.candidates.length
  sizeMb := e.sizeMb
  ageMs := min (now - e.createdAt) maxMs
  idleMs := min (now - e.usedAt) maxMs

def stats (c : Cache) (now : Nat) : CacheStats where
  entriesCount := c.entries.length
  totalVectors := (c.entries.flatMap Entry.candidates).length
  usedMb := c.usedMb
  budgetMb := c.settings.budgetMb
  usagePercent := usagePercent c.usedMb c.settings.budgetMb
  maxVectors := c.settings.maxVectors
  idleSecs := c.settings.idleSecs
  entries := c.entries.map (Entry.stats now)

end Cache

end EmbeddingSearch
