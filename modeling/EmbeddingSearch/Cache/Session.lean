import EmbeddingSearch.Cache.Report

/-!
# Runs of the cache

A run of cache operations against a clock that only moves when it is told to. Generations are kept
under names, so that a later operation of the run can refer to an earlier point of it.

## Contents
- `Cache.Step`, `Cache.Outcome`: one operation of a run, and what it gives.
- `Cache.Session.step`, `Cache.Session.run`: its effect, and that of a list of them.
-/

namespace EmbeddingSearch

namespace Cache

/-- An operation of a run. -/
inductive Step where
  | get (key : FieldKey)
  | set (key : FieldKey) (candidates : List Candidate)
  | setIfUnchanged (key : FieldKey) (candidates : List Candidate) (slot : String)
  /-- Takes the generation, compares it with that in another slot, and keeps it. -/
  | generation (slot : String) (than : Option String)
  | invalidate (key : FieldKey)
  | invalidateDataset (dataset : String)
  | clear
  | advance (ms : Nat)
  | stats
  | info
  | settings

/-- What an operation gives. -/
inductive Outcome where
  | done
  | stored (accepted : Bool)
  | found (candidates : Option (List Candidate))
  | compared (order : Option Ordering)
  | stats (stats : CacheStats)
  | info (info : CacheInfo)
  | settings (settings : CacheSettings)

/-- A cache, the time, and the generations that were kept. -/
structure Session where
  cache : Cache
  now : Nat := 0
  slots : List (String × Generation) := []

namespace Session

/-- The generation kept in a slot, or that before every invalidation. -/
def slot (s : Session) (name : String) : Generation := (s.slots.lookup name).getD ⟨0⟩

def step (s : Session) : Step → Outcome × Session
  | .get k =>
    let (found, c) := s.cache.get s.now k
    (.found found, { s with cache := c })
  | .set k candidates =>
    let (accepted, c) := s.cache.set s.now k candidates
    (.stored accepted, { s with cache := c })
  | .setIfUnchanged k candidates slot =>
    let (accepted, c) := s.cache.setIfUnchanged s.now k candidates (s.slot slot)
    (.stored accepted, { s with cache := c })
  | .generation slot than =>
    let g := s.cache.generation
    let order := (than.bind fun name => s.slots.lookup name).map g.compare
    (.compared order, { s with slots := (slot, g) :: s.slots })
  | .invalidate k => (.done, { s with cache := s.cache.invalidate k })
  | .invalidateDataset d => (.done, { s with cache := s.cache.invalidateDataset d })
  | .clear => (.done, { s with cache := s.cache.clear })
  | .advance ms => (.done, { s with now := s.now + ms })
  | .stats => (.stats (s.cache.stats s.now), s)
  | .info => (.info s.cache.info, s)
  | .settings => (.settings s.cache.settings, s)

/-- The session after a run. -/
def run (s : Session) (steps : List Step) : Session := steps.foldl (fun s x => (s.step x).2) s

end Session

end Cache

end EmbeddingSearch
