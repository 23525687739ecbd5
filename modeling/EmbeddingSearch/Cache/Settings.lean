/-!
# Limits of the cache

How much the cache may hold and for how long, and what a set of vectors is estimated to take.
-/

namespace EmbeddingSearch

/-- The limits of a cache. -/
structure CacheSettings where
  /-- The memory budget in megabytes. -/
  budgetMb : Float := 500
  /-- The most vectors that one entry may hold. -/
  maxVectors : Nat := 50000
  /-- The seconds without use after which an entry expires. -/
  idleSecs : Nat := 600
  /-- The estimated size of a vector in bytes. -/
  bytesPerVector : Nat := 6200
deriving DecidableEq, Repr

namespace CacheSettings

def bytesPerMb : Float := 1048576

/-- The estimated size of `count` vectors in megabytes. -/
def estimateMb (s : CacheSettings) (count : Nat) : Float :=
  Float.ofNat count * Float.ofNat s.bytesPerVector / bytesPerMb

/-- The milliseconds without use after which an entry expires. -/
def idleMs (s : CacheSettings) : Nat := s.idleSecs * 1000

/-- The size of a set of `count` vectors, or `none` when it may not be cached at all. -/
def admittedMb? (s : CacheSettings) (count : Nat) : Option Float :=
  if count > s.maxVectors then none
  else
    let size := s.estimateMb count
    if size > s.budgetMb then none else some size

end CacheSettings

end EmbeddingSearch
