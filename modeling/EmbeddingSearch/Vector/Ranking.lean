import EmbeddingSearch.Numeric.Binary

/-!
# Ranking

The order in which results are shown, and the best of them.

## Contents
- `Scored`: a record with its similarity to the query.
- `compareScores`: similarities in ascending order, with NaN above all numbers.
- `Scored.compare`: most similar first, and by id among equally similar ones.
- `ranked`, `best`: all results in that order, and the first of them.
-/

namespace EmbeddingSearch

/-- A record with its similarity to the query. -/
structure Scored where
  recordId : String
  similarity : Float32
deriving DecidableEq, Repr

/-- Ascending order of similarities. NaN is the greatest and equal to itself; both zeros are
equal. -/
def compareScores (x y : Float32) : Ordering :=
  if x < y then .lt
  else if y < x then .gt
  else if x == y then .eq
  else if x.isNaN then
    if y.isNaN then .eq else .gt
  else .lt

/-- The ranking order: descending similarity, then ascending id. -/
def Scored.compare (a b : Scored) : Ordering :=
  (compareScores b.similarity a.similarity).then (Ord.compare a.recordId b.recordId)

/-- Whether `a` may stand before `b` in a ranking. -/
def Scored.le (a b : Scored) : Bool := (a.compare b).isLE

/-- The results in ranking order. -/
def ranked (results : List Scored) : List Scored := results.mergeSort Scored.le

/-- How many results are kept when no limit is asked for. -/
def defaultLimit : Nat := 10

/-- The first results of the ranking; a limit of zero stands for `defaultLimit`. -/
def best (results : List Scored) (limit : Nat) : List Scored :=
  (ranked results).take (if limit = 0 then defaultLimit else limit)

end EmbeddingSearch
