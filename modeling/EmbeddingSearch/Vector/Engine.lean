import EmbeddingSearch.Vector.Similarity
import EmbeddingSearch.Vector.Ranking

/-!
# Scoring a set of candidates

A query is scored against a set of candidates in contiguous chunks, one for each worker, which are
independent of one another.

## Contents
- `Query`, `Candidate`: vectors with their magnitudes computed once.
- `chunkRanges`: the ranges that a set is split into.
- `scoreChunk`, `chunkScores`, `rank`: the scores of one chunk, of every chunk, and of the set.
-/

namespace EmbeddingSearch

/-- A query vector with its magnitude. -/
structure Query where
  vector : Embedding
  magnitude : Float32
deriving DecidableEq, Repr

def Query.ofVector (v : Embedding) : Query := ⟨v, EmbeddingSearch.magnitude v⟩

/-- The vector of a record with its magnitude. -/
structure Candidate where
  recordId : String
  vector : Embedding
  magnitude : Float32
deriving DecidableEq, Repr

def Candidate.ofVector (recordId : String) (v : Embedding) : Candidate :=
  ⟨recordId, v, EmbeddingSearch.magnitude v⟩

/-- The similarity of a candidate to the query. -/
def Query.score (q : Query) (c : Candidate) : Scored :=
  ⟨c.recordId, cosineWith q.vector q.magnitude c.vector c.magnitude⟩

/-! ## Chunks -/

/-- The size of the chunks that `len` items are split into for so many workers. -/
def chunkSize (len workers : Nat) : Nat :=
  let workers := min (max workers 1) (max len 1)
  max ((len + workers - 1) / workers) 1

/-- At most `workers` consecutive non-empty ranges, each given by its start and its end, that cover
`len` items. -/
def chunkRanges (len workers : Nat) : List (Nat × Nat) :=
  let size := chunkSize len workers
  (List.range ((len + size - 1) / size)).map fun i => (i * size, min (i * size + size) len)

/-- The items of a range. -/
def slice {α : Type} (xs : List α) (range : Nat × Nat) : List α :=
  (xs.take range.2).drop range.1

/-! ## Scores -/

/-- The scores of a chunk, without the excluded record. -/
def scoreChunk (query : Query) (exclude : Option String) (chunk : List Candidate) :
    List Scored :=
  (chunk.filter fun c => exclude ≠ some c.recordId).map query.score

/-- The scores of every chunk. -/
def chunkScores (workers : Nat) (query : Query) (candidates : List Candidate)
    (exclude : Option String) : List (List Scored) :=
  (chunkRanges candidates.length workers).map fun r =>
    scoreChunk query exclude (slice candidates r)

/-- The scores of all candidates except the excluded one, in no order that matters: the chunks may
be put together in any order. -/
def rank (workers : Nat) (query : Query) (candidates : List Candidate)
    (exclude : Option String) : List Scored :=
  (chunkScores workers query candidates exclude).flatten

/-- How many workers score when none are asked for. -/
def defaultWorkers : Nat := 1

end EmbeddingSearch
