import EmbeddingSearch.Service.Basic

/-!
# Searching

The records that are most similar to a text or to another record.

## Contents
- `SearchRequest.fieldIn`: the field of a search.
- `SearchRequest.query`: what a search compares with.
- `Action.queryVector`: the vector of that.
- `Loaded.ofRows`, `Action.candidates`: the candidates, from the cache or from the store.
- `Service.search`: the search.
-/

namespace EmbeddingSearch

/-- The name under which the vectors of a search are stored. -/
def SearchRequest.fieldIn (r : SearchRequest) (d : Dataset) : Except ServiceError String :=
  match r.mode with
  | .record => .ok wholeRecord
  | .field =>
    match nonEmpty r.field with
    | none => .error .searchFieldMissing
    | some name =>
      match d.field? name with
      | some f => .ok f.name
      | none => .error (.fieldNotFound name d.name)

/-- What candidates are compared with. -/
inductive QuerySource where
  | text (text : String)
  | record (id : String)
deriving DecidableEq, Repr

/-- The record that is not a result of its own search. -/
def QuerySource.exclude : QuerySource → Option String
  | .text _ => none
  | .record id => some id

/-- A search is by a text or by a record, and not by both. -/
def SearchRequest.query (r : SearchRequest) : Except ServiceError QuerySource :=
  match nonEmpty r.text, nonEmpty r.recordId with
  | some _, some _ => .error .ambiguousQuery
  | some text, none => .ok (.text text)
  | none, some id => .ok (.record id)
  | none, none => .error .queryMissing

/-! ## The query -/

/-- The vector that the provider gives for a text. -/
def Service.embedText (s : Service) (text : String) : Action Query := do
  s.requireProvider
  let response ← Action.embed (s.embeddingRequest [text] s.settings.ai.queryTimeoutSecs)
  match response.embeddings with
  | v :: _ => pure (.ofVector v)
  | [] => .fail (.embedding (.invalidResponse "no embedding returned for query text"))

/-- The stored vector of a record. -/
def Action.storedQuery (recordId field : String) : Action Query := do
  let found ← orFail (.ask (.findRow recordId field))
  let row ← orElse found (.vectorNotFound recordId field)
  match row.payload.decode with
  | .ok v => pure (.ofVector v)
  | .error e => fail (.decode e)

/-- The vector of a query. -/
def Service.queryVector (s : Service) (source : QuerySource) (field : String) : Action Query :=
  match source with
  | .text text => s.embedText text
  | .record id => .storedQuery id field

/-! ## The candidates -/

/-- Candidates with the account of how they were come by. -/
structure Loaded where
  candidates : List Candidate := []
  stored : Nat := 0
  failed : Nat := 0
  errors : List String := []
  hit : Bool := false
  skipped : Bool := false
deriving DecidableEq, Repr

/-- How many failures are shown. -/
def maxErrorSamples : Nat := 3

/-- The candidate of a row, or the reason why there is none. -/
def Row.candidate (r : Row) : Except String Candidate :=
  match r.payload.decode with
  | .ok v => .ok (.ofVector r.recordId v)
  | .error e => .error s!"record {r.recordId}: {e.message}"

def candidate? : Except String Candidate → Option Candidate
  | .ok c => some c
  | .error _ => none

def failure? : Except String Candidate → Option String
  | .ok _ => none
  | .error e => some e

/-- The candidates of some rows. A row that cannot be decoded is left out and counted, and the
first of the reasons are kept. -/
def Loaded.ofRows (rows : List Row) : Loaded :=
  let decoded := rows.map Row.candidate
  let failures := decoded.filterMap failure?
  { candidates := decoded.filterMap candidate?
    stored := rows.length
    failed := failures.length
    errors := failures.take maxErrorSamples }

/-- The candidates of a field. Those that are not in the cache are loaded from the store and put
there, unless they were invalidated in between. -/
def Action.candidates (k : FieldKey) : Action Loaded := do
  match ← of (.ask (.cached k)) with
  | some cs => pure { candidates := cs, stored := cs.length, hit := true }
  | none =>
    let since ← of (.ask .generation)
    let rows ← orFail (.ask (.findRows k.dataset k.field))
    let loaded := Loaded.ofRows rows
    let kept ← of (.ask (.cacheIfUnchanged k loaded.candidates since))
    pure { loaded with skipped := !kept }

/-! ## The search -/

/-- The records most similar to the query of a request, with an account of the search. -/
def Service.search (s : Service) (r : SearchRequest) : Action SearchAnswer := do
  s.requireEnabled
  let d ← Action.dataset r.dataset
  let field ← Action.orFail (pure (r.fieldIn d))
  let limit := s.settings.query.resolve r.limit
  let source ← Action.orFail (pure r.query)
  let query ← s.queryVector source field
  let loaded ← Action.candidates ⟨d.id, field⟩
  let scores := rank s.workers query loaded.candidates source.exclude
  let info ← Action.of (.ask .cacheInfo)
  pure
    { results := best scores limit
      diagnostics :=
        { dataset := d.id
          field := field
          queryLength := query.vector.length
          stored := loaded.stored
          processed := scores.length
          failed := loaded.failed
          cacheHit := loaded.hit
          cacheSkipped := loaded.skipped
          cache := some info
          errors := loaded.errors } }

end EmbeddingSearch
