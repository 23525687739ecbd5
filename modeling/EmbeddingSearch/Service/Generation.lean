import EmbeddingSearch.Catalog.RecordText
import EmbeddingSearch.Service.Basic

/-!
# Generating vectors

Embedding the text of records, in batches, and storing one vector for each of them.

## Contents
- `GenerationRequest.target`: what a run embeds.
- `Action.selected`: the records of a run.
- `textsOf`, `batches`: their texts, and the batches these are sent in.
- `Program.storeVectors`, `Program.runBatch`, `Program.runBatches`: one vector after the other, one
  batch after the other. A failure is noted, and the run goes on.
- `GenerationReport.capped`: a bounded number of errors.
- `Service.generate`: the run.
-/

namespace EmbeddingSearch

/-! ## What is embedded -/

/-- The field of a run, or none for whole records. -/
def GenerationRequest.target (r : GenerationRequest) (d : Dataset) :
    Except ServiceError (Option Field) :=
  match r.mode with
  | .record => .ok none
  | .field =>
    match nonEmpty r.field with
    | none => .error .generationFieldMissing
    | some name =>
      match d.field? name with
      | none => .error (.fieldNotFound name d.name)
      | some f => if f.isEmbeddable then .ok (some f) else .error (.fieldNotEmbeddable name)

/-- The name under which the vectors of a run are stored. -/
def targetName : Option Field → String
  | some f => f.name
  | none => wholeRecord

/-- The records with these ids, in this order. An id without a record is passed over. -/
def Action.recordsOf (dataset : String) : List String → Action (List Record)
  | [] => pure []
  | id :: ids => do
    let found ← orFail (.ask (.findRecord dataset id))
    let rest ← recordsOf dataset ids
    match found with
    | some r => pure (r :: rest)
    | none => pure rest

/-- The records of a run: those that are named, or all. -/
def Action.selected (r : GenerationRequest) (dataset : String) : Action (List Record) :=
  match r.recordIds with
  | some (id :: ids) => recordsOf dataset (id :: ids)
  | _ => orFail (.ask (.listRecords dataset))

/-- The text of a record with its id. -/
structure RecordText where
  recordId : String
  text : String
deriving DecidableEq, Repr

/-- The text of a record for a run. -/
def Service.textOf (s : Service) (r : GenerationRequest) (d : Dataset) (target : Option Field)
    (record : Record) : String :=
  match target with
  | some f => record.fieldText f
  | none => record.render d r.template s.settings.generation.maxFieldChars

/-- The texts of the records that have one. -/
def Service.textsOf (s : Service) (r : GenerationRequest) (d : Dataset) (target : Option Field)
    (records : List Record) : List RecordText :=
  (records.map fun record => ⟨record.id, s.textOf r d target record⟩).filter
    fun t => !t.text.isEmpty

/-! ## Batches -/

/-- A list in consecutive parts of `size` elements, the last of which may be shorter. A size of zero
counts as one. -/
def batches {α : Type} (size : Nat) (xs : List α) : List (List α) :=
  match xs with
  | [] => []
  | x :: rest => (x :: rest.take (size - 1)) :: batches size (rest.drop (size - 1))
termination_by xs.length
decreasing_by simp only [List.length_drop, List.length_cons]; omega

/-- What is the same for all vectors of a run. -/
structure Run where
  dataset : String
  field : String
  model : String
deriving DecidableEq, Repr

/-- The vector of a record in a run. -/
def Run.newVector (run : Run) (recordId : String) (v : Embedding) : NewVector :=
  ⟨recordId, run.dataset, run.field, v, run.model, v.length⟩

namespace GenerationReport

/-- One more vector is stored. -/
def addGenerated (g : GenerationReport) : GenerationReport :=
  { g with generated := g.generated + 1 }

/-- So many more records are without a vector, for one more reason. -/
def addSkipped (g : GenerationReport) (n : Nat) (error : String) : GenerationReport :=
  { g with skipped := g.skipped + n, errors := g.errors ++ [error] }

/-- At most `max` errors, and one more line with the number of those that are left out. -/
def capped (g : GenerationReport) (max : Nat) : GenerationReport :=
  let more := g.errors.length - max
  if more = 0 then g
  else { g with errors := g.errors.take max ++ [s!"... and {more} more errors"] }

end GenerationReport

namespace Program

/-- Stores vectors one after the other, each of them followed by the invalidation of the field. -/
def storeVectors (run : Run) (report : GenerationReport) :
    List (String × Embedding) → Program GenerationReport
  | [] => pure report
  | (recordId, v) :: rest => do
    match ← ask (.upsert (run.newVector recordId v)) with
    | .ok () =>
      ask (.invalidate ⟨run.dataset, run.field⟩)
      storeVectors run report.addGenerated rest
    | .error e =>
      storeVectors run (report.addSkipped 1 s!"record {recordId}: {e.message}") rest

/-- The report when a batch of `expected` texts got `returned` vectors. -/
def noteShortage (report : GenerationReport) (expected returned : Nat) : GenerationReport :=
  if returned < expected then
    report.addSkipped (expected - returned)
      s!"batch error: provider returned {returned} embeddings for {expected} texts"
  else report

/-- Embeds a batch and stores its vectors; the first vector belongs to the first text and so on. -/
def runBatch (request : List String → EmbeddingRequest) (run : Run) (report : GenerationReport)
    (batch : List RecordText) : Program GenerationReport := do
  match ← ask (.embed (request (batch.map RecordText.text))) with
  | .error e => pure (report.addSkipped batch.length s!"batch error: {e.message}")
  | .ok response =>
    storeVectors run (noteShortage report batch.length response.embeddings.length)
      ((batch.map RecordText.recordId).zip response.embeddings)

/-- Embeds and stores batches one after the other. -/
def runBatches (request : List String → EmbeddingRequest) (run : Run)
    (report : GenerationReport) : List (List RecordText) → Program GenerationReport
  | [] => pure report
  | batch :: rest => do
    let report ← runBatch request run report batch
    runBatches request run report rest

end Program

/-! ## The run -/

/-- Makes and stores the vectors of the records that a request asks for. -/
def Service.generate (s : Service) (r : GenerationRequest) : Action GenerationReport := do
  s.requireProvider
  let d ← Action.dataset r.dataset
  let target ← Action.orFail (pure (r.target d))
  let records ← Action.selected r d.id
  let texts := s.textsOf r d target records
  let start : GenerationReport := { skipped := records.length - texts.length }
  let run : Run := ⟨d.id, targetName target, s.settings.ai.model⟩
  let request := fun texts => s.embeddingRequest texts s.settings.ai.generationTimeoutSecs
  let report ← Action.of
    (Program.runBatches request run start (batches s.settings.generation.batchSize texts))
  pure (report.capped s.settings.generation.maxErrors)

end EmbeddingSearch
