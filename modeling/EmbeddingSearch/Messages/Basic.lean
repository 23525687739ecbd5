import EmbeddingSearch.Cache.Report
import EmbeddingSearch.Catalog.Basic

/-!
# Requests and answers

What callers ask of the service and what they get.
-/

namespace EmbeddingSearch

/-- Whether vectors stand for a single field or for whole records. -/
inductive Mode where
  | field
  | record
deriving DecidableEq, Repr

/-- The field name under which the vectors of whole records are stored. -/
def wholeRecord : String := "_record"

/-- Asks for the vectors of records to be made and stored. -/
structure GenerationRequest where
  /-- The id or the name of a dataset. -/
  dataset : String
  field : Option String := none
  mode : Mode := .field
  /-- The records that are meant; all when there are none. -/
  recordIds : Option (List String) := none
  /-- How the text of a whole record is put together. -/
  template : Option String := none
deriving DecidableEq, Repr

/-- What became of the records. -/
structure GenerationReport where
  generated : Nat := 0
  skipped : Nat := 0
  errors : List String := []
deriving DecidableEq, Repr

/-- Asks for the records that are most similar to a text or to a record. -/
structure SearchRequest where
  /-- The id or the name of a dataset. -/
  dataset : String
  field : Option String := none
  mode : Mode := .field
  text : Option String := none
  recordId : Option String := none
  limit : Option Int := none
deriving DecidableEq, Repr

/-- How a search went. -/
structure Diagnostics where
  dataset : String
  field : String
  /-- The length of the query vector. -/
  queryLength : Nat
  /-- How many vectors there were, those included that could not be decoded. -/
  stored : Nat := 0
  /-- How many candidates were scored. -/
  processed : Nat := 0
  /-- How many vectors could not be decoded. -/
  failed : Nat := 0
  cacheHit : Bool := false
  /-- Whether the candidates were loaded but not cached. -/
  cacheSkipped : Bool := false
  cache : Option CacheInfo := none
  /-- The first of the failures. -/
  errors : List String := []
deriving DecidableEq, Repr

/-- The results of a search, best first. -/
structure SearchAnswer where
  results : List Scored
  diagnostics : Diagnostics
deriving DecidableEq, Repr

/-- How many records of a dataset have a vector. -/
structure Coverage where
  total : Nat
  embedded : Nat
  missing : Nat
deriving DecidableEq, Repr

/-- A field that can be embedded. -/
structure EmbeddableField where
  name : String
  kind : FieldKind
deriving DecidableEq, Repr

/-! ## Making requests -/

namespace SearchRequest

/-- A search by text in a field. -/
def byText (dataset field text : String) : SearchRequest :=
  { dataset, field := some field, text := some text }

/-- A search by a record in a field. -/
def byRecord (dataset field recordId : String) : SearchRequest :=
  { dataset, field := some field, recordId := some recordId }

/-- The same search among whole records. -/
def overRecords (r : SearchRequest) : SearchRequest := { r with mode := .record, field := none }

def withLimit (r : SearchRequest) (n : Int) : SearchRequest := { r with limit := some n }

end SearchRequest

namespace GenerationRequest

/-- Asks for the vectors of a field. -/
def ofField (dataset field : String) : GenerationRequest := { dataset, field := some field }

/-- Asks for the vectors of whole records. -/
def ofRecords (dataset : String) : GenerationRequest := { dataset, mode := .record }

def withRecordIds (r : GenerationRequest) (ids : List String) : GenerationRequest :=
  { r with recordIds := some ids }

def withTemplate (r : GenerationRequest) (t : String) : GenerationRequest :=
  { r with template := some t }

end GenerationRequest

end EmbeddingSearch
