import EmbeddingSearch.Cache.Json
import EmbeddingSearch.Catalog.Json
import EmbeddingSearch.Messages.Basic

/-!
# Written forms of requests and answers

Members that are absent, false or empty by default are not written, and may be left out when read.
-/

namespace EmbeddingSearch

namespace Json

/-- A member that is only written when there is a value. -/
def memberOf {α : Type} (name : String) (write : α → Json) : Option α → List (String × Json)
  | some a => [(name, write a)]
  | none => []

/-- A member that is only written when the list is not empty. -/
def memberOfList {α : Type} (name : String) (write : α → Json) : List α → List (String × Json)
  | [] => []
  | a :: as => [(name, .array ((a :: as).map write))]

/-- Reads a member that may be left out or null. -/
def maybe {α : Type} (name : String) (read : Reader α) : Shape (Option α) :=
  .withDefault name (readOption read) none

end Json

namespace Mode

/-- The names of the modes. -/
def choice : Json.Choice Mode := [("field", .field), ("record", .record)]

def name : Mode → String
  | .field => "field"
  | .record => "record"

def toJson (m : Mode) : Json := .string m.name

def read : Json.Reader Mode := Json.readChoice choice

end Mode

namespace GenerationRequest

def toJson (r : GenerationRequest) : Json := Json.ofMembers <|
  [("datasetId", .string r.dataset)] ++ Json.memberOf "fieldName" .string r.field ++
    [("mode", r.mode.toJson)] ++
    Json.memberOf "recordIds" (fun ids => .array (ids.map .string)) r.recordIds ++
    Json.memberOf "template" .string r.template

def shape : Json.Shape GenerationRequest :=
  GenerationRequest.mk <$> .required "datasetId" Json.readText
    <*> Json.maybe "fieldName" Json.readText <*> .withDefault "mode" Mode.read .field
    <*> Json.maybe "recordIds" (Json.readList Json.readText)
    <*> Json.maybe "template" Json.readText

end GenerationRequest

namespace GenerationReport

def toJson (r : GenerationReport) : Json := Json.ofMembers <|
  [("generated", Json.ofNat r.generated), ("skipped", Json.ofNat r.skipped)] ++
    Json.memberOfList "errors" .string r.errors

def shape : Json.Shape GenerationReport :=
  GenerationReport.mk <$> .required "generated" Json.readNat
    <*> .required "skipped" Json.readNat
    <*> .withDefault "errors" (Json.readList Json.readText) []

end GenerationReport

namespace SearchRequest

def toJson (r : SearchRequest) : Json := Json.ofMembers <|
  [("datasetId", .string r.dataset)] ++ Json.memberOf "fieldName" .string r.field ++
    [("mode", r.mode.toJson)] ++ Json.memberOf "text" .string r.text ++
    Json.memberOf "recordId" .string r.recordId ++ Json.memberOf "limit" Json.ofInt r.limit

def shape : Json.Shape SearchRequest :=
  SearchRequest.mk <$> .required "datasetId" Json.readText
    <*> Json.maybe "fieldName" Json.readText <*> .withDefault "mode" Mode.read .field
    <*> Json.maybe "text" Json.readText <*> Json.maybe "recordId" Json.readText
    <*> Json.maybe "limit" Json.readInt64

end SearchRequest

namespace Scored

def toJson (s : Scored) : Json := Json.ofMembers
  [("recordId", .string s.recordId), ("similarity", Json.ofFloat (widen s.similarity))]

def shape : Json.Shape Scored :=
  Scored.mk <$> .required "recordId" Json.readText
    <*> .required "similarity" Json.readFloat32

end Scored

namespace Diagnostics

def toJson (d : Diagnostics) : Json := Json.ofMembers <|
  [("datasetId", .string d.dataset), ("fieldName", .string d.field),
    ("queryEmbeddingLen", Json.ofNat d.queryLength), ("storedEmbeddings", Json.ofNat d.stored),
    ("processedCount", Json.ofNat d.processed), ("errorCount", Json.ofNat d.failed),
    ("cacheHit", .bool d.cacheHit)] ++
    (if d.cacheSkipped then [("cacheSkipped", .bool true)] else []) ++
    Json.memberOf "cacheStats" CacheInfo.toJson d.cache ++
    Json.memberOfList "errors" .string d.errors

def shape : Json.Shape Diagnostics :=
  Diagnostics.mk <$> .required "datasetId" Json.readText <*> .required "fieldName" Json.readText
    <*> .required "queryEmbeddingLen" Json.readNat
    <*> .required "storedEmbeddings" Json.readNat
    <*> .required "processedCount" Json.readNat <*> .required "errorCount" Json.readNat
    <*> .required "cacheHit" Json.readBool <*> .withDefault "cacheSkipped" Json.readBool false
    <*> Json.maybe "cacheStats" CacheInfo.shape.read
    <*> .withDefault "errors" (Json.readList Json.readText) []

end Diagnostics

namespace SearchAnswer

def toJson (a : SearchAnswer) : Json := Json.ofMembers
  [("results", .array (a.results.map Scored.toJson)), ("debug", a.diagnostics.toJson)]

def shape : Json.Shape SearchAnswer :=
  SearchAnswer.mk <$> .required "results" (Json.readList Scored.shape.read)
    <*> .required "debug" Diagnostics.shape.read

end SearchAnswer

namespace Coverage

def toJson (c : Coverage) : Json := Json.ofMembers
  [("totalRecords", Json.ofNat c.total), ("embeddedRecords", Json.ofNat c.embedded),
    ("notEmbeddedRecords", Json.ofNat c.missing)]

def shape : Json.Shape Coverage :=
  Coverage.mk <$> .required "totalRecords" Json.readNat
    <*> .required "embeddedRecords" Json.readNat
    <*> .required "notEmbeddedRecords" Json.readNat

end Coverage

namespace EmbeddableField

def toJson (f : EmbeddableField) : Json := Json.ofMembers
  [("name", .string f.name), ("kind", f.kind.toJson)]

def shape : Json.Shape EmbeddableField :=
  EmbeddableField.mk <$> .required "name" Json.readText <*> .required "kind" FieldKind.read

end EmbeddableField

end EmbeddingSearch
