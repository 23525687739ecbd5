import EmbeddingSearch.Json.Shape
import EmbeddingSearch.Store.Table

/-!
# Written forms of stored vectors

Payloads and rows as JSON values. Writing a payload and reading it back may change its encoding,
but not what it decodes to.
-/

namespace EmbeddingSearch

/-- A vector as an array of numbers. -/
def Embedding.toJson (v : Embedding) : Json := .array (v.map fun x => Json.ofFloat (widen x))

namespace Payload

def toJson : Payload → Json
  | .single v => Embedding.toJson v
  | .double v => .array (v.map Json.ofFloat)
  | .raw v => v

/-- Every value is a payload of some encoding. -/
def read : Json.Reader Payload := fun v => .ok (ofJson v)

end Payload

def Timestamp.read : Json.Reader Timestamp
  | .string s =>
    match parse s with
    | .ok t => .ok t
    | .error e => .error (.invalidText e.message)
  | _ => .error .invalidType

namespace Row

def toJson (r : Row) : Json := Json.ofMembers
  [("recordId", .string r.recordId), ("datasetId", .string r.dataset),
    ("fieldName", .string r.field), ("data", r.payload.toJson), ("model", .string r.model),
    ("dimensions", Json.ofNat r.dimensions), ("updatedAt", .string r.updatedAt.text)]

def shape : Json.Shape Row :=
  Row.mk <$> .required "recordId" Json.readText <*> .required "datasetId" Json.readText
    <*> .required "fieldName" Json.readText <*> .required "data" Payload.read
    <*> .required "model" Json.readText <*> .required "dimensions" Json.readNat
    <*> .required "updatedAt" Timestamp.read

end Row

end EmbeddingSearch
