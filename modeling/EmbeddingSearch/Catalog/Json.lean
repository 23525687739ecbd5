import EmbeddingSearch.Catalog.Basic
import EmbeddingSearch.Json.Shape

/-!
# Written forms of datasets and records

Schemas and records as JSON values.
-/

namespace EmbeddingSearch

namespace FieldKind

/-- The names of the kinds. -/
def choice : Json.Choice FieldKind :=
  [("text", .text), ("editor", .editor), ("email", .email), ("url", .url), ("number", .number),
    ("bool", .bool), ("json", .json), ("other", .other)]

def name : FieldKind → String
  | .text => "text"
  | .editor => "editor"
  | .email => "email"
  | .url => "url"
  | .number => "number"
  | .bool => "bool"
  | .json => "json"
  | .other => "other"

def toJson (k : FieldKind) : Json := .string k.name

def read : Json.Reader FieldKind := Json.readChoice choice

end FieldKind

namespace Field

def toJson (f : Field) : Json := Json.ofMembers
  [("name", .string f.name), ("kind", f.kind.toJson), ("embeddable", .bool f.marked)]

def shape : Json.Shape Field :=
  Field.mk <$> .required "name" Json.readText <*> .required "kind" FieldKind.read
    <*> .withDefault "embeddable" Json.readBool false

end Field

namespace Dataset

def toJson (d : Dataset) : Json := Json.ofMembers
  [("id", .string d.id), ("name", .string d.name), ("fields", .array (d.fields.map Field.toJson))]

def shape : Json.Shape Dataset :=
  Dataset.mk <$> .required "id" Json.readText <*> .required "name" Json.readText
    <*> .required "fields" (Json.readList Field.shape.read)

end Dataset

namespace Record

def toJson (r : Record) : Json := Json.ofMembers
  [("id", .string r.id), ("values", .object r.values)]

def shape : Json.Shape Record :=
  Record.mk <$> .required "id" Json.readText <*> .required "values" Json.readMap

end Record

end EmbeddingSearch
