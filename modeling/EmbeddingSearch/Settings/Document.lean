import EmbeddingSearch.Service.Error
import EmbeddingSearch.Settings.Json
import EmbeddingSearch.Toml.Reader

/-!
# Settings from documents

Settings are read from a TOML document, in which every section and every key may be missing.

## Contents
- `Settings.relevant`: what is read of a document. A section may also be written as an array of the
  values of its keys, and items past the last key are not even looked at.
- `Settings.ofDocument`, `Settings.ofFile`: the settings of a document or a file.
-/

namespace EmbeddingSearch

namespace Settings

/-- The sections with the number of their keys. -/
def sectionWidths : List (String × Nat) :=
  [("ai", AiSettings.shape.width), ("cache", CacheSettings.shape.width),
    ("query", QueryLimits.shape.width), ("generation", GenerationLimits.shape.width)]

/-- What is read of the value of a key of the document. -/
def relevantPart (name : String) (v : Toml.Value) : Toml.Value :=
  match sectionWidths.lookup name, v with
  | some width, .array items => .array (items.take width)
  | _, v => v

/-- What is read of a document. -/
def relevant : Toml.Value → Toml.Value
  | .table members => .table (members.map fun (name, v) => (name, relevantPart name v))
  | v => v

/-- The settings of a document. -/
def ofDocument (text : String) : Except ServiceError Settings :=
  match Toml.parse text with
  | .error e => .error (.document e.message)
  | .ok v =>
    match (relevant v).toJson? with
    | none => .error (.document "invalid number")
    | some json =>
      match read json with
      | .error e => .error (.document e.message)
      | .ok s => .ok s

/-- The settings in a file, given by its bytes if there is such a file. -/
def ofFile (content : Option ByteArray) : Except ServiceError Settings :=
  match content with
  | none => .error (.unreadable "no such file")
  | some bytes =>
    match String.fromUTF8? bytes with
    | none => .error (.unreadable "not a text in UTF-8")
    | some text => ofDocument text

end Settings

end EmbeddingSearch
