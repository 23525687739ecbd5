import EmbeddingSearch.Json.Reader
import EmbeddingSearch.Json.Writer
import EmbeddingSearch.Vector.Similarity

/-!
# Stored vectors

A vector comes out of a store in one of several encodings; all of them decode to binary32.

## Contents
- `Payload`: the encodings.
- `Payload.ofJson`: the encoding of a value that is read from a document.
- `DecodeError`: why a payload is no vector.
- `Payload.decode`: the vector of a payload.
-/

namespace EmbeddingSearch

/-- A stored vector. -/
inductive Payload where
  /-- Binary32 numbers. -/
  | single (v : Embedding)
  /-- Binary64 numbers. -/
  | double (v : List Float)
  /-- A raw value: an array of numbers, or a string with the text of one. -/
  | raw (v : Json)
deriving Repr

namespace Payload

/-- A number of a document as binary32: an integer is rounded once, directly. -/
def toSingle : Json.Number → Float32
  | .integer n => Float32.ofInt n
  | .float x => narrow x

/-- The numbers of a list, if it holds nothing else. -/
def numbers? (items : List Json) : Option (List Json.Number) :=
  items.mapM fun
    | .number n => some n
    | _ => none

/-- A value of a document as a payload: an array of numbers becomes binary32, and anything else
stays as it is. -/
def ofJson (v : Json) : Payload :=
  match v with
  | .array items =>
    match numbers? items with
    | some ns => .single (ns.map toSingle)
    | none => .raw v
  | _ => .raw v

end Payload

/-! ## Decoding -/

/-- Why a payload is no vector. -/
inductive DecodeError where
  | missing
  | invalidElement (index : Nat) (kind : Json.Kind)
  | invalidText (cause : String)
  | unsupportedShape (kind : Json.Kind) (preview : String)
deriving DecidableEq, Repr

def DecodeError.message : DecodeError → String
  | .missing => "embedding field is null"
  | .invalidElement index kind =>
    s!"unexpected type in embedding array at index {index}: {kind.name}"
  | .invalidText cause => s!"failed to unmarshal embedding string: {cause}"
  | .unsupportedShape kind preview =>
    s!"unexpected embedding type: {kind.name}, value preview: {preview}"

namespace Payload

/-- The binary32 number nearest to the binary64 value of a number. -/
def viaDouble (n : Json.Number) : Float32 := narrow n.toFloat

/-- The items of a raw array, `index` being the place of the first of them. -/
def decodeItems (index : Nat) : List Json → Except DecodeError Embedding
  | [] => .ok []
  | .number n :: rest => (viaDouble n :: ·) <$> decodeItems (index + 1) rest
  | v :: _ => .error (.invalidElement index v.kind)

/-- A text that holds an array of numbers. -/
def decodeText (s : String) : Except DecodeError Embedding :=
  match Json.parse s with
  | .error e => .error (.invalidText e.message)
  | .ok (.array items) =>
    match numbers? items with
    | some ns => .ok (ns.map viaDouble)
    | none => .error (.invalidText "invalid type")
  | .ok _ => .error (.invalidText "invalid type")

/-- How much of a value is shown when it is no vector. -/
def previewChars : Nat := 100

def decodeRaw : Json → Except DecodeError Embedding
  | .null => .error .missing
  | .array items => decodeItems 0 items
  | .string s => decodeText s
  | v => .error (.unsupportedShape v.kind (String.ofList (v.text.toList.take previewChars)))

/-- The vector of a payload. -/
def decode : Payload → Except DecodeError Embedding
  | .single v => .ok v
  | .double v => .ok (v.map narrow)
  | .raw v => decodeRaw v

end Payload

end EmbeddingSearch
