import EmbeddingSearch.Json.Basic

/-!
# Values of settings documents

What the keys of a TOML document stand for, and why a text is no such document.
-/

namespace EmbeddingSearch

namespace Toml

inductive Value where
  | text (s : String)
  | integer (n : Int)
  | float (x : Float)
  | boolean (b : Bool)
  /-- A word that looks like a number and stands for none, or for one that is too large to be held.
  It may stand in a document but cannot be read. -/
  | unreadable
  /-- A date, a time or both, as written. -/
  | moment (s : String)
  | array (items : List Value)
  | table (members : List (String × Value))
deriving Repr

mutual

/-- The value as JSON, unless a number within it is unreadable. A moment becomes an object, which no
single value is read from. -/
def Value.toJson? : Value → Option Json
  | .text s => some (.string s)
  | .integer n => some (Json.ofInt n)
  | .float x => some (.number (.float x))
  | .boolean b => some (.bool b)
  | .unreadable => none
  | .moment s => some (.object [("moment", .string s)])
  | .array items => .array <$> itemsToJson? items
  | .table members => Json.ofMembers <$> membersToJson? members

def itemsToJson? : List Value → Option (List Json)
  | [] => some []
  | v :: vs => do
    let item ← v.toJson?
    let items ← itemsToJson? vs
    return item :: items

def membersToJson? : List (String × Value) → Option (List (String × Json))
  | [] => some []
  | (k, v) :: ms => do
    let member ← v.toJson?
    let members ← membersToJson? ms
    return (k, member) :: members

end

/-- Why a text is no document. -/
inductive SyntaxError where
  | unexpectedEnd
  | invalidKey
  | invalidValue
  | invalidString
  | invalidEscape
  | expectedEquals
  | expectedBracket
  | expectedSeparator
  | expectedLineEnd
  | controlCharacter
  | tooDeep
  | duplicateKey (name : String)
  | notATable (name : String)
deriving DecidableEq, Repr

def SyntaxError.message : SyntaxError → String
  | .unexpectedEnd => "unexpected end of document"
  | .invalidKey => "invalid key"
  | .invalidValue => "invalid value"
  | .invalidString => "invalid string"
  | .invalidEscape => "invalid escape sequence"
  | .expectedEquals => "expected `=` after key"
  | .expectedBracket => "expected `]` after table name"
  | .expectedSeparator => "expected `,` between items"
  | .expectedLineEnd => "expected end of line"
  | .controlCharacter => "control characters are not allowed"
  | .tooDeep => "values or keys are nested too deeply"
  | .duplicateKey name => s!"duplicate key `{name}`"
  | .notATable name => s!"`{name}` is not a table that can be extended"

end Toml

end EmbeddingSearch
