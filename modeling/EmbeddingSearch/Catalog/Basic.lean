import EmbeddingSearch.Json.Writer

/-!
# Datasets and records

What is searched: datasets with a schema, and their records, each an object of field values.

## Contents
- `FieldKind`, `Field`, `Dataset`, `Record`: the schema and the data.
- `Record.valueText`: the text of a field value.
- `Catalog`: the datasets and records at hand, with look-up by id or name.
-/

namespace EmbeddingSearch

/-! ## Schema -/

/-- What a field holds. -/
inductive FieldKind where
  | text
  /-- Rich text with tags. -/
  | editor
  | email
  | url
  | number
  | bool
  | json
  | other
deriving DecidableEq, Repr

/-- Whether fields of this kind are part of the text of a whole record. -/
def FieldKind.isTextual : FieldKind → Bool
  | .text | .editor | .email | .url => true
  | _ => false

/-- A field of a dataset. -/
structure Field where
  name : String
  kind : FieldKind
  /-- Whether the field was marked for embedding. -/
  marked : Bool := false
deriving DecidableEq, Repr

/-- Only marked fields with text or rich text are embedded. -/
def Field.isEmbeddable (f : Field) : Bool := f.marked && (f.kind = .text || f.kind = .editor)

structure Dataset where
  id : String
  name : String
  fields : List Field := []
deriving DecidableEq, Repr

def Dataset.field? (d : Dataset) (name : String) : Option Field :=
  d.fields.find? fun f => f.name = name

/-! ## Records -/

/-- A record: an id and a value for each of some fields. -/
structure Record where
  id : String
  values : List (String × Json) := []
deriving Repr

/-- The record with the value of a field set. -/
def Record.withValue (r : Record) (name : String) (v : Json) : Record :=
  { r with values := Sorted.insert name v r.values }

/-- The text of a field value: a string is its own text, and a missing value or null has none. -/
def Record.valueText (r : Record) (name : String) : String :=
  match Sorted.find? name r.values with
  | none | some .null => ""
  | some (.string s) => s
  | some v => v.text

/-! ## Catalogs -/

/-- Datasets, and records by the id of their dataset, in the order they were added. -/
structure Catalog where
  datasets : List Dataset := []
  records : List (String × Record) := []
deriving Repr

namespace Catalog

def addDataset (c : Catalog) (d : Dataset) : Catalog := { c with datasets := c.datasets ++ [d] }

def addRecord (c : Catalog) (dataset : String) (r : Record) : Catalog :=
  { c with records := c.records ++ [(dataset, r)] }

/-- The dataset with this id or, if there is none, with this name. -/
def findDataset (c : Catalog) (idOrName : String) : Option Dataset :=
  (c.datasets.find? fun d => d.id = idOrName) <|> c.datasets.find? fun d => d.name = idOrName

/-- The records of a dataset. -/
def listRecords (c : Catalog) (dataset : String) : List Record :=
  (c.records.filter fun p => p.1 = dataset).map Prod.snd

/-- The record of a dataset with this id. -/
def findRecord (c : Catalog) (dataset id : String) : Option Record :=
  (c.listRecords dataset).find? fun r => r.id = id

end Catalog

end EmbeddingSearch
