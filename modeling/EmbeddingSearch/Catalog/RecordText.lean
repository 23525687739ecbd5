import EmbeddingSearch.Catalog.Basic
import EmbeddingSearch.Text.Markup

/-!
# The text of records

The text that is embedded for a field or for a whole record.

## Contents
- `Record.fieldText`: the text of a field, without tags where the field holds rich text.
- `Text.replaceAll`: every occurrence of a pattern replaced.
- `Record.fill`: a template with the texts of the fields in place of their names in braces.
- `Record.summary`: a line for each field with text.
- `Record.render`: the text of a record, by template or in summary.
-/

namespace EmbeddingSearch

/-- The text of a field. -/
def Record.fieldText (r : Record) (f : Field) : String :=
  let value := r.valueText f.name
  if f.kind = .editor then Text.stripMarkup value else value

/-- The text with every occurrence of a non-empty pattern replaced, from left to right. -/
def Text.replaceAll (pattern replacement : List Char) (cs : List Char) : List Char :=
  match cs with
  | [] => []
  | c :: rest =>
    if pattern.isPrefixOf (c :: rest) then
      replacement ++ replaceAll pattern replacement (rest.drop (pattern.length - 1))
    else c :: replaceAll pattern replacement rest
termination_by cs.length
decreasing_by
  · simp only [List.length_drop, List.length_cons]; omega
  · simp

namespace Record

/-- How a template names a field. -/
def placeholder (f : Field) : List Char := '\x7b' :: (f.name.toList ++ ['\x7d'])

/-- The template with the text of every field in place of its name, one field after the other in
the order of the schema. -/
def fill (r : Record) (fields : List Field) (template : String) : String :=
  let filled := fields.foldl
    (fun text f => Text.replaceAll (placeholder f) (r.fieldText f).toList text) template.toList
  String.ofList (Text.trim filled)

/-- A line with name and text for each textual field that has text, which is cut to so many
characters. -/
def summary (r : Record) (fields : List Field) (maxFieldChars : Nat) : String :=
  let line := fun (f : Field) =>
    let text := r.fieldText f
    if text.isEmpty then none else some (f.name ++ ": " ++ Text.cut text maxFieldChars)
  String.intercalate "\n" ((fields.filter fun f => f.kind.isTextual).filterMap line)

/-- The text of a record. An empty template is none. -/
def render (r : Record) (d : Dataset) (template : Option String) (maxFieldChars : Nat) :
    String :=
  match template with
  | none => r.summary d.fields maxFieldChars
  | some t => if t.isEmpty then r.summary d.fields maxFieldChars else r.fill d.fields t

end Record

end EmbeddingSearch
