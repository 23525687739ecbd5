import EmbeddingSearch.Text.Blank

/-!
# Text of rich content

Removing tags from rich text, and cutting text to a length.

## Contents
- `Text.untagged`: every region from `<` to the next `>` becomes one blank.
- `Text.squeeze`: runs of blanks become one blank.
- `Text.stripMarkup`: both, and no white space at the ends.
- `Text.cut`: at most so many characters, with a mark where text was left out.
-/

namespace EmbeddingSearch

namespace Text

/-! ## Tags -/

/-- What follows the first `>`, if there is one. -/
def afterTag? : List Char → Option (List Char)
  | [] => none
  | c :: cs => if c = '>' then some cs else afterTag? cs

theorem length_afterTag? {cs rest : List Char} (h : afterTag? cs = some rest) :
    rest.length < cs.length := by
  induction cs with
  | nil => simp [afterTag?] at h
  | cons c cs ih =>
    simp only [afterTag?] at h
    split at h
    · cases h; simp
    · have := ih h; simp only [List.length_cons]; omega

/-- The text with a blank for every tag. A `<` that no `>` follows is not a tag, and neither is
anything after it. -/
def untagged (cs : List Char) : List Char :=
  match cs with
  | [] => []
  | c :: rest =>
    if c = '<' then
      match _h : afterTag? rest with
      | some after => ' ' :: untagged after
      | none => c :: rest
    else c :: untagged rest
termination_by cs.length
decreasing_by
  · have := length_afterTag? _h; simp only [List.length_cons]; omega
  · simp

/-! ## Blanks -/

/-- The text with one blank for each run of blanks. Other white space is kept. -/
def squeeze : List Char → List Char
  | [] => []
  | [c] => [c]
  | c :: d :: rest => if c = ' ' && d = ' ' then squeeze (d :: rest) else c :: squeeze (d :: rest)

/-- The text without its tags. -/
def stripMarkup (s : String) : String := String.ofList (trim (squeeze (untagged s.toList)))

/-! ## Length -/

/-- What marks the place where text was left out. -/
def ellipsis : List Char := ['.', '.', '.']

/-- At most `limit` characters of the text, with a mark if there are more. -/
def cut (s : String) (limit : Nat) : String :=
  let cs := s.toList
  if limit < cs.length then String.ofList (cs.take limit ++ ellipsis) else s

end Text

end EmbeddingSearch
