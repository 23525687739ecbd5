import EmbeddingSearch.Toml.Document
import EmbeddingSearch.Toml.Scalar

/-!
# Reading settings documents

`Toml.parse` reads the text of a TOML document.

## Contents
- Blanks and comments: `skipBlanks`, `skipLines`, `endOfLine`.
- Strings: in one line or several, with escapes or without.
- `readKey`: dotted keys.
- `readValue`: values, arrays and inline tables, at most `maxDepth` of them within each other.
- `readStatements`, `parse`: the document.
-/

namespace EmbeddingSearch

namespace Toml

open Text (Taken isHexDigit number)

abbrev Result (α : Type) := Except SyntaxError α

/-! ## Blanks and comments -/

def isBlank (c : Char) : Bool := c = ' ' || c = '\t'

def skipBlanks (cs : List Char) : List Char := cs.dropWhile isBlank

/-- Whether a character may not stand in a comment or a string. -/
def isControl (c : Char) : Bool := (c.toNat < 32 && c ≠ '\t') || c.toNat = 127

/-- The text after a line break, if it starts with one. -/
def lineBreak? : List Char → Option (List Char)
  | '\n' :: rest => some rest
  | '\r' :: '\n' :: rest => some rest
  | _ => none

/-- The rest after blanks, comments and line breaks, from within a comment or outside of one. -/
def skipLinesFrom (inComment : Bool) : List Char → Result (List Char)
  | [] => .ok []
  | '\n' :: rest => skipLinesFrom false rest
  | '\r' :: '\n' :: rest => skipLinesFrom false rest
  | c :: rest =>
    if inComment then
      if isControl c then .error .controlCharacter else skipLinesFrom true rest
    else if c = '#' then skipLinesFrom true rest
    else if isBlank c then skipLinesFrom false rest
    else .ok (c :: rest)

/-- The rest after blanks, comments and line breaks. -/
def skipLines (cs : List Char) : Result (List Char) := skipLinesFrom false cs

/-- The rest after the end of a line, in front of which a comment may stand. -/
def endOfLine (cs : List Char) : Result (List Char) :=
  let cs := skipBlanks cs
  let hasComment := cs.head? = some '#'
  let cs := if hasComment then cs.dropWhile fun c => !isControl c else cs
  if cs.isEmpty then .ok []
  else
    match lineBreak? cs with
    | some rest => .ok rest
    | none => .error (if hasComment then .controlCharacter else .expectedLineEnd)

/-! ## Strings -/

/-- The character with a number of so many hexadecimal digits. -/
def readCodePoint (digits : Nat) (cs : List Char) : Result (Taken Char) :=
  let ds := cs.take digits
  let n := number 16 ds
  if ds.length = digits && ds.all isHexDigit && n.isValidChar then
    .ok (Char.ofNat n, cs.drop digits)
  else .error .invalidEscape

/-- The character of an escape after its backslash. -/
def readEscape (cs : List Char) : Result (Taken Char) :=
  match cs with
  | 'b' :: rest => .ok ('\x08', rest)
  | 't' :: rest => .ok ('\t', rest)
  | 'n' :: rest => .ok ('\n', rest)
  | 'f' :: rest => .ok ('\x0c', rest)
  | 'r' :: rest => .ok ('\r', rest)
  | 'e' :: rest => .ok ('\x1b', rest)
  | '"' :: rest => .ok ('"', rest)
  | '\\' :: rest => .ok ('\\', rest)
  | 'x' :: rest => readCodePoint 2 rest
  | 'u' :: rest => readCodePoint 4 rest
  | 'U' :: rest => readCodePoint 8 rest
  | _ => .error .invalidEscape

/-- A string in one line, after its opening quote. `done` holds its characters in reverse. -/
def readLine (quote : Char) (fuel : Nat) (done cs : List Char) : Result (Taken String) :=
  match fuel, cs with
  | 0, _ => .error .invalidString
  | _, [] => .error .unexpectedEnd
  | fuel + 1, c :: rest =>
    if c = quote then .ok (String.ofList done.reverse, rest)
    else if isControl c then .error .controlCharacter
    else if c = '\\' && quote = '"' then do
      let (d, rest) ← readEscape rest
      readLine quote fuel (d :: done) rest
    else readLine quote fuel (c :: done) rest

/-- The rest after blanks and line breaks. -/
def skipBreaks : List Char → List Char
  | [] => []
  | '\r' :: '\n' :: rest => skipBreaks rest
  | c :: rest => if isBlank c || c = '\n' then skipBreaks rest else c :: rest

/-- The rest after a backslash at the end of a line: the line break and all blanks and line breaks
after it are left out. -/
def joinLines? (cs : List Char) : Option (List Char) :=
  (lineBreak? (skipBlanks cs)).map skipBreaks

/-- A string of several lines, after its opening quotes. Line breaks stay as they are written. Up to
two quotes may stand before the three that close it. -/
def readLines (quote : Char) (fuel : Nat) (done cs : List Char) : Result (Taken String) :=
  match fuel, cs with
  | 0, _ => .error .invalidString
  | _, [] => .error .unexpectedEnd
  | fuel + 1, c :: rest =>
    if c = quote then
      let count := (cs.takeWhile (· = quote)).length
      if count < 3 then readLines quote fuel (c :: done) rest
      else if count ≤ 5 then
        .ok (String.ofList (done.reverse ++ List.replicate (count - 3) quote), cs.drop count)
      else .error .invalidString
    else if isControl c && (lineBreak? cs).isNone then .error .controlCharacter
    else if c = '\\' && quote = '"' then
      match joinLines? rest with
      | some rest => readLines quote fuel done rest
      | none => do
        let (d, rest) ← readEscape rest
        readLines quote fuel (d :: done) rest
    else readLines quote fuel (c :: done) rest

/-- A string, after its first quote. A line break right after three opening quotes is left out. -/
def readString (quote : Char) (cs : List Char) : Result (Taken String) :=
  match cs with
  | a :: b :: rest =>
    if a = quote && b = quote then
      let body := (lineBreak? rest).getD rest
      readLines quote (body.length + 1) [] body
    else readLine quote (cs.length + 1) [] cs
  | _ => readLine quote (cs.length + 1) [] cs

/-! ## Keys -/

def isBareKey (c : Char) : Bool := c.isAlphanum || c = '_' || c = '-'

/-- One part of a key. -/
def readKeyPart (cs : List Char) : Result (Taken String) :=
  match cs with
  | '"' :: rest => readLine '"' (rest.length + 1) [] rest
  | '\'' :: rest => readLine '\'' (rest.length + 1) [] rest
  | _ =>
    let name := cs.takeWhile isBareKey
    if name.isEmpty then .error .invalidKey
    else .ok (String.ofList name, cs.dropWhile isBareKey)

/-- How many parts a key may have, and how many arrays and inline tables may be nested. -/
def maxDepth : Nat := 80

/-- The parts of a key, of which there may be so many, and the text after it without blanks in
front. -/
def readParts (count : Nat) (cs : List Char) : Result (Taken (List String)) :=
  match count with
  | 0 => .error .tooDeep
  | count + 1 => do
    let (part, cs) ← readKeyPart (skipBlanks cs)
    match skipBlanks cs with
    | '.' :: rest =>
      let (parts, cs) ← readParts count rest
      .ok (part :: parts, cs)
    | cs => .ok ([part], cs)

/-- A key with its parts. -/
def readKey (cs : List Char) : Result (Taken (List String)) := readParts maxDepth cs

/-- What follows a key: an equals sign. -/
def afterEquals (cs : List Char) : Result (List Char) :=
  match cs with
  | '=' :: rest => .ok rest
  | _ => .error .expectedEquals

/-! ## Values -/

/-- Whether a character may stand in a value without quotes. -/
def isWordChar (c : Char) : Bool :=
  !(isBlank c || ['\n', '\r', ',', '=', '#', '[', ']', '\x7b', '\x7d'].contains c)

/-- The words in front of a text with the blanks between them. `blanks` holds those before the text,
after which a quote begins no further word. -/
def takeWords (blanks : List Char) : List Char → List Char
  | [] => []
  | c :: rest =>
    if isBlank c then takeWords (c :: blanks) rest
    else if isWordChar c && (blanks.isEmpty || !(c = '"' || c = '\'')) then
      blanks.reverse ++ c :: takeWords [] rest
    else []

/-- A value without quotes, such as a number, or a day and a time of day with a blank between
them. -/
def readWords (cs : List Char) : Result (Taken Value) :=
  let words := takeWords [] cs
  match scalar? words with
  | some v => .ok (v, cs.drop words.length)
  | none => .error .invalidValue

mutual

/-- A value, within which `depth` arrays and inline tables may be nested. Between two calls at least
one character is taken off the text, so `fuel` may be twice its length. -/
def readValue (fuel depth : Nat) (cs : List Char) : Result (Taken Value) :=
  match fuel with
  | 0 => .error .invalidValue
  | fuel + 1 =>
    match cs with
    | [] => .error .unexpectedEnd
    | '"' :: rest => do
      let (s, cs) ← readString '"' rest
      .ok (.text s, cs)
    | '\'' :: rest => do
      let (s, cs) ← readString '\'' rest
      .ok (.text s, cs)
    | '[' :: rest => do
      if depth = 0 then throw .tooDeep
      let (items, cs) ← readItems fuel (depth - 1) rest
      .ok (.array items, cs)
    | '\x7b' :: rest => do
      if depth = 0 then throw .tooDeep
      let (entries, cs) ← readEntries fuel (depth - 1) rest
      let table ← inlineTable entries
      .ok (table, cs)
    | _ => readWords cs

/-- The items of an array up to its closing bracket; a comma may follow the last one. -/
def readItems (fuel depth : Nat) (cs : List Char) : Result (Taken (List Value)) :=
  match fuel with
  | 0 => .error .unexpectedEnd
  | fuel + 1 => do
    match ← skipLines cs with
    | ']' :: rest => .ok ([], rest)
    | cs =>
      let (v, cs) ← readValue fuel depth cs
      match ← skipLines cs with
      | ',' :: rest =>
        let (vs, cs) ← readItems fuel depth rest
        .ok (v :: vs, cs)
      | ']' :: rest => .ok ([v], rest)
      | [] => .error .unexpectedEnd
      | _ => .error .expectedSeparator

/-- The entries of an inline table up to its closing brace; a comma may follow the last one. Its
parts may stand on lines of their own, but a key stays in one line. -/
def readEntries (fuel depth : Nat) (cs : List Char) :
    Result (Taken (List (List String × Value))) :=
  match fuel with
  | 0 => .error .unexpectedEnd
  | fuel + 1 => do
    match ← skipLines cs with
    | '\x7d' :: rest => .ok ([], rest)
    | cs =>
      let (path, cs) ← readKey cs
      let cs ← afterEquals (← skipLines cs)
      let (v, cs) ← readValue fuel depth (← skipLines cs)
      match ← skipLines cs with
      | ',' :: rest =>
        let (es, cs) ← readEntries fuel depth rest
        .ok ((path, v) :: es, cs)
      | '\x7d' :: rest => .ok ([(path, v)], rest)
      | [] => .error .unexpectedEnd
      | _ => .error .expectedSeparator

end

/-! ## Documents -/

/-- What follows the path of a heading: so many closing brackets. -/
def closeHeading (brackets : List Char) (cs : List Char) : Result (List Char) :=
  if brackets.isPrefixOf cs then .ok (cs.drop brackets.length) else .error .expectedBracket

/-- A statement without the end of its line. -/
def readStatement (cs : List Char) : Result (Taken Statement) := do
  match cs with
  | '[' :: '[' :: rest =>
    let (path, cs) ← readKey rest
    .ok (.nextHeading path, ← closeHeading [']', ']'] cs)
  | '[' :: rest =>
    let (path, cs) ← readKey rest
    .ok (.heading path, ← closeHeading [']'] cs)
  | _ =>
    let (path, cs) ← readKey cs
    let cs ← afterEquals cs
    let (v, cs) ← readValue (2 * cs.length + 2) maxDepth (skipBlanks cs)
    .ok (.assign path v, cs)

/-- The statements of a text, each on lines of its own. -/
def readStatements (fuel : Nat) (cs : List Char) : Result (List Statement) :=
  match fuel with
  | 0 => .ok []
  | fuel + 1 => do
    let cs ← skipLines cs
    if cs.isEmpty then .ok []
    else
      let (s, cs) ← readStatement cs
      let cs ← endOfLine cs
      let rest ← readStatements fuel cs
      .ok (s :: rest)

/-- The mark that a text may begin with to show its encoding. -/
def byteOrderMark : Char := '\uFEFF'

/-- The table of a document. -/
def parse (s : String) : Result Value := do
  let cs := match s.toList with
    | c :: rest => if c = byteOrderMark then rest else c :: rest
    | [] => []
  let statements ← readStatements (cs.length + 1) cs
  document statements

end Toml

end EmbeddingSearch
