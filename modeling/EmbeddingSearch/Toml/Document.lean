import EmbeddingSearch.Toml.Basic

/-!
# Putting documents together

A document is a list of statements: headings that open a table, and keys with their values. This
module says which table each of them belongs to, and which may not stand together.

## Contents
- `Statement`: the statements.
- `Node`: a document under construction. Tables remember what made them, since only some may be
  extended later.
- `Node.within`: work at the end of a path of keys.
- `document`: the table of a list of statements.
-/

namespace EmbeddingSearch

namespace Toml

/-- A statement of a document. -/
inductive Statement where
  /-- Opens a table. -/
  | heading (path : List String)
  /-- Opens the next table of a list of tables. -/
  | nextHeading (path : List String)
  /-- Gives a key of the open table its value. -/
  | assign (path : List String) (v : Value)

/-- What made a table. -/
inductive Origin where
  /-- Its own heading, or its own braces. -/
  | own
  /-- The heading of a table within it. -/
  | heading
  /-- A dotted key. -/
  | dotted
deriving DecidableEq, Repr

/-- A document under construction. -/
inductive Node where
  | leaf (v : Value)
  | table (origin : Origin) (members : List (String × Node))
  | tables (elements : List (List (String × Node)))

abbrev Members := List (String × Node)

/-- The members with one set, in place of an older one of its name. -/
def setMember (name : String) (n : Node) : Members → Members
  | [] => [(name, n)]
  | (k, m) :: rest => if k = name then (k, n) :: rest else (k, m) :: setMember name n rest

/-- Does `work` on the members of the table at the end of a path, which is made where it is
missing. A dotted key must not reach into a table that has a heading of its own. -/
def within (dotted : Bool) (work : Origin → Members → Except SyntaxError Members)
    (path : List String) (origin : Origin) (members : Members) : Except SyntaxError Members :=
  match path with
  | [] => work origin members
  | k :: path =>
    match members.lookup k with
    | none => do
      let made := if dotted then Origin.dotted else .heading
      let sub ← within dotted work path made []
      .ok (setMember k (.table made sub) members)
    | some (.leaf _) => .error (.notATable k)
    | some (.tables elements) =>
      match elements.reverse with
      | [] => .error (.notATable k)
      | last :: before => do
        let sub ← within dotted work path .own last
        .ok (setMember k (.tables (sub :: before).reverse) members)
    | some (.table made sub) =>
      if dotted && made = .own then .error (.duplicateKey k)
      else do
        let sub ← within dotted work path made sub
        .ok (setMember k (.table made sub) members)

/-- Opens the table `name`. It may have been made by headings of tables within it, but not
otherwise. -/
def openTable (name : String) (_ : Origin) (members : Members) : Except SyntaxError Members :=
  match members.lookup name with
  | none => .ok (setMember name (.table .own []) members)
  | some (.table .heading sub) => .ok (setMember name (.table .own sub) members)
  | some _ => .error (.duplicateKey name)

/-- Opens the next table of the list `name`. -/
def openNext (name : String) (_ : Origin) (members : Members) : Except SyntaxError Members :=
  match members.lookup name with
  | none => .ok (setMember name (.tables [[]]) members)
  | some (.tables elements) => .ok (setMember name (.tables (elements ++ [[]])) members)
  | some _ => .error (.duplicateKey name)

/-- Gives a key its value. At the end of a dotted path the table must be made by dotted keys. -/
def assign (dotted : Bool) (name : String) (v : Value) (origin : Origin) (members : Members) :
    Except SyntaxError Members :=
  if dotted && origin ≠ .dotted then .error (.duplicateKey name)
  else if (members.lookup name).isSome then .error (.duplicateKey name)
  else .ok (setMember name (.leaf v) members)

/-- Gives the key at the end of a path its value. -/
def assignPath (path : List String) (v : Value) (origin : Origin) (members : Members) :
    Except SyntaxError Members :=
  match path.reverse with
  | [] => .error .invalidKey
  | name :: parents =>
    within true (assign (!parents.isEmpty) name v) parents.reverse origin members

/-- A document with the path of its open table. -/
structure Draft where
  members : Members := []
  opened : List String := []

def Draft.add (d : Draft) : Statement → Except SyntaxError Draft
  | .heading path => start path openTable
  | .nextHeading path => start path openNext
  | .assign path v => do
    let members ← within false (assignPath path v) d.opened .own d.members
    .ok { d with members }
where
  start (path : List String)
      (work : String → Origin → Members → Except SyntaxError Members) :
      Except SyntaxError Draft :=
    match path.reverse with
    | [] => .error .invalidKey
    | name :: parents => do
      let members ← within false (work name) parents.reverse .own d.members
      .ok ⟨members, path⟩

mutual

/-- The value of a finished part of a document. -/
def Node.value : Node → Value
  | .leaf v => v
  | .table _ members => .table (memberValues members)
  | .tables elements => .array (elementValues elements)

def memberValues : List (String × Node) → List (String × Value)
  | [] => []
  | (k, n) :: ms => (k, n.value) :: memberValues ms

def elementValues : List (List (String × Node)) → List Value
  | [] => []
  | ms :: rest => .table (memberValues ms) :: elementValues rest

end

/-- The table of an inline list of assignments. -/
def inlineTable (entries : List (List String × Value)) : Except SyntaxError Value := do
  let members ← entries.foldlM (fun ms (path, v) => assignPath path v .own ms) []
  .ok (.table (memberValues members))

/-- The table of a document. -/
def document (statements : List Statement) : Except SyntaxError Value := do
  let d ← statements.foldlM Draft.add {}
  .ok (.table (memberValues d.members))

end Toml

end EmbeddingSearch
