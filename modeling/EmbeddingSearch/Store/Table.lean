import EmbeddingSearch.Store.Payload
import EmbeddingSearch.Time.Timestamp

/-!
# The vector store

A table of stored vectors with one row for each record and field, in ascending order of record and
then field.

## Contents
- `RowKey`, `Row`: what a row is filed under, and what it holds.
- `NewVector.row`, `Row.revised`: the row of a new vector, and an older one with this vector in it.
- `RowFilter`: which rows are meant.
- `Store`: the table, with `insert`, `revise`, `upsert`, `delete`, `findRow` and `findRows`.
-/

namespace EmbeddingSearch

/-- What a row is filed under. The dataset is not part of it. -/
structure RowKey where
  recordId : String
  field : String
deriving DecidableEq, Repr

instance : Ord RowKey where
  compare a b := (compare a.recordId b.recordId).then (compare a.field b.field)

instance : Std.TransOrd RowKey :=
  inferInstanceAs (Std.TransCmp
    (compareLex (compareOn RowKey.recordId) (compareOn RowKey.field)))

instance : Std.LawfulEqOrd RowKey where
  eq_of_compare {a b} h := by
    obtain ⟨h1, h2⟩ := Ordering.then_eq_eq.mp h
    obtain ⟨record, field⟩ := a
    obtain rfl := Std.LawfulEqOrd.eq_of_compare h1
    obtain rfl := Std.LawfulEqOrd.eq_of_compare h2
    rfl

/-- A stored vector with all that is known about it. -/
structure Row where
  recordId : String
  dataset : String
  field : String
  payload : Payload
  model : String
  dimensions : Nat
  updatedAt : Timestamp
deriving Repr

def Row.key (r : Row) : RowKey := ⟨r.recordId, r.field⟩

/-- A vector that is to be stored. -/
structure NewVector where
  recordId : String
  dataset : String
  field : String
  vector : Embedding
  model : String
  dimensions : Nat
deriving DecidableEq, Repr

/-- The row of a new vector. -/
def NewVector.row (v : NewVector) (now : Timestamp) : Row :=
  ⟨v.recordId, v.dataset, v.field, .single v.vector, v.model, v.dimensions, now⟩

/-- A row with a new vector in it. Its record and its field stay. -/
def Row.revised (r : Row) (v : NewVector) (now : Timestamp) : Row :=
  { r with
    dataset := v.dataset
    payload := .single v.vector
    model := v.model
    dimensions := v.dimensions
    updatedAt := now }

@[simp] theorem Row.key_revised (r : Row) (v : NewVector) (now : Timestamp) :
    (r.revised v now).key = r.key := rfl

/-- Which rows are meant. -/
inductive RowFilter where
  /-- Those of a record, in every field. -/
  | record (id : String)
  /-- Those of a dataset. -/
  | dataset (id : String)
  /-- Those of a field of a dataset. -/
  | field (dataset field : String)
deriving DecidableEq, Repr

def RowFilter.selects (f : RowFilter) (r : Row) : Bool :=
  match f with
  | .record id => r.recordId = id
  | .dataset id => r.dataset = id
  | .field id name => r.dataset = id && r.field = name

/-- The rows by their keys, in ascending order of keys. Every row is under its own key. -/
@[ext] structure Store where
  rows : List (RowKey × Row) := []
  ascending : Sorted.Ascending rows := by exact List.Pairwise.nil
  filed : ∀ p ∈ rows, p.1 = p.2.key := by exact List.forall_mem_nil _
deriving Repr

namespace Store

/-- Files a row as it is, in place of an older one of its key. -/
def insert (s : Store) (r : Row) : Store where
  rows := Sorted.insert r.key r s.rows
  ascending := s.ascending.insert r.key r
  filed p hp := by
    rcases Sorted.mem_insert hp with rfl | hp
    · rfl
    · exact s.filed p hp

/-- The row of a record and field. -/
def findRow (s : Store) (recordId field : String) : Option Row :=
  Sorted.find? ⟨recordId, field⟩ s.rows

/-- Puts a new vector into the row of its record and field, if there is one. -/
def revise (s : Store) (v : NewVector) (now : Timestamp) : Store where
  rows := Sorted.modify ⟨v.recordId, v.field⟩ (·.revised v now) s.rows
  ascending := s.ascending.modify _ _
  filed p hp := by
    rcases Sorted.mem_modify hp with hp | ⟨r, hr, heq⟩
    · exact s.filed p hp
    · rw [heq, Row.key_revised]
      exact s.filed _ hr

/-- Stores a vector: a row of its record and field is revised in place, and without one a new row is
filed. -/
def upsert (s : Store) (v : NewVector) (now : Timestamp) : Store :=
  match s.findRow v.recordId v.field with
  | some _ => s.revise v now
  | none => s.insert (v.row now)

/-- All rows in order. -/
def toList (s : Store) : List Row := s.rows.map Prod.snd

/-- The rows of a field of a dataset, in order. -/
def findRows (s : Store) (dataset field : String) : List Row :=
  s.toList.filter (RowFilter.field dataset field).selects

/-- Removes the rows that are meant, and gives them in order. -/
def delete (s : Store) (f : RowFilter) : List Row × Store :=
  (s.toList.filter f.selects,
    { rows := s.rows.filter fun p => !f.selects p.2
      ascending := s.ascending.sublist List.filter_sublist
      filed := fun p hp => s.filed p (List.mem_filter.mp hp).1 })

def size (s : Store) : Nat := s.rows.length

end Store

end EmbeddingSearch
