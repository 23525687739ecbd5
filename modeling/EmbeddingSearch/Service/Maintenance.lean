import EmbeddingSearch.Service.Basic

/-!
# Maintenance

Removing stored vectors, and finding out which records have one.

## Contents
- `keysOf`, `KeyOrder`: the fields of removed rows, and the order in which they are gone through.
- `Service.deleteRecord`, `Service.deleteDataset`, `Service.deleteField`: removal, followed by the
  invalidation of everything it may have changed.
- `Service.coverage`, `Service.pending`: how many records have a vector, and which have none.
- `Service.embeddableFields`: the fields that can be embedded.
-/

namespace EmbeddingSearch

/-! ## Removal -/

/-- The fields of some rows, each once. -/
def keysOf (rows : List Row) : List FieldKey :=
  (rows.map fun r => FieldKey.mk r.dataset r.field).eraseDups

/-- The order in which a set of fields is gone through. It is left open which one this is. -/
structure KeyOrder where
  arrange : List FieldKey → List FieldKey
  arrange_perm (keys : List FieldKey) : (arrange keys).Perm keys

/-- The order in which the fields are found. -/
def KeyOrder.asFound : KeyOrder := ⟨id, List.Perm.refl⟩

namespace Service

/-- Removes all vectors of a record, and says how many there were. -/
def deleteRecord (order : KeyOrder) (id : String) : Action Nat := do
  let removed ← Action.orFail (.ask (.delete (.record id)))
  Action.of (.each (fun k => .ask (.invalidate k)) (order.arrange (keysOf removed)))
  pure removed.length

/-- Removes all vectors of a dataset, which need not be in the catalog any more. -/
def deleteDataset (id : String) : Action Nat := do
  let removed ← Action.orFail (.ask (.delete (.dataset id)))
  Action.of (.ask (.invalidateDataset id))
  pure removed.length

/-- Removes all vectors of a field of a dataset. -/
def deleteField (dataset field : String) : Action Nat := do
  let removed ← Action.orFail (.ask (.delete (.field dataset field)))
  Action.of (.ask (.invalidate ⟨dataset, field⟩))
  pure removed.length

/-! ## Coverage -/

/-- How many records of a dataset have a vector for a field. -/
def coverage (idOrName field : String) : Action Coverage := do
  let d ← Action.dataset idOrName
  let records ← Action.orFail (.ask (.listRecords d.id))
  let rows ← Action.orFail (.ask (.findRows d.id field))
  pure ⟨records.length, rows.length, records.length - rows.length⟩

/-- The ids of a list in ascending order, each once. -/
def ascending (ids : List String) : List String :=
  (Sorted.ofList (ids.map fun id => (id, ()))).map Prod.fst

/-- The ids of the records that have no vector for a field, in ascending order. -/
def pending (idOrName field : String) : Action (List String) := do
  let d ← Action.dataset idOrName
  let rows ← Action.orFail (.ask (.findRows d.id field))
  let embedded := rows.map Row.recordId
  let records ← Action.orFail (.ask (.listRecords d.id))
  pure (ascending ((records.map Record.id).filter fun id => !embedded.contains id))

/-- The fields of a dataset that can be embedded. -/
def embeddableFields (idOrName : String) : Action (List EmbeddableField) := do
  let d ← Action.dataset idOrName
  pure ((d.fields.filter Field.isEmbeddable).map fun f => ⟨f.name, f.kind⟩)

end Service

end EmbeddingSearch
