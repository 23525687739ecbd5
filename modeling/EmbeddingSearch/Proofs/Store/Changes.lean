import EmbeddingSearch.Proofs.Store.Rows

/-!
# A store and its past

Whatever rows are inserted, vectors stored and rows deleted, a store is a table with one row for
each key: the one that was last written there, unless it was deleted since. Queries by dataset and
field agree with this table although a row may change its dataset while its key stays.

## Contents
- `Change`, `Store.run`: what can be done to a store, one after the other.
- `Change.Spares`, `Store.findRow_run_iff`: which row is found after a run.
- `Store.findRow_delete`, `Store.delete_delete_comm`, `Store.delete_delete_perm`: one deletion, and two
  of them.
- `Store.run_is_table`: all of this for a store that was empty at first.
-/

namespace EmbeddingSearch

/-- Something that is done to a store. -/
inductive Change where
  | insert (r : Row)
  | upsert (v : NewVector) (now : Timestamp)
  | delete (f : RowFilter)

namespace Change

def apply (s : Store) : Change → Store
  | insert r => s.insert r
  | upsert v now => s.upsert v now
  | delete f => (s.delete f).2

/-- The row that a change writes. -/
def written? : Change → Option Row
  | insert r => some r
  | upsert v now => some (v.row now)
  | delete _ => none

/-- Whether a change leaves a row where it is: it writes no other row under the same key, and does
not delete this one. -/
def Spares (r : Row) : Change → Prop
  | insert r' => r'.key ≠ r.key
  | upsert v _ => (⟨v.recordId, v.field⟩ : RowKey) ≠ r.key
  | delete f => f.selects r = false

end Change

namespace Store

/-- The store after some changes. -/
def run (s : Store) (changes : List Change) : Store := changes.foldl Change.apply s

/-! ## Order -/

/-- Rows are in the order of their keys. -/
theorem toList_pairwise (s : Store) :
    s.toList.Pairwise fun a b => compare a.key b.key = .lt := by
  refine List.pairwise_map.mpr (s.ascending.imp_of_mem ?_)
  intro p q hp hq hlt
  rwa [s.filed p hp, s.filed q hq] at hlt

/-- The rows of a field are in the order of their records, each of which has one. -/
theorem findRows_pairwise (s : Store) (d f : String) :
    (s.findRows d f).Pairwise fun a b => a.recordId < b.recordId := by
  refine (s.toList_pairwise.filter _).imp_of_mem ?_
  intro a b ha hb hlt
  -- the fields are the same, so the keys differ in their records
  have hfield : a.field = b.field := (mem_findRows.mp ha).2.2.trans (mem_findRows.mp hb).2.2.symm
  have hlt : (compare a.recordId b.recordId).then (compare a.field b.field) = .lt := hlt
  rw [hfield, Std.ReflOrd.compare_self, Ordering.then_eq] at hlt
  exact compareOfLessAndEq_eq_lt.mp hlt

/-- There are as many rows as keys under which a row is found. -/
theorem size_eq_card (s : Store) :
    ∃ keys : Finset RowKey, (∀ k, k ∈ keys ↔ (s.findRow k.recordId k.field).isSome) ∧
      s.size = keys.card := by
  refine ⟨(s.rows.map Prod.fst).toFinset, fun k => ?_, ?_⟩
  · rw [List.mem_toFinset, Option.isSome_iff_exists]
    simp only [findRow_eq_some_iff, List.mem_map, Prod.exists, exists_and_right, exists_eq_right]
  · rw [List.toFinset_card_of_nodup s.ascending.nodup_keys, List.length_map, size]

/-! ## Deletion -/

/-- A deletion takes away the rows that it selects, and no others. -/
theorem findRow_delete (s : Store) (g : RowFilter) (recordId field : String) :
    (s.delete g).2.findRow recordId field =
      (s.findRow recordId field).filter fun r => !g.selects r := by
  ext r
  rw [findRow_eq_some_iff, Option.filter_eq_some_iff, findRow_eq_some_iff]
  exact List.mem_filter

theorem toList_delete (s : Store) (g : RowFilter) :
    (s.delete g).2.toList = s.toList.filter fun r => !g.selects r := by
  rw [toList, toList, List.filter_map]
  rfl

theorem mem_delete {s : Store} {g : RowFilter} {r : Row} :
    r ∈ (s.delete g).1 ↔ r ∈ s.toList ∧ g.selects r = true := List.mem_filter

/-- Two deletions leave the same rows in either order. -/
theorem delete_delete_comm (s : Store) (g g' : RowFilter) :
    ((s.delete g).2.delete g').2 = ((s.delete g').2.delete g).2 := by
  simp only [delete, List.filter_filter, Bool.and_comm]

/-- Two deletions together give every row that one of them selects, and each of these once. -/
theorem delete_delete_perm (s : Store) (g g' : RowFilter) :
    ((s.delete g).1 ++ ((s.delete g).2.delete g').1).Perm
      (s.toList.filter fun r => g.selects r || g'.selects r) := by
  have hsecond : ((s.delete g).2.delete g').1 =
      (s.toList.filter fun r => g.selects r || g'.selects r).filter fun r => !g.selects r := by
    rw [show ((s.delete g).2.delete g').1 = (s.delete g).2.toList.filter g'.selects from rfl,
      toList_delete, List.filter_filter, List.filter_filter]
    refine List.filter_congr ?_
    intro r _
    cases g.selects r <;> simp
  have hfirst : (s.delete g).1 =
      (s.toList.filter fun r => g.selects r || g'.selects r).filter g.selects := by
    rw [show (s.delete g).1 = s.toList.filter g.selects from rfl, List.filter_filter]
    refine List.filter_congr ?_
    intro r _
    cases g.selects r <;> simp
  rw [hfirst, hsecond]
  exact List.filter_append_perm _ _

/-! ## Runs -/

/-- The row of a key after a change: the one that was written just now, or an older one that the
change leaves there. -/
theorem findRow_apply_iff (s : Store) (x : Change) {recordId field : String} {r : Row} :
    (x.apply s).findRow recordId field = some r ↔
      (x.written? = some r ∧ r.key = ⟨recordId, field⟩) ∨
        (s.findRow recordId field = some r ∧ x.Spares r) := by
  -- an inserted row is found under its own key, and hides what was there
  have hinsert : ∀ r' : Row, (s.insert r').findRow recordId field = some r ↔
      (some r' = some r ∧ r.key = ⟨recordId, field⟩) ∨
        (s.findRow recordId field = some r ∧ r'.key ≠ r.key) := by
    intro r'
    rw [findRow_insert]
    by_cases hkey : recordId = r'.recordId ∧ field = r'.field
    · obtain ⟨rfl, rfl⟩ := hkey
      rw [if_pos ⟨rfl, rfl⟩]
      constructor
      · intro heq
        obtain rfl := Option.some.inj heq
        exact .inl ⟨rfl, rfl⟩
      · rintro (⟨heq, -⟩ | ⟨hfind, hne⟩)
        · exact heq
        · exact absurd (key_eq hfind).symm hne
    · rw [if_neg hkey]
      constructor
      · intro hfind
        refine .inr ⟨hfind, fun heq => hkey ?_⟩
        rw [key_eq hfind] at heq
        exact ⟨(congrArg RowKey.recordId heq).symm, (congrArg RowKey.field heq).symm⟩
      · rintro (⟨heq, hown⟩ | ⟨hfind, -⟩)
        · obtain rfl := Option.some.inj heq
          exact hkey.elim
            ⟨(congrArg RowKey.recordId hown).symm, (congrArg RowKey.field hown).symm⟩
        · exact hfind
  cases x with
  | insert r' => exact hinsert r'
  | upsert v now =>
    rw [Change.apply, upsert_eq_insert]
    exact hinsert (v.row now)
  | delete g =>
    simp only [Change.apply, findRow_delete, Option.filter_eq_some_iff, Change.written?,
      Change.Spares, Bool.not_eq_true', reduceCtorEq, false_and, false_or]

/-- The row of a key after some changes: one that was there before them and was always spared, or
the last one that was written. -/
theorem findRow_run_iff (s : Store) (changes : List Change) {recordId field : String} {r : Row} :
    (s.run changes).findRow recordId field = some r ↔
      (s.findRow recordId field = some r ∧ ∀ y ∈ changes, y.Spares r) ∨
        ∃ before x since, changes = before ++ x :: since ∧ x.written? = some r ∧
          r.key = ⟨recordId, field⟩ ∧ ∀ y ∈ since, y.Spares r := by
  induction changes generalizing s with
  | nil => simp [Store.run]
  | cons x rest ih =>
    show ((x.apply s).run rest).findRow recordId field = some r ↔ _
    rw [ih, findRow_apply_iff]
    constructor
    · rintro (⟨⟨hwritten, hkey⟩ | ⟨hfind, hx⟩, hrest⟩ | ⟨before, y, since, rfl, hy⟩)
      · exact .inr ⟨[], x, rest, rfl, hwritten, hkey, hrest⟩
      · exact .inl ⟨hfind, List.forall_mem_cons.mpr ⟨hx, hrest⟩⟩
      · exact .inr ⟨x :: before, y, since, rfl, hy⟩
    · rintro (⟨hfind, hall⟩ | ⟨before, y, since, hsplit, hwritten, hkey, hsince⟩)
      · obtain ⟨hx, hrest⟩ := List.forall_mem_cons.mp hall
        exact .inl ⟨.inr ⟨hfind, hx⟩, hrest⟩
      · cases before with
        | nil =>
          obtain ⟨rfl, rfl⟩ := List.cons.inj hsplit
          exact .inl ⟨.inl ⟨hwritten, hkey⟩, hsince⟩
        | cons z before =>
          obtain ⟨rfl, rfl⟩ := List.cons.inj hsplit
          exact .inr ⟨before, y, since, rfl, hwritten, hkey, hsince⟩

/-- A store after any changes, empty before them, is a table. Every row is filed under its own
record and field, and there are as many rows as keys. A key has the row that was last written
there, unless a later deletion selected it; storing a vector where there is a row changes that row
in place. The rows of a field of a dataset are just those with this dataset and field, one for each
record, in ascending order of records. A deletion gives the rows that it selects, in the order of
keys, leaves none of them behind and all others as they are. Two deletions leave the same rows in
either order, and together give each row that they remove once. -/
theorem run_is_table (changes : List Change) :
    let s := run {} changes
    (∀ p ∈ s.rows, p.1 = p.2.key) ∧
      (∃ keys : Finset RowKey, (∀ k, k ∈ keys ↔ (s.findRow k.recordId k.field).isSome) ∧
        s.size = keys.card) ∧
      (∀ recordId field r, s.findRow recordId field = some r ↔
        ∃ before x since, changes = before ++ x :: since ∧ x.written? = some r ∧
          r.key = ⟨recordId, field⟩ ∧ ∀ y ∈ since, y.Spares r) ∧
      (∀ v now r, s.findRow v.recordId v.field = some r →
        s.upsert v now = s.insert (r.revised v now)) ∧
      (∀ d f, (∀ r, r ∈ s.findRows d f ↔
          s.findRow r.recordId f = some r ∧ r.dataset = d ∧ r.field = f) ∧
        (s.findRows d f).Pairwise fun a b => a.recordId < b.recordId) ∧
      (∀ g, (∀ r, r ∈ (s.delete g).1 ↔
          s.findRow r.recordId r.field = some r ∧ g.selects r = true) ∧
        (s.delete g).1.Pairwise (fun a b => compare a.key b.key = .lt) ∧
        (∀ recordId field, (s.delete g).2.findRow recordId field =
          (s.findRow recordId field).filter fun r => !g.selects r) ∧
        ∀ r ∈ (s.delete g).2.toList, g.selects r = false) ∧
      ∀ g g', ((s.delete g).2.delete g').2 = ((s.delete g').2.delete g).2 ∧
        ((s.delete g).1 ++ ((s.delete g).2.delete g').1).Perm
          (s.toList.filter fun r => g.selects r || g'.selects r) ∧
        ((s.delete g).1 ++ ((s.delete g).2.delete g').1).Pairwise fun a b => a.key ≠ b.key := by
  intro s
  refine ⟨s.filed, s.size_eq_card, fun recordId field r => ?_,
    fun v now r hr => upsert_eq_revised hr now, fun d f => ⟨fun r => ?_, s.findRows_pairwise d f⟩,
    fun g => ⟨fun r => ?_, s.toList_pairwise.filter _, s.findRow_delete g, ?_⟩,
    fun g g' => ⟨delete_delete_comm s g g', delete_delete_perm s g g', ?_⟩⟩
  · rw [findRow_run_iff]
    have hnone : findRow {} recordId field = none := rfl
    simp [hnone]
  · rw [mem_findRows, mem_toList]
    constructor
    · rintro ⟨hfind, rfl, rfl⟩
      exact ⟨hfind, rfl, rfl⟩
    · rintro ⟨hfind, rfl, rfl⟩
      exact ⟨hfind, rfl, rfl⟩
  · rw [mem_delete, mem_toList]
  · intro r hr
    rw [toList_delete] at hr
    simpa using (List.mem_filter.mp hr).2
  · -- the rows that are given are among those of the store, in another order
    refine (delete_delete_perm s g g').symm.pairwise ?_ fun {a b} hne => hne.symm
    exact (s.toList_pairwise.filter _).imp Sorted.ne_of_compare_lt

end Store

end EmbeddingSearch
