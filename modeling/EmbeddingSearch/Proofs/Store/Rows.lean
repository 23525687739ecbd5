import Mathlib.Tactic
import EmbeddingSearch.Store.Table

/-!
# The rows of a store

Storing a vector changes the rows of its own field and takes a row of its key away from any other
one, be it that an older row is revised in place or that a new one is filed; deleting takes away
what is selected.

## Contents
- `Sorted.Ascending.filter_insert`, `Sorted.Ascending.find?_eq_some_iff`,
  `Sorted.Ascending.modify_eq_insert`: keys in strictly ascending order.
- `Store.mem_toList`: every row is found under its key.
- `Store.upsert_eq_revised`, `Store.upsert_eq_insert`: both ways to store a vector come to the same.
- `Store.findRow_insert`, `Store.findRow_upsert`: the row of a key after one is stored.
- `Store.findRows_upsert`, `Store.findRows_delete`: what becomes of the rows of a field.
-/

namespace EmbeddingSearch

/-! ## Ascending keys -/

namespace Sorted

variable {κ β : Type} [Ord κ]

/-- Entries beside the new one are those of other keys. -/
theorem Ascending.filter_insert [Std.TransOrd κ] [Std.LawfulEqOrd κ] {m : List (κ × β)}
    (h : Ascending m) {k : κ} {x : β} {P : κ × β → Bool} (hP : P (k, x) = false) :
    (Sorted.insert k x m).filter P = (m.filter fun p => compare k p.1 ≠ .eq).filter P := by
  -- from the place of the new entry on, all keys are larger
  have larger : ∀ {rest : List (κ × β)}, (∀ p ∈ rest, compare k p.1 = .lt) →
      (rest.filter fun p => compare k p.1 ≠ .eq) = rest := by
    intro rest hrest
    rw [List.filter_eq_self]
    intro p hp
    simp [hrest p hp]
  induction m with
  | nil => simp [Sorted.insert, hP]
  | cons head rest ih =>
    obtain ⟨k', x'⟩ := head
    obtain ⟨hhead, hrest⟩ := List.pairwise_cons.mp h
    unfold Sorted.insert
    split
    · next hlt =>
      rw [List.filter_cons_of_neg (by simp [hP]), larger fun p hp => ?_]
      rcases List.mem_cons.mp hp with rfl | hp
      · exact hlt
      · exact Std.TransCmp.lt_trans hlt (hhead p hp)
    · next heq =>
      obtain rfl := Std.LawfulEqOrd.eq_of_compare heq
      rw [List.filter_cons_of_neg (by simp [hP]), List.filter_cons_of_neg (by simp), larger hhead]
    · next hgt =>
      have hkeep : (((k', x') :: rest).filter fun p => compare k p.1 ≠ .eq) =
          (k', x') :: rest.filter fun p => compare k p.1 ≠ .eq :=
        List.filter_cons_of_pos (by simp [hgt])
      rw [hkeep, List.filter_cons, List.filter_cons, ih hrest]

theorem ne_of_compare_lt [Std.ReflOrd κ] {k k' : κ} (h : compare k k' = .lt) : k ≠ k' := by
  rintro rfl
  rw [Std.ReflOrd.compare_self] at h
  cases h

/-- What is found under a key is the one entry with it. -/
theorem Ascending.find?_eq_some_iff [Std.TransOrd κ] [Std.LawfulEqOrd κ] {m : List (κ × β)}
    (h : Ascending m) {k : κ} {x : β} : find? k m = some x ↔ (k, x) ∈ m := by
  induction m with
  | nil => simp [find?]
  | cons head rest ih =>
    obtain ⟨k', x'⟩ := head
    obtain ⟨hhead, hrest⟩ := List.pairwise_cons.mp h
    by_cases heq : compare k k' = .eq
    · obtain rfl := Std.LawfulEqOrd.eq_of_compare heq
      -- all other keys are larger
      have hout : ∀ y, (k, y) ∉ rest := fun y hy => ne_of_compare_lt (hhead _ hy) rfl
      simp [find?, hout, eq_comm]
    · have hne : k ≠ k' := fun hk => heq (hk ▸ Std.ReflOrd.compare_self)
      simp [find?, heq, ih hrest, hne]

/-- Where there is a value, changing it is the same as setting the changed one. -/
theorem Ascending.modify_eq_insert [Std.TransOrd κ] [Std.LawfulEqOrd κ] {m : List (κ × β)}
    (h : Ascending m) {k : κ} {x : β} (hx : find? k m = some x) (f : β → β) :
    Sorted.modify k f m = Sorted.insert k (f x) m := by
  induction m with
  | nil => cases hx
  | cons head rest ih =>
    obtain ⟨k', x'⟩ := head
    obtain ⟨hhead, hrest⟩ := List.pairwise_cons.mp h
    unfold find? at hx
    unfold Sorted.modify Sorted.insert
    by_cases heq : compare k k' = .eq
    · rw [if_pos heq] at hx
      obtain rfl := Option.some.inj hx
      obtain rfl := Std.LawfulEqOrd.eq_of_compare heq
      rw [if_pos heq, heq]
    · -- the value is further on, so that its key is larger
      rw [if_neg heq] at hx
      have hgt : compare k k' = .gt :=
        Std.OrientedCmp.gt_iff_lt.mpr (hhead _ ((find?_eq_some_iff hrest).mp hx))
      rw [if_neg heq, hgt, ih hrest hx]

/-- No two entries have one key. -/
theorem Ascending.nodup_keys [Std.ReflOrd κ] {m : List (κ × β)} (h : Ascending m) :
    (m.map Prod.fst).Nodup :=
  List.pairwise_map.mpr (h.imp ne_of_compare_lt)

end Sorted

namespace Store

variable {s : Store}

/-! ## Rows and their keys -/

theorem findRow_eq_some_iff {recordId field : String} {r : Row} :
    s.findRow recordId field = some r ↔ (⟨recordId, field⟩, r) ∈ s.rows :=
  s.ascending.find?_eq_some_iff

/-- The row of a record and field has them in it. -/
theorem key_eq {recordId field : String} {r : Row} (hr : s.findRow recordId field = some r) :
    r.key = ⟨recordId, field⟩ :=
  (s.filed _ (findRow_eq_some_iff.mp hr)).symm

/-- Every row is found under its own record and field. -/
theorem mem_toList {r : Row} : r ∈ s.toList ↔ s.findRow r.recordId r.field = some r := by
  rw [findRow_eq_some_iff]
  constructor
  · intro hr
    obtain ⟨p, hp, rfl⟩ := List.mem_map.mp hr
    rwa [show (⟨p.2.recordId, p.2.field⟩ : RowKey) = p.1 from (s.filed p hp).symm]
  · intro hr
    exact List.mem_map_of_mem hr

/-! ## Storing a vector -/

/-- Storing a vector for a key that has a row is the same as filing the revised row. -/
theorem upsert_eq_revised {v : NewVector} {r : Row} (hr : s.findRow v.recordId v.field = some r)
    (now : Timestamp) : s.upsert v now = s.insert (r.revised v now) := by
  have hrows : (s.revise v now).rows = (s.insert (r.revised v now)).rows := by
    refine (s.ascending.modify_eq_insert hr (·.revised v now)).trans ?_
    rw [← key_eq hr]
    rfl
  rw [upsert, hr]
  exact Store.ext hrows

/-- Whether or not there is a row, the vector has one of its own afterwards. -/
theorem upsert_eq_insert (s : Store) (v : NewVector) (now : Timestamp) :
    s.upsert v now = s.insert (v.row now) := by
  cases hr : s.findRow v.recordId v.field with
  | none => rw [upsert, hr]
  | some r =>
    obtain ⟨hrecord, hfield⟩ := RowKey.mk.inj (key_eq hr)
    rw [upsert_eq_revised hr, Row.revised, hrecord, hfield]
    rfl

theorem mem_toList_upsert {v : NewVector} {now : Timestamp} {r : Row}
    (hr : r ∈ (s.upsert v now).toList) : r = v.row now ∨ r ∈ s.toList := by
  rw [upsert_eq_insert] at hr
  obtain ⟨p, hp, rfl⟩ := List.mem_map.mp hr
  rcases Sorted.mem_insert hp with rfl | hp
  · exact .inl rfl
  · exact .inr (List.mem_map_of_mem hp)

theorem mem_toList_delete {f : RowFilter} {r : Row}
    (hr : r ∈ (s.delete f).2.toList) : r ∈ s.toList := by
  obtain ⟨p, hp, rfl⟩ := List.mem_map.mp hr
  exact List.mem_map_of_mem (List.mem_of_mem_filter hp)

/-! ## The row of a key -/

theorem findRow_insert (s : Store) (r : Row) (recordId field : String) :
    (s.insert r).findRow recordId field =
      if recordId = r.recordId ∧ field = r.field then some r else s.findRow recordId field := by
  by_cases hkey : recordId = r.recordId ∧ field = r.field
  · obtain ⟨rfl, rfl⟩ := hkey
    rw [if_pos ⟨rfl, rfl⟩]
    exact Sorted.find?_insert_self _ _ _
  · rw [if_neg hkey]
    refine Sorted.find?_insert_of_ne ?_ _ _
    intro heq
    have hsame := Std.LawfulEqOrd.eq_of_compare heq
    exact hkey ⟨congrArg RowKey.recordId hsame, congrArg RowKey.field hsame⟩

theorem findRow_upsert (s : Store) (v : NewVector) (now : Timestamp) (recordId field : String) :
    (s.upsert v now).findRow recordId field =
      if recordId = v.recordId ∧ field = v.field then some (v.row now)
      else s.findRow recordId field := by
  rw [upsert_eq_insert]
  exact findRow_insert s (v.row now) recordId field

/-! ## The rows of a field -/

theorem mem_findRows {d f : String} {r : Row} :
    r ∈ s.findRows d f ↔ r ∈ s.toList ∧ r.dataset = d ∧ r.field = f := by
  simp [findRows, RowFilter.selects]

theorem findRows_eq (s : Store) (d f : String) : s.findRows d f =
    (s.rows.filter fun p => (RowFilter.field d f).selects p.2).map Prod.snd := by
  rw [findRows, toList, List.filter_map]
  rfl

/-- Storing a vector takes the row of its record and field away from every other dataset. -/
theorem findRows_upsert {v : NewVector} {d f : String} (hne : ¬ (v.dataset = d ∧ v.field = f))
    (now : Timestamp) : (s.upsert v now).findRows d f =
      (s.findRows d f).filter fun r => r.key ≠ ⟨v.recordId, v.field⟩ := by
  have hother : (RowFilter.field d f).selects (v.row now) = false := by
    show (decide (v.dataset = d) && decide (v.field = f)) = false
    rw [← Bool.decide_and, decide_eq_false hne]
  have hrows : (s.upsert v now).rows = Sorted.insert (v.row now).key (v.row now) s.rows := by
    rw [upsert_eq_insert]
    rfl
  rw [findRows_eq, findRows_eq, hrows, List.filter_map, List.filter_filter,
    s.ascending.filter_insert (k := (v.row now).key) (x := v.row now)
      (P := fun p => (RowFilter.field d f).selects p.2) hother, List.filter_filter]
  congr 1
  refine List.filter_congr ?_
  intro p hp
  have hkey : compare (v.row now).key p.1 ≠ .eq ↔ p.2.key ≠ ⟨v.recordId, v.field⟩ := by
    rw [s.filed p hp, ne_eq, Std.LawfulEqOrd.compare_eq_iff_eq, eq_comm]
    rfl
  rw [Bool.and_comm]
  congr 1
  exact decide_eq_decide.mpr hkey

/-- Deleting takes away the rows that are selected. -/
theorem findRows_delete (s : Store) (g : RowFilter) (d f : String) :
    (s.delete g).2.findRows d f = (s.findRows d f).filter fun r => !g.selects r := by
  simp only [findRows_eq, delete, List.filter_map, List.filter_filter]
  congr 1
  refine List.filter_congr ?_
  intro p _
  rw [Bool.and_comm]
  rfl

/-- A field none of whose rows is deleted keeps all of them. -/
theorem findRows_delete_of_not_mem {g : RowFilter} {d f : String}
    (h : ∀ r ∈ (s.delete g).1, ¬ (r.dataset = d ∧ r.field = f)) :
    (s.delete g).2.findRows d f = s.findRows d f := by
  rw [findRows_delete, List.filter_eq_self]
  intro r hr
  obtain ⟨hmem, hd, hf⟩ := mem_findRows.mp hr
  by_contra hsel
  exact h r (List.mem_filter.mpr ⟨hmem, by simpa using hsel⟩) ⟨hd, hf⟩

end Store

end EmbeddingSearch
