/-!
# Sorted association lists

A finite map kept as a list of pairs in strictly ascending key order, so that going through it
gives the keys in order. JSON objects and the vector store are such maps.

## Contents
- `Sorted.insert`: one entry per key, the new value replacing an old one in place.
- `Sorted.modify`: the value of a key is changed, if there is one.
- `Sorted.find?`: look-up by key.
- `Sorted.ofList`: all entries of a list, a later one winning over an earlier one of the same key.
- `Sorted.Ascending`: the order of the keys, which `insert` and `modify` keep.
-/

namespace EmbeddingSearch

namespace Sorted

variable {κ β : Type} [Ord κ]

/-- The map with `k` set to `x`. -/
def insert (k : κ) (x : β) : List (κ × β) → List (κ × β)
  | [] => [(k, x)]
  | (k', x') :: rest =>
    match compare k k' with
    | .lt => (k, x) :: (k', x') :: rest
    | .eq => (k, x) :: rest
    | .gt => (k', x') :: insert k x rest

/-- The map with the value of `k`, if it has one, changed by `f`. -/
def modify (k : κ) (f : β → β) : List (κ × β) → List (κ × β)
  | [] => []
  | (k', x) :: rest => if compare k k' = .eq then (k', f x) :: rest else (k', x) :: modify k f rest

/-- The value of the key `k`. -/
def find? (k : κ) : List (κ × β) → Option β
  | [] => none
  | (k', x) :: rest => if compare k k' = .eq then some x else find? k rest

/-- The map that holds, for each key of a list, the last value listed with it. -/
def ofList (entries : List (κ × β)) : List (κ × β) :=
  entries.foldl (fun m (k, x) => insert k x m) []

/-! ## Look-up after an insertion -/

theorem find?_insert_self [Std.LawfulEqOrd κ] (k : κ) (x : β)
    (m : List (κ × β)) : find? k (insert k x m) = some x := by
  induction m with
  | nil => simp [insert, find?]
  | cons head rest ih =>
    obtain ⟨k', x'⟩ := head
    unfold insert
    split
    · simp [find?]
    · simp [find?]
    · next h => simp [find?, h, ih]

theorem find?_insert_of_ne [Std.LawfulEqOrd κ] {k k' : κ} (h : compare k' k ≠ .eq) (x : β)
    (m : List (κ × β)) : find? k' (insert k x m) = find? k' m := by
  induction m with
  | nil => simp [insert, find?, h]
  | cons head rest ih =>
    obtain ⟨l, y⟩ := head
    unfold insert
    split
    · simp [find?, h]
    · next e =>
      obtain rfl := Std.LawfulEqOrd.eq_of_compare e
      simp [find?, h]
    · simp only [find?, ih]

/-! ## Ascending keys -/

/-- Whether the keys of a list are in strictly ascending order. -/
def Ascending (m : List (κ × β)) : Prop := m.Pairwise fun p q => compare p.1 q.1 = .lt

theorem mem_insert {k : κ} {x : β} {m : List (κ × β)} {p : κ × β} (hp : p ∈ insert k x m) :
    p = (k, x) ∨ p ∈ m := by
  induction m with
  | nil => exact .inl (List.mem_singleton.mp hp)
  | cons head rest ih =>
    obtain ⟨k', x'⟩ := head
    unfold insert at hp
    split at hp
    · exact List.mem_cons.mp hp
    · rcases List.mem_cons.mp hp with h | h
      · exact .inl h
      · exact .inr (List.mem_cons_of_mem _ h)
    · rcases List.mem_cons.mp hp with rfl | h
      · exact .inr List.mem_cons_self
      · exact (ih h).imp_right (List.mem_cons_of_mem _)

theorem Ascending.insert [Std.TransOrd κ] [Std.LawfulEqOrd κ] {m : List (κ × β)}
    (h : Ascending m) (k : κ) (x : β) : Ascending (insert k x m) := by
  induction m with
  | nil => exact List.pairwise_singleton _ _
  | cons head rest ih =>
    obtain ⟨k', x'⟩ := head
    obtain ⟨hhead, hrest⟩ := List.pairwise_cons.mp h
    unfold Sorted.insert
    split
    · next hlt =>
      refine List.pairwise_cons.mpr ⟨fun p hp => ?_, h⟩
      rcases List.mem_cons.mp hp with rfl | hp
      · exact hlt
      · exact Std.TransCmp.lt_trans hlt (hhead p hp)
    · next heq =>
      obtain rfl := Std.LawfulEqOrd.eq_of_compare heq
      exact List.pairwise_cons.mpr ⟨hhead, hrest⟩
    · next hgt =>
      refine List.pairwise_cons.mpr ⟨fun p hp => ?_, ih hrest⟩
      rcases mem_insert hp with rfl | hp
      · exact Std.OrientedCmp.gt_iff_lt.mp hgt
      · exact hhead p hp

/-- An entry of a changed map is an old one, be it with a changed value. -/
theorem mem_modify {k : κ} {f : β → β} {m : List (κ × β)} {p : κ × β} (hp : p ∈ modify k f m) :
    p ∈ m ∨ ∃ x, (p.1, x) ∈ m ∧ p.2 = f x := by
  induction m with
  | nil => exact .inl hp
  | cons head rest ih =>
    obtain ⟨k', x⟩ := head
    unfold modify at hp
    split at hp
    · rcases List.mem_cons.mp hp with rfl | hp
      · exact .inr ⟨x, List.mem_cons_self, rfl⟩
      · exact .inl (List.mem_cons_of_mem _ hp)
    · rcases List.mem_cons.mp hp with rfl | hp
      · exact .inl List.mem_cons_self
      · rcases ih hp with hp | ⟨y, hy, heq⟩
        · exact .inl (List.mem_cons_of_mem _ hp)
        · exact .inr ⟨y, List.mem_cons_of_mem _ hy, heq⟩

/-- A change of a value leaves all keys as they are. -/
theorem Ascending.modify {m : List (κ × β)} (h : Ascending m) (k : κ) (f : β → β) :
    Ascending (modify k f m) := by
  induction m with
  | nil => exact h
  | cons head rest ih =>
    obtain ⟨k', x⟩ := head
    obtain ⟨hhead, hrest⟩ := List.pairwise_cons.mp h
    unfold Sorted.modify
    split
    · exact List.pairwise_cons.mpr ⟨hhead, hrest⟩
    · refine List.pairwise_cons.mpr ⟨fun p hp => ?_, ih hrest⟩
      rcases mem_modify hp with hp | ⟨y, hy, -⟩
      · exact hhead p hp
      · exact hhead (p.1, y) hy

end Sorted

end EmbeddingSearch
