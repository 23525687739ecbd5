import EmbeddingSearch.Proofs.Json.Shape
import EmbeddingSearch.Proofs.Service.Trace
import EmbeddingSearch.Proofs.Store.Changes
import EmbeddingSearch.Service.Maintenance

/-!
# Records with a vector and records without one

How many records have a vector is found by counting the rows of a field, and which records have none
by looking for each of them among the rows. The two answers are those of one set of records only as
long as every row is that of a record that is listed: any other row is counted in place of a record
that has none.

## Contents
- `Service.ascending_perm`: ids in order are the same ids.
- `Service.coverage_run`, `Service.pending_run`: what the two operations give.
- `missing_eq_pending_iff`, `counts_agree_iff`: the two counts, on sets of ids.
- `coverage_agrees_iff`: when the two operations agree, and the counts add up.
-/

namespace EmbeddingSearch

/-! ## Ids in order -/

/-- A new key is put among the others. -/
theorem Sorted.keys_insert_perm {κ β : Type} [Ord κ] [Std.LawfulEqOrd κ] {k : κ}
    {m : List (κ × β)} (hk : k ∉ m.map Prod.fst) (x : β) :
    ((insert k x m).map Prod.fst).Perm (k :: m.map Prod.fst) := by
  induction m with
  | nil => exact List.Perm.refl _
  | cons head rest ih =>
    obtain ⟨k', x'⟩ := head
    rw [List.map_cons, List.mem_cons, not_or] at hk
    unfold insert
    split
    · exact List.Perm.refl _
    · next heq => exact absurd (Std.LawfulEqOrd.eq_of_compare heq) hk.1
    · exact ((ih hk.2).cons k').trans (List.Perm.swap k k' _)

namespace Service

/-- Ids that are different are only put in order. -/
theorem ascending_perm {ids : List String} (h : ids.Nodup) : (ascending ids).Perm ids := by
  induction ids using List.reverseRecOn with
  | nil => exact List.Perm.refl _
  | append_singleton ids id ih =>
    obtain ⟨hids, -, hnew⟩ := List.nodup_append.mp h
    have hperm := ih hids
    have hid : id ∉ ascending ids := fun hmem =>
      hnew id (hperm.mem_iff.mp hmem) id (List.mem_singleton_self id) rfl
    have hlast : ascending (ids ++ [id]) =
        (Sorted.insert id () (Sorted.ofList (ids.map fun id => (id, ())))).map Prod.fst := by
      rw [ascending, List.map_append, List.map_singleton, Sorted.ofList_concat]
    rw [hlast]
    exact ((Sorted.keys_insert_perm hid ()).trans (hperm.cons id)).trans
      (List.perm_append_singleton id ids).symm

/-! ## The two operations -/

section Runs

variable {w : World} {idOrName : String} {d : Dataset}

/-- Whether nothing is out in a world that has the data of another one. -/
structure SameData (w w' : World) : Prop where
  outage : ∀ n c, w'.outage n c = none
  catalog : w'.catalog = w.catalog
  store : w'.store = w.store

theorem dataset_run (hw : ∀ n c, w.outage n c = none)
    (hd : w.catalog.findDataset idOrName = some d) :
    ∃ w', (Action.dataset idOrName).run w = (.ok d, w') ∧ SameData w w' := by
  have hfound : (Action.orFail (Program.ask (.findDataset idOrName))).run w =
      (.ok (w.catalog.findDataset idOrName), { w with calls := w.calls + 1 }) :=
    World.attempt_answered hw (.findDataset idOrName) fun w => (w.catalog.findDataset idOrName, w)
  refine ⟨{ w with calls := w.calls + 1 }, Action.run_bind_ok.mpr ⟨_, _, hfound, ?_⟩,
    ⟨hw, rfl, rfl⟩⟩
  rw [hd]
  rfl

theorem listRecords_run {w' : World} (h : SameData w w') (dataset : String) :
    ∃ w'', (Action.orFail (Program.ask (.listRecords dataset))).run w' =
      (.ok (w.catalog.listRecords dataset), w'') ∧ SameData w w'' := by
  refine ⟨{ w' with calls := w'.calls + 1 }, ?_, ⟨h.outage, h.catalog, h.store⟩⟩
  rw [← h.catalog]
  exact World.attempt_answered h.outage (.listRecords dataset)
    fun w => (w.catalog.listRecords dataset, w)

theorem findRows_run {w' : World} (h : SameData w w') (dataset field : String) :
    ∃ w'', (Action.orFail (Program.ask (.findRows dataset field))).run w' =
      (.ok (w.store.findRows dataset field), w'') ∧ SameData w w'' := by
  refine ⟨{ w' with calls := w'.calls + 1 }.interfered, ?_, ⟨h.outage, h.catalog, h.store⟩⟩
  rw [← h.store]
  exact World.attempt_answered h.outage (.findRows dataset field)
    fun w => (w.store.findRows dataset field, w.interfered)

/-- The rows of a field are counted, and taken off the number of records. -/
theorem coverage_run (hw : ∀ n c, w.outage n c = none)
    (hd : w.catalog.findDataset idOrName = some d) (field : String) :
    ∃ w', (coverage idOrName field).run w =
      (.ok ⟨(w.catalog.listRecords d.id).length, (w.store.findRows d.id field).length,
        (w.catalog.listRecords d.id).length - (w.store.findRows d.id field).length⟩, w') := by
  obtain ⟨w₁, hdataset, h₁⟩ := dataset_run hw hd
  obtain ⟨w₂, hrecords, h₂⟩ := listRecords_run h₁ d.id
  obtain ⟨w₃, hrows, -⟩ := findRows_run h₂ d.id field
  refine ⟨w₃, Action.run_bind_ok.mpr ⟨d, w₁, hdataset, ?_⟩⟩
  exact Action.run_bind_ok.mpr ⟨_, w₂, hrecords, Action.run_bind_ok.mpr ⟨_, w₃, hrows, rfl⟩⟩

/-- The ids of records that no row is of are given. -/
theorem pending_run (hw : ∀ n c, w.outage n c = none)
    (hd : w.catalog.findDataset idOrName = some d) (field : String) :
    ∃ w', (pending idOrName field).run w =
      (.ok (ascending (((w.catalog.listRecords d.id).map Record.id).filter fun id =>
        !((w.store.findRows d.id field).map Row.recordId).contains id)), w') := by
  obtain ⟨w₁, hdataset, h₁⟩ := dataset_run hw hd
  obtain ⟨w₂, hrows, h₂⟩ := findRows_run h₁ d.id field
  obtain ⟨w₃, hrecords, -⟩ := listRecords_run h₂ d.id
  refine ⟨w₃, Action.run_bind_ok.mpr ⟨d, w₁, hdataset, ?_⟩⟩
  exact Action.run_bind_ok.mpr ⟨_, w₂, hrows, Action.run_bind_ok.mpr ⟨_, w₃, hrecords, rfl⟩⟩

end Runs

end Service

/-! ## Counts -/

section Counts

variable {listed stored : Finset String}

/-- As many are missing as have no row when the rows are those of some records, or there is one for
each of them. -/
theorem missing_eq_pending_iff :
    listed.card - stored.card = (listed \ stored).card ↔ stored ⊆ listed ∨ listed ⊆ stored := by
  have hboth := Finset.card_sdiff_add_card_inter listed stored
  have hle : (listed ∩ stored).card ≤ stored.card := Finset.card_le_card Finset.inter_subset_right
  have hle' : (listed ∩ stored).card ≤ listed.card := Finset.card_le_card Finset.inter_subset_left
  have hstored : stored ⊆ listed ↔ (listed ∩ stored).card = stored.card := by
    rw [← Finset.inter_eq_right]
    exact ⟨congrArg _, fun h => Finset.eq_of_subset_of_card_le Finset.inter_subset_right h.ge⟩
  have hlisted : listed ⊆ stored ↔ (listed ∩ stored).card = listed.card := by
    rw [← Finset.inter_eq_left]
    exact ⟨congrArg _, fun h => Finset.eq_of_subset_of_card_le Finset.inter_subset_left h.ge⟩
  rw [hstored, hlisted]
  omega

/-- If the counts add up as well, all rows are those of records. -/
theorem counts_agree_iff :
    (listed.card - stored.card = (listed \ stored).card ∧
        stored.card + (listed.card - stored.card) = listed.card) ↔ stored ⊆ listed := by
  rw [missing_eq_pending_iff]
  constructor
  · rintro ⟨hstored | hlisted, hsum⟩
    · exact hstored
    · -- no more rows than records, and one for each of them
      exact (Finset.eq_of_subset_of_card_le hlisted (by omega)).ge
  · intro hstored
    have := Finset.card_le_card hstored
    exact ⟨.inl hstored, by omega⟩

end Counts

/-! ## Agreement -/

/-- In a catalog whose records of a dataset have different ids, whatever rows there are, the number of
missing vectors is that of the pending ids and adds up with that of the stored ones to the number of
records if and only if every row of the field is that of a listed record. The first of the two also
holds when every record has a row. -/
theorem coverage_agrees_iff {w : World} (hw : ∀ n c, w.outage n c = none) {idOrName : String}
    {d : Dataset} (hd : w.catalog.findDataset idOrName = some d)
    (hids : ((w.catalog.listRecords d.id).map Record.id).Nodup) (field : String) :
    ∃ c w₁ ids w₂, (Service.coverage idOrName field).run w = (.ok c, w₁) ∧
      (Service.pending idOrName field).run w = (.ok ids, w₂) ∧
      ((c.missing = ids.length ∧ c.embedded + c.missing = c.total) ↔
        (w.store.findRows d.id field).map Row.recordId ⊆
          (w.catalog.listRecords d.id).map Record.id) ∧
      (c.missing = ids.length ↔
        (w.store.findRows d.id field).map Row.recordId ⊆
            (w.catalog.listRecords d.id).map Record.id ∨
          (w.catalog.listRecords d.id).map Record.id ⊆
            (w.store.findRows d.id field).map Row.recordId) := by
  obtain ⟨w₁, hcoverage⟩ := Service.coverage_run hw hd field
  obtain ⟨w₂, hpending⟩ := Service.pending_run hw hd field
  refine ⟨_, w₁, _, w₂, hcoverage, hpending, ?_⟩
  -- no record has two rows in a field, so rows and records are sets of ids
  have hrows : ((w.store.findRows d.id field).map Row.recordId).Nodup :=
    List.pairwise_map.mpr ((w.store.findRows_pairwise d.id field).imp ne_of_lt)
  have hlisted := List.toFinset_card_of_nodup hids
  have hstored := List.toFinset_card_of_nodup hrows
  have hpending : ((w.catalog.listRecords d.id).map Record.id).toFinset \
      ((w.store.findRows d.id field).map Row.recordId).toFinset =
        (((w.catalog.listRecords d.id).map Record.id).filter fun id =>
          !((w.store.findRows d.id field).map Row.recordId).contains id).toFinset := by
    ext id
    simp
  rw [List.length_map] at hlisted hstored
  dsimp only
  rw [(Service.ascending_perm (hids.filter _)).length_eq,
    ← List.toFinset_card_of_nodup (hids.filter _), ← hpending, ← hlisted, ← hstored,
    counts_agree_iff, missing_eq_pending_iff]
  simp only [Finset.subset_iff, List.mem_toFinset, List.subset_def, and_self]

/-- A row of a record that is not listed: one record has no vector, but none is counted as missing. -/
theorem coverage_agrees_iff_unlisted :
    let w : World :=
      { catalog := { datasets := [⟨"A", "a", []⟩], records := [("A", ⟨"r", []⟩)] }
        store := Store.insert {} ⟨"x", "A", "f", .single [0], "m", 1, Timestamp.ofMs 0⟩
        provider := ⟨"p", true, fun _ q => .ok ⟨[], q.model, none⟩⟩ }
    (∀ n c, w.outage n c = none) ∧
      w.catalog.findDataset "a" = some ⟨"A", "a", []⟩ ∧
      ((w.catalog.listRecords "A").map Record.id).Nodup ∧
      ∃ c w₁ ids w₂, (Service.coverage "a" "f").run w = (.ok c, w₁) ∧
        (Service.pending "a" "f").run w = (.ok ids, w₂) ∧ c.missing ≠ ids.length := by
  intro w
  have hfind : w.catalog.findDataset "a" = some ⟨"A", "a", []⟩ := rfl
  have hids : ((w.catalog.listRecords "A").map Record.id).Nodup := by decide
  obtain ⟨c, w₁, ids, w₂, hc, hids', -, hmissing⟩ :=
    coverage_agrees_iff (fun _ _ => rfl) hfind hids "f"
  refine ⟨fun _ _ => rfl, hfind, hids, c, w₁, ids, w₂, hc, hids', fun heq => ?_⟩
  have hsubset := hmissing.mp heq
  revert hsubset
  decide +kernel

end EmbeddingSearch
