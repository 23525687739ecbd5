import EmbeddingSearch.Proofs.Service.Interleaving

/-!
# What a run of generation does to other datasets

The catalog keeps records by dataset, and the store keeps vectors by record and field alone. A run
therefore leaves the vectors of another dataset as they are, except for those of a record id that
both datasets have: these become vectors of its own dataset.

## Contents
- `Program.storeVectors_keeps`, `Program.runBatch_keeps`, `Program.runBatches_keeps`: what single
  calls keep is kept by all batches.
- `writing`: the rule that a run stores vectors for its own records only, and removes nothing.
- `Service.generate_writes`: every run obeys it.
- `Event.storedKey?`, `Displaced`: what has become of the rows of another dataset; each call of a
  run keeps it.
- `generate_displaced`: every run.
-/

namespace EmbeddingSearch

/-! ## Batches -/

section Batches

variable {ρ : Rule} {I : List Event → Prop} {run : Run}
  (hkey : ρ.Free I (.invalidate ⟨run.dataset, run.field⟩))

include hkey

theorem Program.storeVectors_keeps (report : GenerationReport) {vectors : List (String × Embedding)}
    (hupsert : ∀ p ∈ vectors, ρ.Free I (.upsert (run.newVector p.1 p.2))) :
    (Program.storeVectors run report vectors).Keeps ρ I fun _ => True := by
  induction vectors generalizing report with
  | nil => exact .done trivial
  | cons p rest ih =>
    have hrest : ∀ p ∈ rest, ρ.Free I (.upsert (run.newVector p.1 p.2)) := fun p hp =>
      hupsert p (List.mem_cons_of_mem _ hp)
    refine (Program.Keeps.ask (hupsert p List.mem_cons_self)).bind ?_
    intro answer _
    cases answer with
    | error e => exact ih _ hrest
    | ok u => exact (Program.Keeps.ask hkey).bind fun _ _ => ih _ hrest

variable {request : List String → EmbeddingRequest} (hembed : ∀ q, ρ.Free I (.embed q))

include hembed

theorem Program.runBatch_keeps (report : GenerationReport) {batch : List RecordText}
    (hupsert : ∀ t ∈ batch, ∀ x, ρ.Free I (.upsert (run.newVector t.recordId x))) :
    (Program.runBatch request run report batch).Keeps ρ I fun _ => True := by
  refine (Program.Keeps.ask (hembed (request (batch.map RecordText.text)))).bind ?_
  intro answer _
  cases answer with
  | error e => exact .done trivial
  | ok response =>
    refine Program.storeVectors_keeps hkey _ fun p hp => ?_
    obtain ⟨t, ht, hid⟩ := List.mem_map.mp (List.of_mem_zip hp).1
    exact hid ▸ hupsert t ht p.2

theorem Program.runBatches_keeps (report : GenerationReport) {parts : List (List RecordText)}
    (hupsert : ∀ batch ∈ parts, ∀ t ∈ batch, ∀ x, ρ.Free I (.upsert (run.newVector t.recordId x))) :
    (Program.runBatches request run report parts).Keeps ρ I fun _ => True := by
  induction parts generalizing report with
  | nil => exact .done trivial
  | cons batch rest ih =>
    refine (Program.runBatch_keeps hkey hembed report (hupsert batch List.mem_cons_self)).bind ?_
    intro report _
    exact ih report fun batch hbatch => hupsert batch (List.mem_cons_of_mem _ hbatch)

end Batches

/-! ## What a run writes -/

/-- Whether a key is that of a record of a dataset, in the field of a run. -/
def GenerationRequest.Reaches (r : GenerationRequest) (catalog : Catalog) (d : Dataset)
    (key : RowKey) : Prop :=
  ∃ target record, r.target d = .ok target ∧ record ∈ catalog.listRecords d.id ∧
    key = ⟨record.id, targetName target⟩

/-- The catalog answers as it should. Vectors are stored for the records of a run, and nothing is
removed. -/
def writing (r : GenerationRequest) (catalog : Catalog) : Rule where
  legal _
    | .upsert v => ∃ d, catalog.findDataset r.dataset = some d ∧ v.dataset = d.id ∧
        r.Reaches catalog d ⟨v.recordId, v.field⟩
    | .delete _ => False
    | _ => True
  allows := catalog.Answers

section Writing

variable {r : GenerationRequest} {catalog : Catalog}

theorem Call.Reads.writes {c : Call} (h : c.Reads) :
    (writing r catalog).Free (fun _ => True) c := by
  refine fun past _ => ⟨?_, fun _ _ => trivial⟩
  cases c with
  | upsert v => cases h
  | delete f => cases h
  | _ => trivial

/-- Every run stores vectors for its records only, and removes nothing. -/
theorem Service.generate_writes (s : Service) (r : GenerationRequest) (catalog : Catalog) :
    (s.generate r).Keeps (writing r catalog) (fun _ => True) fun _ => True := by
  refine s.generate_keeps_answers (fun _ => Call.Reads.writes) r (fun _ _ h => h) ?_
  intro d target report parts hd htarget hparts
  refine Program.runBatches_keeps ?_ ?_ report ?_
  · exact fun _ _ => ⟨trivial, fun _ _ => trivial⟩
  · exact fun _ _ _ => ⟨trivial, fun _ _ => trivial⟩
  · intro batch hbatch t ht x past _
    obtain ⟨record, hrecord, rfl⟩ := hparts batch hbatch t ht
    refine ⟨⟨d, hd, rfl, target, record, htarget, hrecord, rfl⟩, ?_⟩
    exact fun _ _ => trivial

end Writing

/-! ## Rows of other datasets -/

/-- The key under which an event stores a vector. -/
def Event.storedKey? : Event → Option RowKey
  | ⟨.upsert v, .ok _⟩ => some ⟨v.recordId, v.field⟩
  | _ => none

/-- An event that changes no rows stores none. -/
theorem Event.storedKey?_of_not_changes {e : Event} (h : ∀ k, ¬ Event.Changes k e) :
    e.storedKey? = none := by
  unfold storedKey?
  split
  · next v u => exact absurd rfl (h ⟨v.dataset, v.field⟩)
  · rfl

/-- What has become of the rows of dataset `a` in field `f` after some events of a run that stores
vectors of dataset `d`: those under a key that was stored are gone, and in their place there are
rows of `d`. -/
structure Displaced (w : World) (r : GenerationRequest) (d : Dataset) (a f : String)
    (past : List Event) (w' : World) : Prop where
  catalog : w'.catalog = w.catalog
  rows : w'.store.findRows a f =
    (w.store.findRows a f).filter fun row => row.key ∉ past.filterMap Event.storedKey?
  taken : ∀ key ∈ past.filterMap Event.storedKey?, r.Reaches w.catalog d key ∧
    ∃ row, w'.store.findRow key.recordId key.field = some row ∧ row.dataset = d.id

section Displacing

variable {w w' w'' : World} {r : GenerationRequest} {d : Dataset} {a f : String}
  {past : List Event}

theorem Displaced.start : Displaced w r d a f [] w where
  catalog := rfl
  rows := by simp
  taken key hkey := absurd hkey List.not_mem_nil

/-- An event that stores nothing. -/
theorem Displaced.pass (h : Displaced w r d a f past w') {event : Event}
    (hevent : event.storedKey? = none) (hcatalog : w''.catalog = w'.catalog)
    (hstore : w''.store = w'.store) : Displaced w r d a f (event :: past) w'' := by
  have hkeys : (event :: past).filterMap Event.storedKey? = past.filterMap Event.storedKey? :=
    List.filterMap_cons_none hevent
  refine ⟨hcatalog.trans h.catalog, ?_, ?_⟩
  · rw [hstore, h.rows, hkeys]
  · rw [hkeys, hstore]
    exact h.taken

/-- A vector of the dataset is stored, in place of any row of its record and field. -/
theorem Displaced.upsert (h : Displaced w r d a f past w') {v : NewVector} (hv : v.dataset = d.id)
    (hreach : r.Reaches w.catalog d ⟨v.recordId, v.field⟩) (hne : d.id ≠ a)
    (hcatalog : w''.catalog = w'.catalog) {now : Timestamp}
    (hstore : w''.store = w'.store.upsert v now) :
    Displaced w r d a f (⟨.upsert v, .ok ()⟩ :: past) w'' := by
  have hkeys : (⟨.upsert v, .ok ()⟩ :: past : List Event).filterMap Event.storedKey? =
      ⟨v.recordId, v.field⟩ :: past.filterMap Event.storedKey? := rfl
  have hother : ¬ (v.dataset = a ∧ v.field = f) := fun hsame => hne (hv.symm.trans hsame.1)
  refine ⟨hcatalog.trans h.catalog, ?_, ?_⟩
  · rw [hstore, Store.findRows_upsert hother, h.rows, hkeys, List.filter_filter]
    refine List.filter_congr ?_
    intro row _
    rw [← Bool.decide_and, decide_eq_decide, List.mem_cons, not_or]
  · rw [hkeys, hstore]
    intro key hkey
    rw [Store.findRow_upsert]
    split
    · next hsame =>
      obtain ⟨recordId, field⟩ := key
      obtain ⟨rfl, rfl⟩ := hsame
      exact ⟨hreach, _, rfl, hv⟩
    · next hother =>
      rcases List.mem_cons.mp hkey with rfl | hkey
      · exact absurd ⟨rfl, rfl⟩ hother
      · exact h.taken key hkey

/-- Whatever a run calls, and whatever is answered. -/
theorem Displaced.step (hd : w.catalog.findDataset r.dataset = some d) (hne : d.id ≠ a)
    (h : Displaced w r d a f past w') {c : Call} (hlegal : (writing r w.catalog).legal past c) :
    Displaced w r d a f (⟨c, (w'.answer c).1⟩ :: past) (w'.answer c).2 := by
  have hcatalog := (w'.answer_fixed c).1
  have heffect := w'.answer_effect c
  -- the effect says all that matters of the answer and of the world after it
  revert hlegal hcatalog heffect
  generalize (w'.answer c).2 = w''
  generalize (w'.answer c).1 = answer
  intro hlegal hcatalog heffect
  cases heffect with
  | upsert v store cache =>
    obtain ⟨d', hd', hv, hreach⟩ := hlegal
    obtain rfl : d = d' := Option.some.inj (hd.symm.trans hd')
    exact h.upsert hv hreach hne hcatalog store
  | delete g store cache => exact hlegal.elim
  | other e changes generation findRows store cache settles =>
    exact h.pass (Event.storedKey?_of_not_changes changes) hcatalog store
  | cacheIfUnchanged k cs since kept store cache => exact h.pass rfl hcatalog store
  | generation store cache => exact h.pass rfl hcatalog store
  | findRows d' f' store cache => exact h.pass rfl hcatalog store

/-- A run takes from another dataset exactly the rows under the keys that it stores vectors under,
and leaves all others as they are and in their order, whether or not it succeeds. These are keys of
records that its own dataset has, in the field of the run, and the rows under them now belong to its
own dataset. -/
theorem generate_displaced (s : Service)
    (hd : w.catalog.findDataset r.dataset = some d) (hne : d.id ≠ a) (f : String) :
    let w' := ((s.generate r).run w).2
    let stored := (Program.trace (ExceptT.run (s.generate r)) w []).filterMap Event.storedKey?
    w'.store.findRows a f = (w.store.findRows a f).filter (fun row => row.key ∉ stored) ∧
      ∀ key ∈ stored, r.Reaches w.catalog d key ∧
        ∃ row, w'.store.findRow key.recordId key.field = some row ∧ row.dataset = d.id := by
  intro w' stored
  have hstep : ∀ past w₁ c, Displaced w r d a f past w₁ → (writing r w.catalog).legal past c →
      (writing r w.catalog).allows c (w₁.answer c).1 ∧
        Displaced w r d a f (⟨c, (w₁.answer c).1⟩ :: past) (w₁.answer c).2 := by
    intro past w₁ c h hlegal
    exact ⟨h.catalog ▸ w₁.answer_catalog c, h.step hd hne hlegal⟩
  have hend := ((s.generate_writes r w.catalog [] trivial).run_keeps hstep Displaced.start).2
  exact ⟨hend.rows, hend.taken⟩

end Displacing

/-- A record that is in two datasets: when its vector is made for the second one, the first one
loses the vector that it has, and keeps that of another record. -/
theorem generate_displaced_shared :
    let a : Dataset := ⟨"A", "a", [⟨"f", .text, true⟩]⟩
    let b : Dataset := ⟨"B", "b", [⟨"f", .text, true⟩]⟩
    let s : Service :=
      { settings := { ai := { enabled := true } }, providerName := "p", providerAvailable := true }
    let row := fun id => (⟨id, "A", "f", .single [0], "m", 1, Timestamp.ofMs 0⟩ : Row)
    let w : World :=
      { catalog := { datasets := [a, b], records := [("B", ⟨"x", [("f", .string "text")]⟩)] }
        store := (Store.insert {} (row "x")).insert (row "y")
        provider := ⟨"p", true, fun _ q => .ok ⟨[[1]], q.model, none⟩⟩ }
    let w' := ((s.generate (GenerationRequest.ofField "B" "f")).run w).2
    (w.store.findRows "A" "f").map Row.recordId = ["x", "y"] ∧
      (w'.store.findRows "A" "f").map Row.recordId = ["y"] := by
  intro a b s row w w'
  have hrows := (generate_displaced (w := w) (r := GenerationRequest.ofField "B" "f") (d := b)
    (a := "A") s rfl (by decide) "f").1
  have hstored : (Program.trace (ExceptT.run (s.generate (GenerationRequest.ofField "B" "f"))) w
      []).filterMap Event.storedKey? = [⟨"x", "f"⟩] := by decide +kernel
  refine ⟨by decide +kernel, ?_⟩
  rw [hrows, hstored]
  decide +kernel

/-- Datasets are not isolated in the store: a run may take a vector from another one. -/
theorem not_generate_isolated :
    ¬ ∀ (s : Service) (r : GenerationRequest) (w : World) (d : Dataset) (a f : String),
      w.catalog.findDataset r.dataset = some d → d.id ≠ a →
        ((s.generate r).run w).2.store.findRows a f = w.store.findRows a f := by
  intro hall
  let s : Service :=
    { settings := { ai := { enabled := true } }, providerName := "p", providerAvailable := true }
  let w : World :=
    { catalog :=
        { datasets := [⟨"A", "a", [⟨"f", .text, true⟩]⟩, ⟨"B", "b", [⟨"f", .text, true⟩]⟩]
          records := [("B", ⟨"x", [("f", .string "text")]⟩)] }
      store := Store.insert {} ⟨"x", "A", "f", .single [0], "m", 1, Timestamp.ofMs 0⟩
      provider := ⟨"p", true, fun _ q => .ok ⟨[[1]], q.model, none⟩⟩ }
  have hsame := hall s (GenerationRequest.ofField "B" "f") w ⟨"B", "b", [⟨"f", .text, true⟩]⟩ "A"
    "f" rfl (by decide)
  have hlength : (((s.generate (GenerationRequest.ofField "B" "f")).run w).2.store.findRows "A"
      "f").length ≠ (w.store.findRows "A" "f").length := by decide +kernel
  exact hlength (congrArg List.length hsame)

end EmbeddingSearch
