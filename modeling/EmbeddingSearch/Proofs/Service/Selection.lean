import EmbeddingSearch.Proofs.Service.Trace
import EmbeddingSearch.Service.Generation

/-!
# What a run of generation embeds

The texts of a run are those of the records that are selected, and they are sent in consecutive
parts of equal length. A run that succeeds got all that it asked the catalog for.

## Contents
- `batchAt`, `batches_eq`, `flatten_batches`: the batches of a list by their places, and put
  together again.
- `GenerationRequest.records`, `GenerationRequest.lookups`: the records of a run, and how often it
  asks for them.
- `Plan`, `Service.plan`: what a run is to embed and to store.
- `Service.textsOf_eq`: the texts of a run, spelled out.
- `Service.generate_run`: a run that succeeds, as the run of its batches, with its events.
-/

namespace EmbeddingSearch

/-! ## Batches -/

section Batches

variable {α : Type}

/-- The part of a list in some place when it is cut into parts of `size` elements. -/
def batchAt (size i : Nat) (xs : List α) : List α := (xs.drop (i * size)).take size

theorem getElem?_batchAt {size i j : Nat} (hj : j < size) (xs : List α) :
    (batchAt size i xs)[j]? = xs[i * size + j]? := by
  rw [batchAt, List.getElem?_take_of_lt hj, List.getElem?_drop]

theorem length_batchAt (size i : Nat) (xs : List α) :
    (batchAt size i xs).length = min size (xs.length - i * size) := by
  rw [batchAt, List.length_take, List.length_drop]

/-- How many parts of `size` elements a list is cut into. -/
def batchCount (size : Nat) (xs : List α) : Nat := (xs.length + size - 1) / size

theorem lt_batchCount {size i : Nat} (hsize : 0 < size) (xs : List α) :
    i < batchCount size xs ↔ i * size < xs.length := by
  rw [batchCount, ← Nat.succ_le_iff, Nat.le_div_iff_mul_le hsize, Nat.succ_mul]
  omega

theorem batchCount_cons {size : Nat} (hsize : 0 < size) (x : α) (rest : List α) :
    batchCount size (x :: rest) = batchCount size (rest.drop (size - 1)) + 1 := by
  -- the counts agree because they are above the same numbers
  have hlt : ∀ i, i < batchCount size (x :: rest) ↔
      i < batchCount size (rest.drop (size - 1)) + 1 := by
    intro i
    cases i with
    | zero => simp [lt_batchCount hsize]
    | succ i =>
      rw [lt_batchCount hsize, Nat.succ_lt_succ_iff, lt_batchCount hsize, List.length_drop,
        List.length_cons, Nat.succ_mul]
      omega
  have hle := hlt (batchCount size (x :: rest))
  have hge := hlt (batchCount size (rest.drop (size - 1)) + 1)
  omega

/-- The batches of a list are its parts, one after the other. -/
theorem batches_eq {size : Nat} (hsize : 0 < size) (xs : List α) :
    batches size xs = (List.range (batchCount size xs)).map fun i => batchAt size i xs := by
  induction xs using batches.induct size with
  | case1 =>
    have hnone : batchCount size ([] : List α) = 0 := by
      by_contra h
      exact absurd ((lt_batchCount hsize []).mp (Nat.pos_of_ne_zero h)) (by simp)
    rw [batches, hnone]
    rfl
  | case2 x rest ih =>
    rw [batches, ih, batchCount_cons hsize, List.range_succ_eq_map, List.map_cons, List.map_map]
    congr 1
    · obtain ⟨n, rfl⟩ := Nat.exists_eq_add_of_lt hsize
      simp [batchAt]
    · refine List.map_congr_left ?_
      intro i _
      have hplace : (i + 1) * size = size - 1 + i * size + 1 := by
        rw [Nat.succ_mul]
        omega
      show _ = batchAt size (i + 1) (x :: rest)
      rw [batchAt, batchAt, hplace, List.drop_succ_cons, List.drop_drop]

theorem batches_max (size : Nat) (xs : List α) : batches size xs = batches (max 1 size) xs := by
  cases size with
  | succ n => rw [Nat.max_eq_right (Nat.succ_pos n)]
  | zero =>
    induction xs using batches.induct 0 with
    | case1 => rw [batches, batches]
    | case2 x rest ih =>
      rw [batches, ih, batches]
      rfl

theorem flatten_batches (size : Nat) (xs : List α) : (batches size xs).flatten = xs := by
  induction xs using batches.induct size with
  | case1 =>
    rw [batches]
    rfl
  | case2 x rest ih => rw [batches, List.flatten_cons, ih, List.cons_append, List.take_append_drop]

theorem mem_batches {size : Nat} {xs part : List α} (hp : part ∈ batches size xs) {x : α}
    (hx : x ∈ part) : x ∈ xs := by
  rw [← flatten_batches size xs]
  exact List.mem_flatten_of_mem hp hx

end Batches

/-! ## Plans -/

/-- What a run is to embed and to store. -/
structure Plan where
  run : Run
  request : List String → EmbeddingRequest
  /-- How many texts a batch has, the last one perhaps fewer. -/
  size : Nat
  texts : List RecordText

/-- The records of a run: those of its ids that have one, or all. -/
def GenerationRequest.records (r : GenerationRequest) (catalog : Catalog) (dataset : String) :
    List Record :=
  match r.recordIds with
  | some (id :: ids) => (id :: ids).filterMap (catalog.findRecord dataset)
  | _ => catalog.listRecords dataset

/-- How often a run asks the catalog for records. -/
def GenerationRequest.lookups (r : GenerationRequest) : Nat :=
  match r.recordIds with
  | some (id :: ids) => (id :: ids).length
  | _ => 1

/-- What a run embeds and stores. -/
def Service.plan (s : Service) (r : GenerationRequest) (d : Dataset) (target : Option Field)
    (records : List Record) : Plan where
  run := ⟨d.id, targetName target, s.settings.ai.model⟩
  request texts := s.embeddingRequest texts s.settings.ai.generationTimeoutSecs
  size := max 1 s.settings.generation.batchSize
  texts := s.textsOf r d target records

/-- The texts of a run are those of its field or of whole records, as far as they are not empty. -/
theorem Service.textsOf_eq (s : Service) (r : GenerationRequest) (d : Dataset)
    (target : Option Field) (records : List Record) : s.textsOf r d target records =
      (records.map fun record => (⟨record.id, match target with
        | some f => record.fieldText f
        | none => record.render d r.template s.settings.generation.maxFieldChars⟩ :
          RecordText)).filter fun t => t.text ≠ "" := by
  unfold Service.textsOf Service.textOf
  congr 1
  funext t
  rw [Bool.eq_iff_iff]
  simp

/-! ## Runs that succeed -/

section Succeeding

variable {w w' : World}

/-- A call that succeeds does its work. -/
theorem World.attempt_ok {α : Type} (c : Call) (work : World → α × World) {a : α}
    (h : w.attempt c work = (.ok a, w')) : work { w with calls := w.calls + 1 } = (a, w') := by
  unfold attempt at h
  cases ho : w.outage w.calls c with
  | some e =>
    rw [ho] at h
    cases h
  | none =>
    rw [ho] at h
    cases h
    rfl

theorem Service.requireEnabled_of_enabled {s : Service} (h : s.settings.ai.enabled = true) :
    s.requireEnabled = pure () :=
  if_pos h

theorem Service.requireEnabled_of_disabled {s : Service} (h : s.settings.ai.enabled = false) :
    s.requireEnabled = Action.fail .disabled :=
  if_neg (Bool.not_eq_true _ ▸ h)

theorem Service.requireProvider_cases (s : Service) :
    s.requireProvider = pure () ∨ ∃ e, s.requireProvider = Action.fail e := by
  unfold requireProvider requireEnabled
  by_cases henabled : s.settings.ai.enabled = true
  · by_cases havailable : s.providerAvailable = true
    · by_cases hmodel : s.settings.ai.model.isEmpty = true
      · simp only [henabled, havailable, hmodel, if_true]
        exact .inr ⟨_, rfl⟩
      · simp only [henabled, havailable, if_true, if_neg hmodel]
        exact .inl rfl
    · simp only [henabled, if_true, if_neg havailable]
      exact .inr ⟨_, rfl⟩
  · simp only [if_neg henabled]
    exact .inr ⟨_, rfl⟩

/-- The first check of a run calls nothing. -/
theorem Service.requireProvider_ok {s : Service} {u : Unit}
    (h : s.requireProvider.run w = (.ok u, w')) :
    w' = w ∧ ∀ past, Program.trace (ExceptT.run s.requireProvider) w past = past := by
  rcases s.requireProvider_cases with hready | ⟨e, hfail⟩
  · rw [hready] at h ⊢
    cases h
    exact ⟨rfl, fun _ => rfl⟩
  · rw [hfail] at h
    cases h

theorem Action.dataset_ok {idOrName : String} {d : Dataset}
    (h : (Action.dataset idOrName).run w = (.ok d, w')) :
    w.catalog.findDataset idOrName = some d ∧ w' = { w with calls := w.calls + 1 } := by
  obtain ⟨found, w₁, hfound, hd⟩ := Action.run_bind_ok.mp h
  have hanswer := World.attempt_ok (.findDataset idOrName)
    (fun w => (w.catalog.findDataset idOrName, w)) hfound
  cases hanswer
  cases hfound : w.catalog.findDataset idOrName with
  | none =>
    rw [hfound] at hd
    cases hd
  | some d' =>
    rw [hfound] at hd
    cases hd
    exact ⟨rfl, rfl⟩

/-- Looking up a dataset is one call. -/
theorem Action.trace_dataset (idOrName : String) (w : World) (past : List Event) :
    Program.trace (ExceptT.run (Action.dataset idOrName)) w past =
      ⟨.findDataset idOrName, (w.answer (.findDataset idOrName)).1⟩ :: past := by
  show Program.trace (Program.call (.findDataset idOrName) _) w past = _
  rw [Program.trace]
  rcases (w.answer (.findDataset idOrName)).1 with e | none | d
  · rfl
  · rfl
  · rfl

theorem Action.recordsOf_ok {dataset : String} {ids : List String} {records : List Record}
    (h : (Action.recordsOf dataset ids).run w = (.ok records, w')) :
    records = ids.filterMap (w.catalog.findRecord dataset) ∧
      w' = { w with calls := w.calls + ids.length } := by
  induction ids generalizing w w' records with
  | nil =>
    cases h
    exact ⟨rfl, rfl⟩
  | cons id ids ih =>
    obtain ⟨found, w₁, hfound, h⟩ := Action.run_bind_ok.mp h
    obtain ⟨rest, w₂, hrest, h⟩ := Action.run_bind_ok.mp h
    have hanswer := World.attempt_ok (.findRecord dataset id)
      (fun w => (w.catalog.findRecord dataset id, w)) hfound
    cases hanswer
    obtain ⟨rfl, rfl⟩ := ih hrest
    rw [List.filterMap_cons, List.length_cons]
    cases hone : w.catalog.findRecord dataset id with
    | none =>
      rw [hone] at h
      cases h
      exact ⟨rfl, by rw [Nat.add_right_comm, Nat.add_assoc]⟩
    | some record =>
      rw [hone] at h
      cases h
      exact ⟨rfl, by rw [Nat.add_right_comm, Nat.add_assoc]⟩

theorem Action.listRecords_ok {dataset : String} {records : List Record}
    (h : (Action.orFail (Program.ask (.listRecords dataset))).run w = (.ok records, w')) :
    records = w.catalog.listRecords dataset ∧ w' = { w with calls := w.calls + 1 } := by
  have hanswer := World.attempt_ok (.listRecords dataset)
    (fun w => (w.catalog.listRecords dataset, w)) h
  cases hanswer
  exact ⟨rfl, rfl⟩

theorem Action.selected_ok {r : GenerationRequest} {dataset : String} {records : List Record}
    (h : (Action.selected r dataset).run w = (.ok records, w')) :
    records = r.records w.catalog dataset ∧ w' = { w with calls := w.calls + r.lookups } := by
  unfold Action.selected at h
  unfold GenerationRequest.records GenerationRequest.lookups
  rcases hids : r.recordIds with _ | _ | ⟨id, ids⟩
  · rw [hids] at h
    exact Action.listRecords_ok h
  · rw [hids] at h
    exact Action.listRecords_ok h
  · rw [hids] at h
    exact Action.recordsOf_ok h

/-- A run that succeeds is that of its batches, after the calls to the catalog, and its events are
those of its batches, after those of these calls. -/
theorem Service.generate_run {s : Service} {r : GenerationRequest} {g : GenerationReport}
    (h : (s.generate r).run w = (.ok g, w')) :
    ∃ d target, w.catalog.findDataset r.dataset = some d ∧ r.target d = .ok target ∧
      ∃ p report, p = s.plan r d target (r.records w.catalog d.id) ∧
        (Program.runBatches p.request p.run
          { skipped := (r.records w.catalog d.id).length - p.texts.length }
          (batches p.size p.texts)).run { w with calls := w.calls + (1 + r.lookups) } =
            (report, w') ∧ g = report.capped s.settings.generation.maxErrors ∧
        ∃ answer, Program.trace (ExceptT.run (s.generate r)) w [] =
          (Program.runBatches p.request p.run
            { skipped := (r.records w.catalog d.id).length - p.texts.length }
            (batches p.size p.texts)).trace { w with calls := w.calls + (1 + r.lookups) }
              (Program.trace (ExceptT.run (Action.selected r d.id))
                { w with calls := w.calls + 1 } [⟨.findDataset r.dataset, answer⟩]) := by
  obtain ⟨u, w₁, hready, h₁⟩ := Action.run_bind_ok.mp h
  obtain ⟨d, w₂, hdataset, h₂⟩ := Action.run_bind_ok.mp h₁
  obtain ⟨target, w₃, htarget, h₃⟩ := Action.run_bind_ok.mp h₂
  obtain ⟨records, w₄, hrecords, h₄⟩ := Action.run_bind_ok.mp h₃
  obtain ⟨report, w₅, hreport, h₅⟩ := Action.run_bind_ok.mp h₄
  have htrace : Program.trace (ExceptT.run (s.generate r)) w [] = _ :=
    (Action.trace_bind_ok hready []).trans <| (Action.trace_bind_ok hdataset _).trans <|
      (Action.trace_bind_ok htarget _).trans <| (Action.trace_bind_ok hrecords _).trans <|
        (Action.trace_bind_ok hreport _).trans (congrArg _ (Action.trace_of _ _ _))
  obtain ⟨rfl, hquiet⟩ := Service.requireProvider_ok hready
  rw [hquiet, Action.trace_dataset] at htrace
  obtain ⟨hd, rfl⟩ := Action.dataset_ok hdataset
  obtain ⟨hfield, rfl⟩ := Prod.mk.inj htarget
  obtain ⟨rfl, rfl⟩ := Action.selected_ok hrecords
  cases h₅
  rw [Action.run_of] at hreport
  obtain ⟨hreport, hw'⟩ := Prod.mk.inj hreport
  rw [batches_max s.settings.generation.batchSize, Nat.add_assoc] at htrace
  refine ⟨d, target, hd, hfield, _, report, rfl, ?_, rfl, _, htrace⟩
  rw [← Except.ok.inj hreport, ← hw', batches_max s.settings.generation.batchSize, ← Nat.add_assoc]
  rfl

end Succeeding

end EmbeddingSearch
