import EmbeddingSearch.Proofs.Service.Selection
import EmbeddingSearch.Proofs.Store.Rows

/-!
# What a run of generation sends and stores

A run goes through the positions of its texts. Every batch is sent, whatever became of the ones
before it; a position gets the vector in its place of the answer, if there is one, and what is
stored under a record in the end is the vector of the last of its positions that could be stored.

## Contents
- `Plan.batch`, `Plan.ask`, `Plan.requests`: what is sent.
- `World.vectorAt`, `World.storedAt`, `World.lastStored`: what the positions get, and what is kept
  of it for a record.
- `Reached`: where a run has come to after some batches and some positions.
- `Reached.upsert`, `Reached.storeVectors`, `Reached.runBatch`, `Reached.runBatches`: one step of a
  run, and all that are left.
- `Plan.run_effect`, `Service.plan_effect`, `generate_effect`: the whole run.
-/

namespace EmbeddingSearch

/-! ## What is sent -/

namespace Plan

/-- The texts in some place of those that are sent. -/
def batch (p : Plan) (i : Nat) : List RecordText := batchAt p.size i p.texts

/-- What the provider is asked for a batch. -/
def ask (p : Plan) (i : Nat) : EmbeddingRequest := p.request ((p.batch i).map RecordText.text)

/-- What the provider is asked, one batch after the other. -/
def requests (p : Plan) : List EmbeddingRequest :=
  (List.range (batchCount p.size p.texts)).map p.ask

end Plan

/-! ## What the positions get -/

namespace World

variable (w : World) (p : Plan)

/-- The vector for the text in some position, if its batch gets an answer that is long enough. -/
def vectorAt (n : Nat) : Option Embedding :=
  match w.provider.embed (w.sent.length + n / p.size) (p.ask (n / p.size)) with
  | .ok response => response.embeddings[n % p.size]?
  | .error _ => none

/-- How many vectors are there for the positions before this one. For each of them the store is
called. -/
def attempts (n : Nat) : Nat := (List.range n).countP fun m => (w.vectorAt p m).isSome

/-- The vector that is stored for the text in some position, if there is one and the store takes
it. -/
def storedAt (n : Nat) : Option Embedding :=
  match p.texts[n]?, w.vectorAt p n with
  | some t, some x =>
    if (w.outage (w.calls + w.attempts p n) (.upsert (p.run.newVector t.recordId x))).isNone then
      some x
    else none
  | _, _ => none

/-- The vector that is stored for a record in the last one of its positions before `n` in which
there is one. -/
def lastStored (recordId : String) (n : Nat) : Option Embedding :=
  (List.range n).reverse.findSome? fun m =>
    if p.texts[m]?.map RecordText.recordId = some recordId then w.storedAt p m else none

/-- The row of a key when the positions before `n` are done with. -/
def rowAfter (n : Nat) (recordId field : String) : Option Row :=
  if field = p.run.field then
    match w.lastStored p recordId n with
    | some x => some ((p.run.newVector recordId x).row (Timestamp.ofMs w.now))
    | none => w.store.findRow recordId field
  else w.store.findRow recordId field

variable {w p}

theorem attempts_succ (n : Nat) :
    w.attempts p (n + 1) = w.attempts p n + if (w.vectorAt p n).isSome then 1 else 0 := by
  rw [attempts, List.range_succ, List.countP_append, List.countP_singleton, attempts]

theorem storedAt_of_none {n : Nat} (hx : w.vectorAt p n = none) : w.storedAt p n = none := by
  unfold storedAt
  rw [hx]
  cases p.texts[n]? <;> rfl

theorem storedAt_of_some {n : Nat} {t : RecordText} {x : Embedding} (ht : p.texts[n]? = some t)
    (hx : w.vectorAt p n = some x) : w.storedAt p n =
      if (w.outage (w.calls + w.attempts p n)
        (.upsert (p.run.newVector t.recordId x))).isNone then some x else none := by
  unfold storedAt
  rw [ht, hx]

theorem lastStored_succ (recordId : String) (n : Nat) : w.lastStored p recordId (n + 1) =
    (if p.texts[n]?.map RecordText.recordId = some recordId then w.storedAt p n else none).or
      (w.lastStored p recordId n) := by
  rw [lastStored, List.range_succ, List.reverse_append, List.reverse_singleton,
    List.singleton_append, List.findSome?_cons, lastStored]
  split
  · next h => rw [h, Option.some_or]
  · next h => rw [h, Option.none_or]

/-- A position for which nothing is stored changes no row. -/
theorem rowAfter_succ_of_none {n : Nat} (h : w.storedAt p n = none) (recordId field : String) :
    w.rowAfter p (n + 1) recordId field = w.rowAfter p n recordId field := by
  unfold rowAfter
  rw [lastStored_succ, h, ite_self, Option.none_or]

/-- A position for which a vector is stored changes the row of its own record. -/
theorem rowAfter_succ_of_some {n : Nat} {t : RecordText} {x : Embedding}
    (ht : p.texts[n]? = some t) (h : w.storedAt p n = some x) (recordId field : String) :
    w.rowAfter p (n + 1) recordId field =
      if recordId = t.recordId ∧ field = p.run.field then
        some ((p.run.newVector t.recordId x).row (Timestamp.ofMs w.now))
      else w.rowAfter p n recordId field := by
  unfold rowAfter
  simp only [lastStored_succ, h, ht, Option.map_some, Option.some.injEq]
  by_cases hfield : field = p.run.field
  · by_cases hrecord : recordId = t.recordId
    · simp [hfield, hrecord]
    · simp [hfield, hrecord, Ne.symm hrecord]
  · simp [hfield]

end World

/-! ## Programs in a world -/

namespace Program

section StoreVectors

variable {w w₁ : World} {run : Run} {recordId : String} {x : Embedding}

theorem storeVectors_run_ok (report : GenerationReport) (rest : List (String × Embedding))
    (h : w.answer (.upsert (run.newVector recordId x)) = (.ok (), w₁)) :
    (storeVectors run report ((recordId, x) :: rest)).run w =
      (storeVectors run report.addGenerated rest).run
        { w₁ with cache := w₁.cache.invalidate ⟨run.dataset, run.field⟩ } := by
  rw [storeVectors]
  refine (run_bind _ _ w).trans ?_
  rw [run_ask, h]
  rfl

theorem storeVectors_run_error (report : GenerationReport) (rest : List (String × Embedding))
    {e : ServiceError} (h : w.answer (.upsert (run.newVector recordId x)) = (.error e, w₁)) :
    (storeVectors run report ((recordId, x) :: rest)).run w =
      (storeVectors run (report.addSkipped 1 s!"record {recordId}: {e.message}") rest).run w₁ := by
  rw [storeVectors]
  refine (run_bind _ _ w).trans ?_
  rw [run_ask, h]

end StoreVectors

section RunBatch

variable {w : World} {request : List String → EmbeddingRequest} {batch : List RecordText}

/-- A batch that gets an answer. -/
theorem runBatch_run_ok (run : Run) (report : GenerationReport) {response : EmbeddingResponse}
    (h : w.provider.embed w.sent.length (request (batch.map RecordText.text)) = .ok response) :
    (runBatch request run report batch).run w =
      (storeVectors run (noteShortage report batch.length response.embeddings.length)
        ((batch.map RecordText.recordId).zip response.embeddings)).run
          { w with sent := w.sent ++ [request (batch.map RecordText.text)] } := by
  rw [runBatch]
  refine (run_bind _ _ w).trans ?_
  rw [run_ask, World.answer, h]

/-- A batch that gets none. -/
theorem runBatch_run_error (run : Run) (report : GenerationReport) {e : EmbeddingError}
    (h : w.provider.embed w.sent.length (request (batch.map RecordText.text)) = .error e) :
    (runBatch request run report batch).run w =
      (report.addSkipped batch.length s!"batch error: {e.message}",
        { w with sent := w.sent ++ [request (batch.map RecordText.text)] }) := by
  rw [runBatch]
  refine (run_bind _ _ w).trans ?_
  rw [run_ask, World.answer, h]
  rfl

end RunBatch

theorem runBatches_run (request : List String → EmbeddingRequest) (run : Run)
    (report : GenerationReport) (batch : List RecordText) (rest : List (List RecordText))
    (w : World) : (runBatches request run report (batch :: rest)).run w =
      (runBatches request run ((runBatch request run report batch).run w).1 rest).run
        ((runBatch request run report batch).run w).2 := by
  rw [runBatches]
  exact run_bind _ _ w

end Program

/-! ## Where a run has come to -/

/-- What a run has made of a world when it has asked for `i` batches and is done with `n`
positions. -/
structure Reached (w₀ : World) (p : Plan) (i n : Nat) (w : World) : Prop where
  provider : w.provider = w₀.provider
  outage : w.outage = w₀.outage
  now : w.now = w₀.now
  sent : w.sent = w₀.sent ++ (List.range i).map p.ask
  calls : w.calls = w₀.calls + w₀.attempts p n
  rows : ∀ recordId field, w.store.findRow recordId field = w₀.rowAfter p n recordId field

namespace Reached

variable {w₀ w : World} {p : Plan} {i n : Nat}

theorem start (w₀ : World) (p : Plan) : Reached w₀ p 0 0 w₀ where
  provider := rfl
  outage := rfl
  now := rfl
  sent := (List.append_nil _).symm
  calls := rfl
  rows recordId field := by
    rw [World.rowAfter]
    simp [World.lastStored]

/-! ### Positions -/

/-- A position that gets no vector. -/
theorem skip (h : Reached w₀ p i n w) (hx : w₀.vectorAt p n = none) :
    Reached w₀ p i (n + 1) w where
  provider := h.provider
  outage := h.outage
  now := h.now
  sent := h.sent
  calls := by
    rw [h.calls, World.attempts_succ, hx]
    rfl
  rows recordId field := by
    rw [h.rows, World.rowAfter_succ_of_none (World.storedAt_of_none hx)]

/-- A position that gets a vector, whether or not the store takes it. -/
theorem upsert (h : Reached w₀ p i n w) {t : RecordText} {x : Embedding}
    (ht : p.texts[n]? = some t) (hx : w₀.vectorAt p n = some x) :
    Reached w₀ p i (n + 1) (w.answer (.upsert (p.run.newVector t.recordId x))).2 := by
  have hcalls : w.calls + 1 = w₀.calls + w₀.attempts p (n + 1) := by
    rw [h.calls, World.attempts_succ, hx]
    rfl
  have hstored := World.storedAt_of_some ht hx
  rw [← h.outage, ← h.calls] at hstored
  rw [World.answer, World.attempt]
  cases hout : w.outage w.calls (.upsert (p.run.newVector t.recordId x)) with
  | some e =>
    rw [hout] at hstored
    refine ⟨h.provider, h.outage, h.now, h.sent, hcalls, fun recordId field => ?_⟩
    rw [World.rowAfter_succ_of_none hstored]
    exact h.rows recordId field
  | none =>
    rw [hout] at hstored
    refine ⟨h.provider, h.outage, h.now, h.sent, hcalls, fun recordId field => ?_⟩
    rw [World.rowAfter_succ_of_some ht hstored, ← h.rows, ← h.now]
    exact Store.findRow_upsert _ _ _ _ _

/-- What happens to the cache does not matter. -/
theorem cache (h : Reached w₀ p i n w) (c : Cache) : Reached w₀ p i n { w with cache := c } :=
  ⟨h.provider, h.outage, h.now, h.sent, h.calls, h.rows⟩

/-- The positions of a batch, each of which has its own place in the answer. -/
theorem storeVectors {ts : List RecordText} {xs : List Embedding} (h : Reached w₀ p i n w)
    (hts : ∀ j < ts.length, p.texts[n + j]? = ts[j]?)
    (hxs : ∀ j < ts.length, w₀.vectorAt p (n + j) = xs[j]?) (report : GenerationReport) :
    Reached w₀ p i (n + ts.length)
      ((Program.storeVectors p.run report ((ts.map RecordText.recordId).zip xs)).run w).2 := by
  induction ts generalizing xs n w report with
  | nil => exact h
  | cons t ts ih =>
    have ht : p.texts[n]? = some t := hts 0 (Nat.succ_pos _)
    have hx : w₀.vectorAt p n = xs[0]? := hxs 0 (Nat.succ_pos _)
    have hts' : ∀ j < ts.length, p.texts[n + 1 + j]? = ts[j]? := by
      intro j hj
      rw [Nat.add_assoc, Nat.add_comm 1]
      exact hts (j + 1) (Nat.succ_lt_succ hj)
    have hxs' : ∀ j < ts.length, w₀.vectorAt p (n + 1 + j) = xs.tail[j]? := by
      intro j hj
      rw [Nat.add_assoc, Nat.add_comm 1, List.getElem?_tail]
      exact hxs (j + 1) (Nat.succ_lt_succ hj)
    rw [List.length_cons, Nat.add_comm ts.length, ← Nat.add_assoc]
    cases xs with
    | nil =>
      have hrest := ih (h.skip hx) hts' hxs' report
      rwa [List.tail_nil, List.zip_nil_right] at hrest
    | cons x xs =>
      have hnext := h.upsert ht hx
      rcases hanswer : w.answer (.upsert (p.run.newVector t.recordId x)) with ⟨answer, w₁⟩
      rw [hanswer] at hnext
      rw [List.map_cons, List.zip_cons_cons]
      cases answer with
      | error e =>
        rw [Program.storeVectors_run_error _ _ hanswer]
        exact ih hnext hts' hxs' _
      | ok u =>
        rw [Program.storeVectors_run_ok _ _ hanswer]
        exact ih (hnext.cache _) hts' hxs' _

/-- Positions that get no vector. -/
theorem skips (h : Reached w₀ p i n w) {k : Nat} (hxs : ∀ j < k, w₀.vectorAt p (n + j) = none) :
    Reached w₀ p i (n + k) w := by
  induction k with
  | zero => exact h
  | succ k ih =>
    exact (ih fun j hj => hxs j (Nat.lt_succ_of_lt hj)).skip (hxs k (Nat.lt_succ_self k))

/-! ### Batches -/

/-- The next batch. -/
theorem runBatch (h : Reached w₀ p i (min (i * p.size) p.texts.length) w)
    (hi : i < batchCount p.size p.texts) (hsize : 0 < p.size) (report : GenerationReport) :
    Reached w₀ p (i + 1) (min ((i + 1) * p.size) p.texts.length)
      ((Program.runBatch p.request p.run report (p.batch i)).run w).2 := by
  have hleft : i * p.size < p.texts.length := (lt_batchCount hsize p.texts).mp hi
  have hlength : (p.batch i).length = min p.size (p.texts.length - i * p.size) :=
    length_batchAt p.size i p.texts
  have hend : min ((i + 1) * p.size) p.texts.length = i * p.size + (p.batch i).length := by
    rw [hlength, Nat.succ_mul]
    omega
  rw [Nat.min_eq_left hleft.le] at h
  have hasked : Reached w₀ p (i + 1) (i * p.size) { w with sent := w.sent ++ [p.ask i] } := by
    refine ⟨h.provider, h.outage, h.now, ?_, h.calls, h.rows⟩
    show w.sent ++ [p.ask i] = _
    rw [h.sent, List.range_succ, List.map_append, List.map_singleton, List.append_assoc]
  have hcount : w.sent.length = w₀.sent.length + i := by
    rw [h.sent, List.length_append, List.length_map, List.length_range]
  -- each position of the batch has its own place in the answer
  have hvectors : ∀ j < (p.batch i).length, w₀.vectorAt p (i * p.size + j) =
      match w.provider.embed w.sent.length (p.ask i) with
      | .ok response => response.embeddings[j]?
      | .error _ => none := by
    intro j hj
    have hj' : j < p.size := by omega
    rw [World.vectorAt, Nat.mul_comm, Nat.mul_add_div hsize, Nat.div_eq_of_lt hj', Nat.mul_add_mod,
      Nat.mod_eq_of_lt hj', Nat.add_zero, ← hcount, ← h.provider]
  have htexts : ∀ j < (p.batch i).length, p.texts[i * p.size + j]? = (p.batch i)[j]? := by
    intro j hj
    have hj' : j < p.size := by omega
    exact (getElem?_batchAt hj' p.texts).symm
  rw [hend]
  cases hanswer : w.provider.embed w.sent.length (p.ask i) with
  | error e =>
    rw [hanswer] at hvectors
    rw [Program.runBatch_run_error _ _ hanswer]
    exact hasked.skips hvectors
  | ok response =>
    rw [hanswer] at hvectors
    rw [Program.runBatch_run_ok _ _ hanswer]
    exact hasked.storeVectors htexts hvectors _

/-- The batches that are left. -/
theorem runBatches (hsize : 0 < p.size) {i k : Nat} (hk : i + k = batchCount p.size p.texts)
    (h : Reached w₀ p i (min (i * p.size) p.texts.length) w) (report : GenerationReport) :
    Reached w₀ p (i + k) p.texts.length ((Program.runBatches p.request p.run report
      ((List.range' i k).map p.batch)).run w).2 := by
  induction k generalizing i w report with
  | zero =>
    have hall : p.texts.length ≤ i * p.size :=
      Nat.not_lt.mp fun hlt => absurd ((lt_batchCount hsize p.texts).mpr hlt) (by omega)
    rwa [Nat.min_eq_right hall] at h
  | succ k ih =>
    have hnext := h.runBatch (by omega) hsize report
    rw [← Nat.add_assoc, Nat.add_right_comm] at hk ⊢
    rw [List.range'_succ, List.map_cons, Program.runBatches_run]
    exact ih hk hnext _

end Reached

/-! ## The whole run -/

/-- What becomes of the world when a plan is carried out. -/
theorem Plan.run_effect (p : Plan) (hsize : 0 < p.size) (report : GenerationReport) (w : World) :
    Reached w p (batchCount p.size p.texts) p.texts.length
      ((Program.runBatches p.request p.run report (batches p.size p.texts)).run w).2 := by
  have hstart : Reached w p 0 (min (0 * p.size) p.texts.length) w := by
    rw [Nat.zero_mul, Nat.zero_min]
    exact Reached.start w p
  have hend := hstart.runBatches hsize (Nat.zero_add _) report
  rw [batches_eq hsize, List.range_eq_range']
  rwa [Nat.zero_add] at hend

/-- The texts of what is asked, one after the other, are those of the plan. -/
theorem Plan.texts_requests (p : Plan) (hsize : 0 < p.size)
    (hrequest : ∀ texts, (p.request texts).texts = texts) :
    p.requests.flatMap EmbeddingRequest.texts = p.texts.map RecordText.text := by
  have hbatches : (List.range (batchCount p.size p.texts)).map p.batch = batches p.size p.texts :=
    (batches_eq hsize p.texts).symm
  have hask : ∀ i, (p.ask i).texts = (p.batch i).map RecordText.text := fun i => hrequest _
  calc p.requests.flatMap EmbeddingRequest.texts
      = (List.range (batchCount p.size p.texts)).flatMap
          fun i => (p.batch i).map RecordText.text := by
        rw [Plan.requests, List.flatMap_map]
        simp only [hask]
    _ = (((List.range (batchCount p.size p.texts)).map p.batch).flatten).map RecordText.text := by
        rw [← List.map_flatMap, List.flatMap_def]
    _ = p.texts.map RecordText.text := by rw [hbatches, flatten_batches]

/-- A run that succeeds is the run of its plan. -/
theorem Service.plan_effect {s : Service} {r : GenerationRequest} {w w' : World}
    {g : GenerationReport} (h : (s.generate r).run w = (.ok g, w')) :
    ∃ d target p, w.catalog.findDataset r.dataset = some d ∧ r.target d = .ok target ∧
      p = s.plan r d target (r.records w.catalog d.id) ∧
      w'.sent = w.sent ++ p.requests ∧
      p.requests.flatMap EmbeddingRequest.texts = p.texts.map RecordText.text ∧
      ∀ recordId field, w'.store.findRow recordId field =
        World.rowAfter { w with calls := w.calls + (1 + r.lookups) } p p.texts.length recordId
          field := by
  obtain ⟨d, target, hd, htarget, p, report, hp, hrun, -⟩ := Service.generate_run h
  have hsize : 0 < p.size := by
    rw [hp]
    exact Nat.lt_of_lt_of_le Nat.one_pos (Nat.le_max_left _ _)
  have hrequest : ∀ texts, (p.request texts).texts = texts := by
    rw [hp]
    exact fun _ => rfl
  have heffect := p.run_effect hsize
    { skipped := (r.records w.catalog d.id).length - p.texts.length }
    { w with calls := w.calls + (1 + r.lookups) }
  rw [hrun] at heffect
  exact ⟨d, target, p, hd, htarget, hp, heffect.sent, p.texts_requests hsize hrequest,
    heffect.rows⟩

/-- A run that succeeds asks the provider for every batch of its texts, one after the other and
whatever is answered, so that in the end it has asked for all texts in their order. These are the
texts of the records that are selected, in the order of the records, without the empty ones. After
it, a record that has a position with a vector that the store took has the last of these vectors in
the field of the run; every other row is as it was. -/
theorem generate_effect {s : Service} {r : GenerationRequest} {w w' : World}
    {g : GenerationReport} (h : (s.generate r).run w = (.ok g, w')) :
    ∃ d target, w.catalog.findDataset r.dataset = some d ∧ r.target d = .ok target ∧
      let records := r.records w.catalog d.id
      let texts : List RecordText :=
        (records.map fun record => ⟨record.id, match target with
          | some f => record.fieldText f
          | none => record.render d r.template s.settings.generation.maxFieldChars⟩).filter
            fun t => t.text ≠ ""
      let size := max 1 s.settings.generation.batchSize
      let asked := (List.range (batchCount size texts)).map fun i => s.embeddingRequest
        ((batchAt size i texts).map RecordText.text) s.settings.ai.generationTimeoutSecs
      let plan : Plan :=
        { run := ⟨d.id, targetName target, s.settings.ai.model⟩
          request := fun texts => s.embeddingRequest texts s.settings.ai.generationTimeoutSecs
          size, texts }
      let w₀ := { w with calls := w.calls + (1 + r.lookups) }
      w'.sent = w.sent ++ asked ∧
        asked.flatMap EmbeddingRequest.texts = texts.map RecordText.text ∧
        ∀ recordId field, w'.store.findRow recordId field =
          if field = targetName target then
            match w₀.lastStored plan recordId texts.length with
            | some x => some ⟨recordId, d.id, targetName target, .single x, s.settings.ai.model,
                x.length, Timestamp.ofMs w.now⟩
            | none => w.store.findRow recordId field
          else w.store.findRow recordId field := by
  obtain ⟨d, target, p, hd, htarget, hp, heffect⟩ := Service.plan_effect h
  rw [Service.plan, Service.textsOf_eq] at hp
  subst hp
  exact ⟨d, target, hd, htarget, heffect⟩

/-- Four records, one of them without a text, so that there are three texts in two batches. The
second batch fails, and the store does not take the vector of the second text. The record that was
to get a second vector keeps the first. -/
theorem generate_effect_partial :
    let f : Field := ⟨"f", .text, true⟩
    let d : Dataset := ⟨"A", "a", [f]⟩
    let s : Service :=
      { settings := { ai := { enabled := true }, generation := { batchSize := 2 } }
        providerName := "p", providerAvailable := true }
    let w : World :=
      { catalog :=
          { datasets := [d]
            records := [("A", ⟨"x", [("f", .string "first")]⟩),
              ("A", ⟨"y", [("f", .string "second")]⟩), ("A", ⟨"z", [("f", .null)]⟩)] }
        provider := ⟨"p", true, fun n q =>
          if n = 0 then .ok ⟨[[1], [2], [3]], q.model, none⟩ else .error (.http "down")⟩
        outage := fun n _ => if n = 6 then some .disabled else none }
    let r : GenerationRequest :=
      { GenerationRequest.ofField "A" "f" with recordIds := some ["x", "z", "y", "x"] }
    ∃ g w', (s.generate r).run w = (.ok g, w') ∧
      w'.sent.map EmbeddingRequest.texts = [["first", "second"], ["first"]] ∧
      w'.store.findRow "x" "f" =
        some ⟨"x", "A", "f", .single [1], "text-embedding-3-small", 1, Timestamp.ofMs 0⟩ ∧
      w'.store.findRow "y" "f" = none := by
  intro f d s w r
  have hsucceeds : ((s.generate r).run w).1.isOk = true := by decide +kernel
  rcases hrun : (s.generate r).run w with ⟨e | g, w'⟩
  · rw [hrun] at hsucceeds
    cases hsucceeds
  obtain ⟨d', target, hd, htarget, hsent, -, hrows⟩ := generate_effect hrun
  obtain rfl : d = d' := Option.some.inj hd
  obtain rfl : some f = target := Except.ok.inj htarget
  have hfield : "f" = targetName (some f) := rfl
  refine ⟨g, w', rfl, ?_, ?_, ?_⟩
  · rw [hsent]
    decide +kernel
  · rw [hrows, if_pos hfield]
    generalize hlast : World.lastStored _ _ _ _ = found
    obtain rfl : found = some [1] := by
      rw [← hlast]
      decide +kernel
    rfl
  · rw [hrows, if_pos hfield]
    generalize hlast : World.lastStored _ _ _ _ = found
    obtain rfl : found = none := by
      rw [← hlast]
      decide +kernel
    rfl

end EmbeddingSearch
