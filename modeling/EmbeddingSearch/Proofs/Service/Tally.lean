import EmbeddingSearch.Proofs.Service.Conduct

/-!
# What a run of generation reports

Every record of a run is counted once, as one that got a vector or as one that did not, and every
reason for which records go without a vector is noted once, when it occurs.

## Contents
- `Event.asked?`, `Event.stored`, `Event.complaint?`: what an event adds to a report.
- `Tally`: a report that agrees with the events so far; each event of a run keeps it.
- `Program.storeVectors_tally`, `Program.runBatch_tally`, `Program.runBatches_tally`: a whole run
  keeps it.
- `generate_tally`: the report of a run that succeeds.
-/

namespace EmbeddingSearch

/-! ## Events -/

/-- What the provider is asked in an event. -/
def Event.asked? : Event → Option EmbeddingRequest
  | ⟨.embed q, _⟩ => some q
  | _ => none

/-- Whether an event stores a vector. -/
def Event.stored : Event → Bool
  | ⟨.upsert _, .ok _⟩ => true
  | _ => false

/-- The error that a run reports for an event. -/
def Event.complaint? : Event → Option String
  | ⟨.embed _, .error e⟩ => some s!"batch error: {e.message}"
  | ⟨.embed q, .ok response⟩ =>
    let returned := response.embeddings.length
    let expected := q.texts.length
    if returned < expected then
      some s!"batch error: provider returned {returned} embeddings for {expected} texts"
    else none
  | ⟨.upsert v, .error e⟩ => some s!"record {v.recordId}: {e.message}"
  | _ => none

/-! ## Reports that agree with events -/

/-- Whether a report agrees with what was called before, the latest of which comes first, in which
`asked` was sent and which dealt with `n` records. -/
structure Tally (n : Nat) (asked : List EmbeddingRequest) (past : List Event)
    (report : GenerationReport) : Prop where
  counted : report.generated + report.skipped = n
  stored : report.generated = past.countP Event.stored
  errors : report.errors = past.reverse.filterMap Event.complaint?
  asked : asked = past.reverse.filterMap Event.asked?

namespace Tally

variable {n : Nat} {asked : List EmbeddingRequest} {past : List Event} {report : GenerationReport}

/-- A report that deals with `k` more records, in the way that the next event says. -/
theorem cons (h : Tally n asked past report) (event : Event) {k : Nat} (report' : GenerationReport)
    (hcounted : report'.generated + report'.skipped = report.generated + report.skipped + k)
    (hstored : report'.generated = report.generated + if event.stored then 1 else 0)
    (herrors : report'.errors = report.errors ++ event.complaint?.toList) :
    Tally (n + k) (asked ++ event.asked?.toList) (event :: past) report' where
  counted := by rw [hcounted, h.counted]
  stored := by rw [List.countP_cons, hstored, h.stored]
  errors := by
    rw [List.reverse_cons, List.filterMap_append, herrors, h.errors]
    cases hc : event.complaint? <;> simp [hc]
  asked := by
    rw [List.reverse_cons, List.filterMap_append, h.asked]
    cases ha : event.asked? <;> simp [ha]

/-- An event that is of no account. -/
theorem pass (h : Tally n asked past report) {event : Event} (hstored : event.stored = false)
    (hcomplaint : event.complaint? = none) (hasked : event.asked? = none) :
    Tally n asked (event :: past) report := by
  have hnext := h.cons event (k := 0) report rfl (by simp [hstored]) (by simp [hcomplaint])
  simpa [hasked] using hnext

theorem kept (h : Tally n asked past report) (v : NewVector) (u : Unit) :
    Tally (n + 1) asked (⟨.upsert v, .ok u⟩ :: past) report.addGenerated := by
  have hnext := h.cons ⟨.upsert v, .ok u⟩ report.addGenerated (Nat.add_right_comm _ 1 _) rfl
    (List.append_nil _).symm
  simpa [Event.asked?] using hnext

theorem refused (h : Tally n asked past report) (v : NewVector) (e : ServiceError) :
    Tally (n + 1) asked (⟨.upsert v, .error e⟩ :: past)
      (report.addSkipped 1 s!"record {v.recordId}: {e.message}") := by
  have hnext := h.cons ⟨.upsert v, .error e⟩
    (report.addSkipped 1 s!"record {v.recordId}: {e.message}") (Nat.add_assoc _ _ _).symm rfl rfl
  simpa [Event.asked?] using hnext

theorem failed (h : Tally n asked past report) (q : EmbeddingRequest) (e : EmbeddingError) :
    Tally (n + q.texts.length) (asked ++ [q]) (⟨.embed q, .error e⟩ :: past)
      (report.addSkipped q.texts.length s!"batch error: {e.message}") :=
  h.cons ⟨.embed q, .error e⟩ _ (Nat.add_assoc _ _ _).symm rfl rfl

theorem answered (h : Tally n asked past report) (q : EmbeddingRequest) (e : EmbeddingResponse) :
    Tally (n + (q.texts.length - e.embeddings.length)) (asked ++ [q]) (⟨.embed q, .ok e⟩ :: past)
      (Program.noteShortage report q.texts.length e.embeddings.length) := by
  refine h.cons ⟨.embed q, .ok e⟩ _ ?_ ?_ ?_
  · unfold Program.noteShortage
    split
    · exact (Nat.add_assoc _ _ _).symm
    · omega
  · unfold Program.noteShortage
    split <;> rfl
  · unfold Program.noteShortage Event.complaint?
    dsimp only
    split
    · rfl
    · exact (List.append_nil _).symm

end Tally

/-! ## Runs -/

/-- The rule that everything is fine. -/
def anything : Rule where
  legal _ _ := True
  allows _ _ := True

section Runs

variable {n : Nat} {asked : List EmbeddingRequest} {past : List Event} {report : GenerationReport}

/-- Every vector is counted, whether or not it is stored. -/
theorem Program.storeVectors_tally (run : Run) {vectors : List (String × Embedding)}
    (h : Tally n asked past report) :
    (Program.storeVectors run report vectors).Obeys anything
      (fun past report => Tally (n + vectors.length) asked past report) past := by
  induction vectors generalizing n past report with
  | nil => exact h
  | cons p rest ih =>
    obtain ⟨recordId, x⟩ := p
    rw [List.length_cons, Nat.add_comm rest.length, ← Nat.add_assoc]
    refine And.intro trivial ?_
    intro answer _
    cases answer with
    | error e => exact ih (h.refused _ e)
    | ok u =>
      refine And.intro trivial fun _ _ => ih ?_
      exact (h.kept _ u).pass rfl rfl rfl

/-- A batch that fails goes without vectors as a whole, and a short answer leaves out the rest. -/
theorem Program.runBatch_tally {request : List String → EmbeddingRequest}
    (hrequest : ∀ texts, (request texts).texts = texts) (run : Run) (batch : List RecordText)
    (h : Tally n asked past report) :
    (Program.runBatch request run report batch).Obeys anything
      (fun past report => Tally (n + batch.length)
        (asked ++ [request (batch.map RecordText.text)]) past report) past := by
  have hlength : (request (batch.map RecordText.text)).texts.length = batch.length := by
    rw [hrequest, List.length_map]
  refine And.intro trivial ?_
  intro answer _
  cases answer with
  | error e =>
    have hfailed := h.failed (request (batch.map RecordText.text)) e
    rwa [hlength] at hfailed
  | ok e =>
    have hanswered := h.answered (request (batch.map RecordText.text)) e
    rw [hlength] at hanswered
    refine (Program.storeVectors_tally run hanswered).mono ?_
    intro past report htally
    -- the texts without a vector and the vectors that are stored make up the batch
    rw [List.length_zip, List.length_map, Nat.add_assoc] at htally
    have hall : batch.length - e.embeddings.length + min batch.length e.embeddings.length =
        batch.length := by omega
    rwa [hall] at htally

theorem Program.runBatches_tally {request : List String → EmbeddingRequest}
    (hrequest : ∀ texts, (request texts).texts = texts) (run : Run)
    (parts : List (List RecordText)) (h : Tally n asked past report) :
    (Program.runBatches request run report parts).Obeys anything
      (fun past report => Tally (n + parts.flatten.length)
        (asked ++ parts.map fun batch => request (batch.map RecordText.text)) past report)
      past := by
  induction parts generalizing n asked past report with
  | nil =>
    show Tally (n + 0) (asked ++ []) past report
    rwa [List.append_nil]
  | cons batch rest ih =>
    refine (Program.obeys_bind _ _ _ _).mpr
      ((Program.runBatch_tally hrequest run batch h).mono fun past report hbatch => ?_)
    have hrest := ih hbatch
    rwa [List.flatten_cons, List.length_append, ← Nat.add_assoc, List.map_cons, List.append_cons]

end Runs

/-! ## Whole runs -/

/-- Looking up what a run deals with is of no account. -/
theorem Call.Reads.tally {n : Nat} {asked : List EmbeddingRequest} {report : GenerationReport}
    {c : Call} (h : c.Reads) : anything.Free (fun past => Tally n asked past report) c := by
  refine fun past hpast => ⟨trivial, fun a _ => ?_⟩
  cases c with
  | findDataset s => exact hpast.pass rfl rfl rfl
  | listRecords d => exact hpast.pass rfl rfl rfl
  | findRecord d id => exact hpast.pass rfl rfl rfl
  | findRow r f => exact hpast.pass rfl rfl rfl
  | _ => cases h

/-- What a program does in a world when everything is fine. -/
theorem Program.Obeys.run_anything {α : Type} {post : List Event → α → Prop} {p : Program α}
    {past : List Event} (h : p.Obeys anything post past) (w : World) :
    post (p.trace w past) (p.run w).1 :=
  h.run (fun _ => True) (fun _ _ _ => trivial) (fun _ _ _ => trivial) trivial

theorem Service.length_textsOf_le (s : Service) (r : GenerationRequest) (d : Dataset)
    (target : Option Field) (records : List Record) :
    (s.textsOf r d target records).length ≤ records.length := by
  have hle := List.length_filter_le (fun t : RecordText => !t.text.isEmpty)
    (records.map fun record => ⟨record.id, s.textOf r d target record⟩)
  rwa [List.length_map] at hle

/-- The report of the batches of a plan, if the records without a text are accounted for before the
first one. -/
theorem Plan.run_tally (p : Plan) (hrequest : ∀ texts, (p.request texts).texts = texts)
    {total : Nat} (htotal : p.texts.length ≤ total) {past : List Event} (hpast : Tally 0 [] past {})
    {w w' : World} {report : GenerationReport}
    (hrun : (Program.runBatches p.request p.run { skipped := total - p.texts.length }
      (batches p.size p.texts)).run w = (report, w')) :
    Tally total ((batches p.size p.texts).map fun batch => p.request (batch.map RecordText.text))
      ((Program.runBatches p.request p.run { skipped := total - p.texts.length }
        (batches p.size p.texts)).trace w past) report := by
  have hstart : Tally (total - p.texts.length) [] past { skipped := total - p.texts.length } :=
    ⟨Nat.zero_add _, hpast.stored, hpast.errors, hpast.asked⟩
  have hend := (Program.runBatches_tally hrequest p.run (batches p.size p.texts)
    hstart).run_anything w
  rwa [hrun, flatten_batches, Nat.sub_add_cancel htotal, List.nil_append] at hend

/-- The errors of a report, once it is bounded. -/
theorem GenerationReport.errors_capped (g : GenerationReport) (max : Nat) :
    (g.capped max).errors = if g.errors.length ≤ max then g.errors
      else g.errors.take max ++ [s!"... and {g.errors.length - max} more errors"] := by
  unfold capped
  dsimp only
  by_cases hmax : g.errors.length ≤ max
  · rw [if_pos (Nat.sub_eq_zero_of_le hmax), if_pos hmax]
  · rw [if_neg (Nat.sub_ne_zero_of_lt (not_le.mp hmax)), if_neg hmax]

/-- Bounding the errors of a report changes no number in it. -/
theorem GenerationReport.counts_capped (g : GenerationReport) (max : Nat) :
    (g.capped max).generated = g.generated ∧ (g.capped max).skipped = g.skipped := by
  unfold capped
  dsimp only
  split
  · exact ⟨rfl, rfl⟩
  · exact ⟨rfl, rfl⟩

/-- A run that succeeds sends every batch once, and counts every one of its records exactly once, as
one whose vector was stored or as one that goes without. Its errors are one for every batch that
failed, for every batch that got fewer vectors than it has texts and for every vector that was not
stored, in the order in which this happened; of those beyond the number that may be reported there
is only the count. -/
theorem generate_tally {s : Service} {r : GenerationRequest} {w w' : World} {g : GenerationReport}
    (h : (s.generate r).run w = (.ok g, w')) :
    ∃ d target, w.catalog.findDataset r.dataset = some d ∧ r.target d = .ok target ∧
      let records := r.records w.catalog d.id
      let sent := (batches s.settings.generation.batchSize (s.textsOf r d target records)).map
        fun batch => s.embeddingRequest (batch.map RecordText.text)
          s.settings.ai.generationTimeoutSecs
      let events := (Program.trace (ExceptT.run (s.generate r)) w []).reverse
      let errors := events.filterMap Event.complaint?
      let max := s.settings.generation.maxErrors
      g.generated + g.skipped = records.length ∧
        g.generated = events.countP Event.stored ∧
        events.filterMap Event.asked? = sent ∧
        g.errors = if errors.length ≤ max then errors
          else errors.take max ++ [s!"... and {errors.length - max} more errors"] := by
  obtain ⟨d, target, hd, htarget, p, report, rfl, hrun, rfl, answer, htrace⟩ :=
    Service.generate_run h
  refine ⟨d, target, hd, htarget, ?_⟩
  intro records sent events errors max
  have hempty : Tally 0 [] [] {} := ⟨rfl, rfl, rfl, rfl⟩
  have hfound : Tally 0 [] [⟨.findDataset r.dataset, answer⟩] {} := hempty.pass rfl rfl rfl
  have hselected := (Action.selected_keeps (P := fun _ _ => True) (fun _ => Call.Reads.tally)
    (fun _ _ _ _ _ => trivial) (fun _ _ _ _ => trivial) r d.id _ hfound).run_anything
      { w with calls := w.calls + 1 }
  have htally := (s.plan r d target (r.records w.catalog d.id)).run_tally (fun _ => rfl)
    (s.length_textsOf_le r d target _) hselected.1 hrun
  rw [← htrace] at htally
  obtain ⟨hgenerated, hskipped⟩ := report.counts_capped max
  refine ⟨?_, ?_, ?_, ?_⟩
  · rw [hgenerated, hskipped]
    exact htally.counted
  · rw [hgenerated, List.countP_reverse]
    exact htally.stored
  · have hparts := batches_max s.settings.generation.batchSize (s.textsOf r d target records)
    exact htally.asked.symm.trans (congrArg (List.map _) hparts.symm)
  · rw [report.errors_capped, htally.errors]

/-- A record without a text, a short answer, a batch that fails and a long answer whose only vector
of use is not stored, with room for two errors. -/
theorem generate_tally_troubled :
    let d : Dataset := ⟨"A", "a", [⟨"f", .text, true⟩]⟩
    let record := fun id text => ("A", (⟨id, [("f", .string text)]⟩ : Record))
    let s : Service :=
      { settings := { ai := { enabled := true }, generation := { batchSize := 2, maxErrors := 2 } }
        providerName := "p", providerAvailable := true }
    let w : World :=
      { catalog :=
          { datasets := [d]
            records := [record "r" "1", record "t" "2", record "u" "", record "v" "3",
              record "x" "4", record "y" "5"] }
        provider := ⟨"p", true, fun n q =>
          if n = 0 then .ok ⟨[[1]], q.model, none⟩
          else if n = 1 then .error (.http "down")
          else .ok ⟨[[1], [2], [3]], q.model, none⟩⟩
        outage := fun n _ => if n = 3 then some .disabled else none }
    ∃ g w', (s.generate (GenerationRequest.ofField "A" "f")).run w = (.ok g, w') ∧
      g.generated + g.skipped = 6 ∧ g.generated = 1 ∧
      g.errors = ["batch error: provider returned 1 embeddings for 2 texts",
        "batch error: http error: down", "... and 1 more errors"] := by
  intro d record s w
  have hsucceeds : ((s.generate (GenerationRequest.ofField "A" "f")).run w).1.isOk = true := by
    decide +kernel
  rcases hrun : (s.generate (GenerationRequest.ofField "A" "f")).run w with ⟨e | g, w'⟩
  · rw [hrun] at hsucceeds
    cases hsucceeds
  obtain ⟨d', target, hd, -, hcounted, hstored, -, herrors⟩ := generate_tally hrun
  obtain rfl : d = d' := Option.some.inj hd
  refine ⟨g, w', rfl, hcounted, hstored.trans ?_, herrors.trans ?_⟩
  · decide +kernel
  · decide +kernel

end EmbeddingSearch
