import EmbeddingSearch.Proofs.Provider.Labels
import EmbeddingSearch.Proofs.Service.Conduct

/-!
# Which text a stored vector is the vector of

A run of generation goes by places: the vector in some place of an answer is stored for the record
whose text is in this place of the batch. Whether this is the text the vector was computed for is
up to the labels of the reply.

## Contents
- `Service.Embeds`: the records and texts of a run.
- `answering`: the rule, for a catalog that answers as it should.
- `Faithful`: a run stores the vectors that are in the places of its texts, and all of them.
- `Service.generate_faithful`: every run does so.
- `Asked`, `Answered`: the questions of a run in their order, with the answers of the provider.
- `Service.trace_faithful`: a run in a world stores what the provider answers.
- `Faithful.labelled_iff`: when the vectors that are stored have the right labels.
- `labels_respected`: the labels of answers and of runs with an API.
-/

namespace EmbeddingSearch

/-! ## Batches and what is stored of them -/

/-- Whether a run stores a vector for a record of its dataset with some text. -/
def Service.Embeds (s : Service) (r : GenerationRequest) (catalog : Catalog) (v : NewVector)
    (text : String) : Prop :=
  ∃ d target record, catalog.findDataset r.dataset = some d ∧ r.target d = .ok target ∧
    record ∈ catalog.listRecords d.id ∧ s.textOf r d target record = text ∧
    v.recordId = record.id ∧ v.dataset = d.id ∧ v.field = targetName target

/-- The catalog answers as it should, and the provider in any way; all calls are fine. -/
def answering (catalog : Catalog) : Rule where
  legal _ _ := True
  allows := catalog.Answers

/-- Whether vectors are stored in the places of the texts they came back for. -/
structure Faithful (embeds : NewVector → String → Prop) (past : List Event) : Prop where
  /-- Every vector that is stored was in the place of the text of its record. -/
  placed : ∀ v a, ⟨.upsert v, a⟩ ∈ past → ∃ (q : EmbeddingRequest) (e : EmbeddingResponse)
    (i : Nat) (text : String), ⟨.embed q, .ok e⟩ ∈ past ∧ q.texts[i]? = some text ∧
      e.embeddings[i]? = some v.vector ∧ embeds v text
  /-- Every vector in the place of a text is stored for a record with this text. -/
  stored : ∀ (q : EmbeddingRequest) (e : EmbeddingResponse) (i : Nat) text x,
    ⟨.embed q, .ok e⟩ ∈ past → q.texts[i]? = some text → e.embeddings[i]? = some x →
      ∃ v a, ⟨.upsert v, a⟩ ∈ past ∧ v.vector = x ∧ embeds v text

section Runs

variable {embeds : NewVector → String → Prop} {catalog : Catalog} {past : List Event}

/-- The start of a run. -/
theorem Faithful.nil : Faithful embeds [] where
  placed _ _ h := absurd h List.not_mem_nil
  stored _ _ _ _ _ h := absurd h List.not_mem_nil

/-- An event that stores nothing and gives no vectors. -/
theorem Faithful.cons (hpast : Faithful embeds past) {event : Event}
    (hembed : ∀ q e, event ≠ ⟨.embed q, .ok e⟩) (hupsert : ∀ v a, event ≠ ⟨.upsert v, a⟩) :
    Faithful embeds (event :: past) := by
  refine ⟨fun v a h => ?_, fun q e i text x h htext hx => ?_⟩
  · rcases List.mem_cons.mp h with heq | h
    · exact absurd heq.symm (hupsert v a)
    · obtain ⟨q, e, i, text, hq, hplace⟩ := hpast.placed v a h
      exact ⟨q, e, i, text, List.mem_cons_of_mem _ hq, hplace⟩
  · rcases List.mem_cons.mp h with heq | h
    · exact absurd heq.symm (hembed q e)
    · obtain ⟨v, a, hv, hstored⟩ := hpast.stored q e i text x h htext hx
      exact ⟨v, a, List.mem_cons_of_mem _ hv, hstored⟩

/-- A look-up neither embeds nor stores. -/
theorem Call.Reads.faithful {c : Call} (h : c.Reads) :
    (answering catalog).Free (Faithful embeds) c := by
  refine fun past hpast => ⟨trivial, fun a _ => hpast.cons ?_ ?_⟩
  · rintro q e ⟨⟩
    exact h.elim
  · rintro v answer ⟨⟩
    exact h.elim

/-! ## One batch -/

/-- The events of storing some vectors: each of them is stored, and what else happens is no more
than invalidation. -/
structure Stores (run : Run) (vectors : List (String × Embedding)) (new : List Event) : Prop where
  only : ∀ event ∈ new, (∃ k, event = ⟨.invalidate k, ()⟩) ∨
    ∃ p ∈ vectors, ∃ a, event = ⟨.upsert (run.newVector p.1 p.2), a⟩
  all : ∀ p ∈ vectors, ∃ a, ⟨.upsert (run.newVector p.1 p.2), a⟩ ∈ new

theorem Stores.nil (run : Run) : Stores run [] [] where
  only _ h := absurd h List.not_mem_nil
  all _ h := absurd h List.not_mem_nil

theorem Stores.invalidate {run : Run} {vectors : List (String × Embedding)} {new : List Event}
    (h : Stores run vectors new) (k : FieldKey) :
    Stores run vectors (new ++ [⟨.invalidate k, ()⟩]) where
  only event hevent := by
    rcases List.mem_append.mp hevent with hevent | hevent
    · exact h.only event hevent
    · exact .inl ⟨k, List.mem_singleton.mp hevent⟩
  all p hp := by
    obtain ⟨a, ha⟩ := h.all p hp
    exact ⟨a, List.mem_append_left _ ha⟩

/-- One more vector is stored before the others. -/
theorem Stores.upsert {run : Run} {vectors : List (String × Embedding)} {new : List Event}
    (h : Stores run vectors new) (p : String × Embedding) (a : Except ServiceError Unit) :
    Stores run (p :: vectors) (new ++ [⟨.upsert (run.newVector p.1 p.2), a⟩]) where
  only event hevent := by
    rcases List.mem_append.mp hevent with hevent | hevent
    · refine (h.only event hevent).imp_right ?_
      rintro ⟨p', hp', hstored⟩
      exact ⟨p', List.mem_cons_of_mem _ hp', hstored⟩
    · exact .inr ⟨p, List.mem_cons_self, a, List.mem_singleton.mp hevent⟩
  all p' hp' := by
    rcases List.mem_cons.mp hp' with rfl | hp'
    · exact ⟨a, List.mem_append_right _ List.mem_cons_self⟩
    · obtain ⟨a', ha'⟩ := h.all p' hp'
      exact ⟨a', List.mem_append_left _ ha'⟩

theorem Program.storeVectors_stores (run : Run) (report : GenerationReport)
    (vectors : List (String × Embedding)) (past : List Event) :
    (Program.storeVectors run report vectors).Obeys (answering catalog)
      (fun now _ => ∃ new, now = new ++ past ∧ Stores run vectors new) past := by
  induction vectors generalizing report past with
  | nil => exact ⟨[], rfl, Stores.nil run⟩
  | cons p rest ih =>
    refine And.intro trivial ?_
    intro answer _
    cases answer with
    | error e =>
      refine (ih _ _).mono ?_
      rintro now _ ⟨new, rfl, hnew⟩
      exact ⟨_, List.append_cons _ _ _, hnew.upsert p (.error e)⟩
    | ok u =>
      refine And.intro trivial fun _ _ => (ih _ _).mono ?_
      rintro now _ ⟨new, rfl, hnew⟩
      refine ⟨_, ?_, (hnew.invalidate ⟨run.dataset, run.field⟩).upsert p (.ok u)⟩
      rw [List.append_assoc, List.append_assoc]
      rfl

/-- The vectors of a batch with the records they are stored for. -/
theorem mem_places {batch : List RecordText} {vectors : List Embedding} {p : String × Embedding} :
    p ∈ (batch.map RecordText.recordId).zip vectors ↔
      ∃ (i : Nat) (t : RecordText),
        batch[i]? = some t ∧ t.recordId = p.1 ∧ vectors[i]? = some p.2 := by
  constructor
  · intro hp
    obtain ⟨i, hi⟩ := List.getElem?_of_mem hp
    obtain ⟨hid, hx⟩ := List.getElem?_zip_eq_some.mp hi
    rw [List.getElem?_map] at hid
    obtain ⟨t, ht, hid⟩ := Option.map_eq_some_iff.mp hid
    exact ⟨i, t, ht, hid, hx⟩
  · rintro ⟨i, t, ht, hid, hx⟩
    refine List.mem_of_getElem? (i := i) (List.getElem?_zip_eq_some.mpr ⟨?_, hx⟩)
    rw [List.getElem?_map, ht, Option.map_some, hid]

theorem getElem?_texts {q : EmbeddingRequest} {batch : List RecordText}
    (htexts : q.texts = batch.map RecordText.text) {i : Nat} {text : String} :
    q.texts[i]? = some text ↔ ∃ t, batch[i]? = some t ∧ t.text = text := by
  rw [htexts, List.getElem?_map, Option.map_eq_some_iff]

/-- A batch with its answer, and the vectors in the places of its texts. -/
theorem Faithful.batch (hpast : Faithful embeds past) {run : Run} {batch : List RecordText}
    {q : EmbeddingRequest} {e : EmbeddingResponse} {new : List Event}
    (htexts : q.texts = batch.map RecordText.text)
    (hembeds : ∀ t ∈ batch, ∀ x, embeds (run.newVector t.recordId x) t.text)
    (hnew : Stores run ((batch.map RecordText.recordId).zip e.embeddings) new) :
    Faithful embeds (new ++ ⟨.embed q, .ok e⟩ :: past) := by
  have hembed : ∀ q' answer, ⟨.embed q', answer⟩ ∈ new ++ (⟨.embed q, .ok e⟩ : Event) :: past →
      (⟨.embed q', answer⟩ : Event) = ⟨.embed q, .ok e⟩ ∨ ⟨.embed q', answer⟩ ∈ past := by
    intro q' answer h
    rcases List.mem_append.mp h with h | h
    · obtain ⟨k, ⟨⟩⟩ | ⟨p, _, a, ⟨⟩⟩ := hnew.only _ h
    · exact List.mem_cons.mp h
  refine ⟨fun v a h => ?_, fun q' e' i text x h htext hx => ?_⟩
  · rcases List.mem_append.mp h with h | h
    · -- a new vector: its place in the answer is that of its record in the batch
      obtain ⟨k, ⟨⟩⟩ | ⟨p, hp, a', ⟨⟩⟩ := hnew.only _ h
      obtain ⟨i, t, ht, hid, hx⟩ := mem_places.mp hp
      refine ⟨q, e, i, t.text, List.mem_append_right _ List.mem_cons_self, ?_, hx, ?_⟩
      · exact (getElem?_texts htexts).mpr ⟨t, ht, rfl⟩
      · exact hid ▸ hembeds t (List.mem_of_getElem? ht) p.2
    · obtain ⟨⟨⟩⟩ | h := List.mem_cons.mp h
      obtain ⟨q', e', i, text, hq, hplace⟩ := hpast.placed v a h
      exact ⟨q', e', i, text, List.mem_append_right _ (List.mem_cons_of_mem _ hq), hplace⟩
  · rcases hembed q' _ h with heq | h
    · cases heq
      obtain ⟨t, ht, rfl⟩ := (getElem?_texts htexts).mp htext
      obtain ⟨a, ha⟩ := hnew.all (t.recordId, x) (mem_places.mpr ⟨i, t, ht, rfl, hx⟩)
      exact ⟨_, a, List.mem_append_left _ ha, rfl, hembeds t (List.mem_of_getElem? ht) x⟩
    · obtain ⟨v, a, hv, hstored⟩ := hpast.stored q' e' i text x h htext hx
      exact ⟨v, a, List.mem_append_right _ (List.mem_cons_of_mem _ hv), hstored⟩

theorem Program.runBatch_faithful {request : List String → EmbeddingRequest}
    (hrequest : ∀ texts, (request texts).texts = texts) (run : Run) (report : GenerationReport)
    {batch : List RecordText}
    (hembeds : ∀ t ∈ batch, ∀ x, embeds (run.newVector t.recordId x) t.text) :
    (Program.runBatch request run report batch).Keeps (answering catalog)
      (Faithful embeds) fun _ => True := by
  intro past hpast
  refine And.intro trivial ?_
  intro answer _
  cases answer with
  | error e =>
    refine ⟨hpast.cons ?_ ?_, trivial⟩
    · rintro q e ⟨⟩
    · rintro v a ⟨⟩
  | ok e =>
    refine (Program.storeVectors_stores run _ _ _).mono ?_
    rintro now _ ⟨new, rfl, hnew⟩
    exact ⟨hpast.batch (hrequest _) hembeds hnew, trivial⟩

theorem Program.runBatches_faithful {request : List String → EmbeddingRequest}
    (hrequest : ∀ texts, (request texts).texts = texts) (run : Run) (report : GenerationReport)
    {parts : List (List RecordText)}
    (hembeds : ∀ batch ∈ parts, ∀ t ∈ batch, ∀ x, embeds (run.newVector t.recordId x) t.text) :
    (Program.runBatches request run report parts).Keeps (answering catalog)
      (Faithful embeds) fun _ => True := by
  induction parts generalizing report with
  | nil => exact .done trivial
  | cons batch rest ih =>
    refine (Program.runBatch_faithful hrequest run report
      (hembeds batch List.mem_cons_self)).bind fun report _ => ih report ?_
    exact fun batch hbatch => hembeds batch (List.mem_cons_of_mem _ hbatch)

/-! ## Whole runs -/

/-- A run stores the vectors that are in the places of its texts, and all of them. -/
theorem Service.generate_faithful (s : Service) (r : GenerationRequest) :
    (s.generate r).Keeps (answering catalog) (Faithful (s.Embeds r catalog))
      fun _ => True := by
  refine s.generate_keeps_answers (fun _ => Call.Reads.faithful) r (fun _ _ h => h) ?_
  intro d target report parts hd htarget hparts
  refine Program.runBatches_faithful (fun _ => rfl) _ _ ?_
  intro batch hbatch t ht x
  obtain ⟨record, hrecord, rfl⟩ := hparts batch hbatch t ht
  exact ⟨d, target, record, hd, htarget, hrecord, rfl, rfl, rfl, rfl⟩

/-! ## Worlds -/

/-- What the provider was asked, the latest first. -/
def questions (events : List Event) : List EmbeddingRequest := events.flatMap fun e => e.1.asked

/-- Whether the provider was asked for a batch, after `n` other questions, and answered so. -/
def Asked (events : List Event) (n : Nat) (q : EmbeddingRequest)
    (answer : Except EmbeddingError EmbeddingResponse) : Prop :=
  ∃ newer older, events = newer ++ ⟨.embed q, answer⟩ :: older ∧ (questions older).length = n

theorem Asked.mem {n : Nat} {q : EmbeddingRequest}
    {answer : Except EmbeddingError EmbeddingResponse} (h : Asked past n q answer) :
    ⟨.embed q, answer⟩ ∈ past := by
  obtain ⟨newer, older, rfl, -⟩ := h
  exact List.mem_append_right _ List.mem_cons_self

theorem exists_asked {q : EmbeddingRequest} {answer : Except EmbeddingError EmbeddingResponse}
    (h : ⟨.embed q, answer⟩ ∈ past) : ∃ n, Asked past n q answer := by
  obtain ⟨newer, older, rfl⟩ := List.append_of_mem h
  exact ⟨_, newer, older, rfl, rfl⟩

/-- A question is the latest event, or it was asked before. -/
theorem asked_cons {event : Event} {n : Nat} {q : EmbeddingRequest}
    {answer : Except EmbeddingError EmbeddingResponse} : Asked (event :: past) n q answer ↔
      event = ⟨.embed q, answer⟩ ∧ (questions past).length = n ∨ Asked past n q answer := by
  constructor
  · rintro ⟨newer, older, heq, hn⟩
    cases newer with
    | nil =>
      obtain ⟨rfl, rfl⟩ := List.cons.inj heq
      exact .inl ⟨rfl, hn⟩
    | cons latest newer =>
      obtain ⟨rfl, rfl⟩ := List.cons.inj heq
      exact .inr ⟨newer, older, rfl, hn⟩
  · rintro (⟨rfl, hn⟩ | ⟨newer, older, rfl, hn⟩)
    · exact ⟨[], past, rfl, hn⟩
    · exact ⟨event :: newer, older, rfl, hn⟩

/-- Whether the provider of `w₀` answered all questions since then, in their order, and answers the
next ones in `w`. -/
structure Answered (w₀ : World) (past : List Event) (w : World) : Prop where
  catalog : w.catalog = w₀.catalog
  provider : w.provider = w₀.provider
  count : w.sent.length = w₀.sent.length + (questions past).length
  answers : ∀ n q answer, Asked past n q answer →
    answer = w₀.provider.embed (w₀.sent.length + n) q

theorem Answered.start (w : World) : Answered w [] w where
  catalog := rfl
  provider := rfl
  count := rfl
  answers := by
    rintro n q answer ⟨newer, older, heq, -⟩
    cases newer <;> cases heq

/-- Every call keeps to this: a question is one more that is sent, and no other call sends. -/
theorem Answered.answer {w₀ w : World} (h : Answered w₀ past w) (c : Call) :
    Answered w₀ (⟨c, (w.answer c).1⟩ :: past) (w.answer c).2 := by
  obtain ⟨hcatalog, hprovider⟩ := w.answer_fixed c
  refine ⟨hcatalog.trans h.catalog, hprovider.trans h.provider, ?_, fun n q answer hasked => ?_⟩
  · have hlatest : questions (⟨c, (w.answer c).1⟩ :: past) = c.asked ++ questions past := rfl
    rw [w.sent_answer c, hlatest, List.length_append, List.length_append, h.count]
    omega
  · rcases asked_cons.mp hasked with ⟨hevent, rfl⟩ | hasked
    · cases hevent
      rw [← h.count, ← h.provider]
      rfl
    · exact h.answers n q answer hasked

/-- A run in a world stores the vectors in the places of its texts, as the provider answers them. -/
theorem Service.trace_faithful (s : Service) (r : GenerationRequest) (w : World) :
    Faithful (s.Embeds r w.catalog) ((ExceptT.run (s.generate r)).trace w []) ∧
      ∀ n q answer, Asked ((ExceptT.run (s.generate r)).trace w []) n q answer →
        answer = w.provider.embed (w.sent.length + n) q := by
  have hanswer : ∀ past (w' : World) c, Answered w past w' →
      (answering w.catalog).legal past c → (answering w.catalog).allows c (w'.answer c).1 ∧
        Answered w (⟨c, (w'.answer c).1⟩ :: past) (w'.answer c).2 := by
    intro past w' c hw' _
    exact ⟨hw'.catalog ▸ w'.answer_catalog c, hw'.answer c⟩
  obtain ⟨⟨hfaithful, -⟩, hanswered⟩ :=
    (s.generate_faithful r [] Faithful.nil).run_keeps hanswer (Answered.start w)
  exact ⟨hfaithful, hanswered.answers⟩

/-! ## Labels -/

/-- When a reply has no more vectors than there are texts, all of them are stored, so that the
stored ones have the right labels only if all of them do. -/
theorem Faithful.labelled_iff (h : Faithful embeds past) {q : EmbeddingRequest}
    {b : Api.Body} (hq : ⟨.embed q, .ok b.response⟩ ∈ past)
    (hlength : b.data.length ≤ q.texts.length) :
    b.Labelled ↔ ∀ (i : Nat) (text : String) (v : NewVector) (a : Except ServiceError Unit),
      q.texts[i]? = some text → b.response.embeddings[i]? = some v.vector →
        ⟨.upsert v, a⟩ ∈ past → embeds v text →
          ∃ item ∈ b.data, item.index = i ∧ item.embedding = v.vector := by
  constructor
  · intro hlabelled i text v a _ hx _ _
    exact hlabelled.place hx
  · intro hall
    refine b.labels_match_iff.mp ?_
    intro i hi
    have htext : i < q.texts.length := (b.length_embeddings ▸ hi).trans_le hlength
    have hplace := List.getElem?_eq_getElem hi
    obtain ⟨v, a, hv, hx, hembeds⟩ :=
      h.stored q b.response i _ _ hq (List.getElem?_eq_getElem htext) hplace
    rw [← hx] at hplace ⊢
    exact hall i _ v a (List.getElem?_eq_getElem htext) hplace hv hembeds

end Runs

/-- The vectors of an answer are in the places of their labels exactly when the body has the right
labels. A run of generation stores, for the record of a text, only the vector in the place of this
text. With the right labels that is the vector of this text; without them, and with no more vectors
than texts, it stores some vector for a text that it is not labelled with. -/
theorem labels_respected (c : Api.Client) (transport : Transport) :
    (∀ n r e, r.texts ≠ [] → c.embed transport n r = .ok e →
      ∃ b, c.body? transport n r = some b ∧ e = b.response ∧
        ((∀ i (hi : i < e.embeddings.length),
          ∃ item ∈ b.data, item.index = i ∧ item.embedding = e.embeddings[i]) ↔ b.Labelled)) ∧
    ∀ (s : Service) (r : GenerationRequest) (w : World), w.provider = c.provider transport →
      ∀ events, events = (ExceptT.run (s.generate r)).trace w [] →
        (∀ v a, ⟨.upsert v, a⟩ ∈ events →
          ∃ n q b i text, Asked events n q (.ok b.response) ∧
            c.body? transport (w.sent.length + n) q = some b ∧
            q.texts[i]? = some text ∧ b.response.embeddings[i]? = some v.vector ∧
            s.Embeds r w.catalog v text ∧
            (b.Labelled → ∃ item ∈ b.data, item.index = i ∧ item.embedding = v.vector)) ∧
        ∀ n q b, Asked events n q (.ok b.response) →
          c.body? transport (w.sent.length + n) q = some b → b.data.length ≤ q.texts.length →
            (b.Labelled ↔ ∀ (i : Nat) text v a, q.texts[i]? = some text →
              b.response.embeddings[i]? = some v.vector → ⟨.upsert v, a⟩ ∈ events →
                s.Embeds r w.catalog v text →
                  ∃ item ∈ b.data, item.index = i ∧ item.embedding = v.vector) := by
  refine ⟨fun n r e hr he => ?_, fun s r w hprovider events hevents => ?_⟩
  · obtain ⟨b, hb, rfl⟩ := (Api.Client.embed_eq_ok hr).mp he
    exact ⟨b, hb, rfl, b.labels_match_iff⟩
  · obtain ⟨hfaithful, hanswers⟩ := s.trace_faithful r w
    rw [← hevents, hprovider] at hanswers
    rw [← hevents] at hfaithful
    refine ⟨fun v a hv => ?_, fun n q b hq _ hlength => hfaithful.labelled_iff hq.mem hlength⟩
    obtain ⟨q, e, i, text, hq, htext, hx, hembeds⟩ := hfaithful.placed v a hv
    obtain ⟨n, hasked⟩ := exists_asked hq
    have hne : q.texts ≠ [] := by
      intro hnil
      rw [hnil] at htext
      cases htext
    obtain ⟨b, hb, rfl⟩ := (Api.Client.embed_eq_ok hne).mp (hanswers n q _ hasked).symm
    exact ⟨n, q, b, i, text, hasked, hb, htext, hx, hembeds, fun h => h.place hx⟩

/-- A reply with the labels one and two, and one more member that is passed over: the vector with
the label of the second text is stored for the record of the first. -/
theorem labels_respected_shifted :
    let c : Api.Client := ⟨some "key", defaultBaseUrl⟩
    let body := "\x7b\"data\":[\x7b\"embedding\":[1],\"index\":1\x7d," ++
      "\x7b\"embedding\":[2],\"index\":2\x7d]," ++
      "\"model\":\"m\",\"notes\":[1e400,\"\\ud800\"]\x7d"
    let transport : Transport := fun n _ _ =>
      if n = 0 then .ok ⟨200, [], body⟩ else .error "closed"
    let b : Api.Body := ⟨[⟨[1], 1⟩, ⟨[2], 2⟩], "m", none⟩
    let s : Service :=
      { settings := { ai := { enabled := true } }, providerName := "openai"
        providerAvailable := true }
    let w : World :=
      { catalog :=
          { datasets := [⟨"A", "a", [⟨"f", .text, true⟩]⟩]
            records := [("A", ⟨"x", [("f", .string "first")]⟩),
              ("A", ⟨"y", [("f", .string "second")]⟩)] }
        provider := ⟨"openai", true, fun n q =>
          if q.texts.isEmpty then .ok ⟨[], q.model, none⟩
          else if n = 0 then .ok ⟨[[1], [2]], "m", none⟩
          else .error (.http "closed")⟩ }
    let r := GenerationRequest.ofField "A" "f"
    w.provider = c.provider transport ∧
      ∃ v a q text, ⟨.upsert v, a⟩ ∈ (ExceptT.run (s.generate r)).trace w [] ∧
        s.Embeds r w.catalog v text ∧ c.body? transport 0 q = some b ∧ q.texts[0]? = some text ∧
        ⟨v.vector, 1⟩ ∈ b.data ∧ ∀ item ∈ b.data, item.index ≠ 0 := by
  intro c body transport b s w r
  have hbody : ∀ q, c.body? transport 0 q = some b := by
    have hread : (Api.readBody body).toOption = some b := by decide +kernel
    exact fun _ => hread
  have hvectors : b.response = ⟨[[1], [2]], "m", none⟩ := by
    have hsorted : b.data.Pairwise fun x y => decide (x.index ≤ y.index) = true := by decide
    rw [Api.Body.response, List.mergeSort_of_pairwise hsorted]
    rfl
  have hclosed : ∀ n, n ≠ 0 → ∀ q, transport n q.timeoutMs (c.request "key" q) =
      .error "closed" := fun _ hn _ => if_neg hn
  have hprovider : w.provider = c.provider transport := by
    refine congrArg (Provider.mk "openai" true) ?_
    funext n q
    by_cases hq : q.texts = []
    · rw [if_pos (by simp [hq]), Api.Client.embed, if_pos (by simp [hq])]
    · rw [if_neg (by simpa using hq)]
      by_cases hn : n = 0
      · subst hn
        rw [if_pos rfl]
        exact ((Api.Client.embed_eq_ok hq).mpr ⟨b, hbody q, hvectors.symm⟩).symm
      · rw [if_neg hn, Api.Client.embed, if_neg (by simpa using hq)]
        dsimp only [c]
        rw [hclosed n hn q]
  -- the provider of the world is spelled out because the sorting of a body does not compute
  have hstored : ⟨"x", "A", "f", [1], "text-embedding-3-small", 1⟩ ∈
      ((ExceptT.run (s.generate r)).trace w []).filterMap fun
        | ⟨.upsert v, _⟩ => some v
        | _ => none := by decide +kernel
  obtain ⟨⟨call, a⟩, hmem, hcall⟩ := List.mem_filterMap.mp hstored
  cases call with
  | upsert v =>
    obtain rfl := Option.some.inj hcall
    obtain ⟨hplaced, -⟩ := (labels_respected c transport).2 s r w hprovider _ rfl
    obtain ⟨n, q, b', i, text, -, hb', htext, hx, hembeds, -⟩ := hplaced _ a hmem
    have hsent : w.sent.length + n = n := Nat.zero_add n
    rw [hsent] at hb'
    -- only the first question has a reply
    have hn : n = 0 := by
      by_contra hn
      rw [Api.Client.body?] at hb'
      dsimp only [c] at hb'
      rw [hclosed n hn q] at hb'
      cases hb'
    subst hn
    obtain rfl : b = b' := Option.some.inj ((hbody q).symm.trans hb')
    have hplace : i = 0 := by
      rw [hvectors] at hx
      have hi : i < 2 := (List.getElem?_eq_some_iff.mp hx).1
      have hone : i ≠ 1 := fun h => absurd (h ▸ hx) (by decide +kernel)
      omega
    subst hplace
    exact ⟨hprovider, _, a, q, text, hmem, hembeds, hb', htext, by decide, by decide⟩
  | _ => cases hcall

end EmbeddingSearch
