import EmbeddingSearch.Proofs.Service.Transparency

/-!
# Searches that are refused

A search has ten preconditions. They are checked in a fixed order, the first one that is broken
decides the error, and a search that fails has changed nothing: neither rows nor the cache, of which
not even the time of the last access moves. The provider is asked at most once, and only after all
that is checked before it.

## Contents
- `Refusal`, `Refusal.checks`: the preconditions in their order.
- `Refusal.Breaks`: how a request breaks one of them, and the error that says so.
- `Refusal.First`: the first of several that is broken, with its error.
- `Checks`: an action that fails as the first of its preconditions says; `Checks.bind` puts two of
  them together.
- `Service.requireEnabled_checks`, `Action.dataset_checks`, `SearchRequest.fieldIn_checks`,
  `SearchRequest.query_checks`, `Service.queryVector_checks`: the stages of a search.
- `search_refused`: when a search fails, how, and what it leaves behind.
-/

namespace EmbeddingSearch

/-! ## Preconditions -/

/-- The preconditions of a search, named for how they are broken. -/
inductive Refusal where
  | disabled
  | datasetUnknown
  | fieldMissing
  | fieldUnknown
  | queryAmbiguous
  | queryMissing
  | providerUnready
  | providerFailing
  | vectorMissing
  | vectorUndecodable
deriving DecidableEq, Repr

/-- The name under which the vectors of a search would be stored, whatever the dataset. -/
def SearchRequest.fieldName (r : SearchRequest) : String :=
  match r.mode with
  | .record => wholeRecord
  | .field => r.field.getD ""

/-- What the provider is asked for the text of a search. -/
def Service.queryRequest (s : Service) (text : String) : EmbeddingRequest :=
  s.embeddingRequest [text] s.settings.ai.queryTimeoutSecs

/-- What the provider is asked for a search: nothing, unless it is by a text. -/
def Service.queryRequests (s : Service) (r : SearchRequest) : List EmbeddingRequest :=
  (r.text.filter (· ≠ "")).toList.map s.queryRequest

namespace Refusal

/-- All preconditions, in the order in which they are checked. -/
def checks : List Refusal :=
  [disabled, datasetUnknown, fieldMissing, fieldUnknown, queryAmbiguous, queryMissing,
    providerUnready, providerFailing, vectorMissing, vectorUndecodable]

theorem mem_checks (f : Refusal) : f ∈ checks := by
  cases f <;> decide

/-- The kinds of error that a broken precondition is reported as. -/
def Reports : Refusal → ServiceError.Kind → Prop
  | disabled, .config | datasetUnknown, .notFound | fieldMissing, .invalidRequest
  | fieldUnknown, .notFound | queryAmbiguous, .invalidRequest | queryMissing, .missingQuery
  | providerUnready, .config | providerFailing, .embedding _ | vectorMissing, .notFound
  | vectorUndecodable, .decode _ => True
  | _, _ => False

/-- How an answer of the provider holds no vector. -/
def Unanswered (answer : Except EmbeddingError EmbeddingResponse) (e : ServiceError) : Prop :=
  (∃ cause, answer = .error cause ∧ e = .embedding cause) ∨
    ∃ response, answer = .ok response ∧ response.embeddings = [] ∧
      e = .embedding (.invalidResponse "no embedding returned for query text")

/-- How a request breaks a precondition, and the error that says so. -/
def Breaks (s : Service) (r : SearchRequest) (w : World) : Refusal → ServiceError → Prop
  | disabled, e => s.settings.ai.enabled = false ∧ e = .disabled
  | datasetUnknown, e =>
    (∀ d ∈ w.catalog.datasets, d.id ≠ r.dataset ∧ d.name ≠ r.dataset) ∧
      e = .datasetNotFound r.dataset
  | fieldMissing, e => r.mode = .field ∧ LeftOut r.field ∧ e = .searchFieldMissing
  | fieldUnknown, e => r.mode = .field ∧ ∃ d name, w.catalog.findDataset r.dataset = some d ∧
      Given r.field name ∧ (∀ f ∈ d.fields, f.name ≠ name) ∧
      e = .fieldNotFound name d.name
  | queryAmbiguous, e =>
    (∃ text, Given r.text text) ∧ (∃ id, Given r.recordId id) ∧ e = .ambiguousQuery
  | queryMissing, e => LeftOut r.text ∧ LeftOut r.recordId ∧ e = .queryMissing
  | providerUnready, e => (∃ text, Given r.text text) ∧
      if s.providerAvailable then s.settings.ai.model = "" ∧ e = .modelMissing
      else e = .providerNotReady s.providerName
  | providerFailing, e => ∃ text, Given r.text text ∧
      Unanswered (w.provider.embed w.sent.length (s.queryRequest text)) e
  | vectorMissing, e => ∃ id, Given r.recordId id ∧
      w.store.findRow id r.fieldName = none ∧ e = .vectorNotFound id r.fieldName
  | vectorUndecodable, e => ∃ id row cause, Given r.recordId id ∧
      w.store.findRow id r.fieldName = some row ∧ row.payload.decode = .error cause ∧
      e = .decode cause

/-- What the provider is asked by a search that is refused. -/
def asked (s : Service) (r : SearchRequest) : Refusal → List EmbeddingRequest
  | providerFailing => s.queryRequests r
  | _ => []

variable {s : Service} {r : SearchRequest} {w : World}

theorem Breaks.reports {f : Refusal} {e : ServiceError} (h : f.Breaks s r w e) :
    f.Reports e.kind := by
  cases f with
  | disabled =>
    obtain ⟨-, rfl⟩ := h
    trivial
  | datasetUnknown =>
    obtain ⟨-, rfl⟩ := h
    trivial
  | fieldMissing =>
    obtain ⟨-, -, rfl⟩ := h
    trivial
  | fieldUnknown =>
    obtain ⟨-, d, name, -, -, -, rfl⟩ := h
    trivial
  | queryAmbiguous =>
    obtain ⟨-, -, rfl⟩ := h
    trivial
  | queryMissing =>
    obtain ⟨-, -, rfl⟩ := h
    trivial
  | providerUnready =>
    obtain ⟨-, h⟩ := h
    split at h
    · obtain ⟨-, rfl⟩ := h
      trivial
    · subst h
      trivial
  | providerFailing =>
    obtain ⟨text, -, ⟨cause, -, rfl⟩ | ⟨response, -, -, rfl⟩⟩ := h
    · trivial
    · trivial
  | vectorMissing =>
    obtain ⟨id, -, -, rfl⟩ := h
    trivial
  | vectorUndecodable =>
    obtain ⟨id, row, cause, -, -, -, rfl⟩ := h
    trivial

theorem Unanswered.unique {answer : Except EmbeddingError EmbeddingResponse}
    {e e' : ServiceError} (h : Unanswered answer e) (h' : Unanswered answer e') : e = e' := by
  rcases h with ⟨cause, hcause, rfl⟩ | ⟨response, hresponse, -, rfl⟩
  · rcases h' with ⟨cause', hcause', rfl⟩ | ⟨response', hresponse', -, rfl⟩
    · cases hcause.symm.trans hcause'
      rfl
    · cases hcause.symm.trans hresponse'
  · rcases h' with ⟨cause', hcause', rfl⟩ | ⟨response', hresponse', -, rfl⟩
    · cases hresponse.symm.trans hcause'
    · rfl

/-- A precondition is reported in one way. -/
theorem Breaks.unique {f : Refusal} {e e' : ServiceError} (h : f.Breaks s r w e)
    (h' : f.Breaks s r w e') : e = e' := by
  cases f with
  | disabled => exact h.2.trans h'.2.symm
  | datasetUnknown => exact h.2.trans h'.2.symm
  | fieldMissing => exact h.2.2.trans h'.2.2.symm
  | fieldUnknown =>
    obtain ⟨-, d, name, hd, hname, -, rfl⟩ := h
    obtain ⟨-, d', name', hd', hname', -, rfl⟩ := h'
    cases hd.symm.trans hd'
    obtain rfl := hname.unique hname'
    rfl
  | queryAmbiguous => exact h.2.2.trans h'.2.2.symm
  | queryMissing => exact h.2.2.trans h'.2.2.symm
  | providerUnready =>
    obtain ⟨-, h⟩ := h
    obtain ⟨-, h'⟩ := h'
    by_cases havailable : s.providerAvailable = true
    · rw [if_pos havailable] at h h'
      exact h.2.trans h'.2.symm
    · rw [if_neg havailable] at h h'
      exact h.trans h'.symm
  | providerFailing =>
    obtain ⟨text, htext, h⟩ := h
    obtain ⟨text', htext', h'⟩ := h'
    obtain rfl := htext.unique htext'
    exact h.unique h'
  | vectorMissing =>
    obtain ⟨id, hid, -, rfl⟩ := h
    obtain ⟨id', hid', -, rfl⟩ := h'
    obtain rfl := hid.unique hid'
    rfl
  | vectorUndecodable =>
    obtain ⟨id, row, cause, hid, hrow, hcause, rfl⟩ := h
    obtain ⟨id', row', cause', hid', hrow', hcause', rfl⟩ := h'
    obtain rfl := hid.unique hid'
    cases hrow.symm.trans hrow'
    cases hcause.symm.trans hcause'
    rfl

/-! ## The first that is broken -/

/-- Which of some preconditions is broken first, `P` being how each of them is broken. -/
inductive First (P : Refusal → ServiceError → Prop) :
    List Refusal → Refusal → ServiceError → Prop
  | here {f : Refusal} {e : ServiceError} {rest : List Refusal} (h : P f e) :
    First P (f :: rest) f e
  | later {f g : Refusal} {e : ServiceError} {rest : List Refusal} (hg : ∀ e', ¬ P g e')
    (h : First P rest f e) : First P (g :: rest) f e

section First

variable {P : Refusal → ServiceError → Prop} {fs gs : List Refusal} {f : Refusal}
  {e : ServiceError}

theorem First.holds (h : First P fs f e) : P f e := by
  induction h with
  | here h => exact h
  | later _ _ ih => exact ih

theorem First.append (h : First P fs f e) (gs : List Refusal) : First P (fs ++ gs) f e := by
  induction h with
  | here h => exact .here h
  | later hg _ ih => exact .later hg ih

/-- Preconditions that hold are passed over. -/
theorem First.after (hfs : ∀ g ∈ fs, ∀ e', ¬ P g e') (h : First P gs f e) :
    First P (fs ++ gs) f e := by
  induction fs with
  | nil => exact h
  | cons g fs ih =>
    obtain ⟨hg, hfs⟩ := List.forall_mem_cons.mp hfs
    exact .later hg (ih hfs)

/-- Only one precondition is broken first, and it is reported in one way. -/
theorem First.unique {g : Refusal} {e' : ServiceError} (h : First (Breaks s r w) fs f e)
    (h' : First (Breaks s r w) fs g e') : f = g ∧ e = e' := by
  induction h with
  | here h =>
    cases h' with
    | here h' => exact ⟨rfl, h.unique h'⟩
    | later hnot _ => exact absurd h (hnot _)
  | later hnot _ ih =>
    cases h' with
    | here h' => exact absurd h' (hnot _)
    | later _ h' => exact ih h'

end First

end Refusal

/-! ## Actions that check -/

section Checks

variable {α β : Type} (s : Service) (r : SearchRequest) (w : World)

/-- How an action that checks some preconditions of a request can end: as the first that is broken
says, or with a value as it should be, after all of them hold. It has only read, and `requests` is
what it has asked the provider for. -/
inductive Outcome (fs : List Refusal) (post : α → Prop) (requests : List EmbeddingRequest) :
    Except ServiceError α × World → Prop
  | refused {f : Refusal} {e : ServiceError} (m : Nat)
    (h : Refusal.First (Refusal.Breaks s r w) fs f e) :
    Outcome fs post requests
      (.error e, { w with calls := m, sent := w.sent ++ f.asked s r })
  | passed {x : α} (m : Nat) (hfs : ∀ f ∈ fs, ∀ e, ¬ f.Breaks s r w e) (hx : post x) :
    Outcome fs post requests (.ok x, { w with calls := m, sent := w.sent ++ requests })

/-- Whether an action checks some preconditions, however many calls came before it. -/
def Checks (fs : List Refusal) (post : α → Prop) (requests : List EmbeddingRequest)
    (a : Action α) : Prop :=
  ∀ n, Outcome s r w fs post requests (a.run { w with calls := n })

variable {s r w} {fs gs : List Refusal} {post : α → Prop} {requests : List EmbeddingRequest}

theorem Outcome.refused_unasked {f : Refusal} {e : ServiceError} (m : Nat)
    (h : Refusal.First (Refusal.Breaks s r w) fs f e) (hf : f.asked s r = []) :
    Outcome s r w fs post requests (.error e, { w with calls := m }) := by
  have houtcome : Outcome s r w fs post requests _ := .refused m h
  rwa [hf, List.append_nil] at houtcome

theorem Outcome.passed_unasked {x : α} (m : Nat) (hfs : ∀ f ∈ fs, ∀ e, ¬ f.Breaks s r w e)
    (hx : post x) : Outcome s r w fs post [] (.ok x, { w with calls := m }) := by
  have houtcome : Outcome s r w fs post [] _ := .passed m hfs hx
  rwa [List.append_nil] at houtcome

/-- Preconditions that hold anyway can be listed before the others. -/
theorem Outcome.prepend {outcome : Except ServiceError α × World}
    (h : Outcome s r w gs post requests outcome) (hfs : ∀ f ∈ fs, ∀ e, ¬ f.Breaks s r w e) :
    Outcome s r w (fs ++ gs) post requests outcome := by
  cases h with
  | refused m h => exact .refused m (h.after hfs)
  | passed m hgs hx => exact .passed m (List.forall_mem_append.mpr ⟨hfs, hgs⟩) hx

/-- The same after them. -/
theorem Outcome.append {outcome : Except ServiceError α × World}
    (h : Outcome s r w fs post requests outcome) (hgs : ∀ g ∈ gs, ∀ e, ¬ g.Breaks s r w e) :
    Outcome s r w (fs ++ gs) post requests outcome := by
  cases h with
  | refused m h => exact .refused m (h.append gs)
  | passed m hfs hx => exact .passed m (List.forall_mem_append.mpr ⟨hfs, hgs⟩) hx

/-- The preconditions of what follows come after those of an action that asks for nothing. -/
theorem Checks.bind {mid : α → Prop} {post : β → Prop} {a : Action α} {f : α → Action β}
    (ha : Checks s r w fs mid [] a) (hf : ∀ x, mid x → Checks s r w gs post requests (f x)) :
    Checks s r w (fs ++ gs) post requests (a >>= f) := by
  intro n
  have hfirst := ha n
  generalize hrun : a.run { w with calls := n } = outcome at hfirst
  cases hfirst with
  | refused m h =>
    rw [Action.run_bind_of_error hrun]
    exact .refused m (h.append gs)
  | @passed x m hfs hx =>
    rw [List.append_nil] at hrun
    rw [Action.run_bind_of_ok hrun]
    exact (hf x hx m).prepend hfs

/-- What is made of the value breaks no precondition. -/
theorem Checks.map {a : Action α} (h : Checks s r w fs post requests a) (g : α → β) :
    Checks s r w fs (fun _ => True) requests (a >>= fun x => pure (g x)) := by
  intro n
  have houtcome := h n
  generalize hrun : a.run { w with calls := n } = outcome at houtcome
  cases houtcome with
  | refused m h =>
    rw [Action.run_bind_of_error hrun]
    exact .refused m h
  | passed m hfs hx =>
    rw [Action.run_bind_of_ok hrun]
    exact .passed m hfs trivial

/-! ## The stages of a search -/

theorem Service.requireEnabled_checks :
    Checks s r w [.disabled] (fun _ => s.settings.ai.enabled = true) [] s.requireEnabled := by
  intro n
  unfold Service.requireEnabled
  by_cases henabled : s.settings.ai.enabled = true
  · rw [if_pos henabled]
    refine .passed_unasked n (List.forall_mem_singleton.mpr fun e hbreaks => ?_) henabled
    exact absurd (henabled.symm.trans hbreaks.1) Bool.true_eq_false.mp
  · rw [if_neg henabled]
    exact .refused_unasked n (.here ⟨Bool.eq_false_of_not_eq_true henabled, rfl⟩) rfl

theorem Catalog.findDataset_eq_none {c : Catalog} {idOrName : String} :
    c.findDataset idOrName = none ↔
      ∀ d ∈ c.datasets, d.id ≠ idOrName ∧ d.name ≠ idOrName := by
  simp [Catalog.findDataset, forall_and]

theorem Action.dataset_checks (hw : ∀ n c, w.outage n c = none) :
    Checks s r w [.datasetUnknown] (fun d => w.catalog.findDataset r.dataset = some d) []
      (Action.dataset r.dataset) := by
  intro n
  have hfound : (Action.orFail (Program.ask (.findDataset r.dataset))).run { w with calls := n } =
      (.ok (w.catalog.findDataset r.dataset), { w with calls := n + 1 }) :=
    World.attempt_answered (w := { w with calls := n }) hw _
      fun w => (w.catalog.findDataset r.dataset, w)
  unfold Action.dataset
  rw [Action.run_bind_of_ok hfound]
  cases hd : w.catalog.findDataset r.dataset with
  | none => exact .refused_unasked (n + 1) (.here ⟨Catalog.findDataset_eq_none.mp hd, rfl⟩) rfl
  | some d =>
    refine .passed_unasked (n + 1) (List.forall_mem_singleton.mpr fun e hbreaks => ?_) rfl
    rw [Catalog.findDataset_eq_none.mpr hbreaks.1] at hd
    cases hd

theorem Dataset.field?_eq_none {d : Dataset} {name : String} :
    d.field? name = none ↔ ∀ f ∈ d.fields, f.name ≠ name := by
  simp [Dataset.field?]

theorem SearchRequest.fieldIn_checks {d : Dataset}
    (hd : w.catalog.findDataset r.dataset = some d) :
    Checks s r w [.fieldMissing, .fieldUnknown] (fun field => field = r.fieldName) []
      (Action.orFail (pure (r.fieldIn d))) := by
  intro n
  show Outcome s r w _ _ _ (r.fieldIn d, { w with calls := n })
  unfold SearchRequest.fieldIn SearchRequest.fieldName
  cases hmode : r.mode with
  | record =>
    refine .passed_unasked n (List.forall_mem_cons.mpr ⟨?_, List.forall_mem_singleton.mpr ?_⟩) rfl
    · intro e hbreaks
      cases hmode.symm.trans hbreaks.1
    · intro e hbreaks
      cases hmode.symm.trans hbreaks.1
  | field =>
    cases hfield : nonEmpty r.field with
    | none => exact .refused_unasked n (.here ⟨hmode, nonEmpty_eq_none.mp hfield, rfl⟩) rfl
    | some name =>
      replace hfield := nonEmpty_eq_some.mp hfield
      have hgiven : ∀ e, ¬ Refusal.fieldMissing.Breaks s r w e :=
        fun _ hbreaks => hfield.not_leftOut hbreaks.2.1
      have hown : r.field.getD "" = name := by
        rw [hfield.1]
        rfl
      dsimp only
      cases hf : d.field? name with
      | none =>
        exact .refused_unasked n (.later hgiven
          (.here ⟨hmode, d, name, hd, hfield, Dataset.field?_eq_none.mp hf, rfl⟩)) rfl
      | some f =>
        have hname : f.name = name := by simpa using List.find?_some hf
        refine .passed_unasked n (List.forall_mem_cons.mpr ⟨hgiven,
          List.forall_mem_singleton.mpr ?_⟩) (hname.trans hown.symm)
        rintro e ⟨-, d', name', hd', hfield', hnone, -⟩
        cases hd.symm.trans hd'
        obtain rfl := hfield.unique hfield'
        rw [Dataset.field?_eq_none.mpr hnone] at hf
        cases hf

/-- Whether a query is by what a request gives, and this is all that it gives. -/
def QuerySource.IsOf (r : SearchRequest) : QuerySource → Prop
  | .text t => Given r.text t ∧ LeftOut r.recordId
  | .record id => LeftOut r.text ∧ Given r.recordId id

theorem SearchRequest.query_checks :
    Checks s r w [.queryAmbiguous, .queryMissing] (QuerySource.IsOf r) []
      (Action.orFail (pure r.query)) := by
  intro n
  show Outcome s r w _ _ _ (r.query, { w with calls := n })
  unfold SearchRequest.query
  have hone : ∀ source : QuerySource, source.IsOf r →
      ∀ f ∈ [Refusal.queryAmbiguous, .queryMissing], ∀ e, ¬ f.Breaks s r w e := by
    intro source hsource
    refine List.forall_mem_cons.mpr ⟨?_, List.forall_mem_singleton.mpr ?_⟩
    · rintro e ⟨⟨text, htext⟩, ⟨id, hid⟩, -⟩
      cases source with
      | text text' => exact hid.not_leftOut hsource.2
      | record id' => exact htext.not_leftOut hsource.1
    · rintro e ⟨htext, hid, -⟩
      cases source with
      | text text' => exact hsource.1.not_leftOut htext
      | record id' => exact hsource.2.not_leftOut hid
  cases htext : nonEmpty r.text with
  | some text =>
    replace htext := nonEmpty_eq_some.mp htext
    cases hid : nonEmpty r.recordId with
    | some id =>
      exact .refused_unasked n (.here ⟨⟨text, htext⟩, ⟨id, nonEmpty_eq_some.mp hid⟩, rfl⟩) rfl
    | none =>
      have hsource : (QuerySource.text text).IsOf r := ⟨htext, nonEmpty_eq_none.mp hid⟩
      exact .passed_unasked n (hone _ hsource) hsource
  | none =>
    replace htext := nonEmpty_eq_none.mp htext
    cases hid : nonEmpty r.recordId with
    | some id =>
      have hsource : (QuerySource.record id).IsOf r := ⟨htext, nonEmpty_eq_some.mp hid⟩
      exact .passed_unasked n (hone _ hsource) hsource
    | none =>
      refine .refused_unasked n (.later ?_ (.here ⟨htext, nonEmpty_eq_none.mp hid, rfl⟩)) rfl
      rintro e ⟨⟨text, htext'⟩, -⟩
      exact htext'.not_leftOut htext

/-! ### The query -/

theorem Service.requireProvider_checks (henabled : s.settings.ai.enabled = true) {text : String}
    (htext : Given r.text text) :
    Checks s r w [.providerUnready] (fun _ => True) [] s.requireProvider := by
  intro n
  unfold Service.requireProvider
  rw [Service.requireEnabled_of_enabled henabled, pure_bind]
  by_cases havailable : s.providerAvailable = true
  · by_cases hmodel : s.settings.ai.model.isEmpty = true
    · have hbreaks : Refusal.providerUnready.Breaks s r w .modelMissing := by
        refine ⟨⟨text, htext⟩, ?_⟩
        rw [if_pos havailable]
        exact ⟨String.isEmpty_iff.mp hmodel, rfl⟩
      rw [if_pos havailable, if_pos hmodel]
      exact .refused_unasked n (.here hbreaks) rfl
    · rw [if_pos havailable, if_neg hmodel]
      refine .passed_unasked n (List.forall_mem_singleton.mpr ?_) trivial
      rintro e ⟨-, hbreaks⟩
      rw [if_pos havailable] at hbreaks
      exact hmodel (String.isEmpty_iff.mpr hbreaks.1)
  · have hbreaks : Refusal.providerUnready.Breaks s r w (.providerNotReady s.providerName) := by
      refine ⟨⟨text, htext⟩, ?_⟩
      rw [if_neg havailable]
    rw [if_neg havailable]
    exact .refused_unasked n (.here hbreaks) rfl

/-- The vector that is asked for, once the provider can be asked. -/
theorem Service.embedText_checks (henabled : s.settings.ai.enabled = true) {text : String}
    (htext : Given r.text text) :
    Checks s r w [.providerUnready, .providerFailing] (fun _ => True) (s.queryRequests r)
      (s.embedText text) := by
  refine (Service.requireProvider_checks henabled htext).bind fun _ _ n => ?_
  have hrequests : s.queryRequests r = [s.queryRequest text] := by
    rw [Service.queryRequests, htext.filter_eq]
    rfl
  have hanswer : (Action.embed (s.queryRequest text)).run { w with calls := n } =
      ((w.provider.embed w.sent.length (s.queryRequest text)).mapError .embedding,
        { w with calls := n, sent := w.sent ++ s.queryRequests r }) := by
    rw [hrequests]
    rfl
  have hbreaks : ∀ e, Refusal.Unanswered (w.provider.embed w.sent.length (s.queryRequest text)) e →
      Refusal.First (Refusal.Breaks s r w) [.providerFailing] .providerFailing e :=
    fun e he => .here ⟨text, htext, he⟩
  show Outcome s r w _ _ _ ((Action.embed (s.queryRequest text) >>= _).run _)
  cases hembed : w.provider.embed w.sent.length (s.queryRequest text) with
  | error cause =>
    rw [hembed] at hanswer hbreaks
    rw [Action.run_bind_of_error hanswer]
    exact .refused n (hbreaks _ (.inl ⟨cause, rfl, rfl⟩))
  | ok response =>
    rw [hembed] at hanswer hbreaks
    rw [Action.run_bind_of_ok hanswer]
    cases hvectors : response.embeddings with
    | nil => exact .refused n (hbreaks _ (.inr ⟨response, rfl, hvectors, rfl⟩))
    | cons v rest =>
      refine .passed n (List.forall_mem_singleton.mpr ?_) trivial
      rintro e ⟨text', htext', ⟨cause, hcause, -⟩ | ⟨response', hresponse, hnone, -⟩⟩
      · obtain rfl := htext.unique htext'
        cases hembed.symm.trans hcause
      · obtain rfl := htext.unique htext'
        cases hembed.symm.trans hresponse
        cases hvectors.symm.trans hnone

/-- The vector that is stored, if there is one. -/
theorem Action.storedQuery_checks (hw : ∀ n c, w.outage n c = none) {id : String}
    (hid : Given r.recordId id) :
    Checks s r w [.vectorMissing, .vectorUndecodable] (fun _ => True) []
      (Action.storedQuery id r.fieldName) := by
  intro n
  have hfound : (Action.orFail (Program.ask (.findRow id r.fieldName))).run { w with calls := n } =
      (.ok (w.store.findRow id r.fieldName), { w with calls := n + 1 }) :=
    World.attempt_answered (w := { w with calls := n }) hw _
      fun w => (w.store.findRow id r.fieldName, w)
  unfold Action.storedQuery
  rw [Action.run_bind_of_ok hfound]
  cases hrow : w.store.findRow id r.fieldName with
  | none => exact .refused_unasked (n + 1) (.here ⟨id, hid, hrow, rfl⟩) rfl
  | some row =>
    have hthere : ∀ e, ¬ Refusal.vectorMissing.Breaks s r w e := by
      rintro e ⟨id', hid', hnone, -⟩
      obtain rfl := hid.unique hid'
      cases hrow.symm.trans hnone
    have hgiven : (Action.orElse (some row) (.vectorNotFound id r.fieldName)).run
        { w with calls := n + 1 } = (.ok row, { w with calls := n + 1 }) := rfl
    rw [Action.run_bind_of_ok hgiven]
    cases hdecode : row.payload.decode with
    | error cause =>
      exact .refused_unasked (n + 1)
        (.later hthere (.here ⟨id, row, cause, hid, hrow, hdecode, rfl⟩)) rfl
    | ok v =>
      refine .passed_unasked (n + 1) (List.forall_mem_cons.mpr ⟨hthere,
        List.forall_mem_singleton.mpr ?_⟩) trivial
      rintro e ⟨id', row', cause, hid', hrow', hcause, -⟩
      obtain rfl := hid.unique hid'
      cases hrow.symm.trans hrow'
      cases hdecode.symm.trans hcause

theorem Service.queryVector_checks (hw : ∀ n c, w.outage n c = none)
    (henabled : s.settings.ai.enabled = true) {source : QuerySource} (hsource : source.IsOf r) :
    Checks s r w [.providerUnready, .providerFailing, .vectorMissing, .vectorUndecodable]
      (fun _ => True) (s.queryRequests r) (s.queryVector source r.fieldName) := by
  cases source with
  | text text =>
    have hunread : ∀ f ∈ [Refusal.vectorMissing, .vectorUndecodable],
        ∀ e, ¬ f.Breaks s r w e := by
      refine List.forall_mem_cons.mpr ⟨?_, List.forall_mem_singleton.mpr ?_⟩
      · rintro e ⟨id, hid, -⟩
        exact hid.not_leftOut hsource.2
      · rintro e ⟨id, row, cause, hid, -⟩
        exact hid.not_leftOut hsource.2
    exact fun n => (Service.embedText_checks henabled hsource.1 n).append hunread
  | record id =>
    have hrequests : s.queryRequests r = [] := by
      rw [Service.queryRequests, hsource.1.filter_eq]
      rfl
    rw [hrequests]
    have hunasked : ∀ f ∈ [Refusal.providerUnready, .providerFailing],
        ∀ e, ¬ f.Breaks s r w e := by
      refine List.forall_mem_cons.mpr ⟨?_, List.forall_mem_singleton.mpr ?_⟩
      · rintro e ⟨⟨text, htext⟩, -⟩
        exact htext.not_leftOut hsource.1
      · rintro e ⟨text, htext, -⟩
        exact htext.not_leftOut hsource.1
    exact fun n => (Action.storedQuery_checks hw hsource.2 n).prepend hunasked

/-- All preconditions are checked before the candidates are looked for. -/
theorem Service.comparison_checks (hw : ∀ n c, w.outage n c = none) :
    Checks s r w Refusal.checks (fun _ => True) (s.queryRequests r) (s.comparison r) := by
  unfold Service.comparison
  refine Service.requireEnabled_checks.bind fun _ henabled => ?_
  refine (Action.dataset_checks hw).bind fun d hd => ?_
  refine (SearchRequest.fieldIn_checks hd).bind fun field hfield => ?_
  refine SearchRequest.query_checks.bind fun source hsource => ?_
  subst hfield
  exact (Service.queryVector_checks hw henabled hsource).map _

end Checks

/-! ## Searches -/

/-- With a store and a catalog that do not fail, a search fails if and only if its request breaks a
precondition. The first that it breaks decides the error, and nothing has changed but how many calls
there were, and what the provider was asked: one request if it is the provider that gave no vector,
and nothing otherwise. -/
theorem search_refused {w : World} (hw : ∀ n c, w.outage n c = none) (s : Service)
    (r : SearchRequest) :
    ((∃ e w', (s.search r).run w = (.error e, w')) ↔ ∃ f e, Refusal.Breaks s r w f e) ∧
    ∀ f e, Refusal.First (Refusal.Breaks s r w) Refusal.checks f e →
      f.Reports e.kind ∧ ∃ m, (s.search r).run w =
        (.error e, { w with calls := m, sent := w.sent ++ f.asked s r }) := by
  have houtcome : Outcome s r w Refusal.checks (fun _ => True) (s.queryRequests r)
      ((s.comparison r).run w) := Service.comparison_checks hw w.calls
  rw [Service.search_eq]
  generalize hrun : (s.comparison r).run w = outcome at houtcome
  cases houtcome with
  | @refused f e m h =>
    have hsearch := Action.run_bind_of_error (f := s.answerTo r) hrun
    refine ⟨iff_of_true ⟨e, _, hsearch⟩ ⟨f, e, h.holds⟩, ?_⟩
    intro g e' hfirst
    obtain ⟨rfl, rfl⟩ := h.unique hfirst
    exact ⟨h.holds.reports, m, hsearch⟩
  | @passed p m hfs =>
    obtain ⟨a, w', hanswer, -⟩ := s.answerTo_run r p
      (w := { w with calls := m, sent := w.sent ++ s.queryRequests r }) hw
    have hsearch := (Action.run_bind_of_ok (f := s.answerTo r) hrun).trans hanswer
    have hholds : ∀ f e, ¬ Refusal.Breaks s r w f e := fun f e => hfs f f.mem_checks e
    refine ⟨iff_of_false ?_ fun ⟨f, e, h⟩ => hholds f e h, fun f e h => absurd h.holds (hholds f e)⟩
    rintro ⟨e, w'', hfail⟩
    cases hsearch.symm.trans hfail

/-- A search by a text and by a record at once, with a provider that has no key and no such record:
the first of the three decides. -/
theorem search_refused_ambiguous :
    let s : Service :=
      { settings := { ai := { enabled := true } }, providerName := "p", providerAvailable := false }
    let w : World :=
      { catalog := { datasets := [⟨"A", "a", [⟨"f", .text, true⟩]⟩] }
        provider := ⟨"p", false, fun _ _ => .error .notConfigured⟩ }
    let r : SearchRequest := { SearchRequest.byText "a" "f" "t" with recordId := some "x" }
    (∀ n c, w.outage n c = none) ∧
      (∃ e, Refusal.providerUnready.Breaks s r w e) ∧ (∃ e, Refusal.vectorMissing.Breaks s r w e) ∧
      ∃ m, (s.search r).run w =
        (.error .ambiguousQuery, { w with calls := m, sent := w.sent ++ [] }) := by
  intro s w r
  have hunready : Refusal.providerUnready.Breaks s r w (.providerNotReady "p") :=
    ⟨⟨"t", rfl, by decide⟩, rfl⟩
  have hmissing : Refusal.vectorMissing.Breaks s r w (.vectorNotFound "x" "f") :=
    ⟨"x", ⟨rfl, by decide⟩, rfl, rfl⟩
  have hfirst : Refusal.First (Refusal.Breaks s r w) Refusal.checks .queryAmbiguous
      .ambiguousQuery := by
    refine .later (fun e h => ?_) (.later (fun e h => ?_) (.later (fun e h => ?_)
      (.later (fun e h => ?_) (.here ⟨⟨"t", rfl, by decide⟩, ⟨"x", rfl, by decide⟩, rfl⟩))))
    · cases h.1
    · exact (h.1 ⟨"A", "a", [⟨"f", .text, true⟩]⟩ List.mem_cons_self).2 rfl
    · have hfield : Given r.field "f" := ⟨rfl, by decide⟩
      exact hfield.not_leftOut h.2.1
    · obtain ⟨-, d, name, hd, ⟨hname, -⟩, hnone, -⟩ := h
      cases hd
      cases hname
      exact hnone _ List.mem_cons_self rfl
  exact ⟨fun _ _ => rfl, ⟨_, hunready⟩, ⟨_, hmissing⟩,
    ((search_refused (w := w) (fun _ _ => rfl) s r).2 _ _ hfirst).2⟩

end EmbeddingSearch
