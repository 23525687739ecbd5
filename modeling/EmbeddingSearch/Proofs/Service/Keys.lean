import EmbeddingSearch.Proofs.Service.AllOrNothing
import EmbeddingSearch.Proofs.Service.Refusal
import EmbeddingSearch.Service.Build

/-!
# The key of a service

A service without a provider of its own asks the API, for which it needs a key. The key is resolved
from the settings or, without one there, from the environment, and an empty key counts as none. The
access to the API starts out with what the environment has, be it empty, and only a key that is
resolved takes its place. So the two differ in one case: nothing is resolved, and the environment has
an empty key. Then the service takes its provider for available, and what it sends bears an empty key.
Otherwise the key that it sends is the one that is resolved, and without one no run of generation and
no search by a text comes to ask the provider.

## Contents
- `AiSettings.EmptyKeyOnly`: the one case.
- `Api.Client.ofSettings_apiKey`, `Api.Client.ofSettings_apiKey_empty`: the key of the access.
- `Settings.Sends`: a key that everything sent bears.
- `SearchRequest.ComesTo`, `Service.search_comesTo`: searches that come as far as a text.
- `Service.generate_unavailable`, `Service.search_unavailable`: what happens when the provider is not
  available.
- `Program.run_sent`: what is asked is only added to.
- `Service.Ready.search_asks`, `Service.Ready.generate_asks`: what happens when it is.
- `resolved_key_used_iff`: when the key that is resolved decides.
-/

namespace EmbeddingSearch

/-! ## Which key -/

namespace AiSettings

/-- Whether the settings have no key that is not empty, and the environment has an empty one. -/
def EmptyKeyOnly (s : AiSettings) (environment : Option String) : Prop :=
  LeftOut s.apiKey ∧ environment = some ""

theorem resolveKey_eq_none {s : AiSettings} {environment : Option String} :
    s.resolveKey environment = none ↔ LeftOut s.apiKey ∧ LeftOut environment := by
  simp [resolveKey, nonEmpty_eq_none]

theorem EmptyKeyOnly.unresolved {s : AiSettings} {environment : Option String}
    (h : s.EmptyKeyOnly environment) : s.resolveKey environment = none :=
  resolveKey_eq_none.mpr ⟨h.1, .inr h.2⟩

end AiSettings

namespace Api.Client

variable {s : AiSettings} {environment : Option String}

theorem ofSettings_apiKey_of_some {key : String} (h : s.resolveKey environment = some key) :
    (ofSettings s environment).apiKey = some key := by
  unfold ofSettings
  rw [h]
  rfl

theorem ofSettings_apiKey_of_none (h : s.resolveKey environment = none) :
    (ofSettings s environment).apiKey = environment := by
  unfold ofSettings
  rw [h]
  rfl

/-- The key of the access is the one that is resolved, except in one case. -/
theorem ofSettings_apiKey (h : ¬ s.EmptyKeyOnly environment) :
    (ofSettings s environment).apiKey = s.resolveKey environment := by
  cases hkey : s.resolveKey environment with
  | some key => exact ofSettings_apiKey_of_some hkey
  | none =>
    obtain ⟨hset, henvironment⟩ := AiSettings.resolveKey_eq_none.mp hkey
    rcases henvironment with hunset | hempty
    · rw [ofSettings_apiKey_of_none hkey, hunset]
    · exact absurd ⟨hset, hempty⟩ h

theorem ofSettings_apiKey_empty (h : s.EmptyKeyOnly environment) :
    (ofSettings s environment).apiKey = some "" := by
  rw [ofSettings_apiKey_of_none h.unresolved, h.2]

/-- What is sent for a batch with texts bears the key, and the answer is made of the reply. -/
theorem embed_eq {c : Client} {key : String} (h : c.apiKey = some key) {r : EmbeddingRequest}
    (hr : r.texts ≠ []) (transport : Transport) (n : Nat) : c.embed transport n r =
      (transport n r.timeoutMs (c.request key r)).mapError EmbeddingError.http >>= interpret := by
  rw [embed, if_neg (by simpa using hr), h]
  dsimp only
  cases transport n r.timeoutMs (c.request key r) with
  | error cause => rfl
  | ok reply => rfl

end Api.Client

/-- Whether a service without a provider of its own gets its vectors with a key: what it gets for a
batch with texts is made of the reply to one request, whatever the network does, and this request
bears the key. -/
def Settings.Sends (s : Settings) (environment : Option String) (key : String) : Prop :=
  ∀ r : EmbeddingRequest, r.texts ≠ [] → ∃ q : HttpRequest,
    q.headers.lookup "authorization" = some ("Bearer " ++ key) ∧
      ∀ transport n, (s.provider environment transport none).embed n r =
        (transport n r.timeoutMs q).mapError EmbeddingError.http >>= Api.interpret

theorem Settings.sends {s : Settings} {environment : Option String} {key : String}
    (h : (Api.Client.ofSettings s.ai environment).apiKey = some key) : s.Sends environment key :=
  fun r hr => ⟨(Api.Client.ofSettings s.ai environment).request key r, rfl,
    fun transport n => Api.Client.embed_eq h hr transport n⟩

/-! ## Searches by a text -/

section Coming

variable {s : Service} {r : SearchRequest} {w : World} {text : String}

/-- Whether a search comes as far as the vector of a text: its dataset and its field are found, and
this text is all that it gives. -/
def SearchRequest.ComesTo (r : SearchRequest) (w : World) (text : String) : Prop :=
  w.outage w.calls (.findDataset r.dataset) = none ∧
    ∃ d field, w.catalog.findDataset r.dataset = some d ∧ r.fieldIn d = .ok field ∧
      r.query = .ok (.text text)

theorem Action.dataset_found {idOrName : String} {d : Dataset}
    (hup : w.outage w.calls (.findDataset idOrName) = none)
    (hd : w.catalog.findDataset idOrName = some d) :
    (Action.dataset idOrName).run w = (.ok d, { w with calls := w.calls + 1 }) := by
  have hlookup : (Action.orFail (Program.ask (.findDataset idOrName))).run w =
      w.attempt (.findDataset idOrName) fun w => (w.catalog.findDataset idOrName, w) := rfl
  refine Action.run_bind_ok.mpr ⟨some d, { w with calls := w.calls + 1 }, ?_, rfl⟩
  rw [hlookup, World.attempt, hup, ← hd]

theorem Action.run_checked {α : Type} (x : α) (w : World) :
    (Action.orFail (pure (.ok x))).run w = (.ok x, w) := rfl

/-- A search that comes so far goes on with the vector. -/
theorem Service.search_comesTo (henabled : s.settings.ai.enabled = true) (h : r.ComesTo w text) :
    ∃ next : Query → Action SearchAnswer,
      (s.search r).run w = (s.embedText text >>= next).run { w with calls := w.calls + 1 } := by
  obtain ⟨hup, d, field, hd, hfield, hquery⟩ := h
  unfold Service.search
  rw [Service.requireEnabled_of_enabled henabled, pure_bind,
    Action.run_bind_of_ok (Action.dataset_found hup hd), hfield, hquery,
    Action.run_bind_of_ok (Action.run_checked field _)]
  dsimp only
  rw [Action.run_bind_of_ok (Action.run_checked _ _)]
  exact ⟨_, rfl⟩

theorem SearchRequest.query_text {source : QuerySource} (htext : Given r.text text)
    (h : r.query = .ok source) : source = .text text := by
  unfold SearchRequest.query at h
  rw [nonEmpty_eq_some.mpr htext] at h
  cases hid : nonEmpty r.recordId with
  | none =>
    rw [hid] at h
    exact (Except.ok.inj h).symm
  | some id =>
    rw [hid] at h
    cases h

end Coming

/-! ## Operations that do not ask -/

section Unavailable

variable {s : Service}

theorem Service.requireProvider_unavailable (h : s.providerAvailable = false) :
    ∃ e : ServiceError, e.kind = .config ∧ s.requireProvider = Action.fail e := by
  unfold requireProvider
  cases henabled : s.settings.ai.enabled with
  | false =>
    rw [requireEnabled_of_disabled henabled]
    exact ⟨_, rfl, rfl⟩
  | true =>
    rw [requireEnabled_of_enabled henabled, pure_bind, h]
    exact ⟨_, rfl, rfl⟩

/-- Nothing is even looked up for a run of generation. -/
theorem Service.generate_unavailable (h : s.providerAvailable = false) (r : GenerationRequest)
    (w : World) : ∃ e : ServiceError, e.kind = .config ∧ (s.generate r).run w = (.error e, w) := by
  obtain ⟨e, hkind, hfail⟩ := Service.requireProvider_unavailable h
  refine ⟨e, hkind, ?_⟩
  unfold Service.generate
  rw [hfail]
  exact Action.run_bind_of_error rfl

/-- There is nothing that a search by a text could be compared with, and it has only looked up. -/
theorem Service.comparison_unavailable (h : s.providerAvailable = false) {r : SearchRequest}
    {text : String} (htext : Given r.text text) :
    (s.comparison r).Keeps anything LookedUp fun _ => False := by
  obtain ⟨e, -, hfail⟩ := Service.requireProvider_unavailable h
  have hdataset : (Action.dataset r.dataset).Keeps anything LookedUp fun _ => True :=
    Action.dataset_keeps (fun _ => Call.Reads.lookedUp) _ fun _ _ => trivial
  unfold Service.comparison
  refine s.requireEnabled_keeps.bind fun _ _ => hdataset.bind fun d _ => ?_
  refine (Action.Keeps.orFail_pure fun _ _ => trivial).bind fun field _ => ?_
  refine (Action.Keeps.orFail_pure fun _ hsource => hsource).bind fun source hsource => ?_
  obtain rfl := SearchRequest.query_text htext hsource
  have hvector : (s.queryVector (.text text) field).Keeps anything LookedUp fun _ => False := by
    show (s.requireProvider >>= _).Keeps _ _ _
    rw [hfail]
    exact (Action.Keeps.fail e).bind fun _ => False.elim
  exact hvector.bind fun _ => False.elim

theorem Service.search_disabled (h : s.settings.ai.enabled = false) (r : SearchRequest) (w : World) :
    (s.search r).run w = (.error .disabled, w) := by
  unfold Service.search
  rw [Service.requireEnabled_of_disabled h]
  exact Action.run_bind_of_error rfl

/-- A search that comes as far as its text fails there. -/
theorem Service.search_unavailable_of_comesTo (h : s.providerAvailable = false)
    (henabled : s.settings.ai.enabled = true) {r : SearchRequest} {w : World} {text : String}
    (hcomes : r.ComesTo w text) : ∃ e : ServiceError, e.kind = .config ∧
      (s.search r).run w = (.error e, { w with calls := w.calls + 1 }) := by
  obtain ⟨e, hkind, hfail⟩ := Service.requireProvider_unavailable h
  obtain ⟨next, hnext⟩ := Service.search_comesTo henabled hcomes
  refine ⟨e, hkind, ?_⟩
  rw [hnext]
  refine Action.run_bind_of_error ?_
  unfold Service.embedText
  rw [hfail]
  exact Action.run_bind_of_error rfl

/-- A search by a text fails without having asked, and if nothing else is wrong with it, then for its
settings. -/
theorem Service.search_unavailable (h : s.providerAvailable = false) {r : SearchRequest}
    {text : String} (htext : Given r.text text) (w : World) :
    ∃ e w', (s.search r).run w = (.error e, w') ∧ w' = { w with calls := w'.calls } ∧
      (s.settings.ai.enabled = false ∨ r.ComesTo w text → e.kind = .config) := by
  have hkeeps := (Service.comparison_unavailable h htext [] (List.forall_mem_nil _)).run_anything w
  rcases hrun : (s.comparison r).run w with ⟨e | p, w'⟩
  · have hsearch : (s.search r).run w = (.error e, w') := by
      rw [Service.search_eq]
      exact Action.run_bind_of_error hrun
    have hworld := hkeeps.1.run
    rw [show Program.run (ExceptT.run (s.comparison r)) w = (.error e, w') from hrun] at hworld
    refine ⟨e, w', hsearch, hworld, fun hcause => ?_⟩
    cases henabled : s.settings.ai.enabled with
    | false =>
      cases hsearch.symm.trans (Service.search_disabled henabled r w)
      rfl
    | true =>
      have hcomes := hcause.resolve_left (by simp [henabled])
      obtain ⟨e', hkind, hfails⟩ := Service.search_unavailable_of_comesTo h henabled hcomes
      cases hsearch.symm.trans hfails
      exact hkind
  · exact (hkeeps.2 p (congrArg Prod.fst hrun)).elim

end Unavailable

/-! ## Operations that ask -/

section Ready

variable {α β : Type}

/-- A program adds to what the provider was asked, if anything. -/
theorem Program.run_sent (p : Program α) (w : World) : w.sent <+: (p.run w).2.sent := by
  induction p generalizing w with
  | done a => exact List.prefix_rfl
  | call c next ih =>
    have hcall : w.sent <+: (w.answer c).2.sent := by
      rw [w.sent_answer c]
      exact List.prefix_append _ _
    exact hcall.trans (ih _ _)

/-- What an action has asked the provider, it has also asked with what follows it. -/
theorem Action.sent_bind (a : Action α) (f : α → Action β) (w : World) :
    (a.run w).2.sent <+: ((a >>= f).run w).2.sent := by
  rw [Action.run_bind]
  rcases a.run w with ⟨e | x, w'⟩
  · exact List.prefix_rfl
  · exact Program.run_sent _ w'

/-- Whether the provider of a service can be asked for vectors of some model. -/
structure Service.Ready (s : Service) : Prop where
  enabled : s.settings.ai.enabled = true
  available : s.providerAvailable = true
  model : s.settings.ai.model ≠ ""

variable {s : Service}

theorem Service.Ready.requireProvider_eq (h : s.Ready) : s.requireProvider = pure () := by
  have hmodel : ¬ s.settings.ai.model.isEmpty = true := by
    simpa [String.isEmpty_iff] using h.model
  unfold Service.requireProvider
  rw [Service.requireEnabled_of_enabled h.enabled, pure_bind, if_pos h.available, if_neg hmodel]

/-- A search asks for the vector of its text. -/
theorem Service.Ready.search_asks (h : s.Ready) {r : SearchRequest} {w : World} {text : String}
    (hcomes : r.ComesTo w text) :
    w.sent ++ [s.queryRequest text] <+: ((s.search r).run w).2.sent := by
  obtain ⟨next, hnext⟩ := Service.search_comesTo h.enabled hcomes
  rw [hnext]
  refine List.IsPrefix.trans ?_ (Action.sent_bind (s.embedText text) next _)
  unfold Service.embedText
  rw [h.requireProvider_eq]
  exact Action.sent_bind (Action.embed (s.queryRequest text)) _ { w with calls := w.calls + 1 }

/-- Whether a run of generation comes as far as sending a batch: its dataset, its field and its
records are found, and this batch is the first. -/
def GenerationRequest.ComesTo (r : GenerationRequest) (s : Service) (w : World)
    (batch : List RecordText) : Prop :=
  ∃ d target records w₁ w₂ rest, (Action.dataset r.dataset).run w = (.ok d, w₁) ∧
    r.target d = .ok target ∧ (Action.selected r d.id).run w₁ = (.ok records, w₂) ∧
    batches s.settings.generation.batchSize (s.textsOf r d target records) = batch :: rest

/-- What is asked for a batch of a run. -/
def Service.batchRequest (s : Service) (batch : List RecordText) : EmbeddingRequest :=
  s.embeddingRequest (batch.map RecordText.text) s.settings.ai.generationTimeoutSecs

/-- A run of generation asks for the vectors of its first batch. -/
theorem Service.Ready.generate_asks (h : s.Ready) {r : GenerationRequest} {w : World}
    {batch : List RecordText} (hcomes : r.ComesTo s w batch) :
    w.sent ++ [s.batchRequest batch] <+: ((s.generate r).run w).2.sent := by
  obtain ⟨d, target, records, w₁, w₂, rest, hdataset, htarget, hselected, hbatches⟩ := hcomes
  obtain ⟨-, rfl⟩ := Action.dataset_ok hdataset
  obtain ⟨-, rfl⟩ := Action.selected_ok hselected
  unfold Service.generate
  rw [h.requireProvider_eq, pure_bind, Action.run_bind_of_ok hdataset, htarget,
    Action.run_bind_of_ok (Action.run_checked target _), Action.run_bind_of_ok hselected]
  dsimp only
  refine List.IsPrefix.trans ?_ (Action.sent_bind (Action.of _) _ _)
  rw [Action.run_of, hbatches]
  -- the first call of the batches is that for the first one
  exact Program.run_sent _ { w with calls := _, sent := w.sent ++ [s.batchRequest batch] }

end Ready

/-! ## Agreement -/

/-- Whether runs of generation and searches by a text end before the provider is asked: a run at
once, for its settings, and a search for its settings too, unless something else is wrong with it. -/
def Service.HoldsBack (s : Service) : Prop :=
  ∀ w : World,
    (∀ r, ∃ e, e.kind = .config ∧ (s.generate r).run w = (.error e, w)) ∧
    ∀ r text, Given r.text text →
      ∃ e w', (s.search r).run w = (.error e, w') ∧ w' = { w with calls := w'.calls } ∧
        (s.settings.ai.enabled = false ∨ r.ComesTo w text → e.kind = .config)

/-- Whether they ask the provider, unless something else is wrong with them. -/
def Service.GoesAhead (s : Service) : Prop :=
  ∀ w : World,
    (∀ r batch, r.ComesTo s w batch →
      w.sent ++ [s.batchRequest batch] <+: ((s.generate r).run w).2.sent) ∧
    ∀ r text, r.ComesTo w text →
      w.sent ++ [s.queryRequest text] <+: ((s.search r).run w).2.sent

/-- A service without a provider of its own has one that is available if and only if a key is
resolved, unless there is only an empty key in the environment. The key that is resolved is the one
that it sends. Without one, its runs of generation and its searches by a text do not come to ask the
provider. But with only an empty key in the environment, where none is resolved either, they do, as
far as the other settings let them, and an empty key is sent. -/
theorem resolved_key_used_iff (settings : Settings) (environment : Option String)
    (transport : Transport) (workers : Nat) :
    let s := Service.ofProvider settings (settings.provider environment transport none) workers
    ((s.providerAvailable = true ↔ ∃ key, settings.ai.resolveKey environment = some key) ↔
        ¬ settings.ai.EmptyKeyOnly environment) ∧
      (∀ key, settings.ai.resolveKey environment = some key →
        s.providerAvailable = true ∧ settings.Sends environment key) ∧
      (settings.ai.resolveKey environment = none → ¬ settings.ai.EmptyKeyOnly environment →
        s.HoldsBack) ∧
      (settings.ai.EmptyKeyOnly environment → settings.ai.resolveKey environment = none ∧
        settings.Sends environment "" ∧
          (settings.ai.enabled = true → settings.ai.model ≠ "" → s.GoesAhead)) := by
  intro s
  have havailable : s.providerAvailable =
      (Api.Client.ofSettings settings.ai environment).apiKey.isSome := rfl
  refine ⟨⟨fun h hempty => ?_, fun hagrees => ?_⟩, fun key hkey => ?_, fun hnone hagrees w => ?_,
    fun hempty => ⟨hempty.unresolved, ?_, fun henabled hmodel w => ?_⟩⟩
  · rw [havailable, Api.Client.ofSettings_apiKey_empty hempty, hempty.unresolved] at h
    obtain ⟨key, hkey⟩ := h.mp rfl
    cases hkey
  · rw [havailable, Api.Client.ofSettings_apiKey hagrees]
    exact Option.isSome_iff_exists
  · have hused := Api.Client.ofSettings_apiKey_of_some hkey
    exact ⟨by rw [havailable, hused, Option.isSome_some], Settings.sends hused⟩
  · have hunavailable : s.providerAvailable = false := by
      rw [havailable, Api.Client.ofSettings_apiKey hagrees, hnone, Option.isSome_none]
    exact ⟨fun r => Service.generate_unavailable hunavailable r w,
      fun r text htext => Service.search_unavailable hunavailable htext w⟩
  · exact Settings.sends (Api.Client.ofSettings_apiKey_empty hempty)
  · have hready : s.Ready := ⟨henabled, by
      rw [havailable, Api.Client.ofSettings_apiKey_empty hempty, Option.isSome_some], hmodel⟩
    exact ⟨fun r batch => hready.generate_asks, fun r text => hready.search_asks⟩

/-- No key in the settings and an empty one in the environment: none is resolved, and yet the provider
is asked for a search and for a run of generation. -/
theorem resolved_key_used_iff_empty :
    let settings : Settings := { ai := { enabled := true } }
    let p := settings.provider (some "") Api.unreachable none
    let s := Service.ofProvider settings p 1
    let w : World :=
      { catalog :=
          { datasets := [⟨"A", "a", [⟨"f", .text, true⟩]⟩]
            records := [("A", ⟨"r", [("f", .string "t")]⟩)] }
        provider := p }
    settings.ai.resolveKey (some "") = none ∧ s.providerAvailable = true ∧
      settings.Sends (some "") "" ∧
      [s.queryRequest "x"] <+: ((s.search (SearchRequest.byText "A" "f" "x")).run w).2.sent ∧
      [s.batchRequest [⟨"r", "t"⟩]] <+:
        ((s.generate (GenerationRequest.ofField "A" "f")).run w).2.sent := by
  intro settings p s w
  obtain ⟨-, -, -, hempty⟩ := resolved_key_used_iff settings (some "") Api.unreachable 1
  obtain ⟨hnone, hsends, hasks⟩ := hempty ⟨.inl rfl, rfl⟩
  obtain ⟨hgenerate, hsearch⟩ := hasks rfl (by decide) w
  have htext : (SearchRequest.byText "A" "f" "x").ComesTo w "x" := ⟨rfl, _, "f", rfl, rfl, rfl⟩
  have hbatch : (GenerationRequest.ofField "A" "f").ComesTo s w [⟨"r", "t"⟩] :=
    ⟨_, _, [⟨"r", [("f", .string "t")]⟩], _, _, [], rfl, rfl, rfl, by decide +kernel⟩
  exact ⟨hnone, rfl, hsends, hsearch _ "x" htext, hgenerate _ _ hbatch⟩

end EmbeddingSearch
