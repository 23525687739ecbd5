import EmbeddingSearch.Proofs.Service.Selection
import EmbeddingSearch.Service.Maintenance
import EmbeddingSearch.Service.Search

/-!
# How the service treats its cache

Whatever changes stored rows invalidates their keys afterwards, and whatever puts a set into the
cache has just loaded it, after taking a generation. Here this is proved of the programs of the
service, for any answers they may get.

## Contents
- `Owes`, `Settled`: rows that were changed and not yet invalidated.
- `coherent`: the rule, given which records may belong to which datasets.
- `Program.Tidy`, `Action.Tidy`: programs that keep to the rule and leave nothing to invalidate.
- `Service.generate_keeps`, `Service.generate_keeps_answers`: what a run of generation keeps, given
  what its batches keep.
- `Operation`, `Operation.tidy`: the operations of the service do so.
-/

namespace EmbeddingSearch

/-! ## Debts -/

/-- Whether an event changed the stored rows of a key. -/
def Event.Changes (k : FieldKey) : Event → Prop
  | ⟨.upsert v, .ok _⟩ => k = ⟨v.dataset, v.field⟩
  | ⟨.delete _, .ok removed⟩ => ∃ r ∈ removed, k = ⟨r.dataset, r.field⟩
  | _ => False

/-- Whether an event invalidated a key. -/
def Event.Settles (k : FieldKey) : Event → Prop
  | ⟨.invalidate k', _⟩ => k = k'
  | ⟨.invalidateDataset d, _⟩ => k.dataset = d
  | ⟨.clearCache, _⟩ => True
  | _ => False

/-- Whether a program that made these calls changed the rows of a key and has not invalidated it
since. -/
def Owes (k : FieldKey) : List Event → Prop
  | [] => False
  | e :: past => ¬ Event.Settles k e ∧ (Event.Changes k e ∨ Owes k past)

/-- Whether everything that was changed was invalidated. -/
def Settled (past : List Event) : Prop := ∀ k, ¬ Owes k past

theorem settled_nil : Settled [] := fun _ h => h

/-- Whether a call neither changes rows nor stores a set in the cache. -/
def Call.Quiet : Call → Prop
  | .upsert _ | .delete _ | .cacheIfUnchanged _ _ _ => False
  | _ => True

theorem Call.Quiet.not_changes {c : Call} (h : c.Quiet) (a : c.Answer) (k : FieldKey) :
    ¬ Event.Changes k ⟨c, a⟩ := by
  cases c with
  | upsert v => cases h
  | delete f => cases h
  | _ => exact id

/-- An event that changes nothing adds no debt. -/
theorem Settled.cons {past : List Event} {e : Event} (h : Settled past)
    (he : ∀ k, ¬ Event.Changes k e) : Settled (e :: past) := by
  rintro k ⟨-, hk | hk⟩
  · exact he k hk
  · exact h k hk

/-! ## The rule -/

/-- Whether a set of candidates is what was loaded last, right after a generation was taken. -/
def JustLoaded (past : List Event) (k : FieldKey) (candidates : List Candidate)
    (since : Generation) : Prop :=
  ∃ rows earlier,
    past = ⟨.findRows k.dataset k.field, .ok rows⟩ :: ⟨.generation, since⟩ :: earlier ∧
      candidates = (Loaded.ofRows rows).candidates

/-- Vectors are stored for records of their dataset only, where `member` says which these are, and
only what was just loaded is put into the cache. Rows that are removed are those that were meant. -/
def coherent (member : String → String → Prop) : Rule where
  legal past
    | .upsert v => member v.recordId v.dataset
    | .cacheIfUnchanged k candidates since => JustLoaded past k candidates since
    | _ => True
  allows
    | .listRecords d, .ok records => ∀ r ∈ records, member r.id d
    | .findRecord d _, .ok (some r) => member r.id d
    | .delete f, .ok removed => ∀ r ∈ removed, f.selects r
    | _, _ => True

variable {member : String → String → Prop} {α β : Type}

/-! ## Checks and queries -/

section Queries

variable {ρ : Rule} {I : List Event → Prop}

/-- Whether a call looks up what there is, except in the cache. -/
def Call.Reads : Call → Prop
  | .findDataset _ | .listRecords _ | .findRecord _ _ | .findRow _ _ => True
  | _ => False

/-- Whether a call only reads or embeds. -/
def Call.Passive : Call → Prop
  | .findDataset _ | .listRecords _ | .findRecord _ _ | .findRow _ _ | .embed _ => True
  | _ => False

theorem Call.Reads.passive {c : Call} (h : c.Reads) : c.Passive := by
  cases c with
  | findDataset s => trivial
  | listRecords d => trivial
  | findRecord d id => trivial
  | findRow r f => trivial
  | _ => cases h

theorem Service.requireEnabled_keeps (s : Service) :
    s.requireEnabled.Keeps ρ I fun _ => True :=
  .ite (.pure trivial) (.fail _)

theorem Service.requireProvider_keeps (s : Service) :
    s.requireProvider.Keeps ρ I fun _ => True := by
  unfold Service.requireProvider
  have hmodel : Action.Keeps ρ I (fun _ => True)
      (if s.settings.ai.model.isEmpty then Action.fail .modelMissing else pure ()) :=
    .ite (.fail _) (.pure trivial)
  have hready : Action.Keeps ρ I (fun _ : Unit => True)
      (Action.fail (.providerNotReady s.providerName)) := .fail _
  refine s.requireEnabled_keeps.bind ?_
  intro _ _
  exact .ite hmodel (hready.bind fun _ _ => hmodel)

theorem Action.dataset_keeps {P : Dataset → Prop} (hfree : ∀ c : Call, c.Reads → ρ.Free I c)
    (idOrName : String)
    (hfound : ∀ d, ρ.allows (.findDataset idOrName) (.ok (some d)) → P d) :
    (Action.dataset idOrName).Keeps ρ I P := by
  have hfind : (Action.orFail (Program.ask (.findDataset idOrName))).Keeps ρ I
      fun found => ∀ d, found = some d → P d := by
    refine (Program.Keeps.ask (hfree (.findDataset idOrName) trivial)).mono ?_
    intro answer ha found hok d hd
    subst hok hd
    exact hfound d ha
  exact hfind.bind fun _ hd => .orElse hd _

variable (hfree : ∀ c : Call, c.Passive → ρ.Free I c)

include hfree

theorem Action.embed_keeps (r : EmbeddingRequest) :
    (Action.embed r).Keeps ρ I fun _ => True :=
  (Program.Keeps.ask (hfree (.embed r) trivial)).bind fun _ _ => .done fun _ _ => trivial

theorem Service.queryVector_keeps (s : Service) (source : QuerySource) (field : String) :
    (s.queryVector source field).Keeps ρ I fun _ => True := by
  cases source with
  | text text =>
    refine s.requireProvider_keeps.bind fun _ _ =>
      (Action.embed_keeps hfree _).bind fun response _ => ?_
    cases response.embeddings with
    | nil => exact .fail _
    | cons v rest => exact .pure trivial
  | record id =>
    have hfind : (Action.orFail (Program.ask (.findRow id field))).Keeps ρ I fun _ => True :=
      (Program.Keeps.ask (hfree (.findRow id field) trivial)).mono fun _ _ _ _ => trivial
    refine hfind.bind fun found _ =>
      (Action.Keeps.orElse (fun _ _ => trivial) _).bind fun row _ => ?_
    cases row.payload.decode with
    | ok v => exact .pure trivial
    | error e => exact .fail _

end Queries

/-! ## Tidy programs -/

/-- A call that changes nothing can be made whenever there are no debts. -/
theorem Call.Quiet.free {c : Call} (h : c.Quiet) : (coherent member).Free Settled c := by
  refine fun past hpast => ⟨?_, fun a _ => hpast.cons (h.not_changes a)⟩
  cases c with
  | upsert v => cases h
  | cacheIfUnchanged k candidates since => cases h
  | _ => trivial

theorem Call.Passive.free {c : Call} (h : c.Passive) : (coherent member).Free Settled c := by
  refine Call.Quiet.free ?_
  cases c with
  | upsert v => cases h
  | delete f => cases h
  | cacheIfUnchanged k candidates since => cases h
  | _ => trivial

theorem Call.Reads.free {c : Call} (h : c.Reads) : (coherent member).Free Settled c :=
  h.passive.free

/-- Whether a program that starts with no debts keeps to the rule and ends with none. -/
abbrev Program.Tidy (member : String → String → Prop) (post : α → Prop) (p : Program α) : Prop :=
  p.Keeps (coherent member) Settled post

/-- The same of an action; the condition is on its value. -/
abbrev Action.Tidy (member : String → String → Prop) (post : α → Prop) (a : Action α) : Prop :=
  a.Keeps (coherent member) Settled post

/-! ## Searching -/

/-- A set is put into the cache right after its rows were read, and these right after a generation
was taken. -/
theorem Action.candidates_tidy (k : FieldKey) :
    (Action.candidates k).Tidy member fun _ => True := by
  intro past hpast
  refine And.intro trivial ?_
  intro found _
  -- none of the calls before the last one changes a row
  have hcached := hpast.cons fun k' => Call.Quiet.not_changes (c := .cached k) trivial found k'
  cases found with
  | some cs => exact ⟨hcached, fun _ _ => trivial⟩
  | none =>
    refine And.intro trivial ?_
    intro since _
    have htaken := hcached.cons fun k' => Call.Quiet.not_changes (c := .generation) trivial since k'
    refine And.intro trivial ?_
    intro answer _
    have hread := htaken.cons fun k' =>
      Call.Quiet.not_changes (c := .findRows k.dataset k.field) trivial answer k'
    cases answer with
    | error e => exact ⟨hread, fun _ _ => trivial⟩
    | ok rows =>
      refine And.intro ⟨rows, _, rfl, rfl⟩ ?_
      intro kept _
      exact ⟨hread.cons fun _ => id, fun _ _ => trivial⟩

theorem Service.search_tidy (s : Service) (r : SearchRequest) :
    (s.search r).Tidy member fun _ => True := by
  unfold Service.search
  have hdataset : (Action.dataset r.dataset).Tidy member fun _ => True :=
    Action.dataset_keeps (fun _ => Call.Reads.free) _ fun _ _ => trivial
  refine s.requireEnabled_keeps.bind fun _ _ => hdataset.bind fun d _ => ?_
  refine (Action.Keeps.orFail_pure fun _ _ => trivial).bind fun field _ => ?_
  refine (Action.Keeps.orFail_pure fun _ _ => trivial).bind fun source _ => ?_
  refine (s.queryVector_keeps (fun _ => Call.Passive.free) source field).bind fun query _ => ?_
  refine (Action.candidates_tidy ⟨d.id, field⟩).bind ?_
  intro loaded _
  have hinfo : (Program.ask .cacheInfo).Tidy member ((coherent member).allows .cacheInfo) :=
    .ask (Call.Quiet.free trivial)
  exact (Action.Keeps.of hinfo).bind fun _ _ => .pure trivial

/-! ## Generating -/

theorem Service.mem_textsOf {s : Service} {r : GenerationRequest} {d : Dataset}
    {target : Option Field} {records : List Record} {t : RecordText}
    (ht : t ∈ s.textsOf r d target records) :
    ∃ record ∈ records, t = ⟨record.id, s.textOf r d target record⟩ := by
  obtain ⟨record, hrecord, rfl⟩ := List.mem_map.mp (List.mem_of_mem_filter ht)
  exact ⟨record, hrecord, rfl⟩

section Selection

variable {ρ : Rule} {I : List Event → Prop} {P : String → Record → Prop}
  (hfree : ∀ c : Call, c.Reads → ρ.Free I c)
  (hlist : ∀ d records, ρ.allows (.listRecords d) (.ok records) → ∀ r ∈ records, P d r)
  (hfind : ∀ d id r, ρ.allows (.findRecord d id) (.ok (some r)) → P d r)

include hfree hfind

theorem Action.recordsOf_keeps (d : String) (ids : List String) :
    (Action.recordsOf d ids).Keeps ρ I fun records => ∀ r ∈ records, P d r := by
  induction ids with
  | nil => exact .pure fun r hr => by cases hr
  | cons id ids ih =>
    have hask : (Action.orFail (Program.ask (.findRecord d id))).Keeps ρ I
        fun found => ∀ r, found = some r → P d r := by
      refine (Program.Keeps.ask (hfree (.findRecord d id) trivial)).mono ?_
      intro answer ha found hok r hr
      subst hok hr
      exact hfind d id r ha
    refine hask.bind fun found hfound => ih.bind fun rest hrest => ?_
    cases found with
    | none => exact .pure hrest
    | some r =>
      refine .pure ?_
      intro r' hr'
      rcases List.mem_cons.mp hr' with rfl | hr'
      · exact hfound r' rfl
      · exact hrest r' hr'

include hlist

/-- What holds of the records that are found holds of those of a run. -/
theorem Action.selected_keeps (r : GenerationRequest) (d : String) :
    (Action.selected r d).Keeps ρ I fun records => ∀ r ∈ records, P d r := by
  have hall : (Action.orFail (Program.ask (.listRecords d))).Keeps ρ I
      fun records => ∀ r ∈ records, P d r := by
    refine (Program.Keeps.ask (hfree (.listRecords d) trivial)).mono ?_
    intro answer ha records hok
    subst hok
    exact hlist d records ha
  unfold Action.selected
  split
  · exact Action.recordsOf_keeps hfree hfind d _
  · exact hall

/-- What holds of the dataset and of the records that are found can be counted on when the batches
of a run are sent. -/
theorem Service.generate_keeps (s : Service) (r : GenerationRequest) {D : Dataset → Prop}
    (hdataset : ∀ d, ρ.allows (.findDataset r.dataset) (.ok (some d)) → D d)
    (hbatches : ∀ d target report parts, D d → r.target d = .ok target →
      (∀ batch ∈ parts, ∀ t ∈ batch, ∃ record, P d.id record ∧
        t = ⟨record.id, s.textOf r d target record⟩) →
      (Program.runBatches
        (fun texts => s.embeddingRequest texts s.settings.ai.generationTimeoutSecs)
        ⟨d.id, targetName target, s.settings.ai.model⟩ report parts).Keeps ρ I fun _ => True) :
    (s.generate r).Keeps ρ I fun _ => True := by
  unfold Service.generate
  refine s.requireProvider_keeps.bind fun _ _ =>
    (Action.dataset_keeps hfree _ hdataset).bind fun d hd => ?_
  refine (Action.Keeps.orFail_pure fun _ h => h).bind fun target htarget => ?_
  refine (Action.selected_keeps hfree hlist hfind r d.id).bind ?_
  intro records hrecords
  refine (Action.Keeps.of (hbatches d target _ _ hd htarget ?_)).bind fun _ _ => .pure trivial
  intro batch hbatch t ht
  obtain ⟨record, hrecord, rfl⟩ := Service.mem_textsOf (mem_batches hbatch ht)
  exact ⟨record, hrecords record hrecord, rfl⟩

omit hlist hfind in
/-- The same with answers from a catalog, of which the dataset and the records then are. -/
theorem Service.generate_keeps_answers (s : Service) (r : GenerationRequest) {catalog : Catalog}
    (hallows : ∀ c a, ρ.allows c a → catalog.Answers c a)
    (hbatches : ∀ d target report parts,
      catalog.findDataset r.dataset = some d → r.target d = .ok target →
      (∀ batch ∈ parts, ∀ t ∈ batch, ∃ record ∈ catalog.listRecords d.id,
        t = ⟨record.id, s.textOf r d target record⟩) →
      (Program.runBatches
        (fun texts => s.embeddingRequest texts s.settings.ai.generationTimeoutSecs)
        ⟨d.id, targetName target, s.settings.ai.model⟩ report parts).Keeps ρ I fun _ => True) :
    (s.generate r).Keeps ρ I fun _ => True := by
  refine s.generate_keeps (P := fun d record => record ∈ catalog.listRecords d) hfree ?_ ?_ r
    (fun d hd => (hallows _ _ hd).symm) hbatches
  · intro d records ha record hrecord
    obtain rfl := hallows _ _ ha
    exact hrecord
  · intro d id record ha
    exact List.mem_of_find?_eq_some (hallows _ _ ha).symm

end Selection

/-- Every vector that is stored is followed by the invalidation of its key. -/
theorem Program.storeVectors_tidy (run : Run) (report : GenerationReport)
    {vectors : List (String × Embedding)} (h : ∀ p ∈ vectors, member p.1 run.dataset) :
    (Program.storeVectors run report vectors).Tidy member fun _ => True := by
  induction vectors generalizing report with
  | nil => exact .done trivial
  | cons head rest ih =>
    obtain ⟨recordId, v⟩ := head
    have hrest : ∀ p ∈ rest, member p.1 run.dataset := fun p hp => h p (List.mem_cons_of_mem _ hp)
    intro past hpast
    refine And.intro (h _ List.mem_cons_self) ?_
    intro answer _
    cases answer with
    | error e => exact ih _ hrest _ (hpast.cons fun _ => id)
    | ok u =>
      refine And.intro trivial fun _ _ => ih _ hrest _ ?_
      -- the only debt is the key of the vector, and that is what is invalidated
      rintro k ⟨hsettle, hk | ⟨-, hk | hk⟩⟩
      · exact hk
      · exact hsettle hk
      · exact hpast k hk

theorem Program.runBatch_tidy (request : List String → EmbeddingRequest) (run : Run)
    (report : GenerationReport) {batch : List RecordText}
    (h : ∀ t ∈ batch, member t.recordId run.dataset) :
    (Program.runBatch request run report batch).Tidy member fun _ => True := by
  have hask : (Program.ask (.embed (request (batch.map RecordText.text)))).Tidy member
      ((coherent member).allows _) := .ask (Call.Quiet.free trivial)
  refine hask.bind ?_
  intro answer _
  cases answer with
  | error e => exact .done trivial
  | ok response =>
    -- however many vectors come back, they are stored for records of the batch
    refine Program.storeVectors_tidy run _ ?_
    intro p hp
    obtain ⟨t, ht, hid⟩ := List.mem_map.mp (List.of_mem_zip hp).1
    exact hid ▸ h t ht

theorem Program.runBatches_tidy (request : List String → EmbeddingRequest) (run : Run)
    (report : GenerationReport) {parts : List (List RecordText)}
    (h : ∀ batch ∈ parts, ∀ t ∈ batch, member t.recordId run.dataset) :
    (Program.runBatches request run report parts).Tidy member fun _ => True := by
  induction parts generalizing report with
  | nil => exact .done trivial
  | cons batch rest ih =>
    refine (Program.runBatch_tidy request run report (h batch List.mem_cons_self)).bind
      fun report _ => ih report fun b hb => h b (List.mem_cons_of_mem _ hb)

theorem Service.generate_tidy (s : Service) (r : GenerationRequest) :
    (s.generate r).Tidy member fun _ => True := by
  refine s.generate_keeps (P := fun d record => member record.id d) (D := fun _ => True)
    (fun _ => Call.Reads.free) (fun _ _ h => h) (fun _ _ _ h => h) r (fun _ _ => trivial) ?_
  intro d target report parts _ _ hparts
  refine Program.runBatches_tidy _ _ _ fun batch hbatch t ht => ?_
  obtain ⟨record, hrecord, rfl⟩ := hparts batch hbatch t ht
  exact hrecord

/-! ## Removing -/

/-- The keys that are still to be invalidated are exactly those that are owed. -/
theorem Program.invalidateEach_tidy (keys : List FieldKey) {past : List Event}
    (h : ∀ k, Owes k past → k ∈ keys) :
    (Program.each (fun k => Program.ask (.invalidate k)) keys).Obeys (coherent member)
      (fun past _ => Settled past) past := by
  induction keys generalizing past with
  | nil => exact fun k hk => List.not_mem_nil (h k hk)
  | cons key rest ih =>
    refine And.intro trivial fun _ _ => ih ?_
    -- the first key is settled by its own call, so only the rest is still owed
    rintro k ⟨hsettle, hk | hk⟩
    · exact absurd hk id
    · exact (List.mem_cons.mp (h k hk)).resolve_left hsettle

/-- After a removal, a key is owed when one of its rows was removed. -/
theorem Settled.owes_delete {past : List Event} (h : Settled past) {f : RowFilter}
    {removed : List Row} {k : FieldKey} (hk : Owes k (⟨.delete f, .ok removed⟩ :: past)) :
    ∃ r ∈ removed, k = ⟨r.dataset, r.field⟩ :=
  hk.2.resolve_right (h k)

theorem mem_keysOf {rows : List Row} {r : Row} (hr : r ∈ rows) :
    ⟨r.dataset, r.field⟩ ∈ keysOf rows := by
  rw [keysOf, List.mem_eraseDups]
  exact List.mem_map_of_mem hr

/-- A removal is tidy when it goes on to invalidate the keys of what it removed. -/
theorem Action.removal_tidy {f : RowFilter} {p : List Row → Program Unit}
    (h : ∀ removed past, (∀ r ∈ removed, f.selects r) →
      (∀ k, Owes k past → ∃ r ∈ removed, k = ⟨r.dataset, r.field⟩) →
      (p removed).Obeys (coherent member) (fun past _ => Settled past) past) :
    Action.Tidy member (fun _ => True) (do
      let removed ← Action.orFail (.ask (.delete f))
      Action.of (p removed)
      pure removed.length) := by
  intro past hpast
  refine And.intro trivial ?_
  intro answer ha
  cases answer with
  | error e => exact ⟨hpast.cons fun _ => id, fun _ _ => trivial⟩
  | ok removed =>
    have hp := h removed (⟨.delete f, .ok removed⟩ :: past) ha fun k hk => hpast.owes_delete hk
    refine (Action.obeys_bind _ _ _ _).mpr ((Action.obeys_of _ _ _).mpr (hp.mono ?_))
    exact fun past _ hpast => ⟨hpast, fun _ _ => trivial⟩

/-- In whatever order the keys are invalidated, none of them is left out. -/
theorem Service.deleteRecord_tidy (order : KeyOrder) (id : String) :
    (Service.deleteRecord order id).Tidy member fun _ => True := by
  refine Action.removal_tidy fun removed past _ howes =>
    Program.invalidateEach_tidy (order.arrange (keysOf removed)) fun k hk => ?_
  obtain ⟨r, hr, rfl⟩ := howes k hk
  exact (order.arrange_perm _).mem_iff.mpr (mem_keysOf hr)

theorem Service.deleteDataset_tidy (id : String) :
    (Service.deleteDataset id).Tidy member fun _ => True := by
  refine Action.removal_tidy fun removed past hsel howes => And.intro trivial fun _ _ => ?_
  -- what was removed is of this dataset, and all of that is invalidated
  rintro k ⟨hsettle, hk | hk⟩
  · exact hk
  · obtain ⟨r, hr, rfl⟩ := howes k hk
    have hd : r.dataset = id := by simpa [RowFilter.selects] using hsel r hr
    exact hsettle hd

theorem Service.deleteField_tidy (d f : String) :
    (Service.deleteField d f).Tidy member fun _ => True := by
  refine Action.removal_tidy fun removed past hsel howes => And.intro trivial fun _ _ => ?_
  -- what was removed is of this one key
  rintro k ⟨hsettle, hk | hk⟩
  · exact hk
  · obtain ⟨r, hr, rfl⟩ := howes k hk
    have hboth : r.dataset = d ∧ r.field = f := by simpa [RowFilter.selects] using hsel r hr
    have hkey : FieldKey.mk r.dataset r.field = ⟨d, f⟩ := by rw [hboth.1, hboth.2]
    exact hsettle hkey

/-! ## Operations -/

/-- What the service is asked to do about its vectors and their cache. -/
inductive Operation where
  | search (r : SearchRequest)
  | generate (r : GenerationRequest)
  | deleteRecord (order : KeyOrder) (id : String)
  | deleteDataset (id : String)
  | deleteField (dataset field : String)
  | clearCache

/-- The program of an operation, without its answer. -/
def Operation.program (s : Service) : Operation → Program Unit
  | .search r => ExceptT.run (s.search r) >>= fun _ => pure ()
  | .generate r => ExceptT.run (s.generate r) >>= fun _ => pure ()
  | .deleteRecord order id => ExceptT.run (Service.deleteRecord order id) >>= fun _ => pure ()
  | .deleteDataset id => ExceptT.run (Service.deleteDataset id) >>= fun _ => pure ()
  | .deleteField d f => ExceptT.run (Service.deleteField d f) >>= fun _ => pure ()
  | .clearCache => Program.ask .clearCache

theorem Program.Tidy.ofAction {post : α → Prop} {a : Action α} (h : a.Tidy member post) :
    Program.Tidy member (fun _ => True) (ExceptT.run a >>= fun _ => pure ()) :=
  Program.Keeps.bind h fun _ _ => .done trivial

/-- Every operation keeps to the rule and leaves nothing to invalidate. -/
theorem Operation.tidy (s : Service) (o : Operation) :
    (o.program s).Tidy member fun _ => True := by
  cases o with
  | search r => exact .ofAction (s.search_tidy r)
  | generate r => exact .ofAction (s.generate_tidy r)
  | deleteRecord order id => exact .ofAction (Service.deleteRecord_tidy order id)
  | deleteDataset id => exact .ofAction (Service.deleteDataset_tidy id)
  | deleteField d f => exact .ofAction (Service.deleteField_tidy d f)
  | clearCache =>
    exact (Program.Keeps.ask (Call.Quiet.free (c := .clearCache) trivial)).mono fun _ _ => trivial

end EmbeddingSearch
