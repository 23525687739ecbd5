import EmbeddingSearch.Proofs.Service.Interleaving
import EmbeddingSearch.Proofs.Vector.Chunks

/-!
# What a search shows of the cache

With operations that run one after the other, a search that finds its candidates in the cache gives
what it would give without it, except for records whose row has moved to another dataset since: a
row is stored under its record and field alone, and only the key that it moves to is invalidated.

## Contents
- `Occurrence`, `World.after`: operations one after the other, and time that passes.
- `System.Coherent.operation`: a whole operation keeps the invariant of its calls.
- `coherence_filed`: a cached set agrees with the store up to the rows that moved away.
- `Service.comparison`, `Service.answerTo`, `Service.search_eq`: a search up to its candidates, and
  from there on.
- `search_transparent_iff`: when a search gives the same without the cache.
-/

namespace EmbeddingSearch

/-! ## One operation after the other -/

/-- Something that happens to a world. -/
inductive Occurrence where
  | operation (s : Service) (o : Operation)
  | wait (ms : Nat)

namespace World

def occur (w : World) : Occurrence → World
  | .operation s o => ((o.program s).run w).2
  | .wait ms => { w with now := w.now + ms }

/-- The world after some occurrences. -/
def after (w : World) (xs : List Occurrence) : World := xs.foldl occur w

/-- Whether catalog and store never fail, and nothing happens during a load. -/
structure Steady (w : World) : Prop where
  outage : ∀ n c, w.outage n c = none
  onLoad : w.onLoad = []

theorem Steady.attempt {α : Type} {w : World} (h : w.Steady) (c : Call)
    (work : World → α × World) : w.attempt c work =
      (.ok (work { w with calls := w.calls + 1 }).1, (work { w with calls := w.calls + 1 }).2) :=
  attempt_answered h.outage c work

theorem Steady.attempt_snd {α : Type} {w : World} (h : w.Steady) (c : Call)
    {work : World → α × World} (hwork : ∀ w : World, w.Steady → (work w).2.Steady) :
    (w.attempt c work).2.Steady := by
  rw [h.attempt]
  exact hwork _ ⟨h.outage, h.onLoad⟩

theorem Steady.answer {w : World} (h : w.Steady) (c : Call) : (w.answer c).2.Steady := by
  cases c with
  | findDataset s => exact h.attempt_snd _ fun _ => id
  | listRecords d => exact h.attempt_snd _ fun _ => id
  | findRecord d r => exact h.attempt_snd _ fun _ => id
  | findRows d f => exact h.attempt_snd _ fun _ h => ⟨h.outage, rfl⟩
  | findRow r f => exact h.attempt_snd _ fun _ => id
  | upsert v => exact h.attempt_snd _ fun _ h => ⟨h.outage, h.onLoad⟩
  | delete f => exact h.attempt_snd _ fun _ h => ⟨h.outage, h.onLoad⟩
  | _ => exact ⟨h.outage, h.onLoad⟩

theorem Steady.run {α : Type} {w : World} (h : w.Steady) (p : Program α) : (p.run w).2.Steady := by
  induction p generalizing w with
  | done a => exact h
  | call c next ih => exact ih _ (h.answer c)

theorem Steady.after {w : World} (h : w.Steady) (xs : List Occurrence) : (w.after xs).Steady := by
  induction xs generalizing w with
  | nil => exact h
  | cons x xs ih =>
    cases x with
    | operation s o => exact ih (h.run (o.program s))
    | wait ms => exact ih ⟨h.outage, h.onLoad⟩

end World

section Sequential

variable {member : String → String → Prop} {Good : Store → Prop}
  {Fresh : Store → FieldKey → List Candidate → Prop}

namespace System

/-- A thread that runs to its end keeps the invariant. -/
theorem Coherent.finish (hco : Coherence member Good Fresh) {p : Program Unit} {σ : System}
    (h : σ.Coherent member Good Fresh) {i : Nat} {past : List Event}
    (hi : σ.threads[i]? = some ⟨past, p⟩) :
    Coherent member Good Fresh
      ⟨(p.run σ.world).2, σ.threads.set i ⟨p.trace σ.world past, .done ()⟩⟩ := by
  -- each call of the program is a move of its thread, and nobody else moves
  induction p generalizing σ past with
  | done u =>
    rw [Program.trace, set_same hi]
    exact h
  | call c next ih =>
    have hlt := (List.getElem?_eq_some_iff.mp hi).1
    have hconduct := h.conduct _ (List.mem_iff_getElem?.mpr ⟨i, hi⟩)
    have hnext := h.event hco hi (World.answer_effect σ.world c)
      (World.answer_fixed σ.world c).1 hconduct.1 (hconduct.2 _ (World.answer_allowed h.catalog c))
    have hend := ih _ hnext (by rw [List.getElem?_set_self hlt])
    rwa [List.set_set] at hend

/-- An operation that nothing else interferes with keeps the invariant. -/
theorem Coherent.operation (hco : Coherence member Good Fresh) {w : World}
    (h : Coherent member Good Fresh { world := w }) (s : Service) (o : Operation) :
    Coherent member Good Fresh { world := ((o.program s).run w).2 } := by
  have hend := Coherent.finish hco (h.start s o) (i := 0) rfl
  have hpaid := hend.conduct _ List.mem_cons_self
  -- at its end the only thread owes nothing, so it can be forgotten
  refine .idle hend.store hend.catalog fun e he => (hend.entries e he).resolve_left ?_
  rintro ⟨t, ht, howes⟩
  obtain rfl := List.mem_singleton.mp ht
  exact hpaid e.key howes

theorem Coherent.after (hco : Coherence member Good Fresh) {w : World}
    (h : Coherent member Good Fresh { world := w }) (xs : List Occurrence) :
    Coherent member Good Fresh { world := w.after xs } := by
  induction xs generalizing w with
  | nil => exact h
  | cons x xs ih =>
    cases x with
    | operation s o => exact ih (h.operation hco s o)
    | wait ms => exact ih (h.forget rfl rfl (Cache.Follows.refl w.cache))

end System

end Sequential

/-! ## Rows that moved away -/

/-- The candidates of rows, one after the other. -/
theorem candidates_ofRows (rows : List Row) :
    (Loaded.ofRows rows).candidates = rows.filterMap fun r => candidate? r.candidate := by
  rw [Loaded.ofRows, List.filterMap_map]
  rfl

theorem candidate?_recordId {r : Row} {c : Candidate} (h : candidate? r.candidate = some c) :
    c.recordId = r.recordId := by
  unfold Row.candidate at h
  cases hdec : r.payload.decode with
  | error e =>
    rw [hdec] at h
    cases h
  | ok v =>
    rw [hdec] at h
    obtain rfl := Option.some.inj h
    rfl

/-- Leaving out rows of some records leaves out their candidates. -/
theorem candidates_filter (rows : List Row) (P : String → Bool) :
    (Loaded.ofRows (rows.filter fun r => P r.recordId)).candidates =
      (Loaded.ofRows rows).candidates.filter fun c => P c.recordId := by
  rw [candidates_ofRows, candidates_ofRows, List.filterMap_filter, List.filter_filterMap]
  refine List.filterMap_congr ?_
  intro r _
  cases hc : candidate? r.candidate with
  | none => rw [Option.filter_none, ite_self]
  | some c => rw [Option.filter_some, candidate?_recordId hc]

/-- Whether a record has a row in a field of a dataset. -/
def Store.files (s : Store) (k : FieldKey) (recordId : String) : Bool :=
  (s.findRows k.dataset k.field).any fun r => r.recordId = recordId

theorem Store.candidates_files (s : Store) (k : FieldKey) :
    s.candidates k = (s.candidates k).filter fun c => s.files k c.recordId := by
  rw [eq_comm, List.filter_eq_self, Store.candidates, candidates_ofRows]
  intro c hc
  obtain ⟨r, hr, hcand⟩ := List.mem_filterMap.mp hc
  exact List.any_eq_true.mpr ⟨r, hr, by simp [candidate?_recordId hcand]⟩

/-- In any store, a set agrees with the store when those of its records that still have a row in the
dataset are what a load gives. -/
theorem coherence_filed : Coherence (fun _ _ => True) (fun _ => True)
    (fun s k cs => s.candidates k = cs.filter fun c => s.files k c.recordId) where
  load {s k} _ := s.candidates_files k
  upsert_good _ _ _ := trivial
  delete_good _ _ := trivial
  upsert {s v k cs} now _ _ hk hfresh := by
    have hne : ¬ (v.dataset = k.dataset ∧ v.field = k.field) := fun heq => hk (by rw [heq.1, heq.2])
    -- the row that moves away, if there is one, is that of this record
    generalize hP : (fun id : String => decide (¬ (id = v.recordId ∧ k.field = v.field))) = P
    have hrows : (s.upsert v now).findRows k.dataset k.field =
        (s.findRows k.dataset k.field).filter fun r => P r.recordId := by
      rw [Store.findRows_upsert hne]
      refine List.filter_congr ?_
      intro r hr
      rw [← hP]
      refine decide_eq_decide.mpr (not_congr ?_)
      rw [← (Store.mem_findRows.mp hr).2.2, Row.key, RowKey.mk.injEq]
    have hfiles : ∀ id, (s.upsert v now).files k id = (s.files k id && P id) := by
      intro id
      rw [Store.files, hrows, List.any_filter, Store.files]
      rw [Bool.eq_iff_iff]
      simp only [List.any_eq_true, Bool.and_eq_true, decide_eq_true_eq]
      constructor
      · rintro ⟨r, hr, hPr, rfl⟩
        exact ⟨⟨r, hr, rfl⟩, hPr⟩
      · rintro ⟨⟨r, hr, rfl⟩, hPr⟩
        exact ⟨r, hr, hPr, rfl⟩
    rw [Store.candidates, hrows, candidates_filter, ← Store.candidates, hfresh, List.filter_filter]
    refine List.filter_congr ?_
    intro c _
    rw [hfiles, Bool.and_comm]
  delete {s k cs} f _ hk hfresh := by
    have hrows : (s.delete f).2.findRows k.dataset k.field = s.findRows k.dataset k.field :=
      Store.findRows_delete_of_not_mem fun r hr heq => hk r hr (by rw [heq.1, heq.2])
    rw [Store.candidates, hrows, ← Store.candidates, hfresh]
    refine List.filter_congr ?_
    intro c _
    rw [Store.files, Store.files, hrows]

/-! ## Searches -/

/-- What a search compares its candidates with, and where they are. -/
structure Comparison where
  key : FieldKey
  source : QuerySource
  query : Query

/-- A search up to its candidates. -/
def Service.comparison (s : Service) (r : SearchRequest) : Action Comparison := do
  s.requireEnabled
  let d ← Action.dataset r.dataset
  let field ← Action.orFail (pure (r.fieldIn d))
  let source ← Action.orFail (pure r.query)
  let query ← s.queryVector source field
  pure ⟨⟨d.id, field⟩, source, query⟩

/-- A search from its candidates on. -/
def Service.answerTo (s : Service) (r : SearchRequest) (p : Comparison) : Action SearchAnswer := do
  let loaded ← Action.candidates p.key
  let scores := rank s.workers p.query loaded.candidates p.source.exclude
  let info ← Action.of (.ask .cacheInfo)
  pure
    { results := best scores (s.settings.query.resolve r.limit)
      diagnostics :=
        { dataset := p.key.dataset
          field := p.key.field
          queryLength := p.query.vector.length
          stored := loaded.stored
          processed := scores.length
          failed := loaded.failed
          cacheHit := loaded.hit
          cacheSkipped := loaded.skipped
          cache := some info
          errors := loaded.errors } }

theorem Service.search_eq (s : Service) (r : SearchRequest) :
    s.search r = s.comparison r >>= s.answerTo r := by
  simp only [Service.search, Service.comparison, Service.answerTo, bind_assoc, pure_bind]

/-! ### Up to the candidates -/

/-- Only calls that do not concern the cache, and change no rows. -/
def blind : Rule where
  legal _ c := c.Passive
  allows _ _ := True

theorem Service.comparison_blind (s : Service) (r : SearchRequest) :
    (s.comparison r).Keeps blind (fun _ => True) fun p => r.query = .ok p.source := by
  have hfree : ∀ c : Call, c.Passive → blind.Free (fun _ => True) c :=
    fun c hc past _ => ⟨hc, fun _ _ => trivial⟩
  unfold Service.comparison
  have hdataset : (Action.dataset r.dataset).Keeps blind (fun _ => True) fun _ => True :=
    Action.dataset_keeps (fun c hc => hfree c hc.passive) _ fun _ _ => trivial
  refine s.requireEnabled_keeps.bind fun _ _ => hdataset.bind fun d _ => ?_
  refine (Action.Keeps.orFail_pure fun _ _ => trivial).bind fun field _ => ?_
  refine (Action.Keeps.orFail_pure fun _ h => h).bind fun source hsource => ?_
  exact (s.queryVector_keeps hfree source field).bind fun query _ => .pure hsource

/-- An attempt to read is the same whatever is in the cache, and leaves it there. -/
theorem World.attempt_read {α : Type} (g : World → α) (hg : ∀ w cache, g { w with cache } = g w)
    (w : World) (c : Call) (cache : Cache) :
    { w with cache }.attempt c (fun w => (g w, w)) =
        ((w.attempt c fun w => (g w, w)).1, { (w.attempt c fun w => (g w, w)).2 with cache }) ∧
      (w.attempt c fun w => (g w, w)).2.cache = w.cache ∧
      (w.attempt c fun w => (g w, w)).2.store = w.store ∧
      (w.attempt c fun w => (g w, w)).2.now = w.now := by
  unfold World.attempt
  dsimp only
  cases w.outage w.calls c with
  | some e => exact ⟨rfl, rfl, rfl, rfl⟩
  | none =>
    refine ⟨?_, rfl, rfl, rfl⟩
    dsimp only
    rw [hg { w with calls := w.calls + 1 } cache]

/-- Such a call is answered in the same way whatever is in the cache, and leaves it there. -/
theorem World.answer_passive {c : Call} (h : c.Passive) (w : World) (cache : Cache) :
    { w with cache }.answer c = ((w.answer c).1, { (w.answer c).2 with cache }) ∧
      (w.answer c).2.cache = w.cache ∧ (w.answer c).2.store = w.store ∧
      (w.answer c).2.now = w.now := by
  cases c with
  | findDataset s =>
    exact World.attempt_read (fun w => w.catalog.findDataset s) (fun _ _ => rfl) w _ cache
  | listRecords d =>
    exact World.attempt_read (fun w => w.catalog.listRecords d) (fun _ _ => rfl) w _ cache
  | findRecord d id =>
    exact World.attempt_read (fun w => w.catalog.findRecord d id) (fun _ _ => rfl) w _ cache
  | findRow r f =>
    exact World.attempt_read (fun w => w.store.findRow r f) (fun _ _ => rfl) w _ cache
  | embed r => exact ⟨rfl, rfl, rfl, rfl⟩
  | _ => cases h

theorem Program.Obeys.run_blind {α : Type} {post : List Event → α → Prop} {p : Program α}
    {past : List Event} (hp : p.Obeys blind post past) (w : World) (cache : Cache) :
    p.run { w with cache } = ((p.run w).1, { (p.run w).2 with cache }) ∧
      (p.run w).2.cache = w.cache ∧ (p.run w).2.store = w.store ∧ (p.run w).2.now = w.now := by
  induction p generalizing past w with
  | done a => exact ⟨rfl, rfl, rfl, rfl⟩
  | call c next ih =>
    obtain ⟨hanswer, hcache, hstore, hnow⟩ := World.answer_passive hp.1 w cache
    obtain ⟨hrun, hcache', hstore', hnow'⟩ := ih (w.answer c).1 (hp.2 _ trivial) (w.answer c).2
    refine ⟨?_, hcache'.trans hcache, hstore'.trans hstore, hnow'.trans hnow⟩
    rw [Program.run, hanswer]
    exact hrun

/-! ### From the candidates on -/

/-- The candidates are those of the cache, or those that a load gives. -/
theorem Action.candidates_run {w : World} (h : ∀ n c, w.outage n c = none) (k : FieldKey) :
    ∃ loaded w', (Action.candidates k).run w = (.ok loaded, w') ∧
      loaded.candidates = (w.cache.get w.now k).1.getD (w.store.candidates k) := by
  have hcached : (Action.of (Program.ask (.cached k))).run w =
      (.ok (w.cache.get w.now k).1, { w with cache := (w.cache.get w.now k).2 }) := rfl
  unfold Action.candidates
  rw [Action.run_bind_of_ok hcached]
  cases (w.cache.get w.now k).1 with
  | some cs => exact ⟨_, _, rfl, rfl⟩
  | none =>
    generalize hw : { w with cache := (w.cache.get w.now k).2 } = w₁
    have hout : ∀ n c, w₁.outage n c = none := hw ▸ h
    have hstore : w₁.store = w.store := by rw [← hw]
    have hrows : (Action.orFail (Program.ask (.findRows k.dataset k.field))).run w₁ =
        (.ok (w₁.store.findRows k.dataset k.field), { w₁ with calls := w₁.calls + 1 }.interfered) :=
      World.attempt_answered hout (.findRows k.dataset k.field)
        fun w => (w.store.findRows k.dataset k.field, w.interfered)
    rw [hstore] at hrows
    have htaken : (Action.of (Program.ask .generation)).run w₁ =
        (.ok w₁.cache.generation, w₁) := rfl
    dsimp only
    rw [Action.run_bind_of_ok htaken, Action.run_bind_of_ok hrows]
    exact ⟨_, _, rfl, rfl⟩

/-- The scores of candidates, without the record that the search is by. -/
def Comparison.scores (p : Comparison) (candidates : List Candidate) : List Scored :=
  scoreChunk p.query p.source.exclude candidates

/-- What a search answers, by the candidates it has. -/
theorem Service.answerTo_run (s : Service) (r : SearchRequest) (p : Comparison) {w : World}
    (h : ∀ n c, w.outage n c = none) : ∃ a w', (s.answerTo r p).run w = (.ok a, w') ∧
      FieldKey.mk a.diagnostics.dataset a.diagnostics.field = p.key ∧
      (a.results, a.diagnostics.processed) =
        (best (p.scores ((w.cache.get w.now p.key).1.getD (w.store.candidates p.key)))
            (s.settings.query.resolve r.limit),
          (p.scores ((w.cache.get w.now p.key).1.getD (w.store.candidates p.key))).length) := by
  obtain ⟨loaded, w', hrun, hcandidates⟩ := Action.candidates_run h p.key
  unfold Service.answerTo
  rw [Action.run_bind_of_ok hrun, ← hcandidates]
  refine ⟨_, _, rfl, rfl, ?_⟩
  dsimp only
  rw [rank_eq, Comparison.scores]

/-- Leaving candidates out changes the scores unless they belong to the record that the search is
by. -/
theorem Comparison.scores_filter_iff (p : Comparison) (candidates : List Candidate)
    (P : Candidate → Bool) (limit : Nat) :
    (best (p.scores candidates) limit, (p.scores candidates).length) =
        (best (p.scores (candidates.filter P)) limit, (p.scores (candidates.filter P)).length) ↔
      ∀ c ∈ candidates, p.source.exclude ≠ some c.recordId → P c = true := by
  constructor
  · intro h
    have hlength := congrArg Prod.snd h
    simp only [Comparison.scores, scoreChunk, List.length_map] at hlength
    rw [List.filter_comm] at hlength
    have hall := List.length_filter_eq_length_iff.mp hlength.symm
    exact fun c hc hex => hall c (List.mem_filter.mpr ⟨hc, decide_eq_true hex⟩)
  · intro h
    have hfilter : p.scores (candidates.filter P) = p.scores candidates := by
      rw [Comparison.scores, Comparison.scores, scoreChunk, scoreChunk, List.filter_filter]
      congr 1
      refine List.filter_congr ?_
      intro c hc
      by_cases hex : p.source.exclude ≠ some c.recordId
      · rw [h c hc hex, Bool.and_true]
      · rw [decide_eq_false hex, Bool.false_and]
    rw [hfilter]

/-! ### With and without the cache -/

theorem SearchRequest.exclude_eq {r : SearchRequest} {source : QuerySource}
    (h : r.query = .ok source) : source.exclude = r.recordId.filter (· ≠ "") := by
  rw [← nonEmpty_eq_filter]
  unfold SearchRequest.query at h
  cases ht : nonEmpty r.text with
  | some text =>
    cases hi : nonEmpty r.recordId with
    | some id =>
      rw [ht, hi] at h
      cases h
    | none =>
      rw [ht, hi] at h
      cases h
      rfl
  | none =>
    cases hi : nonEmpty r.recordId with
    | some id =>
      rw [ht, hi] at h
      cases h
      rfl
    | none =>
      rw [ht, hi] at h
      cases h

/-- A search that succeeds compares the same whatever is in the cache. -/
theorem Service.search_run (s : Service) (r : SearchRequest) {w w' : World} {a : SearchAnswer}
    (hw : w.Steady) (h : (s.search r).run w = (.ok a, w')) :
    ∃ p w₁, p.source.exclude = r.recordId.filter (· ≠ "") ∧ w₁.Steady ∧
      (w₁.cache = w.cache ∧ w₁.store = w.store ∧ w₁.now = w.now) ∧
      (s.answerTo r p).run w₁ = (.ok a, w') ∧
      ∀ cache, (s.search r).run { w with cache } = (s.answerTo r p).run { w₁ with cache } := by
  have hblind := s.comparison_blind r [] trivial
  have hsource := (hblind.run (fun _ => True) (fun _ _ _ => trivial) (fun _ _ _ => trivial)
    (w := w) trivial).2
  have hsteady := hw.run (ExceptT.run (s.comparison r))
  have hcache := hblind.run_blind w
  rw [Service.search_eq, Action.run_bind, Action.run] at h
  rcases hrun : Program.run (ExceptT.run (s.comparison r)) w with ⟨res, w₁⟩
  rw [hrun] at h hsource hsteady hcache
  cases res with
  | error e => cases h
  | ok p =>
    refine ⟨p, w₁, SearchRequest.exclude_eq (hsource p rfl), hsteady, (hcache w.cache).2, h, ?_⟩
    intro cache
    rw [Service.search_eq, Action.run_bind, Action.run, (hcache cache).1]

/-- With operations that ran one after the other, what is cached for a key is what a load would
give, together with records whose row has moved to another dataset. -/
theorem cached_filter {w : World} (hcache : w.cache.entries = []) (xs : List Occurrence)
    {e : Cache.Entry} (he : e ∈ (w.after xs).cache.entries) :
    (w.after xs).store.candidates e.key =
      e.candidates.filter fun c => (w.after xs).store.files e.key c.recordId := by
  have hstart : System.Coherent (fun _ _ => True) (fun _ => True)
      (fun s k cs => s.candidates k = cs.filter fun c => s.files k c.recordId) { world := w } := by
    refine .idle trivial (fun _ _ => trivial) fun e he => ?_
    rw [hcache] at he
    cases he
  exact (hstart.after coherence_filed xs).current he

/-- After operations that ran one after the other, a search gives the same results from as many
candidates as if the cache had been cleared just before it, exactly when every record that was
cached for its key, other than the one that the search is by, still has its row in that dataset. -/
theorem search_transparent_iff {w : World} (hcache : w.cache.entries = [])
    (hsteady : w.Steady) (xs : List Occurrence) (s : Service) (r : SearchRequest)
    {a : SearchAnswer} {w' : World} (hsearch : (s.search r).run (w.after xs) = (.ok a, w')) :
    ∃ b w'', (s.search r).run { w.after xs with cache := (w.after xs).cache.clear } = (.ok b, w'') ∧
      ((a.results, a.diagnostics.processed) = (b.results, b.diagnostics.processed) ↔
        ∀ e, (w.after xs).cache.entry? ⟨a.diagnostics.dataset, a.diagnostics.field⟩ = some e →
          (w.after xs).cache.expired (w.after xs).now e = false →
            ∀ c ∈ e.candidates, r.recordId.filter (· ≠ "") ≠ some c.recordId →
              ∃ row ∈ (w.after xs).store.findRows a.diagnostics.dataset a.diagnostics.field,
                row.recordId = c.recordId) := by
  -- both searches compare the same, so all that counts is which candidates they have
  have hfilter := fun e he => cached_filter hcache xs (e := e) he
  have hafter := hsteady.after xs
  generalize w.after xs = w₁ at *
  obtain ⟨p, w₂, hexclude, hw₂, ⟨hcache₂, hstore₂, hnow₂⟩, hanswer, hcompare⟩ :=
    s.search_run r hafter hsearch
  obtain ⟨a', wa, ha', hkey, ha⟩ := s.answerTo_run r p hw₂.outage
  obtain ⟨rfl, -⟩ : a = a' ∧ w' = wa := by
    rw [hanswer] at ha'
    cases ha'
    exact ⟨rfl, rfl⟩
  obtain ⟨b, wb, hb, -, hb'⟩ :=
    s.answerTo_run r p (w := { w₂ with cache := w₁.cache.clear }) hw₂.outage
  refine ⟨b, wb, (hcompare _).trans hb, ?_⟩
  have hdataset : a.diagnostics.dataset = p.key.dataset := congrArg FieldKey.dataset hkey
  have hfield : a.diagnostics.field = p.key.field := congrArg FieldKey.field hkey
  have hnone : (w₁.cache.clear.get w₂.now p.key).1 = none := rfl
  rw [ha, hb', hnone, hkey, hdataset, hfield, hcache₂, hstore₂, hnow₂, ← hexclude]
  rcases Cache.get_cases w₁.cache w₁.now p.key with
    ⟨he, hget⟩ | ⟨e, he, hx, hget⟩ | ⟨e, he, hx, hget⟩
  · -- nothing is cached
    rw [hget]
    refine iff_of_true rfl ?_
    intro e' he'
    rw [he] at he'
    cases he'
  · -- what is cached is too old
    rw [hget]
    refine iff_of_true rfl ?_
    intro e' he' hx'
    rw [he] at he'
    obtain rfl := Option.some.inj he'
    rw [hx] at hx'
    cases hx'
  · -- a hit: what would be loaded is the part of the set whose rows have not moved away
    obtain ⟨hmem, hek⟩ := Cache.entry?_eq_some he
    have hcurrent := hfilter e hmem
    rw [hek] at hcurrent
    rw [hget]
    dsimp only [Option.getD_some, Option.getD_none]
    rw [hcurrent, p.scores_filter_iff e.candidates (fun c => w₁.store.files p.key c.recordId)]
    constructor
    · intro h e' he' _ c hc hex
      rw [he] at he'
      obtain rfl := Option.some.inj he'
      simpa [Store.files] using h c hc hex
    · intro h c hc hex
      simpa [Store.files] using h e he hx c hc hex

/-- Two datasets with a record of the same id: after the vector of one of them is stored, a search
in the other dataset still scores the candidate that has moved away. -/
theorem search_transparent_iff_moved :
    let fields : List Field := [⟨"f", .text, true⟩]
    let row : String → Row := fun id => ⟨id, "A", "f", .single [1], "m", 1, ⟨0, 0⟩⟩
    let s : Service :=
      { settings := { ai := { enabled := true } }, providerName := "p", providerAvailable := true }
    let w : World :=
      { catalog :=
          { datasets := [⟨"A", "a", fields⟩, ⟨"B", "b", fields⟩]
            records := [("B", ⟨"r", [("f", .string "t")]⟩)] }
        store := ({} : Store).insert (row "q") |>.insert (row "r")
        provider := ⟨"p", true, fun _ _ => .ok ⟨[[1]], "m", none⟩⟩ }
    let r := SearchRequest.byRecord "A" "f" "q"
    let xs : List Occurrence :=
      [.operation s (.search r), .operation s (.generate (.ofField "B" "f"))]
    ∃ a w' b w'', (s.search r).run (w.after xs) = (.ok a, w') ∧
      (s.search r).run { w.after xs with cache := (w.after xs).cache.clear } = (.ok b, w'') ∧
      a.diagnostics.processed = 1 ∧ b.diagnostics.processed = 0 ∧
      ¬ ∀ e, (w.after xs).cache.entry? ⟨a.diagnostics.dataset, a.diagnostics.field⟩ = some e →
        (w.after xs).cache.expired (w.after xs).now e = false →
          ∀ c ∈ e.candidates, r.recordId.filter (· ≠ "") ≠ some c.recordId →
            ∃ row ∈ (w.after xs).store.findRows a.diagnostics.dataset a.diagnostics.field,
              row.recordId = c.recordId := by
  intro fields row s w r xs
  have processed : ∀ w₁ : World, ∀ n, (match ((s.search r).run w₁).1 with
      | .ok a => some a.diagnostics.processed
      | .error _ => none) = some n →
      ∃ a w', (s.search r).run w₁ = (.ok a, w') ∧ a.diagnostics.processed = n := by
    intro w₁ n h
    rcases hrun : (s.search r).run w₁ with ⟨res, w'⟩
    rw [hrun] at h
    cases res with
    | error e => cases h
    | ok a => exact ⟨a, w', rfl, Option.some.inj h⟩
  obtain ⟨a, w', ha, hpa⟩ := processed (w.after xs) 1 (by decide +kernel)
  obtain ⟨b, w'', hb, hiff⟩ := search_transparent_iff rfl ⟨fun _ _ => rfl, rfl⟩ xs s r ha
  obtain ⟨b', wb, hb', hpb⟩ := processed { w.after xs with cache := (w.after xs).cache.clear } 0
    (by decide +kernel)
  rw [hb] at hb'
  cases hb'
  refine ⟨a, w', b, w'', ha, hb, hpa, hpb, fun h => ?_⟩
  have hsame := congrArg Prod.snd (hiff.mpr h)
  rw [hpa, hpb] at hsame
  cases hsame

end EmbeddingSearch
