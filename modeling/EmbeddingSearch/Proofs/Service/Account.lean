import EmbeddingSearch.Proofs.Service.AllOrNothing
import EmbeddingSearch.Proofs.Service.Limits
import EmbeddingSearch.Proofs.Service.Loading
import EmbeddingSearch.Proofs.Store.Changes

/-!
# The account of a search

A search says how many vectors there were, how many of them could not be decoded and how many
candidates were scored. Every vector is accounted for: it failed, or it was scored, or it is that of
the record that the search is by. On a hit only the vectors of the cached set are counted, none of
which fails.

## Contents
- `World.answer_quiet`, `Program.Obeys.run_quiet`: a search does not change the world before it asks
  for candidates.
- `Action.run_ok_of_map`, `Service.search_ok`: actions that succeed, and the stages of a search that
  does, with its answer.
- `Comparison.length_scores`, `Store.countP_own`: candidates are scored, but for the one of
  the record itself.
- `AccountOfLoad`, `AccountOfHit`: the account of either way to come by the candidates.
- `search_account`: the account of every search that succeeds.
-/

namespace EmbeddingSearch

/-! ## A search that succeeds -/

/-- A call that only reads or embeds is counted, and that is all. -/
theorem World.answer_quiet {c : Call} (h : c.Passive) (w : World) :
    (w.answer c).2 = { w with calls := (w.answer c).2.calls, sent := (w.answer c).2.sent } := by
  cases c with
  | findDataset s => rw [World.answer_reads (c := .findDataset s) trivial]
  | listRecords d => rw [World.answer_reads (c := .listRecords d) trivial]
  | findRecord d id => rw [World.answer_reads (c := .findRecord d id) trivial]
  | findRow r f => rw [World.answer_reads (c := .findRow r f) trivial]
  | embed q => rfl
  | _ => cases h

/-- So are any number of such calls. -/
theorem Program.Obeys.run_quiet {α : Type} {post : List Event → α → Prop} {p : Program α}
    {past : List Event} (hp : p.Obeys blind post past) (w : World) :
    (p.run w).2 = { w with calls := (p.run w).2.calls, sent := (p.run w).2.sent } := by
  refine (hp.run_keeps (w := w)
    (I := fun _ w' => w' = { w with calls := w'.calls, sent := w'.sent }) ?_ rfl).2
  intro past w' c hI hc
  refine ⟨trivial, ?_⟩
  rw [World.answer_quiet hc, hI]

/-- An action succeeds when something can be said of its value. -/
theorem Action.run_ok_of_map {α β : Type} {x : Action α} {w : World} {f : α → β} {b : β}
    (h : (x.run w).1.toOption.map f = some b) : ∃ a w', x.run w = (.ok a, w') ∧ f a = b := by
  rcases hrun : x.run w with ⟨res, w'⟩
  rw [hrun] at h
  cases res with
  | error e => cases h
  | ok a => exact ⟨a, w', rfl, Option.some.inj h⟩

/-- A search that succeeds has something to compare with and candidates for it, and its answer is
made of their scores. Up to the candidates nothing was changed. -/
theorem Service.search_ok {s : Service} {r : SearchRequest} {w w' : World} {a : SearchAnswer}
    (h : (s.search r).run w = (.ok a, w')) : ∃ p w₁ loaded,
      (s.comparison r).run w = (.ok p, w₁) ∧ p.source.exclude = r.recordId.filter (· ≠ "") ∧
      w₁ = { w with calls := w₁.calls, sent := w₁.sent } ∧
      (Action.candidates p.key).run w₁ = (.ok loaded, w') ∧
      a.results = best (p.scores loaded.candidates) (s.settings.query.resolve r.limit) ∧
      a.diagnostics =
        { dataset := p.key.dataset
          field := p.key.field
          queryLength := p.query.vector.length
          stored := loaded.stored
          processed := (p.scores loaded.candidates).length
          failed := loaded.failed
          cacheHit := loaded.hit
          cacheSkipped := loaded.skipped
          cache := some w'.cache.info
          errors := loaded.errors } := by
  have hblind := s.comparison_blind r [] trivial
  have hsource := (hblind.run (fun _ => True) (fun _ _ _ => trivial) (fun _ _ _ => trivial)
    (w := w) trivial).2
  have hquiet := hblind.run_quiet w
  rw [search_eq, Action.run_bind_ok] at h
  obtain ⟨p, w₁, hcomparison, h⟩ := h
  rw [answerTo, Action.run_bind_ok] at h
  obtain ⟨loaded, w₂, hloaded, h⟩ := h
  rw [Action.run_bind_ok] at h
  obtain ⟨info, w₃, hinfo, h⟩ := h
  cases h
  cases hinfo
  have hrun : Program.run (ExceptT.run (s.comparison r)) w = (.ok p, w₁) := hcomparison
  rw [hrun] at hsource hquiet
  refine ⟨p, w₁, loaded, hcomparison, SearchRequest.exclude_eq (hsource p rfl), hquiet, hloaded,
    ?_, ?_⟩
  · rw [rank_eq, Comparison.scores]
  · dsimp only
    rw [rank_eq, Comparison.scores]

/-! ## Counting -/

/-- Every candidate is scored, but for those of the record that the search is by. -/
theorem Comparison.length_scores (p : Comparison) (candidates : List Candidate) :
    candidates.length = (p.scores candidates).length +
      candidates.countP fun c => p.source.exclude = some c.recordId := by
  rw [List.length_eq_countP_add_countP (l := candidates)
    fun c => decide (p.source.exclude ≠ some c.recordId), Comparison.scores, scoreChunk,
    List.length_map, List.countP_eq_length_filter]
  simp

/-- The candidates of some rows belong to the records of those that decode. -/
theorem Row.Gives.records {rows : List Row} {candidates : List Candidate}
    (h : List.Forall₂ Row.Gives rows candidates) :
    candidates.map Candidate.recordId = rows.map Row.recordId := by
  induction h with
  | nil => rfl
  | cons hgives _ ih => rw [List.map_cons, List.map_cons, hgives.record, ih]

section Records

variable {s : Store} {k : FieldKey} {candidates : List Candidate}

/-- In a field of a store, no two candidates belong to the same record. -/
theorem Store.nodup_records (hgives : s.Gives k candidates) :
    (candidates.map Candidate.recordId).Nodup := by
  rw [Row.Gives.records hgives]
  have hrows := (s.findRows_pairwise k.dataset k.field).filter Row.decodes
  exact (List.pairwise_map.mpr hrows).imp fun hlt => ne_of_lt hlt

/-- A record has one candidate if it has a row that decodes, and none otherwise. -/
theorem Store.countP_own (own : Option String) (hgives : s.Gives k candidates) :
    (candidates.countP fun c => own = some c.recordId) =
      if ∃ r ∈ s.findRows k.dataset k.field, r.decodes = true ∧ own = some r.recordId then 1
      else 0 := by
  have hmem : ∀ id, id ∈ candidates.map Candidate.recordId ↔
      ∃ r ∈ s.findRows k.dataset k.field, r.decodes = true ∧ id = r.recordId := by
    intro id
    rw [Row.Gives.records hgives, List.mem_map]
    constructor
    · rintro ⟨r, hr, rfl⟩
      exact ⟨r, (List.mem_filter.mp hr).1, (List.mem_filter.mp hr).2, rfl⟩
    · rintro ⟨r, hr, hdecodes, rfl⟩
      exact ⟨r, List.mem_filter.mpr ⟨hr, hdecodes⟩, rfl⟩
  cases own with
  | none => simp
  | some id =>
    have hcount : (candidates.countP fun c => some id = some c.recordId) =
        (candidates.map Candidate.recordId).count id := by
      rw [List.count, List.countP_map]
      refine List.countP_congr fun c _ => ?_
      rw [decide_eq_true_iff, Option.some.injEq, Function.comp_apply, beq_iff_eq]
      exact eq_comm
    rw [hcount, (nodup_records hgives).count]
    simp only [hmem, Option.some.injEq]

end Records

/-! ## The account -/

/-- The field that a search was in. -/
def Diagnostics.key (d : Diagnostics) : FieldKey := ⟨d.dataset, d.field⟩

/-- The account of a search that loaded its candidates, `own` being the record that it is by. -/
structure AccountOfLoad (w w' : World) (own : Option String) (d : Diagnostics) : Prop where
  missed : d.cacheHit = false
  stored : d.stored = (w.store.findRows d.dataset d.field).length
  failed : d.failed = (w.store.findRows d.dataset d.field).countP fun r => !r.decodes
  errors : List.Forall₂ Row.Reports
    (((w.store.findRows d.dataset d.field).filter fun r => !r.decodes).take (min 3 d.failed))
    d.errors
  total : d.stored = d.failed + d.processed +
    if ∃ r ∈ w.store.findRows d.dataset d.field, r.decodes = true ∧ own = some r.recordId then 1
    else 0
  skipped : d.cacheSkipped = true ↔
    w.cache.settings.maxVectors < (w.store.findRows d.dataset d.field).countP Row.decodes ∨
      w.cache.settings.budgetMb < w.cache.settings.estimateMb
        ((w.store.findRows d.dataset d.field).countP Row.decodes) ∨
      ∃ x ∈ w.onLoad, x.step.Invalidates d.key
  refused : d.cacheSkipped = true → w'.cache.entry? d.key = none
  taken : d.cacheSkipped = false →
    ∃ e, w'.cache.entry? d.key = some e ∧ w.store.Gives d.key e.candidates

/-- The account of a search that found its candidates in the cache. -/
structure AccountOfHit (cached : List Candidate) (own : Option String) (d : Diagnostics) :
    Prop where
  hit : d.cacheHit = true
  failed : d.failed = 0
  errors : d.errors = []
  total : d.stored = d.processed + cached.countP fun c => own = some c.recordId
  kept : d.cacheSkipped = false

/-- A search that succeeds accounts for every vector, whichever way it came by its candidates and
whatever else happened during the load, and it gives as many results as it scored candidates, up to
its limit, for which zero stands for ten. -/
theorem search_account {s : Service} {r : SearchRequest} {w w' : World} {a : SearchAnswer}
    (hw : w.Timely) (h : (s.search r).run w = (.ok a, w')) :
    ((w.cache.get w.now a.diagnostics.key).1 = none →
      AccountOfLoad w w' (r.recordId.filter (· ≠ "")) a.diagnostics) ∧
    (∀ cached, (w.cache.get w.now a.diagnostics.key).1 = some cached →
      AccountOfHit cached (r.recordId.filter (· ≠ "")) a.diagnostics) ∧
    a.results.length = min a.diagnostics.processed
      (if s.settings.query.resolve r.limit = 0 then 10 else s.settings.query.resolve r.limit) := by
  obtain ⟨p, w₁, loaded, -, hexclude, hw₁, hloaded, hresults, hdiagnostics⟩ := Service.search_ok h
  have hlength := p.length_scores loaded.candidates
  have hcases := Action.candidates_ok hloaded
  have hget : w₁.cache.get w₁.now p.key = w.cache.get w.now p.key := by rw [hw₁]
  have hoffer : w₁.offer p.key = w.offer p.key := by
    rw [hw₁]
    rfl
  have hstore : w₁.store = w.store := by rw [hw₁]
  have hkey : a.diagnostics.key = p.key := by
    rw [hdiagnostics]
    rfl
  rw [hexclude] at hlength
  rw [hget, hoffer, hstore] at hcases
  rw [hkey]
  refine ⟨fun hmiss => ?_, fun cached hfound => ?_, ?_⟩
  · obtain ⟨cs, hfound, -⟩ | ⟨-, hloaded, hcache⟩ := hcases
    · cases hmiss.symm.trans hfound
    have hgives := w.store.gives_candidates p.key
    have hfailed := Loaded.ofRows_failed (w.store.findRows p.key.dataset p.key.field)
    have herrors := Loaded.ofRows_errors (w.store.findRows p.key.dataset p.key.field)
    have hstored := Loaded.ofRows_stored (w.store.findRows p.key.dataset p.key.field)
    have hown := Store.countP_own (r.recordId.filter (· ≠ "")) hgives
    have hrefused := hw.offer_refused_iff p.key
    rw [List.take_eq_take_min, ← List.countP_eq_length_filter, ← hfailed] at herrors
    rw [Store.candidates] at hown
    rw [Store.candidates, Loaded.length_ofRows_candidates] at hrefused
    rw [hdiagnostics]
    rw [hloaded] at hlength ⊢
    refine ⟨rfl, rfl, hfailed, herrors, ?_, ?_, ?_, ?_⟩
    · -- each row fails or gives a candidate, which is scored or belongs to the record itself
      dsimp only at hlength ⊢
      rw [hstored, hlength, hown, Nat.add_assoc]
    · dsimp only
      rw [Bool.not_eq_true']
      exact hrefused
    · intro hskipped
      rw [hcache]
      exact World.offer_refused hmiss (by simpa using hskipped)
    · intro hkept
      obtain ⟨e, he, hcandidates⟩ := World.offer_taken (k := p.key) (by simpa using hkept)
      rw [hcache]
      exact ⟨e, he, hcandidates ▸ hgives⟩
  · obtain ⟨cs, hcs, rfl, -⟩ | ⟨hmiss, -⟩ := hcases
    · obtain rfl := Option.some.inj (hfound.symm.trans hcs)
      rw [hdiagnostics]
      exact ⟨rfl, rfl, rfl, hlength, rfl⟩
    · cases hfound.symm.trans hmiss
  · rw [hresults, length_best, hdiagnostics, Nat.min_comm]
    rfl

/-- Five rows, two of which do not decode. Everything is invalidated while they are read, so that
what was loaded is skipped; after another search the candidates are found. -/
theorem search_account_invalidated :
    let row : String → Payload → Row := fun id v => ⟨id, "A", "f", v, "m", 1, ⟨0, 0⟩⟩
    let s : Service :=
      { settings := { ai := { enabled := true } }, providerName := "p", providerAvailable := true }
    let w : World :=
      { catalog := { datasets := [⟨"A", "a", [⟨"f", .text, true⟩]⟩] }
        store := ({} : Store).insert (row "q" (.single [1])) |>.insert (row "r" (.raw .null))
          |>.insert (row "s" (.single [2])) |>.insert (row "t" (.raw (.bool true)))
          |>.insert (row "u" (.double [3]))
        provider := ⟨"p", true, fun _ _ => .ok ⟨[[1]], "m", none⟩⟩
        onLoad := [.clear] }
    let r := SearchRequest.byRecord "A" "f" "q"
    let xs : List Occurrence := [.operation s (.search r), .operation s (.search r)]
    (∃ a w', (s.search r).run w = (.ok a, w') ∧
      (a.diagnostics.stored, a.diagnostics.failed, a.diagnostics.processed) = (5, 2, 2) ∧
      a.diagnostics.cacheSkipped = true ∧ AccountOfLoad w w' (some "q") a.diagnostics) ∧
    ∃ a w' cached, (s.search r).run (w.after xs) = (.ok a, w') ∧
      (a.diagnostics.stored, a.diagnostics.processed) = (3, 2) ∧
      AccountOfHit cached (some "q") a.diagnostics := by
  intro row s w r xs
  have htimely : w.Timely := Cache.timely_empty
  let shown : SearchAnswer → FieldKey × Nat × Nat × Nat × Bool := fun a =>
    (a.diagnostics.key, a.diagnostics.stored, a.diagnostics.failed, a.diagnostics.processed,
      a.diagnostics.cacheSkipped)
  constructor
  · have hshown : ((s.search r).run w).1.toOption.map shown = some (⟨"A", "f"⟩, 5, 2, 2, true) := by
      decide +kernel
    obtain ⟨a, w', hrun, hd⟩ := Action.run_ok_of_map hshown
    simp only [shown, Prod.mk.injEq] at hd
    obtain ⟨hkey, hstored, hfailed, hprocessed, hskipped⟩ := hd
    have hmiss : (w.cache.get w.now a.diagnostics.key).1 = none := by
      rw [hkey]
      rfl
    exact ⟨a, w', hrun, by rw [hstored, hfailed, hprocessed], hskipped,
      (search_account htimely hrun).1 hmiss⟩
  · have hshown : ((s.search r).run (w.after xs)).1.toOption.map shown =
        some (⟨"A", "f"⟩, 3, 0, 2, false) := by
      decide +kernel
    obtain ⟨a, w', hrun, hd⟩ := Action.run_ok_of_map hshown
    simp only [shown, Prod.mk.injEq] at hd
    obtain ⟨hkey, hstored, -, hprocessed, -⟩ := hd
    have hhit : (((w.after xs).cache.get (w.after xs).now ⟨"A", "f"⟩).1).isSome = true := by
      decide +kernel
    obtain ⟨cached, hcached⟩ := Option.isSome_iff_exists.mp hhit
    rw [← hkey] at hcached
    exact ⟨a, w', cached, hrun, by rw [hstored, hprocessed],
      (search_account (htimely.after xs) hrun).2.1 cached hcached⟩

end EmbeddingSearch
