import EmbeddingSearch.Proofs.Service.Account
import EmbeddingSearch.Proofs.Vector.Symmetry

/-!
# Searches by records

A search by a record takes the vector of the record from the store and those of the others from the
cache, or it loads them. Either way they are what the rows decode to. So the score that one record
gets in the search by another one is the score that this other one gets in the search by it.

## Contents
- `Action.storedQuery_ok`, `Service.comparison_ok`: what a search by a record compares with.
- `Action.candidates_gives`: the candidates of a search, cached or not.
- `LikeSearch`, `LikeSearch.exists_of_run`: searches by a record that leave no candidate out.
- `LikeSearch.score`: the score of another record in it.
- `like_search_symmetric`: two such searches, each by one of two records.
-/

namespace EmbeddingSearch

/-! ## The query -/

section Query

variable {w w' : World}

/-- The query of a record is the vector of its row. -/
theorem Action.storedQuery_ok {recordId field : String} {q : Query}
    (h : (Action.storedQuery recordId field).run w = (.ok q, w')) :
    ∃ row v, w.store.findRow recordId field = some row ∧ row.payload.decode = .ok v ∧
      q = .ofVector v := by
  obtain ⟨found, w₁, hfound, h⟩ := Action.run_bind_ok.mp h
  obtain ⟨row, w₂, hrow, h⟩ := Action.run_bind_ok.mp h
  have hanswer := World.attempt_ok (.findRow recordId field)
    (fun w => (w.store.findRow recordId field, w)) hfound
  cases hanswer
  cases hstored : w.store.findRow recordId field with
  | none =>
    rw [hstored] at hrow
    cases hrow
  | some row' =>
    rw [hstored] at hrow
    cases hrow
    cases hdecode : row.payload.decode with
    | error e =>
      rw [hdecode] at h
      cases h
    | ok v =>
      rw [hdecode] at h
      cases h
      exact ⟨row, v, rfl, hdecode, rfl⟩

/-- The query of a search is made in a world with the same rows. -/
theorem Service.comparison_ok {s : Service} {r : SearchRequest} {p : Comparison}
    (h : (s.comparison r).run w = (.ok p, w')) :
    ∃ w₁, w₁.store = w.store ∧ (s.queryVector p.source p.key.field).run w₁ = (.ok p.query, w') := by
  obtain ⟨u, w₁, henabled, h⟩ := Action.run_bind_ok.mp h
  obtain ⟨d, w₂, hdataset, h⟩ := Action.run_bind_ok.mp h
  obtain ⟨field, w₃, hfield, h⟩ := Action.run_bind_ok.mp h
  obtain ⟨source, w₄, hsource, h⟩ := Action.run_bind_ok.mp h
  obtain ⟨query, w₅, hquery, h⟩ := Action.run_bind_ok.mp h
  cases h
  refine ⟨w₄, ?_, hquery⟩
  have hw₁ : w₁ = w := by
    unfold Service.requireEnabled at henabled
    split at henabled
    · cases henabled
      rfl
    · cases henabled
  obtain ⟨-, hw₂⟩ := Action.dataset_ok hdataset
  have hw₃ : w₂ = w₃ := congrArg Prod.snd hfield
  have hw₄ : w₃ = w₄ := congrArg Prod.snd hsource
  rw [← hw₄, ← hw₃, hw₂, hw₁]

end Query

/-! ## The candidates -/

/-- Cached or not, the candidates of a field are those of its rows that decode, unless something else
was cached. -/
theorem Action.candidates_gives {w w' : World} {k : FieldKey} {loaded : Loaded}
    (hcached : ∀ e, w.cache.entry? k = some e → w.store.Gives k e.candidates)
    (h : (Action.candidates k).run w = (.ok loaded, w')) : w.store.Gives k loaded.candidates := by
  obtain ⟨cs, hfound, rfl, -⟩ | ⟨-, rfl, -⟩ := Action.candidates_ok h
  · rcases Cache.get_cases w.cache w.now k with ⟨-, hget⟩ | ⟨e, -, -, hget⟩ | ⟨e, he, -, hget⟩
    · rw [hget] at hfound
      cases hfound
    · rw [hget] at hfound
      cases hfound
    · rw [hget] at hfound
      cases hfound
      exact hcached e he
  · exact w.store.gives_candidates k

/-- A row that decodes has its candidate among those of its field. -/
theorem Row.Gives.mem {rows : List Row} {candidates : List Candidate}
    (h : List.Forall₂ Row.Gives rows candidates) {row : Row} (hrow : row ∈ rows) {v : Embedding}
    (hv : row.payload.decode = .ok v) : Candidate.ofVector row.recordId v ∈ candidates := by
  induction h with
  | nil => cases hrow
  | @cons r c rows candidates hgives _ ih =>
    rcases List.mem_cons.mp hrow with rfl | hrow
    · obtain rfl : v = c.vector := Except.ok.inj (hv.symm.trans hgives.decoded)
      have hc : Candidate.ofVector row.recordId c.vector = c := by
        rw [Candidate.ofVector, ← hgives.record, ← hgives.magnitude]
      rw [hc]
      exact List.mem_cons_self
    · exact List.mem_cons_of_mem _ (ih hrow)

/-- Of several things with different names, only one has the name of one of them. -/
theorem filter_eq_of_nodup {α : Type} {xs : List α} {f : α → String} (h : (xs.map f).Nodup) {x : α}
    (hx : x ∈ xs) : xs.filter (fun y => f y = f x) = [x] := by
  induction xs with
  | nil => cases hx
  | cons y xs ih =>
    obtain ⟨hy, hxs⟩ := List.nodup_cons.mp h
    rcases List.mem_cons.mp hx with rfl | hx
    · have hrest : xs.filter (fun y => f y = f x) = [] := by
        refine List.filter_eq_nil_iff.mpr fun z hz hname => hy ?_
        rw [← of_decide_eq_true hname]
        exact List.mem_map_of_mem hz
      rw [List.filter_cons_of_pos (by simp), hrest]
    · have hname : f y ≠ f x := fun hname => hy (hname ▸ List.mem_map_of_mem hx)
      rw [List.filter_cons_of_neg (by simpa using hname), ih hxs hx]

/-! ## Two searches -/

/-- A search by a record in a field of a store. If a set of the field is cached when it starts, it is
that of the rows that decode; and no candidate is beyond its limit. -/
structure LikeSearch (σ : Store) (k : FieldKey) (recordId : String) where
  service : Service
  request : SearchRequest
  world : World
  answer : SearchAnswer
  world' : World
  asked : Given request.recordId recordId
  succeeds : (service.search request).run world = (.ok answer, world')
  key : answer.diagnostics.key = k
  store : world.store = σ
  cached : ∀ e, world.cache.entry? k = some e → σ.Gives k e.candidates
  limit : answer.diagnostics.processed ≤
    if service.settings.query.resolve request.limit = 0 then 10
    else service.settings.query.resolve request.limit

/-- A search is one of these when what it answers shows it. -/
theorem LikeSearch.exists_of_run {σ : Store} {k : FieldKey} {recordId : String} {s : Service}
    {r : SearchRequest} {w : World} {n : Nat} {b : Bool}
    (hasked : Given r.recordId recordId) (hstore : w.store = σ)
    (hcached : ∀ e, w.cache.entry? k = some e → σ.Gives k e.candidates)
    (hlimit : n ≤ if s.settings.query.resolve r.limit = 0 then 10
      else s.settings.query.resolve r.limit)
    (hshown : (((s.search r).run w).1.toOption.map fun a =>
      (a.diagnostics.key, a.diagnostics.processed, a.diagnostics.cacheHit)) = some (k, n, b)) :
    ∃ x : LikeSearch σ k recordId, x.answer.diagnostics.cacheHit = b ∧ x.service = s := by
  obtain ⟨a, w', hrun, ha⟩ := Action.run_ok_of_map hshown
  simp only [Prod.mk.injEq] at ha
  obtain ⟨hkey, rfl, rfl⟩ := ha
  exact ⟨⟨s, r, w, a, w', hasked, hrun, hkey, hstore, hcached, hlimit⟩, rfl, rfl⟩

section Scores

variable {σ : Store} {k : FieldKey} {own other : Row} {v u : Embedding}

/-- A search by a record compares with the vector of its row. -/
theorem LikeSearch.query_eq (hown : own ∈ σ.findRows k.dataset k.field)
    (hv : own.payload.decode = .ok v) (x : LikeSearch σ k own.recordId) {p : Comparison}
    {w₁ : World} (hp : (x.service.comparison x.request).run x.world = (.ok p, w₁))
    (hexclude : p.source.exclude = some own.recordId) (hk : p.key = k) : p.query = .ofVector v := by
  obtain ⟨w₀, hw₀, hquery⟩ := Service.comparison_ok hp
  have hsource : p.source = .record own.recordId := by
    cases hsource : p.source with
    | text t =>
      rw [hsource] at hexclude
      cases hexclude
    | record id =>
      rw [hsource] at hexclude
      rw [Option.some.inj hexclude]
  rw [hsource, hk] at hquery
  obtain ⟨row, v', hfound, hdecode, hq⟩ := Action.storedQuery_ok hquery
  obtain ⟨hmem, -, hfield⟩ := Store.mem_findRows.mp hown
  have hrow := Store.mem_toList.mp hmem
  rw [hw₀, x.store, ← hfield, hrow] at hfound
  obtain rfl := Option.some.inj hfound
  rw [hv] at hdecode
  rw [hq, Except.ok.inj hdecode]

/-- In a search by a record, another record with a row that decodes is listed once, with the
similarity of the two vectors. -/
theorem LikeSearch.score (hown : own ∈ σ.findRows k.dataset k.field)
    (hother : other ∈ σ.findRows k.dataset k.field) (hne : own.recordId ≠ other.recordId)
    (hv : own.payload.decode = .ok v) (hu : other.payload.decode = .ok u)
    (x : LikeSearch σ k own.recordId) :
    x.answer.results.filter (fun y => y.recordId = other.recordId) =
      [⟨other.recordId, cosine v u⟩] := by
  obtain ⟨p, w₁, loaded, hp, hexclude, hw₁, hloaded, hresults, hdiagnostics⟩ :=
    Service.search_ok x.succeeds
  have hk : p.key = k := by
    rw [← x.key, hdiagnostics]
    rfl
  rw [x.asked.filter_eq] at hexclude
  have hquery := x.query_eq hown hv hp hexclude hk
  -- the candidates are those of the rows, one of them that of the other record
  have hstore : w₁.store = σ := by
    rw [hw₁]
    exact x.store
  have hcached : ∀ e, w₁.cache.entry? k = some e → w₁.store.Gives k e.candidates := by
    rw [hstore, hw₁]
    exact x.cached
  rw [hk] at hloaded
  have hgives := Action.candidates_gives hcached hloaded
  rw [hstore] at hgives
  have hdecodes : other ∈ (σ.findRows k.dataset k.field).filter Row.decodes := by
    refine List.mem_filter.mpr ⟨hother, ?_⟩
    rw [Row.decodes, hu]
    rfl
  have hscored : Candidate.ofVector other.recordId u ∈
      loaded.candidates.filter fun c => p.source.exclude ≠ some c.recordId := by
    refine List.mem_filter.mpr ⟨Row.Gives.mem hgives hdecodes hu, decide_eq_true ?_⟩
    rw [hexclude]
    exact fun h => hne (Option.some.inj h)
  -- it is scored once, and nothing is cut off
  have hone : (p.scores loaded.candidates).filter (fun y => y.recordId = other.recordId) =
      [⟨other.recordId, cosine v u⟩] := by
    have hnodup := (Store.nodup_records hgives).sublist ((List.filter_sublist
      (p := fun c => decide (p.source.exclude ≠ some c.recordId))).map Candidate.recordId)
    rw [Comparison.scores, scoreChunk, List.filter_map]
    refine (congrArg _ (filter_eq_of_nodup hnodup hscored)).trans ?_
    rw [hquery, ← cosineWith_magnitude]
    rfl
  have hlimit := x.limit
  rw [hdiagnostics] at hlimit
  rw [hresults, best, List.take_of_length_le (by rw [(ranked_perm _).length_eq]; exact hlimit)]
  exact List.perm_singleton.mp (hone ▸ (ranked_perm _).filter _)

end Scores

/-- Two records of a field with rows that decode, and a search by each of them, whatever the services
are and however many workers they have, whether the candidates are cached or not: the score that the
one record gets is, bit for bit, that which the other one gets. -/
theorem like_search_symmetric {σ : Store} {k : FieldKey} {a b : Row}
    (ha : a ∈ σ.findRows k.dataset k.field) (hb : b ∈ σ.findRows k.dataset k.field)
    (hne : a.recordId ≠ b.recordId) {v u : Embedding} (hv : a.payload.decode = .ok v)
    (hu : b.payload.decode = .ok u) (x : LikeSearch σ k a.recordId)
    (y : LikeSearch σ k b.recordId) :
    x.answer.results.filter (fun z => z.recordId = b.recordId) = [⟨b.recordId, cosine v u⟩] ∧
      y.answer.results.filter (fun z => z.recordId = a.recordId) = [⟨a.recordId, cosine v u⟩] := by
  refine ⟨x.score ha hb hne hv hu, ?_⟩
  rw [cosine_comm]
  exact y.score hb ha hne.symm hu hv

/-- One search loads the candidates, the other one finds them and has more workers. -/
theorem like_search_symmetric_cached :
    let row : String → Embedding → Row := fun id v => ⟨id, "A", "f", .single v, "m", 1, ⟨0, 0⟩⟩
    let σ : Store := ({} : Store).insert (row "q" [1, 2]) |>.insert (row "r" [3, -1])
      |>.insert (row "s" [-2, 0])
    ∃ (x : LikeSearch σ ⟨"A", "f"⟩ "q") (y : LikeSearch σ ⟨"A", "f"⟩ "r"),
      (x.answer.diagnostics.cacheHit = false ∧ x.service.workers = 1) ∧
      (y.answer.diagnostics.cacheHit = true ∧ y.service.workers = 3) ∧
      x.answer.results.filter (fun z => z.recordId = "r") = [⟨"r", cosine [1, 2] [3, -1]⟩] ∧
      y.answer.results.filter (fun z => z.recordId = "q") = [⟨"q", cosine [1, 2] [3, -1]⟩] := by
  intro row σ
  let s : Nat → Service := fun workers =>
    { settings := { ai := { enabled := true } }, providerName := "p", providerAvailable := true,
      workers := workers }
  let w : Cache → World := fun cache =>
    { catalog := { datasets := [⟨"A", "a", [⟨"f", .text, true⟩]⟩] }
      store := σ
      cache := cache
      provider := ⟨"p", true, fun _ _ => .ok ⟨[[1]], "m", none⟩⟩ }
  let full : Cache := (({} : Cache).set 0 ⟨"A", "f"⟩ (σ.candidates ⟨"A", "f"⟩)).2
  have hfull : ∀ e, full.entry? ⟨"A", "f"⟩ = some e → σ.Gives ⟨"A", "f"⟩ e.candidates := by
    intro e he
    have hset : full = _ := (Cache.set_of_stored (by decide +kernel)).2
    rw [hset, Cache.entry?_insert_self] at he
    obtain rfl := Option.some.inj he
    exact σ.gives_candidates _
  have hlimit : 2 ≤ if ({} : QueryLimits).resolve none = 0 then 10
      else ({} : QueryLimits).resolve none := by
    decide
  obtain ⟨x, hx, hxs⟩ := LikeSearch.exists_of_run (s := s 1) (w := w {})
    (r := .byRecord "A" "f" "q") (k := ⟨"A", "f"⟩) (b := false) ⟨rfl, by decide⟩ rfl nofun hlimit
    (by decide +kernel)
  obtain ⟨y, hy, hys⟩ := LikeSearch.exists_of_run (s := s 3) (w := w full)
    (r := .byRecord "A" "f" "r") (k := ⟨"A", "f"⟩) (b := true) ⟨rfl, by decide⟩ rfl hfull hlimit
    (by decide +kernel)
  have hq : row "q" [1, 2] ∈ σ.findRows "A" "f" := by
    refine Store.mem_findRows.mpr ⟨Store.mem_toList.mpr ?_, rfl, rfl⟩
    rw [Store.findRow_insert, if_neg (by decide), Store.findRow_insert, if_neg (by decide),
      Store.findRow_insert, if_pos ⟨rfl, rfl⟩]
  have hr : row "r" [3, -1] ∈ σ.findRows "A" "f" := by
    refine Store.mem_findRows.mpr ⟨Store.mem_toList.mpr ?_, rfl, rfl⟩
    rw [Store.findRow_insert, if_neg (by decide), Store.findRow_insert, if_pos ⟨rfl, rfl⟩]
  have hne : (row "q" [1, 2]).recordId ≠ (row "r" [3, -1]).recordId := by
    decide
  exact ⟨x, y, ⟨hx, congrArg Service.workers hxs⟩, ⟨hy, congrArg Service.workers hys⟩,
    like_search_symmetric hq hr hne rfl rfl x y⟩

end EmbeddingSearch
