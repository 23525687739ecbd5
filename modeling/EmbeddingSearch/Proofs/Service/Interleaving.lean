import EmbeddingSearch.Proofs.Cache.History
import EmbeddingSearch.Proofs.Service.Conduct
import EmbeddingSearch.Proofs.Store.Rows

/-!
# Operations that run at the same time

Any number of operations take turns, one call at a time, and between two calls entries may leave the
cache and time may pass. An entry then agrees with the store, unless some operation has changed the
rows of its key and still has to invalidate it.

## Contents
- `Thread`, `System`, `Move`, `System.step`, `System.run`: operations taking turns.
- `Coherence`: what it takes for a set to agree with a store.
- `System.Coherent`: the invariant that relates the entries, the sets that were loaded and not yet
  stored, and the debts of the operations.
- `System.Coherent.step`, `System.Coherent.run`: it is kept by every move and by every run.
- `entries_current`: records that belong to one dataset each, and any run from an empty cache.
-/

namespace EmbeddingSearch

/-! ## Turns -/

/-- An operation under way: what it has called so far, the latest first, and what is left. -/
structure Thread where
  past : List Event := []
  rest : Program Unit

/-- The next call of a thread. -/
def Thread.step (t : Thread) (w : World) : Thread × World :=
  match t.rest with
  | .done _ => (t, w)
  | .call c next => (⟨⟨c, (w.answer c).1⟩ :: t.past, next (w.answer c).1⟩, (w.answer c).2)

/-- Operations that share a world. -/
structure System where
  world : World
  threads : List Thread := []

/-- What can happen next. -/
inductive Move where
  /-- A service begins with an operation. -/
  | start (s : Service) (o : Operation)
  /-- The operation at this place makes its next call. -/
  | resume (i : Nat)
  /-- The entry of a key leaves the cache. -/
  | drop (k : FieldKey)
  | wait (ms : Nat)

namespace System

def step (σ : System) : Move → System
  | .start s o => { σ with threads := σ.threads ++ [{ rest := o.program s }] }
  | .resume i =>
    match σ.threads[i]? with
    | none => σ
    | some t => ⟨(t.step σ.world).2, σ.threads.set i (t.step σ.world).1⟩
  | .drop k => { σ with world := { σ.world with cache := σ.world.cache.remove k } }
  | .wait ms => { σ with world := { σ.world with now := σ.world.now + ms } }

/-- The system after some moves. -/
def run (σ : System) (moves : List Move) : System := moves.foldl step σ

/-- Whether some operation changed the rows of a key and has still to invalidate it. -/
def Owed (σ : System) (k : FieldKey) : Prop := ∃ t ∈ σ.threads, Owes k t.past

end System

/-! ## Agreement with a store -/

/-- The candidates that a load of a key would give. -/
def Store.candidates (s : Store) (k : FieldKey) : List Candidate :=
  (Loaded.ofRows (s.findRows k.dataset k.field)).candidates

/-- What it takes for a set to agree with a good store: it does when it is loaded, and nothing that
leaves the rows of its key alone changes that. -/
structure Coherence (member : String → String → Prop) (Good : Store → Prop)
    (Fresh : Store → FieldKey → List Candidate → Prop) : Prop where
  load : ∀ {s k}, Good s → Fresh s k (s.candidates k)
  upsert_good : ∀ {s v} now, Good s → member v.recordId v.dataset → Good (s.upsert v now)
  delete_good : ∀ {s} f, Good s → Good (s.delete f).2
  upsert : ∀ {s v k cs} now, Good s → member v.recordId v.dataset → k ≠ ⟨v.dataset, v.field⟩ →
    Fresh s k cs → Fresh (s.upsert v now) k cs
  delete : ∀ {s k cs} f, Good s → (∀ r ∈ (s.delete f).1, k ≠ ⟨r.dataset, r.field⟩) →
    Fresh s k cs → Fresh (s.delete f).2 k cs

/-! ## What a call does to a world -/

namespace World

variable {w : World}

theorem interfered_follows (w : World) : w.cache.Follows w.interfered.cache := by
  have step : ∀ (c : Cache) (x : Interference), c.Follows (x.apply c) := by
    intro c x
    cases x with
    | invalidate k => exact Cache.invalidate_follows c k
    | invalidateDataset d => exact Cache.invalidateDataset_follows c d
    | clear => exact Cache.clear_follows c
  have run : ∀ (xs : List Interference) (c : Cache), c.Follows (xs.foldl Interference.apply c) := by
    intro xs
    induction xs with
    | nil => exact Cache.Follows.refl
    | cons x xs ih => exact fun c => (step c x).trans (ih _)
  exact run w.onLoad w.cache

/-- What an event was and what it did to store and cache. -/
inductive Effect (w w' : World) : Event → Prop
  | upsert (v : NewVector) (store : w'.store = w.store.upsert v (Timestamp.ofMs w.now))
      (cache : w'.cache = w.cache) : Effect w w' ⟨.upsert v, .ok ()⟩
  | delete (f : RowFilter) (store : w'.store = (w.store.delete f).2)
      (cache : w'.cache = w.cache) : Effect w w' ⟨.delete f, .ok (w.store.delete f).1⟩
  | cacheIfUnchanged (k : FieldKey) (cs : List Candidate) (since : Generation) (kept : Bool)
      (store : w'.store = w.store)
      (cache : w'.cache = (w.cache.setIfUnchanged w.now k cs since).2) :
      Effect w w' ⟨.cacheIfUnchanged k cs since, kept⟩
  | generation (store : w'.store = w.store) (cache : w'.cache = w.cache) :
      Effect w w' ⟨.generation, w.cache.generation⟩
  | findRows (d f : String) (store : w'.store = w.store) (cache : w.cache.Follows w'.cache) :
      Effect w w' ⟨.findRows d f, .ok (w.store.findRows d f)⟩
  | other (e : Event) (changes : ∀ k, ¬ Event.Changes k e)
      (generation : ∀ g, e ≠ ⟨.generation, g⟩)
      (findRows : ∀ d f rows, e ≠ ⟨.findRows d f, .ok rows⟩)
      (store : w'.store = w.store) (cache : w.cache.Follows w'.cache)
      (settles : ∀ k, Event.Settles k e → w.cache.Forgets w'.cache k) : Effect w w' e

/-- A call that is answered without an effect. -/
theorem Effect.idle {w w' : World} {e : Event} (changes : ∀ k, ¬ Event.Changes k e)
    (settles : ∀ k, ¬ Event.Settles k e) (generation : ∀ g, e ≠ ⟨.generation, g⟩)
    (findRows : ∀ d f rows, e ≠ ⟨.findRows d f, .ok rows⟩) (store : w'.store = w.store)
    (cache : w'.cache = w.cache) : Effect w w' e :=
  .other e changes generation findRows store (cache ▸ Cache.Follows.refl w.cache)
    fun k hk => absurd hk (settles k)

theorem answer_effect (w : World) (c : Call) :
    Effect w (w.answer c).2 ⟨c, (w.answer c).1⟩ := by
  cases c with
  | findDataset s =>
    rcases attempt_cases w (.findDataset s) fun w => (w.catalog.findDataset s, w) with ⟨e, h⟩ | h
    all_goals
      rw [answer, h]
      exact .idle (fun _ => id) (fun _ => id) nofun nofun rfl rfl
  | listRecords d =>
    rcases attempt_cases w (.listRecords d) fun w => (w.catalog.listRecords d, w) with ⟨e, h⟩ | h
    all_goals
      rw [answer, h]
      exact .idle (fun _ => id) (fun _ => id) nofun nofun rfl rfl
  | findRecord d id' =>
    rcases attempt_cases w (.findRecord d id') fun w => (w.catalog.findRecord d id', w) with
      ⟨e, h⟩ | h
    all_goals
      rw [answer, h]
      exact .idle (fun _ => id) (fun _ => id) nofun nofun rfl rfl
  | findRow r f =>
    rcases attempt_cases w (.findRow r f) fun w => (w.store.findRow r f, w) with ⟨e, h⟩ | h
    all_goals
      rw [answer, h]
      exact .idle (fun _ => id) (fun _ => id) nofun nofun rfl rfl
  | findRows d f =>
    rcases attempt_cases w (.findRows d f) fun w => (w.store.findRows d f, w.interfered) with
      ⟨e, h⟩ | h
    · rw [answer, h]
      exact .idle (fun _ => id) (fun _ => id) nofun nofun rfl rfl
    · rw [answer, h]
      exact .findRows d f rfl (interfered_follows { w with calls := w.calls + 1 })
  | upsert v =>
    rcases attempt_cases w (.upsert v) fun w =>
      ((), { w with store := w.store.upsert v (Timestamp.ofMs w.now) }) with ⟨e, h⟩ | h
    · rw [answer, h]
      exact .idle (fun _ => id) (fun _ => id) nofun nofun rfl rfl
    · rw [answer, h]
      exact .upsert v rfl rfl
  | delete f =>
    rcases attempt_cases w (.delete f) fun w =>
      ((w.store.delete f).1, { w with store := (w.store.delete f).2 }) with ⟨e, h⟩ | h
    · rw [answer, h]
      exact .idle (fun _ => id) (fun _ => id) nofun nofun rfl rfl
    · rw [answer, h]
      exact .delete f rfl rfl
  | embed r => exact .idle (fun _ => id) (fun _ => id) nofun nofun rfl rfl
  | cached k =>
    exact .other _ (fun _ => id) nofun nofun rfl (Cache.get_follows w.cache w.now k)
      fun _ => False.elim
  | generation => exact .generation rfl rfl
  | cacheIfUnchanged k cs since => exact .cacheIfUnchanged k cs since _ rfl rfl
  | invalidate k =>
    refine .other _ (fun _ => id) nofun nofun rfl (Cache.invalidate_follows w.cache k) ?_
    rintro k' rfl
    exact Cache.invalidate_forgets w.cache k'
  | invalidateDataset d =>
    exact .other _ (fun _ => id) nofun nofun rfl (Cache.invalidateDataset_follows w.cache d)
      fun _ hd => Cache.invalidateDataset_forgets w.cache hd
  | clearCache =>
    exact .other _ (fun _ => id) nofun nofun rfl (Cache.clear_follows w.cache)
      fun k _ => Cache.clear_forgets w.cache k
  | cacheInfo => exact .idle (fun _ => id) (fun _ => id) nofun nofun rfl rfl
  | cacheStats => exact .idle (fun _ => id) (fun _ => id) nofun nofun rfl rfl

/-- The answers of a world are allowed when the records of its catalog are where they belong. -/
theorem answer_allowed {member : String → String → Prop}
    (h : ∀ p ∈ w.catalog.records, member p.2.id p.1) (c : Call) :
    (coherent member).allows c (w.answer c).1 := by
  have listed : ∀ {d : String} {r : Record}, r ∈ w.catalog.listRecords d → member r.id d := by
    intro d r hr
    obtain ⟨p, hp, rfl⟩ := List.mem_map.mp hr
    obtain ⟨hp, hd⟩ := List.mem_filter.mp hp
    exact of_decide_eq_true hd ▸ h p hp
  have hcatalog := w.answer_catalog c
  cases c with
  | listRecords d =>
    generalize (w.answer (.listRecords d)).1 = answer at hcatalog
    cases answer with
    | error e => trivial
    | ok records =>
      obtain rfl : records = w.catalog.listRecords d := hcatalog
      exact fun r hr => listed hr
  | findRecord d id =>
    generalize (w.answer (.findRecord d id)).1 = answer at hcatalog
    match answer, hcatalog with
    | .error e, _ => trivial
    | .ok none, _ => trivial
    | .ok (some r), hfound => exact listed (List.mem_of_find?_eq_some hfound.symm)
  | delete f =>
    rcases attempt_cases w (.delete f) fun w =>
      ((w.store.delete f).1, { w with store := (w.store.delete f).2 }) with ⟨e, hw⟩ | hw
    · rw [answer, hw]
      trivial
    · rw [answer, hw]
      exact fun r hr => (List.mem_filter.mp hr).2
  | _ => trivial

end World

/-! ## The invariant -/

section Invariant

variable {member : String → String → Prop} {Good : Store → Prop}
  {Fresh : Store → FieldKey → List Candidate → Prop}

namespace System

/-- Whether entries agree with the store, up to the debts of the threads. A set that was loaded and
not yet stored agrees in the same way, or the cache is going to refuse it. -/
structure Coherent (member : String → String → Prop) (Good : Store → Prop)
    (Fresh : Store → FieldKey → List Candidate → Prop) (σ : System) : Prop where
  store : Good σ.world.store
  catalog : ∀ p ∈ σ.world.catalog.records, member p.2.id p.1
  conduct : ∀ t ∈ σ.threads,
    t.rest.Obeys (coherent member) (fun past _ => Settled past) t.past
  taken : ∀ t ∈ σ.threads, ∀ since : Generation, (⟨.generation, since⟩ : Event) ∈ t.past →
    since.invalidations ≤ σ.world.cache.history.count
  loaded : ∀ t ∈ σ.threads, ∀ k cs since, JustLoaded t.past k cs since →
    σ.world.cache.history.touchedSince k since = true ∨ σ.Owed k ∨ Fresh σ.world.store k cs
  entries : ∀ e ∈ σ.world.cache.entries, σ.Owed e.key ∨ Fresh σ.world.store e.key e.candidates

/-- With nobody at work, the entries have to agree with the store. -/
theorem Coherent.idle {w : World} (hgood : Good w.store)
    (hcatalog : ∀ p ∈ w.catalog.records, member p.2.id p.1)
    (hentries : ∀ e ∈ w.cache.entries, Fresh w.store e.key e.candidates) :
    Coherent member Good Fresh { world := w } where
  store := hgood
  catalog := hcatalog
  conduct _ ht := absurd ht List.not_mem_nil
  taken _ ht := absurd ht List.not_mem_nil
  loaded _ ht := absurd ht List.not_mem_nil
  entries e he := .inr (hentries e he)

/-- With nobody at work, nothing is owed. -/
theorem Coherent.current {w : World} (h : Coherent member Good Fresh { world := w })
    {e : Cache.Entry} (he : e ∈ w.cache.entries) : Fresh w.store e.key e.candidates := by
  refine (h.entries e he).resolve_left ?_
  rintro ⟨t, ht, -⟩
  cases ht

/-! ### Threads -/

theorem set_same {threads : List Thread} {i : Nat} {t : Thread} (hi : threads[i]? = some t) :
    threads.set i t = threads := by
  obtain ⟨hlt, rfl⟩ := List.getElem?_eq_some_iff.mp hi
  exact List.set_getElem_self hlt

theorem mem_set_cases {threads : List Thread} {i : Nat} {t t' : Thread}
    (ht : t ∈ threads.set i t') : t = t' ∨ t ∈ threads :=
  (List.mem_or_eq_of_mem_set ht).symm

/-- A debt is kept by the next call of a thread, unless it settles it. -/
theorem Owed.set {σ : System} {k : FieldKey} (h : σ.Owed k) {i : Nat} {t : Thread}
    (hi : σ.threads[i]? = some t) {e : Event} {rest : Program Unit} {w : World}
    (he : ¬ Event.Settles k e) : Owed ⟨w, σ.threads.set i ⟨e :: t.past, rest⟩⟩ k := by
  obtain ⟨t₀, ht₀, howes⟩ := h
  obtain ⟨j, hj⟩ := List.mem_iff_getElem?.mp ht₀
  by_cases hij : i = j
  · obtain rfl : t = t₀ := by
      rw [hij, hj] at hi
      exact (Option.some.inj hi).symm
    exact ⟨_, List.mem_set (List.getElem?_eq_some_iff.mp hi).1 _, he, .inr howes⟩
  · refine ⟨t₀, List.mem_iff_getElem?.mpr ⟨j, ?_⟩, howes⟩
    rw [List.getElem?_set_ne hij, hj]

/-- A call that changes the rows of a key makes a debt. -/
theorem owed_of_changes {σ : System} {k : FieldKey} {i : Nat} {t : Thread}
    (hi : σ.threads[i]? = some t) {e : Event} {rest : Program Unit} {w : World}
    (hc : Event.Changes k e) (hs : ¬ Event.Settles k e) :
    Owed ⟨w, σ.threads.set i ⟨e :: t.past, rest⟩⟩ k :=
  ⟨_, List.mem_set (List.getElem?_eq_some_iff.mp hi).1 _, hs, .inl hc⟩

/-! ### Stores -/

theorem good_of_effect (hco : Coherence member Good Fresh) {w w' : World} {e : Event}
    (heff : World.Effect w w' e) {past : List Event} (hlegal : (coherent member).legal past e.1)
    (hgood : Good w.store) : Good w'.store := by
  cases heff with
  | upsert v store => exact store ▸ hco.upsert_good _ hgood hlegal
  | delete f store => exact store ▸ hco.delete_good f hgood
  | cacheIfUnchanged k cs since kept store => exact store ▸ hgood
  | generation store => exact store ▸ hgood
  | findRows d f store => exact store ▸ hgood
  | other e _ _ _ store => exact store ▸ hgood

/-- A set agrees with the store as long as the rows of its key are left alone. -/
theorem fresh_of_effect (hco : Coherence member Good Fresh) {w w' : World} {e : Event}
    (heff : World.Effect w w' e) {past : List Event} (hlegal : (coherent member).legal past e.1)
    (hgood : Good w.store) {k : FieldKey} {cs : List Candidate} (hk : ¬ Event.Changes k e)
    (hfresh : Fresh w.store k cs) : Fresh w'.store k cs := by
  cases heff with
  | upsert v store => exact store ▸ hco.upsert _ hgood hlegal hk hfresh
  | delete f store =>
    exact store ▸ hco.delete f hgood (fun r hr heq => hk ⟨r, hr, heq⟩) hfresh
  | cacheIfUnchanged k cs since kept store => exact store ▸ hfresh
  | generation store => exact store ▸ hfresh
  | findRows d f store => exact store ▸ hfresh
  | other e _ _ _ store => exact store ▸ hfresh

/-! ### Caches -/

theorem count_le_of_effect {w w' : World} {e : Event} (heff : World.Effect w w' e) :
    w.cache.history.count ≤ w'.cache.history.count := by
  cases heff with
  | upsert v _ cache => rw [cache]
  | delete f _ cache => rw [cache]
  | cacheIfUnchanged k cs since kept _ cache =>
    rcases Cache.setIfUnchanged_cases w.cache w.now k cs since with h | ⟨-, h, -⟩
    · rw [cache, h]
    · rw [cache, h]
  | generation _ cache => rw [cache]
  | findRows d f _ cache => exact cache.count_le
  | other e _ _ _ _ cache => exact cache.count_le

theorem touched_of_effect {w w' : World} {e : Event} (heff : World.Effect w w' e) {k : FieldKey}
    {since : Generation} (hs : since.invalidations ≤ w.cache.history.count)
    (ht : w.cache.history.touchedSince k since = true ∨ Event.Settles k e) :
    w'.cache.history.touchedSince k since = true := by
  cases heff with
  | upsert v _ cache => exact cache ▸ ht.resolve_right id
  | delete f _ cache => exact cache ▸ ht.resolve_right id
  | cacheIfUnchanged k' cs since' kept _ cache =>
    rcases Cache.setIfUnchanged_cases w.cache w.now k' cs since' with h | ⟨-, h, -⟩
    · rw [cache, h]
      exact ht.resolve_right id
    · rw [cache, h]
      exact ht.resolve_right id
  | generation _ cache => exact cache ▸ ht.resolve_right id
  | findRows d f _ cache => exact cache.touched k since hs (ht.resolve_right id)
  | other e _ _ _ _ cache settles =>
    rcases ht with ht | ht
    · exact cache.touched k since hs ht
    · exact (settles k ht).touched since hs

/-- An entry was there before under the same key, or it is a set that was loaded, and its key has
not just been invalidated. -/
theorem entry_of_effect {w w' : World} {e : Event} (heff : World.Effect w w' e) {x : Cache.Entry}
    (hx : x ∈ w'.cache.entries) : ¬ Event.Settles x.key e ∧
      ((∃ x' ∈ w.cache.entries, x'.key = x.key ∧ x'.candidates = x.candidates) ∨
        ∃ since kept, e = ⟨.cacheIfUnchanged x.key x.candidates since, kept⟩ ∧
          w.cache.history.touchedSince x.key since = false) := by
  cases heff with
  | upsert v _ cache => exact ⟨id, .inl ⟨x, cache ▸ hx, rfl, rfl⟩⟩
  | delete f _ cache => exact ⟨id, .inl ⟨x, cache ▸ hx, rfl, rfl⟩⟩
  | cacheIfUnchanged k cs since kept _ cache =>
    refine ⟨id, ?_⟩
    rcases Cache.setIfUnchanged_cases w.cache w.now k cs since with h | ⟨ht, -, h⟩
    · exact .inl ⟨x, (cache.trans h) ▸ hx, rfl, rfl⟩
    · rcases h x (cache ▸ hx) with ⟨rfl, rfl⟩ | hx
      · exact .inr ⟨since, kept, rfl, ht⟩
      · exact .inl ⟨x, hx, rfl, rfl⟩
  | generation _ cache => exact ⟨id, .inl ⟨x, cache ▸ hx, rfl, rfl⟩⟩
  | findRows d f _ cache => exact ⟨id, .inl (cache.entries x hx)⟩
  | other e _ _ _ _ cache settles =>
    exact ⟨fun hs => (settles x.key hs).entries x hx rfl, .inl (cache.entries x hx)⟩

/-! ### Moves -/

/-- What was loaded, was loaded after an earlier point of the history. -/
theorem Coherent.since_le {σ : System} (h : σ.Coherent member Good Fresh) {t : Thread}
    (ht : t ∈ σ.threads) {k : FieldKey} {cs : List Candidate} {since : Generation}
    (hloaded : JustLoaded t.past k cs since) :
    since.invalidations ≤ σ.world.cache.history.count := by
  obtain ⟨rows, earlier, hpast, -⟩ := hloaded
  refine h.taken t ht since ?_
  rw [hpast]
  exact List.mem_cons_of_mem _ List.mem_cons_self

section Event

variable {σ : System} {i : Nat} {t : Thread} {e : Event} {w' : World} {rest : Program Unit}

/-- What is not invalidated stays as it is, or becomes a debt. -/
theorem Coherent.keep (hco : Coherence member Good Fresh) (h : σ.Coherent member Good Fresh)
    (hi : σ.threads[i]? = some t) (heff : World.Effect σ.world w' e)
    (hlegal : (coherent member).legal t.past e.1) {k : FieldKey} {cs : List Candidate}
    (hs : ¬ Event.Settles k e) (hk : σ.Owed k ∨ Fresh σ.world.store k cs) :
    Owed ⟨w', σ.threads.set i ⟨e :: t.past, rest⟩⟩ k ∨ Fresh w'.store k cs := by
  by_cases hc : Event.Changes k e
  · exact .inl (owed_of_changes hi hc hs)
  · exact hk.imp (fun howed => howed.set hi hs)
      (fresh_of_effect hco heff hlegal h.store hc)

/-- No generation is ahead of the history. -/
theorem Coherent.event_taken (h : σ.Coherent member Good Fresh) (hi : σ.threads[i]? = some t)
    (heff : World.Effect σ.world w' e) {t₂ : Thread}
    (ht₂ : t₂ ∈ σ.threads.set i ⟨e :: t.past, rest⟩) {since : Generation}
    (hmem : (⟨.generation, since⟩ : Event) ∈ t₂.past) :
    since.invalidations ≤ w'.cache.history.count := by
  have hcount := count_le_of_effect heff
  rcases mem_set_cases ht₂ with rfl | ht₂
  · rcases List.mem_cons.mp hmem with heq | hmem
    · subst heq
      cases heff with
      | generation => exact hcount
      | other e _ hg => exact absurd rfl (hg since)
    · exact (h.taken t (List.mem_iff_getElem?.mpr ⟨i, hi⟩) since hmem).trans hcount
  · exact (h.taken t₂ ht₂ since hmem).trans hcount

/-- A set that was just read is what the store holds. -/
theorem fresh_of_loaded (hco : Coherence member Good Fresh) (hgood : Good w'.store) {w : World}
    (heff : World.Effect w w' e) {past : List Event} {k : FieldKey} {cs : List Candidate}
    {since : Generation} (hloaded : JustLoaded (e :: past) k cs since) : Fresh w'.store k cs := by
  obtain ⟨rows, earlier, hpast, rfl⟩ := hloaded
  obtain ⟨rfl, -⟩ := List.cons_eq_cons.mp hpast
  cases heff with
  | findRows d f store =>
    have hrows : (Loaded.ofRows (w.store.findRows k.dataset k.field)).candidates =
        w'.store.candidates k := by rw [Store.candidates, store]
    rw [hrows]
    exact hco.load hgood
  | other e _ _ hr => exact absurd rfl (hr k.dataset k.field rows)

/-- The next call of a thread keeps the invariant. -/
theorem Coherent.event (hco : Coherence member Good Fresh) (h : σ.Coherent member Good Fresh)
    (hi : σ.threads[i]? = some t) (heff : World.Effect σ.world w' e)
    (hcatalog : w'.catalog = σ.world.catalog) (hlegal : (coherent member).legal t.past e.1)
    (hrest : rest.Obeys (coherent member) (fun past _ => Settled past) (e :: t.past)) :
    Coherent member Good Fresh ⟨w', σ.threads.set i ⟨e :: t.past, rest⟩⟩ := by
  have ht : t ∈ σ.threads := List.mem_iff_getElem?.mpr ⟨i, hi⟩
  have hgood := good_of_effect hco heff hlegal h.store
  refine ⟨hgood, ?_, ?_, ?_, ?_, ?_⟩
  · rw [hcatalog]
    exact h.catalog
  · intro t₂ ht₂
    rcases mem_set_cases ht₂ with rfl | ht₂
    · exact hrest
    · exact h.conduct t₂ ht₂
  · intro t₂ ht₂ since hmem
    exact h.event_taken hi heff ht₂ hmem
  · intro t₂ ht₂ k cs since hloaded
    rcases mem_set_cases ht₂ with rfl | ht₂
    · exact .inr (.inr (fresh_of_loaded hco hgood heff hloaded))
    · -- of another thread: it still agrees, or the invalidation makes the cache refuse it
      have hsince := h.since_le ht₂ hloaded
      by_cases hs : Event.Settles k e
      · exact .inl (touched_of_effect heff hsince (.inr hs))
      · rcases h.loaded t₂ ht₂ k cs since hloaded with htouched | hk
        · exact .inl (touched_of_effect heff hsince (.inl htouched))
        · exact .inr (h.keep hco hi heff hlegal hs hk)
  · -- what is put into the cache was just loaded, and its key has not been touched since
    intro x hx
    obtain ⟨hs, ⟨x', hx', hkey, hcs⟩ | ⟨since, kept, rfl, htouched⟩⟩ := entry_of_effect heff hx
    · exact h.keep hco hi heff hlegal hs (hkey ▸ hcs ▸ h.entries x' hx')
    · refine h.keep hco hi heff hlegal hs ?_
      refine (h.loaded t ht x.key x.candidates since hlegal).resolve_left ?_
      exact Bool.eq_false_iff.mp htouched

end Event

/-- Entries may leave the cache, and time may pass. -/
theorem Coherent.forget {σ : System} (h : σ.Coherent member Good Fresh) {w' : World}
    (hstore : w'.store = σ.world.store) (hcatalog : w'.catalog = σ.world.catalog)
    (hcache : σ.world.cache.Follows w'.cache) :
    Coherent member Good Fresh { σ with world := w' } where
  store := hstore ▸ h.store
  catalog := hcatalog ▸ h.catalog
  conduct := h.conduct
  taken t ht since hmem := (h.taken t ht since hmem).trans hcache.count_le
  loaded t ht k cs since hloaded := by
    rcases h.loaded t ht k cs since hloaded with htouched | hk
    · exact .inl (hcache.touched k since (h.since_le ht hloaded) htouched)
    · exact .inr (hstore ▸ hk)
  entries x hx := by
    obtain ⟨x', hx', hkey, hcs⟩ := hcache.entries x hx
    have := h.entries x' hx'
    rw [hkey, hcs] at this
    exact hstore ▸ this

/-- A new operation has called nothing yet. -/
theorem Coherent.start {σ : System} (h : σ.Coherent member Good Fresh) (s : Service)
    (o : Operation) : (σ.step (.start s o)).Coherent member Good Fresh := by
  have howed : ∀ k, σ.Owed k → (σ.step (.start s o)).Owed k := by
    rintro k ⟨t, ht, hk⟩
    exact ⟨t, List.mem_append_left _ ht, hk⟩
  have cases_of_mem : ∀ t ∈ (σ.step (.start s o)).threads,
      t ∈ σ.threads ∨ t = { rest := o.program s } := fun t ht =>
    (List.mem_append.mp ht).imp_right List.mem_singleton.mp
  refine ⟨h.store, h.catalog, ?_, ?_, ?_, fun x hx => (h.entries x hx).imp_left (howed x.key)⟩
  · intro t ht
    rcases cases_of_mem t ht with ht | rfl
    · exact h.conduct t ht
    · exact (o.tidy s [] settled_nil).mono fun _ _ => And.left
  · intro t ht since hmem
    rcases cases_of_mem t ht with ht | rfl
    · exact h.taken t ht since hmem
    · cases hmem
  · intro t ht k cs since hloaded
    rcases cases_of_mem t ht with ht | rfl
    · exact (h.loaded t ht k cs since hloaded).imp_right fun hk => hk.imp_left (howed k)
    · obtain ⟨rows, earlier, hpast, -⟩ := hloaded
      cases hpast

/-- Every move keeps the invariant. -/
theorem Coherent.step (hco : Coherence member Good Fresh) {σ : System}
    (h : σ.Coherent member Good Fresh) (m : Move) : (σ.step m).Coherent member Good Fresh := by
  cases m with
  | start s o => exact h.start s o
  | drop k => exact h.forget rfl rfl (Cache.remove_follows σ.world.cache k)
  | wait ms => exact h.forget rfl rfl (Cache.Follows.refl σ.world.cache)
  | resume i =>
    unfold System.step
    dsimp only
    split
    · exact h
    · next t hi =>
      have ht : t ∈ σ.threads := List.mem_iff_getElem?.mpr ⟨i, hi⟩
      have hconduct := h.conduct t ht
      obtain ⟨past, rest⟩ := t
      cases rest with
      | done u =>
        unfold Thread.step
        rw [set_same hi]
        exact h
      | call c next =>
        exact h.event hco hi (World.answer_effect σ.world c)
          (World.answer_fixed σ.world c).1 hconduct.1
          (hconduct.2 _ (World.answer_allowed h.catalog c))

/-- Every run keeps the invariant. -/
theorem Coherent.run (hco : Coherence member Good Fresh) {σ : System}
    (h : σ.Coherent member Good Fresh) (moves : List Move) :
    (σ.run moves).Coherent member Good Fresh := by
  induction moves generalizing σ with
  | nil => exact h
  | cons m moves ih => exact ih (h.step hco m)

end System

end Invariant

/-! ## Records of one dataset -/

/-- Whether every record has its rows in its own dataset. -/
def Store.Homed (home : String → String) (s : Store) : Prop :=
  ∀ r ∈ s.toList, home r.recordId = r.dataset

/-- With one dataset for each record, a set agrees with the store when it is what a load gives. -/
theorem coherence_homed (home : String → String) :
    Coherence (fun id d => home id = d) (Store.Homed home)
      (fun s k cs => cs = s.candidates k) where
  load _ := rfl
  upsert_good now h hv := by
    intro r hr
    rcases Store.mem_toList_upsert hr with rfl | hr
    · exact hv
    · exact h r hr
  delete_good f h r hr := h r (Store.mem_toList_delete hr)
  upsert {s v k cs} now h hv hk hfresh := by
    have hne : ¬ (v.dataset = k.dataset ∧ v.field = k.field) := fun heq => hk (by rw [heq.1, heq.2])
    rw [hfresh, Store.candidates, Store.candidates, Store.findRows_upsert hne, eq_comm,
      List.filter_eq_self.mpr]
    -- a row of `k` with the key of the vector would belong to the record's own dataset
    intro r hr
    obtain ⟨hmem, hd, hf⟩ := Store.mem_findRows.mp hr
    refine decide_eq_true fun hkey => hne ?_
    obtain ⟨hid, hfield⟩ := RowKey.mk.inj hkey
    refine ⟨?_, hfield ▸ hf⟩
    rw [← hv, ← hid, h r hmem, hd]
  delete {s k cs} f h hk hfresh := by
    rw [hfresh, Store.candidates, Store.candidates, Store.findRows_delete_of_not_mem]
    exact fun r hr heq => hk r hr (by rw [heq.1, heq.2])

/-- Whatever searches, writers and removals do at the same time, and whatever leaves the cache
meanwhile: an entry whose key nobody still has to invalidate is what the store holds. What is
finished has nothing to invalidate. -/
theorem entries_current (home : String → String) {w : World} (hcache : w.cache.entries = [])
    (hrows : ∀ r ∈ w.store.toList, home r.recordId = r.dataset)
    (hrecords : ∀ p ∈ w.catalog.records, home p.2.id = p.1) (moves : List Move) :
    let σ := System.run { world := w } moves
    (∀ e ∈ σ.world.cache.entries, (∀ t ∈ σ.threads, ¬ Owes e.key t.past) →
        e.candidates =
          (Loaded.ofRows (σ.world.store.findRows e.key.dataset e.key.field)).candidates) ∧
      ∀ t ∈ σ.threads, t.rest = .done () → ∀ k, ¬ Owes k t.past := by
  intro σ
  have hstart : System.Coherent (fun id d => home id = d) (Store.Homed home)
      (fun s k cs => cs = s.candidates k) { world := w } := by
    refine .idle hrows hrecords ?_
    intro e he
    rw [hcache] at he
    cases he
  have h := hstart.run (coherence_homed home) moves
  refine ⟨fun e he hpaid => ?_, fun t ht hdone => ?_⟩
  · refine (h.entries e he).resolve_left ?_
    rintro ⟨t, ht, howes⟩
    exact hpaid t ht howes
  · have hconduct := h.conduct t ht
    rw [hdone] at hconduct
    exact hconduct

/-- Two searches have read their rows when a run stores a new vector. One of them puts its set into
the cache while the run still has to invalidate the key, and the set does not agree with the store;
the other one comes after the invalidation and is refused. When all of them are done, nothing is
owed, and a third search has put what the store holds into the cache. -/
theorem entries_current_raced :
    let row : Row := ⟨"r", "d", "f", .single [1], "m", 1, ⟨0, 0⟩⟩
    let s : Service :=
      { settings := { ai := { enabled := true } }, providerName := "p", providerAvailable := true }
    let w : World :=
      { catalog :=
          { datasets := [⟨"d", "D", [⟨"f", .text, true⟩]⟩]
            records := [("d", ⟨"r", [("f", .string "t")]⟩)] }
        store := ({} : Store).insert row
        provider := ⟨"p", true, fun _ _ => .ok ⟨[[2]], "m", none⟩⟩ }
    let search : Operation := .search (.byRecord "d" "f" "r")
    let turns : Nat → Nat → List Move := fun i n => List.replicate n (.resume i)
    let begun : List Move :=
      [.start s search, .start s search, .start s (.generate (.ofField "d" "f"))]
    let stored := begun ++ turns 0 5 ++ turns 1 5 ++ turns 2 4 ++ turns 0 1
    let refused := stored ++ turns 2 1 ++ turns 1 2 ++ turns 0 1
    let done := refused ++ [Move.start s search] ++ turns 3 7
    let σ : List Move → System := System.run { world := w }
    let cached : List Move → List (FieldKey × List Embedding) := fun moves =>
      (σ moves).world.cache.entries.map fun e => (e.key, e.candidates.map Candidate.vector)
    (cached stored = [(⟨"d", "f"⟩, [[1]])] ∧
        ((σ stored).world.store.candidates ⟨"d", "f"⟩).map Candidate.vector = [[2]] ∧
        ∃ t ∈ (σ stored).threads, Owes ⟨"d", "f"⟩ t.past) ∧
      cached refused = [] ∧ cached done = [(⟨"d", "f"⟩, [[2]])] ∧
      (∀ t ∈ (σ done).threads, ¬ Owes ⟨"d", "f"⟩ t.past) ∧
      ∀ e ∈ (σ done).world.cache.entries, e.candidates =
        (Loaded.ofRows ((σ done).world.store.findRows e.key.dataset e.key.field)).candidates := by
  intro row s w search turns begun stored refused done σ cached
  have hrows : ∀ r ∈ w.store.toList, "d" = r.dataset := by
    intro r hr
    rw [List.mem_singleton.mp hr]
  have hrecords : ∀ p ∈ w.catalog.records, "d" = p.1 := by
    intro p hp
    rw [List.mem_singleton.mp hp]
  have hcurrent : ∀ moves,
      (∀ e ∈ (σ moves).world.cache.entries, (∀ t ∈ (σ moves).threads, ¬ Owes e.key t.past) →
        e.candidates = (Loaded.ofRows
          ((σ moves).world.store.findRows e.key.dataset e.key.field)).candidates) ∧
        ∀ t ∈ (σ moves).threads, t.rest = .done () → ∀ k, ¬ Owes k t.past :=
    entries_current (fun _ => "d") rfl hrows hrecords
  -- what is cached without a debt is what the store holds
  have hpaid : ∀ moves k vs, cached moves = [(k, vs)] →
      (∀ t ∈ (σ moves).threads, ¬ Owes k t.past) →
        vs = ((σ moves).world.store.candidates k).map Candidate.vector := by
    intro moves k vs hcached hpaid
    obtain ⟨e, he, hentry⟩ := List.map_eq_singleton_iff.mp hcached
    simp only [Prod.mk.injEq] at hentry
    obtain ⟨rfl, rfl⟩ := hentry
    exact congrArg _ ((hcurrent moves).1 e (he ▸ List.mem_cons_self) hpaid)
  have hsettled : ∀ t ∈ (σ done).threads, ∀ k, ¬ Owes k t.past := by
    have hfinished : ((σ done).threads.all fun t => match t.rest with
        | .done _ => true
        | .call _ _ => false) = true := by decide +kernel
    intro t ht
    have hrest := List.all_eq_true.mp hfinished t ht
    refine (hcurrent done).2 t ht ?_
    split at hrest
    · assumption
    · cases hrest
  have hcached : cached stored = [(⟨"d", "f"⟩, [[1]])] := by decide +kernel
  have hnew : ((σ stored).world.store.candidates ⟨"d", "f"⟩).map Candidate.vector = [[2]] := by
    decide +kernel
  have hdiffer : ([[1]] : List Embedding) ≠ [[2]] := by decide
  refine ⟨⟨hcached, hnew, ?_⟩, by decide +kernel, by decide +kernel,
    fun t ht => hsettled t ht _, fun e he => (hcurrent done).1 e he fun t ht => hsettled t ht e.key⟩
  by_contra howed
  refine hdiffer ((hpaid stored _ _ hcached ?_).trans hnew)
  exact fun t ht howes => howed ⟨t, ht, howes⟩

end EmbeddingSearch
