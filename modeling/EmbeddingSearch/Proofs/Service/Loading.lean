import EmbeddingSearch.Proofs.Cache.Eviction
import EmbeddingSearch.Proofs.Cache.Hits
import EmbeddingSearch.Proofs.Cache.Lookup
import EmbeddingSearch.Proofs.Service.Selection
import EmbeddingSearch.Proofs.Service.Transparency
import EmbeddingSearch.Proofs.Store.Decoding

/-!
# Loading candidates

Each row of a field gives a candidate, or it cannot be decoded and is left out; it has no effect on
the others. The set that was loaded is put in the cache, unless it is too large or its key was
invalidated during the load.

## Contents
- `Row.Gives`, `Row.Reports`, `Store.Gives`: what a row gives, or is said to fail with, and what the
  rows of a field give.
- `Loaded.ofRows_candidates`, `Loaded.ofRows_errors`, `Loaded.ofRows_stored`: what some rows give,
  what is said of the others, and that each row is one or the other.
- `Action.candidates_hit`, `Action.candidates_miss`, `Action.candidates_ok`: the candidates of a key,
  and the world after it.
- `World.Timely`, `World.Timely.after`: no invalidation lies ahead, whatever is done in a world.
- `World.Timely.offer_refused_iff`, `World.offer_taken`, `World.offer_refused`: what becomes of the set
  that was loaded.
- `decoding_exact`: what decodes, what is said of the rest, and that a row fails alone.
-/

namespace EmbeddingSearch

/-! ## Rows -/

namespace Row

/-- Whether the vector of a row can be decoded. -/
def decodes (r : Row) : Bool := r.payload.decode.isOk

/-- Whether a candidate is that of a row: its record and vector, and the magnitude of this vector. -/
structure Gives (r : Row) (c : Candidate) : Prop where
  record : c.recordId = r.recordId
  decoded : r.payload.decode = .ok c.vector
  magnitude : c.magnitude = EmbeddingSearch.magnitude c.vector

/-- Whether a text says why the vector of a row cannot be decoded. -/
def Reports (r : Row) (text : String) : Prop :=
  ∃ e, r.payload.decode = .error e ∧ text = s!"record {r.recordId}: {e.message}"

/-- A row gives a candidate, or there is a reason why it does not. -/
theorem candidate_cases (r : Row) :
    (r.decodes = true ∧ ∃ c, r.candidate = .ok c ∧ r.Gives c) ∨
      (r.decodes = false ∧ ∃ text, r.candidate = .error text ∧ r.Reports text) := by
  unfold candidate decodes
  cases hdecode : r.payload.decode with
  | ok v => exact .inl ⟨rfl, _, rfl, rfl, hdecode, rfl⟩
  | error e => exact .inr ⟨rfl, _, rfl, e, hdecode, rfl⟩

end Row

namespace Loaded

/-- The candidates of some rows are those of the rows that can be decoded, in their order. -/
theorem ofRows_candidates (rows : List Row) :
    List.Forall₂ Row.Gives (rows.filter Row.decodes) (ofRows rows).candidates := by
  rw [candidates_ofRows]
  induction rows with
  | nil => exact .nil
  | cons r rows ih =>
    rcases r.candidate_cases with ⟨hdecodes, c, hc, hgives⟩ | ⟨hdecodes, text, htext, -⟩
    · rw [List.filter_cons_of_pos hdecodes, List.filterMap_cons, hc]
      exact .cons hgives ih
    · rw [List.filter_cons_of_neg (by rw [hdecodes]; exact Bool.false_ne_true), List.filterMap_cons,
        htext]
      exact ih

/-- The reasons why some rows give no candidate. -/
theorem ofRows_failures (rows : List Row) : List.Forall₂ Row.Reports
    (rows.filter fun r => !r.decodes) ((rows.map Row.candidate).filterMap failure?) := by
  induction rows with
  | nil => exact .nil
  | cons r rows ih =>
    rcases r.candidate_cases with ⟨hdecodes, c, hc, -⟩ | ⟨hdecodes, text, htext, hreports⟩
    · rw [List.filter_cons_of_neg (by rw [hdecodes]; exact Bool.false_ne_true), List.map_cons, hc]
      exact ih
    · rw [List.filter_cons_of_pos (by rw [hdecodes]; rfl), List.map_cons, htext]
      exact .cons hreports ih

/-- As many rows fail as cannot be decoded. -/
theorem ofRows_failed (rows : List Row) :
    (ofRows rows).failed = rows.countP fun r => !r.decodes := by
  rw [List.countP_eq_length_filter]
  exact (ofRows_failures rows).length_eq.symm

/-- The first reasons are kept, in the order of the rows. -/
theorem ofRows_errors (rows : List Row) : List.Forall₂ Row.Reports
    ((rows.filter fun r => !r.decodes).take maxErrorSamples) (ofRows rows).errors :=
  List.forall₂_take maxErrorSamples (ofRows_failures rows)

theorem length_ofRows_candidates (rows : List Row) :
    (ofRows rows).candidates.length = rows.countP Row.decodes := by
  rw [List.countP_eq_length_filter]
  exact (ofRows_candidates rows).length_eq.symm

/-- Each row fails or gives a candidate. -/
theorem ofRows_stored (rows : List Row) :
    (ofRows rows).stored = (ofRows rows).failed + (ofRows rows).candidates.length := by
  rw [length_ofRows_candidates, ofRows_failed, Nat.add_comm]
  refine (List.length_eq_countP_add_countP Row.decodes).trans (congrArg _ ?_)
  exact List.countP_congr fun r _ => by simp

end Loaded

/-- Whether a set is that of the rows of a field that can be decoded, in their order. -/
def Store.Gives (s : Store) (k : FieldKey) (candidates : List Candidate) : Prop :=
  List.Forall₂ Row.Gives ((s.findRows k.dataset k.field).filter Row.decodes) candidates

/-- What a load gives is this set. -/
theorem Store.gives_candidates (s : Store) (k : FieldKey) : s.Gives k (s.candidates k) :=
  Loaded.ofRows_candidates _

/-! ## From the cache or from the store -/

section Candidates

variable {w w' : World} {k : FieldKey} {loaded : Loaded}

/-- The cache when the rows of a key have been read, after it was asked for the key. -/
def World.loadedCache (w : World) (k : FieldKey) : Cache :=
  w.onLoad.foldl Interference.apply (w.cache.get w.now k).2

/-- What the cache makes of the set of a key, when it is loaded: whether it takes it, and the cache
after that. -/
def World.offer (w : World) (k : FieldKey) : Bool × Cache :=
  (w.loadedCache k).setIfUnchanged w.now k (w.store.candidates k) w.cache.generation

/-- On a hit, the candidates are those of the cache. -/
theorem Action.candidates_hit {cs : List Candidate} (hhit : (w.cache.get w.now k).1 = some cs) :
    (Action.candidates k).run w = (.ok { candidates := cs, stored := cs.length, hit := true },
      { w with cache := (w.cache.get w.now k).2 }) := by
  have hcached : (Action.of (Program.ask (.cached k))).run w =
      (.ok (w.cache.get w.now k).1, { w with cache := (w.cache.get w.now k).2 }) := rfl
  unfold Action.candidates
  rw [Action.run_bind_of_ok hcached, hhit]
  rfl

/-- On a miss, they are those of the rows, unless reading these fails. -/
theorem Action.candidates_miss (hmiss : (w.cache.get w.now k).1 = none) :
    (Action.candidates k).run w = match w.outage w.calls (.findRows k.dataset k.field) with
      | some e => (.error e, { w with calls := w.calls + 1, cache := (w.cache.get w.now k).2 })
      | none =>
        (.ok { Loaded.ofRows (w.store.findRows k.dataset k.field) with skipped := !(w.offer k).1 },
          { w with calls := w.calls + 1, onLoad := [], cache := (w.offer k).2 }) := by
  have hcached : (Action.of (Program.ask (.cached k))).run w =
      (.ok (w.cache.get w.now k).1, { w with cache := (w.cache.get w.now k).2 }) := rfl
  have hgeneration : (w.cache.get w.now k).2.generation = w.cache.generation :=
    congrArg Invalidations.now (Cache.get_history w.cache w.now k)
  generalize hw : { w with cache := (w.cache.get w.now k).2 } = w₁
  have htaken : (Action.of (Program.ask .generation)).run w₁ = (.ok w.cache.generation, w₁) := by
    rw [← hgeneration, ← hw]
    rfl
  have hread : (Action.orFail (Program.ask (.findRows k.dataset k.field))).run w₁ =
      w₁.attempt (.findRows k.dataset k.field)
        fun w => (w.store.findRows k.dataset k.field, w.interfered) := rfl
  unfold Action.candidates
  rw [Action.run_bind_of_ok hcached, hmiss, hw]
  dsimp only
  rw [Action.run_bind_of_ok htaken]
  cases hcall : w.outage w.calls (.findRows k.dataset k.field) with
  | some e =>
    have hfails : w₁.attempt (.findRows k.dataset k.field)
        (fun w => (w.store.findRows k.dataset k.field, w.interfered)) =
          (.error e, { w with calls := w.calls + 1, cache := (w.cache.get w.now k).2 }) := by
      rw [← hw, World.attempt, hcall]
    rw [Action.run_bind_of_error (hread.trans hfails)]
  | none =>
    have hrows : w₁.attempt (.findRows k.dataset k.field)
        (fun w => (w.store.findRows k.dataset k.field, w.interfered)) =
          (.ok (w.store.findRows k.dataset k.field),
            { w with calls := w.calls + 1, onLoad := [], cache := w.loadedCache k }) := by
      rw [← hw, World.attempt, hcall]
      rfl
    rw [Action.run_bind_of_ok (hread.trans hrows)]
    rfl

/-- Candidates are those of the cache, which is asked first, or those of the rows. -/
theorem Action.candidates_ok (h : (Action.candidates k).run w = (.ok loaded, w')) :
    (∃ cs, (w.cache.get w.now k).1 = some cs ∧
      loaded = { candidates := cs, stored := cs.length, hit := true } ∧
      w'.cache = (w.cache.get w.now k).2) ∨
    ((w.cache.get w.now k).1 = none ∧
      loaded = { Loaded.ofRows (w.store.findRows k.dataset k.field) with
        skipped := !(w.offer k).1 } ∧
      w'.cache = (w.offer k).2) := by
  cases hget : (w.cache.get w.now k).1 with
  | some cs =>
    rw [Action.candidates_hit hget] at h
    cases h
    exact .inl ⟨cs, rfl, rfl, rfl⟩
  | none =>
    rw [Action.candidates_miss hget] at h
    cases hcall : w.outage w.calls (.findRows k.dataset k.field) with
    | some e =>
      rw [hcall] at h
      cases h
    | none =>
      rw [hcall] at h
      cases h
      exact .inr ⟨rfl, rfl, rfl⟩

end Candidates

/-! ## What holds all the time -/

/-- Whether no invalidation in the history of the cache of a world lies ahead. -/
def World.Timely (w : World) : Prop := Cache.Timely w.cache.history

namespace Interference

/-- What happens to a cache, as a step of it. -/
def step : Interference → Cache.Step
  | .invalidate k => .invalidate k
  | .invalidateDataset d => .invalidateDataset d
  | .clear => .clear

/-- What happens to a cache behind the back of a program is a run of it. -/
theorem foldl_apply (xs : List Interference) (σ : Cache.Session) :
    xs.foldl apply σ.cache = (σ.run (xs.map step)).cache := by
  induction xs generalizing σ with
  | nil => rfl
  | cons x xs ih =>
    have hstep : apply σ.cache x = (σ.step x.step).2.cache := by
      cases x <;> rfl
    rw [List.foldl_cons, hstep, ih]
    rfl

end Interference

namespace World.Timely

variable {w : World}

theorem attempt {α : Type} (h : w.Timely) (c : Call) {work : World → α × World}
    (hwork : ∀ w : World, w.Timely → (work w).2.Timely) : (w.attempt c work).2.Timely :=
  attempt_keeps (P := World.Timely) h c hwork

theorem interfered (h : w.Timely) : w.interfered.Timely := by
  rw [World.Timely, World.interfered, Interference.foldl_apply w.onLoad { cache := w.cache }]
  exact Cache.Session.run_timely (s := { cache := w.cache }) h _

/-- No call adds an invalidation that lies ahead. -/
theorem answer (h : w.Timely) (c : Call) : (w.answer c).2.Timely := by
  cases c with
  | findDataset s => exact h.attempt _ fun _ => id
  | listRecords d => exact h.attempt _ fun _ => id
  | findRecord d r => exact h.attempt _ fun _ => id
  | findRows d f => exact h.attempt _ fun _ h => h.interfered
  | findRow r f => exact h.attempt _ fun _ => id
  | upsert v => exact h.attempt _ fun _ => id
  | delete f => exact h.attempt _ fun _ => id
  | cached k =>
    rw [World.Timely, World.answer, Cache.get_history]
    exact h
  | cacheIfUnchanged k cs since =>
    rw [World.Timely, World.answer, Cache.setIfUnchanged_history]
    exact h
  | invalidate k =>
    rw [World.Timely, World.answer, Cache.invalidate_history]
    exact Cache.Timely.record h (.invalidate k)
  | invalidateDataset d =>
    rw [World.Timely, World.answer, Cache.invalidateDataset_history]
    exact Cache.Timely.record h (.invalidateDataset d)
  | clearCache => exact Cache.Timely.record h .clear
  | _ => exact h

theorem run {α : Type} (h : w.Timely) (p : Program α) : (p.run w).2.Timely := by
  induction p generalizing w with
  | done a => exact h
  | call c next ih => exact ih _ (h.answer c)

theorem after (h : w.Timely) (xs : List Occurrence) : (w.after xs).Timely := by
  induction xs generalizing w with
  | nil => exact h
  | cons x xs ih =>
    cases x with
    | operation s o => exact ih (h.run (o.program s))
    | wait ms => exact ih h

end World.Timely

/-! ## What becomes of a set that was loaded -/

namespace World

variable {w : World} {k : FieldKey}

theorem loadedCache_eq (w : World) (k : FieldKey) : w.loadedCache k =
    (Cache.Session.run { cache := (w.cache.get w.now k).2 } (w.onLoad.map Interference.step)).cache :=
  Interference.foldl_apply w.onLoad { cache := (w.cache.get w.now k).2 }

/-- A key that is not found has no entry, and gets none while its rows are read. -/
theorem loadedCache_entry (hmiss : (w.cache.get w.now k).1 = none) :
    Cache.entry? (w.loadedCache k) k = none := by
  have hnone : Cache.entry? (w.cache.get w.now k).2 k = none := by
    rw [Cache.get_found] at hmiss
    exact Option.map_eq_none_iff.mp hmiss
  -- what happens meanwhile only removes entries
  refine List.find?_eq_none.mpr fun e he hkey => ?_
  obtain ⟨e', he', hsame, -⟩ := (interfered_follows
    { w with cache := (w.cache.get w.now k).2 }).entries e he
  refine List.find?_eq_none.mp hnone e' he' ?_
  rwa [hsame]

/-- A set that was loaded is refused when it has too many vectors, when it is estimated to be larger
than the whole budget, or when its key was invalidated during the load. -/
theorem Timely.offer_refused_iff (h : w.Timely) (k : FieldKey) : (w.offer k).1 = false ↔
    w.cache.settings.maxVectors < (w.store.candidates k).length ∨
      w.cache.settings.budgetMb < w.cache.settings.estimateMb (w.store.candidates k).length ∨
      ∃ x ∈ w.onLoad, x.step.Invalidates k := by
  have hsettings : (w.loadedCache k).settings = w.cache.settings := by
    rw [loadedCache_eq, Cache.Session.run_settings, Cache.get_settings]
  have htouched : (w.loadedCache k).history.touchedSince k w.cache.generation = true ↔
      ∃ x ∈ w.onLoad, x.step.Invalidates k := by
    -- the generation is that of the cache itself, so all that counts has happened since
    have hnow : w.cache.history.touchedSince k w.cache.generation = false := h k
    rw [loadedCache_eq, Cache.Session.run_touchedSince (by rw [Cache.get_history]; exact le_rfl),
      Cache.get_history, hnow]
    simp
  rw [offer, Cache.setIfUnchanged_eq]
  by_cases hinvalidated : ∃ x ∈ w.onLoad, x.step.Invalidates k
  · rw [if_pos (htouched.mpr hinvalidated)]
    exact iff_of_true rfl (.inr (.inr hinvalidated))
  · rw [if_neg (mt htouched.mp hinvalidated), Cache.set_refused_iff, hsettings]
    rw [or_iff_left hinvalidated]

/-- A set that is taken is the entry of its key. -/
theorem offer_taken (htaken : (w.offer k).1 = true) :
    ∃ e, Cache.entry? (w.offer k).2 k = some e ∧ e.candidates = w.store.candidates k := by
  rw [offer, Cache.setIfUnchanged_eq] at htaken ⊢
  split at htaken
  · cases htaken
  · next hsame =>
    rw [if_neg hsame, (Cache.set_of_stored htaken).2]
    exact ⟨_, Cache.entry?_insert_self _ _ _ _ _, rfl⟩

/-- Without the set that was loaded, its key has no entry. -/
theorem offer_refused (hmiss : (w.cache.get w.now k).1 = none) (hrefused : (w.offer k).1 = false) :
    Cache.entry? (w.offer k).2 k = none := by
  have hsame : (w.offer k).2 = w.loadedCache k := by
    rw [offer, Cache.setIfUnchanged_eq] at hrefused ⊢
    split at hrefused
    · next htouched => rw [if_pos htouched]
    · next huntouched => rw [if_neg huntouched, Cache.set_of_refused hrefused]
  rw [hsame]
  exact loadedCache_entry hmiss

end World

/-! ## What decodes -/

/-- A raw value decodes exactly when it is an array of numbers or the text of one, and then to these
numbers in their order. An array with anything else is refused for the first such element, by its
place and kind; null is refused as missing, a text that lists no numbers as a text, and every other
value with its kind and at most a hundred characters of it. When the candidates of a field are
loaded, the rows that decode give theirs in the order of the rows, whatever the others hold. -/
theorem decoding_exact :
    (∀ v x, (Payload.raw v).decode = .ok x ↔
      ∃ ns, Payload.Lists v ns ∧ x = ns.map fun n => narrow n.toFloat) ∧
    (∀ before v after, (∀ u ∈ before, u.kind = .number) → v.kind ≠ .number →
      (Payload.raw (.array (before ++ v :: after))).decode =
        .error (.invalidElement before.length v.kind)) ∧
    (Payload.raw .null).decode = .error .missing ∧
    (∀ s, (∀ ns, ¬ Payload.Lists (.string s) ns) →
      ∃ cause, (Payload.raw (.string s)).decode = .error (.invalidText cause)) ∧
    (∀ v, v.kind = .number ∨ v.kind = .bool ∨ v.kind = .object →
      ∃ preview, (Payload.raw v).decode = .error (.unsupportedShape v.kind preview) ∧
        LongestPrefix 100 preview v.text) ∧
    ∀ (w : World) (k : FieldKey), (w.cache.get w.now k).1 = none →
      w.outage w.calls (.findRows k.dataset k.field) = none →
        ∃ loaded w', (Action.candidates k).run w = (.ok loaded, w') ∧
          w.store.Gives k loaded.candidates := by
  refine ⟨fun v x => Payload.decode_eq_ok, fun before v after hbefore hv => ?_, rfl,
    fun s hs => Payload.decode_text_error hs, fun v hv => Payload.decode_shapeless hv,
    fun w k hmiss hcall => ?_⟩
  · have hfirst := Payload.decodeItems_first 0 hbefore hv after
    rwa [Nat.zero_add] at hfirst
  · have hrun := Action.candidates_miss hmiss
    rw [hcall] at hrun
    exact ⟨_, _, hrun, w.store.gives_candidates k⟩

/-- Rows that cannot be decoded between two that can: the first of two wrong elements is named, and
the two candidates are loaded. -/
theorem decoding_exact_mixed :
    let row : String → Json → Row := fun id v => ⟨id, "A", "f", .raw v, "m", 1, ⟨0, 0⟩⟩
    let bad : Json := .array [.number (.integer 1), .string "two", .null]
    let w : World :=
      { store := ({} : Store).insert (row "r" (.array [.number (.integer 1)]))
          |>.insert (row "s" bad) |>.insert (row "t" (.bool true))
          |>.insert (row "u" (.string "[0.5]"))
        provider := ⟨"p", true, fun _ _ => .ok ⟨[[1]], "m", none⟩⟩ }
    (Payload.raw bad).decode = .error (.invalidElement 1 .string) ∧
    (∃ preview, (Payload.raw (.bool true)).decode = .error (.unsupportedShape .bool preview) ∧
      LongestPrefix 100 preview "true") ∧
    (∃ cause, (Payload.raw (.string "{}")).decode = .error (.invalidText cause)) ∧
    ((w.store.findRows "A" "f").filter Row.decodes).map Row.recordId = ["r", "u"] ∧
    ∃ loaded w', (Action.candidates ⟨"A", "f"⟩).run w = (.ok loaded, w') ∧
      w.store.Gives ⟨"A", "f"⟩ loaded.candidates := by
  intro row bad w
  obtain ⟨-, hfirst, -, htext, hshape, hload⟩ := decoding_exact
  have hunlisted : ∀ ns, ¬ Payload.Lists (.string "{}") ns := by
    intro ns hlists
    cases hlists with
    | text parsed =>
      have hnumbers : (Json.parse "{}").toOption.bind Payload.numbersOf? = none := by
        decide +kernel
      rw [parsed] at hnumbers
      cases (Payload.numbers?_map ns).symm.trans hnumbers
  have hbefore : ∀ u ∈ [Json.number (.integer 1)], u.kind = .number := by decide
  exact ⟨hfirst _ (.string "two") [.null] hbefore (by decide), hshape (.bool true) (.inr (.inl rfl)),
    htext "{}" hunlisted, by decide +kernel, hload w ⟨"A", "f"⟩ rfl rfl⟩

end EmbeddingSearch
