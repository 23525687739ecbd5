import EmbeddingSearch.Proofs.Cache.Generations
import EmbeddingSearch.Proofs.Cache.Lookup

/-!
# What a look-up finds

A look-up of a key finds what the past of a run says: the set that was last stored under the key,
if nothing has invalidated or evicted it since and it was never left unused for too long.

## Contents
- `Session.Stores`, `Session.Evicts`, `Session.Spares`: what a step does to a key.
- `Session.view`, `Session.Leaves`, `step_view`: what is held for a key, and what a step makes of it.
- `moments`, `asked`: the steps of a run with the sessions they are taken in, and the times at which
  a key is looked up.
- `Supplies`, `supplies_snoc`: the uses of a set since it was stored, as a run goes on.
- `InTime`, `run_view`: what is held for a key after a run.
- `run_found_iff`: when a look-up hits.
-/

namespace EmbeddingSearch

namespace Cache

/-! ## Steps and keys -/

/-- The key and the set that a step offers to the cache. -/
def Step.offer? : Step → Option (FieldKey × List Candidate)
  | .set k candidates | .setIfUnchanged k candidates _ => some (k, candidates)
  | _ => none

/-- Whether a step looks up a key. -/
def Step.asks (k : FieldKey) : Step → Bool
  | .get k' => k' = k
  | _ => false

namespace Session

/-- Whether a step offers a set for a key, and the cache accepts it. -/
def Stores (s : Session) (k : FieldKey) (v : List Candidate) (x : Step) : Prop :=
  x.offer? = some (k, v) ∧ (s.step x).1 = .stored true

/-- Whether a step stores a set under another key, and makes room for it with the entry of `k`. -/
def Evicts (s : Session) (k : FieldKey) (x : Step) : Prop :=
  ∃ k' v sizeMb, s.Stores k' v x ∧ s.cache.settings.admittedMb? v.length = some sizeMb ∧
    k ∈ s.cache.victims k' sizeMb

/-- Whether a step neither replaces nor removes what is held for a key; it may still look it up. -/
structure Spares (s : Session) (k : FieldKey) (x : Step) : Prop where
  kept : ¬ x.Invalidates k
  roomy : ¬ s.Evicts k x
  latest : ∀ v, ¬ s.Stores k v x

/-! ## One step -/

/-- An offered set is refused and leaves everything as it is, or takes the place of the entry of its
key. -/
theorem step_offer (s : Session) {x : Step} {k : FieldKey} {v : List Candidate}
    (h : x.offer? = some (k, v)) : s.step x = (.stored false, s) ∨
      ∃ sizeMb, s.cache.settings.admittedMb? v.length = some sizeMb ∧
        s.step x = (.stored true, { s with cache := s.cache.insert s.now k v sizeMb }) := by
  cases x with
  | set k' v' =>
    cases h
    simp only [step, Cache.set]
    cases hsize : s.cache.settings.admittedMb? v.length with
    | none => exact .inl rfl
    | some sizeMb => exact .inr ⟨sizeMb, rfl, rfl⟩
  | setIfUnchanged k' v' slot =>
    cases h
    simp only [step, setIfUnchanged]
    cases hsize : s.cache.settings.admittedMb? v.length with
    | none => exact .inl rfl
    | some sizeMb =>
      by_cases htouched : s.cache.history.touchedSince k (s.slot slot) = true
      · exact .inl (by simp [htouched])
      · exact .inr ⟨sizeMb, rfl, by simp [htouched]⟩
  | _ => cases h

/-- A refused set changes nothing. -/
theorem step_refused {s : Session} {x : Step} (h : (s.step x).1 = .stored false) :
    (s.step x).2 = s := by
  cases hoffer : x.offer? with
  | some offer =>
    rcases s.step_offer hoffer with hstep | ⟨sizeMb, -, hstep⟩
    · rw [hstep]
    · rw [hstep] at h
      cases h
  | none =>
    -- only what offers a set is answered so
    cases x with
    | set => cases hoffer
    | setIfUnchanged => cases hoffer
    | _ => cases h

theorem step_settings (s : Session) (x : Step) :
    (s.step x).2.cache.settings = s.cache.settings := by
  cases x with
  | get k => exact get_settings s.cache s.now k
  | set k v => exact set_settings s.cache s.now k v
  | setIfUnchanged k v slot => exact setIfUnchanged_settings s.cache s.now k v (s.slot slot)
  | invalidate k => exact invalidate_settings s.cache k
  | invalidateDataset d => exact invalidateDataset_settings s.cache d
  | _ => rfl

theorem step_distinct {s : Session} (h : Distinct s.cache.entries) (x : Step) :
    Distinct (s.step x).2.cache.entries := by
  cases hoffer : x.offer? with
  | some offer =>
    rcases s.step_offer hoffer with hstep | ⟨sizeMb, -, hstep⟩
    · rwa [hstep]
    · rw [hstep]
      exact insert_distinct h s.now offer.1 offer.2 sizeMb
  | none =>
    cases x with
    | set => cases hoffer
    | setIfUnchanged => cases hoffer
    | get k => exact get_distinct h s.now k
    | invalidate k =>
      show Distinct (s.cache.invalidate k).entries
      rw [invalidate_entries]
      exact h.sublist (without_sublist k _)
    | invalidateDataset d => exact h.sublist (foldl_remove_sublist _ _)
    | clear => exact List.nodup_nil
    | _ => exact h

/-! ## What is held for a key -/

/-- What is held for a key, and the time of its last use. -/
def view (s : Session) (k : FieldKey) : Option (List Candidate × Nat) :=
  (s.cache.entry? k).map fun e => (e.candidates, e.usedAt)

theorem view_congr {s s' : Session} {k : FieldKey}
    (h : s'.cache.entry? k = s.cache.entry? k) : s'.view k = s.view k :=
  congrArg (Option.map _) h

theorem view_of_none {s : Session} {k : FieldKey} (h : s.cache.entry? k = none) :
    s.view k = none :=
  congrArg (Option.map _) h

/-- Whether a step leaves the set `v` for a key with `u` as the time of its last use: the step stores
it, or it was held before and the step spares it. A look-up has to come in time, and is a use. -/
def Leaves (s : Session) (k : FieldKey) (x : Step) (v : List Candidate) (u : Nat) : Prop :=
  s.Stores k v x ∧ u = s.now ∨ s.Spares k x ∧ ∃ u', s.view k = some (v, u') ∧
    if x.asks k then s.now ≤ u' + s.cache.settings.idleMs ∧ u = s.now else u = u'

variable {s : Session} {k k' : FieldKey} {x : Step} {v v' : List Candidate} {u : Nat}

theorem leaves_of_spared (hspared : s.Spares k x) (hasks : x.asks k = false) :
    s.Leaves k x v u ↔ s.view k = some (v, u) := by
  constructor
  · rintro (⟨hstores, -⟩ | ⟨-, u', hview, huse⟩)
    · exact absurd hstores (hspared.latest v)
    · rw [hasks, if_neg Bool.false_ne_true] at huse
      rw [huse, hview]
  · intro hview
    refine .inr ⟨hspared, u, hview, ?_⟩
    rw [hasks, if_neg Bool.false_ne_true]

theorem not_leaves_of_lost (hstores : ¬ s.Stores k v x) (hlost : ¬ s.Spares k x) :
    ¬ s.Leaves k x v u := by
  rintro (⟨h, -⟩ | ⟨hspared, -⟩)
  · exact hstores h
  · exact hlost hspared

/-! ### Steps that offer a set -/

/-- A step that offers a set neither invalidates a key nor looks one up. -/
theorem offer_other (hoffer : x.offer? = some (k', v')) (k : FieldKey) :
    ¬ x.Invalidates k ∧ x.asks k = false := by
  cases x with
  | set => exact ⟨id, rfl⟩
  | setIfUnchanged => exact ⟨id, rfl⟩
  | _ => cases hoffer

theorem view_refused (hoffer : x.offer? = some (k', v')) (hstep : s.step x = (.stored false, s)) :
    (s.step x).2.view k = some (v, u) ↔ s.Leaves k x v u := by
  obtain ⟨hkept, hasks⟩ := offer_other hoffer k
  have hrefused : ∀ k v, ¬ s.Stores k v x := by
    rintro k v ⟨-, hstored⟩
    rw [hstep] at hstored
    cases hstored
  have hspared : s.Spares k x :=
    ⟨hkept, fun ⟨k', v', _, hstores, _⟩ => hrefused k' v' hstores, hrefused k⟩
  rw [hstep, leaves_of_spared hspared hasks]

section Accepted

variable {sizeMb : Float}
  (hoffer : x.offer? = some (k', v'))
  (hsize : s.cache.settings.admittedMb? v'.length = some sizeMb)
  (hstep : s.step x =
    (.stored true, { s with cache := s.cache.insert s.now k' v' sizeMb }))

include hoffer hstep

theorem stores_iff : s.Stores k v x ↔ k = k' ∧ v = v' := by
  rw [Stores, hoffer, hstep]
  simp [eq_comm]

theorem view_stored_self : (s.step x).2.view k' = some (v, u) ↔ s.Leaves k' x v u := by
  have hself : (s.step x).2.view k' = some (v', s.now) := by
    rw [hstep, view, entry?_insert_self]
    rfl
  have hstores : s.Stores k' v' x := (stores_iff hoffer hstep).mpr ⟨rfl, rfl⟩
  rw [hself]
  constructor
  · intro h
    cases h
    exact .inl ⟨hstores, rfl⟩
  · rintro (⟨h, rfl⟩ | ⟨hspared, -⟩)
    · rw [((stores_iff hoffer hstep).mp h).2]
    · exact absurd hstores (hspared.latest v')

include hsize

theorem evicts_iff : s.Evicts k x ↔ k ∈ s.cache.victims k' sizeMb := by
  constructor
  · rintro ⟨k'', v'', size, hstores, hsize', hmem⟩
    obtain ⟨rfl, rfl⟩ := (stores_iff hoffer hstep).mp hstores
    rw [hsize] at hsize'
    cases hsize'
    exact hmem
  · intro hmem
    exact ⟨k', v', sizeMb, (stores_iff hoffer hstep).mpr ⟨rfl, rfl⟩, hsize, hmem⟩

theorem view_stored_other (hd : Distinct s.cache.entries) (hk : k ≠ k') :
    (s.step x).2.view k = some (v, u) ↔ s.Leaves k x v u := by
  obtain ⟨hkept, hasks⟩ := offer_other hoffer k
  have hother : ∀ v, ¬ s.Stores k v x := fun v h => hk ((stores_iff hoffer hstep).mp h).1
  have hentry := entry?_insert_of_ne hd s.now hk v' sizeMb
  have hevicts : s.Evicts k x ↔ k ∈ s.cache.victims k' sizeMb := evicts_iff hoffer hsize hstep
  by_cases hmem : k ∈ s.cache.victims k' sizeMb
  · rw [if_pos hmem] at hentry
    have hlost : ¬ s.Leaves k x v u :=
      not_leaves_of_lost (hother v) fun hspared => hspared.roomy (hevicts.mpr hmem)
    rw [hstep, view_of_none hentry]
    simp [hlost]
  · rw [if_neg hmem] at hentry
    have hspared : s.Spares k x := ⟨hkept, fun h => hmem (hevicts.mp h), hother⟩
    rw [leaves_of_spared hspared hasks, hstep, view_congr hentry]

end Accepted

theorem view_offer (hd : Distinct s.cache.entries) (hoffer : x.offer? = some (k', v')) :
    (s.step x).2.view k = some (v, u) ↔ s.Leaves k x v u := by
  rcases s.step_offer hoffer with hstep | ⟨sizeMb, hsize, hstep⟩
  · exact view_refused hoffer hstep
  · by_cases hk : k = k'
    · subst hk
      exact view_stored_self hoffer hstep
    · exact view_stored_other hoffer hsize hstep hd hk

/-! ### Steps that offer nothing -/

theorem not_stores_of_offer (hoffer : x.offer? = none) (k : FieldKey) (v : List Candidate) :
    ¬ s.Stores k v x := by
  rintro ⟨h, -⟩
  rw [hoffer] at h
  cases h

theorem spares_of_offer (hoffer : x.offer? = none) (hkept : ¬ x.Invalidates k) : s.Spares k x where
  kept := hkept
  roomy := fun ⟨k', v', _, hstores, _⟩ => not_stores_of_offer hoffer k' v' hstores
  latest := not_stores_of_offer hoffer k

theorem view_invalidated (hkept : x.Invalidates k) : (s.step x).2.view k = none := by
  apply view_of_none
  cases x with
  | invalidate k' => exact (entry?_invalidate s.cache k' k).trans (if_pos hkept.symm)
  | invalidateDataset d => exact (entry?_invalidateDataset s.cache d k).trans (if_pos hkept)
  | clear => rfl
  | _ => exact hkept.elim

/-- A look-up of a key that comes in time is the last use of what is held, and one that comes too
late leaves nothing. -/
theorem view_get : (s.step (.get k)).2.view k = some (v, u) ↔
    ∃ u', s.view k = some (v, u') ∧ s.now ≤ u' + s.cache.settings.idleMs ∧ u = s.now := by
  show Option.map _ ( entry? (s.cache.get s.now k).2 k) = some (v, u) ↔ _
  rw [entry?_get_self, view]
  cases s.cache.entry? k with
  | none => simp
  | some e =>
    simp only [Option.bind_some, expired_eq_true_iff]
    by_cases htime : s.now ≤ e.usedAt + s.cache.settings.idleMs
    · simp [htime, eq_comm]
    · simp [htime]

theorem found_iff : (s.cache.get s.now k).1 = some v ↔
    ∃ u, s.view k = some (v, u) ∧ s.now ≤ u + s.cache.settings.idleMs := by
  have hfound : (s.cache.get s.now k).1 = ((s.step (.get k)).2.view k).map Prod.fst := by
    rw [get_found, view, Option.map_map]
    rfl
  rw [hfound, Option.map_eq_some_iff]
  constructor
  · rintro ⟨⟨v', u⟩, hview, rfl⟩
    obtain ⟨u', hview', htime, -⟩ := view_get.mp hview
    exact ⟨u', hview', htime⟩
  · rintro ⟨u, hview, htime⟩
    exact ⟨(v, s.now), view_get.mpr ⟨u, hview, htime, rfl⟩, rfl⟩

/-- What is held for a key after a step is what the step leaves. -/
theorem step_view (hd : Distinct s.cache.entries) (x : Step) :
    (s.step x).2.view k = some (v, u) ↔ s.Leaves k x v u := by
  cases hoffer : x.offer? with
  | some offer => exact view_offer hd hoffer
  | none =>
    by_cases hinv : x.Invalidates k
    · have hlost : ¬ s.Leaves k x v u :=
        not_leaves_of_lost (not_stores_of_offer hoffer k v) fun hspared => hspared.kept hinv
      rw [view_invalidated hinv]
      simp [hlost]
    · have hspared : s.Spares k x := spares_of_offer hoffer hinv
      cases x with
      | get k' =>
        by_cases hk : k' = k
        · subst hk
          simp [view_get, Leaves, Step.asks, hspared, not_stores_of_offer hoffer]
        · have hasks : (Step.get k').asks k = false := by simpa [Step.asks] using hk
          have hentry := entry?_get_of_ne s.cache s.now (Ne.symm hk)
          rw [leaves_of_spared hspared hasks, view_congr hentry]
      | set => cases hoffer
      | setIfUnchanged => cases hoffer
      | clear => exact absurd trivial hinv
      | invalidate k' =>
        have hk : k ≠ k' := fun h => hinv h.symm
        have hentry := (entry?_invalidate s.cache k' k).trans (if_neg hk)
        rw [leaves_of_spared hspared rfl, view_congr hentry]
      | invalidateDataset d =>
        have hentry := (entry?_invalidateDataset s.cache d k).trans (if_neg hinv)
        rw [leaves_of_spared hspared rfl, view_congr hentry]
      | _ => exact (leaves_of_spared hspared rfl).symm

/-! ## Runs -/

theorem run_snoc (s : Session) (steps : List Step) (x : Step) :
    s.run (steps ++ [x]) = ((s.run steps).step x).2 := by
  rw [run, List.foldl_concat, run]

theorem run_split (s : Session) (before since : List Step) (x : Step) :
    s.run (before ++ x :: since) = (s.run (before ++ [x])).run since := by
  rw [run, run, run, ← List.foldl_append, List.append_assoc]
  rfl

theorem run_settings (s : Session) (steps : List Step) :
    (s.run steps).cache.settings = s.cache.settings := by
  induction steps using List.reverseRecOn with
  | nil => rfl
  | append_singleton steps x ih => rw [run_snoc, step_settings, ih]

theorem run_distinct (hd : Distinct s.cache.entries) (steps : List Step) :
    Distinct (s.run steps).cache.entries := by
  induction steps using List.reverseRecOn with
  | nil => exact hd
  | append_singleton steps x ih =>
    rw [run_snoc]
    exact step_distinct ih x

/-- The steps of a run, each with the session that it is taken in. -/
def moments (s : Session) : List Step → List (Session × Step)
  | [] => []
  | x :: rest => (s, x) :: (s.step x).2.moments rest

theorem moments_snoc (s : Session) (steps : List Step) (x : Step) :
    s.moments (steps ++ [x]) = s.moments steps ++ [(s.run steps, x)] := by
  induction steps generalizing s with
  | nil => rfl
  | cons y rest ih =>
    show (s, y) :: (s.step y).2.moments (rest ++ [x]) = _
    rw [ih]
    rfl

/-- The times at which a run looks up a key. -/
def asked (s : Session) (k : FieldKey) (steps : List Step) : List Nat :=
  ((s.moments steps).filter fun m => m.2.asks k).map fun m => m.1.now

theorem asked_snoc (s : Session) (k : FieldKey) (steps : List Step) (x : Step) :
    s.asked k (steps ++ [x]) =
      s.asked k steps ++ if x.asks k then [(s.run steps).now] else [] := by
  rw [asked, moments_snoc, List.filter_append, List.map_append, asked]
  congr 1
  cases hasks : x.asks k with
  | true => simp [hasks]
  | false => simp [hasks]

/-- Whether a run stores `v` under a key, and then neither replaces, removes nor evicts it. It is
used at `times`, when it is stored and whenever its key is looked up after that. -/
def Supplies (start : Session) (steps : List Step) (k : FieldKey) (v : List Candidate)
    (times : List Nat) : Prop :=
  ∃ before x since, steps = before ++ x :: since ∧ (start.run before).Stores k v x ∧
    (∀ m ∈ (start.run (before ++ [x])).moments since, m.1.Spares k m.2) ∧
    times = (start.run before).now :: (start.run (before ++ [x])).asked k since

theorem Supplies.ne_nil {start : Session} {steps : List Step} {times : List Nat}
    (h : start.Supplies steps k v times) : times ≠ [] := by
  obtain ⟨before, x, since, -, -, -, rfl⟩ := h
  exact List.cons_ne_nil _ _

theorem supplies_snoc {start : Session} {steps : List Step} {times : List Nat} :
    start.Supplies (steps ++ [x]) k v times ↔
      (start.run steps).Stores k v x ∧ times = [(start.run steps).now] ∨
        (start.run steps).Spares k x ∧ ∃ earlier, start.Supplies steps k v earlier ∧
          times = earlier ++ if x.asks k then [(start.run steps).now] else [] := by
  constructor
  · rintro ⟨before, y, since, hsteps, hstores, hspared, rfl⟩
    rcases List.eq_nil_or_concat since with rfl | ⟨since, z, rfl⟩
    · obtain ⟨rfl, hy⟩ := List.append_inj' hsteps rfl
      cases hy
      exact .inl ⟨hstores, rfl⟩
    · rw [List.concat_eq_append, ← List.cons_append, ← List.append_assoc] at hsteps
      obtain ⟨rfl, hz⟩ := List.append_inj' hsteps rfl
      cases hz
      rw [List.concat_eq_append, moments_snoc, List.forall_mem_append] at hspared
      rw [List.concat_eq_append, asked_snoc, run_split]
      exact .inr ⟨hspared.2 _ (List.mem_singleton_self _), _,
        ⟨before, y, since, rfl, hstores, hspared.1, rfl⟩, rfl⟩
  · rintro (⟨hstores, rfl⟩ | ⟨hspared, earlier, ⟨before, y, since, rfl, hstores, hkept, rfl⟩, rfl⟩)
    · exact ⟨steps, x, [], rfl, hstores, by simp [moments], rfl⟩
    · rw [run_split] at hspared
      refine ⟨before, y, since ++ [x], by simp, hstores, ?_, ?_⟩
      · rw [moments_snoc, List.forall_mem_append]
        refine ⟨hkept, fun m hm => ?_⟩
        rw [List.mem_singleton.mp hm]
        exact hspared
      · rw [asked_snoc, run_split start before since y]
        rfl

/-- Whether each of the times comes soon enough after the one before it. -/
def InTime (idleMs : Nat) (times : List Nat) : Prop :=
  times.IsChain fun t t' => t' ≤ t + idleMs

theorem inTime_snoc {idleMs t : Nat} {times : List Nat} (hne : times ≠ []) :
    InTime idleMs (times ++ [t]) ↔
      ∃ u, (InTime idleMs times ∧ times.getLast? = some u) ∧ t ≤ u + idleMs := by
  rw [InTime, InTime, List.isChain_append, List.getLast?_eq_some_getLast hne]
  simp

/-- What is held for a key after a run is what the run supplies, if it was always used in time. -/
theorem run_view (settings : CacheSettings) (steps : List Step) :
    let start : Session := { cache := { settings } }
    (start.run steps).view k = some (v, u) ↔ ∃ times, start.Supplies steps k v times ∧
      InTime settings.idleMs times ∧ times.getLast? = some u := by
  intro start
  induction steps using List.reverseRecOn generalizing u with
  | nil =>
    constructor
    · intro h
      cases h
    · rintro ⟨times, ⟨before, x, since, hsteps, -⟩, -⟩
      exact absurd hsteps (by simp)
  | append_singleton steps x ih =>
    have hsettings : (start.run steps).cache.settings = settings := run_settings start steps
    rw [run_snoc, step_view (run_distinct (s := start) List.nodup_nil steps), Leaves, hsettings]
    constructor
    · rintro (⟨hstores, rfl⟩ | ⟨hspared, u', hview, huse⟩)
      · exact ⟨_, supplies_snoc.mpr (.inl ⟨hstores, rfl⟩), List.isChain_singleton _, rfl⟩
      · obtain ⟨earlier, hsupplies, htime, hlast⟩ := ih.mp hview
        refine ⟨_, supplies_snoc.mpr (.inr ⟨hspared, earlier, hsupplies, rfl⟩), ?_⟩
        by_cases hasks : x.asks k = true
        · rw [if_pos hasks] at huse ⊢
          obtain ⟨hsoon, rfl⟩ := huse
          exact ⟨(inTime_snoc hsupplies.ne_nil).mpr ⟨u', ⟨htime, hlast⟩, hsoon⟩, by simp⟩
        · rw [if_neg hasks] at huse ⊢
          rw [List.append_nil, huse]
          exact ⟨htime, hlast⟩
    · rintro ⟨times, hsupplies, htime, hlast⟩
      rcases supplies_snoc.mp hsupplies with ⟨hstores, rfl⟩ | ⟨hspared, earlier, hearlier, rfl⟩
      · exact .inl ⟨hstores, (Option.some.inj hlast).symm⟩
      · by_cases hasks : x.asks k = true
        · rw [if_pos hasks] at htime hlast
          obtain ⟨u', hu', hsoon⟩ := (inTime_snoc hearlier.ne_nil).mp htime
          have hu : (start.run steps).now = u := by simpa using hlast
          refine .inr ⟨hspared, u', ih.mpr ⟨earlier, hearlier, hu'⟩, ?_⟩
          rw [if_pos hasks]
          exact ⟨hsoon, hu.symm⟩
        · rw [if_neg hasks, List.append_nil] at htime hlast
          refine .inr ⟨hspared, u, ih.mpr ⟨earlier, hearlier, htime, hlast⟩, ?_⟩
          rw [if_neg hasks]

/-- A look-up after a run finds `v` exactly if the run stores `v` under the key and since then does
not store anything else there, does not invalidate the key, its dataset or everything, and does not
evict it for another key, and if the key was looked up soon enough after each time it was used, this
time as well. A set that is refused changes nothing. -/
theorem run_found_iff (settings : CacheSettings) (steps : List Step) (k : FieldKey) :
    let start : Session := { cache := { settings } }
    let s := start.run steps
    (∀ v, (s.cache.get s.now k).1 = some v ↔ ∃ times, start.Supplies steps k v times ∧
        InTime settings.idleMs (times ++ [s.now])) ∧
      ∀ x, (s.step x).1 = .stored false → (s.step x).2 = s := by
  intro start s
  have hsettings : s.cache.settings = settings := run_settings start steps
  refine ⟨fun v => ?_, fun x => step_refused⟩
  rw [found_iff, hsettings]
  constructor
  · rintro ⟨u, hview, hsoon⟩
    obtain ⟨times, hsupplies, htimes⟩ := (run_view settings steps).mp hview
    exact ⟨times, hsupplies, (inTime_snoc hsupplies.ne_nil).mpr ⟨u, htimes, hsoon⟩⟩
  · rintro ⟨times, hsupplies, htimes⟩
    obtain ⟨u, hu, hsoon⟩ := (inTime_snoc hsupplies.ne_nil).mp htimes
    exact ⟨u, (run_view settings steps).mpr ⟨times, hsupplies, hu⟩, hsoon⟩

end Session

end Cache

end EmbeddingSearch
