import EmbeddingSearch.Proofs.Cache.Hits

/-!
# The order of use

The entries of a cache stand in the order of their last use, and so in the order of the times of
these uses. What makes room is taken from the end of the list: it was used no later than anything
that stays, and what has expired goes before what could still be found.

## Contents
- `Session.uses`: whether a step is a use of a key.
- `Session.idle`, `Session.lastUse`: how many steps ago a key was used last, and in which one.
- `Session.step_entries`: what a step does to the list of entries.
- `Timed`, `Recent`: the times of entries, and the order they stand in; a step keeps both.
- `run_recency`: the order after a run, and what is evicted next.
-/

namespace EmbeddingSearch

namespace Cache

/-! ## Making room -/

/-- What is kept beside a new entry is the front of the list. -/
theorem insert_entries_prefix (c : Cache) (now : Nat) (k : FieldKey) (candidates : List Candidate)
    (sizeMb : Float) : ∃ kept, (c.insert now k candidates sizeMb).entries =
      ⟨k, candidates, sizeMb, now, now⟩ :: kept ∧ kept <+: without k c.entries := by
  refine ⟨_, rfl, ?_⟩
  rw [← remove_entries, ← List.reverse_suffix, List.reverse_reverse]
  exact evict_suffix _ _ _ _

namespace Session

/-! ## Uses -/

/-- Whether a step uses a key: it stores a set there, or it looks the key up and finds one. -/
def uses (s : Session) (k : FieldKey) (x : Step) : Bool :=
  match x, (s.step x).1 with
  | .get k', .found (some _) => k' = k
  | .set k' _, .stored true => k' = k
  | .setIfUnchanged k' _ _, .stored true => k' = k
  | _, _ => false

/-- How many steps of a run came after the last one that uses a key. -/
def idle (start : Session) (k : FieldKey) (steps : List Step) : Nat :=
  (start.moments steps).reverse.findIdx fun m => m.1.uses k m.2

/-- The last step of a run that uses a key, with the session that it is taken in. -/
def lastUse (start : Session) (k : FieldKey) (steps : List Step) : Option (Session × Step) :=
  (start.moments steps).reverse.find? fun m => m.1.uses k m.2

theorem idle_snoc (start : Session) (k : FieldKey) (steps : List Step) (x : Step) :
    start.idle k (steps ++ [x]) =
      if (start.run steps).uses k x then 0 else start.idle k steps + 1 := by
  rw [idle, moments_snoc, List.reverse_append, List.reverse_singleton, List.singleton_append,
    List.findIdx_cons, idle]
  cases (start.run steps).uses k x <;> rfl

theorem lastUse_snoc (start : Session) (k : FieldKey) (steps : List Step) (x : Step) :
    start.lastUse k (steps ++ [x]) =
      if (start.run steps).uses k x then some (start.run steps, x)
      else start.lastUse k steps := by
  rw [lastUse, moments_snoc, List.reverse_append, List.reverse_singleton, List.singleton_append,
    List.find?_cons, lastUse]
  cases (start.run steps).uses k x <;> rfl

/-- A step that offers a set uses the key it is offered for, if the set is accepted. -/
theorem uses_offer {s : Session} {x : Step} {k' : FieldKey} {v : List Candidate}
    (h : x.offer? = some (k', v)) {accepted : Bool} (hstep : (s.step x).1 = .stored accepted)
    (k : FieldKey) : s.uses k x = (accepted && decide (k' = k)) := by
  cases x with
  | set =>
    cases h
    cases accepted <;> simp [uses, hstep]
  | setIfUnchanged =>
    cases h
    cases accepted <;> simp [uses, hstep]
  | _ => cases h

/-! ## One step -/

/-- What a step does to the entries: it puts the entry of the key that it uses in front, with this
moment as the time of its last use, or it uses no key and at most takes entries away. -/
theorem step_entries (s : Session) (x : Step) :
    (∃ e kept, (s.step x).2.cache.entries = e :: kept ∧
        kept.Sublist (without e.key s.cache.entries) ∧ (∀ k, s.uses k x = decide (e.key = k)) ∧
        e.usedAt = s.now ∧
        (e.createdAt = s.now ∨ ∃ e' ∈ s.cache.entries, e'.createdAt = e.createdAt)) ∨
      (s.step x).2.cache.entries.Sublist s.cache.entries ∧ ∀ k, s.uses k x = false := by
  cases hoffer : x.offer? with
  | some offer =>
    obtain ⟨k', v⟩ := offer
    rcases s.step_offer hoffer with hstep | ⟨sizeMb, -, hstep⟩
    · refine .inr ⟨by rw [hstep], fun k => ?_⟩
      rw [uses_offer hoffer (congrArg Prod.fst hstep), Bool.false_and]
    · obtain ⟨kept, hentries, hkept⟩ := insert_entries s.cache s.now k' v sizeMb
      refine .inl ⟨_, kept, by rw [hstep]; exact hentries, hkept, fun k => ?_, rfl, .inl rfl⟩
      rw [uses_offer hoffer (congrArg Prod.fst hstep), Bool.true_and]
  | none =>
    cases x with
    | set => cases hoffer
    | setIfUnchanged => cases hoffer
    | get k' =>
      have hfound : (s.step (.get k')).1 = .found (s.cache.get s.now k').1 := rfl
      have hnext : (s.step (.get k')).2.cache = (s.cache.get s.now k').2 := rfl
      rcases get_cases s.cache s.now k' with ⟨-, hget⟩ | ⟨e, -, -, hget⟩ | ⟨e, hk, -, hget⟩
      · rw [hget] at hfound hnext
        exact .inr ⟨by rw [hnext], fun k => by simp [uses, hfound]⟩
      · rw [hget] at hfound hnext
        refine .inr ⟨?_, fun k => by simp [uses, hfound]⟩
        rw [hnext, remove_entries]
        exact without_sublist k' s.cache.entries
      · rw [hget] at hfound hnext
        obtain ⟨hmem, rfl⟩ := entry?_eq_some hk
        exact .inl ⟨{ e with usedAt := s.now }, _, by rw [hnext], List.Sublist.refl _,
          fun k => by simp [uses, hfound], rfl, .inr ⟨e, hmem, rfl⟩⟩
    | invalidate k' =>
      refine .inr ⟨?_, fun k => rfl⟩
      show (s.cache.invalidate k').entries.Sublist _
      rw [invalidate_entries]
      exact without_sublist k' s.cache.entries
    | invalidateDataset d => exact .inr ⟨foldl_remove_sublist _ _, fun k => rfl⟩
    | clear => exact .inr ⟨List.nil_sublist _, fun k => rfl⟩
    | _ => exact .inr ⟨List.Sublist.refl _, fun k => rfl⟩

theorem le_step_now (s : Session) (x : Step) : s.now ≤ (s.step x).2.now := by
  cases x with
  | advance ms => exact Nat.le_add_right _ _
  | _ => exact Nat.le_refl _

/-- A step that stores a set keeps the front of the list beside the new entry. -/
theorem stores_entries {s : Session} {k : FieldKey} {v : List Candidate} {x : Step}
    (h : s.Stores k v x) : ∃ e kept, (s.step x).2.cache.entries = e :: kept ∧ e.key = k ∧
      kept <+: without k s.cache.entries := by
  rcases s.step_offer h.1 with hstep | ⟨sizeMb, -, hstep⟩
  · have hrefused := h.2
    rw [hstep] at hrefused
    cases hrefused
  · obtain ⟨kept, hentries, hkept⟩ := insert_entries_prefix s.cache s.now k v sizeMb
    exact ⟨_, kept, by rw [hstep]; exact hentries, rfl, hkept⟩

/-! ## Times -/

/-- Whether the entries are in the order of the times of their last use, none of which lies ahead
or before the entry was stored. -/
structure Timed (s : Session) : Prop where
  order : s.cache.entries.Pairwise fun e e' => e'.usedAt ≤ e.usedAt
  created : ∀ e ∈ s.cache.entries, e.createdAt ≤ e.usedAt
  past : ∀ e ∈ s.cache.entries, e.usedAt ≤ s.now

theorem Timed.empty (settings : CacheSettings) : Timed { cache := { settings } } where
  order := List.Pairwise.nil
  created e he := by cases he
  past e he := by cases he

theorem Timed.step {s : Session} (h : s.Timed) (x : Step) : (s.step x).2.Timed := by
  have hnow := s.le_step_now x
  rcases s.step_entries x with ⟨e, kept, hentries, hkept, -, hused, hcreated⟩ | ⟨hsub, -⟩
  · have hold : ∀ e' ∈ kept, e' ∈ s.cache.entries := fun e' he' =>
      (mem_without.mp (hkept.subset he')).1
    refine ⟨?_, fun e' he' => ?_, fun e' he' => ?_⟩
    · rw [hentries, List.pairwise_cons]
      refine ⟨fun e' he' => ?_, h.order.sublist (hkept.trans (without_sublist _ _))⟩
      rw [hused]
      exact h.past e' (hold e' he')
    · rw [hentries] at he'
      rcases List.mem_cons.mp he' with rfl | he'
      · rcases hcreated with hcreated | ⟨e₀, he₀, hcreated⟩
        · rw [hcreated, hused]
        · -- an entry that is found again was stored before its earlier use
          rw [hused, ← hcreated]
          exact (h.created e₀ he₀).trans (h.past e₀ he₀)
      · exact h.created e' (hold e' he')
    · rw [hentries] at he'
      rcases List.mem_cons.mp he' with rfl | he'
      · rwa [hused]
      · exact (h.past e' (hold e' he')).trans hnow
  · exact ⟨h.order.sublist hsub, fun e he => h.created e (hsub.subset he),
      fun e he => (h.past e (hsub.subset he)).trans hnow⟩

theorem Timed.run {s : Session} (h : s.Timed) (steps : List Step) : (s.run steps).Timed := by
  induction steps generalizing s with
  | nil => exact h
  | cons x rest ih => exact ih (h.step x)

/-! ## Order of use -/

/-- Whether the entries after a run are in the order of the last uses of their keys, and have the
times of these uses. -/
structure Recent (start : Session) (steps : List Step) : Prop where
  order : (start.run steps).cache.entries.Pairwise fun e e' =>
    start.idle e.key steps < start.idle e'.key steps
  last : ∀ e ∈ (start.run steps).cache.entries,
    ∃ m, start.lastUse e.key steps = some m ∧ m.1.now = e.usedAt

theorem Recent.snoc {start : Session} {steps : List Step} (h : Recent start steps) (x : Step) :
    Recent start (steps ++ [x]) := by
  rcases (start.run steps).step_entries x with
    ⟨e, kept, hentries, hkept, huses, hused, -⟩ | ⟨hsub, huses⟩
  · -- the key that is used comes first, and all others are one step further away
    have hother : ∀ e' ∈ kept, ¬ (start.run steps).uses e'.key x = true := by
      intro e' he'
      rw [huses, decide_eq_true_iff]
      exact fun hkey => (mem_without.mp (hkept.subset he')).2 hkey.symm
    refine ⟨?_, fun e' he' => ?_⟩
    · rw [run_snoc, hentries, List.pairwise_cons]
      simp only [idle_snoc]
      have hsame : (start.run steps).uses e.key x = true := by simp [huses]
      refine ⟨fun e' he' => ?_, ?_⟩
      · rw [if_pos hsame, if_neg (hother e' he')]
        exact Nat.succ_pos _
      · refine (h.order.sublist (hkept.trans (without_sublist _ _))).imp_of_mem ?_
        intro a b ha hb hlt
        rw [if_neg (hother a ha), if_neg (hother b hb)]
        exact Nat.succ_lt_succ hlt
    · rw [run_snoc, hentries] at he'
      rw [lastUse_snoc]
      rcases List.mem_cons.mp he' with rfl | he'
      · exact ⟨_, if_pos (by simp [huses]), hused.symm⟩
      · rw [if_neg (hother e' he')]
        exact h.last e' (mem_without.mp (hkept.subset he')).1
  · refine ⟨?_, fun e he => ?_⟩
    · rw [run_snoc]
      refine (h.order.sublist hsub).imp ?_
      intro a b hlt
      rw [idle_snoc, idle_snoc, huses, huses]
      exact Nat.succ_lt_succ hlt
    · rw [run_snoc] at he
      rw [lastUse_snoc, huses]
      exact h.last e (hsub.subset he)

theorem recent_run (settings : CacheSettings) (steps : List Step) :
    Recent { cache := { settings } } steps := by
  induction steps using List.reverseRecOn with
  | nil => exact ⟨List.Pairwise.nil, fun e he => by cases he⟩
  | append_singleton steps x ih => exact ih.snoc x

/-! ## Eviction -/

/-- What is given up for a new entry was used no later than anything that stays. -/
theorem Timed.evicted_le {s : Session} (h : s.Timed) {k : FieldKey} {v : List Candidate} {x : Step}
    (hstores : s.Stores k v x) {gone stays : Entry} (hold : gone ∈ s.cache.entries)
    (hgone : gone.key ≠ k) (hout : gone ∉ (s.step x).2.cache.entries)
    (hin : stays ∈ (s.step x).2.cache.entries) (hstays : stays.key ≠ k) :
    gone.usedAt ≤ stays.usedAt := by
  obtain ⟨e, kept, hentries, hkey, rest, hrest⟩ := stores_entries hstores
  rw [hentries, List.mem_cons] at hout hin
  have horder : (kept ++ rest).Pairwise fun e e' => e'.usedAt ≤ e.usedAt := by
    rw [hrest]
    exact h.order.sublist (without_sublist k _)
  have hback : gone ∈ rest := by
    have hmem : gone ∈ kept ++ rest := by
      rw [hrest]
      exact mem_without.mpr ⟨hold, hgone⟩
    exact (List.mem_append.mp hmem).resolve_left fun hkept => hout (.inr hkept)
  have hfront : stays ∈ kept := hin.resolve_left fun heq => hstays (heq ▸ hkey)
  exact (List.pairwise_append.mp horder).2.2 stays hfront gone hback

/-- After any run the entries are in the order of their last use, which is when a set was accepted
for the key or a look-up found it: the times of these uses never increase from the most to the least
recently used entry, and none lies before the entry was stored or in the future. When room is then
made for another entry, whatever stays was used no earlier than anything that goes, so that nothing
that has expired stays while something goes that has not. -/
theorem run_recency (settings : CacheSettings) (steps : List Step) :
    let start : Session := { cache := { settings } }
    let s := start.run steps
    s.cache.entries.Pairwise (fun e e' => start.idle e.key steps < start.idle e'.key steps) ∧
      (∀ e ∈ s.cache.entries, ∃ m, start.lastUse e.key steps = some m ∧ m.1.now = e.usedAt) ∧
      s.cache.entries.Pairwise (fun e e' => e'.usedAt ≤ e.usedAt) ∧
      (∀ e ∈ s.cache.entries, e.createdAt ≤ e.usedAt ∧ e.usedAt ≤ s.now) ∧
      ∀ x k v, s.Stores k v x → ∀ gone ∈ s.cache.entries, gone.key ≠ k →
        gone ∉ (s.step x).2.cache.entries → ∀ stays ∈ (s.step x).2.cache.entries, stays.key ≠ k →
          gone.usedAt ≤ stays.usedAt ∧
            (s.cache.expired s.now stays = true → s.cache.expired s.now gone = true) := by
  intro start s
  have hrecent : Recent start steps := recent_run settings steps
  have htimed : s.Timed := (Timed.empty settings).run steps
  refine ⟨hrecent.order, hrecent.last, htimed.order,
    fun e he => ⟨htimed.created e he, htimed.past e he⟩, ?_⟩
  intro x k v hstores gone hold hgone hout stays hin hstays
  have hle := htimed.evicted_le hstores hold hgone hout hin hstays
  refine ⟨hle, fun hexpired => ?_⟩
  rw [expired_eq_true_iff] at hexpired ⊢
  omega

/-- An entry that has expired makes room, and one that was used since stays. -/
theorem run_recency_expired :
    let settings : CacheSettings := { budgetMb := 2, idleSecs := 1, bytesPerVector := 1048576 }
    let steps : List Step := [.set ⟨"d", "f"⟩ [⟨"a", [], 0⟩], .advance 600,
      .set ⟨"d", "g"⟩ [⟨"a", [], 0⟩], .advance 600]
    let s := run { cache := { settings } } steps
    let x : Step := .set ⟨"d", "h"⟩ [⟨"a", [], 0⟩]
    let gone : Entry := ⟨⟨"d", "f"⟩, [⟨"a", [], 0⟩], 1, 0, 0⟩
    let stays : Entry := ⟨⟨"d", "g"⟩, [⟨"a", [], 0⟩], 1, 600, 600⟩
    s.cache.entries = [stays, gone] ∧ stays ∈ (s.step x).2.cache.entries ∧
      gone ∉ (s.step x).2.cache.entries ∧ gone.usedAt ≤ stays.usedAt ∧
      s.cache.expired s.now gone = true ∧ s.cache.expired s.now stays = false := by
  intro settings steps s x gone stays
  have hentries : s.cache.entries = [stays, gone] := by decide +kernel
  have hin : stays ∈ (s.step x).2.cache.entries := by decide +kernel
  have hout : gone ∉ (s.step x).2.cache.entries := by decide +kernel
  have hstored : (s.cache.set s.now ⟨"d", "h"⟩ [⟨"a", [], 0⟩]).1 = true := by decide +kernel
  have hle := (run_recency settings steps).2.2.2.2 x _ _ ⟨rfl, congrArg Outcome.stored hstored⟩
    gone (by rw [hentries]; simp) (by decide) hout stays hin (by decide)
  exact ⟨hentries, hin, hout, hle.1, by decide +kernel, by decide +kernel⟩

end Session

end Cache

end EmbeddingSearch
