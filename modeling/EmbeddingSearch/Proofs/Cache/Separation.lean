import EmbeddingSearch.Proofs.Cache.Accounting
import EmbeddingSearch.Proofs.Cache.Hits

/-!
# Datasets in a cache

All datasets share one budget, one order of use and one history. As long as nothing has to be given
up for lack of memory, they do not notice each other: what the cache answers for one dataset is what
a cache without the other ones would answer.

The proof follows two runs side by side, that of all steps and that of the steps which do not name
another dataset. The entries of the second cache are those of the dataset in the first one. The
generations of the two have different numbers, and yet tell the same about every key of the dataset.

## Contents
- `within`: the entries of a dataset.
- `victims_eq_nil_iff`, `insert_of_room`: storing without eviction.
- `Step.foreign`, `Step.consults`, `Session.answers`: steps that name another dataset, those that
  ask for something of this one, and what a run answers to these.
- `Sound`: what holds of any session.
- `Agrees`: a session and one without the other datasets; `step_foreign` and `step_own` keep it.
- `run_separate`: two runs that answer the same.
-/

namespace EmbeddingSearch

namespace Cache

open Numeric

/-! ## Entries of a dataset -/

/-- The entries of a dataset. -/
def within (d : String) (entries : List Entry) : List Entry :=
  entries.filter fun e => e.key.dataset = d

section Within

variable {d : String} {k : FieldKey} (entries : List Entry)

theorem within_filter (p : Entry → Bool) :
    within d (entries.filter p) = (within d entries).filter p :=
  List.filter_comm _ _ entries

theorem within_cons_of_eq {e : Entry} (h : e.key.dataset = d) :
    within d (e :: entries) = e :: within d entries :=
  List.filter_cons_of_pos (decide_eq_true h)

theorem within_cons_of_ne {e : Entry} (h : e.key.dataset ≠ d) :
    within d (e :: entries) = within d entries :=
  List.filter_cons_of_neg (by simpa using h)

/-- What only leaves out entries of other datasets leaves all of this one. -/
theorem within_filter_of_foreign {p : Entry → Bool} (h : ∀ e, e.key.dataset = d → p e = true) :
    within d (entries.filter p) = within d entries := by
  rw [within_filter, List.filter_eq_self]
  intro e he
  exact h e (by simpa using (List.mem_filter.mp he).2)

theorem within_without (h : k.dataset ≠ d) : within d (without k entries) = within d entries := by
  refine within_filter_of_foreign entries fun e he => ?_
  exact decide_eq_true fun hkey => h (hkey ▸ he)

theorem find?_within (h : k.dataset = d) :
    (within d entries).find? (fun e => e.key = k) = entries.find? fun e => e.key = k := by
  rw [within, List.find?_filter]
  congr 1
  funext e
  by_cases hkey : e.key = k
  · simp [hkey, h]
  · simp [hkey]

end Within

/-! ## Storing without eviction -/

section Room

variable {c : Cache} {k : FieldKey} {size : Float} {count : Nat} {b : ℚ}

/-- Nothing is evicted for a set exactly if it fits beside everything that stays. -/
theorem victims_eq_nil_iff (hs : c.settings.Bounded) (h : Accounted c)
    (hsize : c.settings.admittedMb? count = some size)
    (hb : number? c.settings.budgetMb = some b) : c.victims k size = [] ↔
      megabytes (bytes c.settings (without k c.entries) + count * c.settings.bytesPerVector) ≤
        b := by
  obtain ⟨b', hb', -, hlt⟩ := hs.budget
  obtain rfl : b' = b := Option.some.inj (hb'.symm.trans hb)
  obtain ⟨-, hle, hmeasure⟩ := hs.admittedMb?_spec hsize
  have hfits := (le_iff_number hmeasure hb).mp hle
  have hrem := remove_accounted hs h k
  have hrev := bytes_perm (s := (c.remove k).settings) (List.reverse_perm (c.remove k).entries)
  rw [← remove_entries, ← remove_settings c k, ← hrev, victims, List.map_eq_nil_iff]
  rw [← remove_settings c k] at hb hmeasure hfits
  have hcounted : ∀ e ∈ (c.remove k).entries.reverse, e.Counted (c.remove k).settings :=
    fun e he => hrem.counted e (List.mem_reverse.mp he)
  have htotal := hrem.total
  have hbytes := hrem.bytes_le hb
  rw [← hrev] at htotal hbytes
  generalize (c.remove k).entries.reverse = entries at hcounted htotal hbytes ⊢
  constructor
  · intro hnone
    have hroom := (evict_spec hb hlt hmeasure hfits hcounted htotal hbytes).2
    have hall := evicted_append_evict (c.remove k).settings.budgetMb size (c.remove k).usedMb
      entries
    rw [hnone, List.nil_append] at hall
    rwa [hall] at hroom
  · intro hroom
    have hsum := htotal.add hmeasure (megabytes_lt.mp (hroom.trans_lt hlt))
    have hnot : ¬ (c.remove k).usedMb + size > (c.remove k).settings.budgetMb := fun hgt =>
      absurd ((lt_iff_number hb hsum).mp hgt) (not_lt.mpr hroom)
    cases entries with
    | nil => rfl
    | cons e rest => rw [evicted, if_neg hnot]

theorem insert_of_room (h : c.victims k size = []) (now : Nat) (candidates : List Candidate) :
    (c.insert now k candidates size).entries =
      ⟨k, candidates, size, now, now⟩ :: without k c.entries := by
  rw [victims, List.map_eq_nil_iff] at h
  have hall := evicted_append_evict (c.remove k).settings.budgetMb size (c.remove k).usedMb
    (c.remove k).entries.reverse
  rw [h, List.nil_append] at hall
  show _ :: (evict _ _ _ _).1.reverse = _
  rw [hall, List.reverse_reverse, remove_entries]

end Room

/-! ## A cache and one without the other datasets -/

section Restricted

variable {c c' : Cache} {d : String} {k : FieldKey} {v : List Candidate}

theorem get_within (hsettings : c'.settings = c.settings)
    (hentries : c'.entries = within d c.entries) (hk : k.dataset = d) (now : Nat) :
    (c'.get now k).1 = (c.get now k).1 ∧
      (c'.get now k).2.entries = within d (c.get now k).2.entries := by
  have hentry : c'.entry? k = c.entry? k := by
    rw [ entry?, hentries, find?_within _ hk, entry?]
  have hwithout : without k c'.entries = within d (without k c.entries) := by
    rw [hentries, without, without, within_filter]
  have hexpired : ∀ e, c'.expired now e = c.expired now e := fun e => by
    rw [expired, hsettings, expired]
  rcases get_cases c now k with ⟨hnone, hget⟩ | ⟨e, hsome, hlate, hget⟩ | ⟨e, hsome, htime, hget⟩
  · have hget' : c'.get now k = (none, c') := by
      rw [get, hentry, hnone]
    rw [hget, hget']
    exact ⟨rfl, hentries⟩
  · have hget' : c'.get now k = (none, c'.remove k) := by
      rw [get, hentry, hsome]
      simp [hexpired, hlate]
    rw [hget, hget', remove_entries, remove_entries]
    exact ⟨rfl, hwithout⟩
  · have hget' : c'.get now k = (some e.candidates,
        { c' with entries := { e with usedAt := now } :: without k c'.entries }) := by
      rw [get, hentry, hsome]
      simp [hexpired, htime]
    rw [hget, hget']
    refine ⟨rfl, ?_⟩
    have hkey : e.key = k := (entry?_eq_some hsome).2
    rw [hwithout, within_cons_of_eq]
    exact hkey ▸ hk

theorem within_get (hk : k.dataset ≠ d) (now : Nat) :
    within d (c.get now k).2.entries = within d c.entries := by
  rcases get_cases c now k with ⟨-, hget⟩ | ⟨e, -, -, hget⟩ | ⟨e, hsome, -, hget⟩
  · rw [hget]
  · rw [hget, remove_entries, within_without _ hk]
  · have hkey : e.key = k := (entry?_eq_some hsome).2
    rw [hget, within_cons_of_ne, within_without _ hk]
    exact hkey ▸ hk

theorem set_within (hs : c.settings.Bounded) (h : Accounted c) (h' : Accounted c')
    (hsettings : c'.settings = c.settings) (hentries : c'.entries = within d c.entries)
    (hk : k.dataset = d) (hroom : ∀ size, c.settings.admittedMb? v.length = some size →
      c.victims k size = []) (now : Nat) :
    (c'.set now k v).1 = (c.set now k v).1 ∧
      (c'.set now k v).2.entries = within d (c.set now k v).2.entries := by
  rw [set, set, hsettings]
  cases hsize : c.settings.admittedMb? v.length with
  | none => exact ⟨rfl, hentries⟩
  | some size =>
    have hwithout : without k c'.entries = within d (without k c.entries) := by
      rw [hentries, without, without, within_filter]
    -- what fits beside all entries fits beside those of the dataset
    have hroom' : c'.victims k size = [] := by
      obtain ⟨b, hb, -⟩ := hs.budget
      have hfits := (victims_eq_nil_iff hs h hsize hb).mp (hroom size hsize)
      rw [← hsettings] at hs hb hsize hfits
      refine (victims_eq_nil_iff hs h' hsize hb).mpr (le_trans (megabytes_mono ?_) hfits)
      rw [hwithout]
      exact Nat.add_le_add_right
        (List.Sublist.sum_le_sum (List.filter_sublist.map _) fun _ _ => Nat.zero_le _) _
    refine ⟨rfl, ?_⟩
    rw [insert_of_room (hroom size hsize), insert_of_room hroom', hwithout, within_cons_of_eq]
    exact hk

theorem within_set (hk : k.dataset ≠ d) (hroom : ∀ size,
      c.settings.admittedMb? v.length = some size → c.victims k size = []) (now : Nat) :
    within d (c.set now k v).2.entries = within d c.entries := by
  rw [set]
  cases hsize : c.settings.admittedMb? v.length with
  | none => rfl
  | some size =>
    rw [insert_of_room (hroom size hsize), within_cons_of_ne, within_without _ hk]
    exact hk

end Restricted

/-! ## Steps and datasets -/

/-- Whether a step names another dataset than `d`. -/
def Step.foreign (d : String) : Step → Bool
  | .get k | .set k _ | .setIfUnchanged k _ _ | .invalidate k => k.dataset ≠ d
  | .invalidateDataset d' => d' ≠ d
  | _ => false

/-- Whether a step looks up a key of a dataset, or offers a set for one. -/
def Step.consults (d : String) : Step → Bool
  | .get k | .set k _ | .setIfUnchanged k _ _ => k.dataset = d
  | _ => false

/-- The slot in which a step keeps the present generation. -/
def Step.slot? : Step → Option String
  | .generation slot _ => some slot
  | _ => none

theorem Step.not_invalidates_of_foreign {d : String} {x : Step} (h : x.foreign d = true)
    {k : FieldKey} (hk : k.dataset = d) : ¬ x.Invalidates k := by
  cases x with
  | invalidate k' =>
    rintro rfl
    exact of_decide_eq_true h hk
  | invalidateDataset d' =>
    rintro rfl
    exact of_decide_eq_true h hk
  | clear => cases h
  | _ => exact id

theorem Step.slot?_of_foreign {d : String} {x : Step} (h : x.foreign d = true) :
    x.slot? = none := by
  cases x with
  | generation => cases h
  | _ => rfl

theorem Step.consults_of_foreign {d : String} {x : Step} (h : x.foreign d = true) :
    x.consults d = false := by
  cases x with
  | get => exact decide_eq_false (of_decide_eq_true h)
  | set => exact decide_eq_false (of_decide_eq_true h)
  | setIfUnchanged => exact decide_eq_false (of_decide_eq_true h)
  | _ => rfl

namespace Session

/-- The steps of a run that consult a dataset, each with its result. -/
def answers (start : Session) (d : String) (steps : List Step) : List (Step × Outcome) :=
  ((start.moments steps).filter fun m => m.2.consults d).map fun m => (m.2, (m.1.step m.2).1)

theorem answers_cons (s : Session) (d : String) (x : Step) (rest : List Step) :
    s.answers d (x :: rest) =
      (if x.consults d then [(x, (s.step x).1)] else []) ++ (s.step x).2.answers d rest := by
  rw [answers, moments, List.filter_cons]
  cases x.consults d <;> rfl

/-- The keys of the entries that are given up for what a step stores. -/
def gives (s : Session) (x : Step) : List FieldKey :=
  match x.offer?, (s.step x).1 with
  | some (k, v), .stored true => (s.cache.settings.admittedMb? v.length).elim [] (s.cache.victims k)
  | _, _ => []

theorem mem_gives {s : Session} {x : Step} {k : FieldKey} : k ∈ s.gives x ↔ s.Evicts k x := by
  constructor
  · intro hmem
    unfold gives at hmem
    split at hmem
    · next k' v hoffer hstored =>
      cases hsize : s.cache.settings.admittedMb? v.length with
      | none =>
        rw [hsize] at hmem
        cases hmem
      | some size =>
        rw [hsize] at hmem
        exact ⟨k', v, size, ⟨hoffer, hstored⟩, hsize, hmem⟩
    · cases hmem
  · rintro ⟨k', v, size, ⟨hoffer, hstored⟩, hsize, hmem⟩
    unfold gives
    rw [hoffer, hstored]
    show k ∈ (s.cache.settings.admittedMb? v.length).elim [] (s.cache.victims k')
    rwa [hsize]

/-- A set that was loaded is refused because it may be out of date, or it is treated as a new
one. -/
theorem step_setIfUnchanged (s : Session) (k : FieldKey) (v : List Candidate) (slot : String) :
    s.step (.setIfUnchanged k v slot) =
      if s.cache.history.touchedSince k (s.slot slot) then (.stored false, s)
      else s.step (.set k v) := by
  simp only [step, setIfUnchanged_eq]
  split <;> rfl

/-- What is stored by a step that evicts nothing has room beside everything else. -/
theorem victims_of_not_evicts {s : Session} {x : Step} (h : ∀ k, ¬ s.Evicts k x) {k : FieldKey}
    {v : List Candidate} (hoffer : x.offer? = some (k, v)) (hset : s.step x = s.step (.set k v))
    (size : Float) (hsize : s.cache.settings.admittedMb? v.length = some size) :
    s.cache.victims k size = [] := by
  have hstored : (s.step (.set k v)).1 = .stored true := by
    simp [step, Cache.set, hsize]
  refine List.eq_nil_iff_forall_not_mem.mpr fun k' hmem => h k' ?_
  exact ⟨k, v, size, ⟨hoffer, hset ▸ hstored⟩, hsize, hmem⟩

/-! ## One session -/

/-- What holds of any session that began with an empty cache: sizes are exact, and neither what is
recorded nor a generation that was kept lies ahead of the present one. -/
structure Sound (s : Session) : Prop where
  bounded : s.cache.settings.Bounded
  accounted : Accounted s.cache
  timely : Timely s.cache.history
  slots : ∀ name, (s.slot name).invalidations ≤ s.cache.history.count

theorem Sound.empty {settings : CacheSettings} (hs : settings.Bounded) :
    Sound { cache := { settings } } where
  bounded := hs
  accounted := empty_accounted hs
  timely := timely_empty
  slots _ := Nat.le_refl 0

/-- What a slot holds after a step: the generation of this moment, or what it held before. -/
theorem slot_step (s : Session) (x : Step) (name : String) :
    (s.step x).2.slot name =
      if x.slot? = some name then s.cache.history.now else s.slot name := by
  cases x with
  | generation slot than =>
    show ((List.lookup name ((slot, s.cache.history.now) :: s.slots)).getD ⟨0⟩) = _
    rw [List.lookup_cons]
    by_cases hname : slot = name
    · subst hname
      simp [Step.slot?]
    · have hne : (name == slot) = false := beq_eq_false_iff_ne.mpr (Ne.symm hname)
      simp [Step.slot?, hname, hne, Session.slot]
  | _ => rfl

theorem Sound.step {s : Session} (h : s.Sound) (x : Step) : (s.step x).2.Sound := by
  obtain ⟨haccounted, hsettings⟩ := step_accounted h.bounded h.accounted x
  refine ⟨hsettings ▸ h.bounded, haccounted, ?_, fun name => ?_⟩
  · rw [step_history]
    exact h.timely.record x
  · have hcount : s.cache.history.count ≤ (s.step x).2.cache.history.count := by
      rw [step_history, Step.record_count]
      exact Nat.le_add_right _ _
    rw [slot_step]
    split
    · exact hcount
    · exact (h.slots name).trans hcount

/-- Whether a key has been invalidated since the generation in a slot was taken, after one more
step. -/
theorem Sound.touched_step {s : Session} (h : s.Sound) (x : Step) (k : FieldKey) (name : String) :
    (s.step x).2.cache.history.touchedSince k ((s.step x).2.slot name) = true ↔
      x.slot? ≠ some name ∧
        (s.cache.history.touchedSince k (s.slot name) = true ∨ x.Invalidates k) := by
  rw [slot_step, step_history]
  by_cases hslot : x.slot? = some name
  · -- nothing has been invalidated since now
    have hnow : (x.record s.cache.history).touchedSince k s.cache.history.now = false := by
      cases x with
      | generation => exact h.timely k
      | _ => cases hslot
    rw [if_pos hslot, hnow]
    simp [hslot]
  · rw [if_neg hslot, Step.touchedSince_record (h.slots name)]
    simp [hslot]

/-! ## A session and one without the other datasets -/

/-- Whether a session holds of another one exactly what it holds for a dataset. Its generations may
be different ones; what they tell about the keys of the dataset is the same. -/
structure Agrees (d : String) (s s' : Session) : Prop where
  settings : s'.cache.settings = s.cache.settings
  now : s'.now = s.now
  entries : s'.cache.entries = within d s.cache.entries
  touched : ∀ k : FieldKey, k.dataset = d → ∀ name,
    s'.cache.history.touchedSince k (s'.slot name) = s.cache.history.touchedSince k (s.slot name)

section Steps

variable {d : String} {s s' : Session} {x : Step}

theorem step_now_of_foreign (hx : x.foreign d = true) : (s.step x).2.now = s.now := by
  cases x with
  | advance => cases hx
  | _ => rfl

theorem step_now_congr (h : s'.now = s.now) : (s'.step x).2.now = (s.step x).2.now := by
  cases x with
  | advance ms => exact congrArg (· + ms) h
  | _ => exact h

/-- A step that names another dataset leaves the entries of this one. -/
theorem within_step (hx : x.foreign d = true) (hroom : ∀ k, ¬ s.Evicts k x) :
    within d (s.step x).2.cache.entries = within d s.cache.entries := by
  cases x with
  | get k => exact within_get (of_decide_eq_true hx) s.now
  | set k v =>
    exact within_set (of_decide_eq_true hx) (victims_of_not_evicts hroom rfl rfl) s.now
  | setIfUnchanged k v slot =>
    have hstep := s.step_setIfUnchanged k v slot
    split at hstep
    · rw [hstep]
    · rw [hstep]
      exact within_set (of_decide_eq_true hx) (victims_of_not_evicts hroom rfl hstep) s.now
  | invalidate k =>
    show within d (s.cache.invalidate k).entries = _
    rw [invalidate_entries, within_without _ (of_decide_eq_true hx)]
  | invalidateDataset d' =>
    have hd : d' ≠ d := of_decide_eq_true hx
    show within d (s.cache.invalidateDataset d').entries = _
    rw [invalidateDataset_entries]
    refine within_filter_of_foreign _ fun e he => ?_
    rw [he]
    exact decide_eq_true hd.symm
  | _ => cases hx

theorem Agrees.step_set (h : Agrees d s s') (hs : s.Sound) (hs' : s'.Sound) {k : FieldKey}
    {v : List Candidate} (hk : k.dataset = d) (hroom : ∀ size,
      s.cache.settings.admittedMb? v.length = some size → s.cache.victims k size = []) :
    (s'.step (.set k v)).2.cache.entries = within d (s.step (.set k v)).2.cache.entries ∧
      (s'.step (.set k v)).1 = (s.step (.set k v)).1 := by
  obtain ⟨hresult, hentries⟩ := set_within hs.bounded hs.accounted hs'.accounted h.settings
    h.entries hk hroom s.now
  show (s'.cache.set s'.now k v).2.entries = within d (s.cache.set s.now k v).2.entries ∧
    Outcome.stored (s'.cache.set s'.now k v).1 = .stored (s.cache.set s.now k v).1
  rw [h.now]
  exact ⟨hentries, congrArg Outcome.stored hresult⟩

/-- A step that names no other dataset does the same to the entries of this one whether or not there
are others, and gives the same result if it consults the dataset. -/
theorem Agrees.step_entries (h : Agrees d s s') (hs : s.Sound) (hs' : s'.Sound)
    (hx : x.foreign d = false) (hroom : ∀ k, ¬ s.Evicts k x) :
    (s'.step x).2.cache.entries = within d (s.step x).2.cache.entries ∧
      (x.consults d = true → (s'.step x).1 = (s.step x).1) := by
  cases x with
  | get k =>
    have hk : k.dataset = d := not_not.mp (of_decide_eq_false hx)
    obtain ⟨hfound, hentries⟩ := get_within h.settings h.entries hk s.now
    show (s'.cache.get s'.now k).2.entries = within d (s.cache.get s.now k).2.entries ∧
      (_ → Outcome.found (s'.cache.get s'.now k).1 = .found (s.cache.get s.now k).1)
    rw [h.now]
    exact ⟨hentries, fun _ => congrArg Outcome.found hfound⟩
  | set k v =>
    have hk : k.dataset = d := not_not.mp (of_decide_eq_false hx)
    obtain ⟨hentries, hresult⟩ := h.step_set hs hs' hk (victims_of_not_evicts hroom rfl rfl)
    exact ⟨hentries, fun _ => hresult⟩
  | setIfUnchanged k v slot =>
    have hk : k.dataset = d := not_not.mp (of_decide_eq_false hx)
    have hstep := s.step_setIfUnchanged k v slot
    have hstep' := s'.step_setIfUnchanged k v slot
    -- the generations may differ in number, but not in what they say about the key
    rw [h.touched k hk slot] at hstep'
    split at hstep
    · next htouched =>
      rw [if_pos htouched] at hstep'
      rw [hstep, hstep']
      exact ⟨h.entries, fun _ => rfl⟩
    · next hfresh =>
      rw [if_neg hfresh] at hstep'
      obtain ⟨hentries, hresult⟩ :=
        h.step_set hs hs' hk (victims_of_not_evicts hroom rfl hstep)
      rw [hstep, hstep']
      exact ⟨hentries, fun _ => hresult⟩
  | invalidate k =>
    refine ⟨?_, fun hd => by cases hd⟩
    show (s'.cache.invalidate k).entries = within d (s.cache.invalidate k).entries
    rw [invalidate_entries, invalidate_entries, h.entries, without, without, within_filter]
  | invalidateDataset d' =>
    refine ⟨?_, fun hd => by cases hd⟩
    show (s'.cache.invalidateDataset d').entries = within d (s.cache.invalidateDataset d').entries
    rw [invalidateDataset_entries, invalidateDataset_entries, h.entries, within_filter]
  | clear => exact ⟨rfl, fun hd => by cases hd⟩
  | _ => exact ⟨h.entries, fun hd => by cases hd⟩

/-- A step that names another dataset changes nothing that matters to this one. -/
theorem Agrees.step_foreign (h : Agrees d s s') (hs : s.Sound) (hx : x.foreign d = true)
    (hroom : ∀ k, ¬ s.Evicts k x) : Agrees d (s.step x).2 s' where
  settings := by rw [step_settings, h.settings]
  now := by rw [step_now_of_foreign hx, h.now]
  entries := by rw [within_step hx hroom, h.entries]
  touched k hk name := by
    rw [h.touched k hk name, Bool.eq_iff_iff, hs.touched_step, Step.slot?_of_foreign hx]
    simp [Step.not_invalidates_of_foreign hx hk]

/-- A step that names no other dataset changes both sessions in the same way. -/
theorem Agrees.step_own (h : Agrees d s s') (hs : s.Sound) (hs' : s'.Sound)
    (hx : x.foreign d = false) (hroom : ∀ k, ¬ s.Evicts k x) :
    Agrees d (s.step x).2 (s'.step x).2 where
  settings := by rw [step_settings, step_settings, h.settings]
  now := step_now_congr h.now
  entries := (h.step_entries hs hs' hx hroom).1
  touched k hk name := by
    rw [Bool.eq_iff_iff, hs.touched_step, hs'.touched_step, h.touched k hk name]

end Steps

/-! ## Runs -/

theorem Agrees.answers {d : String} {s s' : Session} (h : Agrees d s s') (hs : s.Sound)
    (hs' : s'.Sound) {steps : List Step}
    (hroom : ∀ m ∈ s.moments steps, ∀ k, ¬ m.1.Evicts k m.2) :
    s.answers d steps = s'.answers d (steps.filter fun x => !x.foreign d) := by
  -- a step that names another dataset is taken by the first session only, and others by both
  induction steps generalizing s s' with
  | nil => rfl
  | cons x rest ih =>
    have hnow : ∀ k, ¬ s.Evicts k x := hroom (s, x) List.mem_cons_self
    have hlater : ∀ m ∈ (s.step x).2.moments rest, ∀ k, ¬ m.1.Evicts k m.2 := fun m hm =>
      hroom m (List.mem_cons_of_mem _ hm)
    rw [answers_cons]
    cases hx : x.foreign d with
    | true =>
      rw [List.filter_cons_of_neg (by simp [hx]), Step.consults_of_foreign hx,
        if_neg Bool.false_ne_true, List.nil_append]
      exact ih (h.step_foreign hs hx hnow) (hs.step x) hs' hlater
    | false =>
      have hrest := ih (h.step_own hs hs' hx hnow) (hs.step x) (hs'.step x) hlater
      have hresult := (h.step_entries hs hs' hx hnow).2
      rw [List.filter_cons_of_pos (by simp [hx]), answers_cons, hrest]
      congr 1
      split
      · next hd => rw [hresult hd]
      · rfl

/-- As long as nothing is evicted, what a cache answers to look-ups and sets of a dataset is what it
would answer without any step that names another dataset, whatever these steps are. -/
theorem run_separate {settings : CacheSettings} (hs : settings.Bounded) (d : String)
    {steps : List Step} : let start : Session := { cache := { settings } }
    (∀ m ∈ start.moments steps, ∀ k, ¬ m.1.Evicts k m.2) →
      start.answers d steps = start.answers d (steps.filter fun x => !x.foreign d) := by
  intro start hroom
  exact Agrees.answers ⟨rfl, rfl, rfl, fun _ _ _ => rfl⟩ (Sound.empty hs) (Sound.empty hs) hroom

/-- Two datasets of which the other one is invalidated twice: a set that was loaded before is still
stored, although the generation that it was loaded at has another number. -/
theorem run_separate_invalidated :
    let settings : CacheSettings := { budgetMb := 1, maxVectors := 4, bytesPerVector := 100000 }
    let start : Session := { cache := { settings } }
    let steps : List Step := [.set ⟨"a", "f"⟩ [⟨"r", [], 0⟩], .invalidate ⟨"b", "f"⟩,
      .generation "g" none, .set ⟨"b", "f"⟩ [⟨"q", [], 0⟩], .invalidateDataset "b",
      .setIfUnchanged ⟨"a", "g"⟩ [⟨"r", [], 0⟩] "g", .get ⟨"a", "f"⟩, .clear,
      .setIfUnchanged ⟨"a", "f"⟩ [⟨"r", [], 0⟩] "g", .get ⟨"a", "g"⟩]
    settings.Bounded ∧ (∀ m ∈ start.moments steps, ∀ k, ¬ m.1.Evicts k m.2) ∧
      (start.run (steps.take 3)).slot "g" ≠
        (start.run ((steps.take 3).filter fun x => !x.foreign "a")).slot "g" ∧
      start.answers "a" steps = start.answers "a" (steps.filter fun x => !x.foreign "a") := by
  intro settings start steps
  have hs : settings.Bounded := ⟨by decide, by decide, by decide, by decide⟩
  have hroom : ∀ m ∈ start.moments steps, ∀ k, ¬ m.1.Evicts k m.2 := by
    have hgives : ∀ m ∈ start.moments steps, m.1.gives m.2 = [] := by decide +kernel
    intro m hm k
    rw [← mem_gives, hgives m hm]
    exact List.not_mem_nil
  exact ⟨hs, hroom, by decide +kernel, run_separate hs "a" hroom⟩

end Session

end Cache

end EmbeddingSearch
