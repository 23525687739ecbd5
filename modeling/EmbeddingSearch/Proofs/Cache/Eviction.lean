import EmbeddingSearch.Proofs.Cache.Accounting
import EmbeddingSearch.Proofs.Cache.Generations

/-!
# What makes room

A set that is not refused goes to the front of the entries, and the others stay behind it as far as
the budget goes: of all the fronts of the list that fit beside the new entry the longest is kept.
None is given up without need, and sums that had to be rounded make no difference.

## Contents
- `evict_longest`: making room keeps as much as fits.
- `exactMb?`: the sizes of entries added up without rounding.
- `insert_longest`: the same for an entry that is stored.
- `set_refused_iff`, `set_of_refused`, `set_of_stored`: what is refused, and what is stored.
- `Session.run_evicts_minimally`: what becomes of a set that is offered after any run.
-/

namespace EmbeddingSearch

namespace Cache

open Numeric

/-! ## Making room -/

/-- Whatever is longer than what is kept does not fit beside the new size. -/
theorem evict_longest {s : CacheSettings} {b : ℚ} (hb : number? s.budgetMb = some b)
    (hlt : b < 2 ^ 33) {size : Float} {n : Nat} (hsize : Measures size n) {entries : List Entry}
    (hcounted : ∀ e ∈ entries, e.Counted s) {total : Float}
    (htotal : Measures total (bytes s entries)) (hfits : megabytes (bytes s entries) ≤ b)
    (longer : List Entry) (hsuffix : longer <:+ entries)
    (hlonger : (evict s.budgetMb size total entries).1.length < longer.length) :
    b < megabytes (bytes s longer + n) := by
  induction entries generalizing total with
  | nil =>
    rw [List.suffix_nil.mp hsuffix] at hlonger
    exact absurd hlonger (Nat.not_lt_zero _)
  | cons e rest ih =>
    unfold evict at hlonger
    by_cases hroom : total + size > s.budgetMb
    · rw [if_pos hroom] at hlonger
      rcases List.suffix_cons_iff.mp hsuffix with rfl | hsuffix
      · exact htotal.lt_of_over_budget hb hlt hsize hroom
      · -- what is left is a smaller account, within the budget as before
        have hsmall := megabytes_lt.mp (hfits.trans_lt hlt)
        have he := hcounted e List.mem_cons_self
        refine ih (fun e' he' => hcounted e' (List.mem_cons_of_mem e he'))
          (release_measures htotal he hsmall) (le_trans (megabytes_mono ?_) hfits) hsuffix hlonger
        rw [bytes_cons]
        exact Nat.le_add_left _ _
    · -- nothing is given up, and nothing is longer than all
      rw [if_neg hroom] at hlonger
      exact absurd hsuffix.length_le (Nat.not_le.mpr hlonger)

/-! ## Exact sums -/

/-- The recorded sizes of entries, added up without rounding. -/
def exactMb? (entries : List Entry) : Option ℚ :=
  (entries.mapM fun e => number? e.sizeMb).map List.sum

theorem exactMb?_counted {s : CacheSettings} {entries : List Entry}
    (h : ∀ e ∈ entries, e.Counted s) : exactMb? entries = some (megabytes (bytes s entries)) := by
  have hsizes : entries.mapM (fun e => number? e.sizeMb) =
      some (entries.map fun e => megabytes (e.bytes s)) := by
    induction entries with
    | nil => rfl
    | cons e rest ih =>
      rw [List.mapM_cons, ih fun e' he' => h e' (List.mem_cons_of_mem e he'),
        (h e List.mem_cons_self).size]
      rfl
  rw [exactMb?, hsizes, Option.map_some, megabytes_bytes]

/-! ## Storing -/

/-- The account of the entries of other keys, listed with the least recently used one first, as room
is made for a set of this key. -/
theorem Accounted.others {c : Cache} (hs : c.settings.Bounded) (h : Accounted c) {b : ℚ}
    (hb : number? c.settings.budgetMb = some b) (k : FieldKey) :
    (∀ e ∈ (without k c.entries).reverse, e.Counted c.settings) ∧
      Measures (c.remove k).usedMb (bytes c.settings (without k c.entries).reverse) ∧
      megabytes (bytes c.settings (without k c.entries).reverse) ≤ b := by
  have hrem := remove_accounted hs h k
  have htotal := hrem.total
  have hfits := hrem.bytes_le (by rwa [remove_settings])
  rw [remove_settings, remove_entries] at htotal hfits
  rw [bytes_perm (List.reverse_perm _)]
  exact ⟨fun e he => h.counted e (mem_without.mp (List.mem_reverse.mp he)).1, htotal, hfits⟩

theorem insert_entries_evict (c : Cache) (now : Nat) (k : FieldKey) (candidates : List Candidate)
    (sizeMb : Float) : (c.insert now k candidates sizeMb).entries =
      ⟨k, candidates, sizeMb, now, now⟩ :: (evict c.settings.budgetMb sizeMb (c.remove k).usedMb
        (without k c.entries).reverse).1.reverse := by
  rw [← remove_entries, ← remove_settings c k]
  rfl

/-- An entry that is stored keeps beside it the longest front of the others that fits. -/
theorem insert_longest {c : Cache} (hs : c.settings.Bounded) (h : Accounted c) {b : ℚ}
    (hb : number? c.settings.budgetMb = some b) (now : Nat) (k : FieldKey)
    (candidates : List Candidate) {size : Float}
    (hsize : c.settings.admittedMb? candidates.length = some size) :
    ∃ kept gone m, (c.insert now k candidates size).entries =
        ⟨k, candidates, size, now, now⟩ :: kept ∧ without k c.entries = kept ++ gone ∧
      exactMb? (⟨k, candidates, size, now, now⟩ :: kept) = some m ∧ m ≤ b ∧
      ∀ front, front <+: without k c.entries → kept.length < front.length →
        ∃ m, exactMb? (⟨k, candidates, size, now, now⟩ :: front) = some m ∧ b < m := by
  obtain ⟨b', hb', -, hlt⟩ := hs.budget
  obtain rfl := Option.some.inj (hb.symm.trans hb')
  obtain ⟨hcount, hle, hmeasure⟩ := hs.admittedMb?_spec hsize
  have hfits := (le_iff_number hmeasure hb).mp hle
  obtain ⟨hcounted, htotal, hwithin⟩ := h.others hs hb k
  -- the new entry with some of the others takes its own bytes and theirs
  have hmemory : ∀ others, (∀ e ∈ others, e ∈ without k c.entries) →
      exactMb? (⟨k, candidates, size, now, now⟩ :: others) = some (megabytes
        (bytes c.settings others + candidates.length * c.settings.bytesPerVector)) := by
    intro others hothers
    have hall : ∀ e ∈ (⟨k, candidates, size, now, now⟩ :: others : List Entry),
        e.Counted c.settings :=
      List.forall_mem_cons.mpr
        ⟨⟨hcount, hmeasure⟩, fun e he => hcounted e (List.mem_reverse.mpr (hothers e he))⟩
    rw [exactMb?_counted hall, bytes_cons, Nat.add_comm]
    rfl
  have hroom := evict_spec hb hlt hmeasure hfits hcounted htotal hwithin
  have hlongest := evict_longest hb hlt hmeasure hcounted htotal hwithin
  have hsuffix := evict_suffix c.settings.budgetMb size (c.remove k).usedMb
    (without k c.entries).reverse
  rw [insert_entries_evict]
  generalize evict c.settings.budgetMb size (c.remove k).usedMb (without k c.entries).reverse = r
    at hroom hlongest hsuffix ⊢
  -- the list is in the other order here, so what is kept is a front of it
  obtain ⟨gone, hgone⟩ : r.1.reverse <+: without k c.entries := by
    rwa [← List.reverse_suffix, List.reverse_reverse]
  refine ⟨r.1.reverse, gone, _, rfl, hgone.symm, hmemory _ ?_, ?_, ?_⟩
  · intro e he
    rw [← hgone]
    exact List.mem_append_left _ he
  · rw [bytes_perm (List.reverse_perm r.1)]
    exact hroom.2
  · intro front hfront hlonger
    refine ⟨_, hmemory front fun e he => hfront.subset he, ?_⟩
    rw [← bytes_perm (List.reverse_perm front)]
    exact hlongest _ (List.reverse_suffix.mpr hfront) (by simpa using hlonger)

/-! ## Refusals -/

/-- A set is admitted if it is within both limits, and then with its estimated size. -/
theorem admittedMb?_eq_some_iff (s : CacheSettings) (count : Nat) (size : Float) :
    s.admittedMb? count = some size ↔
      ¬ (s.maxVectors < count ∨ s.budgetMb < s.estimateMb count) ∧ size = s.estimateMb count := by
  unfold CacheSettings.admittedMb?
  by_cases hcount : count > s.maxVectors
  · simp [hcount]
  · by_cases hsize : s.estimateMb count > s.budgetMb
    · simp [hsize]
    · simp [hcount, hsize, eq_comm]

/-- What is offered and refused is too large, and leaves everything as it is. -/
theorem set_refused_iff (c : Cache) (now : Nat) (k : FieldKey) (v : List Candidate) :
    (c.set now k v).1 = false ↔ (c.settings.maxVectors < v.length ∨
      c.settings.budgetMb < c.settings.estimateMb v.length) := by
  have hadmitted := admittedMb?_eq_some_iff c.settings v.length
  unfold Cache.set
  cases hsize : c.settings.admittedMb? v.length with
  | none =>
    -- otherwise it would have been admitted
    refine iff_of_true rfl (by_contra fun hroom => ?_)
    rw [(hadmitted _).mpr ⟨hroom, rfl⟩] at hsize
    cases hsize
  | some size => exact iff_of_false (by simp) ((hadmitted size).mp hsize).1

theorem set_of_refused {c : Cache} {now : Nat} {k : FieldKey} {v : List Candidate}
    (h : (c.set now k v).1 = false) : (c.set now k v).2 = c := by
  unfold Cache.set at h ⊢
  cases hsize : c.settings.admittedMb? v.length with
  | none => rfl
  | some size =>
    rw [hsize] at h
    cases h

/-- What is offered and not refused is stored with its estimated size. -/
theorem set_of_stored {c : Cache} {now : Nat} {k : FieldKey} {v : List Candidate}
    (h : (c.set now k v).1 = true) :
    c.settings.admittedMb? v.length = some (c.settings.estimateMb v.length) ∧
      (c.set now k v).2 = c.insert now k v (c.settings.estimateMb v.length) := by
  unfold Cache.set at h ⊢
  cases hsize : c.settings.admittedMb? v.length with
  | none =>
    rw [hsize] at h
    cases h
  | some size =>
    obtain rfl := ((admittedMb?_eq_some_iff c.settings v.length size).mp hsize).2
    exact ⟨rfl, rfl⟩

namespace Session

/-- After any run, a set that is offered is refused just when it has too many vectors or is
estimated to be larger than the whole budget, and then everything stays as it is. Otherwise it
becomes the first entry, and of the other entries, without an older one of its key, the longest
front stays whose sizes and the new one add up exactly to no more than the budget; these entries are
in the same order and have not changed. A set that was loaded earlier and has not been invalidated
since is treated in the same way. -/
theorem run_evicts_minimally {settings : CacheSettings} (hs : settings.Bounded)
    (steps : List Step) (now : Nat) (k : FieldKey) (v : List Candidate) :
    let c := (run { cache := { settings } } steps).cache
    let e : Entry := ⟨k, v, settings.estimateMb v.length, now, now⟩
    ((c.set now k v).1 = false ↔
        settings.maxVectors < v.length ∨ settings.budgetMb < settings.estimateMb v.length) ∧
      ((c.set now k v).1 = false → (c.set now k v).2 = c) ∧
      ((c.set now k v).1 = true → ∃ b kept gone m, number? settings.budgetMb = some b ∧
        (c.set now k v).2.entries = e :: kept ∧ without k c.entries = kept ++ gone ∧
        exactMb? (e :: kept) = some m ∧ m ≤ b ∧
        ∀ front, front <+: without k c.entries → kept.length < front.length →
          ∃ m, exactMb? (e :: front) = some m ∧ b < m) ∧
      ∀ since, c.history.touchedSince k since = false →
        c.setIfUnchanged now k v since = c.set now k v := by
  intro c e
  obtain ⟨haccounted, hsame⟩ := run_accounted (s := { cache := { settings } }) hs
    (empty_accounted hs) steps
  have hsettings : c.settings = settings := hsame
  have haccounted : Accounted c := haccounted
  obtain ⟨b, hb, -, -⟩ := hs.budget
  refine ⟨?_, set_of_refused, fun hstored => ?_, fun since hfresh => ?_⟩
  · rw [set_refused_iff, hsettings]
  · obtain ⟨hsize, hinsert⟩ := set_of_stored hstored
    obtain ⟨kept, gone, m, hlongest⟩ := insert_longest (hsettings ▸ hs) haccounted
      (hsettings ▸ hb) now k v hsize
    rw [← hinsert, hsettings] at hlongest
    exact ⟨b, kept, gone, m, hb, hlongest⟩
  · rw [setIfUnchanged_eq, hfresh]
    rfl

/-- Room is made for a set of one vector: an empty set at the end of the list goes first, although
that frees nothing, then one more goes, and the entry that was read last stays. -/
theorem run_evicts_minimally_read :
    let settings : CacheSettings := { budgetMb := 2, bytesPerVector := 1048576 }
    let steps : List Step := [.set ⟨"d", "f"⟩ [⟨"a", [], 0⟩], .set ⟨"d", "g"⟩ [],
      .set ⟨"d", "h"⟩ [⟨"a", [], 0⟩], .get ⟨"d", "f"⟩]
    let c := (run { cache := { settings } } steps).cache
    let k : FieldKey := ⟨"d", "i"⟩
    settings.Bounded ∧ c.entries.map Entry.key = [⟨"d", "f"⟩, ⟨"d", "h"⟩, ⟨"d", "g"⟩] ∧
      (c.set 0 k [⟨"a", [], 0⟩]).2.entries.map Entry.key = [k, ⟨"d", "f"⟩] ∧
      ∃ b m, number? settings.budgetMb = some b ∧
        exactMb? (⟨k, [⟨"a", [], 0⟩], settings.estimateMb 1, 0, 0⟩ :: c.entries.take 2) = some m ∧
        b < m := by
  intro settings steps c k
  have hs : settings.Bounded := ⟨by decide, by decide, by decide, by decide⟩
  have hbefore : c.entries.map Entry.key = [⟨"d", "f"⟩, ⟨"d", "h"⟩, ⟨"d", "g"⟩] := by
    decide +kernel
  have hafter : (c.set 0 k [⟨"a", [], 0⟩]).2.entries.map Entry.key = [k, ⟨"d", "f"⟩] := by
    decide +kernel
  have hstored : (c.set 0 k [⟨"a", [], 0⟩]).1 = true := by decide +kernel
  have hfront : c.entries.take 2 <+: without k c.entries := ⟨c.entries.drop 2, by decide +kernel⟩
  have hlru := run_evicts_minimally hs steps 0 k [⟨"a", [], 0⟩]
  rw [show (run { cache := { settings } } steps).cache = c from rfl] at hlru
  clear_value c
  obtain ⟨b, kept, gone, m, hb, hentries, -, -, -, hlongest⟩ := hlru.2.2.1 hstored
  have hkept : kept.length = 1 := by
    rw [hentries, List.map_cons] at hafter
    simpa using congrArg List.length (List.cons.inj hafter).2
  have htwo : (c.entries.take 2).length = 2 := by
    have hlength := congrArg List.length hbefore
    simp at hlength
    simp [hlength]
  obtain ⟨m', hm', hover⟩ := hlongest (c.entries.take 2) hfront (by omega)
  exact ⟨hs, hbefore, hafter, b, m', hb, hm', hover⟩

end Session

end Cache

end EmbeddingSearch
