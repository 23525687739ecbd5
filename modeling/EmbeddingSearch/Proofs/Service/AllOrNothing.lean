import EmbeddingSearch.Proofs.Service.Tally

/-!
# Generation leaves no trace when it fails

A run of generation looks up everything it needs before it first asks the provider. Only the checks
and look-ups before that can end it in an error; from the first batch on, every failure is noted in
the report, and the run goes on to its end. So an error means that nothing was asked for, stored or
invalidated.

## Contents
- `Program.play`: a program whose calls are answered in any way at all.
- `World.answer_reads`: a call that only looks up leaves a world as it was.
- `LookedUp`: events that are look-ups, and no more.
- `Service.generate_lookedUp`: an error comes before anything else was called.
- `generate_all_or_nothing`: the same of every run, and of the world that it leaves.
-/

namespace EmbeddingSearch

/-! ## Any answers at all -/

namespace Program

variable {α : Type}

/-- What a program gives and what it has called, the latest of which comes first, after the events
of `past`. The answers may depend on everything that was called before. -/
def play (answers : List Event → (c : Call) → c.Answer) : Program α → List Event → α × List Event
  | done a, past => (a, past)
  | call c next, past =>
    play answers (next (answers past c)) (⟨c, answers past c⟩ :: past)

/-- A program that keeps to a rule ends as it should when it is answered as the rule says. -/
theorem Obeys.play {ρ : Rule} {post : List Event → α → Prop}
    {answers : List Event → (c : Call) → c.Answer} (h : ∀ past c, ρ.allows c (answers past c))
    {p : Program α} {past : List Event} (hp : p.Obeys ρ post past) :
    post (p.play answers past).2 (p.play answers past).1 := by
  induction p generalizing past with
  | done a => exact hp
  | call c next ih => exact ih _ (hp.2 _ (h past c))

/-- Nothing can be said of a program about which nothing is asked. -/
theorem obeys_anything (p : Program α) (past : List Event) :
    p.Obeys anything (fun _ _ => True) past := by
  induction p generalizing past with
  | done a => trivial
  | call c next ih => exact ⟨trivial, fun a _ => ih a _⟩

end Program

/-! ## Look-ups -/

/-- A look-up is counted, and that is all. -/
theorem World.answer_reads {c : Call} (h : c.Reads) (w : World) :
    (w.answer c).2 = { w with calls := w.calls + 1 } := by
  have hattempt : ∀ {α : Type} (read : World → α),
      (w.attempt c fun w => (read w, w)).2 = { w with calls := w.calls + 1 } := by
    intro α read
    exact World.attempt_keeps (P := (· = { w with calls := w.calls + 1 })) rfl c fun _ => id
  cases c with
  | findDataset s => exact hattempt fun w => w.catalog.findDataset s
  | listRecords d => exact hattempt fun w => w.catalog.listRecords d
  | findRecord d id => exact hattempt fun w => w.catalog.findRecord d id
  | findRow r f => exact hattempt fun w => w.store.findRow r f
  | _ => cases h

/-- Whether nothing but look-ups was called. -/
def LookedUp (past : List Event) : Prop := ∀ event ∈ past, event.1.Reads

theorem Call.Reads.lookedUp {c : Call} (h : c.Reads) : anything.Free LookedUp c :=
  fun _ hpast => ⟨trivial, fun _ _ => List.forall_mem_cons.mpr ⟨h, hpast⟩⟩

/-- Look-ups change nothing else, however many there are. -/
theorem LookedUp.run {α : Type} {p : Program α} {w : World} (h : LookedUp (p.trace w [])) :
    (p.run w).2 = { w with calls := (p.run w).2.calls } := by
  have hkeeps := (p.obeys_anything []).run_keeps (w := w)
    (I := fun past w' => LookedUp past → w' = { w with calls := w'.calls }) ?_ fun _ => rfl
  · exact hkeeps.2 h
  · intro past w' c hI _
    refine ⟨trivial, fun hpast => ?_⟩
    obtain ⟨hc, hpast⟩ := List.forall_mem_cons.mp hpast
    rw [World.answer_reads hc, hI hpast]

section Stages

variable {α β : Type} {ρ : Rule} {I : List Event → Prop} {mid : α → Prop}
  {post : List Event → Except ServiceError β → Prop} {past : List Event}

/-- An action that keeps an invariant is followed by another one, or fails where it holds. -/
theorem Action.Keeps.followed {a : Action α} {f : α → Action β} (ha : a.Keeps ρ I mid)
    (hpast : I past) (herror : ∀ past e, I past → post past (.error e))
    (hf : ∀ past x, I past → mid x → (f x).Obeys ρ post past) : (a >>= f).Obeys ρ post past := by
  refine (Action.obeys_bind post a f past).mpr ((ha past hpast).mono ?_)
  rintro past r ⟨hI, hr⟩
  cases r with
  | ok x => exact hf past x hI (hr x rfl)
  | error e => exact herror past e hI

end Stages

/-! ## Runs of generation -/

/-- Whatever is answered, a run that fails has only looked up. -/
theorem Service.generate_lookedUp (s : Service) (r : GenerationRequest) :
    (s.generate r).Obeys anything
      (fun past result => ∀ e, result = .error e → LookedUp past) [] := by
  have hfail : ∀ (past : List Event) (e : ServiceError), LookedUp past →
      ∀ e', (.error e : Except ServiceError GenerationReport) = .error e' → LookedUp past :=
    fun _ _ h _ _ => h
  have hnil : LookedUp [] := List.forall_mem_nil _
  unfold Service.generate
  refine s.requireProvider_keeps.followed hnil hfail fun past _ hpast _ => ?_
  have hdataset : (Action.dataset r.dataset).Keeps anything LookedUp fun _ => True :=
    Action.dataset_keeps (fun _ => Call.Reads.lookedUp) _ fun _ _ => trivial
  refine hdataset.followed hpast hfail fun past d hpast _ => ?_
  have htarget : (Action.orFail (pure (r.target d))).Keeps anything LookedUp fun _ => True :=
    Action.Keeps.orFail_pure fun _ _ => trivial
  refine htarget.followed hpast hfail fun past target hpast _ => ?_
  have hselected : (Action.selected r d.id).Keeps anything LookedUp
      fun records => ∀ x ∈ records, True :=
    Action.selected_keeps (P := fun _ _ => True) (fun _ => Call.Reads.lookedUp)
      (fun _ _ _ _ _ => trivial) (fun _ _ _ _ => trivial) r d.id
  refine hselected.followed hpast hfail fun past records _ _ => ?_
  -- from here on nothing fails
  refine (Action.obeys_bind _ _ _ past).mpr ((Action.obeys_of _ _ past).mpr ?_)
  refine (Program.obeys_anything _ past).mono ?_
  intro past report _ e he
  cases he

/-- Whatever catalog, store, provider and cache answer, a run that fails has only looked up, and a
run that has asked the provider does not fail. So a run that fails in some world has not asked its
provider, has stored nothing, and leaves rows and cache as they were. -/
theorem generate_all_or_nothing (s : Service) (r : GenerationRequest) :
    (∀ answers result events,
      (ExceptT.run (s.generate r)).play answers [] = (result, events) →
        (∀ e, result = .error e → LookedUp events) ∧
        ∀ event ∈ events, ∀ q, event.asked? = some q → ∃ g, result = .ok g) ∧
    ∀ w e w', (s.generate r).run w = (.error e, w') →
      LookedUp (Program.trace (ExceptT.run (s.generate r)) w []) ∧
        w' = { w with calls := w'.calls } := by
  have hobeys := s.generate_lookedUp r
  constructor
  · intro answers result events hplay
    have hallowed : ∀ past c, anything.allows c (answers past c) := fun _ _ => trivial
    have hfail := hobeys.play hallowed
    rw [hplay] at hfail
    refine ⟨hfail, fun event hevent q hq => ?_⟩
    cases result with
    | ok g => exact ⟨g, rfl⟩
    | error e =>
      have hreads := hfail e rfl event hevent
      obtain ⟨c, answer⟩ := event
      cases c with
      | embed q' => cases hreads
      | _ => cases hq
  · intro w e w' hrun
    have hlooked := hobeys.run_anything w e (congrArg Prod.fst hrun)
    refine ⟨hlooked, ?_⟩
    have hworld := hlooked.run
    rwa [show Program.run (ExceptT.run (s.generate r)) w = (.error e, w') from hrun] at hworld

/-- A store that takes nothing does not make the run fail, once a vector was asked for; a catalog
that does not list its records does, before any is. -/
theorem generate_all_or_nothing_outages :
    let s : Service :=
      { settings := { ai := { enabled := true } }, providerName := "p", providerAvailable := true }
    let w : World :=
      { catalog :=
          { datasets := [⟨"A", "a", [⟨"f", .text, true⟩]⟩]
            records := [("A", ⟨"r", [("f", .string "t")]⟩)] }
        provider := ⟨"p", true, fun _ _ => .ok ⟨[[1]], "m", none⟩⟩ }
    let full : World := { w with outage := fun _ c => match c with
      | .upsert _ => some (.store "full")
      | _ => none }
    let mute : World := { w with outage := fun n _ => if n = 1 then some (.store "mute") else none }
    let r := GenerationRequest.ofField "A" "f"
    (∃ g events, (ExceptT.run (s.generate r)).play (fun _ c => (full.answer c).1) [] =
      (.ok g, events) ∧ (events.filterMap Event.asked?).length = 1) ∧
    ∃ e w', (s.generate r).run mute = (.error e, w') ∧ w' = { mute with calls := w'.calls } := by
  intro s w full mute r
  obtain ⟨hplayed, hrun⟩ := generate_all_or_nothing s r
  constructor
  · have hasked : (((ExceptT.run (s.generate r)).play
        (fun _ c => (full.answer c).1) []).2.filterMap Event.asked?).length = 1 := by
      decide +kernel
    rcases hplay : (ExceptT.run (s.generate r)).play (fun _ c => (full.answer c).1) []
      with ⟨result, events⟩
    rw [hplay] at hasked
    obtain ⟨q, hq⟩ := List.exists_mem_of_length_pos (hasked ▸ one_pos)
    obtain ⟨event, hevent, hq⟩ := List.mem_filterMap.mp hq
    obtain ⟨g, rfl⟩ := (hplayed _ _ _ hplay).2 event hevent q hq
    exact ⟨g, events, rfl, hasked⟩
  · have hfails : ((s.generate r).run mute).1 = .error (.store "mute") := by
      decide +kernel
    have hmute : (s.generate r).run mute = (.error (.store "mute"), ((s.generate r).run mute).2) :=
      Prod.ext hfails rfl
    exact ⟨_, _, hmute, (hrun _ _ _ hmute).2⟩

end EmbeddingSearch
