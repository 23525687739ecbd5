import Mathlib.Tactic
import EmbeddingSearch.Service.World

/-!
# What programs call

A rule says which calls a program may make, given what it called before, and which answers it may
count on. A program that obeys a rule does so in every world that answers in this way, whatever else
happens between two calls.

## Contents
- `Event`: a call with its answer.
- `Rule`, `Program.Obeys`: programs that keep to a rule, with a condition on how they end.
- `Program.obeys_bind`, `Action.obeys_bind`, `Action.run_bind`: one program after the other.
- `Program.trace`: the events of a program in a world that nothing else changes.
- `Program.trace_bind`, `Action.trace_bind_ok`: those of one program after the other.
- `Program.Obeys.run_keeps`: what holds of such events, and of the world that they lead to.
- `Program.Keeps`, `Action.Keeps`: programs that keep to a rule and to an invariant of their events.
- `World.attempt_cases`, `World.attempt_keeps`, `World.answer_fixed`: how calls to catalog and store
  end, and what no call changes.
- `Call.asked`, `World.sent_answer`: what a call adds to what the provider was asked.
- `Catalog.Answers`, `World.answer_catalog`: what is looked up in a catalog.
-/

namespace EmbeddingSearch

/-- A call with its answer. -/
abbrev Event := (c : Call) × c.Answer

/-- What a call asks of the provider. -/
def Call.asked : Call → List EmbeddingRequest
  | .embed q => [q]
  | _ => []

/-- What may be called after some events, the latest of which comes first, and what may be
answered. -/
structure Rule where
  legal : List Event → Call → Prop
  allows : (c : Call) → c.Answer → Prop

namespace Program

variable {α β : Type} {ρ : Rule}

instance : LawfulMonad Program :=
  LawfulMonad.mk' Program bind_done (fun _ _ => rfl) bind_bind

/-- Whether a program keeps to a rule after some events, and ends as it should. -/
def Obeys (ρ : Rule) (post : List Event → α → Prop) : Program α → List Event → Prop
  | done a, past => post past a
  | call c next, past =>
    ρ.legal past c ∧ ∀ a, ρ.allows c a → Obeys ρ post (next a) (⟨c, a⟩ :: past)

/-- A program may end in more ways than it does. -/
theorem Obeys.mono {post post' : List Event → α → Prop} (h : ∀ past a, post past a → post' past a)
    {p : Program α} {past : List Event} (hp : p.Obeys ρ post past) : p.Obeys ρ post' past := by
  induction p generalizing past with
  | done a => exact h past a hp
  | call c next ih => exact ⟨hp.1, fun a ha => ih a (hp.2 a ha)⟩

/-- The second program goes on where the first one ends. -/
theorem obeys_bind (post : List Event → β → Prop) (p : Program α) (f : α → Program β)
    (past : List Event) :
    (bind p f).Obeys ρ post past ↔ p.Obeys ρ (fun past a => (f a).Obeys ρ post past) past := by
  induction p generalizing past with
  | done a => exact Iff.rfl
  | call c next ih =>
    exact and_congr Iff.rfl (forall_congr' fun a => imp_congr_right fun _ => ih a _)

theorem obeys_map (post : List Event → β → Prop) (g : α → β) (p : Program α) (past : List Event) :
    (g <$> p).Obeys ρ post past ↔ p.Obeys ρ (fun past a => post past (g a)) past :=
  obeys_bind post p (fun a => done (g a)) past

/-! ## Runs that nothing else interferes with -/

/-- The events of a program, the latest of which comes first, after those of `past`. -/
def trace : Program α → World → List Event → List Event
  | done _, _, past => past
  | call c next, w, past => trace (next (w.answer c).1) (w.answer c).2 (⟨c, (w.answer c).1⟩ :: past)

theorem trace_bind (p : Program α) (f : α → Program β) (w : World) (past : List Event) :
    (bind p f).trace w past = (f (p.run w).1).trace (p.run w).2 (p.trace w past) := by
  induction p generalizing w past with
  | done a => rfl
  | call c next ih => exact ih _ _ _

/-- An invariant of events and worlds that is kept by every call which is fine holds in the end,
when the answers of the world are allowed. -/
theorem Obeys.run_keeps {post : List Event → α → Prop} {I : List Event → World → Prop}
    (hI : ∀ past w c, I past w → ρ.legal past c →
      ρ.allows c (w.answer c).1 ∧ I (⟨c, (w.answer c).1⟩ :: past) (w.answer c).2)
    {p : Program α} {past : List Event} {w : World} (hp : p.Obeys ρ post past) (hw : I past w) :
    post (p.trace w past) (p.run w).1 ∧ I (p.trace w past) (p.run w).2 := by
  -- the world is carried along, since every answer may change it
  induction p generalizing past w with
  | done a => exact ⟨hp, hw⟩
  | call c next ih =>
    obtain ⟨hallows, hnext⟩ := hI past w c hw hp.1
    exact ih (w.answer c).1 (hp.2 (w.answer c).1 hallows) hnext

/-- In a world whose answers are allowed a program ends as it should. -/
theorem Obeys.run {post : List Event → α → Prop} (I : World → Prop)
    (hallows : ∀ w c, I w → ρ.allows c (w.answer c).1) (hI : ∀ w c, I w → I (w.answer c).2)
    {p : Program α} {past : List Event} {w : World} (hp : p.Obeys ρ post past) (hw : I w) :
    post (p.trace w past) (p.run w).1 :=
  (hp.run_keeps (I := fun _ w => I w) (fun _ w c hw _ => ⟨hallows w c hw, hI w c hw⟩) hw).1

end Program

/-! ## Actions -/

namespace Action

variable {α β : Type} {ρ : Rule}

/-- Whether an action keeps to a rule, and ends as it should, be it in an error. -/
def Obeys (ρ : Rule) (post : List Event → Except ServiceError α → Prop) (a : Action α)
    (past : List Event) : Prop :=
  Program.Obeys ρ post (ExceptT.run a) past

/-- What follows an action is left out when the action fails. -/
theorem obeys_bind (post : List Event → Except ServiceError β → Prop) (a : Action α)
    (f : α → Action β) (past : List Event) :
    (a >>= f).Obeys ρ post past ↔ a.Obeys ρ (fun past r => match r with
      | .ok x => (f x).Obeys ρ post past
      | .error e => post past (.error e)) past := by
  refine (Program.obeys_bind post (ExceptT.run a) _ past).trans ?_
  constructor <;> refine Program.Obeys.mono fun past r h => ?_
  · cases r <;> exact h
  · cases r <;> exact h

theorem obeys_of (post : List Event → Except ServiceError α → Prop) (p : Program α)
    (past : List Event) :
    (Action.of p).Obeys ρ post past ↔ p.Obeys ρ (fun past a => post past (.ok a)) past :=
  Program.obeys_map post Except.ok p past

/-- In a world, what follows an action runs where the action ends, unless this is an error. -/
theorem run_bind (a : Action α) (f : α → Action β) (w : World) :
    (a >>= f).run w = match a.run w with
      | (.ok x, w') => (f x).run w'
      | (.error e, w') => (.error e, w') := by
  refine (Program.run_bind (ExceptT.run a) _ w).trans ?_
  unfold Action.run
  rcases Program.run (ExceptT.run a) w with ⟨r, w'⟩
  cases r <;> rfl

theorem run_bind_of_ok {a : Action α} {f : α → Action β} {w w' : World} {x : α}
    (h : a.run w = (.ok x, w')) : (a >>= f).run w = (f x).run w' := by
  rw [run_bind, h]

theorem run_bind_of_error {a : Action α} {f : α → Action β} {w w' : World} {e : ServiceError}
    (h : a.run w = (.error e, w')) : (a >>= f).run w = (.error e, w') := by
  rw [run_bind, h]

theorem run_of (p : Program α) (w : World) :
    (Action.of p).run w = (.ok (p.run w).1, (p.run w).2) := by
  refine (Program.run_bind p _ w).trans ?_
  rfl

/-- An action succeeds if its first part does, and then what follows. -/
theorem run_bind_ok {a : Action α} {f : α → Action β} {w w' : World} {b : β} :
    (a >>= f).run w = (.ok b, w') ↔
      ∃ x w₁, a.run w = (.ok x, w₁) ∧ (f x).run w₁ = (.ok b, w') := by
  rw [run_bind]
  rcases a.run w with ⟨r, w₁⟩
  cases r with
  | error e => simp
  | ok x => simp

/-- The events of what follows an action that succeeds come after its own. -/
theorem trace_bind_ok {a : Action α} {f : α → Action β} {w w' : World} {x : α}
    (h : a.run w = (.ok x, w')) (past : List Event) :
    Program.trace (ExceptT.run (a >>= f)) w past =
      Program.trace (ExceptT.run (f x)) w' (Program.trace (ExceptT.run a) w past) := by
  refine (Program.trace_bind (ExceptT.run a) _ w past).trans ?_
  unfold Action.run at h
  rw [h]
  rfl

theorem trace_of (p : Program α) (w : World) (past : List Event) :
    Program.trace (ExceptT.run (Action.of p)) w past = p.trace w past :=
  Program.trace_bind p _ w past

end Action

/-! ## What holds all the time -/

section Keeps

variable {α β : Type} {ρ : Rule} {I : List Event → Prop}

/-- Whether a call can be made whenever `I` holds of what was called before, and leaves it so. -/
def Rule.Free (ρ : Rule) (I : List Event → Prop) (c : Call) : Prop :=
  ∀ past, I past → ρ.legal past c ∧ ∀ a, ρ.allows c a → I (⟨c, a⟩ :: past)

/-- Whether a program that starts where `I` holds keeps to a rule, ends where `I` holds, and gives
what it should. -/
def Program.Keeps (ρ : Rule) (I : List Event → Prop) (post : α → Prop) (p : Program α) : Prop :=
  ∀ past, I past → p.Obeys ρ (fun past a => I past ∧ post a) past

namespace Program.Keeps

theorem done {post : α → Prop} {a : α} (h : post a) : Keeps ρ I post (Program.done a) :=
  fun _ hpast => ⟨hpast, h⟩

theorem bind {mid : α → Prop} {post : β → Prop} {p : Program α} {f : α → Program β}
    (hp : Keeps ρ I mid p) (hf : ∀ a, mid a → Keeps ρ I post (f a)) :
    Keeps ρ I post (p >>= f) := by
  intro past hpast
  refine (Program.obeys_bind _ p f past).mpr ((hp past hpast).mono ?_)
  rintro past a ⟨hpast, ha⟩
  exact hf a ha past hpast

theorem ask {c : Call} (h : ρ.Free I c) : Keeps ρ I (ρ.allows c) (Program.ask c) :=
  fun past hpast => ⟨(h past hpast).1, fun a ha => ⟨(h past hpast).2 a ha, ha⟩⟩

theorem mono {post post' : α → Prop} {p : Program α} (h : Keeps ρ I post p)
    (hpost : ∀ a, post a → post' a) : Keeps ρ I post' p :=
  fun past hpast => (h past hpast).mono fun _ a ha => ⟨ha.1, hpost a ha.2⟩

end Program.Keeps

/-- The same of an action; the condition is on its value. -/
def Action.Keeps (ρ : Rule) (I : List Event → Prop) (post : α → Prop) (a : Action α) : Prop :=
  Program.Keeps ρ I (fun r => ∀ x, r = .ok x → post x) (ExceptT.run a)

namespace Action.Keeps

theorem pure {post : α → Prop} {x : α} (h : post x) :
    Action.Keeps ρ I post (Pure.pure x : Action α) := by
  refine Program.Keeps.done ?_
  intro y hy
  cases hy
  exact h

theorem fail {post : α → Prop} (e : ServiceError) :
    Action.Keeps ρ I post (Action.fail e : Action α) := by
  refine Program.Keeps.done ?_
  intro y hy
  cases hy

theorem bind {mid : α → Prop} {post : β → Prop} {a : Action α} {f : α → Action β}
    (ha : Action.Keeps ρ I mid a) (hf : ∀ x, mid x → Action.Keeps ρ I post (f x)) :
    Action.Keeps ρ I post (a >>= f) := by
  refine Program.Keeps.bind ha ?_
  intro r hr
  cases r with
  | ok x => exact hf x (hr x rfl)
  | error e => exact fail e

theorem of {post : α → Prop} {p : Program α} (h : Program.Keeps ρ I post p) :
    Action.Keeps ρ I post (Action.of p) :=
  Program.Keeps.bind h fun _ hx => pure hx

theorem orFail_pure {post : α → Prop} {r : Except ServiceError α} (h : ∀ x, r = .ok x → post x) :
    Action.Keeps ρ I post (Action.orFail (Pure.pure r)) :=
  Program.Keeps.done h

theorem orElse {post : α → Prop} {x : Option α} (h : ∀ y, x = some y → post y)
    (e : ServiceError) : Action.Keeps ρ I post (Action.orElse x e) := by
  cases x with
  | none => exact fail e
  | some y => exact pure (h y rfl)

theorem ite {post : α → Prop} {c : Prop} [Decidable c] {a b : Action α}
    (ha : Action.Keeps ρ I post a) (hb : Action.Keeps ρ I post b) :
    Action.Keeps ρ I post (if c then a else b) := by
  split
  · exact ha
  · exact hb

end Action.Keeps

end Keeps

/-! ## Answers of a world -/

namespace World

/-- An attempted call fails and changes nothing, or does its work. -/
theorem attempt_cases {α : Type} (w : World) (c : Call) (work : World → α × World) :
    (∃ e, w.attempt c work = (.error e, { w with calls := w.calls + 1 })) ∨
      w.attempt c work = (.ok (work { w with calls := w.calls + 1 }).1,
        (work { w with calls := w.calls + 1 }).2) := by
  unfold attempt
  cases w.outage w.calls c with
  | some e => exact .inl ⟨e, rfl⟩
  | none => exact .inr rfl

/-- Where nothing is out, an attempted call does its work. -/
theorem attempt_answered {α : Type} {w : World} (h : ∀ n c, w.outage n c = none) (c : Call)
    (work : World → α × World) : w.attempt c work =
      (.ok (work { w with calls := w.calls + 1 }).1, (work { w with calls := w.calls + 1 }).2) := by
  unfold attempt
  rw [h]

/-- What holds of any error and of what is there to be read holds of the answer to a call that only
reads. -/
theorem attempt_holds {α : Type} (w : World) (c : Call) (read : World → α)
    {P : Except ServiceError α → Prop} (herror : ∀ e, P (.error e))
    (hok : P (.ok (read { w with calls := w.calls + 1 }))) :
    P (w.attempt c fun w => (read w, w)).1 := by
  rcases w.attempt_cases c fun w => (read w, w) with ⟨e, h⟩ | h
  · rw [h]
    exact herror e
  · rw [h]
    exact hok

/-- What holds once a call is counted, and is kept by its work, holds after the attempt. -/
theorem attempt_keeps {α : Type} {w : World} {P : World → Prop}
    (hcounted : P { w with calls := w.calls + 1 }) (c : Call) {work : World → α × World}
    (hwork : ∀ w, P w → P (work w).2) : P (w.attempt c work).2 := by
  rcases w.attempt_cases c work with ⟨e, h⟩ | h
  · rw [h]
    exact hcounted
  · rw [h]
    exact hwork _ hcounted

theorem attempt_fixed {α : Type} {work : World → α × World}
    (h : ∀ w, (work w).2.catalog = w.catalog ∧ (work w).2.provider = w.provider) (w : World)
    (c : Call) :
    (w.attempt c work).2.catalog = w.catalog ∧ (w.attempt c work).2.provider = w.provider := by
  refine attempt_keeps (P := fun w' => w'.catalog = w.catalog ∧ w'.provider = w.provider)
    ⟨rfl, rfl⟩ c fun w' hw' => ?_
  exact ⟨(h w').1.trans hw'.1, (h w').2.trans hw'.2⟩

/-- No call changes the catalog or the provider. -/
theorem answer_fixed (w : World) (c : Call) :
    (w.answer c).2.catalog = w.catalog ∧ (w.answer c).2.provider = w.provider := by
  cases c with
  | findDataset s => exact attempt_fixed (fun _ => ⟨rfl, rfl⟩) w _
  | listRecords d => exact attempt_fixed (fun _ => ⟨rfl, rfl⟩) w _
  | findRecord d id => exact attempt_fixed (fun _ => ⟨rfl, rfl⟩) w _
  | findRows d f => exact attempt_fixed (fun _ => ⟨rfl, rfl⟩) w _
  | findRow r f => exact attempt_fixed (fun _ => ⟨rfl, rfl⟩) w _
  | upsert v => exact attempt_fixed (fun _ => ⟨rfl, rfl⟩) w _
  | delete f => exact attempt_fixed (fun _ => ⟨rfl, rfl⟩) w _
  | _ => exact ⟨rfl, rfl⟩

/-- What the provider is asked is kept in order, and nothing else is. -/
theorem sent_answer (w : World) (c : Call) : (w.answer c).2.sent = w.sent ++ c.asked := by
  have hattempt : ∀ {α : Type} (work : World → α × World),
      (∀ w, (work w).2.sent = w.sent) → (w.attempt c work).2.sent = w.sent ++ [] := by
    intro α work hwork
    rw [List.append_nil]
    exact attempt_keeps (P := fun w' => w'.sent = w.sent) rfl c fun w' h => (hwork w').trans h
  cases c with
  | findDataset s => exact hattempt _ fun _ => rfl
  | listRecords d => exact hattempt _ fun _ => rfl
  | findRecord d id => exact hattempt _ fun _ => rfl
  | findRows d f => exact hattempt _ fun _ => rfl
  | findRow r f => exact hattempt _ fun _ => rfl
  | upsert v => exact hattempt _ fun _ => rfl
  | delete f => exact hattempt _ fun _ => rfl
  | embed r => rfl
  | _ => exact (List.append_nil _).symm

end World

/-! ## Look-ups -/

/-- Whether an answer is what a catalog has for the call, unless it is an error. Calls that look up
nothing in a catalog may be answered in any way. -/
def Catalog.Answers (catalog : Catalog) : (c : Call) → c.Answer → Prop
  | .findDataset s, .ok found => found = catalog.findDataset s
  | .listRecords d, .ok records => records = catalog.listRecords d
  | .findRecord d id, .ok found => found = catalog.findRecord d id
  | _, _ => True

/-- A world answers from its own catalog. -/
theorem World.answer_catalog (w : World) (c : Call) : w.catalog.Answers c (w.answer c).1 := by
  cases c with
  | findDataset s =>
    exact w.attempt_holds (.findDataset s) (fun w => w.catalog.findDataset s)
      (P := w.catalog.Answers (.findDataset s)) (fun _ => trivial) rfl
  | listRecords d =>
    exact w.attempt_holds (.listRecords d) (fun w => w.catalog.listRecords d)
      (P := w.catalog.Answers (.listRecords d)) (fun _ => trivial) rfl
  | findRecord d id =>
    exact w.attempt_holds (.findRecord d id) (fun w => w.catalog.findRecord d id)
      (P := w.catalog.Answers (.findRecord d id)) (fun _ => trivial) rfl
  | _ => trivial

end EmbeddingSearch
