import EmbeddingSearch.Service.Program

/-!
# A world for the service

Collaborators in memory, with a clock that moves when it is told to. What the provider answers and
which calls fail are parameters, so that programs can be run against any behaviour of them.

## Contents
- `Interference`: what happens to the cache behind the back of a program.
- `World`: the collaborators and the time.
- `World.answer`: what a call gives and changes.
- `Program.run`: what a program gives and changes when nothing else happens meanwhile.
-/

namespace EmbeddingSearch

/-- Something that happens to the cache while rows are being loaded. -/
inductive Interference where
  | invalidate (k : FieldKey)
  | invalidateDataset (dataset : String)
  | clear
deriving DecidableEq, Repr

def Interference.apply (c : Cache) : Interference → Cache
  | .invalidate k => c.invalidate k
  | .invalidateDataset d => c.invalidateDataset d
  | .clear => c.clear

/-- The collaborators of a service. -/
structure World where
  catalog : Catalog := {}
  store : Store := {}
  cache : Cache := {}
  provider : Provider
  /-- The time in milliseconds. -/
  now : Nat := 0
  /-- What the provider was asked so far. -/
  sent : List EmbeddingRequest := []
  /-- How many calls catalog and store have got so far. -/
  calls : Nat := 0
  /-- The error of a call to catalog or store, given how many came before it. -/
  outage : Nat → Call → Option ServiceError := fun _ _ => none
  /-- What happens during the next load of rows. -/
  onLoad : List Interference := []

namespace World

variable {α : Type}

/-- A call to catalog or store: it counts, and it fails in an outage and then changes nothing. -/
def attempt (w : World) (c : Call) (work : World → α × World) : Except ServiceError α × World :=
  let next := { w with calls := w.calls + 1 }
  match w.outage w.calls c with
  | some e => (.error e, next)
  | none =>
    let (a, w) := work next
    (.ok a, w)

/-- The world after what happens during a load of rows. -/
def interfered (w : World) : World :=
  { w with cache := w.onLoad.foldl Interference.apply w.cache, onLoad := [] }

/-- What a call gives, and the world after it. -/
def answer (w : World) : (c : Call) → c.Answer × World
  | .findDataset s => w.attempt (.findDataset s) fun w => (w.catalog.findDataset s, w)
  | .listRecords d => w.attempt (.listRecords d) fun w => (w.catalog.listRecords d, w)
  | .findRecord d id => w.attempt (.findRecord d id) fun w => (w.catalog.findRecord d id, w)
  | .findRows d f => w.attempt (.findRows d f) fun w => (w.store.findRows d f, w.interfered)
  | .findRow r f => w.attempt (.findRow r f) fun w => (w.store.findRow r f, w)
  | .upsert v => w.attempt (.upsert v) fun w =>
    ((), { w with store := w.store.upsert v (Timestamp.ofMs w.now) })
  | .delete f => w.attempt (.delete f) fun w =>
    let (removed, store) := w.store.delete f
    (removed, { w with store })
  | .embed r => (w.provider.embed w.sent.length r, { w with sent := w.sent ++ [r] })
  | .cached k =>
    let (found, cache) := w.cache.get w.now k
    (found, { w with cache })
  | .generation => (w.cache.generation, w)
  | .cacheIfUnchanged k cs since =>
    let (kept, cache) := w.cache.setIfUnchanged w.now k cs since
    (kept, { w with cache })
  | .invalidate k => ((), { w with cache := w.cache.invalidate k })
  | .invalidateDataset d => ((), { w with cache := w.cache.invalidateDataset d })
  | .clearCache => ((), { w with cache := w.cache.clear })
  | .cacheInfo => (w.cache.info, w)
  | .cacheStats => (w.cache.stats w.now, w)

end World

namespace Program

variable {α β : Type}

/-- What a program gives, and the world after it. -/
def run : Program α → World → α × World
  | done a, w => (a, w)
  | call c next, w =>
    let (a, w) := w.answer c
    run (next a) w

@[simp] theorem run_done (a : α) (w : World) : run (done a) w = (a, w) := rfl

@[simp] theorem run_ask (c : Call) (w : World) : run (ask c) w = w.answer c := rfl

/-- The second program runs in the world that the first leaves. -/
@[simp] theorem run_bind (p : Program α) (f : α → Program β) (w : World) :
    run (bind p f) w = run (f (run p w).1) (run p w).2 := by
  induction p generalizing w with
  | done a => rfl
  | call c next ih => simp only [bind, run, ih]

end Program

/-- What an action gives, and the world after it. -/
def Action.run {α : Type} (a : Action α) (w : World) : Except ServiceError α × World :=
  Program.run (ExceptT.run a) w

end EmbeddingSearch
