import EmbeddingSearch.Catalog.Basic
import EmbeddingSearch.Cache.Report
import EmbeddingSearch.Service.Error
import EmbeddingSearch.Store.Table

/-!
# Programs over collaborators

The service owns no data. What it does is a program: a sequence of calls to a catalog, a store, a
provider and a cache, each of which happens at one moment and gives an answer that decides how the
program goes on. Other programs may run between two calls.

## Contents
- `Call`, `Call.Answer`: the calls and what they give.
- `Program`: what is called next depends on the answers so far. Programs form a monad.
- `Action`: a program that may end in an error.
-/

namespace EmbeddingSearch

/-- A call to a collaborator of the service. -/
inductive Call where
  | findDataset (idOrName : String)
  | listRecords (dataset : String)
  | findRecord (dataset id : String)
  | findRows (dataset field : String)
  | findRow (recordId field : String)
  | upsert (v : NewVector)
  | delete (f : RowFilter)
  | embed (r : EmbeddingRequest)
  | cached (k : FieldKey)
  | generation
  | cacheIfUnchanged (k : FieldKey) (candidates : List Candidate) (since : Generation)
  | invalidate (k : FieldKey)
  | invalidateDataset (dataset : String)
  | clearCache
  | cacheInfo
  | cacheStats
deriving DecidableEq, Repr

/-- What a call gives. Catalog, store and provider may fail; the cache does not. -/
def Call.Answer : Call → Type
  | .findDataset _ => Except ServiceError (Option Dataset)
  | .listRecords _ => Except ServiceError (List Record)
  | .findRecord _ _ => Except ServiceError (Option Record)
  | .findRows _ _ => Except ServiceError (List Row)
  | .findRow _ _ => Except ServiceError (Option Row)
  | .upsert _ => Except ServiceError Unit
  | .delete _ => Except ServiceError (List Row)
  | .embed _ => Except EmbeddingError EmbeddingResponse
  | .cached _ => Option (List Candidate)
  | .generation => Generation
  | .cacheIfUnchanged _ _ _ => Bool
  | .invalidate _ => Unit
  | .invalidateDataset _ => Unit
  | .clearCache => Unit
  | .cacheInfo => CacheInfo
  | .cacheStats => CacheStats

/-- A program that ends with a value. -/
inductive Program (α : Type) where
  | done (a : α)
  | call (c : Call) (next : c.Answer → Program α)

namespace Program

variable {α β : Type}

/-- One program after the other. -/
def bind : Program α → (α → Program β) → Program β
  | done a, f => f a
  | call c next, f => call c fun x => bind (next x) f

instance : Monad Program where
  pure := done
  bind := bind

/-- The program of a single call. -/
def ask (c : Call) : Program c.Answer := call c done

/-- A program for every element of a list, one after the other. -/
def each (f : α → Program Unit) : List α → Program Unit
  | [] => done ()
  | a :: as => bind (f a) fun _ => each f as

theorem bind_done (p : Program α) : bind p done = p := by
  induction p with
  | done a => rfl
  | call c next ih => simp only [bind, ih]

theorem bind_bind {γ : Type} (p : Program α) (f : α → Program β) (g : β → Program γ) :
    bind (bind p f) g = bind p fun a => bind (f a) g := by
  induction p with
  | done a => rfl
  | call c next ih => simp only [bind, ih]

end Program

/-- A program that may end in an error, after which nothing more is called. -/
abbrev Action (α : Type) := ExceptT ServiceError Program α

namespace Action

variable {α : Type}

/-- A program that does not fail. -/
def of (p : Program α) : Action α := ExceptT.lift p

/-- A program whose error is that of the action. -/
def orFail (p : Program (Except ServiceError α)) : Action α := ExceptT.mk p

def fail (e : ServiceError) : Action α := ExceptT.mk (.done (.error e))

/-- The value, if there is one. -/
def orElse (a : Option α) (e : ServiceError) : Action α :=
  match a with
  | some a => pure a
  | none => fail e

end Action

end EmbeddingSearch
