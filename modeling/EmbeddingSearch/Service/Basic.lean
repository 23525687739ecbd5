import EmbeddingSearch.Messages.Basic
import EmbeddingSearch.Service.Program
import EmbeddingSearch.Settings.Basic

/-!
# The service

What a service is made of, and the checks that its operations begin with.

## Contents
- `Service`: the settings, and what is known about its provider and its workers.
- `requireEnabled`, `requireProvider`: whether embeddings may be asked for.
- `Action.dataset`: the dataset that is meant.
-/

namespace EmbeddingSearch

/-- A service. Its data are with its collaborators. -/
structure Service where
  settings : Settings := {}
  providerName : String
  /-- Whether the provider is ready to be asked. -/
  providerAvailable : Bool
  /-- How many workers score candidates. -/
  workers : Nat := defaultWorkers
deriving DecidableEq, Repr

namespace Service

/-- Fails when embeddings are switched off. -/
def requireEnabled (s : Service) : Action Unit :=
  if s.settings.ai.enabled then pure () else .fail .disabled

/-- Fails when the provider cannot be asked for vectors of some model. -/
def requireProvider (s : Service) : Action Unit := do
  s.requireEnabled
  unless s.providerAvailable do Action.fail (.providerNotReady s.providerName)
  if s.settings.ai.model.isEmpty then Action.fail .modelMissing

/-- What is asked of the provider for some texts. -/
def embeddingRequest (s : Service) (texts : List String) (timeoutSecs : Nat) :
    EmbeddingRequest where
  texts := texts
  model := s.settings.ai.model
  dimensions := s.settings.ai.dimensions
  timeoutMs := some (timeoutSecs * 1000)

end Service

namespace Action

/-- The dataset with this id or name. -/
def dataset (idOrName : String) : Action Dataset := do
  let found ← orFail (.ask (.findDataset idOrName))
  orElse found (.datasetNotFound idOrName)

/-- What the provider answers. -/
def embed (r : EmbeddingRequest) : Action EmbeddingResponse :=
  orFail (Except.mapError ServiceError.embedding <$> Program.ask (.embed r))

end Action

end EmbeddingSearch
