import EmbeddingSearch.Provider.Api
import EmbeddingSearch.Service.Basic

/-!
# Building a service

What a service is put together from. Without a provider of its own it asks the API, with the access
that settings and environment give.
-/

namespace EmbeddingSearch

/-- The provider of a service: the one that is given or, without one, the API. -/
def Settings.provider (s : Settings) (environment : Option String) (transport : Transport)
    (custom : Option Provider) : Provider :=
  custom.getD ((Api.Client.ofSettings s.ai environment).provider transport)

/-- The service with these settings that asks a provider. -/
def Service.ofProvider (settings : Settings) (provider : Provider) (workers : Nat) : Service where
  settings := settings
  providerName := provider.name
  providerAvailable := provider.available
  workers := workers

end EmbeddingSearch
