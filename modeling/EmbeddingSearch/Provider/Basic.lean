import EmbeddingSearch.Vector.Similarity

/-!
# Providers of embeddings

What is asked of a provider, what it answers, and how it can fail.
-/

namespace EmbeddingSearch

/-- A batch of texts to embed. -/
structure EmbeddingRequest where
  texts : List String
  model : String
  dimensions : Option Nat := none
  /-- How long the whole exchange may take. -/
  timeoutMs : Option Nat := none
deriving DecidableEq, Repr

/-- The vectors of a batch, in the order of its texts. -/
structure EmbeddingResponse where
  embeddings : List Embedding
  model : String
  tokensUsed : Option Nat := none
deriving DecidableEq, Repr

/-- Why there are no vectors. -/
inductive EmbeddingError where
  | notConfigured
  | apiRequest (details : String)
  | invalidResponse (details : String)
  | rateLimited (retryAfterSecs : Nat)
  | serialization (cause : String)
  | http (cause : String)
deriving DecidableEq, Repr

def EmbeddingError.message : EmbeddingError → String
  | .notConfigured => "embedding provider not configured"
  | .apiRequest details => s!"API request failed: {details}"
  | .invalidResponse details => s!"invalid response: {details}"
  | .rateLimited secs => s!"rate limit exceeded, retry after {secs}s"
  | .serialization cause => s!"serialization error: {cause}"
  | .http cause => s!"http error: {cause}"

/-- A provider of embeddings. What it answers may depend on how often it was asked before. -/
structure Provider where
  name : String
  /-- Whether it is ready to be asked. -/
  available : Bool
  embed : Nat → EmbeddingRequest → Except EmbeddingError EmbeddingResponse

end EmbeddingSearch
