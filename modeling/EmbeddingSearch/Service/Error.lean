import EmbeddingSearch.Provider.Basic
import EmbeddingSearch.Store.Payload

/-!
# Errors of the service

Every cause for which an operation of the service fails, with its kind and its message. What goes
wrong with a single record or a single batch is not among them; it is reported in the answer.
-/

namespace EmbeddingSearch

/-- Why an operation failed. -/
inductive ServiceError where
  /-- Embeddings are switched off. -/
  | disabled
  /-- The provider has no key. -/
  | providerNotReady (provider : String)
  | modelMissing
  | datasetNotFound (name : String)
  | fieldNotFound (field dataset : String)
  | vectorNotFound (recordId field : String)
  /-- A search names both a text and a record. -/
  | ambiguousQuery
  | searchFieldMissing
  | generationFieldMissing
  | fieldNotEmbeddable (field : String)
  /-- A search names neither a text nor a record. -/
  | queryMissing
  | decode (e : DecodeError)
  | embedding (e : EmbeddingError)
  /-- The catalog or the store failed. -/
  | store (cause : String)
  /-- The settings are no document of their format. -/
  | document (cause : String)
  /-- The settings could not be read at all. -/
  | unreadable (cause : String)
deriving DecidableEq, Repr

namespace ServiceError

/-- The kinds of errors. -/
inductive Kind where
  | config
  | notFound
  | invalidRequest
  | missingQuery
  | decode (e : DecodeError)
  | embedding (e : EmbeddingError)
  | store
  | document
  | unreadable
deriving DecidableEq, Repr

def kind : ServiceError → Kind
  | .disabled | .providerNotReady _ | .modelMissing => .config
  | .datasetNotFound _ | .fieldNotFound _ _ | .vectorNotFound _ _ => .notFound
  | .ambiguousQuery | .searchFieldMissing | .generationFieldMissing | .fieldNotEmbeddable _ =>
    .invalidRequest
  | .queryMissing => .missingQuery
  | .decode e => .decode e
  | .embedding e => .embedding e
  | .store _ => .store
  | .document _ => .document
  | .unreadable _ => .unreadable

/-- What is wrong, in words. -/
def details : ServiceError → String
  | .disabled => "AI features are not enabled"
  | .providerNotReady provider => s!"embedding provider {provider} has no API key configured"
  | .modelMissing => "embedding model is not configured"
  | .datasetNotFound name => s!"dataset {name}"
  | .fieldNotFound field dataset => s!"field {field} in dataset {dataset}"
  | .vectorNotFound recordId field => s!"embedding for record {recordId}:{field}"
  | .ambiguousQuery => "provide either text or recordId, not both"
  | .searchFieldMissing => "fieldName is required for field-level search mode"
  | .generationFieldMissing => "fieldName is required for field mode"
  | .fieldNotEmbeddable field => s!"field {field} is not embeddable"
  | .queryMissing => "either text or recordId must be provided"
  | .decode e => e.message
  | .embedding e => e.message
  | .store cause => cause
  | .document cause => cause
  | .unreadable cause => cause

/-- The message starts with the kind, except where the details say it all. -/
def message (e : ServiceError) : String :=
  match e.kind with
  | .config => "configuration error: " ++ e.details
  | .notFound => "not found: " ++ e.details
  | .invalidRequest => "invalid request: " ++ e.details
  | .missingQuery => e.details
  | .decode _ => "failed to parse stored embedding: " ++ e.details
  | .embedding _ => "embedding error: " ++ e.details
  | .store => "store error: " ++ e.details
  | .document => "invalid configuration file: " ++ e.details
  | .unreadable => "io error: " ++ e.details

end ServiceError

end EmbeddingSearch
