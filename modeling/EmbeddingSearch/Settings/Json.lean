import EmbeddingSearch.Cache.Json
import EmbeddingSearch.Json.Shape
import EmbeddingSearch.Settings.Basic

/-!
# Written forms of settings

Settings as JSON values. Every member may be left out and then has its default.
-/

namespace EmbeddingSearch

namespace Json

/-- What a member that may be absent is written as. -/
def ofOption {α : Type} (write : α → Json) : Option α → Json
  | some a => write a
  | none => .null

end Json

namespace AiSettings

def toJson (s : AiSettings) : Json := Json.ofMembers
  [("enabled", .bool s.enabled), ("api_key", Json.ofOption .string s.apiKey),
    ("embedding_model", .string s.model),
    ("embedding_dimensions", Json.ofOption Json.ofNat s.dimensions),
    ("base_url", .string s.baseUrl), ("query_timeout_secs", Json.ofNat s.queryTimeoutSecs),
    ("generation_timeout_secs", Json.ofNat s.generationTimeoutSecs)]

def shape : Json.Shape AiSettings :=
  let d : AiSettings := {}
  AiSettings.mk <$> .withDefault "enabled" Json.readBool d.enabled
    <*> .withDefault "api_key" (Json.readOption Json.readText) d.apiKey
    <*> .withDefault "embedding_model" Json.readText d.model
    <*> .withDefault "embedding_dimensions" (Json.readOption Json.readNat) d.dimensions
    <*> .withDefault "base_url" Json.readText d.baseUrl
    <*> .withDefault "query_timeout_secs" Json.readNat d.queryTimeoutSecs
    <*> .withDefault "generation_timeout_secs" Json.readNat d.generationTimeoutSecs

end AiSettings

namespace QueryLimits

def toJson (q : QueryLimits) : Json := Json.ofMembers
  [("default_limit", Json.ofNat q.defaultLimit), ("max_results", Json.ofNat q.maxResults)]

def shape : Json.Shape QueryLimits :=
  let d : QueryLimits := {}
  QueryLimits.mk <$> .withDefault "default_limit" Json.readNat d.defaultLimit
    <*> .withDefault "max_results" Json.readNat d.maxResults

end QueryLimits

namespace GenerationLimits

def toJson (g : GenerationLimits) : Json := Json.ofMembers
  [("max_texts_per_batch", Json.ofNat g.batchSize),
    ("max_field_chars", Json.ofNat g.maxFieldChars),
    ("max_reported_errors", Json.ofNat g.maxErrors)]

def shape : Json.Shape GenerationLimits :=
  let d : GenerationLimits := {}
  GenerationLimits.mk <$> .withDefault "max_texts_per_batch" Json.readNat d.batchSize
    <*> .withDefault "max_field_chars" Json.readNat d.maxFieldChars
    <*> .withDefault "max_reported_errors" Json.readNat d.maxErrors

end GenerationLimits

namespace Settings

def toJson (s : Settings) : Json := Json.ofMembers
  [("ai", s.ai.toJson), ("cache", s.cache.toJson), ("query", s.query.toJson),
    ("generation", s.generation.toJson)]

def shape : Json.Shape Settings :=
  let d : Settings := {}
  Settings.mk <$> .withDefault "ai" AiSettings.shape.read d.ai
    <*> .withDefault "cache" CacheSettings.shape.read d.cache
    <*> .withDefault "query" QueryLimits.shape.read d.query
    <*> .withDefault "generation" GenerationLimits.shape.read d.generation

/-- Reads settings from a JSON value. -/
def read : Json.Reader Settings := shape.read

end Settings

end EmbeddingSearch
