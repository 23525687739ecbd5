import EmbeddingSearch.Provider.Basic
import EmbeddingSearch.Settings.Json
import EmbeddingSearch.Store.Json

/-!
# Written forms of provider requests and answers

The timeout of a request is not written.
-/

namespace EmbeddingSearch

namespace EmbeddingRequest

def toJson (r : EmbeddingRequest) : Json := Json.ofMembers
  [("texts", .array (r.texts.map .string)), ("model", .string r.model),
    ("dimensions", Json.ofOption Json.ofNat r.dimensions)]

def shape : Json.Shape EmbeddingRequest :=
  (fun texts model dimensions => { texts, model, dimensions })
    <$> .required "texts" (Json.readList Json.readText) <*> .required "model" Json.readText
    <*> .optional "dimensions" Json.readNat

end EmbeddingRequest

namespace EmbeddingResponse

def toJson (r : EmbeddingResponse) : Json := Json.ofMembers
  [("embeddings", .array (r.embeddings.map Embedding.toJson)), ("model", .string r.model),
    ("tokens_used", Json.ofOption Json.ofNat r.tokensUsed)]

def shape : Json.Shape EmbeddingResponse :=
  EmbeddingResponse.mk
    <$> .required "embeddings" (Json.readList (Json.readList Json.readFloat32))
    <*> .required "model" Json.readText <*> .optional "tokens_used" Json.readNat

end EmbeddingResponse

end EmbeddingSearch
