import EmbeddingSearch.Json.Scanner
import EmbeddingSearch.Provider.Basic
import EmbeddingSearch.Settings.Basic

/-!
# Embeddings over HTTP

The provider that asks an API over HTTP. The exchange itself is a parameter: everything that is
decided about what is sent and what an answer means is here.

## Contents
- `HttpRequest`, `HttpReply`, `Transport`: one exchange.
- `Api.Client`: the key and the root of the API, with `Client.request` for what is sent.
- `Api.Body`, `Api.readBody`: the body of a good reply.
- `Api.interpret`: what a reply means.
- `Api.Client.embed`: the vectors of a batch.
-/

namespace EmbeddingSearch

/-- What is sent. -/
structure HttpRequest where
  method : String
  url : String
  headers : List (String × String)
  body : Json
deriving Repr

/-- What comes back. Names of headers are in lower case. -/
structure HttpReply where
  status : Nat
  headers : List (String × String)
  body : String
deriving DecidableEq, Repr

/-- The exchange, within so many milliseconds; it fails with a cause when no reply comes back. What
comes back may depend on how often the provider was asked before, which is the first argument. -/
abbrev Transport := Nat → Option Nat → HttpRequest → Except String HttpReply

namespace Api

/-- Access to an API. -/
structure Client where
  apiKey : Option String
  baseUrl : String
deriving DecidableEq, Repr

namespace Client

def name : String := "openai"

/-- The client of an environment with or without a key; here also an empty key counts. -/
def ofEnvironment (key : Option String) : Client := ⟨key, defaultBaseUrl⟩

def withKey (c : Client) (key : String) : Client := { c with apiKey := some key }

/-- The client for another root; slashes at the end of it do not matter. -/
def withBaseUrl (c : Client) (url : String) : Client :=
  { c with baseUrl := String.ofList (url.toList.reverse.dropWhile (· = '/')).reverse }

/-- The client that settings and environment ask for. -/
def ofSettings (s : AiSettings) (environment : Option String) : Client :=
  let c := (ofEnvironment environment).withBaseUrl s.baseUrl
  match s.resolveKey environment with
  | some key => c.withKey key
  | none => c

def isAvailable (c : Client) : Bool := c.apiKey.isSome

/-- What is sent for a batch. -/
def request (c : Client) (key : String) (r : EmbeddingRequest) : HttpRequest where
  method := "POST"
  url := c.baseUrl ++ "/embeddings"
  headers := [("authorization", "Bearer " ++ key), ("content-type", "application/json")]
  body := Json.ofMembers <|
    [("input", .array (r.texts.map .string)), ("model", .string r.model),
      ("encoding_format", .string "float")] ++
    (match r.dimensions with
      | some n => [("dimensions", Json.ofNat n)]
      | none => [])

end Client

/-! ## Replies -/

/-- One vector of a reply with the place of its text in the batch. -/
structure Item where
  embedding : Embedding
  index : Nat
deriving DecidableEq, Repr

/-- The body of a good reply. -/
structure Body where
  data : List Item
  model : String
  totalTokens : Option Nat
deriving DecidableEq, Repr

/-- What has been read of an item. -/
structure PartialItem where
  embedding : Option Embedding := none
  index : Option Nat := none

def itemLayout : Json.Layout PartialItem Item where
  start := {}
  members :=
    [.of "embedding" PartialItem.embedding (fun v s => { s with embedding := some v })
      (Json.scanList (Json.scanNumber Json.readFloat32)),
      .of "index" PartialItem.index (fun n s => { s with index := some n })
        (Json.scanNumber Json.readNat)]
  finish s := Item.mk <$> Json.present "embedding" s.embedding <*> Json.present "index" s.index

/-- The number of tokens is all that is read of the usage. -/
def usageLayout : Json.Layout (Option Nat) Nat where
  start := none
  members := [.of "total_tokens" id (fun n _ => some n) (Json.scanNumber Json.readNat)]
  finish := Json.present "total_tokens"

/-- What has been read of a body. -/
structure PartialBody where
  data : Option (List Item) := none
  model : Option String := none
  usage : Option (Option Nat) := none

def bodyLayout : Json.Layout PartialBody Body where
  start := {}
  members :=
    [.of "data" PartialBody.data (fun items s => { s with data := some items })
      (Json.scanList itemLayout.scan),
      .of "model" PartialBody.model (fun m s => { s with model := some m }) Json.scanText,
      .of "usage" PartialBody.usage (fun u s => { s with usage := some u })
        (Json.scanOption usageLayout.scan)]
  finish s :=
    Body.mk <$> Json.present "data" s.data <*> Json.present "model" s.model <*> pure s.usage.join

/-- The body of a reply. It is nested four deep, so a limit to this is never met. -/
def readBody (text : String) : Except String Body :=
  (bodyLayout.scan.all text).mapError Json.Problem.message

/-- How long to wait when a reply does not say it in whole seconds. -/
def defaultRetrySecs : Nat := 60

/-- A number of seconds as a header says it. -/
def readSecs (s : String) : Option Nat :=
  let ds := match s.toList with
    | '+' :: rest => rest
    | cs => cs
  if ds.isEmpty || !ds.all Char.isDigit then none
  else
    let n := Text.decimal ds
    if n > Json.maxUnsigned then none else some n

/-- The vectors of a body, in the order of their places. -/
def Body.response (b : Body) : EmbeddingResponse where
  embeddings := (b.data.mergeSort fun x y => x.index ≤ y.index).map Item.embedding
  model := b.model
  tokensUsed := b.totalTokens

/-- What a reply means. -/
def interpret (reply : HttpReply) : Except EmbeddingError EmbeddingResponse :=
  if reply.status = 429 then
    let secs := (reply.headers.lookup "retry-after").bind readSecs
    .error (.rateLimited (secs.getD defaultRetrySecs))
  else if reply.status < 200 || reply.status ≥ 300 then
    .error (.apiRequest s!"status {reply.status}: {reply.body}")
  else
    match readBody reply.body with
    | .error cause => .error (.serialization cause)
    | .ok b => .ok b.response

/-- The vectors of a batch, when the provider was asked `n` times before. Nothing is sent for an
empty one, nor without a key. -/
def Client.embed (c : Client) (transport : Transport) (n : Nat) (r : EmbeddingRequest) :
    Except EmbeddingError EmbeddingResponse :=
  if r.texts.isEmpty then .ok ⟨[], r.model, none⟩
  else
    match c.apiKey with
    | none => .error .notConfigured
    | some key =>
      match transport n r.timeoutMs (c.request key r) with
      | .error cause => .error (.http cause)
      | .ok reply => interpret reply

/-- The client as a provider. -/
def Client.provider (c : Client) (transport : Transport) : Provider where
  name := Client.name
  available := c.isAvailable
  embed := c.embed transport

/-- The transport of a place where no server can be reached. -/
def unreachable : Transport := fun _ _ _ => .error "no connection"

end Api

end EmbeddingSearch
