import EmbeddingSearch.Provider.Basic

/-!
# Scripted providers

A provider that answers by a script: some batches fail, every other text gets a vector that is set
for it or one that is made from its length, and the answer may be short or too long.
-/

namespace EmbeddingSearch

/-- Whether a text occurs in another. -/
def Text.occursIn (pattern : List Char) : List Char → Bool
  | [] => pattern.isEmpty
  | c :: cs => pattern.isPrefixOf (c :: cs) || occursIn pattern cs

/-- Batches with a text in which `contains` occurs fail. -/
structure Script.Failure where
  contains : String
  error : EmbeddingError
deriving DecidableEq, Repr

/-- How a provider answers. -/
structure Script where
  name : String := "mock"
  available : Bool := true
  /-- The first that applies to a batch decides. -/
  failures : List Script.Failure := []
  /-- The vectors of some texts. -/
  vectors : List (String × Embedding) := []
  /-- How many vectors are missing at the end of an answer. -/
  drop : Nat := 0
  /-- How many vectors are added to it. -/
  extra : Nat := 0
deriving DecidableEq, Repr

namespace Script

/-- Whether a failure applies to a batch. -/
def Failure.applies (f : Failure) (texts : List String) : Bool :=
  texts.any fun t => Text.occursIn f.contains.toList t.toList

/-- The vector of a text: its length in UTF-8 and one, unless another is set. -/
def vectorOf (s : Script) (text : String) : Embedding :=
  (s.vectors.lookup text).getD [Float32.ofNat text.utf8ByteSize, 1]

/-- A vector that belongs to no text. -/
def surplusVector : Embedding := [9, 9]

/-- The vectors of a batch. -/
def vectorsOf (s : Script) (texts : List String) : List Embedding :=
  (texts.map s.vectorOf).take (texts.length - s.drop) ++ List.replicate s.extra surplusVector

/-- The provider that follows the script. -/
def provider (s : Script) : Provider where
  name := s.name
  available := s.available
  embed _ r :=
    match s.failures.find? fun f => f.applies r.texts with
    | some f => .error f.error
    | none => .ok { embeddings := s.vectorsOf r.texts, model := r.model }

end Script

end EmbeddingSearch
