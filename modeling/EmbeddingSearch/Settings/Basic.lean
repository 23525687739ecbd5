import EmbeddingSearch.Cache.Settings

/-!
# Settings

What a service is set up with: the provider of embeddings, the cache, and the limits of searches
and of generation runs.

## Contents
- `AiSettings`, `QueryLimits`, `GenerationLimits`, `Settings`: the sections with their defaults.
- `nonEmpty`, `Given`, `LeftOut`: texts that are there and not empty, and the others.
- `AiSettings.resolveKey`: the key to use, given the environment.
- `QueryLimits.resolve`: the limit that a search gets.
-/

namespace EmbeddingSearch

/-- The root of the provider's API when none is set. -/
def defaultBaseUrl : String := "https://api.openai.com/v1"

/-- The provider of embeddings. -/
structure AiSettings where
  /-- The switch for everything that needs embeddings. -/
  enabled : Bool := false
  apiKey : Option String := none
  model : String := "text-embedding-3-small"
  /-- The length of the vectors to ask for. -/
  dimensions : Option Nat := none
  baseUrl : String := defaultBaseUrl
  /-- How long embedding the text of a search may take, in seconds. -/
  queryTimeoutSecs : Nat := 30
  /-- How long embedding a batch may take, in seconds. -/
  generationTimeoutSecs : Nat := 120
deriving DecidableEq, Repr

/-- A text, unless it is empty. -/
def nonEmpty (s : Option String) : Option String := s.filter fun s => !s.isEmpty

/-- Whether a text is given: it is there, and it is not empty. -/
def Given (s : Option String) (text : String) : Prop := s = some text ∧ text ≠ ""

/-- Whether no text is given: there is none, or an empty one. -/
def LeftOut (s : Option String) : Prop := s = none ∨ s = some ""

theorem nonEmpty_eq_some {s : Option String} {text : String} :
    nonEmpty s = some text ↔ Given s text := by
  simp [nonEmpty, Given, Option.filter_eq_some_iff]

theorem nonEmpty_eq_none {s : Option String} : nonEmpty s = none ↔ LeftOut s := by
  cases s with
  | none => simp [nonEmpty, LeftOut]
  | some s => simp [nonEmpty, LeftOut, Option.filter]

theorem nonEmpty_eq_filter (s : Option String) : nonEmpty s = s.filter (· ≠ "") :=
  Option.ext fun text => by simp [nonEmpty_eq_some, Given, Option.filter_eq_some_iff]

theorem Given.filter_eq {s : Option String} {text : String} (h : Given s text) :
    s.filter (· ≠ "") = some text :=
  (nonEmpty_eq_filter s).symm.trans (nonEmpty_eq_some.mpr h)

theorem LeftOut.filter_eq {s : Option String} (h : LeftOut s) : s.filter (· ≠ "") = none :=
  (nonEmpty_eq_filter s).symm.trans (nonEmpty_eq_none.mpr h)

theorem Given.unique {s : Option String} {text text' : String} (h : Given s text)
    (h' : Given s text') : text = text' :=
  Option.some.inj (h.1.symm.trans h'.1)

theorem Given.not_leftOut {s : Option String} {text : String} (h : Given s text) : ¬ LeftOut s := by
  rintro (hnone | hempty)
  · cases h.1.symm.trans hnone
  · exact h.2 (Option.some.inj (h.1.symm.trans hempty))

/-- The key that is set or, without one, that of the environment. An empty key is none. -/
def AiSettings.resolveKey (s : AiSettings) (environment : Option String) : Option String :=
  nonEmpty s.apiKey <|> nonEmpty environment

/-- The limits of searches. -/
structure QueryLimits where
  /-- How many results a search gives when it does not ask for a number. -/
  defaultLimit : Nat := 10
  /-- The most results that a search can ask for. -/
  maxResults : Nat := 100
deriving DecidableEq, Repr

/-- The limit of a search: the requested one if it is positive, and never more than allowed. -/
def QueryLimits.resolve (q : QueryLimits) (requested : Option Int) : Nat :=
  let wanted := match requested with
    | some n => if n > 0 then n.toNat else q.defaultLimit
    | none => q.defaultLimit
  min wanted (max q.maxResults 1)

/-- The limits of generation runs. -/
structure GenerationLimits where
  /-- How many texts are sent at once. -/
  batchSize : Nat := 2048
  /-- How many characters of a field go into the text of a record. -/
  maxFieldChars : Nat := 2000
  /-- How many errors are reported. -/
  maxErrors : Nat := 10
deriving DecidableEq, Repr

/-- All settings of a service. -/
structure Settings where
  ai : AiSettings := {}
  cache : CacheSettings := {}
  query : QueryLimits := {}
  generation : GenerationLimits := {}
deriving DecidableEq, Repr

end EmbeddingSearch
