import EmbeddingSearch.Messages.Json
import EmbeddingSearch.Proofs.Json.Shape
import EmbeddingSearch.Settings.Json

/-!
# What is written can be read

Requests, answers, reports, settings, schemas and records come back from their written forms as
they were. Only numbers could be lost, by being too large for a count or by not being finite;
texts, members that are left out and empty lists never are.

## Contents
- `Json.Shape.Yields.maybe`, `Json.Shape.Yields.listed`: members that are only written when there is
  something to write.
- `Writable`, of each type that has numbers: its counts have at most 64 bits and its floats are
  finite.
- `read_toJson`, of each type: reading takes writing back.
- `read_written`: this for all of them.
-/

namespace EmbeddingSearch

namespace Json

variable {α : Type} {read : Reader α} {write : α → Json}

/-! ## Members that may be left out -/

@[simp] theorem lastMember?_memberOf (k name : String) (o : Option α) :
    lastMember? (memberOf k write o) name = if name = k then o.map write else none := by
  cases o <;> simp [memberOf]

@[simp] theorem lastMember?_memberOfList (k name : String) (as : List α) :
    lastMember? (memberOfList k write as) name =
      if name = k ∧ as ≠ [] then some (.array (as.map write)) else none := by
  cases as <;> simp [memberOfList]

@[simp] theorem lastMember?_flag (k name : String) (v : Json) (b : Bool) :
    lastMember? (if b then [(k, v)] else []) name =
      if name = k ∧ b then some v else none := by
  cases b <;> simp

theorem readOption_ofOption {o : Option α}
    (h : ∀ a ∈ o, readOption read (write a) = .ok (some a)) :
    readOption read (ofOption write o) = .ok o := by
  cases o with
  | none => rfl
  | some a => exact h a rfl

namespace Shape.Yields

variable {get : String → Option Json} {name : String}

/-- A value that is only written when there is one. -/
theorem maybe (write : α → Json) {o : Option α} (hv : get name = o.map write)
    (h : ∀ a ∈ o, readOption read (write a) = .ok (some a)) :
    (Json.maybe name read).Yields get o := by
  cases o with
  | none => exact .leftOut hv
  | some a => exact .present _ hv (h a rfl)

/-- A list that is only written when it is not empty. -/
theorem listed (write : α → Json) {as : List α}
    (hv : get name = if as ≠ [] then some (.array (as.map write)) else none)
    (h : ∀ a ∈ as, read (write a) = .ok a) :
    (withDefault name (readList read) []).Yields get as := by
  by_cases has : as = []
  · subst has
    exact .leftOut hv
  · rw [if_pos has] at hv
    exact .present _ hv (readList_map h)

end Shape.Yields

end Json

open Json (maxUnsigned readNat_ofNat readList_map readOption_some)
open Json.Shape (read_ofMembers)

/-! ## Names -/

theorem Mode.read_toJson (m : Mode) : Mode.read m.toJson = .ok m := by
  cases m <;> rfl

theorem FieldKind.read_toJson (k : FieldKind) : FieldKind.read k.toJson = .ok k := by
  cases k <;> rfl

/-! ## Schemas and records -/

namespace EmbeddableField

theorem read_toJson (f : EmbeddableField) : shape.read f.toJson = .ok f := by
  refine read_ofMembers (.seq (.map _ ?name) ?kind)
  case name => exact .text (by simp)
  case kind => exact .present f.kind.toJson (by simp) f.kind.read_toJson

end EmbeddableField

namespace Field

theorem read_toJson (f : Field) : shape.read f.toJson = .ok f := by
  refine read_ofMembers (.seq (.seq (.map _ ?name) ?kind) ?marked)
  case name => exact .text (by simp)
  case kind => exact .present f.kind.toJson (by simp) f.kind.read_toJson
  case marked => exact .flag (by simp)

end Field

namespace Dataset

theorem read_toJson (d : Dataset) : shape.read d.toJson = .ok d := by
  refine read_ofMembers (.seq (.seq (.map _ ?id) ?name) ?fields)
  case id => exact .text (by simp)
  case name => exact .text (by simp)
  case fields =>
    refine .present (.array (d.fields.map Field.toJson)) (by simp) (readList_map ?_)
    exact fun f _ => f.read_toJson

end Dataset

namespace Record

theorem read_toJson (r : Record) : shape.read r.toJson = .ok r := by
  refine read_ofMembers (.seq (.map _ ?id) ?values)
  case id => exact .text (by simp)
  case values => exact .present (.object r.values) (by simp) rfl

end Record

/-! ## Generation runs -/

namespace GenerationRequest

theorem read_toJson (r : GenerationRequest) : shape.read r.toJson = .ok r := by
  refine read_ofMembers (.seq (.seq (.seq (.seq (.map _ ?dataset) ?field) ?mode) ?ids) ?template)
  case dataset => exact .text (by simp)
  case field => exact .maybe .string (by simp) fun _ _ => rfl
  case mode => exact .present r.mode.toJson (by simp) r.mode.read_toJson
  case ids =>
    refine .maybe (fun ids => .array (ids.map .string)) (by simp) fun ids _ => ?_
    exact readOption_some (by simp) (readList_map fun _ _ => rfl)
  case template => exact .maybe .string (by simp) fun _ _ => rfl

end GenerationRequest

namespace GenerationReport

structure Writable (r : GenerationReport) : Prop where
  generated : r.generated ≤ maxUnsigned
  skipped : r.skipped ≤ maxUnsigned

theorem read_toJson {r : GenerationReport} (h : r.Writable) : shape.read r.toJson = .ok r := by
  refine read_ofMembers (.seq (.seq (.map _ ?generated) ?skipped) ?errors)
  case generated => exact .count (by simp) h.generated
  case skipped => exact .count (by simp) h.skipped
  case errors => exact .listed .string (by simp) fun _ _ => rfl

end GenerationReport

/-! ## Reports on the cache -/

namespace CacheInfo

structure Writable (i : CacheInfo) : Prop where
  entries : i.entries ≤ maxUnsigned
  usedMb : i.usedMb.isFinite
  budgetMb : i.budgetMb.isFinite
  usagePercent : i.usagePercent.isFinite

theorem read_toJson {i : CacheInfo} (h : i.Writable) : shape.read i.toJson = .ok i := by
  refine read_ofMembers (.seq (.seq (.seq (.map _ ?entries) ?usedMb) ?budgetMb) ?usagePercent)
  case entries => exact .count (by simp) h.entries
  case usedMb => exact .float (by simp) h.usedMb
  case budgetMb => exact .float (by simp) h.budgetMb
  case usagePercent => exact .float (by simp) h.usagePercent

end CacheInfo

namespace EntryStats

structure Writable (e : EntryStats) : Prop where
  count : e.count ≤ maxUnsigned
  sizeMb : e.sizeMb.isFinite
  ageMs : e.ageMs ≤ maxUnsigned
  idleMs : e.idleMs ≤ maxUnsigned

theorem read_toJson {e : EntryStats} (h : e.Writable) : shape.read e.toJson = .ok e := by
  refine read_ofMembers (.seq (.seq (.seq (.seq (.map _ ?key) ?count) ?sizeMb) ?ageMs) ?idleMs)
  case key => exact .text (by simp)
  case count => exact .count (by simp) h.count
  case sizeMb => exact .float (by simp) h.sizeMb
  case ageMs => exact .count (by simp) h.ageMs
  case idleMs => exact .count (by simp) h.idleMs

end EntryStats

namespace CacheStats

structure Writable (s : CacheStats) : Prop where
  entriesCount : s.entriesCount ≤ maxUnsigned
  totalVectors : s.totalVectors ≤ maxUnsigned
  usedMb : s.usedMb.isFinite
  budgetMb : s.budgetMb.isFinite
  usagePercent : s.usagePercent.isFinite
  maxVectors : s.maxVectors ≤ maxUnsigned
  idleSecs : s.idleSecs ≤ maxUnsigned
  entries : ∀ e ∈ s.entries, e.Writable

theorem read_toJson {s : CacheStats} (h : s.Writable) : shape.read s.toJson = .ok s := by
  refine read_ofMembers (.seq (.seq (.seq (.seq (.seq (.seq (.seq (.map _ ?entriesCount)
    ?totalVectors) ?usedMb) ?budgetMb) ?usagePercent) ?maxVectors) ?idleSecs) ?entries)
  case entriesCount => exact .count (by simp) h.entriesCount
  case totalVectors => exact .count (by simp) h.totalVectors
  case usedMb => exact .float (by simp) h.usedMb
  case budgetMb => exact .float (by simp) h.budgetMb
  case usagePercent => exact .float (by simp) h.usagePercent
  case maxVectors => exact .count (by simp) h.maxVectors
  case idleSecs => exact .count (by simp) h.idleSecs
  case entries =>
    refine .present (.array (s.entries.map EntryStats.toJson)) (by simp) (readList_map ?_)
    exact fun e he => EntryStats.read_toJson (h.entries e he)

end CacheStats

/-! ## Searches -/

namespace SearchRequest

/-- A limit has at most 64 bits, one of them for the sign. -/
structure Writable (r : SearchRequest) : Prop where
  limit : ∀ n ∈ r.limit, -2 ^ 63 ≤ n ∧ n < 2 ^ 63

theorem read_toJson {r : SearchRequest} (h : r.Writable) : shape.read r.toJson = .ok r := by
  refine read_ofMembers (.seq (.seq (.seq (.seq (.seq (.map _ ?dataset) ?field) ?mode) ?text)
    ?recordId) ?limit)
  case dataset => exact .text (by simp)
  case field => exact .maybe .string (by simp) fun _ _ => rfl
  case mode => exact .present r.mode.toJson (by simp) r.mode.read_toJson
  case text => exact .maybe .string (by simp) fun _ _ => rfl
  case recordId => exact .maybe .string (by simp) fun _ _ => rfl
  case limit =>
    refine .maybe Json.ofInt (by simp) fun n hn => readOption_some (by simp [Json.ofInt]) ?_
    exact Json.readInt64_ofInt (h.limit n hn).1 (h.limit n hn).2

end SearchRequest

namespace Scored

structure Writable (s : Scored) : Prop where
  similarity : s.similarity.isFinite

theorem read_toJson {s : Scored} (h : s.Writable) : shape.read s.toJson = .ok s := by
  refine read_ofMembers (.seq (.map _ ?recordId) ?similarity)
  case recordId => exact .text (by simp)
  case similarity =>
    exact .present (Json.ofFloat (widen s.similarity)) (by simp)
      (Json.readFloat32_widen h.similarity)

end Scored

namespace Diagnostics

structure Writable (d : Diagnostics) : Prop where
  queryLength : d.queryLength ≤ maxUnsigned
  stored : d.stored ≤ maxUnsigned
  processed : d.processed ≤ maxUnsigned
  failed : d.failed ≤ maxUnsigned
  cache : ∀ i ∈ d.cache, i.Writable

theorem read_toJson {d : Diagnostics} (h : d.Writable) : shape.read d.toJson = .ok d := by
  refine read_ofMembers (.seq (.seq (.seq (.seq (.seq (.seq (.seq (.seq (.seq (.map _ ?dataset)
    ?field) ?queryLength) ?stored) ?processed) ?failed) ?cacheHit) ?cacheSkipped) ?cache) ?errors)
  case dataset => exact .text (by simp)
  case field => exact .text (by simp)
  case queryLength => exact .count (by simp) h.queryLength
  case stored => exact .count (by simp) h.stored
  case processed => exact .count (by simp) h.processed
  case failed => exact .count (by simp) h.failed
  case cacheHit => exact .flag (by simp)
  case cacheSkipped =>
    by_cases hskipped : d.cacheSkipped
    · rw [hskipped]
      exact .flag (by simp)
    · rw [Bool.eq_false_iff.mpr hskipped]
      exact .leftOut (by simp)
  case cache =>
    refine .maybe CacheInfo.toJson (by simp) fun i hi => readOption_some ?_ ?_
    · simp [CacheInfo.toJson, Json.ofMembers]
    · exact CacheInfo.read_toJson (h.cache i hi)
  case errors => exact .listed .string (by simp) fun _ _ => rfl

end Diagnostics

namespace SearchAnswer

structure Writable (a : SearchAnswer) : Prop where
  results : ∀ s ∈ a.results, s.Writable
  diagnostics : a.diagnostics.Writable

theorem read_toJson {a : SearchAnswer} (h : a.Writable) : shape.read a.toJson = .ok a := by
  refine read_ofMembers (.seq (.map _ ?results) ?diagnostics)
  case results =>
    refine .present (.array (a.results.map Scored.toJson)) (by simp) (readList_map ?_)
    exact fun s hs => Scored.read_toJson (h.results s hs)
  case diagnostics =>
    exact .present a.diagnostics.toJson (by simp) (Diagnostics.read_toJson h.diagnostics)

end SearchAnswer

namespace Coverage

structure Writable (c : Coverage) : Prop where
  total : c.total ≤ maxUnsigned
  embedded : c.embedded ≤ maxUnsigned
  missing : c.missing ≤ maxUnsigned

theorem read_toJson {c : Coverage} (h : c.Writable) : shape.read c.toJson = .ok c := by
  refine read_ofMembers (.seq (.seq (.map _ ?total) ?embedded) ?missing)
  case total => exact .count (by simp) h.total
  case embedded => exact .count (by simp) h.embedded
  case missing => exact .count (by simp) h.missing

end Coverage

/-! ## Settings -/

namespace CacheSettings

structure Writable (s : CacheSettings) : Prop where
  budgetMb : s.budgetMb.isFinite
  maxVectors : s.maxVectors ≤ maxUnsigned
  idleSecs : s.idleSecs ≤ maxUnsigned
  bytesPerVector : s.bytesPerVector ≤ maxUnsigned

theorem read_toJson {s : CacheSettings} (h : s.Writable) : shape.read s.toJson = .ok s := by
  refine read_ofMembers (.seq (.seq (.seq (.map _ ?budgetMb) ?maxVectors) ?idleSecs)
    ?bytesPerVector)
  case budgetMb => exact .float (by simp) h.budgetMb
  case maxVectors => exact .count (by simp) h.maxVectors
  case idleSecs => exact .count (by simp) h.idleSecs
  case bytesPerVector => exact .count (by simp) h.bytesPerVector

end CacheSettings

namespace AiSettings

structure Writable (s : AiSettings) : Prop where
  dimensions : ∀ n ∈ s.dimensions, n ≤ maxUnsigned
  queryTimeoutSecs : s.queryTimeoutSecs ≤ maxUnsigned
  generationTimeoutSecs : s.generationTimeoutSecs ≤ maxUnsigned

theorem read_toJson {s : AiSettings} (h : s.Writable) : shape.read s.toJson = .ok s := by
  refine read_ofMembers (.seq (.seq (.seq (.seq (.seq (.seq (.map _ ?enabled) ?apiKey) ?model)
    ?dimensions) ?baseUrl) ?queryTimeoutSecs) ?generationTimeoutSecs)
  case enabled => exact .flag (by simp)
  case apiKey =>
    exact .present (Json.ofOption .string s.apiKey) (by simp)
      (Json.readOption_ofOption fun _ _ => rfl)
  case model => exact .text (by simp)
  case dimensions =>
    refine .present (Json.ofOption Json.ofNat s.dimensions) (by simp)
      (Json.readOption_ofOption fun n hn => ?_)
    exact readOption_some (by simp [Json.ofNat, Json.ofInt]) (readNat_ofNat (h.dimensions n hn))
  case baseUrl => exact .text (by simp)
  case queryTimeoutSecs => exact .count (by simp) h.queryTimeoutSecs
  case generationTimeoutSecs => exact .count (by simp) h.generationTimeoutSecs

end AiSettings

namespace QueryLimits

structure Writable (q : QueryLimits) : Prop where
  defaultLimit : q.defaultLimit ≤ maxUnsigned
  maxResults : q.maxResults ≤ maxUnsigned

theorem read_toJson {q : QueryLimits} (h : q.Writable) : shape.read q.toJson = .ok q := by
  refine read_ofMembers (.seq (.map _ ?defaultLimit) ?maxResults)
  case defaultLimit => exact .count (by simp) h.defaultLimit
  case maxResults => exact .count (by simp) h.maxResults

end QueryLimits

namespace GenerationLimits

structure Writable (g : GenerationLimits) : Prop where
  batchSize : g.batchSize ≤ maxUnsigned
  maxFieldChars : g.maxFieldChars ≤ maxUnsigned
  maxErrors : g.maxErrors ≤ maxUnsigned

theorem read_toJson {g : GenerationLimits} (h : g.Writable) : shape.read g.toJson = .ok g := by
  refine read_ofMembers (.seq (.seq (.map _ ?batchSize) ?maxFieldChars) ?maxErrors)
  case batchSize => exact .count (by simp) h.batchSize
  case maxFieldChars => exact .count (by simp) h.maxFieldChars
  case maxErrors => exact .count (by simp) h.maxErrors

end GenerationLimits

/-! ## Everything that is written -/

/-- Whatever texts, counts of 64 bits and finite floats it holds, and whichever of its members are
left out, a value is read from what it is written as. -/
theorem read_written :
    (∀ r : GenerationRequest, GenerationRequest.shape.read r.toJson = .ok r) ∧
    (∀ r : GenerationReport, r.Writable → GenerationReport.shape.read r.toJson = .ok r) ∧
    (∀ r : SearchRequest, r.Writable → SearchRequest.shape.read r.toJson = .ok r) ∧
    (∀ a : SearchAnswer, a.Writable → SearchAnswer.shape.read a.toJson = .ok a) ∧
    (∀ c : Coverage, c.Writable → Coverage.shape.read c.toJson = .ok c) ∧
    (∀ f : EmbeddableField, EmbeddableField.shape.read f.toJson = .ok f) ∧
    (∀ s : CacheStats, s.Writable → CacheStats.shape.read s.toJson = .ok s) ∧
    (∀ s : CacheSettings, s.Writable → CacheSettings.shape.read s.toJson = .ok s) ∧
    (∀ s : AiSettings, s.Writable → AiSettings.shape.read s.toJson = .ok s) ∧
    (∀ q : QueryLimits, q.Writable → QueryLimits.shape.read q.toJson = .ok q) ∧
    (∀ g : GenerationLimits, g.Writable → GenerationLimits.shape.read g.toJson = .ok g) ∧
    (∀ d : Dataset, Dataset.shape.read d.toJson = .ok d) ∧
    (∀ f : Field, Field.shape.read f.toJson = .ok f) ∧
    (∀ r : Record, Record.shape.read r.toJson = .ok r) := by
  refine ⟨GenerationRequest.read_toJson, ?_, ?_, ?_, ?_, EmbeddableField.read_toJson, ?_, ?_, ?_,
    ?_, ?_, Dataset.read_toJson, Field.read_toJson, Record.read_toJson⟩
  · exact fun _ h => GenerationReport.read_toJson h
  · exact fun _ h => SearchRequest.read_toJson h
  · exact fun _ h => SearchAnswer.read_toJson h
  · exact fun _ h => Coverage.read_toJson h
  · exact fun _ h => CacheStats.read_toJson h
  · exact fun _ h => CacheSettings.read_toJson h
  · exact fun _ h => AiSettings.read_toJson h
  · exact fun _ h => QueryLimits.read_toJson h
  · exact fun _ h => GenerationLimits.read_toJson h

/-- The least and the largest numbers come back, the smallest subnormal values and the negative zero
among them. -/
theorem read_written_extremes :
    let report : GenerationReport := { generated := maxUnsigned, skipped := 0, errors := [""] }
    let request : SearchRequest := { dataset := "", limit := some (-2 ^ 63) }
    let info : CacheInfo :=
      { entries := 1, usedMb := .ofBits 1, budgetMb := .ofBits 0x7FEFFFFFFFFFFFFF,
        usagePercent := .ofBits 0x8000000000000000 }
    let answer : SearchAnswer :=
      { results := [⟨"a", .ofBits 0x80000001⟩, ⟨"b", .ofBits 0x80000000⟩, ⟨"c", .ofBits 0x3DCCCCCD⟩]
        diagnostics :=
          { dataset := "", field := "", queryLength := maxUnsigned, cacheSkipped := true,
            cache := some info } }
    let coverage : Coverage := ⟨maxUnsigned, 0, maxUnsigned⟩
    let stats : CacheStats := ⟨1, 0, .ofBits 1, .ofBits 1, .ofBits 1, 0, maxUnsigned, [⟨":", 0,
      .ofBits 0x8000000000000000, 0, maxUnsigned⟩]⟩
    let cache : CacheSettings := ⟨.ofBits 0x8000000000000001, 0, maxUnsigned, 0⟩
    let ai : AiSettings := { apiKey := some "", dimensions := some maxUnsigned }
    let query : QueryLimits := ⟨0, maxUnsigned⟩
    let generation : GenerationLimits := ⟨0, maxUnsigned, 0⟩
    (report.Writable ∧ GenerationReport.shape.read report.toJson = .ok report) ∧
    (request.Writable ∧ SearchRequest.shape.read request.toJson = .ok request) ∧
    (answer.Writable ∧ SearchAnswer.shape.read answer.toJson = .ok answer) ∧
    (coverage.Writable ∧ Coverage.shape.read coverage.toJson = .ok coverage) ∧
    (stats.Writable ∧ CacheStats.shape.read stats.toJson = .ok stats) ∧
    (cache.Writable ∧ CacheSettings.shape.read cache.toJson = .ok cache) ∧
    (ai.Writable ∧ AiSettings.shape.read ai.toJson = .ok ai) ∧
    (query.Writable ∧ QueryLimits.shape.read query.toJson = .ok query) ∧
    (generation.Writable ∧ GenerationLimits.shape.read generation.toJson = .ok generation) := by
  intro report request info answer coverage stats cache ai query generation
  obtain ⟨-, hreport, hrequest, hanswer, hcoverage, -, hstats, hcache, hai, hquery, hgeneration,
    -⟩ := read_written
  have report_ok : report.Writable := ⟨by decide, by decide⟩
  have request_ok : request.Writable := ⟨by decide⟩
  have info_ok : info.Writable := ⟨by decide, by decide, by decide, by decide⟩
  have answer_ok : answer.Writable :=
    { results := by
        intro s hs
        have hlisted : ∀ s ∈ answer.results, s.similarity.isFinite := by decide
        exact ⟨hlisted s hs⟩
      diagnostics := ⟨by decide, by decide, by decide, by decide, by
        rintro i ⟨⟩
        exact info_ok⟩ }
  have coverage_ok : coverage.Writable := ⟨by decide, by decide, by decide⟩
  have stats_ok : stats.Writable := by
    refine ⟨by decide, by decide, by decide, by decide, by decide, by decide, by decide, ?_⟩
    intro e he
    obtain rfl := List.mem_singleton.mp he
    exact ⟨by decide, by decide, by decide, by decide⟩
  have cache_ok : cache.Writable := ⟨by decide, by decide, by decide, by decide⟩
  have ai_ok : ai.Writable := ⟨by decide, by decide, by decide⟩
  have query_ok : query.Writable := ⟨by decide, by decide⟩
  have generation_ok : generation.Writable := ⟨by decide, by decide, by decide⟩
  exact ⟨⟨report_ok, hreport _ report_ok⟩, ⟨request_ok, hrequest _ request_ok⟩,
    ⟨answer_ok, hanswer _ answer_ok⟩, ⟨coverage_ok, hcoverage _ coverage_ok⟩,
    ⟨stats_ok, hstats _ stats_ok⟩, ⟨cache_ok, hcache _ cache_ok⟩, ⟨ai_ok, hai _ ai_ok⟩,
    ⟨query_ok, hquery _ query_ok⟩, ⟨generation_ok, hgeneration _ generation_ok⟩⟩

end EmbeddingSearch
