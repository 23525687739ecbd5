import EmbeddingSearch.Cache.Report
import EmbeddingSearch.Json.Shape

/-!
# Written forms of the cache

The limits and the reports of the cache as JSON values.
-/

namespace EmbeddingSearch

namespace CacheSettings

def toJson (s : CacheSettings) : Json := Json.ofMembers
  [("max_memory_mb", Json.ofFloat s.budgetMb), ("max_per_entry", Json.ofNat s.maxVectors),
    ("ttl_secs", Json.ofNat s.idleSecs), ("bytes_per_record", Json.ofNat s.bytesPerVector)]

/-- Every member may be left out. -/
def shape : Json.Shape CacheSettings :=
  let d : CacheSettings := {}
  CacheSettings.mk <$> .withDefault "max_memory_mb" Json.readFloat d.budgetMb
    <*> .withDefault "max_per_entry" Json.readNat d.maxVectors
    <*> .withDefault "ttl_secs" Json.readNat d.idleSecs
    <*> .withDefault "bytes_per_record" Json.readNat d.bytesPerVector

end CacheSettings

namespace CacheInfo

def toJson (i : CacheInfo) : Json := Json.ofMembers
  [("entriesCount", Json.ofNat i.entries), ("memoryUsedMb", Json.ofFloat i.usedMb),
    ("memoryBudgetMb", Json.ofFloat i.budgetMb),
    ("memoryUsagePercent", Json.ofFloat i.usagePercent)]

def shape : Json.Shape CacheInfo :=
  CacheInfo.mk <$> .required "entriesCount" Json.readNat
    <*> .required "memoryUsedMb" Json.readFloat
    <*> .required "memoryBudgetMb" Json.readFloat
    <*> .required "memoryUsagePercent" Json.readFloat

end CacheInfo

namespace EntryStats

def toJson (e : EntryStats) : Json := Json.ofMembers
  [("key", .string e.key), ("count", Json.ofNat e.count), ("memoryMb", Json.ofFloat e.sizeMb),
    ("ageMs", Json.ofNat e.ageMs), ("idleMs", Json.ofNat e.idleMs)]

def shape : Json.Shape EntryStats :=
  EntryStats.mk <$> .required "key" Json.readText <*> .required "count" Json.readNat
    <*> .required "memoryMb" Json.readFloat <*> .required "ageMs" Json.readNat
    <*> .required "idleMs" Json.readNat

end EntryStats

namespace CacheStats

def toJson (s : CacheStats) : Json := Json.ofMembers
  [("entriesCount", Json.ofNat s.entriesCount), ("totalVectors", Json.ofNat s.totalVectors),
    ("memoryUsedMb", Json.ofFloat s.usedMb), ("memoryBudgetMb", Json.ofFloat s.budgetMb),
    ("memoryUsagePercent", Json.ofFloat s.usagePercent),
    ("maxPerEntry", Json.ofNat s.maxVectors), ("ttlSecs", Json.ofNat s.idleSecs),
    ("entries", .array (s.entries.map EntryStats.toJson))]

def shape : Json.Shape CacheStats :=
  CacheStats.mk <$> .required "entriesCount" Json.readNat
    <*> .required "totalVectors" Json.readNat
    <*> .required "memoryUsedMb" Json.readFloat
    <*> .required "memoryBudgetMb" Json.readFloat
    <*> .required "memoryUsagePercent" Json.readFloat
    <*> .required "maxPerEntry" Json.readNat
    <*> .required "ttlSecs" Json.readNat
    <*> .required "entries" (Json.readList EntryStats.shape.read)

end CacheStats

end EmbeddingSearch
