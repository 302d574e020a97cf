import DetectorCache.Document
import DetectorCache.Journal
import DetectorCache.Timestamp

set_option autoImplicit false

namespace DetectorCache

open Octets (ascii)

/-- Lifetime of cache entries and period of refreshes in milliseconds, number of shards, and
threshold of the journal. -/
structure Config where
  lifetime : Int := 7200000
  shardCount : Nat := 16
  refreshInterval : Int := 60000
  threshold : Journal.Level := .info
  deriving DecidableEq

namespace Config

def maxShardCount : Nat := 4096

inductive Problem where
  | rootNotObject
  | unknownField (path : Octets)
  | cacheNotObject
  | notPositiveMilliseconds (path : Octets)
  | shardCountOutOfRange
  | levelNotString
  | level (cause : Journal.Level.Unknown)
  deriving DecidableEq

def Problem.message : Problem → Octets
  | .rootNotObject => ascii "config root must be a JSON object"
  | .unknownField path => ascii "unknown config field: " ++ path
  | .cacheNotObject => ascii "cache must be an object"
  | .notPositiveMilliseconds path =>
    path ++ ascii " must be a positive integer number of milliseconds"
  | .shardCountOutOfRange =>
    ascii "cache.shard_count must be an integer in [1, " ++ Octets.decimal maxShardCount ++
      ascii "]"
  | .levelNotString =>
    ascii "log_level must be a string (" ++ Journal.Level.expected ++ ascii ")"
  | .level cause => ascii "log_level: " ++ cause.message

def checkFields (path : Octets) (known : List Octets) (members : List (Octets × Json)) :
    Except Problem Unit :=
  match members.find? fun m => !known.contains m.1 with
  | none => .ok ()
  | some m => .error (.unknownField (path ++ m.1))

/-- Reads a positive number of milliseconds, or `default` if the member is absent. The number is
taken as a 64-bit count. -/
def positiveMilliseconds (parent : Json) (name path : Octets) (default : Int) :
    Except Problem Int :=
  match parent.member? name with
  | none => .ok default
  | some value =>
    match value.unsigned? with
    | none => .error (.notPositiveMilliseconds path)
    | some n => if n = 0 then .error (.notPositiveMilliseconds path) else .ok (wrap64 n)

def shardCountOfJson (cache : Json) (default : Nat) : Except Problem Nat :=
  match cache.member? (ascii "shard_count") with
  | none => .ok default
  | some value =>
    match value.unsigned? with
    | none => .error .shardCountOutOfRange
    | some n => if n = 0 ∨ maxShardCount < n then .error .shardCountOutOfRange else .ok n

def cacheOfJson (root : Json) (default : Config) : Except Problem (Int × Nat) :=
  match root.member? (ascii "cache") with
  | none => .ok (default.lifetime, default.shardCount)
  | some (.object members) => do
    checkFields (ascii "cache.") [ascii "ttl_ms", ascii "shard_count"] members
    let lifetime ← positiveMilliseconds (.object members) (ascii "ttl_ms") (ascii "cache.ttl_ms")
      default.lifetime
    let shardCount ← shardCountOfJson (.object members) default.shardCount
    return (lifetime, shardCount)
  | some _ => .error .cacheNotObject

def thresholdOfJson (root : Json) (default : Journal.Level) : Except Problem Journal.Level :=
  match root.member? (ascii "log_level") with
  | none => .ok default
  | some (.string text) =>
    match Journal.Level.ofText text with
    | .error cause => .error (.level cause)
    | .ok level => .ok level
  | some _ => .error .levelNotString

def ofJson (root : Json) : Except Problem Config :=
  match root with
  | .object members => do
    checkFields [] [ascii "cache", ascii "refresh_interval_ms", ascii "log_level"] members
    let default : Config := {}
    let cache ← cacheOfJson root default
    let refreshInterval ← positiveMilliseconds root (ascii "refresh_interval_ms")
      (ascii "refresh_interval_ms") default.refreshInterval
    let threshold ← thresholdOfJson root default.threshold
    return { lifetime := cache.1, shardCount := cache.2, refreshInterval, threshold }
  | _ => .error .rootNotObject

def summary (config : Config) : Octets :=
  ascii "cache.ttl=" ++ millisecondsText config.lifetime ++ ascii " cache.shard_count=" ++
    Octets.decimal config.shardCount ++ ascii " refresh_interval=" ++
    millisecondsText config.refreshInterval ++ ascii " log_level=" ++ config.threshold.name

end Config

end DetectorCache
