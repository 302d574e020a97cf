import DetectorCache.Lookup
import DetectorCache.Pass

set_option autoImplicit false

namespace DetectorCache.Eviction

open Octets (ascii decimal)

structure Report where
  received : Nat := 0
  skipped : Nat := 0
  scanned : Nat := 0
  evicted : List Octets := []
  corrupt : Nat := 0
  deriving DecidableEq

structure Pending where
  ids : List Octets
  required : List Tags
  skipped : Nat
  snapshot : List Entry
  deriving DecidableEq

def requiredTags (changed : List Mapping) : List Tags :=
  changed.filterMap fun m => m.expression.flatten.toOption

def conflicts (changed : List Mapping) : List (Octets × Expression.Conflict) :=
  changed.filterMap fun m =>
    match m.expression.flatten with
    | .error conflict => some (m.detector.id, conflict)
    | .ok _ => none

/-- Starts an eviction. Without any satisfiable mapping nothing is read. -/
def start (changed : List Mapping) (cache : Cache) : Pass Report Pending × Cache :=
  let refused := conflicts changed
  let warned := cache.noteEach refused .warn "skipping mapping with invalid expression" fun c =>
    [("detector_id", c.1), ("error", c.2.message)]
  let required := requiredTags changed
  if required = [] then
    (.ended { received := changed.length, skipped := refused.length }, warned)
  else
    let copied := warned.entries
    (.scanned ⟨changed.map (·.detector.id), required, refused.length, copied.1⟩, copied.2)

namespace Pending

def affects (pending : Pending) (entry : Entry) : Bool :=
  match CacheKey.decode entry.1 with
  | .error _ => false
  | .ok tags => pending.required.any fun required => tags.covers required

def keys (pending : Pending) : List Octets :=
  (pending.snapshot.filter pending.affects).map Prod.fst

def undecodable (pending : Pending) : List (Entry × CacheKey.Malformed) :=
  pending.snapshot.filterMap fun entry =>
    match CacheKey.decode entry.1 with
    | .error malformed => some (entry, malformed)
    | .ok _ => none

def finish (pending : Pending) (cache : Cache) : Report × Cache :=
  let corrupt := pending.undecodable
  let keys := pending.keys
  let warned := cache.noteEach corrupt .warn "undecodable cache key during invalidation" fun c =>
    [("cache_key", c.1.1), ("error", c.2.message)]
  let noted := warned.note .info "invalidating cache entries for changed mappings"
    [("cache_keys", Pass.listed keys), ("detector_ids", Pass.listed pending.ids),
      ("entries_scanned", decimal pending.snapshot.length)]
  let evicted := Pass.evictAll (noted.remove keys).2
    (ascii "undecodable key found during invalidation") (corrupt.map Prod.fst)
  ({ received := pending.ids.length, skipped := pending.skipped,
     scanned := pending.snapshot.length, evicted := keys, corrupt := evicted.1 }, evicted.2)

end Pending

def run (changed : List Mapping) (cache : Cache) : Report × Cache :=
  Pass.complete Pending.finish (start changed cache)

end DetectorCache.Eviction
