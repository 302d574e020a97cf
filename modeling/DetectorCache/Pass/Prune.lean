import DetectorCache.Lookup
import DetectorCache.Pass

set_option autoImplicit false

namespace DetectorCache.Prune

open Octets (ascii decimal)

structure Report where
  disabledIds : List Octets := []
  skipped : Nat := 0
  scanned : Nat := 0
  pruned : Nat := 0
  emptied : Nat := 0
  superseded : Nat := 0
  corrupt : Nat := 0
  deriving DecidableEq

structure Pending where
  ids : List Octets
  skipped : Nat
  snapshot : List Entry
  deriving DecidableEq

/-- A cut to be made in an entry: its key, what it held, and the detectors it keeps. -/
structure Cut where
  key : Octets
  found : Octets
  kept : List Detector
  deriving DecidableEq

def Cut.value (cut : Cut) : Octets := StoredIds.encode cut.kept

def idsOf (disabled : List Mapping) : List Octets :=
  ((Detector.valid (disabled.map Mapping.detector)).map Detector.id).eraseDups

/-- Starts a prune. Mappings without a valid id are skipped, and without any id nothing is read. -/
def start (disabled : List Mapping) (cache : Cache) : Pass Report Pending × Cache :=
  let refusals := Detector.refusals (disabled.map Mapping.detector)
  let warned := cache.noteEach refusals .warn "skipping disabled mapping" fun refusal =>
    [("error", refusal.message)]
  let ids := idsOf disabled
  if ids = [] then (.ended { skipped := refusals.length }, warned)
  else
    let copied := warned.entries
    (.scanned ⟨ids, refusals.length, copied.1⟩, copied.2)

namespace Pending

def cut? (pending : Pending) (entry : Entry) : Option Cut :=
  match StoredIds.decode entry.2 with
  | .error _ => none
  | .ok detectors =>
    let kept := detectors.filter fun d => !pending.ids.contains d.id
    if kept.length = detectors.length then none else some ⟨entry.1, entry.2, kept⟩

def cuts (pending : Pending) : List Cut := pending.snapshot.filterMap pending.cut?

def undecodable (pending : Pending) : List (Entry × StoredIds.Malformed) :=
  pending.snapshot.filterMap fun entry =>
    match StoredIds.decode entry.2 with
    | .error malformed => some (entry, malformed)
    | .ok _ => none

def report (pending : Pending) : Report :=
  { disabledIds := pending.ids, skipped := pending.skipped, scanned := pending.snapshot.length }

end Pending

def Cut.apply (cut : Cut) (state : Report × Cache) : Report × Cache :=
  let report := state.1
  let result := state.2.replaceEncoded cut.key cut.found cut.value
  if result.1 then
    ({ report with
        pruned := report.pruned + 1
        emptied := report.emptied + (if cut.kept = [] then 1 else 0) },
      result.2.note .debug "cache entry pruned"
        [("cache_key", cut.key), ("detector_ids", cut.value)])
  else
    ({ report with superseded := report.superseded + 1 },
      result.2.note .debug "cache entry changed since snapshot; prune skipped"
        [("cache_key", cut.key)])

def Pending.finish (pending : Pending) (cache : Cache) : Report × Cache :=
  let corrupt := pending.undecodable
  let cuts := pending.cuts
  let warned := cache.noteEach corrupt .warn "undecodable cache value during prune" fun c =>
    [("cache_key", c.1.1), ("error", c.2.message)]
  let noted := warned.note .info "removing disabled detectors from cache entries"
    [("detector_ids", Pass.listed pending.ids),
      ("entries_scanned", decimal pending.snapshot.length),
      ("entries_to_update", decimal cuts.length)]
  let applied := cuts.foldl (fun state cut => cut.apply state) (pending.report, noted)
  let evicted := Pass.evictAll applied.2 (ascii "undecodable value found during prune")
    (corrupt.map Prod.fst)
  ({ applied.1 with corrupt := evicted.1 }, evicted.2)

def run (disabled : List Mapping) (cache : Cache) : Report × Cache :=
  Pass.complete Pending.finish (start disabled cache)

end DetectorCache.Prune
