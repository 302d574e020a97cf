import DetectorCache.Pass.Eviction
import DetectorCache.Pass.Prune
import DetectorCache.System
/-!
The refresh cycle, which carries changes of the mappings into the cache. A cycle prunes, then evicts
where detectors now apply or used to, then records the new list. It stops at each snapshot it takes;
a cycle that is started in the meantime does nothing.
-/
set_option autoImplicit false

namespace DetectorCache.Refresh

open Octets (decimal)

structure Report where
  skipped : Bool := false
  received : Nat := 0
  newlyDisabled : Nat := 0
  createdOrChanged : Nat := 0
  prune : Prune.Report := {}
  eviction : Eviction.Report := {}
  deriving DecidableEq

structure Pruning where
  current : List Mapping
  delta : Delta
  pending : Prune.Pending
  deriving DecidableEq

structure Evicting where
  current : List Mapping
  delta : Delta
  prune : Prune.Report
  pending : Eviction.Pending
  deriving DecidableEq

inductive Pending where
  | pruning (cycle : Pruning)
  | evicting (cycle : Evicting)
  deriving DecidableEq

def close (current : List Mapping) (delta : Delta) (prune : Prune.Report)
    (eviction : Eviction.Report) (s : System) : Report × System :=
  ({ received := current.length
     newlyDisabled := delta.newlyDisabled.length
     createdOrChanged := delta.createdOrChanged.length
     prune
     eviction },
    ({ s.prime current with refreshing := false }).note .info "refresh cycle applied"
      [("mappings_received", decimal current.length),
        ("newly_disabled", decimal delta.newlyDisabled.length),
        ("created_or_changed", decimal delta.createdOrChanged.length),
        ("entries_pruned", decimal prune.pruned),
        ("entries_evicted", decimal eviction.evicted.length)])

/-- Goes on with a cycle whose prune is done. What is evicted is both where detectors now apply and
where they used to. -/
def startEviction (current : List Mapping) (delta : Delta) (prune : Prune.Report) (s : System) :
    Pass Report Evicting × System :=
  if delta.createdOrChanged = [] then
    let closed := close current delta prune {} s
    (.ended closed.1, closed.2)
  else
    let started := s.onCache (Eviction.start (delta.createdOrChanged ++ delta.retargetedFrom))
    match started.1 with
    | .ended eviction =>
      let closed := close current delta prune eviction started.2
      (.ended closed.1, closed.2)
    | .scanned pending => (.scanned ⟨current, delta, prune, pending⟩, started.2)

def Evicting.finish (cycle : Evicting) (s : System) : Report × System :=
  let evicted := s.onCache cycle.pending.finish
  close cycle.current cycle.delta cycle.prune evicted.1 evicted.2

def Pruning.finish (cycle : Pruning) (s : System) : Report × System :=
  let pruned := s.onCache cycle.pending.finish
  Pass.complete Evicting.finish (startEviction cycle.current cycle.delta pruned.1 pruned.2)

def Pending.finish : Pending → System → Report × System
  | .pruning cycle => cycle.finish
  | .evicting cycle => cycle.finish

def start (current : List Mapping) (s : System) : Pass Report Pending × System :=
  if s.refreshing then
    (.ended { skipped := true, received := current.length },
      s.note .info "refresh cycle skipped; previous cycle still running"
        [("mappings_received", decimal current.length)])
  else
    let delta := Delta.between s.applied current
    let running := { s with refreshing := true }
    if delta.newlyDisabled = [] then
      Pass.suspend .evicting (startEviction current delta {} running)
    else
      let started := running.onCache (Prune.start delta.newlyDisabled)
      match started.1 with
      | .ended prune => Pass.suspend .evicting (startEviction current delta prune started.2)
      | .scanned pending => (.scanned (.pruning ⟨current, delta, pending⟩), started.2)

def run (current : List Mapping) (s : System) : Report × System :=
  Pass.complete Pending.finish (start current s)

end DetectorCache.Refresh
