import DetectorCache.Counters
import DetectorCache.Refresh
/-!
Sessions: the operations of the system as data, so that a run is a list of actions. An action that
takes a snapshot can be stopped there, other actions performed, and the action finished afterwards.
-/
set_option autoImplicit false

namespace DetectorCache

inductive Action where
  | advance (nanoseconds : Int)
  | put (key : Octets) (detectors : List Detector)
  | find (key : Octets)
  | get (key : Octets)
  | putEncoded (entries : List Entry)
  | replaceEncoded (key expected value : Octets)
  | remove (keys : List Octets)
  | evictCorrupt (key value reason : Octets)
  | purge
  | entries
  | lookup (tags : Tags)
  | resolve (tags : Tags)
  | publish (mappings : List Mapping)
  | failNext (count : Nat) (reason : Octets)
  | counters
  | setThreshold (level : Journal.Level)
  | prune (mappings : List Mapping)
  | evict (mappings : List Mapping)
  | prime (mappings : List Mapping)
  | refresh (mappings : List Mapping)

inductive Answer where
  | done
  | flag (value : Bool)
  | count (value : Nat)
  | text (value : Octets)
  | detectors (value : List Detector)
  | found (value : Option (List Detector))
  | entries (value : List Entry)
  | resolution (value : Resolution)
  | pruned (report : Prune.Report)
  | evicted (report : Eviction.Report)
  | refreshed (report : Refresh.Report)

namespace Session

inductive Pending where
  | listing (entries : List Entry)
  | pruning (pending : Prune.Pending)
  | evicting (pending : Eviction.Pending)
  | refreshing (pending : Refresh.Pending)

def reported {ρ π : Type} (answer : ρ → Answer) (wrap : π → Pending)
    (started : Pass ρ π × System) : Pass Answer Pending × System :=
  match started.1 with
  | .ended report => (.ended (answer report), started.2)
  | .scanned pending => (.scanned (wrap pending), started.2)

def ended {α : Type} (answer : α → Answer) (result : α × System) : Pass Answer Pending × System :=
  (.ended (answer result.1), result.2)

def silent (s : System) : Pass Answer Pending × System := (.ended .done, s)

/-- Starts an action: it ends at once or stops at the first snapshot it takes. -/
def start (s : System) : Action → Pass Answer Pending × System
  | .advance nanoseconds => silent (s.withCache (s.cache.advance nanoseconds))
  | .put key detectors => silent (s.withCache (s.cache.put key detectors))
  | .find key => ended .found (s.onCache (·.find key))
  | .get key => ended .detectors (s.onCache (·.get key))
  | .putEncoded entries => silent (s.withCache (s.cache.putEncoded entries))
  | .replaceEncoded key expected value =>
    ended .flag (s.onCache (·.replaceEncoded key expected value))
  | .remove keys => ended .count (s.onCache (·.remove keys))
  | .evictCorrupt key value reason => ended .flag (s.onCache (·.evictCorrupt key value reason))
  | .purge => ended .count (s.onCache Cache.purge)
  | .entries =>
    let copied := s.onCache Cache.entries
    (.scanned (.listing copied.1), copied.2)
  | .lookup tags => ended .detectors (s.lookup tags)
  | .resolve tags => ended .resolution (s.resolve tags)
  | .publish mappings => silent (s.publish mappings)
  | .failNext count reason => silent (s.failNext count reason)
  | .counters => (.ended (.text (Counters.ofFront s.front).json), s)
  | .setThreshold level =>
    silent (s.withCache { s.cache with journal := { s.cache.journal with threshold := level } })
  | .prune mappings => reported .pruned .pruning (s.onCache (Prune.start mappings))
  | .evict mappings => reported .evicted .evicting (s.onCache (Eviction.start mappings))
  | .prime mappings => silent (s.prime mappings)
  | .refresh mappings => reported .refreshed .refreshing (Refresh.start mappings s)

def Pending.finish : Pending → System → Answer × System
  | .listing entries, s => (.entries entries, s)
  | .pruning pending, s =>
    let result := s.onCache pending.finish
    (.pruned result.1, result.2)
  | .evicting pending, s =>
    let result := s.onCache pending.finish
    (.evicted result.1, result.2)
  | .refreshing pending, s =>
    let result := pending.finish s
    (.refreshed result.1, result.2)

def perform (s : System) (action : Action) : Answer × System :=
  Pass.complete Pending.finish (start s action)

def performAll (s : System) : List Action → List Answer × System
  | [] => ([], s)
  | action :: actions =>
    let first := perform s action
    let others := performAll first.2 actions
    (first.1 :: others.1, others.2)

/-- Performs an action, and others between its snapshot and its end. If it takes no snapshot the
others are not performed. -/
def performAround (s : System) (action : Action) (meanwhile : List Action) :
    (Answer × Option (List Answer)) × System :=
  let started := start s action
  match started.1 with
  | .ended answer => ((answer, none), started.2)
  | .scanned pending =>
    let others := performAll started.2 meanwhile
    let result := pending.finish others.2
    ((result.1, some others.1), result.2)

end Session

end DetectorCache
