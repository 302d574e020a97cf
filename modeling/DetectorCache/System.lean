import DetectorCache.Delta
import DetectorCache.Lookup

set_option autoImplicit false

namespace DetectorCache

structure System where
  front : Front Directory
  applied : Applied := ∅
  refreshing : Bool := false

namespace System

def fresh (lifetimeMilliseconds : Int) (shardCount : Nat) (clock : Clock) (hash : Octets → Nat)
    (journal : Journal) (service : Directory) : System :=
  { front :=
      { cache := { store := Store.create lifetimeMilliseconds shardCount clock hash, journal }
        service } }

def cache (s : System) : Cache := s.front.cache

def withCache (s : System) (cache : Cache) : System :=
  { s with front := { s.front with cache } }

def note (s : System) (level : Journal.Level) (message : String)
    (fields : List (String × Octets)) : System :=
  s.withCache (s.cache.note level message fields)

def onCache {α : Type} (s : System) (operation : Cache → α × Cache) : α × System :=
  let result := operation s.cache
  (result.1, s.withCache result.2)

def lookup (s : System) (tags : Tags) : List Detector × System :=
  let result := s.front.lookup tags
  (result.1, { s with front := result.2 })

def resolve (s : System) (tags : Tags) : Resolution × System :=
  let result := s.front.service.resolve tags
  (result.1, { s with front := { s.front with service := result.2 } })

def publish (s : System) (mappings : List Mapping) : System :=
  { s with front := { s.front with service := { s.front.service with mappings } } }

def failNext (s : System) (count : Nat) (reason : Octets) : System :=
  { s with front := { s.front with
      service := { s.front.service with outage := count, reason } } }

/-- Records a list of mappings as applied, without touching the cache. -/
def prime (s : System) (mappings : List Mapping) : System :=
  let refusals := Detector.refusals (mappings.map Mapping.detector)
  { s.withCache (s.cache.noteEach refusals .warn "ignoring mapping with invalid detector id"
      fun refusal => [("error", refusal.message)]) with
    applied := Applied.ofMappings mappings }

end System

end DetectorCache
