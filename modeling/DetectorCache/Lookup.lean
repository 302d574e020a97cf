import DetectorCache.Cache

set_option autoImplicit false

namespace DetectorCache

abbrev Resolution := Except Octets (List Mapping)

/-- A service that resolves tag-sets, with `σ` for what it remembers between calls. -/
class MappingService (σ : Type) where
  resolve : Tags → σ → Resolution × σ

/-- A service over a fixed list of mappings, the next `outage` calls to which fail. -/
structure Directory where
  mappings : List Mapping := []
  calls : Nat := 0
  outage : Nat := 0
  reason : Octets := []

namespace Directory

/-- The mappings whose expression holds, disabled ones included. Calls that fail do not count. -/
def resolve (tags : Tags) (directory : Directory) : Resolution × Directory :=
  if 0 < directory.outage then
    (.error directory.reason, { directory with outage := directory.outage - 1 })
  else
    (.ok (directory.mappings.filter (·.expression.holds tags)),
      { directory with calls := directory.calls + 1 })

instance : MappingService Directory := ⟨resolve⟩

end Directory

namespace Mapping

def enabledDetectors (mappings : List Mapping) : List Detector :=
  (mappings.filter (·.detector.enabled)).map detector

def activeDetectors (mappings : List Mapping) : List Detector :=
  Detector.firstById (Detector.valid (enabledDetectors mappings))

end Mapping

/-- The front end of lookups: a cache before a service, and how often the service was asked. -/
structure Front (σ : Type) where
  cache : Cache
  service : σ
  resolutions : Nat := 0
  resolutionErrors : Nat := 0

namespace Front

variable {σ : Type}

/-- Takes a resolution for an answer, and writes it back if it is one. -/
def settle (front : Front σ) (key : Octets) : Resolution → List Detector × Front σ
  | .error reason =>
    ([], { front with
      resolutionErrors := front.resolutionErrors + 1
      cache := front.cache.note .warn "detector resolution failed; not caching"
        [("cache_key", key), ("error", reason)] })
  | .ok mappings =>
    let warned := front.cache.noteEach (Detector.refusals (Mapping.enabledDetectors mappings)) .warn
      "ignoring resolved detector with invalid id" fun refusal =>
        [("cache_key", key), ("error", refusal.message)]
    let active := Mapping.activeDetectors mappings
    (active, { front with cache := warned.put key active })

def lookup [MappingService σ] (front : Front σ) (tags : Tags) : List Detector × Front σ :=
  let key := CacheKey.encode tags
  let found := front.cache.find key
  match found.1 with
  | some detectors => (detectors, { front with cache := found.2 })
  | none =>
    let answer := MappingService.resolve tags front.service
    settle { front with
      cache := found.2
      service := answer.2
      resolutions := front.resolutions + 1 } key answer.1

end Front

end DetectorCache
