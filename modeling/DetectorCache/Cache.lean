import DetectorCache.CacheKey
import DetectorCache.Journal
import DetectorCache.Store
import DetectorCache.StoredIds
/-!
The cache: encoded tag-sets to encoded detector ids, over a store. It counts hits, misses and the
corrupt entries it removed, keeps a gauge of the store's size, and tells the journal what it does.
An entry without detectors is a hit; an entry that cannot be decoded is removed and missed.
-/
set_option autoImplicit false

namespace DetectorCache

structure Cache where
  store : Store
  journal : Journal
  hits : Nat := 0
  misses : Nat := 0
  sizeGauge : Nat := 0
  corruptEvictions : Nat := 0

namespace Cache

def note (cache : Cache) (level : Journal.Level) (message : String)
    (fields : List (String × Octets)) : Cache :=
  { cache with journal := cache.journal.note level message fields }

def noteEach {α : Type} (cache : Cache) (items : List α) (level : Journal.Level)
    (message : String) (fields : α → List (String × Octets)) : Cache :=
  items.foldl (fun cache item => cache.note level message (fields item)) cache

def onStore {α : Type} (cache : Cache) (operation : Store → α × Store) : α × Cache :=
  let result := operation cache.store
  (result.1, { cache with store := result.2 })

def refreshGauge (cache : Cache) : Cache := { cache with sizeGauge := cache.store.size }

def evictCorrupt (cache : Cache) (key value reason : Octets) : Bool × Cache :=
  let result := cache.onStore (·.invalidateIf key value)
  let counted :=
    if result.1 then
      ({ result.2 with corruptEvictions := result.2.corruptEvictions + 1 }).refreshGauge
    else result.2
  (result.1, counted.note .warn "evicting corrupt cache entry"
    [("cache_key", key), ("stored_value", value), ("error", reason),
      ("evicted", Octets.ascii (if result.1 then "true" else "false"))])

def find (cache : Cache) (key : Octets) : Option (List Detector) × Cache :=
  let result := cache.onStore (·.get key)
  match result.1 with
  | none => (none, { result.2 with misses := result.2.misses + 1 })
  | some value =>
    match StoredIds.decode value with
    | .error malformed =>
      let evicted := (result.2.evictCorrupt key value malformed.message).2
      (none, { evicted with misses := evicted.misses + 1 })
    | .ok detectors => (some detectors, { result.2 with hits := result.2.hits + 1 })

def get (cache : Cache) (key : Octets) : List Detector × Cache :=
  let result := cache.find key
  (result.1.getD [], result.2)

/-- Writes the detectors of a key. What is no UUID is left out, so that the value decodes. -/
def put (cache : Cache) (key : Octets) (detectors : List Detector) : Cache :=
  let warned := cache.noteEach (Detector.refusals detectors) .warn
    "dropping invalid detector id from cache write" fun refusal =>
      [("cache_key", key), ("detector_id", refusal.text), ("error", refusal.message)]
  let value := StoredIds.encode (Detector.valid detectors)
  let noted := warned.note .debug "updating cache" [("cache_key", key), ("detector_ids", value)]
  ({ noted with store := noted.store.put key value }).refreshGauge

def entries (cache : Cache) : List Entry × Cache := cache.onStore Store.snapshot

def putEncoded (cache : Cache) (entries : List Entry) : Cache :=
  let written := entries.foldl (fun store (e : Entry) => store.put e.1 e.2) cache.store
  ({ cache with store := written }).refreshGauge

def replaceEncoded (cache : Cache) (key expected value : Octets) : Bool × Cache :=
  cache.onStore (·.replaceIf key expected value)

def remove (cache : Cache) (keys : List Octets) : Nat × Cache :=
  let result := cache.onStore (·.invalidateAll keys)
  (result.1, result.2.refreshGauge)

def purge (cache : Cache) : Nat × Cache :=
  let result := cache.onStore Store.purge
  (result.1, result.2.refreshGauge)

def advance (cache : Cache) (nanoseconds : Int) : Cache :=
  { cache with store := cache.store.advance nanoseconds }

end Cache

end DetectorCache
