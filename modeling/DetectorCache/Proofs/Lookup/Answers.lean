import DetectorCache.Proofs.Cache.Effects
import DetectorCache.Proofs.CacheKey.RoundTrip
import DetectorCache.Proofs.Mapping.Active

set_option autoImplicit false

namespace DetectorCache

open Store (Traffic Request)

/-- The value is what the mappings make active for the tag-set that the key encodes. -/
def Mapping.Answers (mappings : List Mapping) (key value : Octets) : Prop :=
  ∃ tags, key = CacheKey.encode tags ∧ StoredIds.Denotes value (Active mappings tags)

/-- The detectors are those of the active ids, each once. -/
def Detector.AreActive (detectors : List Detector) (mappings : List Mapping) (tags : Tags) : Prop :=
  (detectors.map Detector.id).Nodup ∧
    ∀ id, id ∈ detectors.map Detector.id ↔ Mapping.Active mappings tags id

theorem Mapping.Answers.denotes {mappings : List Mapping} {tags : Tags} {value : Octets}
    (h : Answers mappings (CacheKey.encode tags) value) :
    StoredIds.Denotes value (Active mappings tags) := by
  obtain ⟨others, hkey, hvalue⟩ := h
  have htags : tags = others := CacheKey.encode_injective hkey
  rw [htags]
  exact hvalue

theorem Directory.mappings_resolve (directory : Directory) (tags : Tags) :
    (directory.resolve tags).2.mappings = directory.mappings := by
  rw [resolve]
  split <;> rfl

namespace Front

theorem service_settle {σ : Type} (front : Front σ) (key : Octets) (resolution : Resolution) :
    (front.settle key resolution).2.service = front.service := by
  cases resolution <;> rfl

theorem store_settle_ok {σ : Type} (front : Front σ) (key : Octets) (mappings : List Mapping) :
    (front.settle key (.ok mappings)).2.cache.store =
      front.cache.store.put key
        (StoredIds.encode (Detector.valid (Mapping.activeDetectors mappings))) := by
  simp only [settle, Cache.store_put, Cache.store_noteEach]

variable (front : Front Directory) (tags : Tags)

theorem traffic_settle (mappings : List Mapping) :
    Traffic (Request.Writes (Mapping.Answers mappings)) front.cache.store
      (front.settle (CacheKey.encode tags)
        (.ok (mappings.filter (·.expression.holds tags)))).2.cache.store := by
  rw [store_settle_ok]
  refine .write (.put _ _) trivial rfl ?_
  exact ⟨tags, rfl, Mapping.denotes_encode_activeDetectors mappings tags⟩

theorem traffic_lookup :
    Traffic (Request.Writes (Mapping.Answers front.service.mappings)) front.cache.store
      (front.lookup tags).2.cache.store := by
  have hfind : Traffic (Request.Writes (Mapping.Answers front.service.mappings)) front.cache.store
      (front.cache.find (CacheKey.encode tags)).2.store := front.cache.traffic_find _
  simp only [lookup, MappingService.resolve]
  split
  · exact hfind
  · refine hfind.trans ?_
    by_cases houtage : 0 < front.service.outage
    · simp only [Directory.resolve, houtage, if_true, settle, Cache.store_note]
      exact .refl _
    · simp only [Directory.resolve, houtage, if_false]
      exact traffic_settle _ tags front.service.mappings

theorem mappings_lookup : (front.lookup tags).2.service.mappings = front.service.mappings := by
  simp only [lookup, MappingService.resolve]
  split
  · rfl
  · rw [service_settle]
    exact front.service.mappings_resolve tags

theorem outage_lookup (h : front.service.outage = 0) :
    (front.lookup tags).2.service.outage = 0 := by
  simp only [lookup, MappingService.resolve]
  split
  · exact h
  · rw [service_settle]
    simp [Directory.resolve, h]

variable {front tags}

/-- Over a cache of answers, and a directory that does not fail, a lookup returns what is active. -/
theorem areActive_lookup {mappings : List Mapping} (hmappings : front.service.mappings = mappings)
    (houtage : front.service.outage = 0)
    (hlive : front.cache.store.AllLive (Mapping.Answers mappings)) :
    Detector.AreActive (front.lookup tags).1 mappings tags := by
  simp only [lookup, MappingService.resolve, Cache.fst_find, Cache.cached?]
  cases hslot : front.cache.store.tick.liveSlot? (CacheKey.encode tags) with
  | none =>
    simp only [Option.bind_none, Directory.resolve, houtage, settle, hmappings]
    exact ⟨Mapping.nodup_ids_activeDetectors _, fun id => Mapping.mem_ids_activeDetectors⟩
  | some slot =>
    obtain ⟨detectors, hdecode, hids⟩ :=
      (hlive _ slot (Store.liveSlot?_of_tick hslot)).denotes
    simp only [Option.bind_some, hdecode, Except.toOption]
    exact ⟨(StoredIds.of_decode hdecode).2, hids⟩

end Front

end DetectorCache
