import DetectorCache.Proofs.Cache.Effects
import DetectorCache.Proofs.Mapping.Active
import DetectorCache.Proofs.Store.Slots

set_option autoImplicit false

namespace DetectorCache

namespace Cache

structure Hit (before after : Cache) : Prop where
  hits : after.hits = before.hits + 1
  misses : after.misses = before.misses
  lifetime : after.store.lifetime = before.store.lifetime
  clock : after.store.clock = before.store.tick.clock
  slot? : ∀ k, after.store.slot? k = before.store.slot? k

/-- After a miss: one more is counted, and the slots are those before but for that of the key. -/
structure Miss (key : Octets) (before after : Cache) : Prop where
  hits : after.hits = before.hits
  misses : after.misses = before.misses + 1
  lifetime : after.store.lifetime = before.store.lifetime
  clock : after.store.clock = before.store.tick.clock
  slot? : ∀ k, after.store.slot? k = if k = key then none else before.store.slot? k

variable {cache : Cache} {key : Octets}

theorem Miss.liveSlot? {before after : Cache} (h : Miss key before after) (k : Octets) :
    after.store.liveSlot? k = if k = key then none else before.store.tick.liveSlot? k := by
  have hnow : after.store.now = before.store.tick.now := congrArg Clock.now h.clock
  have hview : after.store.liveSlot? k =
      unexpired after.store.lifetime after.store.now (after.store.slot? k) := rfl
  rw [hview, hnow, h.lifetime, h.slot?]
  split <;> rfl

theorem hit_find {detectors : List Detector} (h : cache.cached? key = some detectors) :
    (cache.find key).1 = some detectors ∧ Hit cache (cache.find key).2 := by
  refine ⟨(cache.fst_find key).trans h, ?_⟩
  obtain ⟨slot, hslot, hdecode⟩ := Option.bind_eq_some_iff.mp h
  have hread : (cache.store.get key).1 = some slot.value := by
    rw [Store.fst_get, hslot]
    rfl
  cases hvalue : StoredIds.decode slot.value with
  | error malformed => simp [hvalue, Except.toOption] at hdecode
  | ok ids =>
    simp only [find, onStore, hread, hvalue]
    refine ⟨rfl, rfl, rfl, rfl, fun k => ?_⟩
    rw [Store.slot?_get]
    split
    · next hk =>
      rw [hk, hslot]
      exact ((Store.liveSlot?_eq_some_iff _).mp hslot).1.symm
    · rfl

theorem counts_evictCorrupt (cache : Cache) (key value reason : Octets) :
    (cache.evictCorrupt key value reason).2.hits = cache.hits ∧
      (cache.evictCorrupt key value reason).2.misses = cache.misses := by
  by_cases h : (cache.store.invalidateIf key value).1 = true <;>
    simp [evictCorrupt, onStore, h, note, refreshGauge]

theorem miss_find (h : cache.cached? key = none) :
    (cache.find key).1 = none ∧ Miss key cache (cache.find key).2 := by
  refine ⟨(cache.fst_find key).trans h, ?_⟩
  cases hslot : cache.store.tick.liveSlot? key with
  | none =>
    have hread : (cache.store.get key).1 = none := by
      rw [Store.fst_get, hslot]
      rfl
    simp only [find, onStore, hread]
    refine ⟨rfl, rfl, rfl, rfl, fun k => ?_⟩
    rw [Store.slot?_get, hslot]
  | some slot =>
    have hread : (cache.store.get key).1 = some slot.value := by
      rw [Store.fst_get, hslot]
      rfl
    cases hvalue : StoredIds.decode slot.value with
    | ok detectors => simp [cached?, hslot, hvalue, Except.toOption] at h
    | error malformed =>
      -- the read leaves the live slot, and the eviction after it finds the value that was read
      simp only [find, onStore, hread, hvalue]
      obtain ⟨hhits, hmisses⟩ := counts_evictCorrupt { cache with store := (cache.store.get key).2 }
        key slot.value malformed.message
      have hstore := store_evictCorrupt { cache with store := (cache.store.get key).2 }
        key slot.value malformed.message
      refine ⟨hhits, congrArg (· + 1) hmisses, ?_, ?_, fun k => ?_⟩
      · rw [hstore]
        rfl
      · rw [hstore]
        rfl
      · rw [hstore, Store.slot?_invalidateIf, Store.slot?_get, Store.slot?_get, if_pos rfl, hslot]
        split
        · simp [Option.filter]
        · rfl

theorem put_eq (cache : Cache) (key : Octets) (detectors : List Detector) :
    ∃ journal, cache.put key detectors =
      Cache.refreshGauge
        { cache with
          store := cache.store.put key (StoredIds.encode (Detector.valid detectors))
          journal } := by
  obtain ⟨journal, hnoted⟩ := cache.noteEach_eq (Detector.refusals detectors) .warn
    "dropping invalid detector id from cache write" fun refusal =>
      [("cache_key", key), ("detector_id", refusal.text), ("error", refusal.message)]
  simp only [put, hnoted]
  exact ⟨_, rfl⟩

theorem cached?_of_written {value : Octets} {detectors : List Detector}
    (hdecode : StoredIds.decode value = .ok detectors) {lifetime now : Int}
    (h : cache.store.tick.liveSlot? key =
      unexpired lifetime cache.store.tick.now (some ⟨value, now⟩)) :
    cache.cached? key =
      if cache.store.tick.now - now < lifetime then some detectors else none := by
  rw [cached?, h, unexpired_some]
  split
  · rw [Option.bind_some, hdecode]
    rfl
  · rfl

end Cache

end DetectorCache
