import DetectorCache.Proofs.Cache.Outcomes
import DetectorCache.Proofs.Lookup.Answers
/-!
Lookups from end to end, over any service. A live entry that can be decoded is the answer, and then
nothing but a counter and the clock is touched. Otherwise the service is asked once: a failure is
answered by no detectors and leaves no entry, and an answer is what the next lookup finds in the
cache until the lifetime has gone by.
-/
set_option autoImplicit false

namespace DetectorCache.Front

variable {σ : Type}

theorem counts_settle (front : Front σ) (key : Octets) (resolution : Resolution) :
    (front.settle key resolution).2.cache.hits = front.cache.hits ∧
      (front.settle key resolution).2.cache.misses = front.cache.misses := by
  cases resolution with
  | error reason => exact ⟨rfl, rfl⟩
  | ok mappings =>
    obtain ⟨noted, hnoted⟩ := front.cache.noteEach_eq
      (Detector.refusals (Mapping.enabledDetectors mappings)) .warn
      "ignoring resolved detector with invalid id" fun refusal =>
        [("cache_key", key), ("error", refusal.message)]
    obtain ⟨journal, hput⟩ := Cache.put_eq { front.cache with journal := noted } key
      (Mapping.activeDetectors mappings)
    simp only [settle, hnoted, hput]
    exact ⟨rfl, rfl⟩

theorem resolutions_settle (front : Front σ) (key : Octets) (resolution : Resolution) :
    (front.settle key resolution).2.resolutions = front.resolutions := by
  cases resolution <;> rfl

variable [MappingService σ]

/-- The lookup answers with the detectors from the cache: the service is not asked, and no slot of
the store is touched. -/
structure FromCache (front : Front σ) (tags : Tags) (detectors : List Detector) : Prop where
  answer : (front.lookup tags).1 = detectors
  service : (front.lookup tags).2.service = front.service
  resolutions : (front.lookup tags).2.resolutions = front.resolutions
  resolutionErrors : (front.lookup tags).2.resolutionErrors = front.resolutionErrors
  cache : Cache.Hit front.cache (front.lookup tags).2.cache

structure AsksOnce (front : Front σ) (tags : Tags) : Prop where
  service : (front.lookup tags).2.service = (MappingService.resolve tags front.service).2
  resolutions : (front.lookup tags).2.resolutions = front.resolutions + 1
  hits : (front.lookup tags).2.cache.hits = front.cache.hits
  misses : (front.lookup tags).2.cache.misses = front.cache.misses + 1

variable {front : Front σ} {tags : Tags}

theorem fromCache_of_cached {detectors : List Detector}
    (h : front.cache.cached? (CacheKey.encode tags) = some detectors) :
    front.FromCache tags detectors := by
  obtain ⟨hfind, hhit⟩ := Cache.hit_find h
  have hlookup : front.lookup tags =
      (detectors, { front with cache := (front.cache.find (CacheKey.encode tags)).2 }) := by
    simp only [lookup, hfind]
  refine ⟨?_, ?_, ?_, ?_, ?_⟩ <;> rw [hlookup]
  exact hhit

theorem lookup_of_not_cached (h : front.cache.cached? (CacheKey.encode tags) = none) :
    front.lookup tags =
      settle
        { front with
          cache := (front.cache.find (CacheKey.encode tags)).2
          service := (MappingService.resolve tags front.service).2
          resolutions := front.resolutions + 1 }
        (CacheKey.encode tags) (MappingService.resolve tags front.service).1 := by
  simp only [lookup, (Cache.miss_find h).1]

theorem asksOnce_of_not_cached (h : front.cache.cached? (CacheKey.encode tags) = none) :
    front.AsksOnce tags := by
  have hmiss := (Cache.miss_find h).2
  refine ⟨?_, ?_, ?_, ?_⟩ <;> rw [lookup_of_not_cached h]
  · rw [service_settle]
  · rw [resolutions_settle]
  · rw [(counts_settle _ _ _).1]
    exact hmiss.hits
  · rw [(counts_settle _ _ _).2]
    exact hmiss.misses

/-- A failure is answered by no detectors, and no entry is gone but one that cannot be decoded. -/
theorem lookup_of_error (h : front.cache.cached? (CacheKey.encode tags) = none) {reason : Octets}
    (hanswer : (MappingService.resolve tags front.service).1 = .error reason) :
    (front.lookup tags).1 = [] ∧
      (front.lookup tags).2.resolutionErrors = front.resolutionErrors + 1 ∧
      ∀ k, (front.lookup tags).2.cache.store.liveSlot? k =
        if k = CacheKey.encode tags then none else front.cache.store.tick.liveSlot? k := by
  have hmiss := (Cache.miss_find h).2
  refine ⟨?_, ?_, fun k => ?_⟩ <;> rw [lookup_of_not_cached h, hanswer]
  · rfl
  · rfl
  · exact hmiss.liveSlot? k

/-- An answer is given as the next lookup finds it in the cache, if that is in time, and no other
entry is touched. -/
theorem lookup_of_ok (h : front.cache.cached? (CacheKey.encode tags) = none)
    {mappings : List Mapping}
    (hanswer : (MappingService.resolve tags front.service).1 = .ok mappings) :
    let looked := front.lookup tags
    let after := looked.2.cache.store
    looked.1 = Mapping.activeDetectors mappings ∧
      looked.2.resolutionErrors = front.resolutionErrors ∧
      (∀ k, k ≠ CacheKey.encode tags → after.liveSlot? k =
        unexpired front.cache.store.lifetime after.now (front.cache.store.liveSlot? k)) ∧
      looked.2.cache.cached? (CacheKey.encode tags) =
        if after.tick.now - after.now < front.cache.store.lifetime then some looked.1
        else none := by
  intro looked after
  have hmiss := (Cache.miss_find h).2
  have hlookup : looked = _ := lookup_of_not_cached h
  rw [hanswer] at hlookup
  have hanswered : looked.1 = Mapping.activeDetectors mappings := congrArg Prod.fst hlookup
  have hstore : after = (front.cache.find (CacheKey.encode tags)).2.store.put (CacheKey.encode tags)
      (StoredIds.encode (Detector.valid (Mapping.activeDetectors mappings))) :=
    (congrArg (·.2.cache.store) hlookup).trans (store_settle_ok _ _ _)
  refine ⟨hanswered, congrArg (·.2.resolutionErrors) hlookup, ?_, ?_⟩
  · intro k hk
    have hle : front.cache.store.tick.now ≤ after.now := by
      rw [hstore]
      exact Int.le_trans (Int.le_of_eq (congrArg Clock.now hmiss.clock).symm) (Store.now_le_tick _)
    have hother : after.liveSlot? k =
        unexpired front.cache.store.lifetime after.now (front.cache.store.tick.liveSlot? k) := by
      rw [hstore, Store.liveSlot?_put, if_neg hk, Store.liveSlot?_tick, hmiss.liveSlot?, if_neg hk,
        hmiss.lifetime]
      rfl
    rw [hother, Store.liveSlot?_tick]
    exact unexpired_unexpired hle _
  · rw [hanswered]
    refine Cache.cached?_of_written (Mapping.decode_encode_activeDetectors mappings) ?_
    have hwritten := (front.cache.find (CacheKey.encode tags)).2.store.liveSlot?_tick_put
      (CacheKey.encode tags)
      (StoredIds.encode (Detector.valid (Mapping.activeDetectors mappings)))
    rw [← hstore, hmiss.lifetime] at hwritten
    exact hwritten

/-- A lookup from end to end. An entry that is live and can be decoded is the answer, without a call
and with every slot left as it is; otherwise the service is asked once. A failure is answered by no
detectors and leaves the live entries, less one under the key that cannot be decoded. An answer is
given as the canonical ids of the enabled mappings, each where it first occurs, all other entries
stay, and the next lookup gives the same list from the cache if it comes before the lifetime is
over. The lifetime is the one asked for as long as its nanoseconds can be counted in 64 bits. -/
theorem lookup_reads_through (front : Front σ) (tags : Tags) {milliseconds : Int}
    (hlifetime : front.cache.store.lifetime = Store.nanoseconds milliseconds) :
    let key := CacheKey.encode tags
    let before := front.cache.store
    let answer := (MappingService.resolve tags front.service).1
    let looked := front.lookup tags
    let after := looked.2.cache.store
    let limit := Store.nanoseconds milliseconds
    (∀ detectors, front.cache.cached? key = some detectors → front.FromCache tags detectors) ∧
    (front.cache.cached? key = none →
      front.AsksOnce tags ∧
      (∀ reason, answer = .error reason →
        looked.1 = [] ∧ looked.2.resolutionErrors = front.resolutionErrors + 1 ∧
          ∀ k, after.liveSlot? k = if k = key then none else before.tick.liveSlot? k) ∧
      (∀ mappings, answer = .ok mappings →
        looked.1 = (Detector.canonicalIds (Mapping.enabledDetectors mappings)).map
            (fun id => ⟨id, true⟩) ∧
          looked.2.resolutionErrors = front.resolutionErrors ∧
          (∀ k, k ≠ key →
            after.liveSlot? k = unexpired before.lifetime after.now (before.liveSlot? k)) ∧
          (after.tick.now - after.now < limit → looked.2.FromCache tags looked.1) ∧
          (limit ≤ after.tick.now - after.now → looked.2.AsksOnce tags))) ∧
    (0 < milliseconds →
      (limit = milliseconds * 1000000 ↔
        milliseconds * 1000000 < 9223372036854775808)) := by
  intro key before answer looked after limit
  refine ⟨fun _ hcached => fromCache_of_cached hcached, fun hmiss => ?_, Store.nanoseconds_eq_iff⟩
  refine ⟨asksOnce_of_not_cached hmiss, fun _ hanswer => lookup_of_error hmiss hanswer, ?_⟩
  intro mappings hanswer
  obtain ⟨hanswered, herrors, hothers, hcached⟩ := lookup_of_ok hmiss hanswer
  rw [hlifetime] at hcached
  refine ⟨hanswered.trans (Mapping.activeDetectors_eq mappings), herrors, hothers, ?_, ?_⟩
  · intro hintime
    rw [if_pos hintime] at hcached
    exact fromCache_of_cached hcached
  · intro hlate
    rw [if_neg (Int.not_lt.mpr hlate)] at hcached
    exact asksOnce_of_not_cached hcached

theorem lookup_reads_through_of_upper_case :
    let lower := Octets.ascii "00000000-0000-4000-8000-00000000000a"
    let upper := Octets.ascii "00000000-0000-4000-8000-00000000000A"
    let tags : Tags := SortedMap.ofList [(Octets.ascii "a", [49])]
    let front : Front Directory :=
      { cache := { store := Store.create 1000 2 {}, journal := { threshold := .error } }
        service := { mappings := [⟨⟨Octets.ascii "a", true⟩, []⟩, ⟨⟨upper, true⟩, []⟩] } }
    front.cache.store.lifetime = Store.nanoseconds 1000 ∧ front.AsksOnce tags ∧
      (front.lookup tags).1 = [⟨lower, true⟩] ∧
      (front.lookup tags).2.FromCache tags [⟨lower, true⟩] := by
  intro lower upper tags front
  have hlifetime : front.cache.store.lifetime = Store.nanoseconds 1000 := rfl
  obtain ⟨-, hmiss, -⟩ := lookup_reads_through front tags hlifetime
  obtain ⟨hasks, -, hanswer⟩ := hmiss (by decide +kernel)
  obtain ⟨hanswered, -, -, hagain, -⟩ := hanswer front.service.mappings rfl
  have hlower : (front.lookup tags).1 = [⟨lower, true⟩] := hanswered.trans (by decide +kernel)
  refine ⟨hlifetime, hasks, hlower, ?_⟩
  rw [← hlower]
  exact hagain (by decide +kernel)

/-- A positive lifetime that cannot be counted wraps around to a negative one: the lookup after an
answer, at the same time, asks the service again. -/
theorem uncountable_lifetime_asks_again :
    let id := Octets.ascii "00000000-0000-4000-8000-000000000001"
    let tags : Tags := SortedMap.ofList [(Octets.ascii "a", [49])]
    let front : Front Directory :=
      { cache :=
          { store := Store.create 9223372036855 1 {}, journal := { threshold := .error } }
        service := { mappings := [⟨⟨id, true⟩, []⟩] } }
    let looked := front.lookup tags
    looked.1 = [⟨id, true⟩] ∧ looked.2.cache.store.tick.now = looked.2.cache.store.now ∧
      ¬ looked.2.FromCache tags looked.1 ∧ (looked.2.lookup tags).2.service.calls = 2 := by
  intro id tags front looked
  have hcalls : (looked.2.lookup tags).2.service.calls = 2 := by decide +kernel
  have hbefore : looked.2.service.calls = 1 := by decide +kernel
  refine ⟨by decide +kernel, by decide +kernel, ?_, hcalls⟩
  intro hcached
  rw [hcached.service, hbefore] at hcalls
  cases hcalls

end DetectorCache.Front
