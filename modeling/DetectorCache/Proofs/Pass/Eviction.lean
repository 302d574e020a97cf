import DetectorCache.Pass.Eviction
import DetectorCache.Proofs.Cache.Effects
import DetectorCache.Proofs.CacheKey.RoundTrip
import DetectorCache.Proofs.Mapping.Active

set_option autoImplicit false

namespace DetectorCache.Eviction

open Store (Traffic Request)

variable {changed : List Mapping} {good : Octets → Octets → Prop}

theorem exists_covers_requiredTags {tags : Tags} :
    (∃ required ∈ requiredTags changed, tags.covers required) ↔
      ∃ m ∈ changed, m.expression.holds tags := by
  simp only [requiredTags, List.mem_filterMap, Expression.holds_iff_covers_flatten]
  constructor
  · intro hgiven
    obtain ⟨required, ⟨m, hm, hflatten⟩, hcovers⟩ := hgiven
    refine ⟨m, hm, required, ?_, hcovers⟩
    cases hf : m.expression.flatten with
    | error conflict => simp [hf, Except.toOption] at hflatten
    | ok flat =>
      simp only [hf, Except.toOption, Option.some.injEq] at hflatten
      rw [hflatten]
  · intro hgiven
    obtain ⟨m, hm, required, hflatten, hcovers⟩ := hgiven
    exact ⟨required, ⟨m, hm, by rw [hflatten]; rfl⟩, hcovers⟩

theorem start_of_requiredTags_eq_nil (h : requiredTags changed = []) (cache : Cache) :
    ∃ report, (start changed cache).1 = .ended report ∧
      (start changed cache).2.store = cache.store := by
  simp [start, h]

theorem start_of_requiredTags_ne_nil (h : requiredTags changed ≠ []) (cache : Cache) :
    ∃ pending : Pending, (start changed cache).1 = .scanned pending ∧
      pending.required = requiredTags changed ∧
      pending.snapshot = cache.store.tick.liveEntries ∧
      (start changed cache).2.store = cache.store.tick := by
  simp [start, h, Cache.entries, Cache.onStore, Store.snapshot]

theorem traffic_start (good : Octets → Octets → Prop) (changed : List Mapping) (cache : Cache) :
    Traffic (Request.Writes good) cache.store (start changed cache).2.store := by
  by_cases h : requiredTags changed = []
  · obtain ⟨report, -, hstore⟩ := start_of_requiredTags_eq_nil h cache
    exact .of_eq hstore
  · obtain ⟨pending, -, -, -, hstore⟩ := start_of_requiredTags_ne_nil h cache
    exact .of_tick hstore

namespace Pending

variable (pending : Pending) {cache : Cache}

theorem mem_keys {tags : Tags} {value : Octets}
    (hmem : (CacheKey.encode tags, value) ∈ pending.snapshot) {required : Tags}
    (hrequired : required ∈ pending.required) (hcovers : tags.covers required) :
    CacheKey.encode tags ∈ pending.keys := by
  have haffects : pending.affects (CacheKey.encode tags, value) = true := by
    simp only [affects, CacheKey.decode_encode, List.any_eq_true]
    exact ⟨required, hrequired, hcovers⟩
  exact List.mem_map.mpr ⟨_, List.mem_filter.mpr ⟨hmem, haffects⟩, rfl⟩

theorem finish_eq (cache : Cache) :
    ∃ (noted : Cache) (reason : Octets) (corrupt : List Entry), noted.store = cache.store ∧
      (pending.finish cache).2 =
        (Pass.evictAll (noted.remove pending.keys).2 reason corrupt).2 := by
  refine ⟨_, _, _, ?_, rfl⟩
  simp

theorem traffic_finish (cache : Cache) :
    Traffic (Request.Writes good) cache.store (pending.finish cache).2.store := by
  obtain ⟨noted, reason, corrupt, hstore, heq⟩ := pending.finish_eq cache
  have hremove : Traffic (Request.Writes good) noted.store (noted.remove pending.keys).2.store :=
    .readOnly (.invalidateAll pending.keys) trivial rfl
  rw [heq, ← hstore]
  exact hremove.trans (Pass.traffic_evictAll _ _ _)

/-- The live entries after an eviction are among those before it, under other keys. -/
theorem allLive_finish (h : cache.store.AllLive good) :
    (pending.finish cache).2.store.AllLive fun k v => good k v ∧ k ∉ pending.keys := by
  obtain ⟨noted, reason, corrupt, hstore, heq⟩ := pending.finish_eq cache
  rw [← hstore] at h
  rw [heq]
  exact (Pass.traffic_evictAll _ _ _).allLive (h.invalidateAll pending.keys)

end Pending

end DetectorCache.Eviction
