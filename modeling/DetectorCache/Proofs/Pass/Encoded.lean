import DetectorCache.Proofs.Pass.Cuts
import DetectorCache.Proofs.Refresh.Stages

set_option autoImplicit false

namespace DetectorCache

open Store (Traffic Request)

/-- The encoding of a tag-set, and that of detectors with different canonical ids. -/
structure Encoded (key value : Octets) : Prop where
  key_eq : ∃ tags, key = CacheKey.encode tags
  value_eq : ∃ detectors : List Detector, (∀ d ∈ detectors, DetectorId.isCanonical d.id) ∧
    (detectors.map Detector.id).Nodup ∧ value = StoredIds.encode detectors

namespace Encoded

variable {key value : Octets}

theorem of_valid (tags : Tags) (detectors : List Detector) :
    Encoded (CacheKey.encode tags) (StoredIds.encode (Detector.valid detectors)) := by
  refine ⟨⟨tags, rfl⟩, ((Detector.valid detectors).map Detector.id).eraseDups.map (⟨·, true⟩), ?_⟩
  have hids : (((Detector.valid detectors).map Detector.id).eraseDups.map
      fun id => (⟨id, true⟩ : Detector)).map Detector.id =
      ((Detector.valid detectors).map Detector.id).eraseDups := by
    rw [List.map_map]
    exact List.map_id _
  have hnodup := Octets.nodup_eraseDups ((Detector.valid detectors).map Detector.id)
  refine ⟨?_, ?_, ?_⟩
  · intro d hd
    obtain ⟨id, hid, rfl⟩ := List.mem_map.mp hd
    obtain ⟨d', hd', rfl⟩ := List.mem_map.mp (List.mem_eraseDups.mp hid)
    have hcanonical := Detector.isCanonical_of_mem_valid hd'
    exact hcanonical
  · rw [hids]
    exact hnodup
  · rw [StoredIds.encode, StoredIds.encode, hids, Octets.eraseDups_of_nodup hnodup]

theorem decode_key (h : Encoded key value) : ∃ tags, CacheKey.decode key = .ok tags := by
  obtain ⟨tags, rfl⟩ := h.key_eq
  exact ⟨tags, CacheKey.decode_encode tags⟩

theorem decode_value (h : Encoded key value) :
    ∃ detectors, StoredIds.decode value = .ok detectors := by
  obtain ⟨detectors, hcanonical, -, rfl⟩ := h.value_eq
  exact ⟨_, StoredIds.decode_encode hcanonical⟩

theorem of_sublist (h : Encoded key value) {detectors kept : List Detector}
    (hdecode : StoredIds.decode value = .ok detectors) (hkept : kept.Sublist detectors) :
    Encoded key (StoredIds.encode kept) := by
  obtain ⟨hcanonical, hnodup⟩ := StoredIds.of_decode hdecode
  exact ⟨h.key_eq, kept, fun d hd => hcanonical d (hkept.subset hd),
    hnodup.sublist (hkept.map _), rfl⟩

end Encoded

def ShowsEncoded (snapshot : List Entry) : Prop := ∀ entry ∈ snapshot, Encoded entry.1 entry.2

/-- A store with every entry encoded and in its shard. -/
structure Store.HoldsEncoded (store : Store) : Prop where
  placed : store.Placed
  held : store.AllHeld Encoded

namespace Store.HoldsEncoded

variable {store after : Store}

theorem showsEncoded (h : store.HoldsEncoded) : ShowsEncoded store.tick.liveEntries :=
  fun _ hentry => h.held.allLive.of_mem_snapshot h.placed hentry

theorem of_traffic (h : store.HoldsEncoded)
    (htraffic : Traffic (Request.Writes Encoded) store after) : after.HoldsEncoded :=
  ⟨htraffic.placed h.placed, htraffic.allHeld h.held⟩

end Store.HoldsEncoded

namespace Cache

variable (cache : Cache)

@[simp] theorem corruptEvictions_noteEach {α : Type} (items : List α) (level : Journal.Level)
    (message : String) (fields : α → List (String × Octets)) :
    (cache.noteEach items level message fields).corruptEvictions = cache.corruptEvictions := by
  rw [noteEach]
  induction items generalizing cache with
  | nil => rfl
  | cons item items ih => exact ih (cache.note level message (fields item))

theorem corruptEvictions_put (key : Octets) (detectors : List Detector) :
    (cache.put key detectors).corruptEvictions = cache.corruptEvictions :=
  cache.corruptEvictions_noteEach _ _ _ _

variable {cache} (h : cache.store.HoldsEncoded) (key : Octets)

include h

theorem fst_find_of_encoded {slot : Slot} (hlive : cache.store.tick.liveSlot? key = some slot) :
    ∃ detectors, StoredIds.decode slot.value = .ok detectors ∧
      (cache.find key).1 = some detectors := by
  obtain ⟨detectors, hdecode⟩ :=
    (h.held.allLive key slot (Store.liveSlot?_of_tick hlive)).decode_value
  refine ⟨detectors, hdecode, ?_⟩
  simp only [fst_find, cached?, hlive, Option.bind_some, hdecode, Except.toOption]

theorem corruptEvictions_find_of_encoded :
    (cache.find key).2.corruptEvictions = cache.corruptEvictions := by
  have hget : (cache.store.get key).1 = (cache.store.tick.liveSlot? key).map Slot.value :=
    cache.store.fst_get key
  simp only [find, onStore, hget]
  cases hlive : cache.store.tick.liveSlot? key with
  | none => rfl
  | some slot =>
    obtain ⟨detectors, hdecode, -⟩ := fst_find_of_encoded h key hlive
    simp only [Option.map_some, hdecode]

end Cache

theorem Front.corruptEvictions_lookup_of_encoded {σ : Type} [MappingService σ] (front : Front σ)
    (h : front.cache.store.HoldsEncoded) (tags : Tags) :
    (front.lookup tags).2.cache.corruptEvictions = front.cache.corruptEvictions := by
  have hfind := Cache.corruptEvictions_find_of_encoded h (CacheKey.encode tags)
  simp only [lookup]
  split
  · exact hfind
  · cases (MappingService.resolve tags front.service).1 with
    | error reason => exact hfind
    | ok mappings =>
      simp only [settle, Cache.corruptEvictions_put, Cache.corruptEvictions_noteEach]
      exact hfind

namespace Pass

/-- What holds of the report of a pass that is over at once, or else of its snapshot. -/
def All {ρ π : Type} (ended : ρ → Prop) (scanned : π → Prop) : Pass ρ π → Prop
  | .ended report => ended report
  | .scanned pending => scanned pending

theorem All.suspend {ρ π τ κ : Type} {ended : ρ → Prop} {scanned : π → Prop} {wrapped : τ → Prop}
    {started : Pass ρ π × κ} (h : started.1.All ended scanned) {wrap : π → τ}
    (hwrap : ∀ pending, scanned pending → wrapped (wrap pending)) :
    (suspend wrap started).1.All ended wrapped := by
  rw [Pass.suspend]
  split
  · next report hended =>
    rw [hended] at h
    exact h
  · next pending hscanned =>
    rw [hscanned] at h
    exact hwrap pending h

end Pass

namespace Prune

theorem corruptEvictions_applyAll (cuts : List Cut) (state : Report × Cache) :
    (applyAll cuts state).2.corruptEvictions = state.2.corruptEvictions := by
  induction cuts generalizing state with
  | nil => rfl
  | cons cut cuts ih =>
    refine (ih (cut.apply state)).trans ?_
    rw [Cut.apply]
    split <;> rfl

theorem corruptEvictions_start (disabled : List Mapping) (cache : Cache) :
    (start disabled cache).2.corruptEvictions = cache.corruptEvictions := by
  simp only [start]
  split <;> simp [Cache.entries, Cache.onStore]

theorem showsEncoded_start (disabled : List Mapping) {cache : Cache}
    (h : cache.store.HoldsEncoded) :
    (start disabled cache).1.All (·.corrupt = 0) (ShowsEncoded ·.snapshot) := by
  by_cases hids : idsOf disabled = []
  · simp [start, hids, Pass.All]
  · obtain ⟨pending, hscanned, -, hsnapshot, -⟩ := start_of_idsOf_ne_nil hids cache
    rw [hscanned, Pass.All, hsnapshot]
    exact h.showsEncoded

namespace Pending

variable {pending : Pending} (h : ShowsEncoded pending.snapshot)

include h

theorem encoded_of_mem_cuts {cut : Cut} (hcut : cut ∈ pending.cuts) :
    Encoded cut.key cut.value := by
  obtain ⟨entry, hentry, detectors, hdecode, -, rfl⟩ := mem_cuts.mp hcut
  exact (h entry hentry).of_sublist hdecode List.filter_sublist

theorem finish_of_encoded (cache : Cache) :
    (pending.finish cache).1.corrupt = 0 ∧
      (pending.finish cache).2.corruptEvictions = cache.corruptEvictions := by
  have hcorrupt : pending.undecodable = [] := by
    refine List.filterMap_eq_nil_iff.mpr fun entry hentry => ?_
    obtain ⟨detectors, hdecode⟩ := (h entry hentry).decode_value
    rw [hdecode]
  simp only [finish, hcorrupt, List.map_nil, Pass.evictAll]
  exact ⟨trivial, corruptEvictions_applyAll pending.cuts _⟩

end Pending

end Prune

namespace Eviction

theorem corruptEvictions_start (changed : List Mapping) (cache : Cache) :
    (start changed cache).2.corruptEvictions = cache.corruptEvictions := by
  simp only [start]
  split <;> simp [Cache.entries, Cache.onStore]

theorem showsEncoded_start (changed : List Mapping) {cache : Cache}
    (h : cache.store.HoldsEncoded) :
    (start changed cache).1.All (·.corrupt = 0) (ShowsEncoded ·.snapshot) := by
  by_cases hrequired : requiredTags changed = []
  · simp [start, hrequired, Pass.All]
  · obtain ⟨pending, hscanned, -, hsnapshot, -⟩ := start_of_requiredTags_ne_nil hrequired cache
    rw [hscanned, Pass.All, hsnapshot]
    exact h.showsEncoded

theorem Pending.finish_of_encoded {pending : Pending} (h : ShowsEncoded pending.snapshot)
    (cache : Cache) :
    (pending.finish cache).1.corrupt = 0 ∧
      (pending.finish cache).2.corruptEvictions = cache.corruptEvictions := by
  have hcorrupt : pending.undecodable = [] := by
    refine List.filterMap_eq_nil_iff.mpr fun entry hentry => ?_
    obtain ⟨tags, hdecode⟩ := (h entry hentry).decode_key
    rw [hdecode]
  simp only [finish, hcorrupt, List.map_nil, Pass.evictAll]
  exact ⟨trivial, Cache.corruptEvictions_noteEach _ _ _ _ _⟩

end Eviction

end DetectorCache
