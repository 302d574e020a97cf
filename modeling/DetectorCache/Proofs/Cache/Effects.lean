import DetectorCache.Pass
import DetectorCache.Proofs.StoredIds.RoundTrip
import DetectorCache.Proofs.Store.Request

set_option autoImplicit false

namespace DetectorCache

open Store (Traffic Request)

namespace Cache

variable {good : Octets → Octets → Prop} (cache : Cache)

@[simp] theorem store_note (level : Journal.Level) (message : String)
    (fields : List (String × Octets)) : (cache.note level message fields).store = cache.store := rfl

@[simp] theorem store_refreshGauge : cache.refreshGauge.store = cache.store := rfl

theorem noteEach_eq {α : Type} (items : List α) (level : Journal.Level) (message : String)
    (fields : α → List (String × Octets)) :
    ∃ journal, cache.noteEach items level message fields = { cache with journal } := by
  rw [noteEach]
  induction items generalizing cache with
  | nil => exact ⟨cache.journal, rfl⟩
  | cons item items ih => exact ih (cache.note level message (fields item))

@[simp] theorem store_noteEach {α : Type} (items : List α) (level : Journal.Level)
    (message : String) (fields : α → List (String × Octets)) :
    (cache.noteEach items level message fields).store = cache.store := by
  obtain ⟨journal, heq⟩ := cache.noteEach_eq items level message fields
  rw [heq]

theorem store_evictCorrupt (key value reason : Octets) :
    (cache.evictCorrupt key value reason).2.store = (cache.store.invalidateIf key value).2 := by
  by_cases h : (cache.store.invalidateIf key value).1 = true <;> simp [evictCorrupt, onStore, h]

theorem store_put (key : Octets) (detectors : List Detector) :
    (cache.put key detectors).store =
      cache.store.put key (StoredIds.encode (Detector.valid detectors)) := by
  simp [put]

section

variable {allowed : Request → Prop} {key : Octets}

theorem traffic_evictCorrupt_of {value : Octets} (h : allowed (.invalidateIf key value))
    (reason : Octets) :
    Traffic allowed cache.store (cache.evictCorrupt key value reason).2.store := by
  rw [store_evictCorrupt]
  exact .single h

theorem traffic_put_of {detectors : List Detector}
    (h : allowed (.put key (StoredIds.encode (Detector.valid detectors)))) :
    Traffic allowed cache.store (cache.put key detectors).store := by
  rw [store_put]
  exact .single h

theorem traffic_find_of (hget : allowed (.get key))
    (hremove : ∀ value, allowed (.invalidateIf key value)) :
    Traffic allowed cache.store (cache.find key).2.store := by
  have hread : Traffic allowed cache.store (cache.store.get key).2 := .single hget
  simp only [find, onStore]
  split
  · exact hread
  · next value _ =>
    split
    · next malformed _ =>
      exact hread.trans (traffic_evictCorrupt_of _ (hremove value) malformed.message)
    · exact hread

theorem traffic_putEncoded_of (entries : List Entry) (h : ∀ e ∈ entries, allowed (.put e.1 e.2)) :
    Traffic allowed cache.store (cache.putEncoded entries).store := by
  simp only [putEncoded, store_refreshGauge]
  generalize cache.store = store
  induction entries generalizing store with
  | nil => exact .refl store
  | cons e entries ih =>
    have hput : Traffic allowed store (store.put e.1 e.2) := .single (h e List.mem_cons_self)
    exact hput.trans (ih (fun e' he' => h e' (List.mem_cons_of_mem _ he')) _)

end

theorem traffic_find (key : Octets) :
    Traffic (Request.Writes good) cache.store (cache.find key).2.store :=
  cache.traffic_find_of (.of_readOnly trivial rfl) fun _ => .of_readOnly trivial rfl

/-- The detectors that a read of the key finds, if it is a hit. -/
def cached? (cache : Cache) (key : Octets) : Option (List Detector) :=
  (cache.store.tick.liveSlot? key).bind fun slot => (StoredIds.decode slot.value).toOption

/-- A read finds what a live entry reads back as, and counts the rest as missing. -/
theorem fst_find (key : Octets) : (cache.find key).1 = cache.cached? key := by
  have hget : (cache.store.get key).1 = (cache.store.tick.liveSlot? key).map Slot.value :=
    cache.store.fst_get key
  simp only [find, onStore, hget, cached?]
  cases cache.store.tick.liveSlot? key with
  | none => rfl
  | some slot =>
    simp only [Option.map_some, Option.bind_some]
    cases StoredIds.decode slot.value <;> rfl

theorem traffic_putEncoded (entries : List Entry) (h : ∀ e ∈ entries, good e.1 e.2) :
    Traffic (Request.Writes good) cache.store (cache.putEncoded entries).store :=
  cache.traffic_putEncoded_of entries fun e he => .of_write trivial rfl (h e he)

end Cache

namespace Pass

variable {good : Octets → Octets → Prop}

theorem traffic_evictAll (cache : Cache) (reason : Octets) (entries : List Entry) :
    Traffic (Request.Writes good) cache.store (evictAll cache reason entries).2.store := by
  induction entries generalizing cache with
  | nil => exact .refl _
  | cons entry entries ih =>
    have hfirst : Traffic (Request.Writes good) cache.store
        (cache.evictCorrupt entry.1 entry.2 reason).2.store :=
      cache.traffic_evictCorrupt_of (.of_readOnly trivial rfl) reason
    exact hfirst.trans (ih _)

theorem traffic_complete {ρ π : Type} {allowed : Request → Prop} {store : Store}
    {started : Pass ρ π × Cache} {finish : π → Cache → ρ × Cache}
    (hstart : Traffic allowed store started.2.store)
    (hfinish : ∀ pending cache, Traffic allowed cache.store (finish pending cache).2.store) :
    Traffic allowed store (complete finish started).2.store := by
  obtain ⟨pass, cache⟩ := started
  cases pass with
  | ended report => exact hstart
  | scanned pending => exact hstart.trans (hfinish pending cache)

end Pass

end DetectorCache
