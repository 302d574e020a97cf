import DetectorCache.Proofs.Pass.Prune
import DetectorCache.Refresh
/-!
Passes and cycles are made of few operations on the cache: notes, snapshots, conditional writes,
removals and the eviction of corrupt entries. A relation between the cache before and after that
holds across each of them holds across every pass and every cycle, up to a stop and from it on.
-/
set_option autoImplicit false

namespace DetectorCache

namespace Pass

theorem snd_suspend {ρ π τ κ : Type} (wrap : π → τ) (started : Pass ρ π × κ) :
    (suspend wrap started).2 = started.2 := by
  rw [suspend]
  cases started.1 <;> rfl

/-- A relation between the cache before and after that all operations of passes keep to. -/
structure Keeps (related : Cache → Cache → Prop) : Prop where
  refl : ∀ cache, related cache cache
  trans : ∀ {a b c}, related a b → related b c → related a c
  note : ∀ (cache : Cache) level message fields, related cache (cache.note level message fields)
  entries : ∀ cache : Cache, related cache cache.entries.2
  replaceEncoded : ∀ (cache : Cache) key expected value,
    related cache (cache.replaceEncoded key expected value).2
  remove : ∀ (cache : Cache) keys, related cache (cache.remove keys).2
  evictCorrupt : ∀ (cache : Cache) key value reason,
    related cache (cache.evictCorrupt key value reason).2

namespace Keeps

variable {related : Cache → Cache → Prop}

theorem noteEach {α : Type} (h : Keeps related) (cache : Cache) (items : List α)
    (level : Journal.Level) (message : String) (fields : α → List (String × Octets)) :
    related cache (cache.noteEach items level message fields) := by
  rw [Cache.noteEach]
  induction items generalizing cache with
  | nil => exact h.refl cache
  | cons item items ih => exact h.trans (h.note cache level message (fields item)) (ih _)

theorem evictAll (h : Keeps related) (cache : Cache) (reason : Octets) (entries : List Entry) :
    related cache (Pass.evictAll cache reason entries).2 := by
  induction entries generalizing cache with
  | nil => exact h.refl cache
  | cons entry entries ih => exact h.trans (h.evictCorrupt cache entry.1 entry.2 reason) (ih _)

end Keeps

end Pass

namespace Prune

variable {related : Cache → Cache → Prop} (h : Pass.Keeps related)

include h

theorem related_start (disabled : List Mapping) (cache : Cache) :
    related cache (start disabled cache).2 := by
  simp only [start]
  split
  · exact h.noteEach cache _ _ _ _
  · exact h.trans (h.noteEach cache _ _ _ _) (h.entries _)

theorem related_apply (cut : Cut) (state : Report × Cache) :
    related state.2 (cut.apply state).2 := by
  have hwritten := h.replaceEncoded state.2 cut.key cut.found cut.value
  simp only [Cut.apply]
  split
  · exact h.trans hwritten (h.note _ _ _ _)
  · exact h.trans hwritten (h.note _ _ _ _)

theorem related_applyAll (cuts : List Cut) (state : Report × Cache) :
    related state.2 (applyAll cuts state).2 := by
  induction cuts generalizing state with
  | nil => exact h.refl _
  | cons cut cuts ih => exact h.trans (related_apply h cut state) (ih _)

theorem Pending.related_finish (pending : Pending) (cache : Cache) :
    related cache (pending.finish cache).2 := by
  rw [finish]
  refine h.trans ?_ (h.evictAll _ _ _)
  refine h.trans ?_ (related_applyAll h pending.cuts (pending.report, _))
  exact h.trans (h.noteEach cache _ _ _ _) (h.note _ _ _ _)

end Prune

namespace Eviction

variable {related : Cache → Cache → Prop} (h : Pass.Keeps related)

include h

theorem related_start (changed : List Mapping) (cache : Cache) :
    related cache (start changed cache).2 := by
  simp only [start]
  split
  · exact h.noteEach cache _ _ _ _
  · exact h.trans (h.noteEach cache _ _ _ _) (h.entries _)

theorem Pending.related_finish (pending : Pending) (cache : Cache) :
    related cache (pending.finish cache).2 := by
  rw [finish]
  refine h.trans ?_ (h.evictAll _ _ _)
  refine h.trans ?_ (h.remove _ pending.keys)
  exact h.trans (h.noteEach cache _ _ _ _) (h.note _ _ _ _)

end Eviction

namespace Refresh

variable {related : Cache → Cache → Prop} (h : Pass.Keeps related)

include h

theorem related_prime (s : System) (mappings : List Mapping) :
    related s.cache (s.prime mappings).cache := h.noteEach _ _ _ _ _

theorem related_close (current : List Mapping) (delta : Delta) (prune : Prune.Report)
    (eviction : Eviction.Report) (s : System) :
    related s.cache (close current delta prune eviction s).2.cache :=
  h.trans (related_prime h s current) (h.note _ _ _ _)

theorem related_startEviction (current : List Mapping) (delta : Delta) (prune : Prune.Report)
    (s : System) : related s.cache (startEviction current delta prune s).2.cache := by
  have hstarted :=
    Eviction.related_start h (delta.createdOrChanged ++ delta.retargetedFrom) s.cache
  rw [startEviction]
  split
  · exact related_close h current delta prune {} s
  · simp only [System.onCache]
    split
    · exact h.trans hstarted (related_close h _ _ _ _ (s.withCache _))
    · exact hstarted

theorem Evicting.related_finish (cycle : Evicting) (s : System) :
    related s.cache (cycle.finish s).2.cache := by
  have hevicted := cycle.pending.related_finish h s.cache
  have hclosed := related_close h cycle.current cycle.delta cycle.prune
    (cycle.pending.finish s.cache).1 (s.withCache (cycle.pending.finish s.cache).2)
  exact h.trans hevicted hclosed

theorem Pruning.related_finish (cycle : Pruning) (s : System) :
    related s.cache (cycle.finish s).2.cache := by
  have hpruned := cycle.pending.related_finish h s.cache
  have hstarted := related_startEviction h cycle.current cycle.delta
    (cycle.pending.finish s.cache).1 (s.withCache (cycle.pending.finish s.cache).2)
  simp only [finish, Pass.complete]
  split
  · exact h.trans hpruned hstarted
  · exact h.trans hpruned (h.trans hstarted (Evicting.related_finish h _ _))

theorem Pending.related_finish (pending : Pending) (s : System) :
    related s.cache (pending.finish s).2.cache := by
  cases pending with
  | pruning cycle => exact cycle.related_finish h s
  | evicting cycle => exact cycle.related_finish h s

theorem related_start (current : List Mapping) (s : System) :
    related s.cache (start current s).2.cache := by
  have hpruned := Prune.related_start h (Delta.between s.applied current).newlyDisabled s.cache
  have hevicting : ∀ prune cache, related cache (startEviction current
      (Delta.between s.applied current) prune
      ({ s with refreshing := true }.withCache cache)).2.cache :=
    fun prune cache => related_startEviction h current _ prune (System.withCache _ cache)
  rw [start]
  split
  · exact h.note _ _ _ _
  · simp only [System.onCache]
    split
    · rw [Pass.snd_suspend]
      exact hevicting {} s.cache
    · split
      · rw [Pass.snd_suspend]
        exact h.trans hpruned (hevicting _ _)
      · exact hpruned

end Refresh

end DetectorCache
