import DetectorCache.Proofs.System.Reachable

set_option autoImplicit false

namespace DetectorCache

open Store (Traffic Request)

variable {good : Octets → Octets → Prop}

theorem Front.traffic_lookup_of {σ : Type} [MappingService σ] (front : Front σ) {tags : Tags}
    {allowed : Request → Prop} (hget : allowed (.get (CacheKey.encode tags)))
    (hremove : ∀ value, allowed (.invalidateIf (CacheKey.encode tags) value))
    (hput : ∀ mappings, allowed (.put (CacheKey.encode tags)
      (StoredIds.encode (Detector.valid (Mapping.activeDetectors mappings))))) :
    Traffic allowed front.cache.store (front.lookup tags).2.cache.store := by
  have hfind : Traffic allowed front.cache.store
      (front.cache.find (CacheKey.encode tags)).2.store := front.cache.traffic_find_of hget hremove
  simp only [lookup]
  split
  · exact hfind
  · refine hfind.trans ?_
    cases (MappingService.resolve tags front.service).1 with
    | error reason => exact .refl _
    | ok mappings =>
      rw [store_settle_ok]
      exact .single (hput mappings)

theorem Front.traffic_lookup_any {σ : Type} [MappingService σ] (front : Front σ) {tags : Tags}
    (h : ∀ mappings, good (CacheKey.encode tags)
      (StoredIds.encode (Detector.valid (Mapping.activeDetectors mappings)))) :
    Traffic (Request.Writes good) front.cache.store (front.lookup tags).2.cache.store :=
  front.traffic_lookup_of (.of_readOnly trivial rfl) (fun _ => .of_readOnly trivial rfl)
    fun mappings => .of_write trivial rfl (h mappings)

/-- The clock is not set back, and what the action writes by itself is good: a pass decides on its
cuts later. -/
def Action.Writes (good : Octets → Octets → Prop) : Action → Prop
  | .advance nanoseconds => 0 ≤ nanoseconds
  | .put key detectors => good key (StoredIds.encode (Detector.valid detectors))
  | .putEncoded given => ∀ e ∈ given, good e.1 e.2
  | .replaceEncoded key _ value => good key value
  | .lookup tags => ∀ mappings, good (CacheKey.encode tags)
      (StoredIds.encode (Detector.valid (Mapping.activeDetectors mappings)))
  | _ => True

def Action.Forward : Action → Prop
  | .advance nanoseconds => 0 ≤ nanoseconds
  | _ => True

theorem Action.Forward.writes {action : Action} (h : action.Forward) :
    action.Writes fun _ _ => True := by
  cases action with
  | advance nanoseconds => exact h
  | _ => simp [Writes]

namespace Session

def Pending.Writes (good : Octets → Octets → Prop) : Pending → Prop
  | .pruning pending => ∀ cut ∈ pending.cuts, good cut.key cut.value
  | .refreshing pending => ∀ cut ∈ pending.cuts, good cut.key cut.value
  | _ => True

theorem traffic_start {action : Action} (h : action.Writes good) (s : System) :
    Traffic (Request.Writes good) s.cache.store (start s action).2.cache.store := by
  cases action with
  | advance nanoseconds => exact .readOnly (.advance nanoseconds) h rfl
  | put key detectors => exact s.cache.traffic_put_of (.of_write trivial rfl h)
  | find key => exact s.cache.traffic_find key
  | get key => exact s.cache.traffic_find key
  | putEncoded entries => exact s.cache.traffic_putEncoded entries h
  | replaceEncoded key expected value => exact .write (.replaceIf key expected value) trivial rfl h
  | remove keys => exact .readOnly (.invalidateAll keys) trivial rfl
  | evictCorrupt key value reason =>
    exact s.cache.traffic_evictCorrupt_of (.of_readOnly trivial rfl) reason
  | purge => exact .readOnly .purge trivial rfl
  | entries => exact .readOnly .snapshot trivial rfl
  | lookup tags => exact s.front.traffic_lookup_any h
  | prune mappings =>
    simp only [start, snd_reported]
    exact Prune.traffic_start good mappings s.cache
  | evict mappings =>
    simp only [start, snd_reported]
    exact Eviction.traffic_start good mappings s.cache
  | prime mappings => exact .of_eq (s.store_prime mappings)
  | refresh mappings =>
    simp only [start, snd_reported]
    exact Refresh.traffic_start good mappings s
  | _ => exact .refl _

theorem Pending.traffic_finish {pending : Pending} (h : pending.Writes good) (s : System) :
    Traffic (Request.Writes good) s.cache.store (pending.finish s).2.cache.store := by
  cases pending with
  | listing entries => exact .refl _
  | pruning pending => exact pending.traffic_finish h s.cache
  | evicting pending => exact pending.traffic_finish s.cache
  | refreshing pending =>
    obtain ⟨cache, htraffic, hclosed⟩ := pending.closed_finish h s
    have hstore : (pending.finish s).2.cache.store = cache.store := hclosed.store
    exact htraffic.trans (.of_eq hstore)

/-- A whole action is a row of requests, none of which sets the clock back if it does not. -/
theorem forward_perform {action : Action} (h : action.Forward) (s : System) :
    Traffic Request.Forward s.cache.store (perform s action).2.cache.store := by
  have hstart := traffic_start h.writes s
  have hperform : Traffic (Request.Writes fun _ _ => True) s.cache.store
      (perform s action).2.cache.store := by
    rw [perform, Pass.complete]
    split
    · exact hstart
    · next pending _ =>
      have hcuts : pending.Writes fun _ _ => True := by cases pending <;> simp [Pending.Writes]
      exact hstart.trans (Pending.traffic_finish hcuts _)
  exact hperform.mono fun _ hw => hw.forward

end Session

end DetectorCache
