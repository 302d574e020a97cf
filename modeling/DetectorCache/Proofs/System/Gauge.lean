import DetectorCache.Proofs.Refresh.Throughout
import DetectorCache.Proofs.Store.Held
import DetectorCache.Proofs.System.Reachable
/-!
The size gauge of the cache and the size of its store. Whatever writes to the store or removes from
it sets the gauge. A read does not: a slot that it drops for having expired stays in the gauge until
the next operation that sets it. So the gauge is never below the size, and the actions that put it
out are exactly the reads of expired slots that nothing is written back for.
-/
set_option autoImplicit false

namespace DetectorCache

namespace Cache

/-- The gauge shows the size of the store. -/
def GaugeCurrent (cache : Cache) : Prop := cache.sizeGauge = cache.store.size

/-- The gauge was set, or both it and the size were left as they were. -/
def Gauged (before after : Cache) : Prop :=
  after.GaugeCurrent ∨
    (after.sizeGauge = before.sizeGauge ∧ after.store.size = before.store.size)

/-- A slot is gone, and the gauge was left as it was. -/
def Dropped (before after : Cache) : Prop :=
  after.sizeGauge = before.sizeGauge ∧ after.store.size + 1 = before.store.size

variable {a b c : Cache}

theorem Gauged.refl (cache : Cache) : Gauged cache cache := Or.inr ⟨rfl, rfl⟩

theorem Gauged.trans (hab : Gauged a b) (hbc : Gauged b c) : Gauged a c := by
  rcases hbc with hset | ⟨hgauge, hsize⟩
  · exact Or.inl hset
  · rcases hab with hset | ⟨hgauge', hsize'⟩
    · exact Or.inl (hgauge.trans (hset.trans hsize.symm))
    · exact Or.inr ⟨hgauge.trans hgauge', hsize.trans hsize'⟩

theorem Gauged.current (h : Gauged a b) (ha : a.GaugeCurrent) : b.GaugeCurrent := by
  rcases h with hset | ⟨hgauge, hsize⟩
  · exact hset
  · exact hgauge.trans (ha.trans hsize.symm)

theorem Gauged.size_le (h : Gauged a b) (ha : a.store.size ≤ a.sizeGauge) :
    b.store.size ≤ b.sizeGauge := by
  rcases h with hset | ⟨hgauge, hsize⟩
  · exact Nat.le_of_eq hset.symm
  · rw [hgauge, hsize]
    exact ha

theorem Dropped.not_current (h : Dropped a b) (ha : a.store.size ≤ a.sizeGauge) :
    ¬ b.GaugeCurrent := by
  obtain ⟨hgauge, hsize⟩ := h
  rw [GaugeCurrent]
  omega

theorem Dropped.size_le (h : Dropped a b) (ha : a.store.size ≤ a.sizeGauge) :
    b.store.size ≤ b.sizeGauge := by
  obtain ⟨hgauge, hsize⟩ := h
  omega

variable (cache : Cache)

theorem gauged_evictCorrupt (key value reason : Octets) :
    Gauged cache (cache.evictCorrupt key value reason).2 := by
  cases hremoved : (cache.store.invalidateIf key value).1 with
  | true =>
    refine Or.inl ?_
    simp only [evictCorrupt, onStore, hremoved]
    rfl
  | false =>
    refine Or.inr ?_
    simp only [evictCorrupt, onStore, hremoved]
    exact ⟨rfl, Store.size_invalidateIf hremoved⟩

theorem keeps_gauged : Pass.Keeps Gauged where
  refl := .refl
  trans := .trans
  note _ _ _ _ := .refl _
  entries _ := Or.inr ⟨rfl, rfl⟩
  replaceEncoded _ key expected value := Or.inr ⟨rfl, Store.size_replaceIf key expected value⟩
  remove _ _ := Or.inl rfl
  evictCorrupt cache key value reason := cache.gauged_evictCorrupt key value reason

theorem gauged_find {key : Octets} (h : cache.store.dropsOnRead key = false) :
    Gauged cache (cache.find key).2 := by
  have hread : Gauged cache { cache with store := (cache.store.get key).2 } :=
    Or.inr ⟨rfl, Store.size_get_of_not_dropsOnRead h⟩
  simp only [find, onStore]
  split
  · exact hread
  · next value _ =>
    split
    · next malformed _ => exact hread.trans (gauged_evictCorrupt _ key value malformed.message)
    · exact hread

theorem find_of_dropsOnRead (hrecorded : cache.store.Recorded) {key : Octets}
    (h : cache.store.dropsOnRead key = true) :
    (cache.find key).1 = none ∧ Dropped cache (cache.find key).2 := by
  simp only [find, onStore, Store.fst_get_of_dropsOnRead h]
  exact ⟨trivial, rfl, Store.size_get_of_dropsOnRead hrecorded h⟩

end Cache

namespace Front

variable {σ : Type} [MappingService σ] (front : Front σ) (tags : Tags)

theorem gaugeCurrent_lookup {mappings : List Mapping}
    (hmiss : (front.cache.find (CacheKey.encode tags)).1 = none)
    (hanswer : (MappingService.resolve tags front.service).1 = .ok mappings) :
    (front.lookup tags).2.cache.GaugeCurrent := by
  simp only [lookup, hmiss, hanswer, settle]
  rfl

theorem cache_lookup_of_error {reason : Octets}
    (hmiss : (front.cache.find (CacheKey.encode tags)).1 = none)
    (hfailed : (MappingService.resolve tags front.service).1 = .error reason) :
    ∃ journal, (front.lookup tags).2.cache =
      { (front.cache.find (CacheKey.encode tags)).2 with journal } := by
  simp only [lookup, hmiss, hfailed, settle]
  exact ⟨_, rfl⟩

theorem gauged_lookup (h : front.cache.store.dropsOnRead (CacheKey.encode tags) = false) :
    Cache.Gauged front.cache (front.lookup tags).2.cache := by
  have hread := front.cache.gauged_find h
  cases hfound : (front.cache.find (CacheKey.encode tags)).1 with
  | some detectors =>
    simp only [lookup, hfound]
    exact hread
  | none =>
    cases hanswer : (MappingService.resolve tags front.service).1 with
    | ok mappings => exact Or.inl (front.gaugeCurrent_lookup tags hfound hanswer)
    | error reason =>
      obtain ⟨journal, heq⟩ := front.cache_lookup_of_error tags hfound hanswer
      rw [heq]
      exact hread

end Front

namespace Session

/-- Whether an action drops a slot and leaves the gauge: a read that finds the slot expired, also
that of a lookup which the service then fails. -/
def drops (s : System) : Action → Bool
  | .find key => s.cache.store.dropsOnRead key
  | .get key => s.cache.store.dropsOnRead key
  | .lookup tags =>
    s.cache.store.dropsOnRead (CacheKey.encode tags) && decide (0 < s.front.service.outage)
  | _ => false

theorem gauged_lookup {s : System} {tags : Tags} (h : drops s (.lookup tags) = false)
    (hrecorded : s.cache.store.Recorded) : Cache.Gauged s.cache (s.lookup tags).2.cache := by
  cases hread : s.cache.store.dropsOnRead (CacheKey.encode tags) with
  | false => exact s.front.gauged_lookup tags hread
  | true =>
    have hanswers : ¬ 0 < s.front.service.outage := by simpa [drops, hread] using h
    have hmiss := (s.cache.find_of_dropsOnRead hrecorded hread).1
    have hanswer : (MappingService.resolve tags s.front.service).1 =
        .ok (s.front.service.mappings.filter (·.expression.holds tags)) := by
      simp only [MappingService.resolve, Directory.resolve, if_neg hanswers]
    exact Or.inl (s.front.gaugeCurrent_lookup tags hmiss hanswer)

theorem dropped_lookup {s : System} {tags : Tags} (h : drops s (.lookup tags) = true)
    (hrecorded : s.cache.store.Recorded) : Cache.Dropped s.cache (s.lookup tags).2.cache := by
  rw [drops, Bool.and_eq_true, decide_eq_true_iff] at h
  obtain ⟨hread, hfails⟩ := h
  obtain ⟨hmiss, hdropped⟩ := s.cache.find_of_dropsOnRead hrecorded hread
  have hfailed : (MappingService.resolve tags s.front.service).1 =
      .error s.front.service.reason := by
    simp only [MappingService.resolve, Directory.resolve, if_pos hfails]
  obtain ⟨journal, heq⟩ := s.front.cache_lookup_of_error tags hmiss hfailed
  have hcache : (s.lookup tags).2.cache = _ := heq
  rw [hcache]
  exact hdropped

theorem gauged_start {s : System} {action : Action} (h : drops s action = false)
    (hrecorded : s.cache.store.Recorded) : Cache.Gauged s.cache (start s action).2.cache := by
  have hpass := Cache.keeps_gauged
  cases action with
  | put key detectors => exact Or.inl rfl
  | putEncoded entries => exact Or.inl rfl
  | purge => exact Or.inl rfl
  | find key => exact s.cache.gauged_find h
  | get key => exact s.cache.gauged_find h
  | replaceEncoded key expected value => exact hpass.replaceEncoded s.cache key expected value
  | remove keys => exact hpass.remove s.cache keys
  | evictCorrupt key value reason => exact hpass.evictCorrupt s.cache key value reason
  | entries => exact hpass.entries s.cache
  | lookup tags => exact gauged_lookup h hrecorded
  | prune mappings =>
    simp only [start, snd_reported]
    exact Prune.related_start hpass mappings s.cache
  | evict mappings =>
    simp only [start, snd_reported]
    exact Eviction.related_start hpass mappings s.cache
  | prime mappings => exact Refresh.related_prime hpass s mappings
  | refresh mappings =>
    simp only [start, snd_reported]
    exact Refresh.related_start hpass mappings s
  | _ => exact .refl _

theorem Pending.gauged_finish (pending : Pending) (s : System) :
    Cache.Gauged s.cache (pending.finish s).2.cache := by
  have hpass := Cache.keeps_gauged
  cases pending with
  | listing entries => exact .refl _
  | pruning pending => exact pending.related_finish hpass s.cache
  | evicting pending => exact pending.related_finish hpass s.cache
  | refreshing pending => exact pending.related_finish hpass s

theorem gauged_perform {s : System} {action : Action} (h : drops s action = false)
    (hrecorded : s.cache.store.Recorded) : Cache.Gauged s.cache (perform s action).2.cache := by
  have hstart := gauged_start h hrecorded
  rw [perform, Pass.complete]
  split
  · exact hstart
  · next pending _ => exact hstart.trans (pending.gauged_finish _)

theorem dropped_start {s : System} {action : Action} (h : drops s action = true)
    (hrecorded : s.cache.store.Recorded) : Cache.Dropped s.cache (start s action).2.cache := by
  cases action with
  | find key => exact (s.cache.find_of_dropsOnRead hrecorded h).2
  | get key => exact (s.cache.find_of_dropsOnRead hrecorded h).2
  | lookup tags => exact dropped_lookup h hrecorded
  | _ => cases h

theorem perform_of_drops {s : System} {action : Action} (h : drops s action = true) :
    (perform s action).2 = (start s action).2 := by
  cases action with
  | find key => rfl
  | get key => rfl
  | lookup tags => rfl
  | _ => cases h

theorem dropped_perform {s : System} {action : Action} (h : drops s action = true)
    (hrecorded : s.cache.store.Recorded) : Cache.Dropped s.cache (perform s action).2.cache := by
  rw [perform_of_drops h]
  exact dropped_start h hrecorded

/-- What holds of the store and the gauge between actions of any kind. -/
structure Bounded (s : System) : Prop where
  recorded : s.cache.store.Recorded
  size_le : s.cache.store.size ≤ s.cache.sizeGauge

theorem invariant_bounded : Invariant Bounded where
  start := by
    intro s h action
    refine ⟨(effect_start s action).traffic.recorded h.recorded, ?_⟩
    cases hdrops : drops s action with
    | false => exact (gauged_start hdrops h.recorded).size_le h.size_le
    | true => exact (dropped_start hdrops h.recorded).size_le h.size_le
  finish := by
    intro s h pending
    refine ⟨(pending.effect_finish s).traffic.recorded h.recorded, ?_⟩
    exact (pending.gauged_finish s).size_le h.size_le

/-- An action leaves a gauge that was right exactly if it drops nothing on a read. -/
theorem gaugeCurrent_perform_iff {s : System} (h : Bounded s) (hcurrent : s.cache.GaugeCurrent)
    (action : Action) : (perform s action).2.cache.GaugeCurrent ↔ drops s action = false := by
  cases hdrops : drops s action with
  | false => exact iff_of_true ((gauged_perform hdrops h.recorded).current hcurrent) rfl
  | true =>
    exact iff_of_false ((dropped_perform hdrops h.recorded).not_current h.size_le) nofun

/-- Whether one of a row of actions drops a slot and leaves the gauge. -/
def dropsAmong (s : System) : List Action → Bool
  | [] => false
  | action :: actions => drops s action || dropsAmong (perform s action).2 actions

/-- After each of a row of actions the gauge that monitoring reads shows the slots held. -/
def GaugeExact (s : System) : List Action → Prop
  | [] => True
  | action :: actions =>
    (Counters.ofFront (perform s action).2.front).size = (perform s action).2.cache.store.held ∧
      GaugeExact (perform s action).2 actions

theorem gaugeExact_iff {s : System} (h : Bounded s) (hcurrent : s.cache.GaugeCurrent)
    (actions : List Action) : GaugeExact s actions ↔ dropsAmong s actions = false := by
  induction actions generalizing s with
  | nil => exact iff_of_true trivial rfl
  | cons action actions ih =>
    have hafter := invariant_bounded.perform h action
    have hfirst : (Counters.ofFront (perform s action).2.front).size =
        (perform s action).2.cache.store.held ↔ drops s action = false := by
      rw [← hafter.recorded.size_eq_held]
      exact gaugeCurrent_perform_iff h hcurrent action
    rw [GaugeExact, dropsAmong, Bool.or_eq_false_iff, hfirst]
    refine and_congr_right fun hkept => ?_
    exact ih hafter ((gaugeCurrent_perform_iff h hcurrent action).mpr hkept)

end Session

namespace System

theorem gaugeCurrent_fresh (lifetimeMilliseconds : Int) (shardCount : Nat) (clock : Clock)
    (hash : Octets → Nat) (journal : Journal) (service : Directory) :
    (fresh lifetimeMilliseconds shardCount clock hash journal service).cache.GaugeCurrent :=
  (Store.size_create lifetimeMilliseconds shardCount clock hash).symm

theorem bounded_fresh (lifetimeMilliseconds : Int) (shardCount : Nat) (clock : Clock)
    (hash : Octets → Nat) (journal : Journal) (service : Directory) :
    Session.Bounded (fresh lifetimeMilliseconds shardCount clock hash journal service) :=
  ⟨Store.recorded_create lifetimeMilliseconds shardCount clock hash,
    Nat.le_of_eq (Store.size_create lifetimeMilliseconds shardCount clock hash)⟩

/-- Also where actions interrupt each other the gauge is not below the size of the store. -/
theorem Reachable.bounded {s : System} (h : s.Reachable) : Session.Bounded s := by
  induction h with
  | fresh lifetimeMilliseconds shardCount clock hash journal service =>
    exact bounded_fresh lifetimeMilliseconds shardCount clock hash journal service
  | perform _ action meanwhile ih =>
    exact Session.invariant_bounded.performAround ih action meanwhile

end System

namespace Session

/-- Over any run of a fresh system, whatever its store, clock and service, the gauge shows the slots
held after every action exactly if no action drops an expired slot on a read with nothing written
back. At any point the store counts its slots right and the gauge is not below them; and whatever
action comes next, either it drops a slot so, and the gauge stays while the slots are one fewer, or
the gauge is set or stays together with them. -/
theorem gauge_exact_iff_nothing_dropped (lifetimeMilliseconds : Int) (shardCount : Nat)
    (clock : Clock) (hash : Octets → Nat) (journal : Journal) (service : Directory)
    (actions : List Action) :
    let fresh := System.fresh lifetimeMilliseconds shardCount clock hash journal service
    let s := (performAll fresh actions).2
    (GaugeExact fresh actions ↔ dropsAmong fresh actions = false) ∧
      s.cache.store.size = s.cache.store.held ∧
      s.cache.store.held ≤ (Counters.ofFront s.front).size ∧
      ∀ action, let next := (perform s action).2
        if drops s action then
          (Counters.ofFront next.front).size = (Counters.ofFront s.front).size ∧
            next.cache.store.held + 1 = s.cache.store.held
        else
          (Counters.ofFront next.front).size = next.cache.store.held ∨
            ((Counters.ofFront next.front).size = (Counters.ofFront s.front).size ∧
              next.cache.store.held = s.cache.store.held) := by
  intro fresh s
  have hfresh := System.bounded_fresh lifetimeMilliseconds shardCount clock hash journal service
  have hcurrent :=
    System.gaugeCurrent_fresh lifetimeMilliseconds shardCount clock hash journal service
  have hbounded : Bounded s := invariant_bounded.performAll hfresh actions
  have hheld := hbounded.recorded.size_eq_held
  refine ⟨gaugeExact_iff hfresh hcurrent actions, hheld, ?_, ?_⟩
  · rw [← hheld]
    exact hbounded.size_le
  · intro action next
    rw [← hheld, ← (invariant_bounded.perform hbounded action).recorded.size_eq_held]
    split
    · next hdrops => exact dropped_perform hdrops hbounded.recorded
    · next hkeeps => exact gauged_perform (Bool.eq_false_iff.mpr hkeeps) hbounded.recorded

theorem expired_read_leaves_gauge :
    ¬ GaugeExact (System.fresh 1000 1 {} (fun _ => 0) { threshold := .error } {})
      [.put [97] [], .advance 1000000000, .find [97]] := by
  rw [gaugeExact_iff (System.bounded_fresh _ _ _ _ _ _) (System.gaugeCurrent_fresh _ _ _ _ _ _)]
  decide +kernel

end Session

end DetectorCache
