import DetectorCache.Proofs.Cache.Outcomes
import DetectorCache.Proofs.Store.Sparing
import DetectorCache.Proofs.System.Traffic

set_option autoImplicit false

namespace DetectorCache

open Store (Traffic Request Passage)

/-- The action is about other keys, or about none: a purge, a snapshot, the clock, the directory,
the record. A pass or a cycle may be about any key. -/
def Action.Spares (key : Octets) : Action → Prop
  | .advance nanoseconds => 0 ≤ nanoseconds
  | .put k _ | .find k | .get k | .replaceEncoded k _ _ | .evictCorrupt k _ _ => key ≠ k
  | .putEncoded given => ∀ e ∈ given, key ≠ e.1
  | .remove keys => key ∉ keys
  | .lookup tags => key ≠ CacheKey.encode tags
  | .prune _ | .evict _ | .refresh _ => False
  | _ => True

def Action.advanced : Action → Int
  | .advance nanoseconds => nanoseconds
  | _ => 0

def Action.advancedAmong : List Action → Int
  | [] => 0
  | action :: actions => action.advanced + advancedAmong actions

namespace Session

variable {key : Octets}

theorem traffic_start_of_spares {action : Action} (h : action.Spares key)
    (hstanding : ∀ nanoseconds, action ≠ .advance nanoseconds) (s : System) :
    Traffic (Request.Spares key) s.cache.store (start s action).2.cache.store := by
  have hone : ∀ request : Request, request.Spares key →
      Traffic (Request.Spares key) s.cache.store (s.cache.store.serve request).2 := fun _ => .single
  cases action with
  | advance nanoseconds => exact absurd rfl (hstanding nanoseconds)
  | put k detectors => exact s.cache.traffic_put_of (.of_one h rfl nofun)
  | find k => exact s.cache.traffic_find_of (.of_one h rfl nofun) fun _ => .of_one h rfl nofun
  | get k => exact s.cache.traffic_find_of (.of_one h rfl nofun) fun _ => .of_one h rfl nofun
  | putEncoded given =>
    exact s.cache.traffic_putEncoded_of given fun e he => .of_one (h e he) rfl nofun
  | replaceEncoded k expected value =>
    exact hone (.replaceIf k expected value) (.of_one h rfl nofun)
  | remove keys => exact hone (.invalidateAll keys) ⟨nofun, h⟩
  | evictCorrupt k value reason =>
    exact s.cache.traffic_evictCorrupt_of (.of_one h rfl nofun) reason
  | purge => exact hone .purge ⟨nofun, List.not_mem_nil⟩
  | entries => exact hone .snapshot ⟨nofun, List.not_mem_nil⟩
  | lookup tags =>
    exact s.front.traffic_lookup_of (.of_one h rfl nofun) (fun _ => .of_one h rfl nofun)
      fun _ => .of_one h rfl nofun
  | prune mappings => exact h.elim
  | evict mappings => exact h.elim
  | prime mappings => exact .of_eq (s.store_prime mappings)
  | refresh mappings => exact h.elim
  | _ => exact .refl _

theorem store_perform_of_spares {action : Action} (h : action.Spares key) (s : System) :
    (perform s action).2.cache.store = (start s action).2.cache.store := by
  cases action with
  | prune mappings => exact h.elim
  | evict mappings => exact h.elim
  | refresh mappings => exact h.elim
  | _ => rfl

theorem passage_perform {action : Action} (h : action.Spares key) (s : System) :
    Passage key action.advanced s.cache.store (perform s action).2.cache.store := by
  rw [store_perform_of_spares h]
  cases action with
  | advance nanoseconds => exact Store.passage_advance h _
  | _ => exact (traffic_start_of_spares h nofun s).passage

theorem passage_performAll {actions : List Action} (h : ∀ action ∈ actions, action.Spares key)
    (s : System) :
    Passage key (Action.advancedAmong actions) s.cache.store
      (performAll s actions).2.cache.store := by
  induction actions generalizing s with
  | nil => exact .refl _
  | cons action actions ih =>
    have hrest := ih (fun a ha => h a (List.mem_cons_of_mem _ ha)) (perform s action).2
    exact (passage_perform (h action List.mem_cons_self) s).trans hrest

theorem passage_performAll_tick {actions : List Action}
    (h : ∀ action ∈ actions, action.Spares key) (s : System) :
    Passage key (Action.advancedAmong actions) s.cache.store
      (performAll s actions).2.cache.store.tick := by
  have hread : Passage key 0 (performAll s actions).2.cache.store
    (performAll s actions).2.cache.store.tick := .of_read rfl rfl rfl
  rw [← Int.add_zero (Action.advancedAmong actions)]
  exact (passage_performAll h s).trans hread

/-- What was written is found after any actions on other keys, until its lifetime is over. -/
theorem cached?_after_put (s : System) (detectors : List Detector) {later : List Action}
    (hlater : ∀ action ∈ later, action.Spares key) :
    let written := (perform s (.put key detectors)).2
    let reached := (performAll written later).2
    reached.cache.cached? key =
      if reached.cache.store.tick.now - written.cache.store.now < s.cache.store.lifetime then
        some ((Detector.canonicalIds detectors).map fun id => ⟨id, true⟩)
      else none := by
  intro written reached
  have hput : written.cache.store = _ := s.cache.store_put key detectors
  have hpassage := passage_performAll_tick hlater written
  have hlifetime : written.cache.store.lifetime = s.cache.store.lifetime := by
    rw [hput]
    rfl
  have hlive : written.cache.store.liveSlot? key =
      unexpired s.cache.store.lifetime written.cache.store.now
        (some ⟨StoredIds.encode (Detector.valid detectors), written.cache.store.now⟩) := by
    rw [hput, Store.liveSlot?_put, if_pos rfl]
    rfl
  refine Cache.cached?_of_written (Detector.decode_encode_valid detectors) ?_
  rw [hpassage.liveSlot?, hlive, hlifetime]
  exact unexpired_unexpired hpassage.now_le _

/-- A write is read back under any load on other keys. Whatever their letter case, validity, order
and flags, the detectors written under a key are read as their canonical ids, each where it first
occurs, and as a hit, if the lifetime since the write is not over; from then on the read is a miss.
On a clock that stands still by itself this is told by what it was advanced meanwhile; and the
lifetime is the one asked for as long as its nanoseconds can be counted in 64 bits. -/
theorem reads_own_write (s : System) (key : Octets) (detectors : List Detector)
    {milliseconds : Int} (hlifetime : s.cache.store.lifetime = Store.nanoseconds milliseconds)
    {later : List Action} (hlater : ∀ action ∈ later, action.Spares key) :
    let written := (perform s (.put key detectors)).2
    let reached := (performAll written later).2
    let found := perform reached (.find key)
    let elapsed := reached.cache.store.tick.now - written.cache.store.now
    let limit := Store.nanoseconds milliseconds
    (elapsed < limit →
      found.1 = .found (some ((Detector.canonicalIds detectors).map fun id => ⟨id, true⟩)) ∧
        Cache.Hit reached.cache found.2.cache) ∧
    (limit ≤ elapsed → found.1 = .found none ∧ Cache.Miss key reached.cache found.2.cache) ∧
    ((∀ n, s.cache.store.clock.drift n = 0) → elapsed = Action.advancedAmong later) ∧
    (0 < milliseconds →
      (limit = milliseconds * 1000000 ↔
        milliseconds * 1000000 < 9223372036854775808)) := by
  intro written reached found elapsed limit
  have hcached := cached?_after_put s detectors hlater
  rw [hlifetime] at hcached
  refine ⟨?_, ?_, ?_, Store.nanoseconds_eq_iff⟩
  · intro hintime
    obtain ⟨hfind, hhit⟩ := Cache.hit_find (hcached.trans (if_pos hintime))
    exact ⟨congrArg Answer.found hfind, hhit⟩
  · intro hlate
    obtain ⟨hfind, hmiss⟩ := Cache.miss_find (hcached.trans (if_neg (Int.not_lt.mpr hlate)))
    exact ⟨congrArg Answer.found hfind, hmiss⟩
  · intro hstill
    have hput : written.cache.store = _ := s.cache.store_put key detectors
    have hnow : reached.cache.store.tick.now =
        written.cache.store.now + Action.advancedAmong later :=
      (passage_performAll_tick hlater written).still (by rw [hput]; exact hstill)
    simp only [elapsed, hnow]
    omega

/-- Two letter cases of one id and a text that is none are written under a lifetime of a second.
Seventy writes of another key sweep the shard; a nanosecond before the second is over the id is
found, and with that nanosecond it is not. -/
theorem reads_own_write_under_sweeps :
    let lower := Octets.ascii "00000000-0000-4000-8000-00000000000a"
    let upper := Octets.ascii "00000000-0000-4000-8000-00000000000A"
    let s := System.fresh 1000 1 {} fnv1a { threshold := .error } {}
    let written := (perform s (.put [97] [⟨upper, false⟩, ⟨[97], true⟩, ⟨lower, true⟩])).2
    let busy : List Action := List.replicate 70 (.put [98] []) ++ [.purge, .advance 999999999]
    s.cache.store.lifetime = Store.nanoseconds 1000 ∧
      (∀ action ∈ busy ++ [.advance 1], action.Spares [97]) ∧
      (perform (performAll written busy).2 (.find [97])).1 = .found (some [⟨lower, true⟩]) ∧
      (perform (performAll written (busy ++ [.advance 1])).2 (.find [97])).1 = .found none := by
  intro lower upper s written busy
  have hlifetime : s.cache.store.lifetime = Store.nanoseconds 1000 := rfl
  have hlater : ∀ action ∈ busy ++ [.advance 1], action.Spares [97] := by
    simp [busy, Action.Spares]
  have hbusy : ∀ action ∈ busy, action.Spares [97] :=
    fun action hmem => hlater action (List.mem_append_left _ hmem)
  obtain ⟨hhit, -, htime, -⟩ := reads_own_write s [97] _ hlifetime hbusy
  obtain ⟨-, hmiss, htimeLater, -⟩ := reads_own_write s [97] _ hlifetime hlater
  refine ⟨hlifetime, hlater, ?_, (hmiss ?_).1⟩
  · refine ((hhit ?_).1).trans (congrArg (Answer.found ∘ some) (by decide +kernel))
    rw [htime fun _ => rfl]
    decide +kernel
  · rw [htimeLater fun _ => rfl]
    decide +kernel

/-- A positive lifetime that cannot be counted wraps around to a negative one: what is written is
not found at the time that it was written. -/
theorem uncountable_lifetime_loses_write :
    let id := Octets.ascii "00000000-0000-4000-8000-000000000001"
    let s := System.fresh 9223372036855 1 {} fnv1a { threshold := .error } {}
    let written := (perform s (.put [97] [⟨id, true⟩])).2
    Detector.canonicalIds [⟨id, true⟩] = [id] ∧
      written.cache.store.tick.now - written.cache.store.now = 0 ∧
      (perform written (.find [97])).1 = .found none := by
  intro id s written
  have hmiss : (written.cache.find [97]).1 = none := by decide +kernel
  exact ⟨by decide +kernel, by decide +kernel, congrArg Answer.found hmiss⟩

end Session

end DetectorCache
