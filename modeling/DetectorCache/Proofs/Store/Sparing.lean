import DetectorCache.Proofs.Store.Slots

set_option autoImplicit false

namespace DetectorCache.Store

namespace Request

def keys : Request → List Octets
  | .get key => [key]
  | .put key _ => [key]
  | .invalidate key => [key]
  | .invalidateIf key _ => [key]
  | .replaceIf key _ _ => [key]
  | .invalidateAll keys => keys
  | .snapshot | .purge | .advance _ => []

/-- The request leaves the clock to itself and names other keys only. -/
structure Spares (key : Octets) (request : Request) : Prop where
  standing : ∀ nanoseconds, request ≠ .advance nanoseconds
  other : key ∉ request.keys

theorem Spares.of_one {key k : Octets} {request : Request} (h : key ≠ k)
    (hkeys : request.keys = [k]) (hstanding : ∀ nanoseconds, request ≠ .advance nanoseconds) :
    request.Spares key := by
  refine ⟨hstanding, ?_⟩
  rw [hkeys, List.mem_singleton]
  exact h

end Request

/-- Between two states of a store only time has passed for the key, by the given amount if the clock
stands still. -/
structure Passage (key : Octets) (advanced : Int) (before after : Store) : Prop where
  lifetime : after.lifetime = before.lifetime
  drift : after.clock.drift = before.clock.drift
  now_le : before.now ≤ after.now
  still : (∀ n, before.clock.drift n = 0) → after.now = before.now + advanced
  liveSlot? : after.liveSlot? key = unexpired before.lifetime after.now (before.liveSlot? key)

namespace Passage

variable {key : Octets} {a b c : Store}

theorem refl (store : Store) : Passage key 0 store store where
  lifetime := rfl
  drift := rfl
  now_le := Int.le_refl _
  still _ := (Int.add_zero _).symm
  liveSlot? := (unexpired_unexpired (Int.le_refl _) _).symm

theorem trans {first second : Int} (hab : Passage key first a b) (hbc : Passage key second b c) :
    Passage key (first + second) a c where
  lifetime := hbc.lifetime.trans hab.lifetime
  drift := hbc.drift.trans hab.drift
  now_le := Int.le_trans hab.now_le hbc.now_le
  still hstill := by
    rw [hbc.still (hab.drift ▸ hstill), hab.still hstill, Int.add_assoc]
  liveSlot? := by
    rw [hbc.liveSlot?, hab.liveSlot?, hab.lifetime]
    exact unexpired_unexpired hbc.now_le _

theorem of_read {before after : Store} (hlifetime : after.lifetime = before.lifetime)
    (hclock : after.clock = before.clock.read)
    (hslot : after.liveSlot? key = before.tick.liveSlot? key) : Passage key 0 before after := by
  have hnow : after.now = before.tick.now := congrArg Clock.now hclock
  have hdrift : after.clock.drift = before.clock.read.drift := congrArg Clock.drift hclock
  refine ⟨hlifetime, hdrift, ?_, fun hstill => ?_, ?_⟩
  · rw [hnow]
    exact before.now_le_tick
  · rw [hnow]
    simp [now, tick, Clock.read, hstill]
  · rw [hslot, liveSlot?_tick, hnow]

end Passage

variable {key : Octets}

theorem passage_advance {nanoseconds : Int} (h : 0 ≤ nanoseconds) (store : Store) :
    Passage key nanoseconds store (store.advance nanoseconds) where
  lifetime := rfl
  drift := rfl
  now_le := by
    simp only [advance, now, Clock.advance]
    omega
  still _ := rfl
  liveSlot? := store.liveSlot?_advance h key

theorem passage_invalidate {k : Octets} (h : key ≠ k) (store : Store) :
    Passage key 0 store (store.invalidate k).2 :=
  .of_read rfl rfl ((store.liveSlot?_invalidate k key).trans (if_neg h))

theorem passage_invalidateAll {keys : List Octets} (h : key ∉ keys) (store : Store) :
    Passage key 0 store (store.invalidateAll keys).2 := by
  induction keys generalizing store with
  | nil => exact .refl store
  | cons k keys ih =>
    rw [List.mem_cons, not_or] at h
    exact (passage_invalidate h.1 store).trans (ih h.2 (store.invalidate k).2)

theorem passage_serve {request : Request} (h : request.Spares key) (store : Store) :
    Passage key 0 store (store.serve request).2 := by
  have hother := h.other
  cases request with
  | get k => exact .of_read rfl rfl (store.liveSlot?_get k key)
  | put k value =>
    have hne : key ≠ k := List.ne_of_not_mem_cons hother
    exact .of_read rfl rfl ((store.liveSlot?_put k value key).trans (if_neg hne))
  | invalidate k => exact passage_invalidate (List.ne_of_not_mem_cons hother) store
  | invalidateIf k expected =>
    -- the one request that does not read the clock
    have hne : key ≠ k := List.ne_of_not_mem_cons hother
    have hslot := (store.liveSlot?_invalidateIf k expected key).trans (if_neg hne)
    have hrest : Passage key 0 store store := .refl store
    exact { hrest with liveSlot? := hslot.trans hrest.liveSlot? }
  | replaceIf k expected value =>
    have hne : key ≠ k := List.ne_of_not_mem_cons hother
    exact .of_read rfl rfl ((store.liveSlot?_replaceIf k expected value key).trans (if_neg hne))
  | invalidateAll keys => exact passage_invalidateAll hother store
  | snapshot => exact .of_read rfl rfl rfl
  | purge => exact .of_read rfl rfl (store.liveSlot?_purge key)
  | advance nanoseconds => exact absurd rfl (h.standing nanoseconds)

theorem Traffic.passage {a b : Store} (h : Traffic (Request.Spares key) a b) :
    Passage key 0 a b := by
  obtain ⟨requests, hall, rfl⟩ := h
  induction requests generalizing a with
  | nil => exact .refl a
  | cons request requests ih =>
    have hrest := fun r hr => hall r (List.mem_cons_of_mem _ hr)
    exact (passage_serve (hall request List.mem_cons_self) a).trans (ih hrest)

end DetectorCache.Store
