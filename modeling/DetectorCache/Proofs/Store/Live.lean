import DetectorCache.Store

set_option autoImplicit false

namespace DetectorCache

/-- What is left of a slot for a reader at the time `now`. -/
def unexpired (lifetime now : Int) (slot : Option Slot) : Option Slot :=
  slot.filter fun s => !s.expired lifetime now

theorem unexpired_eq_some_iff {lifetime now : Int} {slot : Option Slot} {s : Slot} :
    unexpired lifetime now slot = some s ↔ slot = some s ∧ s.expired lifetime now = false := by
  simp [unexpired, Option.filter_eq_some_iff]

theorem unexpired_some (lifetime now : Int) (slot : Slot) :
    unexpired lifetime now (some slot) =
      if now - slot.writtenAt < lifetime then some slot else none := by
  by_cases h : now - slot.writtenAt < lifetime
  · have hlive : slot.expired lifetime now = false := decide_eq_false (Int.not_le.mpr h)
    rw [if_pos h, unexpired_eq_some_iff]
    exact ⟨rfl, hlive⟩
  · have hexpired : slot.expired lifetime now = true := decide_eq_true (Int.not_lt.mp h)
    rw [if_neg h]
    simp [unexpired, Option.filter, hexpired]

theorem Slot.expired_mono {slot : Slot} {lifetime earlier later : Int} (h : earlier ≤ later)
    (he : slot.expired lifetime earlier) : slot.expired lifetime later := by
  simp only [Slot.expired, decide_eq_true_eq] at he ⊢
  omega

/-- A slot that is dropped once it has expired is not missed later. -/
theorem unexpired_unexpired {lifetime earlier later : Int} (h : earlier ≤ later)
    (slot : Option Slot) :
    unexpired lifetime later (unexpired lifetime earlier slot) = unexpired lifetime later slot := by
  cases slot with
  | none => rfl
  | some s =>
    cases he : s.expired lifetime earlier with
    | false => simp [unexpired, Option.filter, he]
    | true =>
      have hl := Slot.expired_mono h he
      simp [unexpired, Option.filter, he, hl]

@[simp] theorem unexpired_none (lifetime now : Int) : unexpired lifetime now none = none := rfl

namespace Shard

variable (shard : Shard) (lifetime now : Int)

/-- The slot of a key, if it is live. -/
def liveSlot? (key : Octets) : Option Slot := unexpired lifetime now (shard.slots.find? key)

theorem liveSlot?_sweep (key : Octets) :
    (shard.sweep lifetime now).2.liveSlot? lifetime now key = shard.liveSlot? lifetime now key := by
  rw [liveSlot?, find?_sweep]
  exact unexpired_unexpired (Int.le_refl now) _

theorem fst_get (key : Octets) :
    (shard.get lifetime now key).1 = (shard.liveSlot? lifetime now key).map Slot.value := by
  rw [get, liveSlot?]
  cases shard.slots.find? key with
  | none => rfl
  | some slot => cases he : slot.expired lifetime now <;> simp [he, unexpired, Option.filter]

theorem liveSlot?_get (key k : Octets) :
    (shard.get lifetime now key).2.liveSlot? lifetime now k = shard.liveSlot? lifetime now k := by
  rw [liveSlot?, find?_get]
  split
  · exact unexpired_unexpired (Int.le_refl now) _
  · rfl

theorem liveSlot?_put (key value k : Octets) :
    (shard.put lifetime now key value).liveSlot? lifetime now k =
      if k = key then unexpired lifetime now (some ⟨value, now⟩)
      else shard.liveSlot? lifetime now k := by
  rw [put]
  split
  · rw [liveSlot?_sweep, liveSlot?, SortedMap.find?_insert]
    split <;> rfl
  · rw [liveSlot?, withSlots, SortedMap.find?_insert]
    split <;> rfl

theorem fst_invalidate (key : Octets) :
    (shard.invalidate lifetime now key).1 = (shard.liveSlot? lifetime now key).isSome := by
  rw [invalidate, liveSlot?]
  cases shard.slots.find? key with
  | none => rfl
  | some slot => cases he : slot.expired lifetime now <;> simp [he, unexpired, Option.filter]

theorem liveSlot?_invalidate (key k : Octets) :
    (shard.invalidate lifetime now key).2.liveSlot? lifetime now k =
      if k = key then none else shard.liveSlot? lifetime now k := by
  rw [liveSlot?, find?_invalidate]
  split <;> rfl

theorem find?_invalidateIf (key expected k : Octets) :
    (shard.invalidateIf key expected).2.slots.find? k =
      if k = key then (shard.slots.find? k).filter (·.value ≠ expected)
      else shard.slots.find? k := by
  rw [invalidateIf]
  cases h : shard.slots.find? key with
  | none => by_cases hk : k = key <;> simp_all
  | some slot =>
    by_cases hv : slot.value = expected <;> by_cases hk : k = key <;>
      simp_all [withSlots, SortedMap.find?_erase, Option.filter]

theorem liveSlot?_invalidateIf (key expected k : Octets) :
    (shard.invalidateIf key expected).2.liveSlot? lifetime now k =
      if k = key then (shard.liveSlot? lifetime now k).filter (·.value ≠ expected)
      else shard.liveSlot? lifetime now k := by
  rw [liveSlot?, find?_invalidateIf]
  split
  · simp only [liveSlot?, unexpired, Option.filter_filter, Bool.and_comm]
  · rfl

theorem fst_invalidateIf {key : Octets} {slot : Slot}
    (h : shard.liveSlot? lifetime now key = some slot) (expected : Octets) :
    (shard.invalidateIf key expected).1 = decide (slot.value = expected) := by
  obtain ⟨hfind, -⟩ := unexpired_eq_some_iff.mp h
  rw [invalidateIf, hfind]
  by_cases hv : slot.value = expected <;> simp [hv]

theorem fst_replaceIf (key expected value : Octets) :
    (shard.replaceIf lifetime now key expected value).1 =
      ((shard.liveSlot? lifetime now key).map Slot.value == some expected) := by
  rw [replaceIf, liveSlot?]
  cases shard.slots.find? key with
  | none => rfl
  | some slot =>
    cases he : slot.expired lifetime now <;> by_cases hv : slot.value = expected <;>
      simp [he, hv, unexpired, Option.filter]

theorem liveSlot?_replaceIf (key expected value k : Octets) :
    (shard.replaceIf lifetime now key expected value).2.liveSlot? lifetime now k =
      if k = key then
        if (shard.liveSlot? lifetime now key).map Slot.value = some expected then
          unexpired lifetime now (some ⟨value, now⟩)
        else shard.liveSlot? lifetime now key
      else shard.liveSlot? lifetime now k := by
  rw [replaceIf]
  cases hfind : shard.slots.find? key with
  | none => by_cases hk : k = key <;> simp [liveSlot?, hfind, hk]
  | some slot =>
    cases he : slot.expired lifetime now with
    | true => by_cases hk : k = key <;> simp [liveSlot?, hfind, unexpired, Option.filter, he, hk]
    | false =>
      by_cases hv : slot.value = expected <;> by_cases hk : k = key <;>
        simp [liveSlot?, hfind, unexpired, Option.filter, he, hv, hk, SortedMap.find?_insert]

end Shard

namespace Store

/-- A lifetime in nanoseconds is the one asked for, unless that is more than can be counted. -/
theorem nanoseconds_eq_iff {milliseconds : Int} (h : 0 < milliseconds) :
    nanoseconds milliseconds = milliseconds * 1000000 ↔
      milliseconds * 1000000 < 9223372036854775808 := by
  rw [nanoseconds, wrap64_eq_self_iff]
  omega

variable (store : Store)

def liveSlot? (key : Octets) : Option Slot :=
  (store.shardOf key).liveSlot? store.lifetime store.now key

/-- Every live entry is as `good` says. -/
def AllLive (good : Octets → Octets → Prop) : Prop :=
  ∀ key slot, store.liveSlot? key = some slot → good key slot.value

theorem liveSlot?_create (lifetimeMilliseconds : Int) (shardCount : Nat) (clock : Clock)
    (hash : Octets → Nat) (key : Octets) :
    (create lifetimeMilliseconds shardCount clock hash).liveSlot? key = none := by
  have hempty : (create lifetimeMilliseconds shardCount clock hash).shardOf key = {} := by
    simp [shardOf, create]
  simp [liveSlot?, hempty, Shard.liveSlot?]

theorem allLive_create (lifetimeMilliseconds : Int) (shardCount : Nat) (clock : Clock)
    (hash : Octets → Nat) (good : Octets → Octets → Prop) :
    (create lifetimeMilliseconds shardCount clock hash).AllLive good := by
  intro key slot hslot
  rw [liveSlot?_create] at hslot
  cases hslot

theorem shardOf_of_indexOf_eq {key k : Octets} (h : store.indexOf k = store.indexOf key) :
    store.shardOf k = store.shardOf key := by
  simp only [shardOf, h]

theorem liveSlot?_withShard (key : Octets) (shard : Shard) (k : Octets) :
    (store.withShard key shard).liveSlot? k =
      if store.indexOf k = store.indexOf key then shard.liveSlot? store.lifetime store.now k
      else store.liveSlot? k := by
  have hview : (store.withShard key shard).liveSlot? k =
      ((store.withShard key shard).shardOf k).liveSlot? store.lifetime store.now k := rfl
  rw [hview, shardOf_withShard]
  split <;> rfl

theorem liveSlot?_withShard_of_update {key : Octets} {shard : Shard} {new : Option Slot}
    (h : ∀ k, shard.liveSlot? store.lifetime store.now k =
      if k = key then new else (store.shardOf key).liveSlot? store.lifetime store.now k)
    (k : Octets) :
    (store.withShard key shard).liveSlot? k = if k = key then new else store.liveSlot? k := by
  rw [liveSlot?_withShard]
  by_cases hi : store.indexOf k = store.indexOf key
  · rw [if_pos hi, h, liveSlot?, store.shardOf_of_indexOf_eq hi]
  · have hk : k ≠ key := fun heq => hi (by rw [heq])
    rw [if_neg hi, if_neg hk]

theorem liveSlot?_withShard_of_eq {key : Octets} {shard : Shard}
    (h : ∀ k, shard.liveSlot? store.lifetime store.now k =
      (store.shardOf key).liveSlot? store.lifetime store.now k) (k : Octets) :
    (store.withShard key shard).liveSlot? k = store.liveSlot? k := by
  rw [liveSlot?_withShard]
  split
  · next hi => rw [h, liveSlot?, store.shardOf_of_indexOf_eq hi]
  · rfl

theorem now_le_tick : store.now ≤ store.tick.now := store.clock.le_now_read

theorem liveSlot?_tick (key : Octets) :
    store.tick.liveSlot? key = unexpired store.lifetime store.tick.now (store.liveSlot? key) :=
  (unexpired_unexpired store.now_le_tick _).symm

theorem fst_get (key : Octets) :
    (store.get key).1 = (store.tick.liveSlot? key).map Slot.value :=
  Shard.fst_get _ _ _ _

theorem liveSlot?_get (key k : Octets) :
    (store.get key).2.liveSlot? k = store.tick.liveSlot? k :=
  store.tick.liveSlot?_withShard_of_eq (Shard.liveSlot?_get _ _ _ key) k

theorem liveSlot?_put (key value k : Octets) :
    (store.put key value).liveSlot? k =
      if k = key then unexpired store.lifetime store.tick.now (some ⟨value, store.tick.now⟩)
      else store.tick.liveSlot? k :=
  store.tick.liveSlot?_withShard_of_update (Shard.liveSlot?_put _ _ _ key value) k

theorem liveSlot?_tick_put (key value : Octets) :
    (store.put key value).tick.liveSlot? key =
      unexpired store.lifetime (store.put key value).tick.now
        (some ⟨value, (store.put key value).now⟩) := by
  rw [liveSlot?_tick, liveSlot?_put, if_pos rfl]
  exact unexpired_unexpired (store.put key value).now_le_tick _

theorem fst_invalidate (key : Octets) :
    (store.invalidate key).1 = (store.tick.liveSlot? key).isSome :=
  Shard.fst_invalidate _ _ _ _

theorem liveSlot?_invalidate (key k : Octets) :
    (store.invalidate key).2.liveSlot? k =
      if k = key then none else store.tick.liveSlot? k :=
  store.tick.liveSlot?_withShard_of_update (Shard.liveSlot?_invalidate _ _ _ key) k

theorem fst_invalidateIf {key : Octets} {slot : Slot} (h : store.liveSlot? key = some slot)
    (expected : Octets) : (store.invalidateIf key expected).1 = decide (slot.value = expected) :=
  Shard.fst_invalidateIf _ _ _ h expected

theorem liveSlot?_invalidateIf (key expected k : Octets) :
    (store.invalidateIf key expected).2.liveSlot? k =
      if k = key then (store.liveSlot? key).filter (·.value ≠ expected)
      else store.liveSlot? k := by
  refine store.liveSlot?_withShard_of_update ?_ k
  intro k'
  rw [Shard.liveSlot?_invalidateIf]
  split
  · next h => rw [h]; rfl
  · rfl

theorem fst_replaceIf (key expected value : Octets) :
    (store.replaceIf key expected value).1 =
      ((store.tick.liveSlot? key).map Slot.value == some expected) :=
  Shard.fst_replaceIf _ _ _ _ _ _

theorem liveSlot?_replaceIf (key expected value k : Octets) :
    (store.replaceIf key expected value).2.liveSlot? k =
      if k = key then
        if (store.tick.liveSlot? key).map Slot.value = some expected then
          unexpired store.lifetime store.tick.now (some ⟨value, store.tick.now⟩)
        else store.tick.liveSlot? key
      else store.tick.liveSlot? k :=
  store.tick.liveSlot?_withShard_of_update (Shard.liveSlot?_replaceIf _ _ _ key expected value) k

theorem now_le_invalidateAll (keys : List Octets) :
    store.now ≤ (store.invalidateAll keys).2.now := by
  induction keys generalizing store with
  | nil => exact Int.le_refl _
  | cons key keys ih => exact Int.le_trans store.now_le_tick (ih (store.invalidate key).2)

theorem liveSlot?_invalidateAll (keys : List Octets) (k : Octets) :
    (store.invalidateAll keys).2.liveSlot? k =
      if k ∈ keys then none
      else unexpired store.lifetime (store.invalidateAll keys).2.now (store.liveSlot? k) := by
  induction keys generalizing store with
  | nil => simp [invalidateAll, liveSlot?, Shard.liveSlot?, unexpired_unexpired, now]
  | cons key keys ih =>
    have hle : store.tick.now ≤ ((store.invalidate key).2.invalidateAll keys).2.now :=
      (store.invalidate key).2.now_le_invalidateAll keys
    refine (ih (store.invalidate key).2).trans ?_
    rw [liveSlot?_invalidate]
    by_cases hk : k = key
    · simp [hk]
    · simp only [hk, if_false, List.mem_cons, false_or]
      split
      · rfl
      · rw [liveSlot?_tick]
        exact unexpired_unexpired hle _

theorem shardOf_purge (key : Octets) :
    store.purge.2.shardOf key =
      ((store.shardOf key).sweep store.lifetime store.tick.now).2 := by
  simp [shardOf, purge, indexOf, tick]

theorem liveSlot?_purge (key : Octets) :
    store.purge.2.liveSlot? key = store.tick.liveSlot? key := by
  have hview : store.purge.2.liveSlot? key =
      (store.purge.2.shardOf key).liveSlot? store.lifetime store.tick.now key := rfl
  rw [hview, shardOf_purge, Shard.liveSlot?_sweep]
  rfl

theorem liveSlot?_advance {nanoseconds : Int} (h : 0 ≤ nanoseconds) (key : Octets) :
    (store.advance nanoseconds).liveSlot? key =
      unexpired store.lifetime (store.advance nanoseconds).now (store.liveSlot? key) := by
  have hle : store.now ≤ (store.advance nanoseconds).now := by
    simp only [advance, now, Clock.advance]
    omega
  exact (unexpired_unexpired hle _).symm

end Store

end DetectorCache
