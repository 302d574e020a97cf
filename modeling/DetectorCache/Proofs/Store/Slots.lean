import DetectorCache.Proofs.Store.Sweeping

set_option autoImplicit false

namespace DetectorCache

theorem Slot.not_expired_of_le {slot : Slot} {lifetime earlier later : Int}
    (h : earlier ≤ later) (hlater : slot.expired lifetime later = false) :
    slot.expired lifetime earlier = false := by
  refine Bool.eq_false_iff.mpr fun hearlier => ?_
  rw [Slot.expired_mono h hearlier] at hlater
  cases hlater

theorem Slot.filter_eq_of_forall {slot? : Option Slot} {keep : Slot → Bool}
    (h : ∀ slot, slot? = some slot → keep slot = true) : slot?.filter keep = slot? := by
  cases slot? with
  | none => rfl
  | some slot => exact Option.filter_some_eq_some.mpr (h slot rfl)

namespace Shard

/-- All slots of the second shard were in the first one, but for one that was written. -/
def Adds (written : Option (Octets × Slot)) (before after : Shard) : Prop :=
  ∀ k slot, after.slots.find? k = some slot →
    before.slots.find? k = some slot ∨ written = some (k, slot)

variable (shard : Shard) (lifetime now : Int) (key : Octets)

theorem adds_sweep : Adds none shard (shard.sweep lifetime now).2 := by
  intro k slot h
  rw [find?_sweep, Option.filter_eq_some_iff] at h
  exact Or.inl h.1

theorem adds_get : Adds none shard (shard.get lifetime now key).2 := by
  intro k slot h
  rw [find?_get] at h
  split at h
  · exact Or.inl (Option.filter_eq_some_iff.mp h).1
  · exact Or.inl h

theorem adds_put (value : Octets) :
    Adds (some (key, ⟨value, now⟩)) shard (shard.put lifetime now key value) := by
  intro k slot h
  rcases of_find?_put h with ⟨rfl, rfl⟩ | ⟨hold, -⟩
  · exact Or.inr rfl
  · exact Or.inl hold

theorem adds_invalidate : Adds none shard (shard.invalidate lifetime now key).2 := by
  intro k slot h
  rw [find?_invalidate] at h
  split at h
  · cases h
  · exact Or.inl h

theorem adds_invalidateIf (expected : Octets) :
    Adds none shard (shard.invalidateIf key expected).2 := by
  intro k slot h
  rw [find?_invalidateIf] at h
  split at h
  · exact Or.inl (Option.filter_eq_some_iff.mp h).1
  · exact Or.inl h

theorem fst_invalidateIf_eq (expected : Octets) :
    (shard.invalidateIf key expected).1 =
      decide ((shard.slots.find? key).map Slot.value = some expected) := by
  rw [invalidateIf]
  cases shard.slots.find? key with
  | none => rfl
  | some slot => by_cases hv : slot.value = expected <;> simp [hv]

theorem find?_replaceIf (expected value k : Octets) :
    (shard.replaceIf lifetime now key expected value).2.slots.find? k =
      if k = key ∧ (shard.liveSlot? lifetime now key).map Slot.value = some expected then
        some ⟨value, now⟩
      else shard.slots.find? k := by
  rw [replaceIf, liveSlot?]
  cases hfind : shard.slots.find? key with
  | none => simp
  | some slot =>
    cases he : slot.expired lifetime now with
    | true => simp [unexpired, Option.filter, he]
    | false =>
      by_cases hv : slot.value = expected <;> by_cases hk : k = key <;>
        simp [unexpired, Option.filter, he, hv, hk, SortedMap.find?_insert]

theorem adds_replaceIf (expected value : Octets) :
    Adds (some (key, ⟨value, now⟩)) shard
      (shard.replaceIf lifetime now key expected value).2 := by
  intro k slot h
  rw [find?_replaceIf] at h
  split at h
  · next hwritten =>
    cases h
    exact Or.inr (by rw [hwritten.1])
  · exact Or.inl h

end Shard

namespace Store

variable (store : Store)

theorem liveSlot?_eq_some_iff {key : Octets} {slot : Slot} :
    store.liveSlot? key = some slot ↔
      store.slot? key = some slot ∧ slot.expired store.lifetime store.now = false :=
  unexpired_eq_some_iff

theorem slot?_create (lifetimeMilliseconds : Int) (shardCount : Nat) (clock : Clock)
    (hash : Octets → Nat) (key : Octets) :
    (create lifetimeMilliseconds shardCount clock hash).slot? key = none := by
  have hempty : (create lifetimeMilliseconds shardCount clock hash).shardOf key = {} := by
    simp [shardOf, create]
  rw [slot?, hempty]
  rfl

theorem slot?_withShard (key : Octets) (shard : Shard) (k : Octets) :
    (store.withShard key shard).slot? k =
      if store.indexOf k = store.indexOf key then shard.slots.find? k else store.slot? k := by
  rw [slot?, shardOf_withShard]
  split <;> rfl

theorem slot?_withShard_of_update {key : Octets} {shard : Shard} {new : Option Slot}
    (h : ∀ k, shard.slots.find? k =
      if k = key then new else (store.shardOf key).slots.find? k) (k : Octets) :
    (store.withShard key shard).slot? k = if k = key then new else store.slot? k := by
  rw [slot?_withShard]
  by_cases hi : store.indexOf k = store.indexOf key
  · rw [if_pos hi, h, slot?, store.shardOf_of_indexOf_eq hi]
  · have hk : k ≠ key := fun heq => hi (by rw [heq])
    rw [if_neg hi, if_neg hk]

theorem slot?_replaceIf (key expected value k : Octets) :
    (store.replaceIf key expected value).2.slot? k =
      if k = key then
        if (store.tick.liveSlot? key).map Slot.value = some expected then
          some ⟨value, store.tick.now⟩
        else store.slot? key
      else store.slot? k := by
  refine store.tick.slot?_withShard_of_update ?_ k
  intro k'
  rw [Shard.find?_replaceIf]
  by_cases hk : k' = key
  · simp only [hk, true_and, if_true]
    rfl
  · simp only [hk, false_and, if_false]

theorem slot?_invalidateIf (key expected k : Octets) :
    (store.invalidateIf key expected).2.slot? k =
      if k = key then (store.slot? key).filter (·.value ≠ expected) else store.slot? k := by
  refine store.slot?_withShard_of_update ?_ k
  intro k'
  rw [Shard.find?_invalidateIf]
  split
  · next hk => rw [hk]; rfl
  · rfl

theorem slot?_invalidate (key k : Octets) :
    (store.invalidate key).2.slot? k = if k = key then none else store.slot? k :=
  store.tick.slot?_withShard_of_update (Shard.find?_invalidate _ _ _ key) k

theorem slot?_get (key k : Octets) :
    (store.get key).2.slot? k =
      if k = key then store.tick.liveSlot? key else store.slot? k := by
  refine store.tick.slot?_withShard_of_update ?_ k
  intro k'
  rw [Shard.find?_get]
  split
  · next hk => rw [hk]; rfl
  · rfl

theorem fst_invalidateIf_eq (key expected : Octets) :
    (store.invalidateIf key expected).1 =
      decide ((store.slot? key).map Slot.value = some expected) :=
  Shard.fst_invalidateIf_eq _ key expected

variable {store}

theorem Placed.slot?_of_shard (h : store.Placed) {shard : Shard} (hshard : shard ∈ store.shards)
    {key : Octets} {slot : Slot} (hslot : shard.slots.find? key = some slot) :
    store.slot? key = some slot := by
  obtain ⟨i, hi, rfl⟩ := List.mem_iff_getElem.mp hshard
  have hindex := h i hi key (by rw [hslot]; rfl)
  simp only [slot?, shardOf, hindex, List.get_eq_getElem]
  exact hslot

theorem of_slot?_withShard (store : Store) {key : Octets} {shard : Shard}
    {written : Option (Octets × Slot)} (h : Shard.Adds written (store.shardOf key) shard)
    {k : Octets} {slot : Slot}
    (hslot : (store.withShard key shard).slot? k = some slot) :
    store.slot? k = some slot ∨ written = some (k, slot) := by
  rw [slot?_withShard] at hslot
  split at hslot
  · next hi =>
    rw [slot?, store.shardOf_of_indexOf_eq hi]
    exact h k slot hslot
  · exact Or.inl hslot

theorem slot?_invalidateAll (store : Store) (keys : List Octets) (k : Octets) :
    (store.invalidateAll keys).2.slot? k = if k ∈ keys then none else store.slot? k := by
  induction keys generalizing store with
  | nil => simp [invalidateAll]
  | cons key keys ih =>
    refine (ih (store.invalidate key).2).trans ?_
    rw [slot?_invalidate]
    by_cases hk : k = key <;> simp [hk]

theorem slot?_of_invalidateAll {keys : List Octets} {k : Octets} {slot : Slot}
    (h : (store.invalidateAll keys).2.slot? k = some slot) : store.slot? k = some slot := by
  rw [slot?_invalidateAll] at h
  split at h
  · cases h
  · exact h

/-- A slot was held before a request, or the request has written it, at the time it read. -/
theorem of_slot?_serve {request : Request} {key : Octets} {slot : Slot}
    (h : (store.serve request).2.slot? key = some slot) :
    store.slot? key = some slot ∨
      (request.written? = some (key, slot.value) ∧
        slot.writtenAt = (store.serve request).2.now) := by
  have hnothing : ∀ {k : Octets} {shard : Shard}, Shard.Adds none (store.shardOf k) shard →
      (store.tick.withShard k shard).slot? key = some slot → store.slot? key = some slot := by
    intro k shard hadds hslot
    rcases of_slot?_withShard store.tick hadds hslot with hheld | hwritten
    · exact hheld
    · cases hwritten
  cases request with
  | get k => exact Or.inl (hnothing (Shard.adds_get _ _ _ k) h)
  | put k value =>
    have hadds := Shard.adds_put (store.tick.shardOf k) store.lifetime store.tick.now k value
    rcases of_slot?_withShard store.tick hadds h with hheld | hwritten
    · exact Or.inl hheld
    · cases hwritten
      exact Or.inr ⟨rfl, rfl⟩
  | invalidate k => exact Or.inl (hnothing (Shard.adds_invalidate _ _ _ k) h)
  | invalidateIf k expected =>
    rcases of_slot?_withShard store (Shard.adds_invalidateIf (store.shardOf k) k expected) h with
      hheld | hwritten
    · exact Or.inl hheld
    · cases hwritten
  | replaceIf k expected value =>
    have hadds := Shard.adds_replaceIf (store.tick.shardOf k) store.lifetime store.tick.now k
      expected value
    rcases of_slot?_withShard store.tick hadds h with hheld | hwritten
    · exact Or.inl hheld
    · cases hwritten
      exact Or.inr ⟨rfl, rfl⟩
  | invalidateAll keys => exact Or.inl (slot?_of_invalidateAll h)
  | snapshot => exact Or.inl h
  | purge =>
    have hpurged : store.purge.2.slot? key = some slot := h
    rw [slot?, shardOf_purge] at hpurged
    rcases Shard.adds_sweep _ _ _ key slot hpurged with hheld | hwritten
    · exact Or.inl hheld
    · cases hwritten
  | advance nanoseconds => exact Or.inl h

theorem now_le_serve {request : Request} (h : request.Forward) (store : Store) :
    store.now ≤ (store.serve request).2.now := by
  cases request with
  | invalidateIf key expected => exact Int.le_refl _
  | invalidateAll keys => exact store.now_le_invalidateAll keys
  | advance nanoseconds =>
    have hadvance : 0 ≤ nanoseconds := h
    simp only [serve, advance, now, Clock.advance]
    omega
  | _ => exact store.now_le_tick

theorem now_le_serveAll {requests : List Request} (h : ∀ request ∈ requests, request.Forward)
    (store : Store) : store.now ≤ (store.serveAll requests).now := by
  induction requests generalizing store with
  | nil => exact Int.le_refl _
  | cons request requests ih =>
    have hfirst := now_le_serve (h request List.mem_cons_self) store
    have hrest := ih (fun r hr => h r (List.mem_cons_of_mem _ hr)) (store.serve request).2
    exact Int.le_trans hfirst hrest

theorem lifetime_invalidateAll (store : Store) (keys : List Octets) :
    (store.invalidateAll keys).2.lifetime = store.lifetime := by
  induction keys generalizing store with
  | nil => rfl
  | cons key keys ih => exact ih (store.invalidate key).2

theorem lifetime_serve (store : Store) (request : Request) :
    (store.serve request).2.lifetime = store.lifetime := by
  cases request with
  | invalidateAll keys => exact store.lifetime_invalidateAll keys
  | _ => rfl

theorem lifetime_serveAll (store : Store) (requests : List Request) :
    (store.serveAll requests).lifetime = store.lifetime := by
  induction requests generalizing store with
  | nil => rfl
  | cons request requests ih => exact (ih _).trans (store.lifetime_serve request)

/-- One of a row of requests has written the slot: it asked for the value, and right after it the
slot is there, with the time then read. -/
def WrittenAmong (store : Store) (requests : List Request) (key : Octets) (slot : Slot) : Prop :=
  ∃ before request after, requests = before ++ request :: after ∧
    request.written? = some (key, slot.value) ∧
    ((store.serveAll before).serve request).2.slot? key = some slot ∧
    slot.writtenAt = ((store.serveAll before).serve request).2.now

theorem of_slot?_serveAll {requests : List Request} {key : Octets} {slot : Slot}
    (h : (store.serveAll requests).slot? key = some slot) :
    store.slot? key = some slot ∨ store.WrittenAmong requests key slot := by
  induction requests generalizing store with
  | nil => exact Or.inl h
  | cons request requests ih =>
    rcases ih h with hheld | ⟨before, later, after, rfl, hasked, hslot, htime⟩
    · rcases of_slot?_serve hheld with hbefore | ⟨hasked, htime⟩
      · exact Or.inl hbefore
      · exact Or.inr ⟨[], request, requests, rfl, hasked, hheld, htime⟩
    · exact Or.inr ⟨request :: before, later, after, rfl, hasked, hslot, htime⟩

/-- Every slot held, live or expired, is as `good` says. -/
def AllHeld (store : Store) (good : Octets → Octets → Prop) : Prop :=
  ∀ key slot, store.slot? key = some slot → good key slot.value

variable {good : Octets → Octets → Prop}

theorem allHeld_create (lifetimeMilliseconds : Int) (shardCount : Nat) (clock : Clock)
    (hash : Octets → Nat) (good : Octets → Octets → Prop) :
    (create lifetimeMilliseconds shardCount clock hash).AllHeld good := by
  intro key slot hslot
  rw [slot?_create] at hslot
  cases hslot

theorem AllHeld.serve (h : store.AllHeld good) {request : Request} (hw : request.Writes good) :
    (store.serve request).2.AllHeld good := by
  intro key slot hslot
  rcases of_slot?_serve hslot with hheld | ⟨hwritten, -⟩
  · exact h key slot hheld
  · exact hw.good key slot.value hwritten

theorem AllHeld.allLive (h : store.AllHeld good) : store.AllLive good :=
  fun key slot hslot => h key slot ((liveSlot?_eq_some_iff store).mp hslot).1

theorem Traffic.allHeld {a b : Store} (h : Traffic (Request.Writes good) a b)
    (ha : a.AllHeld good) : b.AllHeld good := by
  obtain ⟨requests, hall, rfl⟩ := h
  induction requests generalizing a with
  | nil => exact ha
  | cons request requests ih =>
    have hrest := fun r hr => hall r (List.mem_cons_of_mem _ hr)
    exact ih (ha.serve (hall request List.mem_cons_self)) hrest

end Store

end DetectorCache
