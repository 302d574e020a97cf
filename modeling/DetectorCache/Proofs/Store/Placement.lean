import DetectorCache.Proofs.Store.Live

set_option autoImplicit false

namespace DetectorCache

namespace Shard

/-- The shard holds no key but `key` that the one before did not hold. -/
def GrowsBy (key : Octets) (before after : Shard) : Prop :=
  ∀ k, (after.slots.find? k).isSome → k = key ∨ (before.slots.find? k).isSome

variable (shard : Shard) (lifetime now : Int) (key : Octets)

theorem isSome_of_isSome_sweep {k : Octets}
    (h : ((shard.sweep lifetime now).2.slots.find? k).isSome) :
    (shard.slots.find? k).isSome := by
  rw [find?_sweep] at h
  cases hk : shard.slots.find? k with
  | none => simp [hk] at h
  | some slot => rfl

theorem growsBy_get : GrowsBy key shard (shard.get lifetime now key).2 := by
  intro k h
  by_cases hk : k = key
  · exact Or.inl hk
  · rw [find?_get, if_neg hk] at h
    exact Or.inr h

theorem growsBy_put (value : Octets) : GrowsBy key shard (shard.put lifetime now key value) := by
  have hinsert : ∀ k, ((shard.slots.insert key ⟨value, now⟩).find? k).isSome →
      k = key ∨ (shard.slots.find? k).isSome := by
    intro k h
    by_cases hk : k = key
    · exact Or.inl hk
    · rw [SortedMap.find?_insert, if_neg hk] at h
      exact Or.inr h
  intro k h
  rw [put] at h
  split at h
  · exact hinsert k (isSome_of_isSome_sweep _ lifetime now h)
  · exact hinsert k h

theorem growsBy_invalidate : GrowsBy key shard (shard.invalidate lifetime now key).2 := by
  intro k h
  by_cases hk : k = key
  · exact Or.inl hk
  · rw [find?_invalidate, if_neg hk] at h
    exact Or.inr h

theorem growsBy_invalidateIf (expected : Octets) :
    GrowsBy key shard (shard.invalidateIf key expected).2 := by
  intro k h
  by_cases hk : k = key
  · exact Or.inl hk
  · rw [find?_invalidateIf, if_neg hk] at h
    exact Or.inr h

theorem growsBy_replaceIf (expected value : Octets) :
    GrowsBy key shard (shard.replaceIf lifetime now key expected value).2 := by
  intro k h
  by_cases hk : k = key
  · exact Or.inl hk
  · rw [replaceIf] at h
    split at h
    · exact Or.inr h
    · split at h
      · exact Or.inr h
      · rw [SortedMap.find?_insert, if_neg hk] at h
        exact Or.inr h

theorem mem_live {k value : Octets} :
    (k, value) ∈ shard.live lifetime now ↔
      ∃ slot, shard.liveSlot? lifetime now k = some slot ∧ slot.value = value := by
  simp only [live, List.mem_map, List.mem_filter, liveSlot?, unexpired_eq_some_iff,
    SortedMap.find?_eq_some_iff, Prod.mk.injEq, Bool.not_eq_eq_eq_not, Bool.not_true]
  constructor
  · intro hgiven
    obtain ⟨⟨k', slot⟩, ⟨hmem, he⟩, rfl, rfl⟩ := hgiven
    exact ⟨slot, ⟨hmem, he⟩, rfl⟩
  · intro hgiven
    obtain ⟨slot, ⟨hmem, he⟩, rfl⟩ := hgiven
    exact ⟨(k, slot), ⟨hmem, he⟩, rfl, rfl⟩

end Shard

namespace Store

/-- Every shard holds only keys that fall to it. -/
def Placed (store : Store) : Prop :=
  ∀ i (h : i < store.shards.length) key,
    (store.shards[i].slots.find? key).isSome → store.indexOf key = i

theorem placed_create (lifetimeMilliseconds : Int) (shardCount : Nat) (clock : Clock)
    (hash : Octets → Nat) : (create lifetimeMilliseconds shardCount clock hash).Placed := by
  intro i h key hkey
  simp [create] at hkey

variable {store : Store}

theorem Placed.tick (h : store.Placed) : store.tick.Placed := h

theorem Placed.withShard (h : store.Placed) {key : Octets} {shard : Shard}
    (hs : Shard.GrowsBy key (store.shardOf key) shard) : (store.withShard key shard).Placed := by
  intro i hi k hk
  rw [indexOf_withShard]
  have hi' : i < store.shards.length := by simpa [Store.withShard] using hi
  simp only [Store.withShard, List.getElem_set] at hk
  split at hk
  · next hkey =>
    rcases hs k hk with rfl | hold
    · exact hkey
    · rw [← hkey]
      exact h _ (store.indexOf_lt key) k hold
  · exact h i hi' k hk

theorem Placed.get (h : store.Placed) (key : Octets) : (store.get key).2.Placed :=
  h.tick.withShard (Shard.growsBy_get _ _ _ key)

theorem Placed.put (h : store.Placed) (key value : Octets) : (store.put key value).Placed :=
  h.tick.withShard (Shard.growsBy_put _ _ _ key value)

theorem Placed.invalidate (h : store.Placed) (key : Octets) : (store.invalidate key).2.Placed :=
  h.tick.withShard (Shard.growsBy_invalidate _ _ _ key)

theorem Placed.invalidateIf (h : store.Placed) (key expected : Octets) :
    (store.invalidateIf key expected).2.Placed :=
  h.withShard (Shard.growsBy_invalidateIf _ key expected)

theorem Placed.replaceIf (h : store.Placed) (key expected value : Octets) :
    (store.replaceIf key expected value).2.Placed :=
  h.tick.withShard (Shard.growsBy_replaceIf _ _ _ key expected value)

theorem Placed.invalidateAll (h : store.Placed) (keys : List Octets) :
    (store.invalidateAll keys).2.Placed := by
  induction keys generalizing store with
  | nil => exact h
  | cons key keys ih => exact ih (h.invalidate key)

theorem Placed.purge (h : store.Placed) : store.purge.2.Placed := by
  intro i hi key hkey
  have hi' : i < store.shards.length := by simpa [Store.purge, Store.tick] using hi
  have hswept :
      ((store.shards[i].sweep store.lifetime store.tick.now).2.slots.find? key).isSome := by
    simpa [Store.purge, Store.tick] using hkey
  have hindex : store.purge.2.indexOf key = store.indexOf key := by
    simp [indexOf, Store.purge, Store.tick]
  rw [hindex]
  exact h i hi' key (Shard.isSome_of_isSome_sweep _ _ _ hswept)

theorem Placed.liveSlot?_of_shard (h : store.Placed) {i : Nat} (hi : i < store.shards.length)
    {key : Octets} {slot : Slot}
    (hs : store.shards[i].liveSlot? store.lifetime store.now key = some slot) :
    store.liveSlot? key = some slot := by
  have hfind := (unexpired_eq_some_iff.mp hs).1
  have hindex := h i hi key (by rw [hfind]; rfl)
  have hshard : store.shardOf key = store.shards[i] := by
    simp only [shardOf, hindex, List.get_eq_getElem]
  rw [liveSlot?, hshard]
  exact hs

theorem Placed.mem_flatMap_live (h : store.Placed) {key value : Octets} :
    (key, value) ∈ store.shards.flatMap (·.live store.lifetime store.now) ↔
      ∃ slot, store.liveSlot? key = some slot ∧ slot.value = value := by
  simp only [List.mem_flatMap, Shard.mem_live]
  constructor
  · intro hgiven
    obtain ⟨shard, hmem, slot, hslot, rfl⟩ := hgiven
    obtain ⟨i, hi, rfl⟩ := List.mem_iff_getElem.mp hmem
    exact ⟨slot, h.liveSlot?_of_shard hi hslot, rfl⟩
  · intro hgiven
    obtain ⟨slot, hslot, rfl⟩ := hgiven
    exact ⟨store.shardOf key, List.get_mem _ _, slot, hslot, rfl⟩

/-- A snapshot lists what readers can see. -/
theorem Placed.mem_liveEntries (h : store.Placed) {key value : Octets} :
    (key, value) ∈ store.liveEntries ↔
      ∃ slot, store.liveSlot? key = some slot ∧ slot.value = value := by
  -- one key is live in one shard only, so collecting by key loses nothing
  refine (SortedMap.mem_entries_ofList ?_).trans h.mem_flatMap_live
  intro v v' hv hv'
  obtain ⟨slot, hslot, rfl⟩ := h.mem_flatMap_live.mp hv
  obtain ⟨slot', hslot', rfl⟩ := h.mem_flatMap_live.mp hv'
  rw [hslot] at hslot'
  cases hslot'
  rfl

theorem Placed.mem_keys_liveEntries (h : store.Placed) {key : Octets} :
    key ∈ store.liveEntries.map Prod.fst ↔ (store.liveSlot? key).isSome := by
  rw [Option.isSome_iff_exists, List.mem_map]
  constructor
  · intro hgiven
    obtain ⟨⟨k, value⟩, hmem, rfl⟩ := hgiven
    obtain ⟨slot, hlive, -⟩ := h.mem_liveEntries.mp hmem
    exact ⟨slot, hlive⟩
  · intro hgiven
    obtain ⟨slot, hlive⟩ := hgiven
    exact ⟨(key, slot.value), h.mem_liveEntries.mpr ⟨slot, hlive, rfl⟩, rfl⟩

end Store

end DetectorCache
