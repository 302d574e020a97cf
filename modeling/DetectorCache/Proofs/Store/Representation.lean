import DetectorCache.Proofs.Store.Slots
import DetectorCache.Proofs.StoredIds.RoundTrip
/-!
How a store is kept, and what its counts mean. Whatever requests it has served, it holds every key
at most once, in the shard that the hash selects, and every shard has recorded how many slots it
holds. So the size is the number of slots; a snapshot lists the live ones of them, a purge removes
and counts the expired ones, and a removal of several keys counts those that it found live.
-/
set_option autoImplicit false

namespace DetectorCache

theorem countP_flatMap_eq_total {α β : Type} (flag : β → Bool) (f : α → List β)
    (items : List α) :
    (items.flatMap f).countP flag = total (items.map fun item => (f item).countP flag) := by
  induction items with
  | nil => rfl
  | cons item items ih => rw [List.flatMap_cons, List.countP_append, ih, List.map_cons, total]

theorem countP_add_countP_not {α : Type} (flag : α → Bool) (items : List α) :
    items.countP flag + items.countP (fun item => !flag item) = items.length := by
  rw [List.length_eq_countP_add_countP flag]
  simp only [Bool.not_eq_true, Bool.decide_eq_false]

/-- The clock after some more readings. -/
def Clock.after (clock : Clock) : Nat → Clock
  | 0 => clock
  | readings + 1 => clock.read.after readings

theorem Clock.now_after {clock : Clock} (h : ∀ n, clock.drift n = 0) (readings : Nat) :
    (clock.after readings).now = clock.now := by
  induction readings generalizing clock with
  | zero => rfl
  | succ readings ih =>
    have hread : clock.read.now = clock.now := by simp [read, h]
    exact (@ih clock.read h).trans hread

namespace Shard

variable (shard : Shard) (lifetime now : Int)

theorem fst_sweep :
    (shard.sweep lifetime now).1 =
      shard.slots.entries.countP fun e => e.2.expired lifetime now := by
  have hsplit := countP_add_countP_not (fun e => e.2.expired lifetime now) shard.slots.entries
  simp only [sweep, SortedMap.size, SortedMap.filter, ← List.countP_eq_length_filter]
  omega

end Shard

namespace Store

/-- The slots of all shards, one shard after another. A key that two shards held would be listed
twice. -/
def slots (store : Store) : List (Octets × Slot) :=
  store.shards.flatMap fun shard => shard.slots.entries

/-- How many slots have expired at the time last read. -/
def expiredCount (store : Store) : Nat :=
  store.slots.countP fun e => e.2.expired store.lifetime store.now

theorem hash_invalidateAll (store : Store) (keys : List Octets) :
    (store.invalidateAll keys).2.hash = store.hash := by
  induction keys generalizing store with
  | nil => rfl
  | cons key keys ih => exact ih (store.invalidate key).2

theorem hash_serve (store : Store) (request : Request) :
    (store.serve request).2.hash = store.hash := by
  cases request with
  | invalidateAll keys => exact store.hash_invalidateAll keys
  | _ => rfl

theorem shardCount_withShard (store : Store) (key : Octets) (shard : Shard) :
    (store.withShard key shard).shardCount = store.shardCount := List.length_set

theorem shardCount_invalidateAll (store : Store) (keys : List Octets) :
    (store.invalidateAll keys).2.shardCount = store.shardCount := by
  induction keys generalizing store with
  | nil => rfl
  | cons key keys ih =>
    exact (ih (store.invalidate key).2).trans (store.tick.shardCount_withShard key _)

theorem shardCount_serve (store : Store) (request : Request) :
    (store.serve request).2.shardCount = store.shardCount := by
  cases request with
  | get key => exact store.tick.shardCount_withShard key _
  | put key value => exact store.tick.shardCount_withShard key _
  | invalidate key => exact store.tick.shardCount_withShard key _
  | invalidateIf key expected => exact store.shardCount_withShard key _
  | replaceIf key expected value => exact store.tick.shardCount_withShard key _
  | invalidateAll keys => exact store.shardCount_invalidateAll keys
  | snapshot => rfl
  | purge => simp [serve, purge, shardCount, tick]
  | advance nanoseconds => rfl

/-- The invariant of a store: its hash and the number of its shards stay, a key is held only in the
shard that the hash selects, and every shard has recorded the number of its slots. -/
structure Represents (hash : Octets → Nat) (count : Nat) (store : Store) : Prop where
  hash_eq : store.hash = hash
  shardCount_eq : store.shardCount = count
  placed : store.Placed
  recorded : store.Recorded

variable {store : Store} {hash : Octets → Nat} {count : Nat}

theorem represents_create (lifetimeMilliseconds : Int) (shardCount : Nat) (clock : Clock)
    (hash : Octets → Nat) :
    Represents hash (max shardCount 1) (create lifetimeMilliseconds shardCount clock hash) where
  hash_eq := rfl
  shardCount_eq := by simp [create, Store.shardCount]
  placed := placed_create _ _ _ _
  recorded := recorded_create _ _ _ _

theorem Represents.serve (h : Represents hash count store) (request : Request) :
    Represents hash count (store.serve request).2 where
  hash_eq := (store.hash_serve request).trans h.hash_eq
  shardCount_eq := (store.shardCount_serve request).trans h.shardCount_eq
  placed := h.placed.serve request
  recorded := h.recorded.serve request

theorem Represents.serveAll (h : Represents hash count store) (requests : List Request) :
    Represents hash count (store.serveAll requests) := by
  induction requests generalizing store with
  | nil => exact h
  | cons request requests ih => exact ih (h.serve request)

theorem Placed.indexOf_of_mem_keys (h : store.Placed) {i : Nat} (hi : i < store.shards.length)
    {key : Octets} (hkey : key ∈ store.shards[i].slots.keys) : store.indexOf key = i := by
  obtain ⟨⟨k, slot⟩, hmem, rfl⟩ := List.mem_map.mp hkey
  refine h i hi k ?_
  rw [(SortedMap.find?_eq_some_iff _ k slot).mpr hmem]
  rfl

theorem Represents.selects (h : Represents hash count store) {i : Nat}
    (hi : i < store.shards.length) {key : Octets} (hkey : key ∈ store.shards[i].slots.keys) :
    hash key % count = i := by
  have hindex := h.placed.indexOf_of_mem_keys hi hkey
  rw [← h.hash_eq, ← h.shardCount_eq]
  exact hindex

theorem Placed.nodup_keys_slots (h : store.Placed) : (store.slots.map Prod.fst).Nodup := by
  rw [slots, List.map_flatMap, List.Nodup, List.pairwise_flatMap]
  refine ⟨fun shard _ => shard.slots.increasing.nodup_keys, ?_⟩
  rw [List.pairwise_iff_getElem]
  intro i j hi hj hlt a ha b hb heq
  -- a key of two shards would fall to both
  have hai := h.indexOf_of_mem_keys hi ha
  have hbj := h.indexOf_of_mem_keys hj hb
  rw [heq, hbj] at hai
  omega

theorem length_slots (store : Store) : store.slots.length = store.held := by
  rw [slots, held, ← List.countP_true, countP_flatMap_eq_total]
  simp only [List.countP_true]
  rfl

theorem flatMap_live (store : Store) :
    store.shards.flatMap (·.live store.lifetime store.now) =
      (store.slots.filter fun e => !e.2.expired store.lifetime store.now).map
        fun e => (e.1, e.2.value) := by
  rw [slots, List.filter_flatMap, List.map_flatMap]
  rfl

/-- Collecting the live entries by key leaves none of them out and puts none of them together. -/
theorem Placed.liveEntries_perm (h : store.Placed) :
    store.liveEntries.Perm (store.shards.flatMap (·.live store.lifetime store.now)) := by
  have hne : ∀ {entries : List Entry}, (entries.map Prod.fst).Nodup → entries.Nodup := by
    intro entries hkeys
    exact (List.pairwise_map.mp hkeys).imp fun hdiffer heq => hdiffer (congrArg Prod.fst heq)
  have hcollected : (store.liveEntries.map Prod.fst).Nodup :=
    (SortedMap.ofList _).increasing.nodup_keys
  have hlisted :
      ((store.shards.flatMap (·.live store.lifetime store.now)).map Prod.fst).Nodup := by
    rw [flatMap_live, List.map_map]
    exact h.nodup_keys_slots.sublist (List.filter_sublist.map Prod.fst)
  refine (List.perm_ext_iff_of_nodup (hne hcollected) (hne hlisted)).mpr ?_
  rintro ⟨key, value⟩
  rw [h.mem_liveEntries, h.mem_flatMap_live]

theorem Placed.length_liveEntries_add (h : store.Placed) :
    store.liveEntries.length + store.expiredCount = store.slots.length := by
  rw [h.liveEntries_perm.length_eq, flatMap_live, List.length_map, ← List.countP_eq_length_filter,
    expiredCount, Nat.add_comm]
  exact countP_add_countP_not _ store.slots

theorem fst_purge (store : Store) : store.purge.1 = store.tick.expiredCount := by
  simp only [purge, expiredCount, slots, List.map_map, countP_flatMap_eq_total]
  refine congrArg total (List.map_congr_left fun shard _ => ?_)
  exact shard.fst_sweep _ _

theorem slots_purge (store : Store) :
    store.purge.2.slots =
      store.slots.filter fun e => !e.2.expired store.lifetime store.tick.now := by
  simp only [purge, slots, List.flatMap_map, List.filter_flatMap]
  rfl

theorem expiredCount_purge (store : Store) : store.purge.2.expiredCount = 0 := by
  rw [expiredCount, slots_purge, List.countP_filter, List.countP_eq_zero]
  intro e _
  have hnow : store.purge.2.now = store.tick.now := rfl
  have hlifetime : store.purge.2.lifetime = store.lifetime := rfl
  simp [hnow, hlifetime]

/-- Whether a key is live when the clock has been read some more times. -/
def liveAfter (store : Store) (readings : Nat) (key : Octets) : Bool :=
  (unexpired store.lifetime (store.clock.after readings).now (store.slot? key)).isSome

theorem liveAfter_invalidate (store : Store) (key : Octets) (readings : Nat) {k : Octets} :
    (store.invalidate key).2.liveAfter readings k =
      (!(k == key) && store.liveAfter (readings + 1) k) := by
  have hview : (store.invalidate key).2.liveAfter readings k =
      (unexpired store.lifetime (store.clock.after (readings + 1)).now
        ((store.invalidate key).2.slot? k)).isSome := rfl
  rw [hview, slot?_invalidate]
  by_cases hk : k = key
  · simp [hk]
  · simp [hk, liveAfter]

theorem fst_invalidateAll (store : Store) (keys : List Octets) :
    (store.invalidateAll keys).1 =
      keys.eraseDups.countP fun key => store.liveAfter (keys.idxOf key + 1) key := by
  induction keys generalizing store with
  | nil => rfl
  | cons key keys ih =>
    have hfirst : (store.invalidate key).1 = store.liveAfter 1 key := store.fst_invalidate key
    -- the others are read one reading later, and the key is found again by none of its repetitions
    rw [invalidateAll, hfirst, ih (store.invalidate key).2, List.eraseDups_cons,
      Octets.eraseDups_filter, List.countP_cons, List.countP_filter, List.idxOf_cons_self,
      Nat.add_comm]
    refine congr (congrArg _ (List.countP_congr fun k _ => ?_)) ?_
    · rw [liveAfter_invalidate]
      by_cases hk : k = key
      · simp [hk]
      · rw [Octets.idxOf_cons_of_ne hk, Bool.and_comm]
    · cases store.liveAfter 1 key <;> rfl

theorem liveAfter_of_standing (h : ∀ n, store.clock.drift n = 0) (readings : Nat) (key : Octets) :
    store.liveAfter readings key = (store.liveSlot? key).isSome := by
  rw [liveAfter, Clock.now_after h]
  rfl

/-- A store is kept as it should be, whatever it has served: every key in one slot of one shard,
that of its hash, and every size recorded, so that the size of the store is the number of its slots.
A snapshot then lists the live entries of all shards, each once, and the slots that have expired
make up the rest of the size. A purge counts exactly these and removes them, so that the size is the
number of live entries at that time. A removal of several keys counts each that is live when its
turn first comes; on a clock that stands these are the ones live before. -/
theorem representation_kept (lifetimeMilliseconds : Int) (shardCount : Nat) (clock : Clock)
    (hash : Octets → Nat) (requests : List Request) :
    let store := (create lifetimeMilliseconds shardCount clock hash).serveAll requests
    (store.shards.length = max shardCount 1 ∧
      (∀ i (h : i < store.shards.length), ∀ key ∈ store.shards[i].slots.keys,
        hash key % max shardCount 1 = i) ∧
      (store.slots.map Prod.fst).Nodup ∧
      (∀ shard ∈ store.shards, shard.recordedSize = shard.slots.size) ∧
      store.size = store.slots.length) ∧
    (store.snapshot.1.Perm
        (store.shards.flatMap (·.live store.lifetime store.tick.now)) ∧
      (store.snapshot.1.map Prod.fst).Nodup ∧
      store.snapshot.1.length ≤ store.size ∧
      store.snapshot.1.length + store.tick.expiredCount = store.size) ∧
    (store.purge.1 = store.tick.expiredCount ∧
      store.purge.2.size = store.purge.2.liveEntries.length ∧
      (store.purge.2.tick.now = store.purge.2.now →
        store.purge.2.size = store.purge.2.snapshot.1.length)) ∧
    ∀ keys,
      (store.invalidateAll keys).1 =
          (keys.eraseDups.countP fun key => store.liveAfter (keys.idxOf key + 1) key) ∧
        ((∀ n, store.clock.drift n = 0) →
          (store.invalidateAll keys).1 =
            keys.eraseDups.countP fun key => (store.liveSlot? key).isSome) := by
  intro store
  have hstore : Represents hash (max shardCount 1) store :=
    (represents_create lifetimeMilliseconds shardCount clock hash).serveAll requests
  have hpurged : Represents hash (max shardCount 1) store.purge.2 := hstore.serve .purge
  have hsize : store.size = store.slots.length := by
    rw [hstore.recorded.size_eq_held, length_slots]
  have hsnapshot : store.snapshot.1.length + store.tick.expiredCount = store.size :=
    hstore.placed.tick.length_liveEntries_add.trans hsize.symm
  have hleft : store.purge.2.size = store.purge.2.liveEntries.length := by
    rw [hpurged.recorded.size_eq_held, ← length_slots, ← hpurged.placed.length_liveEntries_add,
      expiredCount_purge, Nat.add_zero]
  refine ⟨⟨hstore.shardCount_eq, fun i hi key hkey => hstore.selects hi hkey,
      hstore.placed.nodup_keys_slots, hstore.recorded, hsize⟩,
    ⟨hstore.placed.tick.liveEntries_perm, (SortedMap.ofList _).increasing.nodup_keys, ?_,
      hsnapshot⟩,
    ⟨store.fst_purge, hleft, ?_⟩, fun keys => ⟨store.fst_invalidateAll keys, ?_⟩⟩
  · omega
  · intro hsame
    rw [hleft, snapshot, liveEntries, liveEntries, hsame]
    rfl
  · intro hstanding
    rw [fst_invalidateAll]
    refine List.countP_congr fun key _ => ?_
    rw [liveAfter_of_standing hstanding]

theorem representation_kept_of_four_keys :
    let key := fun letters => List.replicate letters (97 : UInt8)
    let store := (create 1 2 {} List.length).serveAll
      [.put (key 1) [], .put (key 2) [], .put (key 3) [], .advance 1000000, .put (key 4) [],
        .get (key 1)]
    store.size = 3 ∧ store.snapshot.1.map Prod.fst = [key 4] ∧ store.purge.1 = 2 ∧
      store.purge.2.size = store.purge.2.snapshot.1.length ∧
      (store.invalidateAll [key 4, key 2, key 5, key 4]).1 = 1 := by
  intro key store
  obtain ⟨⟨-, -, -, -, hsize⟩, -, ⟨hpurged, -, hleft⟩, hremoved⟩ :=
    representation_kept 1 2 {} List.length
      [.put (key 1) [], .put (key 2) [], .put (key 3) [], .advance 1000000, .put (key 4) [],
        .get (key 1)]
  refine ⟨hsize.trans ?_, ?_, hpurged.trans ?_, hleft rfl, ((hremoved _).2 fun _ => rfl).trans ?_⟩
  all_goals decide +kernel

end Store

end DetectorCache
