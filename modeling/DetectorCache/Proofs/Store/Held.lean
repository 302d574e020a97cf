import DetectorCache.Proofs.Store.Request

set_option autoImplicit false

namespace DetectorCache

theorem total_map_set {α : Type} (f : α → Nat) (items : List α) {i : Nat} (h : i < items.length)
    (item : α) :
    total ((items.set i item).map f) + f items[i] = total (items.map f) + f item := by
  induction items generalizing i with
  | nil => cases h
  | cons first rest ih =>
    cases i with
    | zero =>
      simp only [List.set_cons_zero, List.map_cons, total, List.getElem_cons_zero]
      omega
    | succ i =>
      have hrest := ih (Nat.lt_of_succ_lt_succ h)
      simp only [List.set_cons_succ, List.map_cons, total, List.getElem_cons_succ]
      omega

namespace Shard

def Recorded (shard : Shard) : Prop := shard.recordedSize = shard.slots.size

variable {shard : Shard} (lifetime now : Int) (key : Octets)

theorem recorded_withSlots (shard : Shard) (slots : SortedMap Slot) :
    (shard.withSlots slots).Recorded := rfl

theorem recorded_sweep (shard : Shard) : (shard.sweep lifetime now).2.Recorded := rfl

theorem recorded_put (shard : Shard) (value : Octets) :
    (shard.put lifetime now key value).Recorded := by
  rw [put]
  split
  · exact recorded_sweep lifetime now _
  · exact recorded_withSlots _ _

theorem Recorded.get (h : shard.Recorded) : (shard.get lifetime now key).2.Recorded := by
  rw [Shard.get]
  split
  · exact h
  · split
    · exact recorded_withSlots _ _
    · exact h

theorem Recorded.invalidate (h : shard.Recorded) :
    (shard.invalidate lifetime now key).2.Recorded := by
  rw [Shard.invalidate]
  split
  · exact h
  · exact recorded_withSlots _ _

theorem Recorded.invalidateIf (h : shard.Recorded) (expected : Octets) :
    (shard.invalidateIf key expected).2.Recorded := by
  rw [Shard.invalidateIf]
  split
  · exact h
  · split
    · exact recorded_withSlots _ _
    · exact h

/-- A conditional write goes to a slot that is there, so the number of slots stays. -/
theorem size_slots_replaceIf (shard : Shard) (expected value : Octets) :
    (shard.replaceIf lifetime now key expected value).2.slots.size = shard.slots.size := by
  rw [replaceIf]
  split
  · rfl
  · next slot hfind =>
    split
    · rfl
    · have hcontains : shard.slots.contains key = true := by rw [SortedMap.contains, hfind]; rfl
      rw [SortedMap.size_insert, if_pos hcontains]

theorem recordedSize_replaceIf (shard : Shard) (expected value : Octets) :
    (shard.replaceIf lifetime now key expected value).2.recordedSize = shard.recordedSize := by
  rw [replaceIf]
  split
  · rfl
  · split <;> rfl

theorem Recorded.replaceIf (h : shard.Recorded) (expected value : Octets) :
    (shard.replaceIf lifetime now key expected value).2.Recorded := by
  rw [Recorded, recordedSize_replaceIf, size_slots_replaceIf]
  exact h

theorem snd_invalidateIf {expected : Octets} (h : (shard.invalidateIf key expected).1 = false) :
    (shard.invalidateIf key expected).2 = shard := by
  rw [invalidateIf] at h ⊢
  cases hfind : shard.slots.find? key with
  | none => rfl
  | some slot =>
    simp only [hfind] at h ⊢
    split
    · next hvalue => simp [hvalue] at h
    · rfl

/-- Whether a read of a key finds a slot that has expired, which it drops. -/
def dropsOnRead (shard : Shard) (lifetime now : Int) (key : Octets) : Bool :=
  (shard.slots.find? key).any fun slot => slot.expired lifetime now

variable {lifetime now key}

theorem get_of_dropsOnRead (h : shard.dropsOnRead lifetime now key = true) :
    shard.get lifetime now key = (none, shard.withSlots (shard.slots.erase key)) := by
  rw [get]
  cases hfind : shard.slots.find? key with
  | none => rw [dropsOnRead, hfind] at h; cases h
  | some slot =>
    rw [dropsOnRead, hfind, Option.any_some] at h
    simp only [h, if_true]

theorem recordedSize_get_of_dropsOnRead (h : shard.dropsOnRead lifetime now key = true)
    (hrecorded : shard.Recorded) :
    (shard.get lifetime now key).2.recordedSize + 1 = shard.recordedSize := by
  rw [get_of_dropsOnRead h, hrecorded]
  rw [dropsOnRead] at h
  cases hfind : shard.slots.find? key with
  | none => rw [hfind] at h; cases h
  | some slot => exact SortedMap.size_erase hfind

theorem snd_get_of_not_dropsOnRead (h : shard.dropsOnRead lifetime now key = false) :
    (shard.get lifetime now key).2 = shard := by
  rw [get]
  cases hfind : shard.slots.find? key with
  | none => rfl
  | some slot =>
    rw [dropsOnRead, hfind, Option.any_some] at h
    simp only [h, Bool.false_eq_true, if_false]

end Shard

namespace Store

/-- The slot that is held for a key, live or expired. -/
def slot? (store : Store) (key : Octets) : Option Slot := (store.shardOf key).slots.find? key

def held (store : Store) : Nat := total (store.shards.map fun shard => shard.slots.size)

def Recorded (store : Store) : Prop := ∀ shard ∈ store.shards, shard.Recorded

variable {store : Store}

theorem Recorded.size_eq_held (h : store.Recorded) : store.size = store.held := by
  rw [size, held]
  exact congrArg total (List.map_congr_left h)

theorem Recorded.shardOf (h : store.Recorded) (key : Octets) : (store.shardOf key).Recorded :=
  h _ (List.get_mem _ _)

theorem size_create (lifetimeMilliseconds : Int) (shardCount : Nat) (clock : Clock)
    (hash : Octets → Nat) : (create lifetimeMilliseconds shardCount clock hash).size = 0 := by
  have hzero : ∀ count, total (List.replicate count 0) = 0 := by
    intro count
    induction count with
    | zero => rfl
    | succ count ih => rw [List.replicate_succ, total, ih]
  rw [size, create, List.map_replicate]
  exact hzero _

theorem recorded_create (lifetimeMilliseconds : Int) (shardCount : Nat) (clock : Clock)
    (hash : Octets → Nat) : (create lifetimeMilliseconds shardCount clock hash).Recorded := by
  intro shard hshard
  rw [List.eq_of_mem_replicate hshard]
  rfl

theorem Recorded.tick (h : store.Recorded) : store.tick.Recorded := h

theorem Recorded.withShard (h : store.Recorded) (key : Octets) {shard : Shard}
    (hshard : shard.Recorded) : (store.withShard key shard).Recorded := by
  intro s hs
  rcases List.mem_or_eq_of_mem_set hs with hold | rfl
  · exact h s hold
  · exact hshard

theorem Recorded.get (h : store.Recorded) (key : Octets) : (store.get key).2.Recorded :=
  h.tick.withShard key ((h.tick.shardOf key).get _ _ key)

theorem Recorded.put (h : store.Recorded) (key value : Octets) : (store.put key value).Recorded :=
  h.tick.withShard key (Shard.recorded_put _ _ key _ value)

theorem Recorded.invalidate (h : store.Recorded) (key : Octets) :
    (store.invalidate key).2.Recorded :=
  h.tick.withShard key ((h.tick.shardOf key).invalidate _ _ key)

theorem Recorded.invalidateIf (h : store.Recorded) (key expected : Octets) :
    (store.invalidateIf key expected).2.Recorded :=
  h.withShard key ((h.shardOf key).invalidateIf key expected)

theorem Recorded.replaceIf (h : store.Recorded) (key expected value : Octets) :
    (store.replaceIf key expected value).2.Recorded :=
  h.tick.withShard key ((h.tick.shardOf key).replaceIf _ _ key expected value)

theorem Recorded.invalidateAll (h : store.Recorded) (keys : List Octets) :
    (store.invalidateAll keys).2.Recorded := by
  induction keys generalizing store with
  | nil => exact h
  | cons key keys ih => exact ih (h.invalidate key)

theorem recorded_purge (store : Store) : store.purge.2.Recorded := by
  intro shard hshard
  obtain ⟨swept, hswept, rfl⟩ := List.mem_map.mp hshard
  obtain ⟨before, -, rfl⟩ := List.mem_map.mp hswept
  exact Shard.recorded_sweep _ _ before

theorem Recorded.serve (h : store.Recorded) (request : Request) :
    (store.serve request).2.Recorded := by
  cases request with
  | get key => exact h.get key
  | put key value => exact h.put key value
  | invalidate key => exact h.invalidate key
  | invalidateIf key expected => exact h.invalidateIf key expected
  | replaceIf key expected value => exact h.replaceIf key expected value
  | invalidateAll keys => exact h.invalidateAll keys
  | snapshot => exact h.tick
  | purge => exact store.recorded_purge
  | advance nanoseconds => exact h

theorem Recorded.serveAll (h : store.Recorded) (requests : List Request) :
    (store.serveAll requests).Recorded := by
  induction requests generalizing store with
  | nil => exact h
  | cons request requests ih => exact ih (h.serve request)

theorem Traffic.recorded {allowed : Request → Prop} {a b : Store} (h : Traffic allowed a b)
    (ha : a.Recorded) : b.Recorded := by
  obtain ⟨requests, -, rfl⟩ := h
  exact ha.serveAll requests

theorem size_withShard (store : Store) (key : Octets) (shard : Shard) :
    (store.withShard key shard).size + (store.shardOf key).recordedSize =
      store.size + shard.recordedSize :=
  total_map_set Shard.recordedSize store.shards (store.indexOf_lt key) shard

theorem size_withShard_of_eq {key : Octets} {shard : Shard}
    (h : shard.recordedSize = (store.shardOf key).recordedSize) :
    (store.withShard key shard).size = store.size := by
  have hsize := store.size_withShard key shard
  omega

theorem size_replaceIf (key expected value : Octets) :
    (store.replaceIf key expected value).2.size = store.size :=
  size_withShard_of_eq (Shard.recordedSize_replaceIf _ _ key _ expected value)

theorem size_invalidateIf {key expected : Octets}
    (h : (store.invalidateIf key expected).1 = false) :
    (store.invalidateIf key expected).2.size = store.size :=
  size_withShard_of_eq (congrArg Shard.recordedSize (Shard.snd_invalidateIf key h))

def dropsOnRead (store : Store) (key : Octets) : Bool :=
  (store.tick.shardOf key).dropsOnRead store.lifetime store.tick.now key

theorem size_get_of_dropsOnRead (hrecorded : store.Recorded) {key : Octets}
    (h : store.dropsOnRead key = true) : (store.get key).2.size + 1 = store.size := by
  have hshard := Shard.recordedSize_get_of_dropsOnRead h (hrecorded.tick.shardOf key)
  have hsize := store.tick.size_withShard key
    ((store.tick.shardOf key).get store.lifetime store.tick.now key).2
  have htick : store.tick.size = store.size := rfl
  have hget : (store.get key).2 = store.tick.withShard key
      ((store.tick.shardOf key).get store.lifetime store.tick.now key).2 := rfl
  rw [hget]
  omega

theorem fst_get_of_dropsOnRead {key : Octets} (h : store.dropsOnRead key = true) :
    (store.get key).1 = none :=
  congrArg Prod.fst (Shard.get_of_dropsOnRead h)

theorem size_get_of_not_dropsOnRead {key : Octets} (h : store.dropsOnRead key = false) :
    (store.get key).2.size = store.size :=
  size_withShard_of_eq (congrArg Shard.recordedSize (Shard.snd_get_of_not_dropsOnRead h))

end Store

end DetectorCache
