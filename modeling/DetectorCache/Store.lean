import DetectorCache.Clock
import DetectorCache.Store.Shard
import DetectorCache.Timestamp
/-!
A store of values that expire a fixed time after they were written. Keys are spread over shards by
a hash; every operation reads the clock once, and `get`, `put` and the rest touch the one shard
that a key falls to.
-/
set_option autoImplicit false

namespace DetectorCache

abbrev Entry := Octets × Octets

def fnv1a (key : Octets) : Nat :=
  (key.foldl (fun (h : UInt64) b => (h ^^^ b.toUInt64) * 1099511628211) 14695981039346656037).toNat

def total : List Nat → Nat
  | [] => 0
  | n :: ns => n + total ns

/-- Shards, the hash that spreads keys over them, the lifetime of slots in nanoseconds and the
clock that it is measured with. -/
structure Store where
  lifetime : Int
  clock : Clock
  hash : Octets → Nat
  shards : List Shard
  shards_ne_nil : shards ≠ []

namespace Store

def nanoseconds (milliseconds : Int) : Int := wrap64 (milliseconds * 1000000)

def create (lifetimeMilliseconds : Int) (shardCount : Nat) (clock : Clock)
    (hash : Octets → Nat := fnv1a) : Store :=
  { lifetime := nanoseconds lifetimeMilliseconds
    clock
    hash
    shards := List.replicate (max shardCount 1) {}
    shards_ne_nil := by
      intro h
      have hlen := congrArg List.length h
      simp only [List.length_replicate, List.length_nil] at hlen
      omega }

def shardCount (store : Store) : Nat := store.shards.length

def indexOf (store : Store) (key : Octets) : Nat := store.hash key % store.shards.length

theorem indexOf_lt (store : Store) (key : Octets) : store.indexOf key < store.shards.length :=
  Nat.mod_lt _ (List.length_pos_iff.mpr store.shards_ne_nil)

def shardOf (store : Store) (key : Octets) : Shard :=
  store.shards.get ⟨store.indexOf key, store.indexOf_lt key⟩

def tick (store : Store) : Store := { store with clock := store.clock.read }

def now (store : Store) : Int := store.clock.now

def withShard (store : Store) (key : Octets) (shard : Shard) : Store :=
  { store with
    shards := store.shards.set (store.indexOf key) shard
    shards_ne_nil := by simpa using store.shards_ne_nil }

@[simp] theorem indexOf_withShard (store : Store) (key k : Octets) (shard : Shard) :
    (store.withShard key shard).indexOf k = store.indexOf k := by
  simp [indexOf, withShard]

theorem shardOf_withShard (store : Store) (key k : Octets) (shard : Shard) :
    (store.withShard key shard).shardOf k =
      if store.indexOf k = store.indexOf key then shard else store.shardOf k := by
  simp only [shardOf, List.get_eq_getElem, indexOf_withShard]
  simp only [withShard, List.getElem_set]
  split <;> split <;> simp_all

def onShard {α : Type} (store : Store) (key : Octets) (operation : Shard → α × Shard) :
    α × Store :=
  let result := operation (store.shardOf key)
  (result.1, store.withShard key result.2)

def get (store : Store) (key : Octets) : Option Octets × Store :=
  let store := store.tick
  store.onShard key (·.get store.lifetime store.now key)

def put (store : Store) (key value : Octets) : Store :=
  let store := store.tick
  store.withShard key ((store.shardOf key).put store.lifetime store.now key value)

def invalidate (store : Store) (key : Octets) : Bool × Store :=
  let store := store.tick
  store.onShard key (·.invalidate store.lifetime store.now key)

/-- Removes a key that holds the expected value, live or not; the clock is not asked. -/
def invalidateIf (store : Store) (key expected : Octets) : Bool × Store :=
  store.onShard key (·.invalidateIf key expected)

/-- Writes a value over the expected one while that is live, and restarts its lifetime. -/
def replaceIf (store : Store) (key expected value : Octets) : Bool × Store :=
  let store := store.tick
  store.onShard key (·.replaceIf store.lifetime store.now key expected value)

def invalidateAll (store : Store) : List Octets → Nat × Store
  | [] => (0, store)
  | key :: keys =>
    let first := store.invalidate key
    let others := first.2.invalidateAll keys
    (first.1.toNat + others.1, others.2)

/-- The live entries of a store at the time last read. Listed shard after shard they come in an
order that depends on the hash; here they are sorted by key, which changes their order only, since a
key is held once. So what is reported in this order is a list up to order. -/
def liveEntries (store : Store) : List Entry :=
  (SortedMap.ofList (store.shards.flatMap (·.live store.lifetime store.now))).entries

def snapshot (store : Store) : List Entry × Store := (store.tick.liveEntries, store.tick)

def purge (store : Store) : Nat × Store :=
  let store := store.tick
  let swept := store.shards.map (·.sweep store.lifetime store.now)
  (total (swept.map Prod.fst),
    { store with
      shards := swept.map Prod.snd
      shards_ne_nil := by simpa [swept] using store.shards_ne_nil })

/-- The number of slots held, expired ones included, as the shards recorded it. -/
def size (store : Store) : Nat := total (store.shards.map Shard.recordedSize)

def advance (store : Store) (nanoseconds : Int) : Store :=
  { store with clock := store.clock.advance nanoseconds }

end Store

end DetectorCache
