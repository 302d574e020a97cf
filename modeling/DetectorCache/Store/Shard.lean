import DetectorCache.SortedMap

set_option autoImplicit false

namespace DetectorCache

structure Slot where
  value : Octets
  writtenAt : Int
  deriving DecidableEq

def Slot.expired (slot : Slot) (lifetime now : Int) : Bool := lifetime ≤ now - slot.writtenAt

/-- The slots of a shard, the writes since its last sweep, and the number of slots as last recorded
for readers that do not look at the slots. -/
structure Shard where
  slots : SortedMap Slot := ∅
  writesSinceSweep : Nat := 0
  recordedSize : Nat := 0

namespace Shard

/-- A shard sweeps after this many writes, or as many as it holds slots if these are more. -/
def minWritesBetweenSweeps : Nat := 64

def withSlots (shard : Shard) (slots : SortedMap Slot) : Shard :=
  { shard with slots, recordedSize := slots.size }

def sweep (shard : Shard) (lifetime now : Int) : Nat × Shard :=
  let kept := shard.slots.filter fun _ slot => !slot.expired lifetime now
  (shard.slots.size - kept.size, { shard.withSlots kept with writesSinceSweep := 0 })

theorem find?_sweep (shard : Shard) (lifetime now : Int) (key : Octets) :
    (shard.sweep lifetime now).2.slots.find? key =
      (shard.slots.find? key).filter fun slot => !slot.expired lifetime now :=
  SortedMap.find?_filter _ _ _

def get (shard : Shard) (lifetime now : Int) (key : Octets) : Option Octets × Shard :=
  match shard.slots.find? key with
  | none => (none, shard)
  | some slot =>
    if slot.expired lifetime now then (none, shard.withSlots (shard.slots.erase key))
    else (some slot.value, shard)

theorem find?_get (shard : Shard) (lifetime now : Int) (key k : Octets) :
    (shard.get lifetime now key).2.slots.find? k =
      if k = key then (shard.slots.find? k).filter fun slot => !slot.expired lifetime now
      else shard.slots.find? k := by
  rw [get]
  by_cases hk : k = key
  · subst hk
    cases h : shard.slots.find? k with
    | none => simp [h]
    | some slot =>
      cases he : slot.expired lifetime now <;>
        simp [h, he, withSlots, SortedMap.find?_erase, Option.filter]
  · cases h : shard.slots.find? key with
    | none => simp [hk]
    | some slot =>
      cases he : slot.expired lifetime now <;> simp [hk, he, withSlots, SortedMap.find?_erase]

def put (shard : Shard) (lifetime now : Int) (key value : Octets) : Shard :=
  let written : Shard :=
    { shard with
      slots := shard.slots.insert key ⟨value, now⟩
      writesSinceSweep := shard.writesSinceSweep + 1 }
  if max minWritesBetweenSweeps written.slots.size ≤ written.writesSinceSweep then
    (written.sweep lifetime now).2
  else written.withSlots written.slots

def invalidate (shard : Shard) (lifetime now : Int) (key : Octets) : Bool × Shard :=
  match shard.slots.find? key with
  | none => (false, shard)
  | some slot => (!slot.expired lifetime now, shard.withSlots (shard.slots.erase key))

theorem find?_invalidate (shard : Shard) (lifetime now : Int) (key k : Octets) :
    (shard.invalidate lifetime now key).2.slots.find? k =
      if k = key then none else shard.slots.find? k := by
  rw [invalidate]
  cases h : shard.slots.find? key with
  | none => by_cases hk : k = key <;> simp_all
  | some slot => simp [withSlots, SortedMap.find?_erase]

def invalidateIf (shard : Shard) (key expected : Octets) : Bool × Shard :=
  match shard.slots.find? key with
  | none => (false, shard)
  | some slot =>
    if slot.value = expected then (true, shard.withSlots (shard.slots.erase key))
    else (false, shard)

/-- Writes a value over the expected one while that is live. It counts as no write. -/
def replaceIf (shard : Shard) (lifetime now : Int) (key expected value : Octets) : Bool × Shard :=
  match shard.slots.find? key with
  | none => (false, shard)
  | some slot =>
    if slot.expired lifetime now ∨ slot.value ≠ expected then (false, shard)
    else (true, { shard with slots := shard.slots.insert key ⟨value, now⟩ })

def live (shard : Shard) (lifetime now : Int) : List (Octets × Octets) :=
  (shard.slots.entries.filter fun e => !e.2.expired lifetime now).map fun e => (e.1, e.2.value)

end Shard

end DetectorCache
