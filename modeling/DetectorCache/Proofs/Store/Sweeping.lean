import DetectorCache.Proofs.Store.Held
/-!
When a stream of writes makes a shard sweep. A sweep falls due once the writes since the last one
are as many as the slots, but every write of a new key adds a slot, so the writes never catch up
with the slots that the last sweep has kept. What brings a sweep about is the writes that renew a
slot: a stream sweeps exactly if it renews enough of them, and then nothing is left of what had
expired before it; otherwise nothing is dropped at all.
-/
set_option autoImplicit false

namespace DetectorCache

namespace Shard

variable (shard : Shard) (lifetime now : Int) (key : Octets)

def sizeWith : Nat :=
  if shard.slots.contains key then shard.slots.size else shard.slots.size + 1

def due : Bool :=
  decide (max minWritesBetweenSweeps (shard.sizeWith key) ≤ shard.writesSinceSweep + 1)

/-- The shard with a slot written, before it decides on a sweep. -/
def written (value : Octets) : Shard :=
  { shard with
    slots := shard.slots.insert key ⟨value, now⟩
    writesSinceSweep := shard.writesSinceSweep + 1
    recordedSize := (shard.slots.insert key ⟨value, now⟩).size }

theorem put_eq (value : Octets) :
    shard.put lifetime now key value =
      if shard.due key then ((shard.written now key value).sweep lifetime now).2
      else shard.written now key value := by
  rw [put]
  split
  · next h =>
    rw [SortedMap.size_insert] at h
    have hdue : shard.due key = true := decide_eq_true h
    rw [if_pos hdue]
    rfl
  · next h =>
    rw [SortedMap.size_insert] at h
    have hdue : ¬ shard.due key = true := fun hd => h (of_decide_eq_true hd)
    rw [if_neg hdue]
    rfl

theorem size_slots_written (value : Octets) :
    (shard.written now key value).slots.size = shard.sizeWith key :=
  SortedMap.size_insert _ _ _

variable {shard lifetime now key}

theorem put_of_due (h : shard.due key = true) (value : Octets) :
    shard.put lifetime now key value = ((shard.written now key value).sweep lifetime now).2 := by
  rw [put_eq, if_pos h]

theorem put_of_not_due (h : shard.due key = false) (value : Octets) :
    shard.put lifetime now key value = shard.written now key value := by
  rw [put_eq, if_neg (by simp [h])]

/-- A slot after a write is the written one, or it was there before and no sweep has met it as an
expired one. -/
theorem of_find?_put {value k : Octets} {slot : Slot}
    (h : (shard.put lifetime now key value).slots.find? k = some slot) :
    (k = key ∧ slot = ⟨value, now⟩) ∨
      (shard.slots.find? k = some slot ∧
        (shard.due key = true → slot.expired lifetime now = false)) := by
  have hwritten : (shard.written now key value).slots.find? k = some slot →
      (k = key ∧ slot = ⟨value, now⟩) ∨ shard.slots.find? k = some slot := by
    intro hslot
    rw [written, SortedMap.find?_insert] at hslot
    split at hslot
    · next hk =>
      cases hslot
      exact Or.inl ⟨hk, rfl⟩
    · exact Or.inr hslot
  cases hdue : shard.due key with
  | true =>
    rw [put_of_due hdue, find?_sweep, Option.filter_eq_some_iff] at h
    obtain ⟨hslot, hlive⟩ := h
    rcases hwritten hslot with hnew | hold
    · exact Or.inl hnew
    · exact Or.inr ⟨hold, fun _ => by simpa using hlive⟩
  | false =>
    rw [put_of_not_due hdue] at h
    rcases hwritten h with hnew | hold
    · exact Or.inl hnew
    · exact Or.inr ⟨hold, nofun⟩

/-- An operation that counts as no write and adds no slot. -/
structure Shrinks (before after : Shard) : Prop where
  writes : after.writesSinceSweep = before.writesSinceSweep
  size : after.slots.size ≤ before.slots.size

theorem Shrinks.refl (shard : Shard) : Shrinks shard shard := ⟨rfl, Nat.le_refl _⟩

theorem Shrinks.trans {a b c : Shard} (hab : Shrinks a b) (hbc : Shrinks b c) : Shrinks a c :=
  ⟨hbc.writes.trans hab.writes, Nat.le_trans hbc.size hab.size⟩

theorem shrinks_erase {slot : Slot} (h : shard.slots.find? key = some slot) :
    Shrinks shard (shard.withSlots (shard.slots.erase key)) := by
  refine ⟨rfl, ?_⟩
  have hsize := SortedMap.size_erase h
  simp only [withSlots]
  omega

variable (shard lifetime now key)

theorem shrinks_get : Shrinks shard (shard.get lifetime now key).2 := by
  rw [get]
  split
  · exact .refl shard
  · next slot hfind =>
    split
    · exact shrinks_erase hfind
    · exact .refl shard

theorem shrinks_invalidate : Shrinks shard (shard.invalidate lifetime now key).2 := by
  rw [invalidate]
  split
  · exact .refl shard
  · next slot hfind => exact shrinks_erase hfind

theorem shrinks_invalidateIf (expected : Octets) :
    Shrinks shard (shard.invalidateIf key expected).2 := by
  rw [invalidateIf]
  split
  · exact .refl shard
  · next slot hfind =>
    split
    · exact shrinks_erase hfind
    · exact .refl shard

theorem shrinks_replaceIf (expected value : Octets) :
    Shrinks shard (shard.replaceIf lifetime now key expected value).2 := by
  refine ⟨?_, Nat.le_of_eq (size_slots_replaceIf _ _ _ _ _ _)⟩
  rw [replaceIf]
  split
  · rfl
  · split <;> rfl

/-- What an operation leaves of the shard, by whether it has swept: no writes since the sweep, or no
more new slots than new writes. -/
structure Stepped (swept : Bool) (before after : Shard) : Prop where
  reset : swept = true → after.writesSinceSweep = 0
  grown : swept = false →
    after.slots.size + before.writesSinceSweep ≤ before.slots.size + after.writesSinceSweep

variable {shard}

theorem Shrinks.stepped {after : Shard} (h : Shrinks shard after) : Stepped false shard after := by
  refine ⟨nofun, fun _ => ?_⟩
  rw [h.writes]
  exact Nat.add_le_add_right h.size _

variable (shard)

theorem stepped_put (value : Octets) :
    Stepped (shard.due key) shard (shard.put lifetime now key value) := by
  refine ⟨?_, ?_⟩
  · intro hdue
    rw [put_of_due hdue]
    rfl
  · intro hdue
    rw [put_of_not_due hdue, size_slots_written, sizeWith]
    simp only [written]
    split <;> omega

end Shard

namespace Store

open Octets (ascii decimal)

/-- A request of a stream of writes: a write, or the clock moving on. -/
def Request.Streams : Request → Prop
  | .put _ _ => True
  | .advance nanoseconds => 0 ≤ nanoseconds
  | _ => False

def Request.isWrite : Request → Bool
  | .put _ _ => true
  | _ => false

def writes (requests : List Request) : Nat := requests.countP Request.isWrite

def sweeps (store : Store) : Request → Bool
  | .put key _ => (store.shardOf key).due key
  | .purge => true
  | _ => false

/-- Whether a request writes a key that is held. -/
def renews (store : Store) : Request → Bool
  | .put key _ => (store.shardOf key).slots.contains key
  | _ => false

/-- Whether a row of requests includes a sweep. -/
def sweepsAmong (store : Store) : List Request → Bool
  | [] => false
  | request :: requests => store.sweeps request || (store.serve request).2.sweepsAmong requests

/-- The number of writes in a row of requests that meet their key held. -/
def renewals (store : Store) : List Request → Nat
  | [] => 0
  | request :: requests =>
    (store.renews request).toNat + (store.serve request).2.renewals requests

/-- The number of slots held after the last sweep in a row of requests; `kept` if there is none. -/
def keptBySweep (store : Store) (kept : Nat) : List Request → Nat
  | [] => kept
  | request :: requests =>
    (store.serve request).2.keptBySweep
      (if store.sweeps request then (store.serve request).2.held else kept) requests

def writesSinceSweep (store : Store) : Nat := total (store.shards.map Shard.writesSinceSweep)

variable {store : Store} {shard : Shard}

theorem shardOf_of_single (h : store.shards = [shard]) (key : Octets) :
    store.shardOf key = shard := by
  have hmem : store.shardOf key ∈ store.shards := List.get_mem _ _
  rw [h] at hmem
  exact List.mem_singleton.mp hmem

theorem shards_withShard_of_single (h : store.shards = [shard]) (key : Octets) (other : Shard) :
    (store.withShard key other).shards = [other] := by
  have hindex := store.indexOf_lt key
  simp only [h, List.length_singleton, Nat.lt_one_iff] at hindex
  simp [withShard, h, hindex]

theorem held_of_single (h : store.shards = [shard]) : store.held = shard.slots.size := by
  simp [held, h, total]

theorem writesSinceSweep_of_single (h : store.shards = [shard]) :
    store.writesSinceSweep = shard.writesSinceSweep := by
  simp [writesSinceSweep, h, total]

theorem shards_put_of_single (h : store.shards = [shard]) (key value : Octets) :
    (store.put key value).shards = [shard.put store.lifetime store.tick.now key value] := by
  have htick : store.tick.shards = [shard] := h
  simp only [put, shardOf_of_single htick key]
  exact shards_withShard_of_single htick key _

theorem shards_invalidate_of_single (h : store.shards = [shard]) (key : Octets) :
    (store.invalidate key).2.shards = [(shard.invalidate store.lifetime store.tick.now key).2] := by
  have htick : store.tick.shards = [shard] := h
  simp only [invalidate, onShard, shardOf_of_single htick key]
  exact shards_withShard_of_single htick key _

theorem shrinks_invalidateAll (h : store.shards = [shard]) (keys : List Octets) :
    ∃ after, (store.invalidateAll keys).2.shards = [after] ∧ Shard.Shrinks shard after := by
  induction keys generalizing store shard with
  | nil => exact ⟨shard, h, .refl shard⟩
  | cons key keys ih =>
    obtain ⟨after, hafter, hshrinks⟩ := ih (shards_invalidate_of_single h key)
    exact ⟨after, hafter, (Shard.shrinks_invalidate _ _ _ key).trans hshrinks⟩

theorem shards_purge_of_single (h : store.shards = [shard]) :
    store.purge.2.shards = [(shard.sweep store.lifetime store.tick.now).2] := by
  simp [purge, tick, now, h]

/-- A request sweeps the shard, or it lets the slots grow by no more than its writes. -/
theorem step_of_single (h : store.shards = [shard]) (request : Request) :
    ∃ after, (store.serve request).2.shards = [after] ∧
      Shard.Stepped (store.sweeps request) shard after := by
  have htick : store.tick.shards = [shard] := h
  cases request with
  | get key =>
    refine ⟨_, shards_withShard_of_single htick key _, ?_⟩
    rw [shardOf_of_single htick]
    exact (Shard.shrinks_get shard _ _ key).stepped
  | put key value =>
    refine ⟨_, shards_put_of_single h key value, ?_⟩
    rw [sweeps, shardOf_of_single h]
    exact Shard.stepped_put shard _ _ key value
  | invalidate key =>
    exact ⟨_, shards_invalidate_of_single h key, (Shard.shrinks_invalidate shard _ _ key).stepped⟩
  | invalidateIf key expected =>
    refine ⟨_, shards_withShard_of_single h key _, ?_⟩
    rw [shardOf_of_single h]
    exact (Shard.shrinks_invalidateIf shard key expected).stepped
  | replaceIf key expected value =>
    refine ⟨_, shards_withShard_of_single htick key _, ?_⟩
    rw [shardOf_of_single htick]
    exact (Shard.shrinks_replaceIf shard _ _ key expected value).stepped
  | invalidateAll keys =>
    obtain ⟨after, hafter, hshrinks⟩ := shrinks_invalidateAll h keys
    exact ⟨after, hafter, hshrinks.stepped⟩
  | snapshot => exact ⟨shard, h, (Shard.Shrinks.refl shard).stepped⟩
  | purge => exact ⟨_, shards_purge_of_single h, ⟨fun _ => rfl, nofun⟩⟩
  | advance nanoseconds => exact ⟨shard, h, (Shard.Shrinks.refl shard).stepped⟩

/-- What a shard holds is what its last sweep has kept and at most one slot a write. -/
theorem size_le_keptBySweep_add (h : store.shards = [shard]) {kept : Nat}
    (hkept : shard.slots.size ≤ kept + shard.writesSinceSweep) (requests : List Request) :
    ∃ after, (store.serveAll requests).shards = [after] ∧
      after.slots.size ≤ store.keptBySweep kept requests + after.writesSinceSweep := by
  induction requests generalizing store shard kept with
  | nil => exact ⟨shard, h, hkept⟩
  | cons request requests ih =>
    obtain ⟨after, hafter, hstep⟩ := step_of_single h request
    refine ih hafter ?_
    cases hs : store.sweeps request with
    | true =>
      rw [if_pos rfl, held_of_single hafter]
      omega
    | false =>
      have hsize := hstep.grown hs
      rw [if_neg (by simp)]
      omega

theorem size_le_keptBySweep_create (lifetimeMilliseconds : Int) {shardCount : Nat}
    (hone : shardCount ≤ 1) (clock : Clock) (hash : Octets → Nat) (requests : List Request) :
    let fresh := create lifetimeMilliseconds shardCount clock hash
    ∃ shard, (fresh.serveAll requests).shards = [shard] ∧
      shard.slots.size ≤ fresh.keptBySweep 0 requests + shard.writesSinceSweep := by
  intro fresh
  have hfresh : fresh.shards = [{}] := by
    have hcount : max shardCount 1 = 1 := by omega
    simp [fresh, create, hcount]
  have hnone : ({} : Shard).slots.size ≤ 0 + ({} : Shard).writesSinceSweep := Nat.le_refl 0
  exact size_le_keptBySweep_add hfresh hnone requests

theorem writes_cons (request : Request) (requests : List Request) :
    writes (request :: requests) = writes requests + request.isWrite.toNat := by
  rw [writes, List.countP_cons]
  cases request.isWrite <;> rfl

/-- A stream sweeps exactly if the writes since the last sweep become enough, and the slots that the
shard held before it are no more than these writes and the renewals in the stream. -/
theorem sweepsAmong_iff (h : store.shards = [shard]) {requests : List Request}
    (hstream : ∀ request ∈ requests, request.Streams)
    (hopen : 0 < writes requests ∨
      shard.writesSinceSweep < max Shard.minWritesBetweenSweeps shard.slots.size) :
    store.sweepsAmong requests = true ↔
      Shard.minWritesBetweenSweeps ≤ shard.writesSinceSweep + writes requests ∧
        shard.slots.size ≤ shard.writesSinceSweep + store.renewals requests := by
  -- after a write that has not swept, no sweep is due until the next one
  induction requests generalizing store shard with
  | nil =>
    simp only [writes, List.countP_nil] at hopen
    simp only [sweepsAmong, writes, List.countP_nil, renewals, Bool.false_eq_true, false_iff]
    omega
  | cons request requests ih =>
    have hrest := fun r hr => hstream r (List.mem_cons_of_mem _ hr)
    rw [sweepsAmong, renewals, writes_cons]
    rw [writes_cons] at hopen
    cases request with
    | advance nanoseconds =>
      have hsame : (store.serve (.advance nanoseconds)).2.shards = [shard] := h
      simpa [sweeps, renews, Request.isWrite] using ih hsame hrest hopen
    | put key value =>
      have hshard := shardOf_of_single h key
      simp only [sweeps, renews, hshard, Request.isWrite, Bool.toNat_true]
      cases hdue : shard.due key with
      | true =>
        have henough := of_decide_eq_true hdue
        rw [Shard.sizeWith] at henough
        simp only [Bool.true_or, true_iff]
        cases hheld : shard.slots.contains key <;>
          simp only [hheld, Bool.toNat_true, Bool.toNat_false, if_true, Bool.false_eq_true,
            if_false] at henough ⊢ <;> omega
      | false =>
        have hafter : (store.serve (.put key value)).2.shards = _ :=
          shards_put_of_single h key value
        have hearly := of_decide_eq_false hdue
        rw [Shard.put_of_not_due hdue] at hafter
        have hsize := shard.size_slots_written store.tick.now key value
        have hcount : (shard.written store.tick.now key value).writesSinceSweep =
            shard.writesSinceSweep + 1 := rfl
        have hothers := ih hafter hrest (Or.inr (by rw [hsize, hcount]; omega))
        rw [hsize, hcount] at hothers
        rw [Bool.false_or, hothers, Shard.sizeWith]
        cases hheld : shard.slots.contains key <;>
          simp only [Bool.toNat_true, Bool.toNat_false, if_true, Bool.false_eq_true, if_false] <;>
          omega
    | _ => exact (hstream _ List.mem_cons_self).elim

theorem slot?_of_single (h : store.shards = [shard]) (key : Octets) :
    store.slot? key = shard.slots.find? key := by
  rw [slot?, shardOf_of_single h]

theorem tick_now_le_advance (store : Store) {nanoseconds : Int} (h : 0 ≤ nanoseconds) :
    store.tick.now ≤ (store.advance nanoseconds).tick.now := by
  simp only [advance, tick, now, Clock.advance, Clock.read]
  omega

/-- What is held after a stream was written in it, or it was held before and had not expired before
it if the stream has swept. -/
theorem of_slot?_stream (h : store.shards = [shard]) {requests : List Request}
    (hstream : ∀ request ∈ requests, request.Streams) {key : Octets} {slot : Slot}
    (hslot : (store.serveAll requests).slot? key = some slot) :
    (.put key slot.value ∈ requests ∧ store.tick.now ≤ slot.writtenAt) ∨
      (store.slot? key = some slot ∧
        (store.sweepsAmong requests = true →
          slot.expired store.lifetime store.tick.now = false)) := by
  induction requests generalizing store shard with
  | nil => exact Or.inr ⟨hslot, nofun⟩
  | cons request requests ih =>
    have hrest := fun r hr => hstream r (List.mem_cons_of_mem _ hr)
    have hunexpired : ∀ {earlier later : Int}, earlier ≤ later →
        slot.expired store.lifetime later = false →
          slot.expired store.lifetime earlier = false := by
      intro earlier later hle hlater
      refine Bool.eq_false_iff.mpr fun he => ?_
      rw [Slot.expired_mono hle he] at hlater
      cases hlater
    cases request with
    | advance nanoseconds =>
      have hsame : (store.advance nanoseconds).shards = [shard] := h
      have hle := store.tick_now_le_advance (hstream _ List.mem_cons_self)
      rcases ih hsame hrest hslot with
        ⟨hput, hwritten⟩ | ⟨hheld, hswept⟩
      · exact Or.inl ⟨List.mem_cons_of_mem _ hput, Int.le_trans hle hwritten⟩
      · exact Or.inr ⟨hheld, fun hsweep => hunexpired hle (hswept hsweep)⟩
    | put k value =>
      have hafter := shards_put_of_single h k value
      have hle : store.tick.now ≤ (store.put k value).tick.now := now_le_tick (store.put k value)
      rcases ih hafter hrest hslot with
        ⟨hput, hwritten⟩ | ⟨hheld, hswept⟩
      · exact Or.inl ⟨List.mem_cons_of_mem _ hput, Int.le_trans hle hwritten⟩
      · rw [slot?_of_single hafter] at hheld
        rcases Shard.of_find?_put hheld with ⟨rfl, rfl⟩ | ⟨hold, hdue⟩
        · exact Or.inl ⟨List.mem_cons_self, Int.le_refl _⟩
        · refine Or.inr ⟨(slot?_of_single h key).trans hold, ?_⟩
          intro hsweep
          rw [sweepsAmong, Bool.or_eq_true, sweeps, shardOf_of_single h] at hsweep
          rcases hsweep with hnow | hlater
          · exact hdue hnow
          · exact hunexpired hle (hswept hlater)
    | _ => exact (hstream _ List.mem_cons_self).elim

theorem isSome_slot?_of_not_sweepsAmong (h : store.shards = [shard]) {requests : List Request}
    (hstream : ∀ request ∈ requests, request.Streams)
    (hquiet : store.sweepsAmong requests = false) {key : Octets}
    (hheld : (store.slot? key).isSome) : ((store.serveAll requests).slot? key).isSome := by
  induction requests generalizing store shard with
  | nil => exact hheld
  | cons request requests ih =>
    have hrest := fun r hr => hstream r (List.mem_cons_of_mem _ hr)
    rw [sweepsAmong, Bool.or_eq_false_iff] at hquiet
    obtain ⟨hnow, hlater⟩ := hquiet
    cases request with
    | advance nanoseconds =>
      have hsame : (store.advance nanoseconds).shards = [shard] := h
      exact ih hsame hrest hlater hheld
    | put k value =>
      have hafter : (store.serve (.put k value)).2.shards = _ := shards_put_of_single h k value
      refine ih hafter hrest hlater ?_
      rw [sweeps, shardOf_of_single h] at hnow
      rw [slot?_of_single h] at hheld
      rw [slot?_of_single hafter, Shard.put_of_not_due hnow, Shard.written,
        SortedMap.find?_insert]
      split
      · rfl
      · exact hheld
    | _ => exact (hstream _ List.mem_cons_self).elim

def writtenKeys (requests : List Request) : List Octets :=
  requests.filterMap fun
    | .put key _ => some key
    | _ => none

theorem renewals_of_new (h : store.shards = [shard]) {requests : List Request}
    (hstream : ∀ request ∈ requests, request.Streams) (hdistinct : (writtenKeys requests).Nodup)
    (hnew : ∀ key ∈ writtenKeys requests, store.slot? key = none) :
    store.renewals requests = 0 := by
  induction requests generalizing store shard with
  | nil => rfl
  | cons request requests ih =>
    have hrest := fun r hr => hstream r (List.mem_cons_of_mem _ hr)
    cases request with
    | advance nanoseconds =>
      have hsame : (store.advance nanoseconds).shards = [shard] := h
      have hothers := ih hsame hrest hdistinct hnew
      rw [renewals]
      exact (Nat.zero_add _).trans hothers
    | put key value =>
      obtain ⟨hkey, hdistinct⟩ := List.nodup_cons.mp hdistinct
      have hunheld : store.renews (.put key value) = false := by
        have hnone := hnew key List.mem_cons_self
        rw [slot?] at hnone
        rw [renews, SortedMap.contains, hnone]
        rfl
      have hafter := shards_put_of_single h key value
      have hothers := ih hafter hrest hdistinct (by
        intro k hk
        cases hslot : (store.put key value).slot? k with
        | none => rfl
        | some slot =>
          rw [slot?_of_single hafter] at hslot
          rcases Shard.of_find?_put hslot with ⟨rfl, -⟩ | ⟨hold, -⟩
          · exact (hkey hk).elim
          · rw [← slot?_of_single h, hnew k (List.mem_cons_of_mem _ hk)] at hold
            cases hold)
      rw [renewals, hunheld]
      exact (Nat.zero_add _).trans hothers
    | _ => exact (hstream _ List.mem_cons_self).elim

/-- Once a shard holds more slots than it has counted writes, which every sweep that keeps a slot
brings about, no stream of new keys sweeps, however long. -/
theorem not_sweepsAmong_of_new (h : store.shards = [shard])
    (hfull : shard.writesSinceSweep < shard.slots.size) {requests : List Request}
    (hstream : ∀ request ∈ requests, request.Streams) (hdistinct : (writtenKeys requests).Nodup)
    (hnew : ∀ key ∈ writtenKeys requests, store.slot? key = none) :
    store.sweepsAmong requests = false := by
  refine Bool.eq_false_iff.mpr fun hsweeps => ?_
  have henough := (sweepsAmong_iff h hstream (Or.inr (by omega))).mp hsweeps
  rw [renewals_of_new h hstream hdistinct hnew] at henough
  omega

/-- Let the last sweep of a store with one shard have kept some slots, and a stream of writes and
clock advances follow, with at least twice as many writes as these slots and twice the least number
of writes between sweeps. If as many of the writes as the sweep kept slots renew a slot, the stream
sweeps: exactly if the slots held before it are no more than the writes since the last sweep and
the renewals. After a stream that sweeps, no key holds a slot that had expired before it, only what
the stream has written; a stream that does not sweep drops no slot, expired or not. -/
theorem sweeps_under_renewals (lifetimeMilliseconds : Int) {shardCount : Nat}
    (hone : shardCount ≤ 1) (clock : Clock) (hash : Octets → Nat) (earlier : List Request)
    {stream : List Request} (hstream : ∀ request ∈ stream, request.Streams) :
    let fresh := create lifetimeMilliseconds shardCount clock hash
    let store := fresh.serveAll earlier
    let kept := fresh.keptBySweep 0 earlier
    let after := store.serveAll stream
    2 * max Shard.minWritesBetweenSweeps kept ≤ writes stream →
      (kept ≤ store.renewals stream → store.sweepsAmong stream = true) ∧
      (store.sweepsAmong stream = true ↔
        store.held ≤ store.writesSinceSweep + store.renewals stream) ∧
      (store.sweepsAmong stream = true →
        ∀ key slot, store.slot? key = some slot → slot.expired store.lifetime store.tick.now →
          ∀ later, after.slot? key = some later →
            .put key later.value ∈ stream ∧ store.tick.now ≤ later.writtenAt) ∧
      (store.sweepsAmong stream = false →
        ∀ key, (store.slot? key).isSome → (after.slot? key).isSome) := by
  intro fresh store kept after hwrites
  obtain ⟨shard, hshard, hsize⟩ :=
    size_le_keptBySweep_create lifetimeMilliseconds hone clock hash earlier
  have hsome : 0 < writes stream := by
    have hleast : 64 ≤ max Shard.minWritesBetweenSweeps kept := Nat.le_max_left _ _
    omega
  have hiff := sweepsAmong_iff hshard hstream (Or.inl hsome)
  have hdue : store.sweepsAmong stream = true ↔
      store.held ≤ store.writesSinceSweep + store.renewals stream := by
    rw [hiff, held_of_single hshard, writesSinceSweep_of_single hshard]
    refine and_iff_right ?_
    omega
  refine ⟨?_, hdue, ?_, ?_⟩
  · intro hrenewals
    rw [hdue, held_of_single hshard, writesSinceSweep_of_single hshard, Nat.add_comm]
    exact Nat.le_trans hsize (Nat.add_le_add_right hrenewals _)
  · intro hswept key slot hslot hexpired later hlater
    rcases of_slot?_stream hshard hstream hlater with hwritten | ⟨hheld, hlive⟩
    · exact hwritten
    · rw [hslot] at hheld
      cases hheld
      rw [hlive hswept] at hexpired
      cases hexpired
  · intro hquiet key hheld
    exact isSome_slot?_of_not_sweepsAmong hshard hstream hquiet hheld

theorem sweeps_under_renewals_of_one_key :
    let earlier := List.replicate 64 (Request.put (ascii "k") (ascii "v")) ++ [.advance 1000000000]
    let stream := List.replicate 128 (Request.put (ascii "b") (ascii "v"))
    let fresh := create 1000 1 {} fun _ => 0
    let store := fresh.serveAll earlier
    fresh.keptBySweep 0 earlier = 1 ∧ writes stream = 128 ∧ store.renewals stream = 127 ∧
      store.slot? (ascii "k") = some ⟨ascii "v", 0⟩ ∧ store.sweepsAmong stream = true ∧
      (store.serveAll stream).slot? (ascii "k") = none := by
  intro earlier stream fresh store
  have hstream : ∀ request ∈ stream, request.Streams := by
    intro request hmem
    rw [List.eq_of_mem_replicate hmem]
    trivial
  have hkept : fresh.keptBySweep 0 earlier = 1 := by decide +kernel
  have hwrites : writes stream = 128 := by decide +kernel
  have hrenewals : store.renewals stream = 127 := by decide +kernel
  have hslot : store.slot? (ascii "k") = some ⟨ascii "v", 0⟩ := by decide +kernel
  have hexpired : Slot.expired ⟨ascii "v", 0⟩ store.lifetime store.tick.now := by decide +kernel
  obtain ⟨hsweeps, -, hgone, -⟩ :=
    sweeps_under_renewals 1000 (Nat.le_refl 1) {} (fun _ => 0) earlier hstream
      (by rw [hkept, hwrites]; decide)
  have hswept : store.sweepsAmong stream = true := by
    refine hsweeps ?_
    rw [hkept]
    exact Nat.le_trans (by decide) (Nat.le_of_eq hrenewals.symm)
  refine ⟨hkept, hwrites, hrenewals, hslot, hswept, ?_⟩
  cases hafter : (store.serveAll stream).slot? (ascii "k") with
  | none => rfl
  | some later =>
    have hput := List.eq_of_mem_replicate (hgone hswept _ _ hslot hexpired later hafter).1
    exact absurd (Request.put.inj hput).1 (by decide)

/-- The last sweep has kept one slot, which then expires. None of the writes of new keys that
follow, twice the least number between sweeps, makes a sweep, and the slot stays. -/
theorem new_keys_keep_expired_slot :
    let earlier := List.replicate 64 (Request.put (ascii "k") (ascii "v")) ++ [.advance 1000000000]
    let stream :=
      (List.range 128).map fun i => Request.put (ascii "b" ++ decimal i) (ascii "v")
    let fresh := create 1000 1 {} fun _ => 0
    let store := fresh.serveAll earlier
    (∀ request ∈ stream, request.Streams) ∧
      2 * max Shard.minWritesBetweenSweeps (fresh.keptBySweep 0 earlier) ≤ writes stream ∧
      store.slot? (ascii "k") = some ⟨ascii "v", 0⟩ ∧
      Slot.expired ⟨ascii "v", 0⟩ store.lifetime store.now ∧
      store.sweepsAmong stream = false ∧ ((store.serveAll stream).slot? (ascii "k")).isSome := by
  intro earlier stream fresh store
  have hstream : ∀ request ∈ stream, request.Streams := by
    intro request hmem
    obtain ⟨i, -, rfl⟩ := List.mem_map.mp hmem
    trivial
  have hslot : store.slot? (ascii "k") = some ⟨ascii "v", 0⟩ := by decide +kernel
  obtain ⟨shard, hshard, -⟩ :=
    size_le_keptBySweep_create 1000 (Nat.le_refl 1) {} (fun _ => 0) earlier
  have hfull : shard.writesSinceSweep < shard.slots.size := by
    have hcounts : store.writesSinceSweep < store.held := by decide +kernel
    rwa [writesSinceSweep_of_single hshard, held_of_single hshard] at hcounts
  have hquiet : store.sweepsAmong stream = false := by
    refine not_sweepsAmong_of_new hshard hfull hstream ?_ ?_
    · decide +kernel
    · decide +kernel
  refine ⟨hstream, by decide +kernel, hslot, by decide +kernel, hquiet, ?_⟩
  exact isSome_slot?_of_not_sweepsAmong hshard hstream hquiet (by rw [hslot]; rfl)

end Store

end DetectorCache
