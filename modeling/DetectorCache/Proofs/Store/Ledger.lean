import DetectorCache.Proofs.Store.Request
/-!
A store answers like one plain map that never drops a slot because of its age. `Ledger` is that map:
it has no shards, no sweeps and no lazy removal, and looks only at slots that have not expired. The
main statement compares the answers of both after any row of requests in which the clock is not set
back. A lifetime that is too long for 64 bits of nanoseconds is another one to the store.
-/
set_option autoImplicit false

namespace DetectorCache

/-- A map of slots in which an expired slot stays until its key is written again. -/
structure Ledger where
  lifetime : Int
  clock : Clock
  slots : SortedMap Slot := ∅

namespace Ledger

open Store (Request Reply)

def now (ledger : Ledger) : Int := ledger.clock.now

def tick (ledger : Ledger) : Ledger := { ledger with clock := ledger.clock.read }

def slot? (ledger : Ledger) (key : Octets) : Option Slot :=
  unexpired ledger.lifetime ledger.now (ledger.slots.find? key)

def holds (ledger : Ledger) (key value : Octets) : Bool :=
  (ledger.slot? key).map Slot.value == some value

def write (ledger : Ledger) (key value : Octets) : Ledger :=
  { ledger with slots := ledger.slots.insert key ⟨value, ledger.now⟩ }

def erase (ledger : Ledger) (key : Octets) : Ledger :=
  { ledger with slots := ledger.slots.erase key }

def invalidate (ledger : Ledger) (key : Octets) : Bool × Ledger :=
  if (ledger.slot? key).isSome then (true, ledger.erase key) else (false, ledger)

/-- Removes keys one after the other, at the times at which the clock is read for them. -/
def invalidateAll (ledger : Ledger) : List Octets → Nat × Ledger
  | [] => (0, ledger)
  | key :: keys =>
    let first := ledger.tick.invalidate key
    let others := first.2.invalidateAll keys
    (first.1.toNat + others.1, others.2)

def advance (ledger : Ledger) (nanoseconds : Int) : Ledger :=
  { ledger with clock := ledger.clock.advance nanoseconds }

def entries (ledger : Ledger) : List Entry :=
  (ledger.slots.entries.filter fun e => !e.2.expired ledger.lifetime ledger.now).map
    fun e => (e.1, e.2.value)

/-- Serves a request. A purge finds nothing to do. -/
def serve (ledger : Ledger) : Request → Reply × Ledger
  | .get key => (.value ((ledger.tick.slot? key).map Slot.value), ledger.tick)
  | .put key value => (.done, ledger.tick.write key value)
  | .invalidate key =>
    let result := ledger.tick.invalidate key
    (.flag result.1, result.2)
  | .invalidateIf key expected =>
    if ledger.holds key expected then (.flag true, ledger.erase key) else (.flag false, ledger)
  | .replaceIf key expected value =>
    if ledger.tick.holds key expected then (.flag true, ledger.tick.write key value)
    else (.flag false, ledger.tick)
  | .invalidateAll keys =>
    let result := ledger.invalidateAll keys
    (.count result.1, result.2)
  | .snapshot => (.entries ledger.tick.entries, ledger.tick)
  | .purge => (.count 0, ledger.tick)
  | .advance nanoseconds => (.done, ledger.advance nanoseconds)

def serveAll (ledger : Ledger) : List Request → Ledger
  | [] => ledger
  | request :: requests => serveAll (ledger.serve request).2 requests

/-- The requests whose answer does not depend on which expired slots are still held: all but the
count of a purge and a conditional removal that meets no live slot. -/
def Settles (ledger : Ledger) : Request → Prop
  | .invalidateIf key _ => (ledger.slot? key).isSome
  | .purge => False
  | _ => True

theorem settles_invalidateIf {ledger : Ledger} {key expected : Octets} :
    ledger.Settles (.invalidateIf key expected) ↔ (ledger.slot? key).isSome := Iff.rfl

theorem slot?_tick (ledger : Ledger) (key : Octets) :
    ledger.tick.slot? key = unexpired ledger.lifetime ledger.tick.now (ledger.slot? key) :=
  (unexpired_unexpired ledger.clock.le_now_read _).symm

theorem slot?_advance (ledger : Ledger) {nanoseconds : Int} (h : 0 ≤ nanoseconds) (key : Octets) :
    (ledger.advance nanoseconds).slot? key =
      unexpired ledger.lifetime (ledger.advance nanoseconds).now (ledger.slot? key) := by
  have hle : ledger.now ≤ (ledger.advance nanoseconds).now := by
    simp only [advance, now, Clock.advance]
    omega
  exact (unexpired_unexpired hle _).symm

theorem slot?_write (ledger : Ledger) (key value k : Octets) :
    (ledger.write key value).slot? k =
      if k = key then unexpired ledger.lifetime ledger.now (some ⟨value, ledger.now⟩)
      else ledger.slot? k := by
  simp only [slot?, write, now, SortedMap.find?_insert]
  split <;> rfl

theorem slot?_erase (ledger : Ledger) (key k : Octets) :
    (ledger.erase key).slot? k = if k = key then none else ledger.slot? k := by
  simp only [slot?, erase, now, SortedMap.find?_erase]
  split <;> rfl

theorem slot?_invalidate (ledger : Ledger) (key k : Octets) :
    (ledger.invalidate key).2.slot? k = if k = key then none else ledger.slot? k := by
  rw [invalidate]
  split
  · exact ledger.slot?_erase key k
  · next h =>
    split
    · next hk => simpa [hk] using h
    · rfl

theorem fst_invalidate (ledger : Ledger) (key : Octets) :
    (ledger.invalidate key).1 = (ledger.slot? key).isSome := by
  rw [invalidate]
  split <;> simp_all

@[simp] theorem clock_invalidate (ledger : Ledger) (key : Octets) :
    (ledger.invalidate key).2.clock = ledger.clock := by
  rw [invalidate]
  split <;> rfl

@[simp] theorem lifetime_invalidate (ledger : Ledger) (key : Octets) :
    (ledger.invalidate key).2.lifetime = ledger.lifetime := by
  rw [invalidate]
  split <;> rfl

theorem entries_increase (ledger : Ledger) : KeysIncrease ledger.entries := by
  rw [entries, KeysIncrease, List.pairwise_map]
  exact ledger.slots.increasing.filter _

theorem mem_entries {ledger : Ledger} {key value : Octets} :
    (key, value) ∈ ledger.entries ↔
      ∃ slot, ledger.slot? key = some slot ∧ slot.value = value :=
  -- the same list as that of a shard with these slots
  Shard.mem_live { slots := ledger.slots } ledger.lifetime ledger.now

end Ledger

namespace Store

open Octets (ascii)

/-- The store and the map show readers the same. -/
structure Mirrors (store : Store) (ledger : Ledger) : Prop where
  lifetime : store.lifetime = ledger.lifetime
  clock : store.clock = ledger.clock
  slot? : ∀ key, store.liveSlot? key = ledger.slot? key

variable {store : Store} {ledger : Ledger}

namespace Mirrors

theorem now (h : Mirrors store ledger) : store.now = ledger.now := by
  simp only [Store.now, Ledger.now, h.clock]

theorem tick (h : Mirrors store ledger) : Mirrors store.tick ledger.tick where
  lifetime := h.lifetime
  clock := by simp only [Store.tick, Ledger.tick, h.clock]
  slot? := by
    intro key
    have hnow : store.tick.now = ledger.tick.now := by
      simp only [Store.now, Ledger.now, Store.tick, Ledger.tick, h.clock]
    rw [liveSlot?_tick, Ledger.slot?_tick, h.slot?, h.lifetime, hnow]

theorem holds (h : Mirrors store ledger) (key value : Octets) :
    ledger.holds key value = ((store.liveSlot? key).map Slot.value == some value) := by
  rw [Ledger.holds, h.slot?]

theorem entries (h : Mirrors store ledger) (hp : store.Placed) :
    store.liveEntries = ledger.entries := by
  refine KeysIncrease.eq_of_mem_iff (SortedMap.ofList _).increasing ledger.entries_increase ?_
  intro e
  obtain ⟨key, value⟩ := e
  refine hp.mem_liveEntries.trans ?_
  rw [h.slot?]
  exact Ledger.mem_entries.symm

theorem get (h : Mirrors store ledger) (key : Octets) :
    Mirrors (store.get key).2 ledger.tick where
  lifetime := h.lifetime
  clock := h.tick.clock
  slot? k := (store.liveSlot?_get key k).trans (h.tick.slot? k)

theorem put (h : Mirrors store ledger) (key value : Octets) :
    Mirrors (store.put key value) (ledger.tick.write key value) where
  lifetime := h.lifetime
  clock := h.tick.clock
  slot? k := by
    rw [liveSlot?_put, Ledger.slot?_write, h.tick.slot?, h.tick.now, h.lifetime]
    rfl

theorem fst_invalidate (h : Mirrors store ledger) (key : Octets) :
    (store.invalidate key).1 = (ledger.tick.invalidate key).1 := by
  rw [Store.fst_invalidate, Ledger.fst_invalidate, h.tick.slot?]

theorem invalidate (h : Mirrors store ledger) (key : Octets) :
    Mirrors (store.invalidate key).2 (ledger.tick.invalidate key).2 where
  lifetime := (Ledger.lifetime_invalidate _ key).symm ▸ h.lifetime
  clock := (Ledger.clock_invalidate _ key).symm ▸ h.tick.clock
  slot? k := by rw [liveSlot?_invalidate, Ledger.slot?_invalidate, h.tick.slot?]

theorem invalidateAll (h : Mirrors store ledger) (keys : List Octets) :
    (store.invalidateAll keys).1 = (ledger.invalidateAll keys).1 ∧
      Mirrors (store.invalidateAll keys).2 (ledger.invalidateAll keys).2 := by
  induction keys generalizing store ledger with
  | nil => exact ⟨rfl, h⟩
  | cons key keys ih =>
    obtain ⟨hcount, hstate⟩ := ih (h.invalidate key)
    refine ⟨?_, hstate⟩
    simp only [Store.invalidateAll, Ledger.invalidateAll, h.fst_invalidate, hcount]

/-- A conditional removal is decided alike wherever the map holds a live slot; without one the store
may still find an expired slot, which readers do not see either way. -/
theorem invalidateIf (h : Mirrors store ledger) (key expected : Octets) :
    Mirrors (store.invalidateIf key expected).2
      (ledger.serve (.invalidateIf key expected)).2 := by
  by_cases hv : (store.liveSlot? key).map Slot.value = some expected
  · have hledger : ledger.holds key expected = true := by simp [h.holds, hv]
    rw [Ledger.serve, if_pos hledger]
    refine ⟨h.lifetime, h.clock, fun k => ?_⟩
    rw [liveSlot?_invalidateIf, Ledger.slot?_erase, h.slot? k]
    split
    · obtain ⟨slot, hslot, rfl⟩ := Option.map_eq_some_iff.mp hv
      simp [hslot, Option.filter]
    · rfl
  · have hledger : ¬ ledger.holds key expected = true := by simp [h.holds, hv]
    rw [Ledger.serve, if_neg hledger]
    refine ⟨h.lifetime, h.clock, fun k => ?_⟩
    rw [liveSlot?_invalidateIf]
    split
    · next hk =>
      subst hk
      rw [← h.slot?]
      cases hslot : store.liveSlot? k with
      | none => rfl
      | some slot =>
        have hne : slot.value ≠ expected := by simpa [hslot] using hv
        simp [Option.filter, hne]
    · exact h.slot? k

theorem replaceIf (h : Mirrors store ledger) (key expected value : Octets) :
    Mirrors (store.replaceIf key expected value).2
      (ledger.serve (.replaceIf key expected value)).2 := by
  by_cases hv : (store.tick.liveSlot? key).map Slot.value = some expected
  · have hledger : ledger.tick.holds key expected = true := by simp [h.tick.holds, hv]
    rw [Ledger.serve, if_pos hledger]
    refine ⟨h.lifetime, h.tick.clock, fun k => ?_⟩
    rw [liveSlot?_replaceIf, if_pos hv, Ledger.slot?_write, h.tick.slot?, h.tick.now, h.lifetime]
    rfl
  · have hledger : ¬ ledger.tick.holds key expected = true := by simp [h.tick.holds, hv]
    rw [Ledger.serve, if_neg hledger]
    refine ⟨h.lifetime, h.tick.clock, fun k => ?_⟩
    rw [liveSlot?_replaceIf, if_neg hv]
    split
    · next hk => rw [hk, h.tick.slot?]
    · exact h.tick.slot? k

theorem advance (h : Mirrors store ledger) {nanoseconds : Int} (hn : 0 ≤ nanoseconds) :
    Mirrors (store.advance nanoseconds) (ledger.advance nanoseconds) where
  lifetime := h.lifetime
  clock := by simp only [Store.advance, Ledger.advance, h.clock]
  slot? key := by
    have hnow : (store.advance nanoseconds).now = (ledger.advance nanoseconds).now := by
      simp only [Store.advance, Ledger.advance, Store.now, Ledger.now, h.clock]
    rw [liveSlot?_advance store hn, ledger.slot?_advance hn, h.slot?, h.lifetime, hnow]

theorem serve (h : Mirrors store ledger) {request : Request} (hforward : request.Forward) :
    Mirrors (store.serve request).2 (ledger.serve request).2 := by
  cases request with
  | get key => exact h.get key
  | put key value => exact h.put key value
  | invalidate key => exact h.invalidate key
  | invalidateIf key expected => exact h.invalidateIf key expected
  | replaceIf key expected value => exact h.replaceIf key expected value
  | invalidateAll keys => exact (h.invalidateAll keys).2
  | snapshot => exact h.tick
  | purge =>
    exact ⟨h.lifetime, h.tick.clock, fun k => (store.liveSlot?_purge k).trans (h.tick.slot? k)⟩
  | advance nanoseconds => exact h.advance hforward

theorem serveAll (h : Mirrors store ledger) (requests : List Request)
    (hforward : ∀ request ∈ requests, request.Forward) :
    Mirrors (store.serveAll requests) (ledger.serveAll requests) := by
  induction requests generalizing store ledger with
  | nil => exact h
  | cons request requests ih =>
    have hstep := h.serve (hforward request List.mem_cons_self)
    exact ih hstep fun r hr => hforward r (List.mem_cons_of_mem _ hr)

theorem fst_serve (h : Mirrors store ledger) (hp : store.Placed) {request : Request}
    (hs : ledger.Settles request) : (store.serve request).1 = (ledger.serve request).1 := by
  cases request with
  | get key =>
    have hget : (store.serve (.get key)).1 = .value (store.get key).1 := rfl
    rw [hget, Store.fst_get, h.tick.slot?]
    rfl
  | put key value => rfl
  | invalidate key =>
    simp only [Store.serve, Ledger.serve, h.fst_invalidate]
  | invalidateIf key expected =>
    obtain ⟨slot, hslot⟩ := Option.isSome_iff_exists.mp hs
    have hlive : store.liveSlot? key = some slot := (h.slot? key).trans hslot
    have hflag : (store.serve (.invalidateIf key expected)).1 =
        .flag (store.invalidateIf key expected).1 := rfl
    rw [hflag, store.fst_invalidateIf hlive, Ledger.serve]
    by_cases hv : slot.value = expected <;> simp [Ledger.holds, hslot, hv]
  | replaceIf key expected value =>
    have hflag : (store.serve (.replaceIf key expected value)).1 =
        .flag (store.replaceIf key expected value).1 := rfl
    rw [hflag, Store.fst_replaceIf, ← h.tick.holds, Ledger.serve]
    split <;> simp_all
  | invalidateAll keys => simp only [Store.serve, Ledger.serve, (h.invalidateAll keys).1]
  | snapshot =>
    have hentries : store.tick.liveEntries = ledger.tick.entries := h.tick.entries hp.tick
    simp only [Store.serve, Ledger.serve, snapshot, hentries]
  | purge => exact hs.elim
  | advance nanoseconds => rfl

theorem create (lifetimeMilliseconds : Int) (shardCount : Nat) (clock : Clock)
    (hash : Octets → Nat) :
    Mirrors (Store.create lifetimeMilliseconds shardCount clock hash)
      { lifetime := nanoseconds lifetimeMilliseconds, clock } where
  lifetime := rfl
  clock := rfl
  slot? key := by
    rw [liveSlot?_create]
    rfl

end Mirrors

/-- A store shows readers what the map shows them, and gives the same answer to each request that
live slots settle. -/
structure AnswersLike (store : Store) (ledger : Ledger) : Prop where
  slot? : ∀ key, store.liveSlot? key = ledger.slot? key
  reply : ∀ request, ledger.Settles request → (store.serve request).1 = (ledger.serve request).1

theorem Mirrors.answersLike (h : Mirrors store ledger) (hp : store.Placed) :
    AnswersLike store ledger :=
  ⟨h.slot?, fun _ hs => h.fst_serve hp hs⟩

/-- Whatever the lifetime, the number of shards and the spreading of keys over them, a store answers
after any requests like the map in which slots expire after the lifetime that the store counts, in
64 bits of nanoseconds. If the lifetime asked for fits, that is the map of just this lifetime. -/
theorem reply_eq_ledger_reply (lifetimeMilliseconds : Int) (shardCount : Nat) (clock : Clock)
    (hash : Octets → Nat) (earlier : List Request)
    (hforward : ∀ request ∈ earlier, request.Forward) :
    let store := (create lifetimeMilliseconds shardCount clock hash).serveAll earlier
    let ledger (lifetime : Int) := ({ lifetime, clock } : Ledger).serveAll earlier
    AnswersLike store (ledger (nanoseconds lifetimeMilliseconds)) ∧
      (-9223372036854775808 ≤ lifetimeMilliseconds * 1000000 →
        lifetimeMilliseconds * 1000000 < 9223372036854775808 →
        AnswersLike store (ledger (lifetimeMilliseconds * 1000000))) := by
  intro store ledger
  have hp : store.Placed :=
    (placed_create lifetimeMilliseconds shardCount clock hash).serveAll earlier
  have hm : Mirrors store (ledger (nanoseconds lifetimeMilliseconds)) :=
    (Mirrors.create lifetimeMilliseconds shardCount clock hash).serveAll earlier hforward
  have halike := hm.answersLike hp
  refine ⟨halike, ?_⟩
  intro hle hlt
  have hexact : nanoseconds lifetimeMilliseconds = lifetimeMilliseconds * 1000000 :=
    wrap64_eq_self_iff.mpr ⟨hle, hlt⟩
  rw [hexact] at halike
  exact halike

theorem reply_eq_ledger_reply_past_lifetime :
    let earlier : List Request :=
      [.put [97] [1], .advance 6000000, .put [98] [2], .advance 6000000]
    let store := (create 10 2 {} fnv1a).serveAll earlier
    (∀ request ∈ earlier, request.Forward) ∧
      (store.serve .snapshot).1 = .entries [([98], [2])] ∧
      (store.serve (.invalidate [97])).1 = .flag false ∧
      (store.serve (.invalidateIf [98] [2])).1 = .flag true := by
  intro earlier store
  have hforward : ∀ request ∈ earlier, request.Forward := by
    simp [earlier, Request.Forward]
  obtain ⟨-, hexact⟩ := reply_eq_ledger_reply 10 2 {} fnv1a earlier hforward
  obtain ⟨-, hreply⟩ := hexact (by decide) (by decide)
  have hlive : ((({ lifetime := 10 * 1000000, clock := {} } : Ledger).serveAll earlier).slot?
      [98]).isSome := rfl
  refine ⟨hforward, ?_, ?_, ?_⟩
  · exact (hreply .snapshot trivial).trans (by decide +kernel)
  · exact (hreply (.invalidate [97]) trivial).trans (by decide +kernel)
  · have hsettled := hreply (.invalidateIf [98] [2]) (Ledger.settles_invalidateIf.mpr hlive)
    exact hsettled.trans (by decide +kernel)

/-- The nanoseconds of this lifetime do not fit, so that the store counts a negative one: it drops
what it has just written, while the map of the lifetime asked for shows it. -/
theorem uncountable_lifetime_answers_otherwise :
    let written : List Request := [.put (ascii "k") (ascii "v")]
    let store := (create 9223372036855 1 {} fnv1a).serveAll written
    let ledger := ({ lifetime := 9223372036855 * 1000000, clock := {} } : Ledger).serveAll written
    (∀ request ∈ written, request.Forward) ∧ ledger.Settles (.get (ascii "k")) ∧
      (ledger.serve (.get (ascii "k"))).1 = .value (some (ascii "v")) ∧
      (store.serve (.get (ascii "k"))).1 = .value none ∧
      (store.serve (.get (ascii "k"))).2.size = 0 := by
  intro written store ledger
  refine ⟨by simp [written, Request.Forward], trivial, ?_, ?_, ?_⟩ <;> decide +kernel

end Store

end DetectorCache
