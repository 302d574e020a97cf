import DetectorCache.Proofs.Store.Placement
/-!
The traffic of a store: the requests that it serves, as data. Whatever the layers above do to a
store they do by requests, so what every request keeps is kept by them all, and what a request can
make readers see is what they saw before or what the request writes.
-/
set_option autoImplicit false

namespace DetectorCache.Store

/-- What can be asked of a store. -/
inductive Request where
  | get (key : Octets)
  | put (key value : Octets)
  | invalidate (key : Octets)
  | invalidateIf (key expected : Octets)
  | replaceIf (key expected value : Octets)
  | invalidateAll (keys : List Octets)
  | snapshot
  | purge
  | advance (nanoseconds : Int)

inductive Reply where
  | done
  | value (found : Option Octets)
  | flag (value : Bool)
  | count (value : Nat)
  | entries (value : List Entry)
  deriving DecidableEq

def serve (store : Store) : Request → Reply × Store
  | .get key =>
    let result := store.get key
    (.value result.1, result.2)
  | .put key value => (.done, store.put key value)
  | .invalidate key =>
    let result := store.invalidate key
    (.flag result.1, result.2)
  | .invalidateIf key expected =>
    let result := store.invalidateIf key expected
    (.flag result.1, result.2)
  | .replaceIf key expected value =>
    let result := store.replaceIf key expected value
    (.flag result.1, result.2)
  | .invalidateAll keys =>
    let result := store.invalidateAll keys
    (.count result.1, result.2)
  | .snapshot =>
    let result := store.snapshot
    (.entries result.1, result.2)
  | .purge =>
    let result := store.purge
    (.count result.1, result.2)
  | .advance nanoseconds => (.done, store.advance nanoseconds)

def serveAll (store : Store) : List Request → Store
  | [] => store
  | request :: requests => serveAll (store.serve request).2 requests

/-- The clock is not set back. -/
def Request.Forward : Request → Prop
  | .advance nanoseconds => 0 ≤ nanoseconds
  | _ => True

def Request.written? : Request → Option Entry
  | .put key value => some (key, value)
  | .replaceIf key _ value => some (key, value)
  | _ => none

/-- A request that does not set the clock back and writes good entries only. -/
structure Request.Writes (good : Octets → Octets → Prop) (request : Request) : Prop where
  forward : request.Forward
  good : ∀ key value, request.written? = some (key, value) → good key value

namespace Request.Writes

variable {good better : Octets → Octets → Prop} {request : Request}

theorem of_readOnly (hforward : request.Forward) (h : request.written? = none) :
    request.Writes good := by
  refine ⟨hforward, ?_⟩
  intro key value hwritten
  rw [h] at hwritten
  cases hwritten

theorem of_write {key value : Octets} (hforward : request.Forward)
    (h : request.written? = some (key, value)) (hgood : good key value) :
    request.Writes good := by
  refine ⟨hforward, ?_⟩
  intro k v hwritten
  rw [h] at hwritten
  cases hwritten
  exact hgood

theorem mono (h : request.Writes good)
    (himp : ∀ key value, good key value → better key value) : request.Writes better :=
  ⟨h.forward, fun key value hwritten => himp key value (h.good key value hwritten)⟩

end Request.Writes

variable {store : Store}

theorem Placed.serve (h : store.Placed) (request : Request) : (store.serve request).2.Placed := by
  cases request with
  | get key => exact h.get key
  | put key value => exact h.put key value
  | invalidate key => exact h.invalidate key
  | invalidateIf key expected => exact h.invalidateIf key expected
  | replaceIf key expected value => exact h.replaceIf key expected value
  | invalidateAll keys => exact h.invalidateAll keys
  | snapshot => exact h.tick
  | purge => exact h.purge
  | advance nanoseconds => exact h

theorem Placed.serveAll (h : store.Placed) (requests : List Request) :
    (store.serveAll requests).Placed := by
  induction requests generalizing store with
  | nil => exact h
  | cons request requests ih => exact ih (h.serve request)

theorem liveSlot?_of_tick {key : Octets} {slot : Slot}
    (h : store.tick.liveSlot? key = some slot) : store.liveSlot? key = some slot := by
  rw [liveSlot?_tick] at h
  exact (unexpired_eq_some_iff.mp h).1

/-- A live slot was live before a request, or the request has written it. -/
theorem liveSlot?_of_serve {request : Request} (hforward : request.Forward) {key : Octets}
    {slot : Slot} (h : (store.serve request).2.liveSlot? key = some slot) :
    store.liveSlot? key = some slot ∨ request.written? = some (key, slot.value) := by
  have hfresh : ∀ {value : Octets},
      unexpired store.lifetime store.tick.now (some ⟨value, store.tick.now⟩) = some slot →
        value = slot.value := by
    intro value hu
    cases (unexpired_eq_some_iff.mp hu).1
    rfl
  cases request with
  | get k =>
    have hs : (store.get k).2.liveSlot? key = some slot := h
    rw [liveSlot?_get] at hs
    exact Or.inl (liveSlot?_of_tick hs)
  | put k value =>
    have hs : (store.put k value).liveSlot? key = some slot := h
    rw [liveSlot?_put] at hs
    split at hs
    · next hk => exact Or.inr (by rw [Request.written?, hk, hfresh hs])
    · exact Or.inl (liveSlot?_of_tick hs)
  | invalidate k =>
    have hs : (store.invalidate k).2.liveSlot? key = some slot := h
    rw [liveSlot?_invalidate] at hs
    split at hs
    · cases hs
    · exact Or.inl (liveSlot?_of_tick hs)
  | invalidateIf k expected =>
    have hs : (store.invalidateIf k expected).2.liveSlot? key = some slot := h
    rw [liveSlot?_invalidateIf] at hs
    split at hs
    · next hk => exact Or.inl (hk ▸ (Option.filter_eq_some_iff.mp hs).1)
    · exact Or.inl hs
  | replaceIf k expected value =>
    have hs : (store.replaceIf k expected value).2.liveSlot? key = some slot := h
    rw [liveSlot?_replaceIf] at hs
    split at hs
    · next hk =>
      split at hs
      · exact Or.inr (by rw [Request.written?, hk, hfresh hs])
      · exact Or.inl (hk ▸ liveSlot?_of_tick hs)
    · exact Or.inl (liveSlot?_of_tick hs)
  | invalidateAll keys =>
    have hs : (store.invalidateAll keys).2.liveSlot? key = some slot := h
    rw [liveSlot?_invalidateAll] at hs
    split at hs
    · cases hs
    · exact Or.inl (unexpired_eq_some_iff.mp hs).1
  | snapshot => exact Or.inl (liveSlot?_of_tick h)
  | purge =>
    have hs : store.purge.2.liveSlot? key = some slot := h
    rw [liveSlot?_purge] at hs
    exact Or.inl (liveSlot?_of_tick hs)
  | advance nanoseconds =>
    have hs : (store.advance nanoseconds).liveSlot? key = some slot := h
    rw [liveSlot?_advance store hforward] at hs
    exact Or.inl (unexpired_eq_some_iff.mp hs).1

theorem AllLive.serve {good : Octets → Octets → Prop} (h : store.AllLive good) {request : Request}
    (hw : request.Writes good) : (store.serve request).2.AllLive good := by
  intro key slot hslot
  rcases liveSlot?_of_serve hw.forward hslot with hbefore | hwritten
  · exact h key slot hbefore
  · exact hw.good key slot.value hwritten

theorem AllLive.mono {good better : Octets → Octets → Prop} (h : store.AllLive good)
    (himp : ∀ key value, good key value → better key value) : store.AllLive better :=
  fun key slot hslot => himp key slot.value (h key slot hslot)

theorem AllLive.replaceIf {good : Octets → Octets → Prop} (h : store.AllLive good)
    (key expected value : Octets) :
    (store.replaceIf key expected value).2.AllLive fun k v =>
      (good k v ∧ ¬ (key = k ∧ expected = v)) ∨ (key = k ∧ value = v) := by
  intro k slot hslot
  rw [liveSlot?_replaceIf] at hslot
  by_cases hk : k = key
  · rw [if_pos hk] at hslot
    split at hslot
    · obtain ⟨hvalue, -⟩ := unexpired_eq_some_iff.mp hslot
      cases hvalue
      exact Or.inr ⟨hk.symm, rfl⟩
    · next hfound =>
      refine Or.inl ⟨h k slot (hk ▸ liveSlot?_of_tick hslot), ?_⟩
      intro hgiven
      obtain ⟨-, hexpected⟩ := hgiven
      rw [hslot, hexpected] at hfound
      exact hfound rfl
  · rw [if_neg hk] at hslot
    exact Or.inl ⟨h k slot (liveSlot?_of_tick hslot), fun heq => hk heq.1.symm⟩

theorem AllLive.invalidateAll {good : Octets → Octets → Prop} (h : store.AllLive good)
    (keys : List Octets) :
    (store.invalidateAll keys).2.AllLive fun k v => good k v ∧ k ∉ keys := by
  intro k slot hslot
  rw [liveSlot?_invalidateAll] at hslot
  split at hslot
  · cases hslot
  · next hk => exact ⟨h k slot (unexpired_eq_some_iff.mp hslot).1, hk⟩

theorem Placed.allLive_snapshot (h : store.Placed) :
    store.tick.AllLive fun k v => (k, v) ∈ store.tick.liveEntries :=
  fun _ slot hslot => h.tick.mem_liveEntries.mpr ⟨slot, hslot, rfl⟩

theorem AllLive.of_mem_snapshot {good : Octets → Octets → Prop} (h : store.AllLive good)
    (hplaced : store.Placed) {k v : Octets} (hmem : (k, v) ∈ store.tick.liveEntries) :
    good k v := by
  obtain ⟨slot, hslot, rfl⟩ := hplaced.tick.mem_liveEntries.mp hmem
  exact h k slot (liveSlot?_of_tick hslot)

/-- The second store comes from the first by requests of an allowed kind. -/
def Traffic (allowed : Request → Prop) (before after : Store) : Prop :=
  ∃ requests, (∀ request ∈ requests, allowed request) ∧ after = before.serveAll requests

namespace Traffic

variable {allowed : Request → Prop} {a b c : Store}

theorem refl (store : Store) : Traffic allowed store store := ⟨[], by simp, rfl⟩

theorem serveAll_append (store : Store) (first second : List Request) :
    store.serveAll (first ++ second) = (store.serveAll first).serveAll second := by
  induction first generalizing store with
  | nil => rfl
  | cons request requests ih => exact ih (store.serve request).2

theorem trans (hab : Traffic allowed a b) (hbc : Traffic allowed b c) : Traffic allowed a c := by
  obtain ⟨first, hfirst, rfl⟩ := hab
  obtain ⟨second, hsecond, rfl⟩ := hbc
  refine ⟨first ++ second, ?_, (serveAll_append a first second).symm⟩
  intro request hmem
  rcases List.mem_append.mp hmem with hmem | hmem
  · exact hfirst request hmem
  · exact hsecond request hmem

theorem single {request : Request} (h : allowed request) :
    Traffic allowed a (a.serve request).2 := ⟨[request], by simpa using h, rfl⟩

theorem mono {wider : Request → Prop} (h : Traffic allowed a b)
    (himp : ∀ request, allowed request → wider request) : Traffic wider a b := by
  obtain ⟨requests, hall, rfl⟩ := h
  exact ⟨requests, fun request hmem => himp request (hall request hmem), rfl⟩

theorem placed (h : Traffic allowed a b) (ha : a.Placed) : b.Placed := by
  obtain ⟨requests, -, rfl⟩ := h
  exact ha.serveAll requests

theorem allLive {good : Octets → Octets → Prop} (h : Traffic (Request.Writes good) a b)
    (ha : a.AllLive good) : b.AllLive good := by
  obtain ⟨requests, hall, rfl⟩ := h
  induction requests generalizing a with
  | nil => exact ha
  | cons request requests ih =>
    have hrest := fun r hr => hall r (List.mem_cons_of_mem _ hr)
    exact ih (ha.serve (hall request List.mem_cons_self)) hrest

variable {good better : Octets → Octets → Prop}

theorem writes_mono (h : Traffic (Request.Writes good) a b)
    (himp : ∀ key value, good key value → better key value) :
    Traffic (Request.Writes better) a b :=
  h.mono fun _ hw => hw.mono himp

theorem any (h : Traffic (Request.Writes fun _ _ => True) a b) : Traffic (fun _ => True) a b :=
  h.mono fun _ _ => trivial

theorem readOnly (request : Request) (hforward : request.Forward)
    (h : request.written? = none) : Traffic (Request.Writes good) a (a.serve request).2 :=
  single (Request.Writes.of_readOnly hforward h)

theorem write (request : Request) {key value : Octets} (hforward : request.Forward)
    (h : request.written? = some (key, value)) (hgood : good key value) :
    Traffic (Request.Writes good) a (a.serve request).2 :=
  single (Request.Writes.of_write hforward h hgood)

theorem of_eq (h : b = a) : Traffic allowed a b := by
  rw [h]
  exact refl a

theorem of_tick (h : b = a.tick) : Traffic (Request.Writes good) a b := by
  rw [h]
  exact readOnly .snapshot trivial rfl

end Traffic

end DetectorCache.Store
