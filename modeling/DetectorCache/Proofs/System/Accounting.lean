import DetectorCache.Proofs.Lookup.Readthrough
import DetectorCache.Proofs.Pass.Removals
import DetectorCache.Proofs.System.Encodings
/-!
The counters after any course of events. A read is a hit or a miss; a lookup that misses asks the
service, which may fail; and a corrupt entry that is removed is counted wherever it was met, in a
read, in a pass or by hand. What an event adds to the counters is told from the state that it finds,
without the counters, and nothing else is ever added and nothing taken away.
-/
set_option autoImplicit false

namespace DetectorCache

open Octets (ascii)

namespace Cache

/-- Whether a read of the key finds a live value that cannot be decoded, which it removes. -/
def rejects (cache : Cache) (key : Octets) : Bool :=
  (cache.store.tick.liveSlot? key).any fun slot => Prune.unreadable slot.value

theorem counts_find (cache : Cache) (key : Octets) :
    (cache.find key).2.hits = cache.hits + (cache.cached? key).isSome.toNat ∧
      (cache.find key).2.misses = cache.misses + (cache.cached? key).isNone.toNat := by
  cases hcached : cache.cached? key with
  | some detectors =>
    obtain ⟨-, hhit⟩ := hit_find hcached
    exact ⟨hhit.hits, hhit.misses⟩
  | none =>
    obtain ⟨-, hmiss⟩ := miss_find hcached
    exact ⟨hmiss.hits, hmiss.misses⟩

theorem corruptEvictions_find (cache : Cache) (key : Octets) :
    (cache.find key).2.corruptEvictions =
      cache.corruptEvictions + (cache.rejects key).toNat := by
  have hget : (cache.store.get key).1 = (cache.store.tick.liveSlot? key).map Slot.value :=
    cache.store.fst_get key
  cases hlive : cache.store.tick.liveSlot? key with
  | none => simp [find, onStore, hget, rejects, hlive]
  | some slot =>
    cases hvalue : StoredIds.decode slot.value with
    | ok detectors => simp [find, onStore, hget, rejects, Prune.unreadable, hlive, hvalue]
    | error malformed =>
      -- a read leaves a live slot, so the removal after it finds the value that was read
      have hheld : (cache.store.get key).2.holds (key, slot.value) = true := by
        rw [Store.holds, Store.slot?_get, if_pos rfl, hlive]
        exact decide_eq_true rfl
      have hremoved := removes_evictCorrupt { cache with store := (cache.store.get key).2 } key
        slot.value malformed.message
      rw [hheld] at hremoved
      simp only [find, onStore, hget, rejects, Prune.unreadable, hlive, hvalue, Option.map_some,
        Option.any_some]
      exact hremoved.corruptEvictions

end Cache

namespace Front

variable {σ τ : Type}

def through (front : Front σ) (service : τ) : Front τ where
  cache := front.cache
  service := service
  resolutions := front.resolutions
  resolutionErrors := front.resolutionErrors

/-- What the service answers to a lookup that misses; nothing if the lookup is a hit. -/
def asked? [MappingService σ] (front : Front σ) (tags : Tags) : Option Resolution :=
  match front.cache.cached? (CacheKey.encode tags) with
  | some _ => none
  | none => some (MappingService.resolve tags front.service).1

theorem removes_settle (front : Front σ) (key : Octets) (resolution : Resolution) :
    Cache.Removes 0 front.cache (front.settle key resolution).2.cache ∧
      (front.settle key resolution).2.resolutionErrors =
        front.resolutionErrors + (!resolution.toBool).toNat := by
  cases resolution with
  | error reason => exact ⟨⟨rfl, rfl, rfl⟩, rfl⟩
  | ok mappings => exact ⟨(Cache.removes_noteEach _ _ _ _ _).after (Cache.removes_put _ _ _), rfl⟩

theorem counts_lookup [MappingService σ] (front : Front σ) (tags : Tags) :
    let after := (front.lookup tags).2
    after.cache.hits =
        front.cache.hits + (front.cache.cached? (CacheKey.encode tags)).isSome.toNat ∧
      after.cache.misses =
        front.cache.misses + (front.cache.cached? (CacheKey.encode tags)).isNone.toNat ∧
      after.cache.corruptEvictions =
        front.cache.corruptEvictions + (front.cache.rejects (CacheKey.encode tags)).toNat ∧
      after.resolutions = front.resolutions + (front.asked? tags).isSome.toNat ∧
      after.resolutionErrors =
        front.resolutionErrors + ((front.asked? tags).any fun answer => !answer.toBool).toNat := by
  obtain ⟨hhits, hmisses⟩ := front.cache.counts_find (CacheKey.encode tags)
  have hcorrupt := front.cache.corruptEvictions_find (CacheKey.encode tags)
  cases hcached : front.cache.cached? (CacheKey.encode tags) with
  | some detectors =>
    have hlookup : front.lookup tags =
        (detectors, { front with cache := (front.cache.find (CacheKey.encode tags)).2 }) := by
      simp only [lookup, (Cache.hit_find hcached).1]
    have hasked : front.asked? tags = none := by simp only [asked?, hcached]
    rw [hcached] at hhits hmisses
    rw [hlookup, hasked]
    exact ⟨hhits, hmisses, hcorrupt, rfl, rfl⟩
  | none =>
    have hasked : front.asked? tags = some (MappingService.resolve tags front.service).1 := by
      simp only [asked?, hcached]
    rw [hcached] at hhits hmisses
    rw [lookup_of_not_cached hcached, hasked]
    generalize (MappingService.resolve tags front.service).1 = resolution
    obtain ⟨hsettled, herrors⟩ := removes_settle
      { front with
        cache := (front.cache.find (CacheKey.encode tags)).2
        service := (MappingService.resolve tags front.service).2
        resolutions := front.resolutions + 1 } (CacheKey.encode tags) resolution
    exact ⟨hsettled.hits.trans hhits, hsettled.misses.trans hmisses,
      hsettled.corruptEvictions.trans hcorrupt, resolutions_settle _ _ _, herrors⟩

end Front

namespace System

structure Removes (count : Nat) (before after : System) : Prop where
  cache : Cache.Removes count before.cache after.cache
  resolutions : after.front.resolutions = before.front.resolutions
  resolutionErrors : after.front.resolutionErrors = before.front.resolutionErrors

variable {a b c : System} {m n : Nat}

theorem Removes.trans (hab : Removes m a b) (hbc : Removes n b c) : Removes (m + n) a c where
  cache := hab.cache.trans hbc.cache
  resolutions := hbc.resolutions.trans hab.resolutions
  resolutionErrors := hbc.resolutionErrors.trans hab.resolutionErrors

theorem Removes.after (hab : Removes 0 a b) (hbc : Removes n b c) : Removes n a c :=
  Nat.zero_add n ▸ hab.trans hbc

theorem removes_withCache {s : System} {cache : Cache} (h : Cache.Removes n s.cache cache) :
    Removes n s (s.withCache cache) := ⟨h, rfl, rfl⟩

theorem removes_prime (s : System) (mappings : List Mapping) : Removes 0 s (s.prime mappings) :=
  ⟨s.cache.removes_noteEach _ _ _ _, rfl, rfl⟩

end System

namespace Refresh

/-- How many corrupt entries the rest of a cycle removes: in its prune, if that is still to be made,
and in the eviction that follows it. -/
def Evicting.removals (cycle : Evicting) (s : System) : Nat :=
  cycle.pending.removals s.cache.store

def Pruning.removals (cycle : Pruning) (s : System) : Nat :=
  let pruned := s.onCache cycle.pending.finish
  let started := startEviction cycle.current cycle.delta pruned.1 pruned.2
  cycle.pending.removals s.cache.store +
    match started.1 with
    | .ended _ => 0
    | .scanned evicting => evicting.removals started.2

def Pending.removals : Pending → System → Nat
  | .pruning cycle => cycle.removals
  | .evicting cycle => cycle.removals

theorem removes_close (current : List Mapping) (delta : Delta) (prune : Prune.Report)
    (eviction : Eviction.Report) (s : System) :
    System.Removes 0 s (close current delta prune eviction s).2 :=
  (s.removes_prime current).after ⟨⟨rfl, rfl, rfl⟩, rfl, rfl⟩

theorem removes_startEviction (current : List Mapping) (delta : Delta) (prune : Prune.Report)
    (s : System) : System.Removes 0 s (startEviction current delta prune s).2 := by
  have hstarted : System.Removes 0 s
      (s.onCache (Eviction.start (delta.createdOrChanged ++ delta.retargetedFrom))).2 :=
    System.removes_withCache (Eviction.removes_start _ _)
  rw [startEviction]
  split
  · exact removes_close _ _ _ _ s
  · dsimp only
    split
    · exact hstarted.after (removes_close _ _ _ _ _)
    · exact hstarted

theorem Evicting.removes_finish (cycle : Evicting) (s : System) :
    System.Removes (cycle.removals s) s (cycle.finish s).2 := by
  have hevicted : System.Removes (cycle.removals s) s (s.onCache cycle.pending.finish).2 :=
    System.removes_withCache (cycle.pending.removes_finish s.cache).2
  exact hevicted.trans (removes_close _ _ _ _ _)

theorem Pruning.removes_finish (cycle : Pruning) (s : System) :
    System.Removes (cycle.removals s) s (cycle.finish s).2 := by
  have hpruned : System.Removes (cycle.pending.removals s.cache.store) s
      (s.onCache cycle.pending.finish).2 :=
    System.removes_withCache (cycle.pending.removes_finish s.cache).2
  have hstarted := removes_startEviction cycle.current cycle.delta
    (s.onCache cycle.pending.finish).1 (s.onCache cycle.pending.finish).2
  simp only [finish, removals, Pass.complete]
  cases (startEviction cycle.current cycle.delta
    (s.onCache cycle.pending.finish).1 (s.onCache cycle.pending.finish).2).1 with
  | ended report => exact hpruned.trans hstarted
  | scanned evicting => exact hpruned.trans (hstarted.after (evicting.removes_finish _))

theorem Pending.removes_finish (pending : Pending) (s : System) :
    System.Removes (pending.removals s) s (pending.finish s).2 := by
  cases pending with
  | pruning cycle => exact cycle.removes_finish s
  | evicting cycle => exact cycle.removes_finish s

theorem removes_start (current : List Mapping) (s : System) :
    System.Removes 0 s (start current s).2 := by
  have hrunning : System.Removes 0 s { s with refreshing := true } := ⟨⟨rfl, rfl, rfl⟩, rfl, rfl⟩
  have hpruned : System.Removes 0 s (({ s with refreshing := true } : System).onCache
      (Prune.start (Delta.between s.applied current).newlyDisabled)).2 :=
    hrunning.after (System.removes_withCache (Prune.removes_start _ _))
  rw [start]
  split
  · exact ⟨⟨rfl, rfl, rfl⟩, rfl, rfl⟩
  · dsimp only
    split
    · rw [Pass.snd_suspend]
      exact hrunning.after (removes_startEviction _ _ _ _)
    · split
      · rw [Pass.snd_suspend]
        exact hpruned.after (removes_startEviction _ _ _ _)
      · exact hpruned

end Refresh

def Session.Pending.removals (s : System) : Session.Pending → Nat
  | .listing _ => 0
  | .pruning pending => pending.removals s.cache.store
  | .evicting pending => pending.removals s.cache.store
  | .refreshing pending => pending.removals s

/-- What can happen in a system, with the state in which it does: an action is started, the rest of
one is finished, or a lookup goes through another service than that of the system. -/
inductive Event : Type 1 where
  | started (s : System) (action : Action)
  | finished (s : System) (pending : Session.Pending)
  | looked {σ : Type} [MappingService σ] (s : System) (service : σ) (tags : Tags)

namespace Event

/-- The cache and the key that are read, by a find, a get or a lookup. -/
def read? : Event → Option (Cache × Octets)
  | .started s (.find key) => some (s.cache, key)
  | .started s (.get key) => some (s.cache, key)
  | .started s (.lookup tags) => some (s.cache, CacheKey.encode tags)
  | @looked _ _ s _ tags => some (s.cache, CacheKey.encode tags)
  | _ => none

def isRead (event : Event) : Bool := event.read?.isSome

def isHit (event : Event) : Bool := event.read?.any fun read => (read.1.cached? read.2).isSome

def isMiss (event : Event) : Bool := event.read?.any fun read => (read.1.cached? read.2).isNone

def asked? : Event → Option Resolution
  | .started s (.lookup tags) => s.front.asked? tags
  | @looked _ _ s service tags => (s.front.through service).asked? tags
  | _ => none

def isMissedLookup (event : Event) : Bool := event.asked?.isSome

def isFailedLookup (event : Event) : Bool := event.asked?.any fun answer => !answer.toBool

/-- How many calls for the removal of a corrupt entry remove one. -/
def removals : Event → Nat
  | .started s (.evictCorrupt key value _) => (s.cache.store.holds (key, value)).toNat
  | .finished s pending => pending.removals s
  | event => (event.read?.any fun read => read.1.rejects read.2).toNat

/-- What an event adds to the counters. The size is no counter. -/
structure Counted (event : Event) (before after : Counters) : Prop where
  hits : after.hits = before.hits + event.isHit.toNat
  misses : after.misses = before.misses + event.isMiss.toNat
  resolutions : after.resolutions = before.resolutions + event.isMissedLookup.toNat
  resolutionErrors : after.resolutionErrors = before.resolutionErrors + event.isFailedLookup.toNat
  corruptEvictions : after.corruptEvictions = before.corruptEvictions + event.removals

theorem Counted.of_removes {event : Event} {before after : System}
    (h : System.Removes event.removals before after) (hread : event.read? = none)
    (hasked : event.asked? = none) :
    event.Counted (.ofFront before.front) (.ofFront after.front) where
  hits := by rw [isHit, hread]; exact h.cache.hits
  misses := by rw [isMiss, hread]; exact h.cache.misses
  resolutions := by rw [isMissedLookup, hasked]; exact h.resolutions
  resolutionErrors := by rw [isFailedLookup, hasked]; exact h.resolutionErrors
  corruptEvictions := h.cache.corruptEvictions

theorem counted_finished (s : System) (pending : Session.Pending) :
    (finished s pending).Counted (.ofFront s.front) (.ofFront (pending.finish s).2.front) := by
  refine .of_removes ?_ rfl rfl
  cases pending with
  | listing entries => exact ⟨⟨rfl, rfl, rfl⟩, rfl, rfl⟩
  | pruning pending => exact System.removes_withCache (pending.removes_finish s.cache).2
  | evicting pending => exact System.removes_withCache (pending.removes_finish s.cache).2
  | refreshing pending => exact pending.removes_finish s

theorem counted_looked {σ : Type} [MappingService σ] (s : System) (service : σ) (tags : Tags) :
    (looked s service tags).Counted (.ofFront s.front)
      (.ofFront ((s.front.through service).lookup tags).2) := by
  obtain ⟨hhits, hmisses, hcorrupt, hresolutions, herrors⟩ :=
    (s.front.through service).counts_lookup tags
  exact ⟨hhits, hmisses, hresolutions, herrors, hcorrupt⟩

theorem counted_started (s : System) (action : Action) :
    (started s action).Counted (.ofFront s.front) (.ofFront (Session.start s action).2.front) := by
  have hnothing : ∀ {cache : Cache}, s.cache.Removes 0 cache →
      System.Removes 0 s (s.withCache cache) := System.removes_withCache
  cases action with
  | find key =>
    obtain ⟨hhits, hmisses⟩ := s.cache.counts_find key
    exact ⟨hhits, hmisses, rfl, rfl, s.cache.corruptEvictions_find key⟩
  | get key =>
    obtain ⟨hhits, hmisses⟩ := s.cache.counts_find key
    exact ⟨hhits, hmisses, rfl, rfl, s.cache.corruptEvictions_find key⟩
  | lookup tags =>
    obtain ⟨hhits, hmisses, hcorrupt, hresolutions, herrors⟩ := s.front.counts_lookup tags
    exact ⟨hhits, hmisses, hresolutions, herrors, hcorrupt⟩
  | put key detectors => exact .of_removes (hnothing (s.cache.removes_put key detectors)) rfl rfl
  | evictCorrupt key value reason =>
    exact .of_removes (System.removes_withCache (s.cache.removes_evictCorrupt key value reason))
      rfl rfl
  | prime mappings => exact .of_removes (s.removes_prime mappings) rfl rfl
  | prune mappings =>
    rw [Session.start, Session.snd_reported]
    exact .of_removes (hnothing (Prune.removes_start mappings s.cache)) rfl rfl
  | evict mappings =>
    rw [Session.start, Session.snd_reported]
    exact .of_removes (hnothing (Eviction.removes_start mappings s.cache)) rfl rfl
  | refresh mappings =>
    rw [Session.start, Session.snd_reported]
    exact .of_removes (Refresh.removes_start mappings s) rfl rfl
  | _ => exact .of_removes ⟨⟨rfl, rfl, rfl⟩, rfl, rfl⟩ rfl rfl

theorem countP_cons_eq_add (flag : Event → Bool) (event : Event) (events : List Event) :
    (event :: events).countP flag = (flag event).toNat + events.countP flag := by
  rw [List.countP_cons, Nat.add_comm]
  cases flag event <;> rfl

theorem countP_isHit_add_isMiss (events : List Event) :
    events.countP isHit + events.countP isMiss = events.countP isRead := by
  have hone : ∀ event : Event, event.isHit.toNat + event.isMiss.toNat = event.isRead.toNat := by
    intro event
    rw [isHit, isMiss, isRead]
    cases event.read? with
    | none => rfl
    | some read =>
      rw [Option.any_some, Option.any_some]
      cases read.1.cached? read.2 <;> rfl
  induction events with
  | nil => rfl
  | cons event events ih =>
    have hfirst := hone event
    rw [countP_cons_eq_add, countP_cons_eq_add, countP_cons_eq_add]
    omega

theorem asked?_of_not_isRead {event : Event} (h : event.isRead = false) : event.asked? = none := by
  cases event with
  | started s action =>
    cases action with
    | lookup tags => cases h
    | _ => rfl
  | finished s pending => rfl
  | looked s service tags => cases h

theorem Counted.eq_of_not_isRead {event : Event} {before after : Counters}
    (h : event.Counted before after) (hread : event.isRead = false) (hnone : event.removals = 0) :
    after = { before with size := after.size } := by
  have hnoread : event.read? = none := Option.not_isSome_iff_eq_none.mp (Bool.eq_false_iff.mp hread)
  obtain ⟨hhits, hmisses, hresolutions, herrors, hcorrupt⟩ := h
  rw [isHit, hnoread] at hhits
  rw [isMiss, hnoread] at hmisses
  rw [isMissedLookup, asked?_of_not_isRead hread] at hresolutions
  rw [isFailedLookup, asked?_of_not_isRead hread] at herrors
  rw [hnone] at hcorrupt
  obtain ⟨hits, misses, size, corruptEvictions, resolutions, resolutionErrors⟩ := after
  cases hhits
  cases hmisses
  cases hresolutions
  cases herrors
  cases hcorrupt
  rfl

end Event

/-- The counters are those of the events: every one is counted where it belongs, and nothing
else is. -/
structure Counters.Account (events : List Event) (counters : Counters) : Prop where
  hits : counters.hits = events.countP Event.isHit
  misses : counters.misses = events.countP Event.isMiss
  resolutions : counters.resolutions = events.countP Event.isMissedLookup
  resolutionErrors : counters.resolutionErrors = events.countP Event.isFailedLookup
  corruptEvictions : counters.corruptEvictions = total (events.map Event.removals)

theorem total_append (counts others : List Nat) :
    total (counts ++ others) = total counts + total others := by
  induction counts with
  | nil => rw [List.nil_append, total, Nat.zero_add]
  | cons n counts ih => rw [List.cons_append, total, total, ih, Nat.add_assoc]

theorem Counters.Account.snoc {events : List Event} {event : Event} {before after : Counters}
    (h : before.Account events) (hevent : event.Counted before after) :
    after.Account (events ++ [event]) := by
  have hcount : ∀ flag : Event → Bool,
      (events ++ [event]).countP flag = events.countP flag + (flag event).toNat := by
    intro flag
    rw [List.countP_append, Event.countP_cons_eq_add, List.countP_nil, Nat.add_zero]
  refine ⟨?_, ?_, ?_, ?_, ?_⟩
  · rw [hevent.hits, hcount, h.hits]
  · rw [hevent.misses, hcount, h.misses]
  · rw [hevent.resolutions, hcount, h.resolutions]
  · rw [hevent.resolutionErrors, hcount, h.resolutionErrors]
  · rw [hevent.corruptEvictions, h.corruptEvictions, List.map_append, total_append, List.map_cons,
      List.map_nil, total, total, Nat.add_zero]

/-- No counter is less, whatever the size has become. -/
structure Counters.NoLess (before after : Counters) : Prop where
  hits : before.hits ≤ after.hits
  misses : before.misses ≤ after.misses
  resolutions : before.resolutions ≤ after.resolutions
  resolutionErrors : before.resolutionErrors ≤ after.resolutionErrors
  corruptEvictions : before.corruptEvictions ≤ after.corruptEvictions

theorem Counters.Account.noLess {events later : List Event} {before after : Counters}
    (h : before.Account events) (hafter : after.Account (events ++ later)) :
    before.NoLess after where
  hits := by rw [h.hits, hafter.hits, List.countP_append]; omega
  misses := by rw [h.misses, hafter.misses, List.countP_append]; omega
  resolutions := by rw [h.resolutions, hafter.resolutions, List.countP_append]; omega
  resolutionErrors := by
    rw [h.resolutionErrors, hafter.resolutionErrors, List.countP_append]
    omega
  corruptEvictions := by
    rw [h.corruptEvictions, hafter.corruptEvictions, List.map_append, total_append]
    omega

/-- The courses that a system can take, with the actions that have stopped at a snapshot: from a
fresh one, actions are started, stopped ones finished at any later time and in any order, and
lookups go through any other service. -/
inductive Course : List Event → System → List Session.Pending → Prop where
  | fresh (lifetimeMilliseconds : Int) (shardCount : Nat) (clock : Clock) (hash : Octets → Nat)
      (journal : Journal) (service : Directory) :
      Course [] (System.fresh lifetimeMilliseconds shardCount clock hash journal service) []
  | start {events : List Event} {s : System} {waiting : List Session.Pending}
      (before : Course events s waiting) (action : Action) :
      Course (events ++ [.started s action]) (Session.start s action).2
        (Session.stopped (Session.start s action).1 ++ waiting)
  | finish {events : List Event} {s : System} {first rest : List Session.Pending}
      {pending : Session.Pending} (before : Course events s (first ++ pending :: rest)) :
      Course (events ++ [.finished s pending]) (pending.finish s).2 (first ++ rest)
  | look {events : List Event} {s : System} {waiting : List Session.Pending}
      (before : Course events s waiting) {σ : Type} [MappingService σ] (service : σ) (tags : Tags) :
      Course (events ++ [.looked s service tags])
        { s with front := ((s.front.through service).lookup tags).2.through s.front.service }
        waiting

namespace Course

variable {events : List Event} {s : System} {waiting : List Session.Pending}

theorem account (h : Course events s waiting) : (Counters.ofFront s.front).Account events := by
  induction h with
  | fresh => exact ⟨rfl, rfl, rfl, rfl, rfl⟩
  | start _ action ih => exact ih.snoc (Event.counted_started _ action)
  | finish _ ih => exact ih.snoc (Event.counted_finished _ _)
  | look _ service tags ih => exact ih.snoc (Event.counted_looked _ service tags)

def performed (s : System) (action : Action) : List Event :=
  .started s action ::
    match (Session.start s action).1 with
    | .ended _ => []
    | .scanned pending => [.finished (Session.start s action).2 pending]

def performedAll (s : System) : List Action → List Event
  | [] => []
  | action :: actions => performed s action ++ performedAll (Session.perform s action).2 actions

theorem perform (h : Course events s waiting) (action : Action) :
    Course (events ++ performed s action) (Session.perform s action).2 waiting := by
  have hstart := h.start action
  rw [performed, Session.perform, Pass.complete]
  cases hstopped : (Session.start s action).1 with
  | ended answer =>
    rw [hstopped] at hstart
    exact hstart
  | scanned pending =>
    rw [hstopped] at hstart
    have hwaiting : Course _ _ ([] ++ pending :: waiting) := hstart
    have hfinish := hwaiting.finish
    rwa [List.append_assoc] at hfinish

theorem performAll (h : Course events s waiting) (actions : List Action) :
    Course (events ++ performedAll s actions) (Session.performAll s actions).2 waiting := by
  induction actions generalizing events s with
  | nil =>
    rw [performedAll, List.append_nil]
    exact h
  | cons action actions ih =>
    have hothers := ih (h.perform action)
    rwa [List.append_assoc] at hothers

/-- After any course every read has been counted once, as a hit or as a miss, every lookup that
missed as a resolution, every failure of one as an error, and every removal of a corrupt entry that
removed one. Whatever comes next, an action, the rest of a stopped one or a lookup through another
service, adds to the counters what it has to; what neither reads nor removes a corrupt entry leaves
them as they are, and however the course goes on no counter is ever less. -/
theorem counters_account (h : Course events s waiting) :
    let counters := Counters.ofFront s.front
    (counters.hits + counters.misses = events.countP Event.isRead ∧
      counters.hits = events.countP Event.isHit ∧
      counters.misses = events.countP Event.isMiss ∧
      counters.resolutions = events.countP Event.isMissedLookup ∧
      counters.resolutionErrors = events.countP Event.isFailedLookup ∧
      counters.corruptEvictions = total (events.map Event.removals)) ∧
    (∀ action,
      (Event.started s action).Counted counters
        (.ofFront (Session.start s action).2.front)) ∧
    (∀ pending : Session.Pending,
      (Event.finished s pending).Counted counters (.ofFront (pending.finish s).2.front)) ∧
    (∀ {σ : Type} [MappingService σ] (service : σ) (tags : Tags),
      (Event.looked s service tags).Counted counters
        (.ofFront ((s.front.through service).lookup tags).2)) ∧
    (∀ action, (Event.started s action).isRead = false → (Event.started s action).removals = 0 →
      Counters.ofFront (Session.start s action).2.front =
        { counters with size := (Counters.ofFront (Session.start s action).2.front).size }) ∧
    ∀ (later : List Event) (t : System) (left : List Session.Pending),
      Course (events ++ later) t left → counters.NoLess (.ofFront t.front) := by
  intro counters
  have haccount := h.account
  refine ⟨⟨?_, haccount.hits, haccount.misses, haccount.resolutions, haccount.resolutionErrors,
      haccount.corruptEvictions⟩, Event.counted_started s, Event.counted_finished s,
    Event.counted_looked s, ?_, fun _ _ _ hlater => haccount.noLess hlater.account⟩
  · rw [← Event.countP_isHit_add_isMiss, ← haccount.hits, ← haccount.misses]
  · intro action hread hnone
    exact (Event.counted_started s action).eq_of_not_isRead hread hnone

/-- A lookup of a corrupt entry misses and removes it, and its service fails; the next one asks
again, and then an empty list is found. Another corrupt entry is read while a prune waits that was
shown it: the read removes it, the prune finds it gone, and only one removal is counted. -/
theorem counters_account_of_corrupt_entries :
    let tags : Tags := .ofList [(ascii "region", ascii "us")]
    let other := ascii "region:eu"
    let service : Directory := { outage := 1, reason := ascii "down" }
    let empty := System.fresh 1000 2 {} fnv1a { threshold := .error } service
    let looked := (Session.performAll empty
      [.putEncoded [(CacheKey.encode tags, ascii "?"), (other, ascii "?")], .lookup tags,
        .lookup tags, .lookup tags]).2
    let stopped := Session.start looked
      (.prune [⟨⟨ascii "0000000a-0000-4000-8000-000000000001", false⟩, []⟩])
    let read := (Session.start stopped.2 (.get other)).2
    ∃ pending, Session.stopped stopped.1 = [pending] ∧
      let counters := Counters.ofFront (pending.finish read).2.front
      counters.hits + counters.misses = 4 ∧ counters.hits = 1 ∧ counters.resolutions = 2 ∧
        counters.resolutionErrors = 1 ∧ counters.corruptEvictions = 2 := by
  intro tags other service empty looked stopped read
  have hlooked : Course _ looked [] := (Course.fresh 1000 2 {} fnv1a _ service).performAll _
  have hstopped := hlooked.start
    (.prune [⟨⟨ascii "0000000a-0000-4000-8000-000000000001", false⟩, []⟩])
  have hread := hstopped.start (.get other)
  have hfinished : Course _ _ _ := @Course.finish _ read [] [] _ hread
  obtain ⟨⟨hreads, hhits, -, hresolutions, herrors, hcorrupt⟩, -⟩ := hfinished.counters_account
  refine ⟨_, rfl, hreads.trans ?_, hhits.trans ?_, hresolutions.trans ?_, herrors.trans ?_,
    hcorrupt.trans ?_⟩
  all_goals decide +kernel

end Course

end DetectorCache
