import DetectorCache.Proofs.Cache.Outcomes
import DetectorCache.Proofs.Pass.Affected
import DetectorCache.Proofs.Pass.Encoded
/-!
Corrupt entries that are removed, and the counting of them. A removal succeeds where the value in
question is still held, live or not, and each one is counted once. Of the entries that a pass could
not decode, it removes those that are still what the snapshot showed when the pass goes on: neither
the cuts of a prune nor the removals of an eviction touch them.
-/
set_option autoImplicit false

namespace DetectorCache

namespace Store

def holds (store : Store) (entry : Entry) : Bool :=
  decide ((store.slot? entry.1).map Slot.value = some entry.2)

/-- How many of the entries are held, each counted once. -/
def heldAmong (store : Store) (entries : List Entry) : Nat :=
  entries.eraseDups.countP store.holds

theorem holds_congr {a b : Store} {entry : Entry} (h : a.slot? entry.1 = b.slot? entry.1) :
    a.holds entry = b.holds entry := by
  rw [holds, holds, h]

theorem heldAmong_congr {a b : Store} {entries : List Entry}
    (h : ∀ entry ∈ entries, a.holds entry = b.holds entry) :
    a.heldAmong entries = b.heldAmong entries := by
  refine List.countP_congr fun entry hentry => ?_
  rw [h entry (List.mem_eraseDups.mp hentry)]

theorem holds_invalidateIf (store : Store) (removed entry : Entry) :
    (store.invalidateIf removed.1 removed.2).2.holds entry =
      (store.holds entry && !(entry == removed)) := by
  rw [Bool.eq_iff_iff, holds, holds, slot?_invalidateIf]
  simp only [decide_eq_true_eq, Bool.and_eq_true, Bool.not_eq_true', beq_eq_false_iff_ne]
  by_cases hkey : entry.1 = removed.1
  · have hentry : entry = removed ↔ entry.2 = removed.2 := by simp [Prod.ext_iff, hkey]
    rw [if_pos hkey, ← hkey, Ne, hentry]
    simp only [Option.map_eq_some_iff, Option.filter_eq_some_iff, decide_eq_true_eq]
    constructor
    · rintro ⟨slot, ⟨hslot, hother⟩, hvalue⟩
      exact ⟨⟨slot, hslot, hvalue⟩, hvalue ▸ hother⟩
    · rintro ⟨⟨slot, hslot, hvalue⟩, hother⟩
      exact ⟨slot, ⟨hslot, hvalue ▸ hother⟩, hvalue⟩
  · rw [if_neg hkey]
    exact ⟨fun heq => ⟨heq, fun hsame => hkey (congrArg Prod.fst hsame)⟩, And.left⟩

end Store

namespace Cache

/-- Nothing is counted but some removed corrupt entries. -/
structure Removes (count : Nat) (before after : Cache) : Prop where
  hits : after.hits = before.hits
  misses : after.misses = before.misses
  corruptEvictions : after.corruptEvictions = before.corruptEvictions + count

variable {a b c : Cache} {m n : Nat}

theorem Removes.refl (cache : Cache) : Removes 0 cache cache := ⟨rfl, rfl, rfl⟩

theorem Removes.trans (hab : Removes m a b) (hbc : Removes n b c) : Removes (m + n) a c where
  hits := hbc.hits.trans hab.hits
  misses := hbc.misses.trans hab.misses
  corruptEvictions := by rw [hbc.corruptEvictions, hab.corruptEvictions, Nat.add_assoc]

theorem Removes.after (hab : Removes 0 a b) (hbc : Removes n b c) : Removes n a c :=
  Nat.zero_add n ▸ hab.trans hbc

theorem removes_noteEach {α : Type} (cache : Cache) (items : List α) (level : Journal.Level)
    (message : String) (fields : α → List (String × Octets)) :
    Removes 0 cache (cache.noteEach items level message fields) := by
  obtain ⟨journal, heq⟩ := cache.noteEach_eq items level message fields
  rw [heq]
  exact ⟨rfl, rfl, rfl⟩

theorem removes_put (cache : Cache) (key : Octets) (detectors : List Detector) :
    Removes 0 cache (cache.put key detectors) := by
  obtain ⟨journal, heq⟩ := cache.put_eq key detectors
  rw [heq]
  exact ⟨rfl, rfl, rfl⟩

theorem removes_evictCorrupt (cache : Cache) (key value reason : Octets) :
    Removes (cache.store.holds (key, value)).toNat cache
      (cache.evictCorrupt key value reason).2 := by
  obtain ⟨hhits, hmisses⟩ := counts_evictCorrupt cache key value reason
  refine ⟨hhits, hmisses, ?_⟩
  have hremoved : (cache.store.invalidateIf key value).1 = cache.store.holds (key, value) :=
    cache.store.fst_invalidateIf_eq key value
  cases hheld : cache.store.holds (key, value) <;>
    simp [evictCorrupt, onStore, hremoved, hheld, note, refreshGauge]

end Cache

namespace Pass

open Cache (Removes)

/-- Of corrupt entries those that are held are removed, each of them once. -/
theorem removes_evictAll (cache : Cache) (reason : Octets) (entries : List Entry) :
    (evictAll cache reason entries).1 = cache.store.heldAmong entries ∧
      Removes (cache.store.heldAmong entries) cache (evictAll cache reason entries).2 := by
  induction entries generalizing cache with
  | nil => exact ⟨rfl, .refl cache⟩
  | cons entry entries ih =>
    have hfirst := cache.removes_evictCorrupt entry.1 entry.2 reason
    obtain ⟨hcount, hothers⟩ := ih (cache.evictCorrupt entry.1 entry.2 reason).2
    -- the first removal takes its entry away, so that repetitions of it no longer count
    have hheld : (cache.evictCorrupt entry.1 entry.2 reason).2.store.heldAmong entries =
        (entries.eraseDups.filter fun e => !(e == entry)).countP cache.store.holds := by
      rw [Cache.store_evictCorrupt, Store.heldAmong, List.countP_filter]
      exact List.countP_congr fun e _ => by rw [Store.holds_invalidateIf]
    have hall : cache.store.heldAmong (entry :: entries) =
        (cache.store.holds entry).toNat +
          (cache.evictCorrupt entry.1 entry.2 reason).2.store.heldAmong entries := by
      rw [hheld, Store.heldAmong, List.eraseDups_cons, Octets.eraseDups_filter, List.countP_cons,
        Nat.add_comm]
      cases cache.store.holds entry <;> rfl
    rw [hall]
    refine ⟨?_, hfirst.trans hothers⟩
    rw [evictAll, hcount]
    exact congrArg (Bool.toNat · + _) (fst_evictCorrupt cache entry.1 entry.2 reason)

end Pass

namespace Prune

open Cache (Removes)

theorem removes_start (disabled : List Mapping) (cache : Cache) :
    Removes 0 cache (start disabled cache).2 := by
  simp only [start]
  split
  · exact cache.removes_noteEach _ _ _ _
  · exact (cache.removes_noteEach _ _ _ _).after ⟨rfl, rfl, rfl⟩

theorem removes_applyAll (cuts : List Cut) (state : Report × Cache) :
    Removes 0 state.2 (applyAll cuts state).2 := by
  induction cuts generalizing state with
  | nil => exact .refl _
  | cons cut cuts ih =>
    refine Removes.after ?_ (ih (cut.apply state))
    rw [Cut.apply]
    split <;> exact ⟨rfl, rfl, rfl⟩

theorem holds_applyAll {cuts : List Cut} {entry : Entry} (hentry : unreadable entry.2 = true)
    (hcuts : ∀ cut ∈ cuts, unreadable cut.found = false ∧ unreadable cut.value = false)
    (state : Report × Cache) :
    (applyAll cuts state).2.store.holds entry = state.2.store.holds entry := by
  induction cuts generalizing state with
  | nil => rfl
  | cons cut cuts ih =>
    refine (ih (fun c hc => hcuts c (List.mem_cons_of_mem _ hc)) (cut.apply state)).trans ?_
    obtain ⟨hfound, hvalue⟩ := hcuts cut List.mem_cons_self
    have hslot := cut.slot?_apply state.1 state.2 entry.1
    by_cases hkey : entry.1 = cut.key
    · cases hfinds : cut.finds state.2.store with
      | false =>
        rw [if_pos hkey, hfinds, if_neg Bool.false_ne_true, ← hkey] at hslot
        exact Store.holds_congr hslot
      | true =>
        rw [if_pos hkey, hfinds, if_pos rfl] at hslot
        rw [Cut.finds, beq_iff_eq, Option.map_eq_some_iff] at hfinds
        obtain ⟨slot, hlive, hheld⟩ := hfinds
        have hbefore := ((Store.liveSlot?_eq_some_iff _).mp hlive).1
        -- the key held what the cut is for and holds what the cut leaves, and both can be read
        have hdiffers : ∀ {value}, unreadable value = false → value ≠ entry.2 := by
          rintro value hreadable rfl
          rw [hentry] at hreadable
          cases hreadable
        have hthen : state.2.store.slot? entry.1 = some slot := hkey ▸ hbefore
        rw [Store.holds, Store.holds, hslot, hthen]
        simp [hdiffers hvalue, hheld, hdiffers hfound]
    · rw [if_neg hkey] at hslot
      exact Store.holds_congr hslot

/-- How many entries the rest of a prune removes: those that it could not read and that are still
held. -/
def Pending.removals (pending : Pending) (store : Store) : Nat :=
  store.heldAmong (pending.snapshot.filter fun entry => unreadable entry.2)

theorem Pending.removes_finish (pending : Pending) (cache : Cache) :
    (pending.finish cache).1.corrupt = pending.removals cache.store ∧
      Removes (pending.removals cache.store) cache (pending.finish cache).2 := by
  have hreadable : ∀ cut ∈ pending.cuts, unreadable cut.found = false ∧
      unreadable cut.value = false := by
    intro cut hcut
    refine ⟨?_, unreadable_value_of_mem_cuts hcut⟩
    obtain ⟨entry, -, detectors, hdecode, -, rfl⟩ := mem_cuts.mp hcut
    rw [unreadable, hdecode]
  have hfinish : ∃ noted : Cache,
      (let applied := applyAll pending.cuts (pending.report, noted)
        let evicted := Pass.evictAll applied.2
          (Octets.ascii "undecodable value found during prune") (pending.undecodable.map Prod.fst)
        pending.finish cache = ({ applied.1 with corrupt := evicted.1 }, evicted.2)) ∧
      noted.store = cache.store ∧ Removes 0 cache noted :=
    ⟨_, rfl, by simp, (cache.removes_noteEach _ _ _ _).after ⟨rfl, rfl, rfl⟩⟩
  obtain ⟨noted, heq, hstore, hnoted⟩ := hfinish
  have hheld : (applyAll pending.cuts (pending.report, noted)).2.store.heldAmong
      (pending.undecodable.map Prod.fst) = pending.removals cache.store := by
    rw [removals, map_fst_undecodable]
    refine Store.heldAmong_congr fun entry hentry => ?_
    rw [holds_applyAll (List.mem_filter.mp hentry).2 hreadable, hstore]
  obtain ⟨hcount, hremoves⟩ := Pass.removes_evictAll
    (applyAll pending.cuts (pending.report, noted)).2
    (Octets.ascii "undecodable value found during prune") (pending.undecodable.map Prod.fst)
  rw [hheld] at hcount hremoves
  rw [heq]
  have hcut : Removes 0 noted (applyAll pending.cuts (pending.report, noted)).2 :=
    removes_applyAll pending.cuts (pending.report, noted)
  exact ⟨hcount, (hnoted.after hcut).after hremoves⟩

end Prune

namespace Eviction

open Cache (Removes)

theorem removes_start (changed : List Mapping) (cache : Cache) :
    Removes 0 cache (start changed cache).2 := by
  simp only [start]
  split
  · exact cache.removes_noteEach _ _ _ _
  · exact (cache.removes_noteEach _ _ _ _).after ⟨rfl, rfl, rfl⟩

def Pending.removals (pending : Pending) (store : Store) : Nat :=
  store.heldAmong (pending.snapshot.filter fun entry => illegible entry.1)

theorem Pending.not_mem_keys_of_illegible (pending : Pending) {key : Octets}
    (h : illegible key = true) : key ∉ pending.keys := by
  intro hmem
  obtain ⟨entry, hentry, rfl⟩ := List.mem_map.mp hmem
  have haffects := (List.mem_filter.mp hentry).2
  rw [affects] at haffects
  rw [illegible] at h
  cases hdecode : CacheKey.decode entry.1 with
  | error malformed => simp [hdecode] at haffects
  | ok tags => simp [hdecode] at h

theorem Pending.removes_finish (pending : Pending) (cache : Cache) :
    (pending.finish cache).1.corrupt = pending.removals cache.store ∧
      Removes (pending.removals cache.store) cache (pending.finish cache).2 := by
  obtain ⟨journal, heq⟩ := pending.finish_eq_evictAll cache
  have hheld : (({ cache with journal } : Cache).remove pending.keys).2.store.heldAmong
      (pending.undecodable.map Prod.fst) = pending.removals cache.store := by
    rw [removals, map_fst_undecodable]
    refine Store.heldAmong_congr fun entry hentry => ?_
    have hspared := pending.not_mem_keys_of_illegible (List.mem_filter.mp hentry).2
    exact Store.holds_congr
      ((cache.store.slot?_invalidateAll pending.keys entry.1).trans (if_neg hspared))
  have hremoved : Removes 0 cache (({ cache with journal } : Cache).remove pending.keys).2 :=
    ⟨rfl, rfl, rfl⟩
  obtain ⟨hcount, hremoves⟩ := Pass.removes_evictAll
    (({ cache with journal } : Cache).remove pending.keys).2
    (Octets.ascii "undecodable key found during invalidation") (pending.undecodable.map Prod.fst)
  rw [hheld] at hcount hremoves
  rw [heq]
  exact ⟨hcount, hremoved.after hremoves⟩

end Eviction

end DetectorCache
