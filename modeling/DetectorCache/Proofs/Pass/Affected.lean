import DetectorCache.Proofs.Pass.Cuts
import DetectorCache.Proofs.Pass.Eviction
import DetectorCache.Proofs.Store.Representation
import DetectorCache.Proofs.System.Gauge

set_option autoImplicit false

namespace DetectorCache.Eviction

open Octets (ascii)
open Store (Traffic Request)

variable {changed : List Mapping}

/-- Whether the key encodes a tag-set that one of the mappings is about. -/
def concerns (changed : List Mapping) (key : Octets) : Bool :=
  match CacheKey.decode key with
  | .error _ => false
  | .ok tags => changed.any fun m => m.expression.holds tags

/-- Whether the key encodes no tag-set. -/
def illegible (key : Octets) : Bool :=
  match CacheKey.decode key with
  | .error _ => true
  | .ok _ => false

theorem concerns_of_illegible {key : Octets} (h : illegible key = true) :
    concerns changed key = false := by
  rw [illegible] at h
  rw [concerns]
  cases hdecode : CacheKey.decode key with
  | error malformed => rfl
  | ok tags =>
    rw [hdecode] at h
    cases h

theorem concerns_of_unsatisfiable (h : ¬ ∃ m ∈ changed, m.expression.Satisfiable)
    (key : Octets) : concerns changed key = false := by
  rw [concerns]
  cases CacheKey.decode key with
  | error malformed => rfl
  | ok tags =>
    refine List.any_eq_false.mpr fun m hm hholds => ?_
    exact h ⟨m, hm, tags, hholds⟩

theorem length_conflicts (changed : List Mapping) :
    (conflicts changed).length = changed.countP fun m => ¬ m.expression.Satisfiable := by
  rw [conflicts, List.length_filterMap_eq_countP]
  refine List.countP_congr fun m _ => ?_
  rw [decide_eq_true_iff, Expression.satisfiable_iff]
  cases m.expression.flatten <;> simp [Except.toOption]

theorem requiredTags_eq_nil_iff :
    requiredTags changed = [] ↔ ¬ ∃ m ∈ changed, m.expression.Satisfiable := by
  simp only [requiredTags, List.filterMap_eq_nil_iff, Expression.satisfiable_iff, not_exists,
    not_and, Option.not_isSome_iff_eq_none]

theorem any_satisfiable_iff :
    (changed.any fun m => m.expression.Satisfiable) = true ↔
      ∃ m ∈ changed, m.expression.Satisfiable := by
  simp only [List.any_eq_true, decide_eq_true_eq]

/-- Without a satisfiable mapping an eviction only warns of what it skips. -/
theorem run_of_unsatisfiable (h : ¬ ∃ m ∈ changed, m.expression.Satisfiable) (cache : Cache) :
    ∃ journal, run changed cache =
      ({ received := changed.length
         skipped := changed.countP fun m => ¬ m.expression.Satisfiable },
        { cache with journal }) := by
  obtain ⟨journal, hwarned⟩ := cache.noteEach_eq (conflicts changed) .warn
    "skipping mapping with invalid expression"
    fun c => [("detector_id", c.1), ("error", c.2.message)]
  refine ⟨journal, ?_⟩
  rw [run, start, if_pos (requiredTags_eq_nil_iff.mpr h), hwarned, length_conflicts]
  rfl

/-- With one it is its second half right after the snapshot. -/
theorem run_of_satisfiable (h : ∃ m ∈ changed, m.expression.Satisfiable) (cache : Cache) :
    ∃ (pending : Pending) (journal : Journal),
      run changed cache = pending.finish { cache with store := cache.store.tick, journal } ∧
      pending.required = requiredTags changed ∧
      pending.snapshot = cache.store.tick.liveEntries ∧
      pending.ids.length = changed.length ∧
      pending.skipped = changed.countP fun m => ¬ m.expression.Satisfiable := by
  obtain ⟨journal, hwarned⟩ := cache.noteEach_eq (conflicts changed) .warn
    "skipping mapping with invalid expression"
    fun c => [("detector_id", c.1), ("error", c.2.message)]
  have hrequired : requiredTags changed ≠ [] :=
    fun hnil => requiredTags_eq_nil_iff.mp hnil h
  refine ⟨⟨changed.map (·.detector.id), requiredTags changed, (conflicts changed).length,
    cache.store.tick.liveEntries⟩, journal, ?_, rfl, rfl, List.length_map _, length_conflicts _⟩
  rw [run, start, if_neg hrequired, hwarned]
  rfl

namespace Pending

variable {pending : Pending}

theorem finish_eq_evictAll (pending : Pending) (cache : Cache) :
    ∃ journal, let removed := (({ cache with journal } : Cache).remove pending.keys).2
      let evicted := Pass.evictAll removed (ascii "undecodable key found during invalidation")
        (pending.undecodable.map Prod.fst)
      pending.finish cache =
        ({ received := pending.ids.length
           skipped := pending.skipped
           scanned := pending.snapshot.length
           evicted := pending.keys
           corrupt := evicted.1 }, evicted.2) := by
  obtain ⟨journal, hwarned⟩ := cache.noteEach_eq pending.undecodable .warn
    "undecodable cache key during invalidation"
    fun c => [("cache_key", c.1.1), ("error", c.2.message)]
  rw [finish, hwarned]
  exact ⟨journal.note .info _ _, rfl⟩

theorem map_fst_undecodable (pending : Pending) :
    pending.undecodable.map Prod.fst = pending.snapshot.filter fun entry => illegible entry.1 := by
  rw [undecodable]
  induction pending.snapshot with
  | nil => rfl
  | cons entry entries ih =>
    rw [List.filterMap_cons, List.filter_cons]
    cases hdecode : CacheKey.decode entry.1 with
    | error malformed => simpa [illegible, hdecode] using ih
    | ok tags => simpa [illegible, hdecode] using ih

/-- The flat forms that a pass works with affect what the mappings themselves are about. -/
theorem keys_eq (hrequired : pending.required = requiredTags changed) :
    pending.keys = (pending.snapshot.map Prod.fst).filter (concerns changed) := by
  rw [keys, List.filter_map]
  refine congrArg (List.map Prod.fst) (List.filter_congr fun entry _ => ?_)
  rw [affects, Function.comp, concerns, hrequired]
  cases CacheKey.decode entry.1 with
  | error malformed => rfl
  | ok tags =>
    refine Bool.eq_iff_iff.mpr ?_
    simp only [List.any_eq_true]
    exact exists_covers_requiredTags

theorem slot?_finish (pending : Pending) (cache : Cache) (key : Octets) :
    (pending.finish cache).2.store.slot? key =
      if key ∈ pending.keys then none
      else (cache.store.slot? key).filter fun slot =>
        (key, slot.value) ∉ pending.undecodable.map Prod.fst := by
  obtain ⟨journal, heq⟩ := pending.finish_eq_evictAll cache
  have hremoved : (({ cache with journal } : Cache).remove pending.keys).2.store.slot? key =
      if key ∈ pending.keys then none else cache.store.slot? key :=
    cache.store.slot?_invalidateAll pending.keys key
  rw [heq, Pass.slot?_evictAll, hremoved]
  split <;> rfl

theorem gaugeCurrent_finish (pending : Pending) (cache : Cache) :
    (pending.finish cache).2.GaugeCurrent := by
  obtain ⟨journal, heq⟩ := pending.finish_eq_evictAll cache
  rw [heq]
  exact (Cache.keeps_gauged.evictAll _ _ _).current rfl

theorem finish_of_clean (hrequired : pending.required = requiredTags changed)
    (hshown : ∀ entry ∈ pending.snapshot,
      concerns changed entry.1 = false ∧ illegible entry.1 = false) (cache : Cache) :
    ∃ journal, pending.finish cache =
      ({ received := pending.ids.length
         skipped := pending.skipped
         scanned := pending.snapshot.length },
        { cache with journal, sizeGauge := cache.store.size }) := by
  have hkeys : pending.keys = [] := by
    rw [keys_eq hrequired, List.filter_eq_nil_iff]
    intro key hkey
    obtain ⟨entry, hentry, rfl⟩ := List.mem_map.mp hkey
    simp [(hshown entry hentry).1]
  have hcorrupt : pending.undecodable.map Prod.fst = [] := by
    rw [map_fst_undecodable, List.filter_eq_nil_iff]
    intro entry hentry
    simp [(hshown entry hentry).2]
  obtain ⟨journal, heq⟩ := pending.finish_eq_evictAll cache
  refine ⟨journal, ?_⟩
  rw [heq, hcorrupt, hkeys]
  rfl

section

variable {cache : Cache} (hplaced : cache.store.Placed)
  (hsnapshot : pending.snapshot = cache.store.liveEntries) {key : Octets} {slot : Slot}

include hplaced hsnapshot

theorem slot?_finish_of_live (hrequired : pending.required = requiredTags changed)
    (hlive : cache.store.liveSlot? key = some slot) :
    (pending.finish cache).2.store.slot? key =
      if illegible key ∨ concerns changed key then none else some slot := by
  obtain ⟨hslot, -⟩ := (Store.liveSlot?_eq_some_iff _).mp hlive
  have hmem : (key, slot.value) ∈ pending.snapshot := by
    rw [hsnapshot]
    exact hplaced.mem_liveEntries.mpr ⟨slot, hlive, rfl⟩
  have hkeys : key ∈ pending.keys ↔ concerns changed key = true := by
    rw [keys_eq hrequired, List.mem_filter]
    exact and_iff_right (List.mem_map_of_mem (f := Prod.fst) hmem)
  have hcorrupt : (key, slot.value) ∈ pending.undecodable.map Prod.fst ↔
      illegible key = true := by
    rw [map_fst_undecodable, List.mem_filter]
    exact and_iff_right hmem
  rw [slot?_finish, hslot]
  by_cases hconcerns : concerns changed key = true
  · rw [if_pos (hkeys.mpr hconcerns), if_pos (Or.inr hconcerns)]
  · rw [if_neg (mt hkeys.mp hconcerns)]
    by_cases hillegible : illegible key = true
    · rw [if_pos (Or.inl hillegible), Option.filter_eq_none_iff]
      simpa using hcorrupt.mpr hillegible
    · rw [if_neg (not_or.mpr ⟨hillegible, hconcerns⟩)]
      exact Slot.filter_eq_of_forall fun found hfound => by
        cases hfound
        exact decide_eq_true (mt hcorrupt.mp hillegible)

theorem slot?_finish_of_not_live (hrequired : pending.required = requiredTags changed)
    (hnot : cache.store.liveSlot? key = none) :
    (pending.finish cache).2.store.slot? key = cache.store.slot? key := by
  have hunshown : key ∉ pending.snapshot.map Prod.fst := by
    rw [hsnapshot, hplaced.mem_keys_liveEntries, hnot]
    nofun
  have hkeys : key ∉ pending.keys := by
    rw [keys_eq hrequired]
    exact fun hmem => hunshown (List.mem_filter.mp hmem).1
  rw [slot?_finish, if_neg hkeys]
  refine Slot.filter_eq_of_forall fun slot _ => decide_eq_true fun hmem => ?_
  rw [map_fst_undecodable] at hmem
  exact hunshown (List.mem_map_of_mem (f := Prod.fst) (List.mem_filter.mp hmem).1)

theorem corrupt_finish (hrequired : pending.required = requiredTags changed) :
    (pending.finish cache).1.corrupt =
      pending.snapshot.countP fun entry => illegible entry.1 := by
  obtain ⟨journal, heq⟩ := pending.finish_eq_evictAll cache
  have hnodup : (pending.snapshot.map Prod.fst).Nodup := by
    rw [hsnapshot]
    exact cache.store.nodup_keys_liveEntries
  rw [heq, map_fst_undecodable, List.countP_eq_length_filter]
  refine Pass.fst_evictAll_of_held _ _ (hnodup.sublist (List.filter_sublist.map _)) ?_
  intro entry hentry
  obtain ⟨hmem, hillegible⟩ := List.mem_filter.mp hentry
  -- an illegible key is none of those removed before
  have hkept : entry.1 ∉ pending.keys := by
    rw [keys_eq hrequired]
    intro hkey
    have hconcerns := (List.mem_filter.mp hkey).2
    rw [concerns_of_illegible hillegible] at hconcerns
    cases hconcerns
  have hremoved : (({ cache with journal } : Cache).remove pending.keys).2.store.slot? entry.1 =
      cache.store.slot? entry.1 :=
    (cache.store.slot?_invalidateAll pending.keys entry.1).trans (if_neg hkept)
  rw [hsnapshot, hplaced.mem_liveEntries] at hmem
  obtain ⟨slot, hlive, hvalue⟩ := hmem
  rw [hremoved, ((Store.liveSlot?_eq_some_iff _).mp hlive).1, Option.map_some, hvalue]

theorem report_finish (hrequired : pending.required = requiredTags changed) :
    (pending.finish cache).1 =
      { received := pending.ids.length
        skipped := pending.skipped
        scanned := pending.snapshot.length
        evicted := (pending.snapshot.map Prod.fst).filter (concerns changed)
        corrupt := pending.snapshot.countP fun entry => illegible entry.1 } := by
  obtain ⟨journal, heq⟩ := pending.finish_eq_evictAll cache
  rw [← corrupt_finish hplaced hsnapshot hrequired, ← keys_eq hrequired, heq]

theorem clean_finish (hrequired : pending.required = requiredTags changed) :
    (pending.finish cache).2.store.AllLive fun key _ =>
      concerns changed key = false ∧ illegible key = false := by
  have hbefore : cache.store.AllLive fun key value => (key, value) ∈ pending.snapshot := by
    intro key slot hlive
    rw [hsnapshot]
    exact hplaced.mem_liveEntries.mpr ⟨slot, hlive, rfl⟩
  intro key slot hlive
  obtain ⟨hshown, hkept⟩ := pending.allLive_finish hbefore key slot hlive
  obtain ⟨hslot, -⟩ := (Store.liveSlot?_eq_some_iff _).mp hlive
  rw [slot?_finish, if_neg hkept, Option.filter_eq_some_iff, decide_eq_true_iff,
    map_fst_undecodable, List.mem_filter] at hslot
  rw [keys_eq hrequired, List.mem_filter] at hkept
  have hlisted : key ∈ pending.snapshot.map Prod.fst := List.mem_map_of_mem (f := Prod.fst) hshown
  exact ⟨Bool.eq_false_iff.mpr fun hconcerns => hkept ⟨hlisted, hconcerns⟩,
    Bool.eq_false_iff.mpr fun hillegible => hslot.2 ⟨hshown, hillegible⟩⟩

end

end Pending

/-- Over live entries that no mapping is about, with keys that all read back, an eviction only
looks. -/
theorem run_of_clean {cache : Cache} (hplaced : cache.store.Placed)
    (h : ∃ m ∈ changed, m.expression.Satisfiable) (hcurrent : cache.GaugeCurrent)
    (hclean : cache.store.AllLive fun key _ =>
      concerns changed key = false ∧ illegible key = false) :
    ∃ journal, run changed cache =
      ({ received := changed.length
         skipped := changed.countP fun m => ¬ m.expression.Satisfiable
         scanned := cache.store.tick.liveEntries.length },
        { cache with store := cache.store.tick, journal }) := by
  obtain ⟨pending, journal, heq, hrequired, hsnapshot, hids, hskipped⟩ :=
    run_of_satisfiable h cache
  have hshown : ∀ entry ∈ pending.snapshot,
      concerns changed entry.1 = false ∧ illegible entry.1 = false := by
    intro entry hentry
    rw [hsnapshot] at hentry
    exact hclean.of_mem_snapshot hplaced hentry
  obtain ⟨journal', hfinish⟩ := Pending.finish_of_clean hrequired hshown
    { cache with store := cache.store.tick, journal }
  refine ⟨journal', ?_⟩
  have hgauge : cache.store.tick.size = cache.sizeGauge := hcurrent.symm
  rw [heq, hfinish, hids, hskipped, hsnapshot]
  dsimp only
  rw [hgauge]

section

variable {cache : Cache} (hplaced : cache.store.Placed) (changed : List Mapping) {key : Octets}

include hplaced

theorem run_eq_finish (hgiven : ∃ m ∈ changed, m.expression.Satisfiable) :
    ∃ (pending : Pending) (copied : Cache), run changed cache = pending.finish copied ∧
      copied.store = cache.store.tick ∧ copied.store.Placed ∧
      pending.snapshot = copied.store.liveEntries ∧ pending.required = requiredTags changed ∧
      pending.ids.length = changed.length ∧
      pending.skipped = changed.countP fun m => ¬ m.expression.Satisfiable := by
  obtain ⟨pending, journal, heq, hrequired, hsnapshot, hcounts⟩ := run_of_satisfiable hgiven cache
  exact ⟨pending, _, heq, rfl, hplaced.tick, hsnapshot, hrequired, hcounts⟩

theorem slot?_run_of_live {slot : Slot} (hlive : cache.store.tick.liveSlot? key = some slot) :
    (run changed cache).2.store.slot? key =
      if (changed.any fun m => m.expression.Satisfiable) ∧
        (illegible key ∨ concerns changed key) then none else some slot := by
  by_cases hgiven : ∃ m ∈ changed, m.expression.Satisfiable
  · obtain ⟨pending, copied, heq, hstore, hcopied, hshown, hrequired, -, -⟩ :=
      run_eq_finish hplaced changed hgiven
    rw [← hstore] at hlive
    rw [heq, Pending.slot?_finish_of_live hcopied hshown hrequired hlive]
    simp only [any_satisfiable_iff.mpr hgiven, true_and]
  · obtain ⟨journal, heq⟩ := run_of_unsatisfiable hgiven cache
    rw [heq, if_neg fun h => hgiven (any_satisfiable_iff.mp h.1)]
    exact ((Store.liveSlot?_eq_some_iff _).mp hlive).1

theorem slot?_run_of_not_live (hnot : cache.store.tick.liveSlot? key = none) :
    (run changed cache).2.store.slot? key = cache.store.tick.slot? key := by
  by_cases hgiven : ∃ m ∈ changed, m.expression.Satisfiable
  · obtain ⟨pending, copied, heq, hstore, hcopied, hshown, hrequired, -, -⟩ :=
      run_eq_finish hplaced changed hgiven
    rw [← hstore] at hnot
    rw [heq, Pending.slot?_finish_of_not_live hcopied hshown hrequired hnot, hstore]
  · obtain ⟨journal, heq⟩ := run_of_unsatisfiable hgiven cache
    rw [heq]
    rfl

theorem report_run :
    (run changed cache).1 =
      { received := changed.length
        skipped := changed.countP fun m => ¬ m.expression.Satisfiable
        scanned :=
          if changed.any fun m => m.expression.Satisfiable then cache.store.tick.liveEntries.length
          else 0
        evicted := (cache.store.tick.liveEntries.map Prod.fst).filter (concerns changed)
        corrupt :=
          if changed.any fun m => m.expression.Satisfiable then
            cache.store.tick.liveEntries.countP fun entry => illegible entry.1
          else 0 } := by
  by_cases hgiven : ∃ m ∈ changed, m.expression.Satisfiable
  · obtain ⟨pending, copied, heq, hstore, hcopied, hshown, hrequired, hids, hskipped⟩ :=
      run_eq_finish hplaced changed hgiven
    rw [heq, Pending.report_finish hcopied hshown hrequired, hids, hskipped, hshown, hstore]
    simp only [any_satisfiable_iff.mpr hgiven, if_true]
  · obtain ⟨journal, heq⟩ := run_of_unsatisfiable hgiven cache
    have hnone : (cache.store.tick.liveEntries.map Prod.fst).filter (concerns changed) = [] := by
      rw [List.filter_eq_nil_iff]
      intro key _
      simp [concerns_of_unsatisfiable hgiven]
    simp only [heq, hnone, mt any_satisfiable_iff.mp hgiven, Bool.false_eq_true, if_false]

theorem placed_run : (run changed cache).2.store.Placed := by
  have hpass : Traffic (Request.Writes fun _ _ => True) cache.store (run changed cache).2.store :=
    Pass.traffic_complete (traffic_start _ changed cache) Pending.traffic_finish
  exact hpass.placed hplaced

omit hplaced in
theorem gaugeCurrent_run (hgiven : ∃ m ∈ changed, m.expression.Satisfiable) :
    (run changed cache).2.GaugeCurrent := by
  obtain ⟨pending, journal, heq, -⟩ := run_of_satisfiable hgiven cache
  rw [heq]
  exact pending.gaugeCurrent_finish _

theorem clean_run (hgiven : ∃ m ∈ changed, m.expression.Satisfiable) :
    (run changed cache).2.store.AllLive fun key _ =>
      concerns changed key = false ∧ illegible key = false := by
  obtain ⟨pending, copied, heq, -, hcopied, hshown, hrequired, -, -⟩ :=
    run_eq_finish hplaced changed hgiven
  rw [heq]
  exact Pending.clean_finish hcopied hshown hrequired

theorem run_again :
    let evicted := run changed cache
    let satisfiable := changed.any fun m => m.expression.Satisfiable
    ∃ journal, run changed evicted.2 =
      ({ received := changed.length
         skipped := changed.countP fun m => ¬ m.expression.Satisfiable
         scanned := if satisfiable then evicted.2.store.tick.liveEntries.length else 0 },
        { evicted.2 with
          store := if satisfiable then evicted.2.store.tick else evicted.2.store
          journal }) := by
  intro evicted satisfiable
  by_cases hgiven : ∃ m ∈ changed, m.expression.Satisfiable
  · have hsatisfiable : satisfiable = true := any_satisfiable_iff.mpr hgiven
    have hclean : evicted.2.store.AllLive _ := clean_run hplaced changed hgiven
    obtain ⟨journal, heq⟩ :=
      run_of_clean (placed_run hplaced changed) hgiven (gaugeCurrent_run changed hgiven) hclean
    refine ⟨journal, ?_⟩
    simp only [hsatisfiable, if_true]
    exact heq
  · have hsatisfiable : ¬ satisfiable = true := mt any_satisfiable_iff.mp hgiven
    obtain ⟨journal, heq⟩ := run_of_unsatisfiable hgiven evicted.2
    refine ⟨journal, ?_⟩
    simp only [hsatisfiable]
    exact heq

end

/-- An eviction with nothing in between removes a live entry exactly if some mapping is satisfiable
and the key of the entry is no tag-set or one that a mapping is about; what is skipped are the
mappings about no tag-set at all. All other slots stay as they are. The report lists the concerned
keys that the shards hold live, in some order and each once, and counts the illegible ones. A second
eviction for the same mappings removes nothing: it reads the clock and tells the journal. -/
theorem removes_exactly_affected {cache : Cache} (hplaced : cache.store.Placed)
    (changed : List Mapping) :
    let before := cache.store.tick
    let satisfiable := changed.any fun m => m.expression.Satisfiable
    let skipped := changed.countP fun m => ¬ m.expression.Satisfiable
    let evicted := run changed cache
    let after := evicted.2.store
    let again := run changed evicted.2
    (∀ key slot, before.liveSlot? key = some slot →
      after.slot? key =
        if satisfiable ∧ (illegible key ∨ concerns changed key) then none else some slot) ∧
    (∀ key, before.liveSlot? key = none → after.slot? key = before.slot? key) ∧
    evicted.1 =
      { received := changed.length
        skipped
        scanned := if satisfiable then before.liveEntries.length else 0
        evicted := (before.liveEntries.map Prod.fst).filter (concerns changed)
        corrupt :=
          if satisfiable then before.liveEntries.countP fun entry => illegible entry.1 else 0 } ∧
    evicted.1.evicted.Perm
      (((before.shards.flatMap (·.live before.lifetime before.now)).map Prod.fst).filter
        (concerns changed)) ∧
    evicted.1.evicted.Nodup ∧
    (∀ key, key ∈ evicted.1.evicted ↔ (before.liveSlot? key).isSome ∧ concerns changed key) ∧
    again.1 =
      { received := changed.length
        skipped
        scanned := if satisfiable then after.tick.liveEntries.length else 0 } ∧
    ∃ journal, again.2 =
      { evicted.2 with store := if satisfiable then after.tick else after, journal } := by
  intro before satisfiable skipped evicted after again
  have hreport := report_run hplaced changed
  have hevicted : evicted.1.evicted =
      (before.liveEntries.map Prod.fst).filter (concerns changed) := congrArg Report.evicted hreport
  obtain ⟨journal, hagain⟩ := run_again hplaced changed
  refine ⟨fun key slot => slot?_run_of_live hplaced changed,
    fun key => slot?_run_of_not_live hplaced changed, hreport, ?_, ?_, ?_,
    congrArg Prod.fst hagain, journal, congrArg Prod.snd hagain⟩
  · rw [hevicted]
    exact (hplaced.tick.liveEntries_perm.map Prod.fst).filter _
  · rw [hevicted]
    exact before.nodup_keys_liveEntries.sublist List.filter_sublist
  · intro key
    rw [hevicted, List.mem_filter, hplaced.tick.mem_keys_liveEntries]

theorem removes_exactly_affected_of_three_entries :
    let s := (Session.performAll (System.fresh 1000 2 {} fnv1a { threshold := .error } {})
      [.put (ascii "a:1,b:2") [], .putEncoded [(ascii "b", [])], .advance 5,
        .put (ascii "c:3") []]).2
    let changed : List Mapping :=
      [⟨⟨ascii "none", true⟩, [⟨ascii "a", ascii "1"⟩, ⟨ascii "a", ascii "2"⟩]⟩,
        ⟨⟨ascii "none", true⟩, [⟨ascii "a", ascii "1"⟩, ⟨ascii "a", ascii "1"⟩]⟩]
    let evicted := run changed s.cache
    evicted.1 =
        { received := 2, skipped := 1, scanned := 3, evicted := [ascii "a:1,b:2"], corrupt := 1 } ∧
      evicted.2.store.slot? (ascii "b") = none ∧
      evicted.2.store.slot? (ascii "c:3") = some ⟨[], 5⟩ ∧
      (run changed evicted.2).1 = { received := 2, skipped := 1, scanned := 1 } := by
  intro s changed evicted
  have hplaced : s.cache.store.Placed :=
    ((System.Reachable.fresh 1000 2 {} fnv1a { threshold := .error } {}).performAll _).placed
  obtain ⟨hlive, -, hreport, -, -, -, hagain, -⟩ := removes_exactly_affected hplaced changed
  refine ⟨hreport.trans (by decide +kernel), ?_, ?_, ?_⟩
  · exact (hlive (ascii "b") ⟨[], 0⟩ (by decide +kernel)).trans (by decide +kernel)
  · exact (hlive (ascii "c:3") ⟨[], 5⟩ (by decide +kernel)).trans (by decide +kernel)
  · exact hagain.trans (by decide +kernel)

end DetectorCache.Eviction
