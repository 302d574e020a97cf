import DetectorCache.Proofs.Delta.Sufficiency
import DetectorCache.Proofs.Pass.Cuts
import DetectorCache.Proofs.System.Reachable

set_option autoImplicit false

namespace DetectorCache

open Octets (ascii)
open Store (Traffic Request)

namespace Prune

theorem idsOf_eq (disabled : List Mapping) :
    idsOf disabled = (disabled.filterMap Mapping.canonicalId?).eraseDups := by
  rw [idsOf, Detector.valid, List.filterMap_map, List.map_filterMap]
  refine congrArg List.eraseDups (congrArg (List.filterMap · disabled) (funext fun m => ?_))
  simp only [Function.comp, Detector.toOption_normalize, Option.map_map, Mapping.canonicalId?]
  exact congrFun Option.map_id _

theorem length_refusals (disabled : List Mapping) :
    (Detector.refusals (disabled.map Mapping.detector)).length =
      disabled.countP fun m => m.canonicalId?.isNone := by
  rw [Detector.refusals, List.length_filterMap_eq_countP, List.countP_map]
  refine List.countP_congr fun m _ => ?_
  simp only [Function.comp, Detector.normalize, Mapping.canonicalId?]
  cases DetectorId.normalize m.detector.id <;> simp [Except.toOption]

/-- Whether a value lists ids, and only such as are in the list. -/
def emptiedBy (ids : List Octets) (value : Octets) : Bool :=
  match StoredIds.decode value with
  | .error _ => false
  | .ok detectors => detectors ≠ [] && detectors.all fun d => ids.contains d.id

theorem listsAny_of_emptiedBy {ids : List Octets} {value : Octets}
    (h : emptiedBy ids value = true) : listsAny ids value = true := by
  rw [emptiedBy] at h
  rw [listsAny]
  cases hdecode : StoredIds.decode value with
  | error malformed =>
    rw [hdecode] at h
    cases h
  | ok detectors =>
    cases detectors with
    | nil => simp [hdecode] at h
    | cons d detectors =>
      simp only [hdecode, Bool.and_eq_true, List.all_cons] at h
      simp only [List.any_cons, h.2.1, Bool.true_or]

/-- What becomes of the slot of a live entry when the ids are taken out: it goes if its value does
not read back, it stays if its value lists none of the ids, and otherwise its key holds the encoding
of what is kept, written at a time in between. -/
def Dealt (ids : List Octets) (before after : Store) (key : Octets) (slot : Slot) : Prop :=
  match StoredIds.decode slot.value with
  | .error _ => after.slot? key = none
  | .ok detectors =>
    let kept := detectors.filter fun d => d.id ∉ ids
    if kept = detectors then after.slot? key = some slot
    else
      ∃ time, before.now ≤ time ∧ time ≤ after.now ∧
        after.slot? key = some ⟨StoredIds.encode kept, time⟩ ∧
        StoredIds.decode (StoredIds.encode kept) = .ok kept

theorem run_of_idsOf_eq_nil {disabled : List Mapping} (h : idsOf disabled = []) (cache : Cache) :
    (run disabled cache).2.store = cache.store ∧
      (run disabled cache).1 = { skipped := disabled.countP fun m => m.canonicalId?.isNone } := by
  simp [run, Pass.complete, start, h, ← length_refusals]

theorem run_of_idsOf_ne_nil {disabled : List Mapping} (h : idsOf disabled ≠ []) (cache : Cache) :
    ∃ (pending : Pending) (copied : Cache), run disabled cache = pending.finish copied ∧
      copied.store = cache.store.tick ∧ pending.snapshot = copied.store.liveEntries ∧
      pending.ids = idsOf disabled ∧
      pending.skipped = disabled.countP fun m => m.canonicalId?.isNone := by
  refine ⟨⟨idsOf disabled, (Detector.refusals (disabled.map Mapping.detector)).length,
    cache.store.tick.liveEntries⟩, (start disabled cache).2, ?_, ?_, ?_, rfl, length_refusals _⟩
  · simp [run, Pass.complete, start, h, Cache.entries, Cache.onStore, Store.snapshot]
  · simp [start, h, Cache.entries, Cache.onStore, Store.snapshot]
  · simp [start, h, Cache.entries, Cache.onStore, Store.snapshot]

namespace Pending

variable {pending : Pending}

theorem countP_cuts_emptied :
    pending.cuts.countP (·.kept = []) =
      pending.snapshot.countP fun entry => emptiedBy pending.ids entry.2 := by
  rw [cuts, List.countP_filterMap]
  refine List.countP_congr fun entry _ => ?_
  rw [cut?, emptiedBy]
  cases StoredIds.decode entry.2 with
  | error malformed => simp
  | ok detectors =>
    dsimp only
    split
    · next hall =>
      -- nothing is cut, so what is listed is listed outside of the ids
      rw [List.length_filter_eq_length_iff] at hall
      cases detectors with
      | nil => simp
      | cons d detectors =>
        have hd : d.id ∉ pending.ids := by simpa using hall d List.mem_cons_self
        simp [hd]
    · next hsome =>
      have hne : detectors ≠ [] := fun hnil => hsome (by rw [hnil]; rfl)
      simp [hne]

section

variable (hshown : ∀ entry ∈ pending.snapshot,
  unreadable entry.2 = false ∧ listsAny pending.ids entry.2 = false)

include hshown

theorem store_finish_of_clean (cache : Cache) :
    (pending.finish cache).2.store = cache.store := by
  obtain ⟨noted, hstore, heq⟩ := pending.finish_eq_applyAll cache
  have hcuts : pending.cuts = [] := by
    refine List.filterMap_eq_nil_iff.mpr fun entry hentry => ?_
    have hnone := pending.isSome_cut? entry
    rw [(hshown entry hentry).2] at hnone
    exact Option.not_isSome_iff_eq_none.mp (Bool.eq_false_iff.mp hnone)
  have hcorrupt : pending.undecodable.map Prod.fst = [] := by
    rw [map_fst_undecodable, List.filter_eq_nil_iff]
    intro entry hentry
    simp [(hshown entry hentry).1]
  rw [heq, hcuts, hcorrupt]
  exact hstore

theorem counts_of_clean :
    (pending.snapshot.countP fun entry => listsAny pending.ids entry.2) = 0 ∧
      (pending.snapshot.countP fun entry => emptiedBy pending.ids entry.2) = 0 ∧
      (pending.snapshot.countP fun entry => unreadable entry.2) = 0 := by
  simp only [List.countP_eq_zero]
  refine ⟨?_, ?_, ?_⟩
  · intro entry hentry
    simp [(hshown entry hentry).2]
  · intro entry hentry hemptied
    have hlists := listsAny_of_emptiedBy hemptied
    rw [(hshown entry hentry).2] at hlists
    cases hlists
  · intro entry hentry
    simp [(hshown entry hentry).1]

end

section

variable {cache : Cache} (hplaced : cache.store.Placed)
  (hsnapshot : pending.snapshot = cache.store.liveEntries) {key : Octets} {slot : Slot}

include hsnapshot

theorem nodup_keys_snapshot : (pending.snapshot.map Prod.fst).Nodup := by
  rw [hsnapshot]
  exact cache.store.nodup_keys_liveEntries

include hplaced

theorem mem_snapshot_of_live (hlive : cache.store.liveSlot? key = some slot) :
    (key, slot.value) ∈ pending.snapshot := by
  rw [hsnapshot]
  exact hplaced.mem_liveEntries.mpr ⟨slot, hlive, rfl⟩

theorem slot?_finish_of_live_unreadable (hlive : cache.store.liveSlot? key = some slot)
    (hunreadable : unreadable slot.value = true) :
    (pending.finish cache).2.store.slot? key = none := by
  obtain ⟨hslot, -⟩ := (Store.liveSlot?_eq_some_iff _).mp hlive
  rw [slot?_finish_of_unreadable (nodup_keys_snapshot hsnapshot)
    (mem_snapshot_of_live hplaced hsnapshot hlive) hunreadable, hslot]
  simp

theorem slot?_finish_of_live_kept (hlive : cache.store.liveSlot? key = some slot)
    (hreadable : unreadable slot.value = false)
    (hnone : listsAny pending.ids slot.value = false) :
    (pending.finish cache).2.store.slot? key = some slot := by
  obtain ⟨hslot, -⟩ := (Store.liveSlot?_eq_some_iff _).mp hlive
  rw [slot?_finish_of_not_listsAny (nodup_keys_snapshot hsnapshot)
    (mem_snapshot_of_live hplaced hsnapshot hlive) hreadable hnone]
  exact hslot

omit hplaced in
/-- An entry that lists some of the ids is cut, unless its time runs out before its turn. -/
theorem made_finish_of_live {cut : Cut} (hcut : cut ∈ pending.cuts)
    (hlive : cache.store.liveSlot? cut.key = some slot) (hvalue : slot.value = cut.found)
    (hlasting : slot.expired cache.store.lifetime (pending.finish cache).2.store.now = false) :
    cut.Made cache.store (pending.finish cache).2.store := by
  obtain ⟨hslot, -⟩ := (Store.liveSlot?_eq_some_iff _).mp hlive
  rcases made_or_missed_finish (nodup_keys_snapshot hsnapshot) hcut cache with
    hmade | ⟨hkept, hgone⟩
  · exact hmade
  · have hafter : (pending.finish cache).2.store.liveSlot? cut.key = some slot := by
      refine (Store.liveSlot?_eq_some_iff _).mpr ⟨hkept.trans hslot, ?_⟩
      rw [lifetime_finish]
      exact hlasting
    rw [hafter, Option.map_some, hvalue] at hgone
    exact absurd rfl hgone

theorem dealt_finish (hlive : cache.store.liveSlot? key = some slot)
    (hlasting : listsAny pending.ids slot.value = true →
      slot.expired cache.store.lifetime (pending.finish cache).2.store.now = false) :
    Dealt pending.ids cache.store (pending.finish cache).2.store key slot := by
  rw [Dealt]
  cases hdecode : StoredIds.decode slot.value with
  | error malformed =>
    have hunreadable : unreadable slot.value = true := by rw [unreadable, hdecode]
    exact slot?_finish_of_live_unreadable hplaced hsnapshot hlive hunreadable
  | ok detectors =>
    have hreadable : unreadable slot.value = false := by rw [unreadable, hdecode]
    have hlists : listsAny pending.ids slot.value =
        detectors.any fun d => pending.ids.contains d.id := by rw [listsAny, hdecode]
    dsimp only
    split
    · next hkept =>
      rw [List.filter_eq_self] at hkept
      refine slot?_finish_of_live_kept hplaced hsnapshot hlive hreadable ?_
      rw [hlists, List.any_eq_false]
      intro d hd
      simpa using hkept d hd
    · next hcut =>
      have hlisted : ∃ d ∈ detectors, d.id ∈ pending.ids := by
        refine Classical.byContradiction fun hnone => hcut (List.filter_eq_self.mpr ?_)
        exact fun d hd => decide_eq_true fun hid => hnone ⟨d, hd, hid⟩
      have hany : listsAny pending.ids slot.value = true := by
        rw [hlists, List.any_eq_true]
        simpa using hlisted
      have hmem := mem_cuts.mpr
        ⟨_, mem_snapshot_of_live hplaced hsnapshot hlive, detectors, hdecode, hlisted, rfl⟩
      obtain ⟨_, time, -, -, -, hearly, hlate, hslot⟩ :=
        made_finish_of_live hsnapshot hmem hlive rfl (hlasting hany)
      have hsame : (detectors.filter fun d => !pending.ids.contains d.id) =
          detectors.filter fun d => d.id ∉ pending.ids := by simp
      simp only [Cut.value, hsame] at hslot
      exact ⟨time, hearly, hlate, hslot,
        StoredIds.decode_encode_of_sublist hdecode List.filter_sublist⟩

theorem slot?_finish_of_not_live (hnot : cache.store.liveSlot? key = none) :
    (pending.finish cache).2.store.slot? key = cache.store.slot? key ∧
      (pending.finish cache).2.store.liveSlot? key = none := by
  have hkept : (pending.finish cache).2.store.slot? key = cache.store.slot? key := by
    refine slot?_finish_of_not_shown (fun value hmem => ?_) cache
    rw [hsnapshot, hplaced.mem_liveEntries] at hmem
    obtain ⟨slot, hlive, -⟩ := hmem
    rw [hnot] at hlive
    cases hlive
  refine ⟨hkept, Option.eq_none_iff_forall_ne_some.mpr fun slot hlive => ?_⟩
  obtain ⟨hslot, hunexpired⟩ := (Store.liveSlot?_eq_some_iff _).mp hlive
  rw [lifetime_finish] at hunexpired
  have hbefore : cache.store.liveSlot? key = some slot :=
    (Store.liveSlot?_eq_some_iff _).mpr
      ⟨hkept.symm.trans hslot, Slot.not_expired_of_le (now_le_finish cache) hunexpired⟩
  rw [hnot] at hbefore
  cases hbefore

theorem clean_finish : (pending.finish cache).2.store.AllLive fun _ value =>
    unreadable value = false ∧ listsAny pending.ids value = false := by
  intro key slot hlive
  obtain ⟨hslot, hunexpired⟩ := (Store.liveSlot?_eq_some_iff _).mp hlive
  cases hbefore : cache.store.liveSlot? key with
  | none =>
    rw [(slot?_finish_of_not_live hplaced hsnapshot hbefore).2] at hlive
    cases hlive
  | some found =>
    cases hunreadable : unreadable found.value with
    | true =>
      rw [slot?_finish_of_live_unreadable hplaced hsnapshot hbefore hunreadable] at hslot
      cases hslot
    | false =>
      cases hlists : listsAny pending.ids found.value with
      | false =>
        rw [slot?_finish_of_live_kept hplaced hsnapshot hbefore hunreadable hlists] at hslot
        cases hslot
        exact ⟨hunreadable, hlists⟩
      | true =>
        obtain ⟨cut, hcut, rfl, hfound⟩ :=
          exists_cut (mem_snapshot_of_live hplaced hsnapshot hbefore) hlists
        rcases made_or_missed_finish (nodup_keys_snapshot hsnapshot) hcut cache with
          ⟨_, _, -, -, -, -, -, hmade⟩ | ⟨hkept, hgone⟩
        · rw [hmade] at hslot
          cases hslot
          exact ⟨unreadable_value_of_mem_cuts hcut, listsAny_value_of_mem_cuts hcut⟩
        · -- a cut is missed only if its key is not live with the value shown
          obtain ⟨hheld, -⟩ := (Store.liveSlot?_eq_some_iff _).mp hbefore
          rw [hkept, hheld] at hslot
          cases hslot
          rw [hlive, Option.map_some, hfound] at hgone
          exact absurd rfl hgone

theorem held_of_mem_snapshot {entry : Entry} (hentry : entry ∈ pending.snapshot) :
    ∃ slot, cache.store.liveSlot? entry.1 = some slot ∧
      cache.store.slot? entry.1 = some slot ∧ slot.value = entry.2 := by
  rw [hsnapshot, hplaced.mem_liveEntries] at hentry
  obtain ⟨slot, hlive, hvalue⟩ := hentry
  exact ⟨slot, hlive, ((Store.liveSlot?_eq_some_iff _).mp hlive).1, hvalue⟩

theorem corrupt_finish : (pending.finish cache).1.corrupt =
    pending.snapshot.countP fun entry => unreadable entry.2 := by
  have hkeys := nodup_keys_snapshot hsnapshot
  obtain ⟨noted, hstore, heq⟩ := pending.finish_eq_applyAll cache
  rw [heq, map_fst_undecodable, List.countP_eq_length_filter]
  refine Pass.fst_evictAll_of_held _ _ (hkeys.sublist (List.filter_sublist.map _)) ?_
  intro entry hentry
  obtain ⟨hmem, hunreadable⟩ := List.mem_filter.mp hentry
  have hnone := listsAny_of_unreadable hunreadable pending.ids
  rw [slot?_applyAll_of_not_mem fun cut hcut => key_ne_of_not_listsAny hkeys hmem hnone hcut,
    hstore]
  obtain ⟨slot, -, hslot, hvalue⟩ := held_of_mem_snapshot hplaced hsnapshot hmem
  rw [hslot, Option.map_some, hvalue]

variable (hlasting : ∀ key slot, cache.store.liveSlot? key = some slot →
  listsAny pending.ids slot.value = true →
  slot.expired cache.store.lifetime (pending.finish cache).2.store.now = false)

include hlasting

theorem found_of_mem_cuts {cut : Cut} (hcut : cut ∈ pending.cuts) :
    ∃ slot, cache.store.slot? cut.key = some slot ∧ slot.value = cut.found ∧
      slot.expired cache.store.lifetime (pending.finish cache).2.store.now = false := by
  have hmem := mem_snapshot_of_mem_cuts hcut
  have hlists : listsAny pending.ids cut.found = true := by
    cases hlisted : listsAny pending.ids cut.found with
    | true => rfl
    | false =>
      exact absurd rfl
        (key_ne_of_not_listsAny (nodup_keys_snapshot hsnapshot) hmem hlisted hcut)
  obtain ⟨slot, hlive, hslot, hvalue⟩ := held_of_mem_snapshot hplaced hsnapshot hmem
  exact ⟨slot, hslot, hvalue, hlasting _ slot hlive (hvalue ▸ hlists)⟩

theorem report_finish :
    (pending.finish cache).1 =
      { disabledIds := pending.ids
        skipped := pending.skipped
        scanned := pending.snapshot.length
        pruned := pending.snapshot.countP fun entry => listsAny pending.ids entry.2
        emptied := pending.snapshot.countP fun entry => emptiedBy pending.ids entry.2
        corrupt := pending.snapshot.countP fun entry => unreadable entry.2 } := by
  have hcorrupt := corrupt_finish hplaced hsnapshot
  obtain ⟨noted, hstore, heq⟩ := pending.finish_eq_applyAll cache
  have hfound : ∀ cut ∈ pending.cuts, ∃ slot, noted.store.slot? cut.key = some slot ∧
      slot.value = cut.found ∧ slot.expired noted.store.lifetime
        (applyAll pending.cuts (pending.report, noted)).2.store.now = false := by
    intro cut hcut
    obtain ⟨slot, hslot, hvalue, hunexpired⟩ := found_of_mem_cuts hplaced hsnapshot hlasting hcut
    rw [heq, Pass.now_evictAll] at hunexpired
    rw [hstore]
    exact ⟨slot, hslot, hvalue, hunexpired⟩
  have happlied := reported_applyAll_of_found
    (nodup_keys_cuts (nodup_keys_snapshot hsnapshot)) (pending.report, noted) hfound
  rw [← hcorrupt, heq]
  dsimp only
  rw [happlied, pending.length_cuts, countP_cuts_emptied]
  simp [report]

end

end Pending

/-- Over live entries that all read back and list none of the ids, a prune only looks. -/
theorem run_of_clean {disabled : List Mapping} {cache : Cache} (hplaced : cache.store.Placed)
    (h : idsOf disabled ≠ [])
    (hclean : cache.store.AllLive fun _ value =>
      unreadable value = false ∧ listsAny (idsOf disabled) value = false) :
    (run disabled cache).2.store = cache.store.tick ∧
      (run disabled cache).1 =
        { disabledIds := idsOf disabled
          skipped := disabled.countP fun m => m.canonicalId?.isNone
          scanned := cache.store.tick.liveEntries.length } := by
  obtain ⟨pending, copied, heq, hcopied, hsnapshot, hids, hskipped⟩ := run_of_idsOf_ne_nil h cache
  have hcopy : copied.store.Placed := hcopied ▸ hplaced.tick
  have hshown : ∀ entry ∈ pending.snapshot,
      unreadable entry.2 = false ∧ listsAny pending.ids entry.2 = false := by
    intro entry hentry
    rw [hsnapshot, hcopied] at hentry
    rw [hids]
    exact hclean.of_mem_snapshot hplaced hentry
  have hlasting : ∀ key slot, copied.store.liveSlot? key = some slot →
      listsAny pending.ids slot.value = true →
      slot.expired copied.store.lifetime (pending.finish copied).2.store.now = false := by
    intro key slot hlive hlists
    rw [(hshown _ (Pending.mem_snapshot_of_live hcopy hsnapshot hlive)).2] at hlists
    cases hlists
  obtain ⟨hpruned, hemptied, hcorrupt⟩ := Pending.counts_of_clean hshown
  rw [heq]
  refine ⟨(Pending.store_finish_of_clean hshown copied).trans hcopied, ?_⟩
  rw [Pending.report_finish hcopy hsnapshot hlasting, hpruned, hemptied, hcorrupt, hids, hskipped,
    hsnapshot, hcopied]

section

variable {disabled : List Mapping} {cache : Cache} (hplaced : cache.store.Placed)

include hplaced

theorem placed_run : (run disabled cache).2.store.Placed := by
  have hpass : Traffic (Request.Writes fun _ _ => True) cache.store (run disabled cache).2.store :=
    Pass.traffic_complete (traffic_start _ disabled cache) fun pending =>
      pending.traffic_finish fun _ _ => trivial
  exact hpass.placed hplaced

variable (h : idsOf disabled ≠ []) {key : Octets} {slot : Slot}

include h

theorem dealt_run (hlive : cache.store.tick.liveSlot? key = some slot)
    (hlasting : listsAny (idsOf disabled) slot.value = true →
      slot.expired cache.store.lifetime (run disabled cache).2.store.now = false) :
    Dealt (idsOf disabled) cache.store.tick (run disabled cache).2.store key slot := by
  obtain ⟨pending, copied, heq, hcopied, hsnapshot, hids, -⟩ := run_of_idsOf_ne_nil h cache
  have hlifetime : copied.store.lifetime = cache.store.lifetime := by rw [hcopied]; rfl
  rw [heq, ← hids, ← hlifetime] at hlasting
  rw [heq, ← hids, ← hcopied]
  rw [← hcopied] at hlive
  exact Pending.dealt_finish (hcopied ▸ hplaced.tick) hsnapshot hlive hlasting

theorem slot?_run_of_not_live (hnot : cache.store.tick.liveSlot? key = none) :
    (run disabled cache).2.store.slot? key = cache.store.tick.slot? key ∧
      (run disabled cache).2.store.liveSlot? key = none := by
  obtain ⟨pending, copied, heq, hcopied, hsnapshot, -, -⟩ := run_of_idsOf_ne_nil h cache
  rw [← hcopied] at hnot ⊢
  rw [heq]
  exact Pending.slot?_finish_of_not_live (hcopied ▸ hplaced.tick) hsnapshot hnot

theorem clean_run : (run disabled cache).2.store.AllLive fun _ value =>
    unreadable value = false ∧ listsAny (idsOf disabled) value = false := by
  obtain ⟨pending, copied, heq, hcopied, hsnapshot, hids, -⟩ := run_of_idsOf_ne_nil h cache
  rw [heq, ← hids]
  exact Pending.clean_finish (hcopied ▸ hplaced.tick) hsnapshot

theorem report_run
    (hlasting : ∀ key slot, cache.store.tick.liveSlot? key = some slot →
      listsAny (idsOf disabled) slot.value = true →
      slot.expired cache.store.lifetime (run disabled cache).2.store.now = false) :
    (run disabled cache).1 =
      { disabledIds := idsOf disabled
        skipped := disabled.countP fun m => m.canonicalId?.isNone
        scanned := cache.store.tick.liveEntries.length
        pruned := cache.store.tick.liveEntries.countP fun entry =>
          listsAny (idsOf disabled) entry.2
        emptied := cache.store.tick.liveEntries.countP fun entry =>
          emptiedBy (idsOf disabled) entry.2
        corrupt := cache.store.tick.liveEntries.countP fun entry => unreadable entry.2 } := by
  obtain ⟨pending, copied, heq, hcopied, hsnapshot, hids, hskipped⟩ := run_of_idsOf_ne_nil h cache
  have hlifetime : copied.store.lifetime = cache.store.lifetime := by rw [hcopied]; rfl
  rw [heq, ← hids, ← hlifetime, ← hcopied] at hlasting
  rw [heq, Pending.report_finish (hcopied ▸ hplaced.tick) hsnapshot hlasting, hids, hskipped,
    hsnapshot, hcopied]

theorem run_again :
    (run disabled (run disabled cache).2).2.store = (run disabled cache).2.store.tick ∧
      (run disabled (run disabled cache).2).1 =
        { disabledIds := idsOf disabled
          skipped := disabled.countP fun m => m.canonicalId?.isNone
          scanned := (run disabled cache).2.store.tick.liveEntries.length } :=
  run_of_clean (placed_run hplaced) h (clean_run hplaced h)

end

/-- A prune with nothing in between takes the ids of the mappings, normalized and each once, out of
every live entry, removes the live entries that do not read back, leaves all others and their times,
makes no other key live, and reports exactly that; without any id it reads nothing. A second one for
the same mappings finds nothing to do. All this holds as long as the time of no entry to be cut runs
out meanwhile, as none does while the clock stands still. -/
theorem run_exact {cache : Cache} (hplaced : cache.store.Placed) {disabled : List Mapping}
    (hlasting : ∀ key slot, cache.store.tick.liveSlot? key = some slot →
      listsAny (idsOf disabled) slot.value = true →
      slot.expired cache.store.lifetime (run disabled cache).2.store.now = false) :
    let ids := (disabled.filterMap Mapping.canonicalId?).eraseDups
    let skipped := disabled.countP fun m => m.canonicalId?.isNone
    let before := cache.store.tick
    let shown := before.liveEntries
    let pruned := run disabled cache
    let after := pruned.2.store
    let again := run disabled pruned.2
    ids.Nodup ∧
    (ids = [] → (after = cache.store ∧ pruned.1 = { skipped }) ∧
      again.2.store = after ∧ again.1 = { skipped }) ∧
    (ids ≠ [] →
      (∀ key slot, before.liveSlot? key = some slot → Dealt ids before after key slot) ∧
      (∀ key, before.liveSlot? key = none →
        after.slot? key = before.slot? key ∧ after.liveSlot? key = none) ∧
      pruned.1 =
        { disabledIds := ids
          skipped
          scanned := shown.length
          pruned := shown.countP fun entry => listsAny ids entry.2
          emptied := shown.countP fun entry => emptiedBy ids entry.2
          superseded := 0
          corrupt := shown.countP fun entry => unreadable entry.2 } ∧
      again.2.store = after.tick ∧
      again.1 =
        { disabledIds := ids
          skipped
          scanned := after.tick.liveEntries.length
          pruned := 0
          emptied := 0
          superseded := 0
          corrupt := 0 }) := by
  intro ids skipped before shown pruned after again
  have hids : idsOf disabled = ids := idsOf_eq disabled
  refine ⟨Octets.nodup_eraseDups _, ?_, ?_⟩
  · intro hnil
    have hnone := hids.trans hnil
    exact ⟨run_of_idsOf_eq_nil hnone cache, run_of_idsOf_eq_nil hnone pruned.2⟩
  · intro hne
    have hsome : idsOf disabled ≠ [] := fun hnil => hne (hids.symm.trans hnil)
    rw [← hids]
    obtain ⟨hstore, hagain⟩ := run_again hplaced hsome
    refine ⟨?_, fun key => slot?_run_of_not_live hplaced hsome,
      report_run hplaced hsome hlasting, hstore, hagain⟩
    intro key slot hlive
    exact dealt_run hplaced hsome hlive (hlasting key slot hlive)

theorem run_exact_of_three_entries :
    let first := ascii "0000000a-0000-4000-8000-000000000001"
    let second := ascii "0000000b-0000-4000-8000-000000000002"
    let s := (Session.performAll (System.fresh 1000 2 {} fnv1a { threshold := .error } {})
      [.put (ascii "a:1") [⟨first, true⟩, ⟨second, true⟩],
        .putEncoded [(ascii "b:2", ascii "none")], .put (ascii "c:3") [⟨second, true⟩],
        .advance 5]).2
    let disabled : List Mapping :=
      [⟨⟨ascii "0000000A-0000-4000-8000-000000000001", false⟩, []⟩, ⟨⟨[], false⟩, []⟩]
    let after := (run disabled s.cache).2.store
    (run disabled s.cache).1 =
        { disabledIds := [first], skipped := 1, scanned := 3, pruned := 1, corrupt := 1 } ∧
      after.slot? (ascii "c:3") = some ⟨second, 0⟩ ∧
      (run disabled (run disabled s.cache).2).1 =
        { disabledIds := [first], skipped := 1, scanned := 2 } := by
  intro first second s disabled
  dsimp only
  have hplaced : s.cache.store.Placed :=
    ((System.Reachable.fresh 1000 2 {} fnv1a { threshold := .error } {}).performAll _).placed
  -- the clock stands still, so nothing expires before the end
  have hstill : (run disabled s.cache).2.store.now = s.cache.store.tick.now := by decide +kernel
  have hlasting : ∀ key slot, s.cache.store.tick.liveSlot? key = some slot →
      listsAny (idsOf disabled) slot.value = true →
      slot.expired s.cache.store.lifetime (run disabled s.cache).2.store.now = false := by
    intro key slot hlive _
    rw [hstill]
    exact ((Store.liveSlot?_eq_some_iff _).mp hlive).2
  obtain ⟨-, -, hexact⟩ := run_exact hplaced hlasting
  obtain ⟨hdealt, -, hreport, -, hagain⟩ := hexact (by decide +kernel)
  refine ⟨hreport.trans (by decide +kernel), ?_, hagain.trans (by decide +kernel)⟩
  have hcanonical : ∀ id ∈ [second], DetectorId.isCanonical id := by decide +kernel
  have hdecode : StoredIds.decode second = .ok [⟨second, true⟩] :=
    StoredIds.decode_joined hcanonical (by simp)
  have hkept := hdealt (ascii "c:3") ⟨second, 0⟩ (by decide +kernel)
  simp only [Dealt, hdecode] at hkept
  rw [if_pos (by decide +kernel)] at hkept
  exact hkept

end Prune

end DetectorCache
