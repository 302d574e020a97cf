import DetectorCache.Proofs.Pass.Prune
import DetectorCache.Proofs.Store.Slots
/-!
The slots after the second half of a prune. The keys of a snapshot are different, so every key of it
is met once: as a cut, which is made or missed; as an entry that could not be read, which goes if it
is still what it was; or not at all. A cut is missed exactly if, when its turn comes, its key is not
live with the value that the snapshot showed, and then nothing happens to the key.
-/
set_option autoImplicit false

namespace DetectorCache

theorem Store.nodup_keys_liveEntries (store : Store) : (store.liveEntries.map Prod.fst).Nodup :=
  (SortedMap.ofList _).increasing.nodup_keys

theorem eq_of_nodup_keys {entries : List Entry} (h : (entries.map Prod.fst).Nodup)
    {key v w : Octets} (hv : (key, v) ∈ entries) (hw : (key, w) ∈ entries) : v = w := by
  induction entries with
  | nil => cases hv
  | cons entry entries ih =>
    obtain ⟨hnot, hrest⟩ := List.nodup_cons.mp h
    have hother : ∀ {w}, (key, w) ∈ entries → entry.1 ≠ key := by
      intro w hmem heq
      have hkey := List.mem_map_of_mem (f := Prod.fst) hmem
      exact hnot (heq ▸ hkey)
    rcases List.mem_cons.mp hv with rfl | hvrest
    · rcases List.mem_cons.mp hw with heq | hwrest
      · exact (congrArg Prod.snd heq).symm
      · exact absurd rfl (hother hwrest)
    · rcases List.mem_cons.mp hw with rfl | hwrest
      · exact absurd rfl (hother hvrest)
      · exact ih hrest hvrest hwrest

namespace Pass

theorem slot?_evictAll (cache : Cache) (reason : Octets) (entries : List Entry) (key : Octets) :
    (evictAll cache reason entries).2.store.slot? key =
      (cache.store.slot? key).filter fun slot => (key, slot.value) ∉ entries := by
  induction entries generalizing cache with
  | nil =>
    simp only [evictAll, List.not_mem_nil, not_false_eq_true, decide_true]
    cases cache.store.slot? key <;> rfl
  | cons entry entries ih =>
    obtain ⟨k, v⟩ := entry
    refine (ih _).trans ?_
    rw [Cache.store_evictCorrupt, Store.slot?_invalidateIf]
    by_cases hk : key = k
    · subst hk
      rw [if_pos rfl, Option.filter_filter]
      refine congrArg (fun keep => Option.filter keep _) (funext fun slot => ?_)
      simp
    · rw [if_neg hk]
      refine congrArg (fun keep => Option.filter keep _) (funext fun slot => ?_)
      simp [hk]

theorem now_evictAll (cache : Cache) (reason : Octets) (entries : List Entry) :
    (evictAll cache reason entries).2.store.now = cache.store.now := by
  induction entries generalizing cache with
  | nil => rfl
  | cons entry entries ih =>
    refine (ih _).trans ?_
    rw [Cache.store_evictCorrupt]
    rfl

theorem lifetime_evictAll (cache : Cache) (reason : Octets) (entries : List Entry) :
    (evictAll cache reason entries).2.store.lifetime = cache.store.lifetime := by
  induction entries generalizing cache with
  | nil => rfl
  | cons entry entries ih =>
    refine (ih _).trans ?_
    rw [Cache.store_evictCorrupt]
    rfl

theorem fst_evictCorrupt (cache : Cache) (key value reason : Octets) :
    (cache.evictCorrupt key value reason).1 =
      decide ((cache.store.slot? key).map Slot.value = some value) :=
  cache.store.fst_invalidateIf_eq key value

theorem fst_evictAll_of_held (cache : Cache) (reason : Octets) {entries : List Entry}
    (hkeys : (entries.map Prod.fst).Nodup)
    (hheld : ∀ e ∈ entries, (cache.store.slot? e.1).map Slot.value = some e.2) :
    (evictAll cache reason entries).1 = entries.length := by
  induction entries generalizing cache with
  | nil => rfl
  | cons entry entries ih =>
    obtain ⟨hnot, hrest⟩ := List.nodup_cons.mp hkeys
    have hfirst : (cache.evictCorrupt entry.1 entry.2 reason).1 = true := by
      rw [fst_evictCorrupt]
      exact decide_eq_true (hheld entry List.mem_cons_self)
    have hothers := ih (cache.evictCorrupt entry.1 entry.2 reason).2 hrest ?_
    · simp only [evictAll, hfirst, hothers, Bool.toNat_true, List.length_cons]
      omega
    · intro e he
      -- the removal of one entry leaves the slots of the other keys
      have hne : e.1 ≠ entry.1 := fun heq => hnot (heq ▸ List.mem_map_of_mem he)
      rw [Cache.store_evictCorrupt, Store.slot?_invalidateIf, if_neg hne]
      exact hheld e (List.mem_cons_of_mem _ he)

end Pass

namespace Prune

/-- Whether a value reads back as detectors one of which has an id in the list. -/
def listsAny (ids : List Octets) (value : Octets) : Bool :=
  match StoredIds.decode value with
  | .error _ => false
  | .ok detectors => detectors.any fun d => ids.contains d.id

/-- Whether a value does not read back. -/
def unreadable (value : Octets) : Bool :=
  match StoredIds.decode value with
  | .error _ => true
  | .ok _ => false

theorem listsAny_of_unreadable {value : Octets} (h : unreadable value = true)
    (ids : List Octets) : listsAny ids value = false := by
  rw [unreadable] at h
  rw [listsAny]
  cases hdecode : StoredIds.decode value with
  | error malformed => rfl
  | ok detectors =>
    rw [hdecode] at h
    cases h

theorem listsAny_iff {ids : List Octets} {value : Octets} :
    listsAny ids value = true ↔ ∃ id ∈ ids, StoredIds.Lists value id := by
  rw [listsAny]
  cases hdecode : StoredIds.decode value with
  | error malformed => simp [StoredIds.Lists, hdecode]
  | ok detectors =>
    simp only [List.any_eq_true, List.contains_iff_mem, StoredIds.Lists, hdecode, Except.ok.injEq,
      exists_eq_left', List.mem_map]
    constructor
    · rintro ⟨d, hd, hid⟩
      exact ⟨d.id, hid, d, hd, rfl⟩
    · rintro ⟨id, hid, d, hd, rfl⟩
      exact ⟨d, hd, hid⟩

namespace Cut

variable (cut : Cut) (report : Report) (cache : Cache)

def finds (store : Store) : Bool :=
  (store.tick.liveSlot? cut.key).map Slot.value == some cut.found

def reported (found : Bool) : Report :=
  if found then
    { report with
      pruned := report.pruned + 1
      emptied := report.emptied + (if cut.kept = [] then 1 else 0) }
  else { report with superseded := report.superseded + 1 }

theorem fst_apply :
    (cut.apply (report, cache)).1 = cut.reported report (cut.finds cache.store) := by
  have hreplaced : (cache.replaceEncoded cut.key cut.found cut.value).1 = cut.finds cache.store :=
    cache.store.fst_replaceIf cut.key cut.found cut.value
  simp only [apply, hreplaced, reported]
  split <;> rfl

theorem slot?_apply (k : Octets) :
    (cut.apply (report, cache)).2.store.slot? k =
      if k = cut.key then
        if cut.finds cache.store then some ⟨cut.value, cache.store.tick.now⟩
        else cache.store.slot? cut.key
      else cache.store.slot? k := by
  rw [store_apply, Store.slot?_replaceIf]
  simp only [finds, beq_iff_eq]

theorem now_apply : (cut.apply (report, cache)).2.store.now = cache.store.tick.now := by
  rw [store_apply]
  rfl

theorem lifetime_apply : (cut.apply (report, cache)).2.store.lifetime = cache.store.lifetime := by
  rw [store_apply]
  rfl

/-- The cut was made: it found its value live, at a time between the two stores, and left what it
keeps as written then. -/
def Made (before after : Store) : Prop :=
  ∃ slot time, before.slot? cut.key = some slot ∧ slot.value = cut.found ∧
    slot.expired before.lifetime time = false ∧ before.now ≤ time ∧ time ≤ after.now ∧
    after.slot? cut.key = some ⟨cut.value, time⟩

/-- The cut was missed: its key is as it was, and not live with the value that the cut is for. -/
def Missed (before after : Store) : Prop :=
  after.slot? cut.key = before.slot? cut.key ∧
    (after.liveSlot? cut.key).map Slot.value ≠ some cut.found

end Cut

theorem now_le_applyAll (cuts : List Cut) (state : Report × Cache) :
    state.2.store.now ≤ (applyAll cuts state).2.store.now := by
  induction cuts generalizing state with
  | nil => exact Int.le_refl _
  | cons cut cuts ih =>
    have hfirst := state.2.store.now_le_tick
    rw [← cut.now_apply state.1 state.2] at hfirst
    exact Int.le_trans hfirst (ih _)

theorem lifetime_applyAll (cuts : List Cut) (state : Report × Cache) :
    (applyAll cuts state).2.store.lifetime = state.2.store.lifetime := by
  induction cuts generalizing state with
  | nil => rfl
  | cons cut cuts ih => exact (ih _).trans (cut.lifetime_apply state.1 state.2)

theorem slot?_applyAll_of_not_mem {cuts : List Cut} {key : Octets}
    (h : ∀ cut ∈ cuts, cut.key ≠ key) (state : Report × Cache) :
    (applyAll cuts state).2.store.slot? key = state.2.store.slot? key := by
  induction cuts generalizing state with
  | nil => rfl
  | cons cut cuts ih =>
    have hfirst := cut.slot?_apply state.1 state.2 key
    rw [if_neg (Ne.symm (h cut List.mem_cons_self))] at hfirst
    exact (ih (fun c hc => h c (List.mem_cons_of_mem _ hc)) _).trans hfirst

/-- A cut made or missed at its turn stays so, since no later one is for its key. -/
theorem made_or_missed_of_first {cut : Cut} {cuts : List Cut}
    (hothers : ∀ other ∈ cuts, other.key ≠ cut.key) (state : Report × Cache) :
    cut.Made state.2.store (applyAll (cut :: cuts) state).2.store ∨
      cut.Missed state.2.store (applyAll (cut :: cuts) state).2.store := by
  have hslot : (applyAll (cut :: cuts) state).2.store.slot? cut.key =
      (cut.apply state).2.store.slot? cut.key := slot?_applyAll_of_not_mem hothers _
  have hturn := cut.slot?_apply state.1 state.2 cut.key
  have hlater : state.2.store.tick.now ≤ (applyAll (cut :: cuts) state).2.store.now := by
    rw [← cut.now_apply state.1 state.2]
    exact now_le_applyAll cuts _
  have hlifetime := lifetime_applyAll (cut :: cuts) state
  rw [if_pos rfl] at hturn
  cases hfinds : cut.finds state.2.store with
  | true =>
    rw [hfinds, if_pos rfl] at hturn
    rw [Cut.finds, beq_iff_eq, Option.map_eq_some_iff] at hfinds
    obtain ⟨slot, hlive, hvalue⟩ := hfinds
    obtain ⟨hheld, hunexpired⟩ := (Store.liveSlot?_eq_some_iff _).mp hlive
    exact Or.inl ⟨slot, state.2.store.tick.now, hheld, hvalue, hunexpired,
      state.2.store.now_le_tick, hlater, hslot.trans hturn⟩
  | false =>
    rw [hfinds, if_neg Bool.false_ne_true] at hturn
    refine Or.inr ⟨hslot.trans hturn, ?_⟩
    intro hfound
    obtain ⟨slot, hlive, hvalue⟩ := Option.map_eq_some_iff.mp hfound
    obtain ⟨hheld, hunexpired⟩ := (Store.liveSlot?_eq_some_iff _).mp hlive
    rw [hslot, hturn] at hheld
    rw [hlifetime] at hunexpired
    -- what is live in the end was live at the turn of the cut, with the same value
    have hthen : state.2.store.tick.liveSlot? cut.key = some slot :=
      (Store.liveSlot?_eq_some_iff _).mpr ⟨hheld, Slot.not_expired_of_le hlater hunexpired⟩
    rw [Cut.finds, hthen, Option.map_some, hvalue] at hfinds
    simp at hfinds

theorem made_or_missed {cuts : List Cut} (hkeys : (cuts.map Cut.key).Nodup) {cut : Cut}
    (hcut : cut ∈ cuts) (state : Report × Cache) :
    cut.Made state.2.store (applyAll cuts state).2.store ∨
      cut.Missed state.2.store (applyAll cuts state).2.store := by
  induction cuts generalizing state with
  | nil => cases hcut
  | cons first cuts ih =>
    obtain ⟨hnot, hrest⟩ := List.nodup_cons.mp hkeys
    have hfirst : ∀ other ∈ cuts, other.key ≠ first.key :=
      fun other hother heq => hnot (heq ▸ List.mem_map_of_mem hother)
    rcases List.mem_cons.mp hcut with rfl | hlater
    · exact made_or_missed_of_first hfirst state
    · have hslot := first.slot?_apply state.1 state.2 cut.key
      rw [if_neg (hfirst cut hlater)] at hslot
      have hnow := state.2.store.now_le_tick
      rw [← first.now_apply state.1 state.2] at hnow
      rcases ih hrest hlater (first.apply state) with
        ⟨slot, time, hheld, hvalue, hunexpired, hearly, hlate, hmade⟩ | ⟨hkept, hgone⟩
      · rw [first.lifetime_apply state.1 state.2] at hunexpired
        exact Or.inl ⟨slot, time, hslot.symm.trans hheld, hvalue, hunexpired,
          Int.le_trans hnow hearly, hlate, hmade⟩
      · exact Or.inr ⟨hkept.trans hslot, hgone⟩

theorem reported_applyAll (cuts : List Cut) (state : Report × Cache) :
    let report := (applyAll cuts state).1
    report.pruned + report.superseded =
        state.1.pruned + state.1.superseded + cuts.length ∧
      report.emptied + state.1.pruned ≤ report.pruned + state.1.emptied := by
  induction cuts generalizing state with
  | nil => exact ⟨rfl, Nat.le_of_eq (Nat.add_comm _ _)⟩
  | cons cut cuts ih =>
    obtain ⟨hcount, hemptied⟩ := ih (cut.apply state)
    have hfirst := cut.fst_apply state.1 state.2
    simp only [applyAll, List.foldl_cons, List.length_cons] at hcount hemptied ⊢
    rw [hfirst] at hcount hemptied
    cases hfound : cut.finds state.2.store with
    | true =>
      simp only [Cut.reported, hfound, if_true] at hcount hemptied
      split at hemptied <;> omega
    | false =>
      simp only [Cut.reported, hfound, Bool.false_eq_true, if_false] at hcount hemptied
      omega

/-- Cuts that all find what they are for, up to the end of the last one, are all made. -/
theorem reported_applyAll_of_found {cuts : List Cut} (hkeys : (cuts.map Cut.key).Nodup)
    (state : Report × Cache)
    (hfound : ∀ cut ∈ cuts, ∃ slot, state.2.store.slot? cut.key = some slot ∧
      slot.value = cut.found ∧
      slot.expired state.2.store.lifetime (applyAll cuts state).2.store.now = false) :
    (applyAll cuts state).1 =
      { state.1 with
        pruned := state.1.pruned + cuts.length
        emptied := state.1.emptied + cuts.countP (·.kept = []) } := by
  induction cuts generalizing state with
  | nil => rfl
  | cons cut cuts ih =>
    obtain ⟨hnot, hrest⟩ := List.nodup_cons.mp hkeys
    have hend : applyAll (cut :: cuts) state = applyAll cuts (cut.apply state) := rfl
    have hfinds : cut.finds state.2.store = true := by
      obtain ⟨slot, hheld, hvalue, hunexpired⟩ := hfound cut List.mem_cons_self
      have hlater : state.2.store.tick.now ≤ (applyAll (cut :: cuts) state).2.store.now := by
        rw [← cut.now_apply state.1 state.2]
        exact now_le_applyAll cuts _
      have hlive : state.2.store.tick.liveSlot? cut.key = some slot :=
        (Store.liveSlot?_eq_some_iff _).mpr ⟨hheld, Slot.not_expired_of_le hlater hunexpired⟩
      rw [Cut.finds, hlive, Option.map_some, hvalue]
      exact beq_self_eq_true _
    rw [hend, ih hrest (cut.apply state) ?_, cut.fst_apply state.1 state.2, hfinds]
    · simp only [Cut.reported, if_true, List.length_cons, List.countP_cons, decide_eq_true_eq,
        Report.mk.injEq, true_and]
      refine ⟨by omega, ?_, trivial⟩
      exact (Nat.add_assoc _ _ _).trans (congrArg _ (Nat.add_comm _ _))
    · intro other hother
      have hne : other.key ≠ cut.key := fun heq => hnot (heq ▸ List.mem_map_of_mem hother)
      obtain ⟨slot, hheld, hvalue, hunexpired⟩ := hfound other (List.mem_cons_of_mem _ hother)
      refine ⟨slot, ?_, hvalue, ?_⟩
      · have hslot := cut.slot?_apply state.1 state.2 other.key
        rw [if_neg hne] at hslot
        exact hslot.trans hheld
      · rw [cut.lifetime_apply state.1 state.2]
        exact hunexpired

namespace Pending

variable (pending : Pending)

theorem finish_eq_applyAll (cache : Cache) :
    ∃ noted : Cache, noted.store = cache.store ∧
      let applied := applyAll pending.cuts (pending.report, noted)
      let evicted := Pass.evictAll applied.2
        (Octets.ascii "undecodable value found during prune") (pending.undecodable.map Prod.fst)
      pending.finish cache = ({ applied.1 with corrupt := evicted.1 }, evicted.2) := by
  refine ⟨_, ?_, rfl⟩
  simp

theorem map_fst_undecodable :
    pending.undecodable.map Prod.fst = pending.snapshot.filter fun entry => unreadable entry.2 := by
  rw [undecodable]
  induction pending.snapshot with
  | nil => rfl
  | cons entry entries ih =>
    rw [List.filterMap_cons, List.filter_cons]
    cases hdecode : StoredIds.decode entry.2 with
    | error malformed => simpa [unreadable, hdecode] using ih
    | ok detectors => simpa [unreadable, hdecode] using ih

theorem mem_undecodable {entry : Entry} :
    entry ∈ pending.undecodable.map Prod.fst ↔
      entry ∈ pending.snapshot ∧ unreadable entry.2 = true := by
  rw [map_fst_undecodable, List.mem_filter]

theorem isSome_cut? (entry : Entry) :
    (pending.cut? entry).isSome = listsAny pending.ids entry.2 := by
  rw [cut?, listsAny]
  cases StoredIds.decode entry.2 with
  | error malformed => rfl
  | ok detectors =>
    simp only [List.length_filter_eq_length_iff]
    split
    · next hnone =>
      refine (List.any_eq_false.mpr ?_).symm
      intro d hd
      simpa using hnone d hd
    · next hsome =>
      refine (List.any_eq_true.mpr ?_).symm
      simpa using hsome

theorem length_cuts :
    pending.cuts.length = pending.snapshot.countP fun entry => listsAny pending.ids entry.2 := by
  rw [cuts, List.length_filterMap_eq_countP]
  exact List.countP_congr fun entry _ => by rw [isSome_cut?]

theorem key_of_cut? {entry : Entry} {cut : Cut} (h : pending.cut? entry = some cut) :
    cut.key = entry.1 := by
  rw [cut?] at h
  split at h
  · cases h
  · dsimp only at h
    split at h
    · cases h
    · cases h
      rfl

variable {pending}

theorem exists_cut {key value : Octets} (hshown : (key, value) ∈ pending.snapshot)
    (hlists : listsAny pending.ids value = true) :
    ∃ cut ∈ pending.cuts, cut.key = key ∧ cut.found = value := by
  obtain ⟨id, hid, detectors, hdecode, hmem⟩ := listsAny_iff.mp hlists
  obtain ⟨d, hd, rfl⟩ := List.mem_map.mp hmem
  exact ⟨_, mem_cuts.mpr ⟨_, hshown, detectors, hdecode, ⟨d, hd, hid⟩, rfl⟩, rfl, rfl⟩

theorem unreadable_value_of_mem_cuts {cut : Cut} (h : cut ∈ pending.cuts) :
    unreadable cut.value = false := by
  obtain ⟨detectors, hdecode, -⟩ := denotes_value_of_mem_cuts h
  rw [unreadable, hdecode]

theorem listsAny_value_of_mem_cuts {cut : Cut} (h : cut ∈ pending.cuts) :
    listsAny pending.ids cut.value = false := by
  refine Bool.eq_false_iff.mpr fun hlists => ?_
  obtain ⟨id, hid, hlisted⟩ := listsAny_iff.mp hlists
  exact ((denotes_value_of_mem_cuts h).lists_iff.mp hlisted).2 hid

variable (hkeys : (pending.snapshot.map Prod.fst).Nodup)

include hkeys

theorem nodup_keys_cuts : (pending.cuts.map Cut.key).Nodup := by
  rw [cuts]
  generalize pending.snapshot = snapshot at hkeys
  induction snapshot with
  | nil => exact List.nodup_nil
  | cons entry entries ih =>
    obtain ⟨hnot, hrest⟩ := List.nodup_cons.mp hkeys
    rw [List.filterMap_cons]
    cases hcut : pending.cut? entry with
    | none => exact ih hrest
    | some cut =>
      refine List.nodup_cons.mpr ⟨?_, ih hrest⟩
      intro hmem
      obtain ⟨other, hother, hkey⟩ := List.mem_map.mp hmem
      obtain ⟨entry', hentry', hcut'⟩ := List.mem_filterMap.mp hother
      have hsame : entry'.1 = entry.1 := by
        rw [← pending.key_of_cut? hcut', hkey, pending.key_of_cut? hcut]
      exact hnot (hsame ▸ List.mem_map_of_mem hentry')

omit hkeys in
theorem now_le_finish (cache : Cache) :
    cache.store.now ≤ (pending.finish cache).2.store.now := by
  obtain ⟨noted, hstore, heq⟩ := pending.finish_eq_applyAll cache
  rw [heq, Pass.now_evictAll, ← hstore]
  exact now_le_applyAll pending.cuts (pending.report, noted)

omit hkeys in
theorem lifetime_finish (cache : Cache) :
    (pending.finish cache).2.store.lifetime = cache.store.lifetime := by
  obtain ⟨noted, hstore, heq⟩ := pending.finish_eq_applyAll cache
  rw [heq, Pass.lifetime_evictAll, ← hstore]
  exact lifetime_applyAll pending.cuts (pending.report, noted)

omit hkeys in
theorem slot?_finish_of_not_cut {key : Octets} (h : ∀ cut ∈ pending.cuts, cut.key ≠ key)
    (cache : Cache) :
    (pending.finish cache).2.store.slot? key =
      (cache.store.slot? key).filter fun slot =>
        (key, slot.value) ∉ pending.undecodable.map Prod.fst := by
  obtain ⟨noted, hstore, heq⟩ := pending.finish_eq_applyAll cache
  rw [heq, Pass.slot?_evictAll, slot?_applyAll_of_not_mem h, hstore]

omit hkeys in
theorem slot?_finish_of_not_shown {key : Octets} (h : ∀ value, (key, value) ∉ pending.snapshot)
    (cache : Cache) :
    (pending.finish cache).2.store.slot? key = cache.store.slot? key := by
  have hcuts : ∀ cut ∈ pending.cuts, cut.key ≠ key := by
    intro cut hcut heq
    exact h cut.found (heq ▸ mem_snapshot_of_mem_cuts hcut)
  rw [slot?_finish_of_not_cut hcuts]
  refine Slot.filter_eq_of_forall fun slot _ => ?_
  exact decide_eq_true fun hmem => h slot.value (pending.mem_undecodable.mp hmem).1

theorem key_ne_of_not_listsAny {key value : Octets} (hshown : (key, value) ∈ pending.snapshot)
    (hnone : listsAny pending.ids value = false) {cut : Cut} (hcut : cut ∈ pending.cuts) :
    cut.key ≠ key := by
  rintro rfl
  obtain ⟨entry, hmem, found, hfound, ⟨d, hd, hid⟩, rfl⟩ := mem_cuts.mp hcut
  have hvalue : entry.2 = value := eq_of_nodup_keys hkeys hmem hshown
  have hlists : listsAny pending.ids value = true :=
    listsAny_iff.mpr ⟨d.id, hid, found, hvalue ▸ hfound, List.mem_map_of_mem hd⟩
  rw [hlists] at hnone
  cases hnone

theorem slot?_finish_of_not_listsAny {key value : Octets}
    (hshown : (key, value) ∈ pending.snapshot) (hreadable : unreadable value = false)
    (hnone : listsAny pending.ids value = false) (cache : Cache) :
    (pending.finish cache).2.store.slot? key = cache.store.slot? key := by
  rw [slot?_finish_of_not_cut fun cut hcut => key_ne_of_not_listsAny hkeys hshown hnone hcut]
  refine Slot.filter_eq_of_forall fun slot _ => decide_eq_true fun hmem => ?_
  obtain ⟨hother, hfault⟩ := pending.mem_undecodable.mp hmem
  have hvalue : slot.value = value := eq_of_nodup_keys hkeys hother hshown
  rw [hvalue, hreadable] at hfault
  cases hfault

/-- An entry shown that could not be read is gone unless it holds something else by now. -/
theorem slot?_finish_of_unreadable {key value : Octets} (hshown : (key, value) ∈ pending.snapshot)
    (hunreadable : unreadable value = true) (cache : Cache) :
    (pending.finish cache).2.store.slot? key =
      (cache.store.slot? key).filter (·.value ≠ value) := by
  have hnone := listsAny_of_unreadable hunreadable pending.ids
  rw [slot?_finish_of_not_cut fun cut hcut => key_ne_of_not_listsAny hkeys hshown hnone hcut]
  refine congrArg (fun keep => Option.filter keep _) (funext fun slot => ?_)
  refine decide_eq_decide.mpr (not_congr ?_)
  rw [mem_undecodable]
  constructor
  · rintro ⟨hmem, -⟩
    exact eq_of_nodup_keys hkeys hmem hshown
  · rintro rfl
    exact ⟨hshown, hunreadable⟩

theorem made_or_missed_finish {cut : Cut} (hcut : cut ∈ pending.cuts) (cache : Cache) :
    cut.Made cache.store (pending.finish cache).2.store ∨
      cut.Missed cache.store (pending.finish cache).2.store := by
  obtain ⟨noted, hstore, heq⟩ := pending.finish_eq_applyAll cache
  have hreadable : ∀ value, (cut.key, value) ∉ pending.undecodable.map Prod.fst := by
    intro value hmem
    obtain ⟨hshown, hunreadable⟩ := pending.mem_undecodable.mp hmem
    have hnone := listsAny_of_unreadable hunreadable pending.ids
    exact key_ne_of_not_listsAny hkeys hshown hnone hcut rfl
  have hslot : (pending.finish cache).2.store.slot? cut.key =
      (applyAll pending.cuts (pending.report, noted)).2.store.slot? cut.key := by
    rw [heq, Pass.slot?_evictAll]
    exact Slot.filter_eq_of_forall fun slot _ => decide_eq_true (hreadable slot.value)
  have hnow : (pending.finish cache).2.store.now =
      (applyAll pending.cuts (pending.report, noted)).2.store.now := by
    rw [heq, Pass.now_evictAll]
  have hlifetime : (pending.finish cache).2.store.lifetime =
      (applyAll pending.cuts (pending.report, noted)).2.store.lifetime := by
    rw [heq, Pass.lifetime_evictAll]
  have hlive : (pending.finish cache).2.store.liveSlot? cut.key =
      (applyAll pending.cuts (pending.report, noted)).2.store.liveSlot? cut.key := by
    change unexpired _ _ (Store.slot? _ _) = unexpired _ _ (Store.slot? _ _)
    rw [hslot, hnow, hlifetime]
  rw [← hstore, Cut.Made, Cut.Missed, hslot, hnow, hlive]
  exact made_or_missed (nodup_keys_cuts hkeys) hcut (pending.report, noted)

end Pending

end Prune

end DetectorCache
