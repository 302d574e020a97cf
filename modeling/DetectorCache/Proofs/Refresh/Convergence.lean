import DetectorCache.Proofs.System.Reachable
/-!
What a refresh cycle does for a detector that its list disables. A detector that the record does not
hold as disabled is taken out of every entry, whoever wrote it. For one that the record holds as
disabled already the cycle is no news, so an entry written in between is left as it is.
-/
set_option autoImplicit false

namespace DetectorCache.Refresh

open Octets (ascii)
open StoredIds (Lists)
open Store (Traffic Request)

variable {current : List Mapping} {s : System} {id : Octets}

/-- A list that names a detector, and always as a disabled one. -/
structure Disables (current : List Mapping) (id : Octets) : Prop where
  named : ∃ m ∈ current, m.canonicalId? = some id
  disabled : ∀ m ∈ current, m.canonicalId? = some id → m.detector.enabled = false

theorem disables_singleton {m : Mapping} (hid : m.canonicalId? = some id)
    (hoff : m.detector.enabled = false) : Disables [m] id := by
  refine ⟨⟨m, List.mem_singleton_self m, hid⟩, ?_⟩
  intro n hn _
  rw [List.mem_singleton.mp hn]
  exact hoff

/-- A disabled detector is taken out unless the record holds it as disabled. -/
theorem Disables.mem_taken_iff (h : Disables current id) {applied : Applied}
    (hkeyed : applied.Keyed) :
    id ∈ Prune.idsOf (Delta.between applied current).newlyDisabled ↔ ¬ applied.HeldDisabled id := by
  rw [Delta.mem_idsOf_newlyDisabled hkeyed]
  obtain ⟨m, hm, hid⟩ := h.named
  constructor
  · intro htaken
    rcases htaken with ⟨-, -, -, -, hheld⟩ | ⟨-, hunnamed⟩
    · exact hheld
    · exact absurd hid (hunnamed m hm)
  · intro hheld
    exact Or.inl ⟨m, hm, hid, h.disabled m hm hid, hheld⟩

/-- What a cycle cuts was live when it started, and loses only what the cycle takes out. -/
theorem of_mem_cuts (hidle : s.refreshing = false) (hplaced : s.cache.store.Placed)
    {pending : Pending} (hscanned : (start current s).1 = .scanned pending) {cut : Prune.Cut}
    (hcut : cut ∈ pending.cuts) :
    ∃ slot, s.cache.store.liveSlot? cut.key = some slot ∧
      StoredIds.Denotes cut.value fun id => Lists slot.value id ∧
        id ∉ Prune.idsOf (Delta.between s.applied current).newlyDisabled := by
  rcases start_cases current hidle with
    ⟨prune, cache, -, -, -, heq⟩ | ⟨pruning, cache, -, hids, hsnapshot, heq⟩
  · -- a cycle that stops at its eviction makes no cuts
    rw [heq, Pass.suspend] at hscanned
    split at hscanned
    · cases hscanned
    · cases hscanned
      cases hcut
  · rw [heq] at hscanned
    cases hscanned
    have hmem : (cut.key, cut.found) ∈ pruning.snapshot :=
      Prune.Pending.mem_snapshot_of_mem_cuts hcut
    rw [hsnapshot] at hmem
    obtain ⟨slot, hslot, hvalue⟩ := hplaced.tick.mem_liveEntries.mp hmem
    refine ⟨slot, Store.liveSlot?_of_tick hslot, ?_⟩
    rw [hvalue, ← hids]
    exact Prune.Pending.denotes_value_of_mem_cuts hcut

theorem not_lists_of_mem_taken (hidle : s.refreshing = false) (hplaced : s.cache.store.Placed)
    (hid : id ∈ Prune.idsOf (Delta.between s.applied current).newlyDisabled) :
    (run current s).2.cache.store.AllLive fun _ value => ¬ Lists value id := by
  rcases start_cases current hidle with
    ⟨prune, cache, -, -, hnone, -⟩ | ⟨pruning, cache, hstore, hids, hsnapshot, heq⟩
  · rw [hnone] at hid
    cases hid
  · have hshown : cache.store.AllLive fun k v => (k, v) ∈ pruning.snapshot := by
      rw [hstore, hsnapshot]
      exact hplaced.allLive_snapshot
    have hpruned : (pruning.finish cache).2.store.AllLive fun _ value => ¬ Lists value id := by
      refine (pruning.allLive_finish hshown).mono ?_
      intro key value hentry
      rw [← hids] at hid
      rcases hentry with ⟨hmem, hnot⟩ | ⟨cut, hcut, -, rfl⟩
      · exact Prune.Pending.not_lists_of_not_cut hmem hnot hid
      · intro hlists
        rw [(Prune.Pending.denotes_value_of_mem_cuts hcut).lists_iff] at hlists
        exact hlists.2 hid
    obtain ⟨cache', htraffic, hclosed⟩ :=
      Pruning.closed_finish_of_pruned (fun _ value => ¬ Lists value id)
        ⟨current, Delta.between s.applied current, pruning⟩
        ({ s with refreshing := true }.withCache cache)
    rw [run, heq]
    have hstore' := hclosed.store
    dsimp only [Pass.complete, Pending.finish]
    rw [hstore']
    exact htraffic.allLive hpruned

theorem lists_iff_of_not_mem_taken (hidle : s.refreshing = false) (hplaced : s.cache.store.Placed)
    (hid : id ∉ Prune.idsOf (Delta.between s.applied current).newlyDisabled) :
    (run current s).2.cache.store.AllLive fun key value =>
      ∃ slot, s.cache.store.liveSlot? key = some slot ∧ (Lists value id ↔ Lists slot.value id) := by
  have hbefore : s.cache.store.AllLive fun key value =>
      ∃ slot, s.cache.store.liveSlot? key = some slot ∧ (Lists value id ↔ Lists slot.value id) :=
    fun _ slot hslot => ⟨slot, hslot, Iff.rfl⟩
  have hcuts : ∀ pending : Pending, (start current s).1 = .scanned pending →
      ∀ cut ∈ pending.cuts, ∃ slot, s.cache.store.liveSlot? cut.key = some slot ∧
        (Lists cut.value id ↔ Lists slot.value id) := by
    intro pending hscanned cut hcut
    obtain ⟨slot, hslot, hvalue⟩ := of_mem_cuts hidle hplaced hscanned hcut
    refine ⟨slot, hslot, ?_⟩
    rw [hvalue.lists_iff]
    exact and_iff_left hid
  obtain ⟨cache, htraffic, hclosed⟩ := closed_run (fun key value =>
    ∃ slot, s.cache.store.liveSlot? key = some slot ∧ (Lists value id ↔ Lists slot.value id))
    hidle hcuts
  rw [hclosed.store]
  exact htraffic.allLive hbefore

/-- In any state a cycle runs. It reports how many mappings its list newly disables against the
record, and the ids that it therefore takes out. Let the list disable a detector: if the record does
not hold the detector as disabled, its id is taken out and no live entry lists it afterwards; if it
does, the id is not taken out and the live entries list it afterwards exactly where they did. -/
theorem lists_disabled_after_run (hs : s.Reachable) (h : Disables current id) :
    let delta := Delta.between s.applied current
    let result := run current s
    result.1.skipped = false ∧
      result.1.newlyDisabled = delta.newlyDisabled.length ∧
      result.1.prune.disabledIds = Prune.idsOf delta.newlyDisabled ∧
      (¬ s.applied.HeldDisabled id →
        id ∈ Prune.idsOf delta.newlyDisabled ∧
          result.2.cache.store.AllLive fun _ value => ¬ Lists value id) ∧
      (s.applied.HeldDisabled id →
        id ∉ Prune.idsOf delta.newlyDisabled ∧
          result.2.cache.store.AllLive fun key value =>
            ∃ slot, s.cache.store.liveSlot? key = some slot ∧
              (Lists value id ↔ Lists slot.value id)) := by
  intro delta result
  obtain ⟨cache, hclosed⟩ := closed_run_any current hs.idle
  have hreflects := reflects_run current hs.idle
  refine ⟨hclosed.ran, hreflects.newlyDisabled, hreflects.disabledIds, ?_, ?_⟩
  · intro hheld
    have htaken : id ∈ Prune.idsOf delta.newlyDisabled := (h.mem_taken_iff hs.keyed).mpr hheld
    exact ⟨htaken, not_lists_of_mem_taken hs.idle hs.placed htaken⟩
  · intro hheld
    have hkept : id ∉ Prune.idsOf delta.newlyDisabled :=
      fun htaken => (h.mem_taken_iff hs.keyed).mp htaken hheld
    exact ⟨hkept, lists_iff_of_not_mem_taken hs.idle hs.placed hkept⟩

theorem lists_disabled_after_run_first :
    let first := ascii "00000000-0000-4000-8000-000000000001"
    let here : Expression := [⟨ascii "a", ascii "1"⟩]
    let s := (Session.performAll (System.fresh 1000 2 {} fnv1a { threshold := .error } {})
      [.prime [⟨⟨first, true⟩, here⟩], .put (ascii "a:1") [⟨first, true⟩]]).2
    let result := run [⟨⟨first, false⟩, here⟩] s
    s.cache.store.liveEntries = [(ascii "a:1", first)] ∧ result.1.newlyDisabled = 1 ∧
      result.2.cache.store.AllLive fun _ value => ¬ Lists value first := by
  intro first here s result
  have hs : s.Reachable :=
    (System.Reachable.fresh 1000 2 {} fnv1a { threshold := .error } {}).performAll _
  have hid : (⟨⟨first, false⟩, here⟩ : Mapping).canonicalId? = some first := by decide +kernel
  have hheld : ¬ s.applied.HeldDisabled first := by
    intro hheld
    obtain ⟨m, hfind, hoff⟩ := hheld
    have hrecorded : s.applied.find? first = some ⟨⟨first, true⟩, here⟩ := by decide +kernel
    rw [hrecorded] at hfind
    cases hfind
    cases hoff
  obtain ⟨-, hcount, -, htaken, -⟩ := lists_disabled_after_run hs (disables_singleton hid rfl)
  exact ⟨by decide +kernel, hcount.trans (by decide +kernel), (htaken hheld).2⟩

/-- A write that lands after the cycle that disabled its detector is not healed by the next cycle:
the record holds the detector as disabled, so the cycle finds nothing to take out. -/
theorem late_write_survives_cycle :
    let first := ascii "00000000-0000-4000-8000-000000000001"
    let here : Expression := [⟨ascii "a", ascii "1"⟩]
    let current : List Mapping := [⟨⟨first, false⟩, here⟩]
    let s := (Session.performAll (System.fresh 1000 2 {} fnv1a { threshold := .error } {})
      [.prime [⟨⟨first, true⟩, here⟩], .refresh current, .put (ascii "a:1") [⟨first, true⟩]]).2
    s.Reachable ∧ Disables current first ∧ (run current s).1.skipped = false ∧
      ¬ (run current s).2.cache.store.AllLive fun _ value => ¬ Lists value first := by
  intro first here current s
  have hid : (⟨⟨first, false⟩, here⟩ : Mapping).canonicalId? = some first := by decide +kernel
  have hlive : (run current s).2.cache.store.liveSlot? (ascii "a:1") = some ⟨first, 0⟩ := by
    decide +kernel
  have hcanonical : ∀ id ∈ [first], DetectorId.isCanonical id := by decide +kernel
  have hlists : Lists first first :=
    ⟨_, StoredIds.decode_joined hcanonical (by simp), List.mem_singleton_self _⟩
  refine ⟨?_, disables_singleton hid rfl, by decide +kernel, ?_⟩
  · exact (System.Reachable.fresh 1000 2 {} fnv1a { threshold := .error } {}).performAll _
  · intro hnowhere
    exact hnowhere (ascii "a:1") ⟨first, 0⟩ hlive hlists

end DetectorCache.Refresh
