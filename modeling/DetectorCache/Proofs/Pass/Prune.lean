import DetectorCache.Pass.Prune
import DetectorCache.Proofs.Cache.Effects

set_option autoImplicit false

namespace DetectorCache.Prune

open Store (Traffic Request)

theorem start_of_idsOf_eq_nil {disabled : List Mapping} (h : idsOf disabled = []) (cache : Cache) :
    ∃ report, (start disabled cache).1 = .ended report ∧ report.disabledIds = [] ∧
      (start disabled cache).2.store = cache.store := by
  simp [start, h]

theorem start_of_idsOf_ne_nil {disabled : List Mapping} (h : idsOf disabled ≠ []) (cache : Cache) :
    ∃ pending : Pending, (start disabled cache).1 = .scanned pending ∧
      pending.ids = idsOf disabled ∧ pending.snapshot = cache.store.tick.liveEntries ∧
      (start disabled cache).2.store = cache.store.tick := by
  simp [start, h, Cache.entries, Cache.onStore, Store.snapshot]

theorem traffic_start (good : Octets → Octets → Prop) (disabled : List Mapping) (cache : Cache) :
    Traffic (Request.Writes good) cache.store (start disabled cache).2.store := by
  by_cases h : idsOf disabled = []
  · obtain ⟨report, -, -, hstore⟩ := start_of_idsOf_eq_nil h cache
    exact .of_eq hstore
  · obtain ⟨pending, -, -, -, hstore⟩ := start_of_idsOf_ne_nil h cache
    exact .of_tick hstore

namespace Pending

variable {pending : Pending}

theorem mem_cuts {cut : Cut} :
    cut ∈ pending.cuts ↔
      ∃ entry ∈ pending.snapshot, ∃ detectors, StoredIds.decode entry.2 = .ok detectors ∧
        (∃ d ∈ detectors, d.id ∈ pending.ids) ∧
        cut = ⟨entry.1, entry.2, detectors.filter fun d => !pending.ids.contains d.id⟩ := by
  simp only [cuts, List.mem_filterMap]
  refine exists_congr fun entry => and_congr_right fun _ => ?_
  rw [cut?]
  cases hdecode : StoredIds.decode entry.2 with
  | error malformed => simp
  | ok detectors =>
    have hlength : (detectors.filter fun d => !pending.ids.contains d.id).length =
        detectors.length ↔ ¬ ∃ d ∈ detectors, d.id ∈ pending.ids := by
      rw [List.length_filter_eq_length_iff]
      simp
    simp only [hlength, Except.ok.injEq, exists_eq_left']
    by_cases hlisted : ∃ d ∈ detectors, d.id ∈ pending.ids
    · simp [hlisted, eq_comm]
    · simp [hlisted]

theorem mem_snapshot_of_mem_cuts {cut : Cut} (h : cut ∈ pending.cuts) :
    (cut.key, cut.found) ∈ pending.snapshot := by
  obtain ⟨entry, hmem, detectors, -, -, rfl⟩ := mem_cuts.mp h
  exact hmem

/-- A cut leaves the ids that are not to be taken out. -/
theorem denotes_value_of_mem_cuts {cut : Cut} (h : cut ∈ pending.cuts) :
    StoredIds.Denotes cut.value fun id => StoredIds.Lists cut.found id ∧ id ∉ pending.ids := by
  obtain ⟨entry, -, detectors, hdecode, -, rfl⟩ := mem_cuts.mp h
  have hcanonical : ∀ d ∈ detectors.filter fun d => !pending.ids.contains d.id,
      DetectorId.isCanonical d.id := by
    intro d hd
    exact (StoredIds.of_decode hdecode).1 d (List.mem_filter.mp hd).1
  refine ⟨_, StoredIds.decode_encode hcanonical, ?_⟩
  intro id
  simp only [List.map_map, List.mem_map, List.mem_eraseDups, List.mem_filter, StoredIds.Lists,
    hdecode, Except.ok.injEq, exists_eq_left', Function.comp]
  constructor
  · intro hgiven
    obtain ⟨_, ⟨d, ⟨hd, hkept⟩, rfl⟩, rfl⟩ := hgiven
    exact ⟨⟨d, hd, rfl⟩, by simpa using hkept⟩
  · intro hgiven
    obtain ⟨⟨d, hd, rfl⟩, hkept⟩ := hgiven
    exact ⟨d.id, ⟨d, ⟨hd, by simpa using hkept⟩, rfl⟩, rfl⟩

theorem not_lists_of_not_cut {key value : Octets} (hmem : (key, value) ∈ pending.snapshot)
    (h : ∀ cut ∈ pending.cuts, ¬ (cut.key = key ∧ cut.found = value)) {id : Octets}
    (hid : id ∈ pending.ids) : ¬ StoredIds.Lists value id := by
  intro hgiven
  obtain ⟨detectors, hdecode, hlisted⟩ := hgiven
  obtain ⟨d, hd, rfl⟩ := List.mem_map.mp hlisted
  exact h _ (mem_cuts.mpr ⟨(key, value), hmem, detectors, hdecode, ⟨d, hd, hid⟩, rfl⟩) ⟨rfl, rfl⟩

end Pending

theorem store_apply (cut : Cut) (report : Report) (cache : Cache) :
    (cut.apply (report, cache)).2.store =
      (cache.store.replaceIf cut.key cut.found cut.value).2 := by
  rw [Cut.apply]
  dsimp only
  split <;> rfl

theorem disabledIds_apply (cut : Cut) (state : Report × Cache) :
    (cut.apply state).1.disabledIds = state.1.disabledIds := by
  rw [Cut.apply]
  split <;> rfl

def applyAll (cuts : List Cut) (state : Report × Cache) : Report × Cache :=
  cuts.foldl (fun state cut => cut.apply state) state

theorem disabledIds_applyAll (cuts : List Cut) (state : Report × Cache) :
    (applyAll cuts state).1.disabledIds = state.1.disabledIds := by
  induction cuts generalizing state with
  | nil => rfl
  | cons cut cuts ih => exact (ih (cut.apply state)).trans (disabledIds_apply cut state)

variable {good : Octets → Octets → Prop}

theorem traffic_applyAll {cuts : List Cut} (h : ∀ cut ∈ cuts, good cut.key cut.value)
    (state : Report × Cache) :
    Traffic (Request.Writes good) state.2.store (applyAll cuts state).2.store := by
  induction cuts generalizing state with
  | nil => exact .refl _
  | cons cut cuts ih =>
    have hfirst : Traffic (Request.Writes good) state.2.store (cut.apply state).2.store := by
      rw [store_apply cut state.1 state.2]
      exact .write (.replaceIf cut.key cut.found cut.value) trivial rfl (h cut List.mem_cons_self)
    exact hfirst.trans (ih (fun c hc => h c (List.mem_cons_of_mem _ hc)) _)

theorem allLive_applyAll (cuts : List Cut) {state : Report × Cache}
    (h : state.2.store.AllLive good) :
    (applyAll cuts state).2.store.AllLive fun k v =>
      (good k v ∧ ∀ cut ∈ cuts, ¬ (cut.key = k ∧ cut.found = v)) ∨
        ∃ cut ∈ cuts, cut.key = k ∧ cut.value = v := by
  induction cuts generalizing state good with
  | nil => exact h.mono fun k v hgood => Or.inl ⟨hgood, by simp⟩
  | cons cut cuts ih =>
    have hfirst := h.replaceIf cut.key cut.found cut.value
    rw [← store_apply cut state.1 state.2] at hfirst
    -- what one cut wrote a later one may find and cut again; it is a cut in either case
    refine (ih hfirst).mono ?_
    intro k v hkv
    rcases hkv with ⟨⟨hgood, hnot⟩ | hwritten, hothers⟩ | ⟨other, hother, heq⟩
    · refine Or.inl ⟨hgood, ?_⟩
      intro c hc
      rcases List.mem_cons.mp hc with rfl | hc
      · exact hnot
      · exact hothers c hc
    · exact Or.inr ⟨cut, List.mem_cons_self, hwritten⟩
    · exact Or.inr ⟨other, List.mem_cons_of_mem _ hother, heq⟩

namespace Pending

variable (pending : Pending) {cache : Cache}

theorem finish_eq (cache : Cache) :
    ∃ (noted : Cache) (reason : Octets) (corrupt : List Entry), noted.store = cache.store ∧
      (pending.finish cache).2 =
        (Pass.evictAll (applyAll pending.cuts (pending.report, noted)).2 reason corrupt).2 := by
  refine ⟨_, _, _, ?_, rfl⟩
  simp

theorem disabledIds_finish (cache : Cache) :
    (pending.finish cache).1.disabledIds = pending.ids := by
  rw [finish]
  exact disabledIds_applyAll pending.cuts _

theorem traffic_finish (h : ∀ cut ∈ pending.cuts, good cut.key cut.value) (cache : Cache) :
    Traffic (Request.Writes good) cache.store (pending.finish cache).2.store := by
  obtain ⟨noted, reason, corrupt, hstore, heq⟩ := pending.finish_eq cache
  have hcuts : Traffic (Request.Writes good) noted.store
      (applyAll pending.cuts (pending.report, noted)).2.store := traffic_applyAll h _
  rw [heq, ← hstore]
  exact hcuts.trans (Pass.traffic_evictAll _ _ _)

/-- The live entries after a prune are cuts, or as they were and not among what was to be cut. -/
theorem allLive_finish (h : cache.store.AllLive good) :
    (pending.finish cache).2.store.AllLive fun k v =>
      (good k v ∧ ∀ cut ∈ pending.cuts, ¬ (cut.key = k ∧ cut.found = v)) ∨
        ∃ cut ∈ pending.cuts, cut.key = k ∧ cut.value = v := by
  obtain ⟨noted, reason, corrupt, hstore, heq⟩ := pending.finish_eq cache
  rw [← hstore] at h
  rw [heq]
  exact (Pass.traffic_evictAll _ _ _).allLive (allLive_applyAll pending.cuts h)

end Pending

end DetectorCache.Prune
