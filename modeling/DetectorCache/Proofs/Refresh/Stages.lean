import DetectorCache.Proofs.Pass.Eviction
import DetectorCache.Proofs.Pass.Prune
import DetectorCache.Refresh

set_option autoImplicit false

namespace DetectorCache.Refresh

open Store (Traffic Request)

variable {good : Octets → Octets → Prop}

/-- What closing a cycle leaves behind: the store and the service as they were, the list recorded
and no cycle running. -/
structure Closed (current : List Mapping) (before : System) (result : Report × System) : Prop where
  ran : result.1.skipped = false
  store : result.2.cache.store = before.cache.store
  service : result.2.front.service = before.front.service
  applied : result.2.applied = Applied.ofMappings current
  idle : result.2.refreshing = false

theorem closed_close (current : List Mapping) (delta : Delta) (prune : Prune.Report)
    (eviction : Eviction.Report) (s : System) :
    Closed current s (close current delta prune eviction s) := by
  refine ⟨rfl, ?_, rfl, rfl, rfl⟩
  simp [close, System.note, System.prime, System.withCache, System.cache]

theorem startEviction_cases (current : List Mapping) (delta : Delta) (prune : Prune.Report)
    (s : System) :
    (∃ eviction cache, cache.store = s.cache.store ∧
      (delta.createdOrChanged = [] ∨
        Eviction.requiredTags (delta.createdOrChanged ++ delta.retargetedFrom) = []) ∧
      startEviction current delta prune s =
        (.ended (close current delta prune eviction (s.withCache cache)).1,
          (close current delta prune eviction (s.withCache cache)).2)) ∨
    (∃ pending cache, cache.store = s.cache.store.tick ∧
      pending.required =
        Eviction.requiredTags (delta.createdOrChanged ++ delta.retargetedFrom) ∧
      pending.snapshot = s.cache.store.tick.liveEntries ∧
      startEviction current delta prune s =
        (.scanned ⟨current, delta, prune, pending⟩, s.withCache cache)) := by
  by_cases hcreated : delta.createdOrChanged = []
  · refine Or.inl ⟨{}, s.cache, rfl, Or.inl hcreated, ?_⟩
    rw [startEviction, if_pos hcreated]
    rfl
  · by_cases hrequired :
      Eviction.requiredTags (delta.createdOrChanged ++ delta.retargetedFrom) = []
    · obtain ⟨report, hended, hstore⟩ :=
        Eviction.start_of_requiredTags_eq_nil hrequired s.cache
      refine Or.inl ⟨report, _, hstore, Or.inr hrequired, ?_⟩
      simp only [startEviction, if_neg hcreated, System.onCache, hended]
    · obtain ⟨pending, hscanned, hreq, hsnapshot, hstore⟩ :=
        Eviction.start_of_requiredTags_ne_nil hrequired s.cache
      refine Or.inr ⟨pending, _, hstore, hreq, hsnapshot, ?_⟩
      simp only [startEviction, if_neg hcreated, System.onCache, hscanned]

/-- The two ways in which a cycle can start, if none is running. -/
theorem start_cases (current : List Mapping) {s : System} (hidle : s.refreshing = false) :
    (∃ prune cache, cache.store = s.cache.store ∧ prune.disabledIds = [] ∧
      Prune.idsOf (Delta.between s.applied current).newlyDisabled = [] ∧
      start current s = Pass.suspend .evicting
        (startEviction current (Delta.between s.applied current) prune
          ({ s with refreshing := true }.withCache cache))) ∨
    (∃ pending cache, cache.store = s.cache.store.tick ∧
      pending.ids = Prune.idsOf (Delta.between s.applied current).newlyDisabled ∧
      pending.snapshot = s.cache.store.tick.liveEntries ∧
      start current s =
        (.scanned (.pruning ⟨current, Delta.between s.applied current, pending⟩),
          { s with refreshing := true }.withCache cache)) := by
  by_cases hids : Prune.idsOf (Delta.between s.applied current).newlyDisabled = []
  · by_cases hdisabled : (Delta.between s.applied current).newlyDisabled = []
    · refine Or.inl ⟨{}, s.cache, rfl, rfl, hids, ?_⟩
      simp only [start, hidle, hdisabled, if_true, Bool.false_eq_true, if_false]
      rfl
    · obtain ⟨report, hended, hnone, hstore⟩ := Prune.start_of_idsOf_eq_nil hids s.cache
      refine Or.inl ⟨report, _, hstore, hnone, hids, ?_⟩
      have hcache : ({ s with refreshing := true } : System).cache = s.cache := rfl
      simp only [start, hidle, hdisabled, Bool.false_eq_true, if_false, System.onCache, hcache,
        hended]
  · have hdisabled : (Delta.between s.applied current).newlyDisabled ≠ [] := by
      intro hnil
      rw [hnil] at hids
      exact hids rfl
    obtain ⟨pending, hscanned, hpending, hsnapshot, hstore⟩ :=
      Prune.start_of_idsOf_ne_nil hids s.cache
    refine Or.inr ⟨pending, _, hstore, hpending, hsnapshot, ?_⟩
    have hcache : ({ s with refreshing := true } : System).cache = s.cache := rfl
    simp only [start, hidle, hdisabled, Bool.false_eq_true, if_false, System.onCache, hcache,
      hscanned]

theorem start_of_refreshing (current : List Mapping) {s : System} (h : s.refreshing = true) :
    ∃ journal, start current s =
      (.ended { skipped := true, received := current.length },
        s.withCache { s.cache with journal }) := by
  rw [start, if_pos h]
  exact ⟨_, rfl⟩

theorem Evicting.closed_finish (cycle : Evicting) (s : System) :
    Closed cycle.current (s.withCache (cycle.pending.finish s.cache).2) (cycle.finish s) :=
  closed_close _ _ _ _ _

theorem closed_complete_startEviction (good : Octets → Octets → Prop) (current : List Mapping)
    (delta : Delta) (prune : Prune.Report) (s : System) :
    ∃ cache, Traffic (Request.Writes good) s.cache.store cache.store ∧
      Closed current (s.withCache cache)
        (Pass.complete Evicting.finish (startEviction current delta prune s)) := by
  rcases startEviction_cases current delta prune s with
    ⟨eviction, cache, hstore, -, heq⟩ | ⟨pending, cache, hstore, -, -, heq⟩
  · refine ⟨cache, .of_eq hstore, ?_⟩
    rw [heq]
    exact closed_close _ _ _ _ _
  · have hsnapshot : Traffic (Request.Writes good) s.cache.store cache.store := .of_tick hstore
    refine ⟨_, hsnapshot.trans (pending.traffic_finish cache), ?_⟩
    rw [heq]
    exact Evicting.closed_finish ⟨current, delta, prune, pending⟩ (s.withCache cache)

theorem Pruning.closed_finish_of_pruned (good : Octets → Octets → Prop) (cycle : Pruning)
    (s : System) :
    ∃ cache, Traffic (Request.Writes good) (cycle.pending.finish s.cache).2.store cache.store ∧
      Closed cycle.current (s.withCache cache) (cycle.finish s) := by
  obtain ⟨cache, htraffic, hclosed⟩ :=
    closed_complete_startEviction good cycle.current cycle.delta
      (cycle.pending.finish s.cache).1 (s.withCache (cycle.pending.finish s.cache).2)
  exact ⟨cache, htraffic, hclosed⟩

/-- All that a cycle writes is its cuts. -/
theorem Pruning.closed_finish (cycle : Pruning)
    (hcuts : ∀ cut ∈ cycle.pending.cuts, good cut.key cut.value) (s : System) :
    ∃ cache, Traffic (Request.Writes good) s.cache.store cache.store ∧
      Closed cycle.current (s.withCache cache) (cycle.finish s) := by
  obtain ⟨cache, htraffic, hclosed⟩ := cycle.closed_finish_of_pruned good s
  exact ⟨cache, (cycle.pending.traffic_finish hcuts s.cache).trans htraffic, hclosed⟩

namespace Pending

def current : Pending → List Mapping
  | .pruning cycle => cycle.current
  | .evicting cycle => cycle.current

def snapshot : Pending → List Entry
  | .pruning cycle => cycle.pending.snapshot
  | .evicting cycle => cycle.pending.snapshot

def cuts : Pending → List Prune.Cut
  | .pruning cycle => cycle.pending.cuts
  | .evicting _ => []

theorem closed_finish (pending : Pending)
    (hcuts : ∀ cut ∈ pending.cuts, good cut.key cut.value) (s : System) :
    ∃ cache, Traffic (Request.Writes good) s.cache.store cache.store ∧
      Closed pending.current (s.withCache cache) (pending.finish s) := by
  cases pending with
  | pruning cycle => exact cycle.closed_finish hcuts s
  | evicting cycle =>
    exact ⟨_, cycle.pending.traffic_finish s.cache, cycle.closed_finish s⟩

theorem closed_finish_any (pending : Pending) (s : System) :
    ∃ cache, Traffic (Request.Writes fun _ _ => True) s.cache.store cache.store ∧
      Closed pending.current (s.withCache cache) (pending.finish s) :=
  pending.closed_finish (fun _ _ => trivial) s

end Pending

/-- How a cycle starts if none is running: it is closed at once, or it stops with the live entries
copied. -/
theorem start_idle (current : List Mapping) {s : System} (hidle : s.refreshing = false) :
    (∃ report cache, cache.store = s.cache.store ∧ (start current s).1 = .ended report ∧
      Closed current (s.withCache cache) (report, (start current s).2)) ∨
    (∃ pending cache, cache.store = s.cache.store.tick ∧ pending.current = current ∧
      pending.snapshot = s.cache.store.tick.liveEntries ∧
      start current s = (.scanned pending, { s with refreshing := true }.withCache cache)) := by
  rcases start_cases current hidle with
    ⟨prune, cache, hstore, -, -, heq⟩ | ⟨pending, cache, hstore, -, hsnapshot, heq⟩
  · -- with nothing to take out the cycle goes straight on to its eviction
    rcases startEviction_cases current (Delta.between s.applied current) prune
      ({ s with refreshing := true }.withCache cache) with
      ⟨eviction, cache', hstore', -, heq'⟩ | ⟨pending, cache', hstore', -, hsnapshot, heq'⟩
    · rw [heq'] at heq
      refine Or.inl ⟨_, cache', hstore'.trans hstore, congrArg Prod.fst heq, ?_⟩
      rw [heq]
      obtain ⟨hran, hkept, hservice, happlied, hended⟩ :=
        closed_close current (Delta.between s.applied current) prune eviction
          (({ s with refreshing := true }.withCache cache).withCache cache')
      exact ⟨hran, hkept, hservice, happlied, hended⟩
    · have hcopied : ({ s with refreshing := true }.withCache cache).cache.store =
          s.cache.store := hstore
      rw [hcopied] at hstore' hsnapshot
      rw [heq'] at heq
      exact Or.inr ⟨.evicting ⟨current, _, prune, pending⟩, cache', hstore', rfl, hsnapshot, heq⟩
  · exact Or.inr ⟨.pruning ⟨current, _, pending⟩, cache, hstore, rfl, hsnapshot, heq⟩

theorem traffic_start (good : Octets → Octets → Prop) (current : List Mapping) (s : System) :
    Traffic (Request.Writes good) s.cache.store (start current s).2.cache.store := by
  cases hrefreshing : s.refreshing with
  | true =>
    obtain ⟨journal, heq⟩ := start_of_refreshing current hrefreshing
    rw [heq]
    exact .refl _
  | false =>
    rcases start_idle current hrefreshing with
      ⟨report, cache, hstore, -, hclosed⟩ | ⟨pending, cache, hstore, -, -, heq⟩
    · have hkept : (start current s).2.cache.store = s.cache.store := hclosed.store.trans hstore
      exact .of_eq hkept
    · have hcopied : (start current s).2.cache.store = s.cache.store.tick := by
        rw [heq]
        exact hstore
      exact .of_tick hcopied

/-- A cycle with nothing in between is closed, and has written its cuts only. -/
theorem closed_run (good : Octets → Octets → Prop) {current : List Mapping} {s : System}
    (hidle : s.refreshing = false)
    (hcuts : ∀ pending : Pending, (start current s).1 = .scanned pending →
      ∀ cut ∈ pending.cuts, good cut.key cut.value) :
    ∃ cache, Traffic (Request.Writes good) s.cache.store cache.store ∧
      Closed current (s.withCache cache) (run current s) := by
  have hstart := traffic_start good current s
  rcases start_idle current hidle with
    ⟨report, cache, hstore, hended, hclosed⟩ | ⟨pending, cache, hstore, hcurrent, -, heq⟩
  · refine ⟨cache, .of_eq hstore, ?_⟩
    rw [run, Pass.complete, hended]
    exact hclosed
  · obtain ⟨cache', htraffic, hclosed⟩ :=
      pending.closed_finish (hcuts pending (congrArg Prod.fst heq)) (start current s).2
    rw [heq] at hclosed
    refine ⟨cache', hstart.trans htraffic, ?_⟩
    rw [run, Pass.complete, heq, ← hcurrent]
    exact ⟨hclosed.ran, hclosed.store, hclosed.service, hclosed.applied, hclosed.idle⟩

theorem closed_run_any (current : List Mapping) {s : System} (hidle : s.refreshing = false) :
    ∃ cache, Closed current (s.withCache cache) (run current s) := by
  obtain ⟨cache, -, hclosed⟩ := closed_run (fun _ _ => True) hidle fun _ _ _ _ => trivial
  exact ⟨cache, hclosed⟩

/-- What a report says of the difference that the cycle has found. -/
structure Reflects (delta : Delta) (report : Report) : Prop where
  newlyDisabled : report.newlyDisabled = delta.newlyDisabled.length
  createdOrChanged : report.createdOrChanged = delta.createdOrChanged.length
  disabledIds : report.prune.disabledIds = Prune.idsOf delta.newlyDisabled

theorem reflects_complete_startEviction (current : List Mapping) {delta : Delta}
    {prune : Prune.Report} (h : prune.disabledIds = Prune.idsOf delta.newlyDisabled) (s : System) :
    Reflects delta (Pass.complete Evicting.finish (startEviction current delta prune s)).1 := by
  rcases startEviction_cases current delta prune s with
    ⟨eviction, cache, -, -, heq⟩ | ⟨pending, cache, -, -, -, heq⟩
  · rw [heq]
    exact ⟨rfl, rfl, h⟩
  · rw [heq]
    exact ⟨rfl, rfl, h⟩

theorem complete_suspend_evicting (started : Pass Report Evicting × System) :
    Pass.complete Pending.finish (Pass.suspend .evicting started) =
      Pass.complete Evicting.finish started := by
  rw [Pass.suspend, Pass.complete, Pass.complete]
  cases started.1 <;> rfl

theorem reflects_run (current : List Mapping) {s : System} (hidle : s.refreshing = false) :
    Reflects (Delta.between s.applied current) (run current s).1 := by
  rw [run]
  rcases start_cases current hidle with
    ⟨prune, cache, -, hnone, hids, heq⟩ | ⟨pending, cache, -, hids, -, heq⟩
  · rw [heq, complete_suspend_evicting]
    exact reflects_complete_startEviction current (hnone.trans hids.symm) _
  · rw [heq]
    exact reflects_complete_startEviction current ((pending.disabledIds_finish _).trans hids) _

end DetectorCache.Refresh
