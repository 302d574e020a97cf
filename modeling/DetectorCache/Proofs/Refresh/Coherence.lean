import DetectorCache.Proofs.Delta.Sufficiency
import DetectorCache.Proofs.Lookup.Answers
import DetectorCache.Proofs.Refresh.Stages
/-!
A refresh cycle brings the cache in line with its list. Before the cycle a live entry is an answer
by the record or by the list. The prune takes the ids to be taken out from the former; where an
eviction then finds no created, changed or former expression, what is left of a former answer is an
answer by the list. An entry written since the snapshot is one already.
-/
set_option autoImplicit false

namespace DetectorCache.Refresh

open StoredIds (Denotes Lists)

/-- An entry in the course of a cycle: an answer by the record, but for the ids that have been taken
out, or an answer by the list. -/
def OldOrNew (applied : Applied) (taken : List Octets) (current : List Mapping)
    (key value : Octets) : Prop :=
  ∃ tags, key = CacheKey.encode tags ∧
    (Denotes value (fun id => applied.Active tags id ∧ id ∉ taken) ∨
      Denotes value (Mapping.Active current tags))

abbrev taken (applied : Applied) (current : List Mapping) : List Octets :=
  Prune.idsOf (Delta.between applied current).newlyDisabled

variable {applied : Applied} {current : List Mapping} {key value : Octets}

theorem OldOrNew.of_former {former : List Mapping} (hformer : Mapping.DistinctIds former)
    {tags : Tags} (h : Denotes value (Mapping.Active former tags)) :
    OldOrNew (Applied.ofMappings former) [] current (CacheKey.encode tags) value := by
  refine ⟨tags, rfl, Or.inl (h.congr ?_)⟩
  intro id
  rw [Applied.active_ofMappings hformer]
  simp

abbrev evictedFor (applied : Applied) (current : List Mapping) : List Mapping :=
  (Delta.between applied current).createdOrChanged ++ (Delta.between applied current).retargetedFrom

/-- Where no expression of the delta holds, the ids left by the prune are the active ones. -/
theorem OldOrNew.answers (hkeyed : applied.Keyed) (hdistinct : Mapping.DistinctIds current)
    {tags : Tags}
    (h : OldOrNew applied (taken applied current) current (CacheKey.encode tags) value)
    (hnowhere : ¬ ∃ m ∈ evictedFor applied current, m.expression.holds tags) :
    Mapping.Answers current (CacheKey.encode tags) value := by
  have hcreated : ∀ m ∈ (Delta.between applied current).createdOrChanged,
      ¬ m.expression.holds tags :=
    fun m hm hholds => hnowhere ⟨m, List.mem_append_left _ hm, hholds⟩
  have hformer : ∀ m ∈ (Delta.between applied current).retargetedFrom,
      ¬ m.expression.holds tags :=
    fun m hm hholds => hnowhere ⟨m, List.mem_append_right _ hm, hholds⟩
  obtain ⟨others, hkey, hvalue⟩ := h
  have htags : tags = others := CacheKey.encode_injective hkey
  subst htags
  refine ⟨tags, rfl, ?_⟩
  rcases hvalue with hold | hnew
  · refine hold.congr ?_
    intro id
    exact (Delta.active_iff_of_unaffected hkeyed hdistinct hcreated hformer).symm
  · exact hnew

theorem OldOrNew.answers_of_no_eviction (hkeyed : applied.Keyed)
    (hdistinct : Mapping.DistinctIds current)
    (hnone : (Delta.between applied current).createdOrChanged = [] ∨
      Eviction.requiredTags (evictedFor applied current) = [])
    (h : OldOrNew applied (taken applied current) current key value) :
    Mapping.Answers current key value := by
  have hentry := h
  obtain ⟨tags, rfl, -⟩ := hentry
  refine h.answers hkeyed hdistinct ?_
  intro hholds
  rcases hnone with hcreated | hrequired
  · rw [evictedFor, hcreated, Delta.retargetedFrom_eq_nil hcreated] at hholds
    simp at hholds
  · rw [← Eviction.exists_covers_requiredTags, hrequired] at hholds
    simp at hholds

/-- A cycle at the stop of its eviction, with a snapshot that the prune has been through. -/
structure Evicting.Sound (applied : Applied) (current : List Mapping) (cycle : Evicting) :
    Prop where
  required : cycle.pending.required = Eviction.requiredTags (evictedFor applied current)
  snapshot : ∀ key value, (key, value) ∈ cycle.pending.snapshot →
    OldOrNew applied (taken applied current) current key value

structure Pruning.Sound (applied : Applied) (current : List Mapping) (cycle : Pruning) : Prop where
  list : cycle.current = current
  delta : cycle.delta = Delta.between applied current
  ids : cycle.pending.ids = taken applied current
  snapshot : ∀ key value, (key, value) ∈ cycle.pending.snapshot →
    OldOrNew applied [] current key value

theorem Evicting.Sound.answers {cycle : Evicting} (h : cycle.Sound applied current)
    (hkeyed : applied.Keyed) (hdistinct : Mapping.DistinctIds current)
    (hmem : (key, value) ∈ cycle.pending.snapshot) (hspared : key ∉ cycle.pending.keys) :
    Mapping.Answers current key value := by
  have hshown := h.snapshot key value hmem
  obtain ⟨tags, rfl, -⟩ := hshown
  refine OldOrNew.answers hkeyed hdistinct (h.snapshot _ value hmem) ?_
  intro hholds
  obtain ⟨required, hrequired, hcovers⟩ := Eviction.exists_covers_requiredTags.mpr hholds
  rw [← h.required] at hrequired
  exact hspared (cycle.pending.mem_keys hmem hrequired hcovers)

theorem Evicting.Sound.finish {cycle : Evicting} (h : cycle.Sound applied current)
    (hkeyed : applied.Keyed) (hdistinct : Mapping.DistinctIds current) {s : System}
    (hlive : s.cache.store.AllLive fun key value =>
      (key, value) ∈ cycle.pending.snapshot ∨ Mapping.Answers current key value) :
    (cycle.finish s).2.cache.store.AllLive (Mapping.Answers current) := by
  rw [(cycle.closed_finish s).store]
  refine (cycle.pending.allLive_finish hlive).mono ?_
  intro key value hentry
  obtain ⟨hshown | hanswer, hspared⟩ := hentry
  · exact h.answers hkeyed hdistinct hshown hspared
  · exact hanswer

theorem Pruning.Sound.oldOrNew_of_mem_cuts {cycle : Pruning} (h : cycle.Sound applied current)
    (hkeyed : applied.Keyed) (hdistinct : Mapping.DistinctIds current) {cut : Prune.Cut}
    (hcut : cut ∈ cycle.pending.cuts) :
    OldOrNew applied (taken applied current) current cut.key cut.value := by
  have hvalue := Prune.Pending.denotes_value_of_mem_cuts hcut
  obtain ⟨tags, hkey, hfound⟩ := h.snapshot _ _ (Prune.Pending.mem_snapshot_of_mem_cuts hcut)
  rw [h.ids] at hvalue
  refine ⟨tags, hkey, ?_⟩
  rcases hfound with hold | hnew
  · refine Or.inl (hvalue.congr ?_)
    intro id
    rw [hold.lists_iff]
    simp
  · refine Or.inr (hvalue.congr ?_)
    intro id
    rw [hnew.lists_iff]
    -- what is taken out is not active by the list, so a new answer loses nothing
    refine and_iff_left_of_imp ?_
    intro hactive htaken
    exact Delta.not_active_of_mem_newlyDisabled hkeyed hdistinct htaken tags hactive

theorem Pruning.Sound.oldOrNew_of_not_cut {cycle : Pruning} (h : cycle.Sound applied current)
    (hmem : (key, value) ∈ cycle.pending.snapshot)
    (hnot : ∀ cut ∈ cycle.pending.cuts, ¬ (cut.key = key ∧ cut.found = value)) :
    OldOrNew applied (taken applied current) current key value := by
  obtain ⟨tags, hkey, hvalue⟩ := h.snapshot key value hmem
  refine ⟨tags, hkey, ?_⟩
  rcases hvalue with hold | hnew
  · refine Or.inl (hold.congr ?_)
    intro id
    simp only [List.not_mem_nil, not_false_eq_true, and_true]
    refine (and_iff_left_of_imp ?_).symm
    intro hactive htaken
    rw [← h.ids] at htaken
    refine Prune.Pending.not_lists_of_not_cut hmem hnot htaken ?_
    exact hold.lists_iff.mpr ⟨hactive, List.not_mem_nil⟩
  · exact Or.inr hnew

/-- What the prune of a cycle leaves, whatever was answered since its snapshot. -/
theorem Pruning.Sound.prune {cycle : Pruning} (h : cycle.Sound applied current)
    (hkeyed : applied.Keyed) (hdistinct : Mapping.DistinctIds current) {cache : Cache}
    (hlive : cache.store.AllLive fun key value =>
      (key, value) ∈ cycle.pending.snapshot ∨ Mapping.Answers current key value) :
    (cycle.pending.finish cache).2.store.AllLive
      (OldOrNew applied (taken applied current) current) := by
  refine (cycle.pending.allLive_finish hlive).mono ?_
  intro key value hentry
  -- an entry rewritten since the snapshot is a new answer already, so it needs no cut
  rcases hentry with ⟨hshown | hanswer, hnot⟩ | ⟨cut, hcut, rfl, rfl⟩
  · exact h.oldOrNew_of_not_cut hshown hnot
  · obtain ⟨tags, hkey, hvalue⟩ := hanswer
    exact ⟨tags, hkey, Or.inr hvalue⟩
  · exact h.oldOrNew_of_mem_cuts hkeyed hdistinct hcut

theorem startEviction_sound (hkeyed : applied.Keyed) (hdistinct : Mapping.DistinctIds current)
    (prune : Prune.Report) {s : System} (hplaced : s.cache.store.Placed)
    (hlive : s.cache.store.AllLive (OldOrNew applied (taken applied current) current)) :
    let started := startEviction current (Delta.between applied current) prune s
    (∃ report, started.1 = .ended report ∧
      started.2.cache.store.AllLive (Mapping.Answers current)) ∨
    (∃ cycle : Evicting, started.1 = .scanned cycle ∧ cycle.Sound applied current ∧
      started.2.cache.store.AllLive fun key value => (key, value) ∈ cycle.pending.snapshot) := by
  rcases startEviction_cases current (Delta.between applied current) prune s with
    ⟨eviction, cache, hstore, hnone, heq⟩ | ⟨pending, cache, hstore, hrequired, hsnapshot, heq⟩
  · refine Or.inl ⟨_, congrArg Prod.fst heq, ?_⟩
    rw [heq]
    dsimp only
    rw [(closed_close _ _ _ _ _).store]
    have hcache : (s.withCache cache).cache.store = s.cache.store := hstore
    rw [hcache]
    exact hlive.mono fun _ _ h => h.answers_of_no_eviction hkeyed hdistinct hnone
  · refine Or.inr ⟨_, congrArg Prod.fst heq, ⟨hrequired, ?_⟩, ?_⟩
    · intro key value hmem
      rw [hsnapshot] at hmem
      exact hlive.of_mem_snapshot hplaced hmem
    · have hcache : (s.withCache cache).cache.store = s.cache.store.tick := hstore
      rw [heq]
      dsimp only
      rw [hcache, hsnapshot]
      exact hplaced.allLive_snapshot

theorem Pruning.Sound.finish {cycle : Pruning} (h : cycle.Sound applied current)
    (hkeyed : applied.Keyed) (hdistinct : Mapping.DistinctIds current) {s : System}
    (hplaced : s.cache.store.Placed)
    (hlive : s.cache.store.AllLive fun key value =>
      (key, value) ∈ cycle.pending.snapshot ∨ Mapping.Answers current key value) :
    (cycle.finish s).2.cache.store.AllLive (Mapping.Answers current) := by
  have hpruned := h.prune hkeyed hdistinct hlive
  have htraffic : Store.Traffic (Store.Request.Writes fun _ _ => True) s.cache.store
      (cycle.pending.finish s.cache).2.store :=
    cycle.pending.traffic_finish (fun _ _ => trivial) s.cache
  rw [Pruning.finish, h.list, h.delta]
  simp only [System.onCache]
  rcases startEviction_sound hkeyed hdistinct (cycle.pending.finish s.cache).1
      (s := s.withCache (cycle.pending.finish s.cache).2) (htraffic.placed hplaced) hpruned with
    ⟨report, hended, hanswers⟩ | ⟨eviction, hscanned, hsound, hshown⟩
  · rw [Pass.complete, hended]
    exact hanswers
  · rw [Pass.complete, hscanned]
    exact hsound.finish hkeyed hdistinct (hshown.mono fun _ _ hmem => Or.inl hmem)

def Pending.Sound (applied : Applied) (current : List Mapping) : Pending → Prop
  | .pruning cycle => cycle.Sound applied current
  | .evicting cycle => cycle.Sound applied current

/-- A cycle that stopped soundly ends with answers only, whatever was answered meanwhile. -/
theorem Pending.Sound.finish {pending : Pending} (h : pending.Sound applied current)
    (hkeyed : applied.Keyed) (hdistinct : Mapping.DistinctIds current) {s : System}
    (hplaced : s.cache.store.Placed)
    (hlive : s.cache.store.AllLive fun key value =>
      (key, value) ∈ pending.snapshot ∨ Mapping.Answers current key value) :
    (pending.finish s).2.cache.store.AllLive (Mapping.Answers current) := by
  cases pending with
  | pruning cycle =>
    have hsound : cycle.Sound applied current := h
    exact hsound.finish hkeyed hdistinct hplaced hlive
  | evicting cycle =>
    have hsound : cycle.Sound applied current := h
    exact hsound.finish hkeyed hdistinct hlive

/-- A cycle over old and new answers either ends with new ones only or stops soundly. -/
theorem start_sound {s : System} (hidle : s.refreshing = false) (hkeyed : s.applied.Keyed)
    (hdistinct : Mapping.DistinctIds current) (hplaced : s.cache.store.Placed)
    (hlive : s.cache.store.AllLive (OldOrNew s.applied [] current)) :
    (∃ report, (start current s).1 = .ended report ∧
      (start current s).2.cache.store.AllLive (Mapping.Answers current)) ∨
    (∃ pending : Pending, (start current s).1 = .scanned pending ∧
      pending.Sound s.applied current ∧
      (start current s).2.cache.store.AllLive fun key value =>
        (key, value) ∈ pending.snapshot) := by
  rcases start_cases current hidle with
    ⟨prune, cache, hstore, -, hnone, heq⟩ | ⟨pending, cache, hstore, hids, hsnapshot, heq⟩
  · have hcache : ({ s with refreshing := true }.withCache cache).cache.store =
        s.cache.store := hstore
    rw [← hcache] at hplaced hlive
    rw [← hnone] at hlive
    rw [heq, Pass.suspend]
    rcases startEviction_sound hkeyed hdistinct prune hplaced hlive with
      ⟨report, hended, hanswers⟩ | ⟨cycle, hscanned, hsound, hshown⟩
    · rw [hended]
      exact Or.inl ⟨report, rfl, hanswers⟩
    · rw [hscanned]
      exact Or.inr ⟨.evicting cycle, rfl, hsound, hshown⟩
  · have hcache : ({ s with refreshing := true }.withCache cache).cache.store =
        s.cache.store.tick := hstore
    refine Or.inr ⟨_, congrArg Prod.fst heq, ⟨rfl, rfl, hids, ?_⟩, ?_⟩
    · intro key value hmem
      rw [hsnapshot] at hmem
      exact hlive.of_mem_snapshot hplaced hmem
    · rw [heq]
      dsimp only [Pending.snapshot]
      rw [hcache, hsnapshot]
      exact hplaced.allLive_snapshot

theorem answers_run {s : System} (hidle : s.refreshing = false) (hkeyed : s.applied.Keyed)
    (hdistinct : Mapping.DistinctIds current) (hplaced : s.cache.store.Placed)
    (hlive : s.cache.store.AllLive (OldOrNew s.applied [] current)) :
    (run current s).2.cache.store.AllLive (Mapping.Answers current) := by
  rcases start_sound hidle hkeyed hdistinct hplaced hlive with
    ⟨report, hended, hanswers⟩ | ⟨pending, hscanned, hsound, hshown⟩
  · rw [run, Pass.complete, hended]
    exact hanswers
  · have hplaced' := (traffic_start (fun _ _ => True) current s).placed hplaced
    rw [run, Pass.complete, hscanned]
    exact hsound.finish hkeyed hdistinct hplaced' (hshown.mono fun _ _ hmem => Or.inl hmem)

end DetectorCache.Refresh
