import DetectorCache.Pass.Prune
import DetectorCache.Proofs.Mapping.Active
/-!
The difference between the recorded mappings and a new list says all that an entry of the cache has
to know. Where no created, changed or former expression holds, the ids that were active and are not
newly disabled are the ones that are active now.
-/
set_option autoImplicit false

namespace DetectorCache

theorem Mapping.DistinctIds.eq {mappings : List Mapping} (h : DistinctIds mappings) {m n : Mapping}
    (hm : m ∈ mappings) (hn : n ∈ mappings) {id : Octets} (hmid : m.canonicalId? = some id)
    (hnid : n.canonicalId? = some id) : m = n := by
  induction mappings with
  | nil => cases hm
  | cons first others ih =>
    have hnot : first.canonicalId? = some id → ∀ other ∈ others, other.canonicalId? ≠ some id := by
      intro hfirst other hother heq
      rw [DistinctIds, List.filterMap_cons, hfirst] at h
      exact (List.nodup_cons.mp h).1 (List.mem_filterMap.mpr ⟨other, hother, heq⟩)
    have hrest : DistinctIds others := h.sublist ((List.sublist_cons_self _ _).filterMap _)
    rcases List.mem_cons.mp hm with rfl | hm'
    · rcases List.mem_cons.mp hn with rfl | hn'
      · rfl
      · exact absurd hnid (hnot hmid n hn')
    · rcases List.mem_cons.mp hn with rfl | hn'
      · exact absurd hmid (hnot hnid m hm')
      · exact ih hrest hm' hn'

def Mapping.Named (mappings : List Mapping) (id : Octets) : Prop :=
  ∃ m ∈ mappings, m.canonicalId? = some id

instance (mappings : List Mapping) (id : Octets) : Decidable (Mapping.Named mappings id) :=
  inferInstanceAs (Decidable (∃ m ∈ mappings, m.canonicalId? = some id))

theorem Mapping.named_append {first second : List Mapping} {id : Octets} :
    Named (first ++ second) id ↔ Named first id ∨ Named second id := by
  simp only [Named, List.mem_append, or_and_right, exists_or]

namespace Applied

/-- The ids of the active detectors of a tag-set by the record. -/
def Active (applied : Applied) (tags : Tags) (id : Octets) : Prop :=
  ∃ m, applied.find? id = some m ∧ m.detector.enabled ∧ m.expression.holds tags

/-- The record holds the detector as a disabled one. -/
def HeldDisabled (applied : Applied) (id : Octets) : Prop :=
  ∃ m, applied.find? id = some m ∧ m.detector.enabled = false

/-- Every mapping is recorded under its own id. -/
def Keyed (applied : Applied) : Prop :=
  ∀ id m, applied.find? id = some m → m.canonicalId? = some id

theorem ofMappings_eq_ofList (mappings : List Mapping) :
    ofMappings mappings =
      SortedMap.ofList (mappings.filterMap fun m => m.canonicalId?.map (·, m)) := by
  rw [ofMappings, SortedMap.ofList]
  generalize (∅ : SortedMap Mapping) = applied
  induction mappings generalizing applied with
  | nil => rfl
  | cons m mappings ih =>
    rw [List.foldl_cons, ih, List.filterMap_cons]
    cases m.canonicalId? <;> rfl

theorem mem_keyed {mappings : List Mapping} {id : Octets} {m : Mapping} :
    (id, m) ∈ mappings.filterMap (fun m => m.canonicalId?.map (·, m)) ↔
      m ∈ mappings ∧ m.canonicalId? = some id := by
  simp only [List.mem_filterMap, Option.map_eq_some_iff, Prod.mk.injEq]
  constructor
  · intro hgiven
    obtain ⟨m', hm', id', hid', rfl, rfl⟩ := hgiven
    exact ⟨hm', hid'⟩
  · intro hgiven
    obtain ⟨hm, hid⟩ := hgiven
    exact ⟨m, hm, id, hid, rfl, rfl⟩

theorem of_find?_ofMappings {mappings : List Mapping} {id : Octets} {m : Mapping}
    (h : (ofMappings mappings).find? id = some m) : m ∈ mappings ∧ m.canonicalId? = some id := by
  rw [ofMappings_eq_ofList, SortedMap.find?_eq_some_iff] at h
  rcases SortedMap.mem_of_mem_foldl_insert h with hmem | hempty
  · exact mem_keyed.mp hmem
  · cases hempty

theorem keyed_ofMappings (mappings : List Mapping) : (ofMappings mappings).Keyed :=
  fun _ _ h => (of_find?_ofMappings h).2

theorem find?_ofMappings {mappings : List Mapping} (h : Mapping.DistinctIds mappings)
    {id : Octets} {m : Mapping} :
    (ofMappings mappings).find? id = some m ↔ m ∈ mappings ∧ m.canonicalId? = some id := by
  rw [ofMappings_eq_ofList, SortedMap.find?_eq_some_iff, SortedMap.mem_entries_ofList, mem_keyed]
  intro v v' hv hv'
  obtain ⟨hm, hid⟩ := mem_keyed.mp hv
  obtain ⟨hm', hid'⟩ := mem_keyed.mp hv'
  exact h.eq hm hm' hid hid'

theorem active_ofMappings {mappings : List Mapping} (h : Mapping.DistinctIds mappings)
    {tags : Tags} {id : Octets} :
    (ofMappings mappings).Active tags id ↔ Mapping.Active mappings tags id := by
  simp only [Active, find?_ofMappings h, Mapping.Active]
  constructor
  · intro hgiven
    obtain ⟨m, ⟨hm, hid⟩, henabled, hholds⟩ := hgiven
    exact ⟨m, hm, henabled, hid, hholds⟩
  · intro hgiven
    obtain ⟨m, hm, henabled, hid, hholds⟩ := hgiven
    exact ⟨m, ⟨hm, hid⟩, henabled, hholds⟩

end Applied

namespace Change

variable {applied : Applied} {m before : Mapping} {id : Octets}

theorem recorded_of_not_evicts (hid : m.canonicalId? = some id) (henabled : m.detector.enabled)
    (h : ¬ Delta.evicts (of applied m)) :
    ∃ before, applied.find? id = some before ∧ before.detector.enabled ∧
      before.expression = m.expression := by
  cases hfind : applied.find? id with
  | none => simp [of, hid, hfind, henabled, Delta.evicts] at h
  | some before =>
    refine ⟨before, rfl, ?_⟩
    by_cases hbefore : before.detector.enabled
    · refine ⟨hbefore, ?_⟩
      by_cases hexpr : before.expression = m.expression
      · exact hexpr
      · simp [of, hid, hfind, henabled, hbefore, hexpr, Delta.evicts] at h
    · simp [of, hid, hfind, henabled, hbefore, Delta.evicts] at h

theorem enabled_of_evicts (h : Delta.evicts (of applied m)) : m.detector.enabled = true := by
  refine Classical.byContradiction fun hdisabled => ?_
  rw [Bool.not_eq_true] at hdisabled
  simp only [of, hdisabled] at h
  cases hid : m.canonicalId? with
  | none => simp [hid, Delta.evicts] at h
  | some id =>
    cases hfind : applied.find? id with
    | none => simp [hid, hfind, Delta.evicts] at h
    | some before =>
      cases hbefore : before.detector.enabled <;> simp [hid, hfind, hbefore, Delta.evicts] at h

theorem of_eq_retargeted (hid : m.canonicalId? = some id) (henabled : m.detector.enabled)
    (hfind : applied.find? id = some before) (hbefore : before.detector.enabled)
    (hexpr : before.expression ≠ m.expression) : of applied m = .retargeted before := by
  simp [of, hid, henabled, hfind, hbefore, hexpr]

theorem of_eq_disabled (hid : m.canonicalId? = some id) (hdisabled : m.detector.enabled = false)
    (h : ¬ applied.HeldDisabled id) : of applied m = .disabled := by
  cases hfind : applied.find? id with
  | none => simp [of, hid, hfind, hdisabled]
  | some before =>
    have hbefore : before.detector.enabled = true := by
      by_cases hb : before.detector.enabled
      · exact hb
      · exact absurd ⟨before, hfind, by simpa using hb⟩ h
    simp [of, hid, hfind, hdisabled, hbefore]

theorem of_of_eq_disabled (h : of applied m = .disabled) :
    ∃ id, m.canonicalId? = some id ∧ m.detector.enabled = false ∧ ¬ applied.HeldDisabled id := by
  cases hid : m.canonicalId? with
  | none => simp [of, hid] at h
  | some id =>
    have hdisabled : m.detector.enabled = false := by
      by_cases henabled : m.detector.enabled
      · cases hfind : applied.find? id with
        | none => simp [of, hid, hfind, henabled] at h
        | some before =>
          simp only [of, hid, hfind, henabled, if_true] at h
          split at h
          · split at h <;> cases h
          · cases h
      · simpa using henabled
    refine ⟨id, rfl, hdisabled, ?_⟩
    intro hheld
    obtain ⟨before, hfind, hbefore⟩ := hheld
    simp [of, hid, hfind, hdisabled, hbefore] at h

end Change

namespace Delta

variable {applied : Applied} {current : List Mapping}

theorem mem_idsOf {disabled : List Mapping} {id : Octets} :
    id ∈ Prune.idsOf disabled ↔ Mapping.Named disabled id := by
  rw [Prune.idsOf, List.mem_eraseDups, Detector.mem_ids_valid]
  simp only [List.mem_map, Mapping.Named, Mapping.canonicalId?]
  constructor
  · intro hgiven
    obtain ⟨d, ⟨m, hm, rfl⟩, hid⟩ := hgiven
    exact ⟨m, hm, hid⟩
  · intro hgiven
    obtain ⟨m, hm, hid⟩ := hgiven
    exact ⟨m.detector, ⟨m, hm, rfl⟩, hid⟩

theorem named_disabled_iff {id : Octets} :
    Mapping.Named (current.filter (Change.of applied · = .disabled)) id ↔
      ∃ m ∈ current, m.canonicalId? = some id ∧ m.detector.enabled = false ∧
        ¬ applied.HeldDisabled id := by
  simp only [Mapping.Named, List.mem_filter, decide_eq_true_eq]
  constructor
  · intro hgiven
    obtain ⟨m, ⟨hm, hchange⟩, hid⟩ := hgiven
    obtain ⟨id', hid', hdisabled, hheld⟩ := Change.of_of_eq_disabled hchange
    have heq : id' = id := Option.some.inj (hid'.symm.trans hid)
    exact ⟨m, hm, hid, hdisabled, heq ▸ hheld⟩
  · intro hgiven
    obtain ⟨m, hm, hid, hdisabled, hheld⟩ := hgiven
    exact ⟨m, ⟨hm, Change.of_eq_disabled hid hdisabled hheld⟩, hid⟩

theorem named_missing_iff (hkeyed : applied.Keyed) {id : Octets} :
    Mapping.Named (missing applied current) id ↔
      (∃ before, applied.find? id = some before ∧ before.detector.enabled) ∧
        ∀ m ∈ current, m.canonicalId? ≠ some id := by
  simp only [Mapping.Named, missing, List.mem_map, List.mem_filter, Bool.and_eq_true,
    Bool.not_eq_true', List.contains_eq_mem, decide_eq_false_iff_not, List.mem_filterMap]
  constructor
  · intro hgiven
    obtain ⟨_, ⟨⟨k, before⟩, ⟨hmem, henabled, hunnamed⟩, rfl⟩, hid⟩ := hgiven
    have hfind := (SortedMap.find?_eq_some_iff _ _ _).mpr hmem
    have hk : k = id := Option.some.inj ((hkeyed k before hfind).symm.trans hid)
    subst hk
    exact ⟨⟨before, hfind, henabled⟩, fun m hm hmid => hunnamed ⟨m, hm, hmid⟩⟩
  · intro hgiven
    obtain ⟨⟨before, hfind, henabled⟩, hunnamed⟩ := hgiven
    have hmem := (SortedMap.find?_eq_some_iff _ _ _).mp hfind
    refine ⟨before.disable, ⟨(id, before), ⟨hmem, henabled, ?_⟩, rfl⟩, hkeyed id before hfind⟩
    intro hgiven
    obtain ⟨m, hm, hmid⟩ := hgiven
    exact hunnamed m hm hmid

/-- The ids to be taken out: those disabled in the list and not known as such, and those that were
enabled and are no longer named. -/
theorem mem_idsOf_newlyDisabled (hkeyed : applied.Keyed) {id : Octets} :
    id ∈ Prune.idsOf (between applied current).newlyDisabled ↔
      (∃ m ∈ current, m.canonicalId? = some id ∧ m.detector.enabled = false ∧
        ¬ applied.HeldDisabled id) ∨
      ((∃ before, applied.find? id = some before ∧ before.detector.enabled) ∧
        ∀ m ∈ current, m.canonicalId? ≠ some id) := by
  rw [mem_idsOf, between, Mapping.named_append, named_disabled_iff, named_missing_iff hkeyed]

theorem disabled_of_mem_newlyDisabled (hkeyed : applied.Keyed)
    (hdistinct : Mapping.DistinctIds current) {id : Octets}
    (h : id ∈ Prune.idsOf (between applied current).newlyDisabled) {m : Mapping}
    (hm : m ∈ current) (hid : m.canonicalId? = some id) : m.detector.enabled = false := by
  rcases (mem_idsOf_newlyDisabled hkeyed).mp h with ⟨n, hn, hnid, hdisabled, -⟩ | ⟨-, hunnamed⟩
  · rw [hdistinct.eq hm hn hid hnid]
    exact hdisabled
  · exact absurd hid (hunnamed m hm)

theorem not_active_of_mem_newlyDisabled (hkeyed : applied.Keyed)
    (hdistinct : Mapping.DistinctIds current) {id : Octets}
    (h : id ∈ Prune.idsOf (between applied current).newlyDisabled) (tags : Tags) :
    ¬ Mapping.Active current tags id := by
  intro hgiven
  obtain ⟨m, hm, henabled, hid, -⟩ := hgiven
  rw [disabled_of_mem_newlyDisabled hkeyed hdistinct h hm hid] at henabled
  cases henabled

theorem enabled_of_mem_createdOrChanged {m : Mapping}
    (h : m ∈ (between applied current).createdOrChanged) :
    m ∈ current ∧ m.detector.enabled = true := by
  obtain ⟨hm, hevicts⟩ := List.mem_filter.mp h
  exact ⟨hm, Change.enabled_of_evicts hevicts⟩

theorem retargetedFrom_eq_nil (h : (between applied current).createdOrChanged = []) :
    (between applied current).retargetedFrom = [] := by
  refine List.filterMap_eq_nil_iff.mpr ?_
  intro m hm
  have hnot := List.filter_eq_nil_iff.mp h m hm
  cases hchange : Change.of applied m with
  | retargeted before => simp [hchange, evicts] at hnot
  | _ => rfl

theorem active_iff_of_unaffected (hkeyed : applied.Keyed) (hdistinct : Mapping.DistinctIds current)
    {tags : Tags}
    (hcreated : ∀ m ∈ (between applied current).createdOrChanged, ¬ m.expression.holds tags)
    (hformer : ∀ m ∈ (between applied current).retargetedFrom, ¬ m.expression.holds tags)
    {id : Octets} :
    Mapping.Active current tags id ↔
      applied.Active tags id ∧ id ∉ Prune.idsOf (between applied current).newlyDisabled := by
  have hquiet : ∀ m ∈ current, m.expression.holds tags → ¬ evicts (Change.of applied m) :=
    fun m hm hholds hevicts => hcreated m (List.mem_filter.mpr ⟨hm, hevicts⟩) hholds
  constructor
  · intro hactive
    have hactive' := hactive
    obtain ⟨m, hm, henabled, hid, hholds⟩ := hactive'
    obtain ⟨before, hfind, hbefore, hexpr⟩ :=
      Change.recorded_of_not_evicts hid henabled (hquiet m hm hholds)
    refine ⟨⟨before, hfind, hbefore, hexpr ▸ hholds⟩, ?_⟩
    intro hdisabled
    exact not_active_of_mem_newlyDisabled hkeyed hdistinct hdisabled tags hactive
  · intro hgiven
    obtain ⟨⟨before, hfind, hbefore, hholds⟩, hkept⟩ := hgiven
    rw [mem_idsOf_newlyDisabled hkeyed, not_or] at hkept
    -- the list still names the detector, or it would be among the newly disabled
    have hnamed : Mapping.Named current id := by
      refine Classical.byContradiction fun hnone => ?_
      exact hkept.2 ⟨⟨before, hfind, hbefore⟩, fun m hm hid => hnone ⟨m, hm, hid⟩⟩
    obtain ⟨m, hm, hid⟩ := hnamed
    have henabled : m.detector.enabled = true := by
      refine Classical.byContradiction fun hne => ?_
      refine hkept.1 ⟨m, hm, hid, by simpa using hne, ?_⟩
      intro hgiven
      obtain ⟨held, hheld, hoff⟩ := hgiven
      rw [hfind] at hheld
      cases hheld
      rw [hbefore] at hoff
      cases hoff
    by_cases hexpr : before.expression = m.expression
    · exact ⟨m, hm, henabled, hid, hexpr ▸ hholds⟩
    · have hchange := Change.of_eq_retargeted hid henabled hfind hbefore hexpr
      refine absurd hholds (hformer before (List.mem_filterMap.mpr ⟨m, hm, ?_⟩))
      rw [hchange]
      rfl

/-- Between a record and a list without repeated ids, the difference tells of every tag-set that no
created, changed or former expression is about which ids are active now: those that were, less the
newly disabled. These the list disables or does not name, so none of them is created or changed. -/
theorem between_suffices (hkeyed : applied.Keyed) (hdistinct : Mapping.DistinctIds current) :
    let delta := between applied current
    (∀ tags : Tags,
      (∀ m ∈ delta.createdOrChanged ++ delta.retargetedFrom, ¬ m.expression.holds tags) →
      ∀ id, Mapping.Active current tags id ↔
        applied.Active tags id ∧ ¬ Mapping.Named delta.newlyDisabled id) ∧
    ∀ id, Mapping.Named delta.newlyDisabled id →
      ¬ Mapping.Named delta.createdOrChanged id ∧
        ∀ m ∈ current, m.canonicalId? = some id → m.detector.enabled = false := by
  intro delta
  refine ⟨?_, ?_⟩
  · intro tags hunaffected id
    have hcreated : ∀ m ∈ delta.createdOrChanged, ¬ m.expression.holds tags :=
      fun m hm => hunaffected m (List.mem_append_left _ hm)
    have hformer : ∀ m ∈ delta.retargetedFrom, ¬ m.expression.holds tags :=
      fun m hm => hunaffected m (List.mem_append_right _ hm)
    rw [active_iff_of_unaffected hkeyed hdistinct hcreated hformer, mem_idsOf]
  · intro id hnamed
    have hdisabled : ∀ m ∈ current, m.canonicalId? = some id → m.detector.enabled = false :=
      fun m hm => disabled_of_mem_newlyDisabled hkeyed hdistinct (mem_idsOf.mpr hnamed) hm
    refine ⟨?_, hdisabled⟩
    rintro ⟨m, hm, hid⟩
    obtain ⟨hlisted, henabled⟩ := enabled_of_mem_createdOrChanged hm
    rw [hdisabled m hlisted hid] at henabled
    cases henabled

theorem between_suffices_of_four_detectors :
    let kept := Octets.ascii "00000000-0000-4000-8000-00000000000a"
    let dropped := Octets.ascii "00000000-0000-4000-8000-00000000000b"
    let missing := Octets.ascii "00000000-0000-4000-8000-00000000000c"
    let upper := Octets.ascii "00000000-0000-4000-8000-00000000000A"
    let fresh := Octets.ascii "00000000-0000-4000-8000-00000000000d"
    let wants := fun tag => ([⟨Octets.ascii tag, [49]⟩] : Expression)
    let applied := Applied.ofMappings
      [⟨⟨kept, true⟩, wants "a"⟩, ⟨⟨dropped, true⟩, wants "a"⟩, ⟨⟨missing, true⟩, wants "a"⟩]
    let current : List Mapping :=
      [⟨⟨fresh, true⟩, wants "b"⟩, ⟨⟨dropped, false⟩, wants "a"⟩, ⟨⟨upper, true⟩, wants "a"⟩]
    let tags : Tags := SortedMap.ofList [(Octets.ascii "a", [49])]
    applied.Keyed ∧ Mapping.DistinctIds current ∧
      Mapping.Active current tags kept ∧ ¬ Mapping.Active current tags dropped ∧
      ¬ Mapping.Active current tags missing ∧
      ∀ m ∈ current, m.canonicalId? = some missing → m.detector.enabled = false := by
  intro kept dropped missing upper fresh wants applied current tags
  have hkeyed : applied.Keyed := Applied.keyed_ofMappings _
  have hdistinct : Mapping.DistinctIds current := by
    rw [Mapping.DistinctIds]
    decide +kernel
  obtain ⟨hactive, hdisabled⟩ := between_suffices hkeyed hdistinct
  have hunaffected : ∀ m ∈ (between applied current).createdOrChanged ++
      (between applied current).retargetedFrom, ¬ m.expression.holds tags := by
    decide +kernel
  have hmissing : Mapping.Named (between applied current).newlyDisabled missing := by
    decide +kernel
  refine ⟨hkeyed, hdistinct, ?_, ?_, ?_, (hdisabled missing hmissing).2⟩
  · refine (hactive tags hunaffected kept).mpr ⟨?_, by decide +kernel⟩
    exact ⟨⟨⟨kept, true⟩, wants "a"⟩, by decide +kernel, rfl, by decide +kernel⟩
  · intro hgiven
    exact ((hactive tags hunaffected dropped).mp hgiven).2 (by decide +kernel)
  · intro hgiven
    exact ((hactive tags hunaffected missing).mp hgiven).2 hmissing

end Delta

end DetectorCache
