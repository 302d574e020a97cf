import DetectorCache.Delta
import DetectorCache.Lookup
import DetectorCache.Proofs.StoredIds.RoundTrip

set_option autoImplicit false

namespace DetectorCache

theorem DetectorId.isCanonical_of_toOption {text id : Octets}
    (h : (normalize text).toOption = some id) : isCanonical id := by
  cases hn : normalize text with
  | error refusal => simp [hn, Except.toOption] at h
  | ok canonical =>
    simp only [hn, Except.toOption, Option.some.injEq] at h
    exact h ▸ isCanonical_of_normalize hn

namespace Detector

theorem toOption_normalize (d : Detector) :
    d.normalize.toOption = (DetectorId.normalize d.id).toOption.map fun id => { d with id } := by
  rw [normalize]
  cases DetectorId.normalize d.id <;> rfl

theorem mem_valid {detectors : List Detector} {d : Detector} :
    d ∈ valid detectors ↔
      ∃ d' ∈ detectors, ∃ id, (DetectorId.normalize d'.id).toOption = some id ∧
        { d' with id } = d := by
  simp only [valid, List.mem_filterMap, toOption_normalize, Option.map_eq_some_iff]

theorem mem_ids_valid {detectors : List Detector} {id : Octets} :
    id ∈ (valid detectors).map Detector.id ↔
      ∃ d ∈ detectors, (DetectorId.normalize d.id).toOption = some id := by
  rw [List.mem_map]
  constructor
  · intro hgiven
    obtain ⟨d, hd, rfl⟩ := hgiven
    obtain ⟨d', hd', id, hid, rfl⟩ := mem_valid.mp hd
    exact ⟨d', hd', hid⟩
  · intro hgiven
    obtain ⟨d, hd, hid⟩ := hgiven
    exact ⟨{ d with id }, mem_valid.mpr ⟨d, hd, id, hid, rfl⟩, rfl⟩

theorem isCanonical_of_mem_valid {detectors : List Detector} {d : Detector}
    (h : d ∈ valid detectors) : DetectorId.isCanonical d.id := by
  obtain ⟨d', -, id, hid, rfl⟩ := mem_valid.mp h
  exact DetectorId.isCanonical_of_toOption hid

theorem valid_of_isCanonical {detectors : List Detector}
    (h : ∀ d ∈ detectors, DetectorId.isCanonical d.id) : valid detectors = detectors := by
  induction detectors with
  | nil => rfl
  | cons d detectors ih =>
    have hd := DetectorId.normalize_of_isCanonical (h d List.mem_cons_self)
    have hone : d.normalize.toOption = some d := by
      rw [toOption_normalize, hd]
      rfl
    have hrest := ih fun d' hd' => h d' (List.mem_cons_of_mem _ hd')
    rw [valid, List.filterMap_cons, hone]
    exact congrArg (d :: ·) hrest

theorem mem_of_mem_firstById {detectors : List Detector} {d : Detector}
    (h : d ∈ firstById detectors) : d ∈ detectors := by
  induction detectors with
  | nil => exact h
  | cons first others ih =>
    rw [firstById] at h
    rcases List.mem_cons.mp h with rfl | hrest
    · exact List.mem_cons_self
    · exact List.mem_cons_of_mem _ (ih (List.mem_filter.mp hrest).1)

theorem ids_firstById (detectors : List Detector) :
    (firstById detectors).map Detector.id = (detectors.map Detector.id).eraseDups := by
  induction detectors with
  | nil => rfl
  | cons d detectors ih =>
    rw [firstById, List.map_cons, List.map_cons, List.eraseDups_cons, Octets.eraseDups_filter, ← ih,
      List.filter_map]
    refine congrArg (d.id :: List.map Detector.id ·) (List.filter_congr fun other _ => ?_)
    rw [Function.comp, Bool.eq_iff_iff]
    simp

theorem mem_ids_firstById {detectors : List Detector} {id : Octets} :
    id ∈ (firstById detectors).map Detector.id ↔ id ∈ detectors.map Detector.id := by
  rw [ids_firstById, List.mem_eraseDups]

def canonicalIds (detectors : List Detector) : List Octets :=
  ((detectors.map fun d => d.id.toLower).filter DetectorId.isCanonical).eraseDups

theorem ids_valid (detectors : List Detector) :
    (valid detectors).map Detector.id =
      (detectors.map fun d => d.id.toLower).filter DetectorId.isCanonical := by
  induction detectors with
  | nil => rfl
  | cons d detectors ih =>
    rw [valid, List.filterMap_cons, toOption_normalize, DetectorId.normalize, List.map_cons,
      List.filter_cons, ← ih]
    by_cases hcanonical : DetectorId.isCanonical d.id.toLower
    · rw [if_pos hcanonical, if_pos hcanonical]
      rfl
    · rw [if_neg hcanonical, if_neg hcanonical]
      rfl

theorem eraseDups_ids_valid (detectors : List Detector) :
    ((valid detectors).map Detector.id).eraseDups = canonicalIds detectors := by
  rw [ids_valid, canonicalIds]

/-- What is stored of detectors reads back as their canonical ids, all enabled. -/
theorem decode_encode_valid (detectors : List Detector) :
    StoredIds.decode (StoredIds.encode (valid detectors)) =
      .ok ((canonicalIds detectors).map fun id => ⟨id, true⟩) := by
  rw [StoredIds.decode_encode fun _ hd => isCanonical_of_mem_valid hd, eraseDups_ids_valid]

theorem map_enabled_ids {detectors : List Detector} (h : ∀ d ∈ detectors, d.enabled = true) :
    (detectors.map Detector.id).map (fun id => (⟨id, true⟩ : Detector)) = detectors := by
  rw [List.map_map]
  refine (List.map_congr_left fun d hd => ?_).trans (List.map_id detectors)
  rw [Function.comp, ← h d hd]
  rfl

end Detector

namespace Mapping

/-- The ids of the active detectors of a tag-set. -/
def Active (mappings : List Mapping) (tags : Tags) (id : Octets) : Prop :=
  ∃ m ∈ mappings, m.detector.enabled ∧ m.canonicalId? = some id ∧ m.expression.holds tags

/-- No two mappings have the same canonical id. -/
def DistinctIds (mappings : List Mapping) : Prop := (mappings.filterMap canonicalId?).Nodup

theorem isCanonical_of_mem_activeDetectors {mappings : List Mapping} {d : Detector}
    (h : d ∈ activeDetectors mappings) : DetectorId.isCanonical d.id :=
  Detector.isCanonical_of_mem_valid (Detector.mem_of_mem_firstById h)

theorem nodup_ids_activeDetectors (mappings : List Mapping) :
    ((activeDetectors mappings).map Detector.id).Nodup := Detector.firstById_nodup _

theorem enabled_of_mem_activeDetectors {mappings : List Mapping} {d : Detector}
    (h : d ∈ activeDetectors mappings) : d.enabled = true := by
  obtain ⟨d', hd', id, -, rfl⟩ := Detector.mem_valid.mp (Detector.mem_of_mem_firstById h)
  obtain ⟨m, hm, rfl⟩ := List.mem_map.mp hd'
  exact (List.mem_filter.mp hm).2

theorem activeDetectors_eq (mappings : List Mapping) :
    activeDetectors mappings =
      (Detector.canonicalIds (enabledDetectors mappings)).map fun id => ⟨id, true⟩ := by
  rw [← Detector.map_enabled_ids fun _ hd => enabled_of_mem_activeDetectors hd, activeDetectors,
    Detector.ids_firstById, Detector.eraseDups_ids_valid]

theorem decode_encode_activeDetectors (mappings : List Mapping) :
    StoredIds.decode (StoredIds.encode (Detector.valid (activeDetectors mappings))) =
      .ok (activeDetectors mappings) := by
  have hcanonical : ∀ d ∈ activeDetectors mappings, DetectorId.isCanonical d.id :=
    fun _ hd => isCanonical_of_mem_activeDetectors hd
  rw [Detector.valid_of_isCanonical hcanonical, StoredIds.decode_encode hcanonical,
    Octets.eraseDups_of_nodup (nodup_ids_activeDetectors mappings),
    Detector.map_enabled_ids fun _ hd => enabled_of_mem_activeDetectors hd]

/-- What is resolved against a directory is what is active. -/
theorem mem_ids_activeDetectors {mappings : List Mapping} {tags : Tags} {id : Octets} :
    id ∈ (activeDetectors (mappings.filter (·.expression.holds tags))).map Detector.id ↔
      Active mappings tags id := by
  rw [activeDetectors, Detector.mem_ids_firstById, Detector.mem_ids_valid]
  simp only [enabledDetectors, List.mem_map, List.mem_filter, Active, canonicalId?]
  constructor
  · intro hgiven
    obtain ⟨d, ⟨m, ⟨⟨hm, hholds⟩, henabled⟩, rfl⟩, hid⟩ := hgiven
    exact ⟨m, hm, henabled, hid, hholds⟩
  · intro hgiven
    obtain ⟨m, hm, henabled, hid, hholds⟩ := hgiven
    exact ⟨m.detector, ⟨m, ⟨⟨hm, hholds⟩, henabled⟩, rfl⟩, hid⟩

theorem denotes_encode_activeDetectors (mappings : List Mapping) (tags : Tags) :
    StoredIds.Denotes
      (StoredIds.encode (Detector.valid
        (activeDetectors (mappings.filter (·.expression.holds tags)))))
      (Active mappings tags) := by
  refine ⟨_, decode_encode_activeDetectors _, ?_⟩
  intro id
  exact mem_ids_activeDetectors

end Mapping

namespace Tags

theorem covers_iff {tags required : Tags} :
    tags.covers required ↔
      ∀ key value, required.find? key = some value → tags.find? key = some value := by
  simp only [covers, has, List.all_eq_true, decide_eq_true_eq]
  constructor
  · intro h key value hfind
    exact h (key, value) ((SortedMap.find?_eq_some_iff _ _ _).mp hfind)
  · intro h e he
    exact h e.1 e.2 ((SortedMap.find?_eq_some_iff _ _ _).mpr he)

theorem covers_insert {tags required : Tags} {key : Octets} (hnew : required.find? key = none)
    (value : Octets) :
    tags.covers (required.insert key value) ↔
      tags.covers required ∧ tags.find? key = some value := by
  simp only [covers_iff, SortedMap.find?_insert]
  constructor
  · intro h
    refine ⟨fun k v hfind => h k v ?_, h key value (if_pos rfl)⟩
    have hne : k ≠ key := by
      intro heq
      rw [heq, hnew] at hfind
      cases hfind
    rw [if_neg hne, hfind]
  · intro hgiven k v hfind
    obtain ⟨hcovers, hkey⟩ := hgiven
    split at hfind
    · next heq =>
      cases hfind
      rw [heq, hkey]
    · exact hcovers k v hfind

end Tags

namespace Expression

theorem covers_flattenOnto_iff {tags : Tags} (expression : Expression) (required : Tags) :
    (tags.covers required ∧ expression.holds tags) ↔
      ∃ flat, flattenOnto required expression = .ok flat ∧ tags.covers flat := by
  -- the tags required so far grow from condition to condition
  induction expression generalizing required with
  | nil => simp [flattenOnto, holds]
  | cons o os ih =>
    have hsplit : holds (o :: os) tags ↔ tags.find? o.key = some o.value ∧ holds os tags := by
      simp [holds, Tags.has]
    rw [hsplit, flattenOnto]
    cases hfind : required.find? o.key with
    | none =>
      simp only
      rw [← ih, Tags.covers_insert hfind, and_assoc]
    | some value =>
      have hkey : tags.covers required → tags.find? o.key = some value :=
        fun hc => Tags.covers_iff.mp hc o.key value hfind
      by_cases hv : value = o.value
      · simp only [hv, if_true]
        rw [← ih]
        subst hv
        exact ⟨fun h => ⟨h.1, h.2.2⟩, fun h => ⟨h.1, hkey h.1, h.2⟩⟩
      · simp only [hv, if_false]
        constructor
        · intro hgiven
          obtain ⟨hcovers, hholds, -⟩ := hgiven
          rw [hkey hcovers] at hholds
          exact absurd (Option.some.inj hholds) hv
        · intro hgiven
          obtain ⟨flat, hflat, -⟩ := hgiven
          cases hflat

/-- An expression holds exactly where it can be flattened to tags that are there. -/
theorem holds_iff_covers_flatten {tags : Tags} {expression : Expression} :
    expression.holds tags ↔ ∃ flat, expression.flatten = .ok flat ∧ tags.covers flat := by
  rw [flatten, ← covers_flattenOnto_iff]
  simp [Tags.covers_iff]

/-- There is a tag-set that meets all conditions. -/
def Satisfiable (expression : Expression) : Prop := ∃ tags : Tags, expression.holds tags

theorem satisfiable_iff {expression : Expression} :
    expression.Satisfiable ↔ expression.flatten.toOption.isSome := by
  cases hflatten : expression.flatten with
  | error conflict =>
    refine iff_of_false ?_ nofun
    rintro ⟨tags, hholds⟩
    obtain ⟨flat, hflat, -⟩ := holds_iff_covers_flatten.mp hholds
    rw [hflatten] at hflat
    cases hflat
  | ok flat =>
    have hself : flat.covers flat := Tags.covers_iff.mpr fun _ _ hfind => hfind
    exact iff_of_true ⟨flat, holds_iff_covers_flatten.mpr ⟨flat, hflatten, hself⟩⟩ rfl

instance (expression : Expression) : Decidable expression.Satisfiable :=
  decidable_of_iff _ satisfiable_iff.symm

end Expression

end DetectorCache
