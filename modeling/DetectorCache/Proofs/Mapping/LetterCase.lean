import DetectorCache.Proofs.Mapping.Active
import DetectorCache.Proofs.Delta.Sufficiency

set_option autoImplicit false

namespace DetectorCache

theorem DetectorId.toOption_normalize_toLower (text : Octets) :
    (normalize text.toLower).toOption = (normalize text).toOption := by
  rw [normalize, normalize, Octets.toLower_toLower]
  split <;> rfl

namespace SortedMap

universe u v
variable {β : Type u} {γ : Type v}

def mapValues (f : β → γ) (m : SortedMap β) : SortedMap γ where
  entries := m.entries.map fun e => (e.1, f e.2)
  increasing := List.pairwise_map.mpr m.increasing

theorem find?_mapValues (f : β → γ) (m : SortedMap β) (key : Octets) :
    (m.mapValues f).find? key = (m.find? key).map f := by
  obtain ⟨entries, h⟩ := m
  simp only [find?, mapValues]
  clear h
  induction entries with
  | nil => rfl
  | cons e entries ih =>
    rw [List.map_cons, List.lookup_cons, List.lookup_cons, ih]
    cases key == e.1 <;> rfl

theorem mapValues_insert (f : β → γ) (m : SortedMap β) (key : Octets) (value : β) :
    (m.insert key value).mapValues f = (m.mapValues f).insert key (f value) := by
  refine ext_find? fun k => ?_
  rw [find?_mapValues, find?_insert, find?_insert, find?_mapValues]
  split <;> rfl

theorem mapValues_ofList (f : β → γ) (entries : List (Octets × β)) :
    (ofList entries).mapValues f = ofList (entries.map fun e => (e.1, f e.2)) := by
  have hfold : ∀ m : SortedMap β,
      (entries.foldl (fun m e => m.insert e.1 e.2) m).mapValues f =
        (entries.map fun e => (e.1, f e.2)).foldl (fun m e => m.insert e.1 e.2)
          (m.mapValues f) := by
    induction entries with
    | nil => exact fun _ => rfl
    | cons e entries ih =>
      intro m
      rw [List.foldl_cons, ih, mapValues_insert, List.map_cons, List.foldl_cons]
  exact hfold ∅

end SortedMap

namespace Detector

def lowered (d : Detector) : Detector := { d with id := d.id.toLower }

theorem toOption_normalize_lowered (d : Detector) :
    d.lowered.normalize.toOption = d.normalize.toOption := by
  rw [toOption_normalize, toOption_normalize, lowered, DetectorId.toOption_normalize_toLower]

theorem valid_lowered (detectors : List Detector) :
    valid (detectors.map lowered) = valid detectors := by
  rw [valid, valid, List.filterMap_map]
  exact congrArg (List.filterMap · detectors) (funext toOption_normalize_lowered)

end Detector

namespace Mapping

def lowered (m : Mapping) : Mapping := { m with detector := m.detector.lowered }

theorem canonicalId?_lowered (m : Mapping) : m.lowered.canonicalId? = m.canonicalId? :=
  DetectorId.toOption_normalize_toLower m.detector.id

theorem eq_of_lowered {α : Type} (reading : List Mapping → α)
    (hreading : ∀ mappings, reading (mappings.map lowered) = reading mappings)
    {first second : List Mapping} (h : first.map lowered = second.map lowered) :
    reading first = reading second := by
  rw [← hreading first, h, hreading]

theorem eq_nil_iff_of_lowered {first second : List Mapping}
    (h : first.map lowered = second.map lowered) : first = [] ↔ second = [] := by
  rw [← List.map_eq_nil_iff (f := lowered), h, List.map_eq_nil_iff]

theorem enabledDetectors_lowered (mappings : List Mapping) :
    enabledDetectors (mappings.map lowered) = (enabledDetectors mappings).map Detector.lowered := by
  rw [enabledDetectors, enabledDetectors, List.filter_map, List.map_map, List.map_map]
  rfl

theorem activeDetectors_lowered (mappings : List Mapping) :
    activeDetectors (mappings.map lowered) = activeDetectors mappings := by
  rw [activeDetectors, enabledDetectors_lowered, Detector.valid_lowered, activeDetectors]

theorem filter_holds_lowered (mappings : List Mapping) (tags : Tags) :
    (mappings.map lowered).filter (·.expression.holds tags) =
      (mappings.filter (·.expression.holds tags)).map lowered := by
  rw [List.filter_map]
  rfl

end Mapping

namespace Applied

def lowered (applied : Applied) : Applied := applied.mapValues Mapping.lowered

theorem ofMappings_lowered (mappings : List Mapping) :
    ofMappings (mappings.map Mapping.lowered) = (ofMappings mappings).lowered := by
  rw [ofMappings_eq_ofList, ofMappings_eq_ofList, lowered, SortedMap.mapValues_ofList,
    List.filterMap_map, List.map_filterMap]
  refine congrArg (fun entry => SortedMap.ofList (mappings.filterMap entry)) (funext fun m => ?_)
  rw [Function.comp, Mapping.canonicalId?_lowered, Option.map_map]
  rfl

end Applied

namespace Change

def lowered : Change → Change
  | .retargeted before => .retargeted before.lowered
  | change => change

theorem of_lowered (applied : Applied) (m : Mapping) :
    of applied.lowered m.lowered = (of applied m).lowered := by
  rw [of, of, Mapping.canonicalId?_lowered]
  cases m.canonicalId? with
  | none => rfl
  | some id =>
    simp only [Applied.lowered, SortedMap.find?_mapValues]
    cases applied.find? id with
    | none =>
      simp only [Option.map_none, apply_ite lowered]
      rfl
    | some before =>
      simp only [Option.map_some, apply_ite lowered]
      rfl

theorem former?_lowered (change : Change) :
    Delta.former? change.lowered = (Delta.former? change).map Mapping.lowered := by
  cases change <;> rfl

theorem evicts_lowered (change : Change) : Delta.evicts change.lowered = Delta.evicts change := by
  cases change <;> rfl

theorem lowered_eq_disabled_iff (change : Change) :
    change.lowered = disabled ↔ change = disabled := by
  cases change <;> simp [lowered]

end Change

namespace Delta

def lowered (delta : Delta) : Delta where
  newlyDisabled := delta.newlyDisabled.map Mapping.lowered
  createdOrChanged := delta.createdOrChanged.map Mapping.lowered
  retargetedFrom := delta.retargetedFrom.map Mapping.lowered

theorem missing_lowered (applied : Applied) (current : List Mapping) :
    missing applied.lowered (current.map Mapping.lowered) =
      (missing applied current).map Mapping.lowered := by
  have hnamed : (current.map Mapping.lowered).filterMap Mapping.canonicalId? =
      current.filterMap Mapping.canonicalId? := by
    rw [List.filterMap_map]
    exact congrArg (List.filterMap · current) (funext Mapping.canonicalId?_lowered)
  simp only [missing, hnamed, Applied.lowered, SortedMap.mapValues, List.filter_map, List.map_map]
  rfl

/-- What is disabled, created or changed is found in any letter case of ids, of the given ones as of
the recorded ones. -/
theorem between_lowered (applied : Applied) (current : List Mapping) :
    between applied.lowered (current.map Mapping.lowered) = (between applied current).lowered := by
  have hdisabled : ∀ m, (decide (Change.of applied.lowered m.lowered = .disabled)) =
      decide (Change.of applied m = .disabled) := fun m => by
    rw [Change.of_lowered]
    exact decide_eq_decide.mpr (Change.lowered_eq_disabled_iff _)
  have hevicts : ∀ m, evicts (Change.of applied.lowered (Mapping.lowered m)) =
      evicts (Change.of applied m) := fun m => by
    rw [Change.of_lowered, Change.evicts_lowered]
  have hformer : ∀ m, former? (Change.of applied.lowered (Mapping.lowered m)) =
      (former? (Change.of applied m)).map Mapping.lowered := fun m => by
    rw [Change.of_lowered, Change.former?_lowered]
  simp only [between, lowered, missing_lowered, List.map_append, List.filter_map,
    List.filterMap_map, List.map_filterMap, Function.comp_def, hdisabled, hevicts, hformer]

end Delta

end DetectorCache
