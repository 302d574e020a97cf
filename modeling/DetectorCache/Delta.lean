import DetectorCache.Mapping
/-!
The difference between the mappings last applied, recorded by canonical id, and a new list of them:
what must be pruned, what must be evicted, and the former mappings of detectors that moved to other
tag-sets. Mappings without a valid id are left out.
-/
set_option autoImplicit false

namespace DetectorCache

abbrev Applied := SortedMap Mapping

namespace Mapping

def canonicalId? (m : Mapping) : Option Octets := (DetectorId.normalize m.detector.id).toOption

def disable (m : Mapping) : Mapping := { m with detector := { m.detector with enabled := false } }

end Mapping

/-- The record of a list of mappings; of several with one id the last counts. -/
def Applied.ofMappings (mappings : List Mapping) : Applied :=
  mappings.foldl (fun applied m =>
    match m.canonicalId? with
    | none => applied
    | some id => applied.insert id m) ∅

/-- What a new mapping means to what was applied before. -/
inductive Change where
  | nothing
  | disabled
  | created
  | retargeted (before : Mapping)
  deriving DecidableEq

def Change.of (applied : Applied) (m : Mapping) : Change :=
  match m.canonicalId? with
  | none => .nothing
  | some id =>
    match applied.find? id with
    | none => if m.detector.enabled then .created else .disabled
    | some before =>
      if m.detector.enabled then
        if before.detector.enabled then
          if before.expression = m.expression then .nothing else .retargeted before
        else .created
      else if before.detector.enabled then .disabled
      else .nothing

structure Delta where
  newlyDisabled : List Mapping
  createdOrChanged : List Mapping
  retargetedFrom : List Mapping
  deriving DecidableEq

namespace Delta

/-- The recorded mappings of enabled detectors that a list no longer names, as disabled ones. They
are listed by id, where a walk over a hash table would find them in some other order. -/
def missing (applied : Applied) (current : List Mapping) : List Mapping :=
  let named := current.filterMap Mapping.canonicalId?
  (applied.entries.filter fun e => e.2.detector.enabled && !named.contains e.1).map (·.2.disable)

def evicts : Change → Bool
  | .created | .retargeted _ => true
  | .nothing | .disabled => false

def former? : Change → Option Mapping
  | .retargeted before => some before
  | _ => none

def between (applied : Applied) (current : List Mapping) : Delta where
  newlyDisabled := current.filter (Change.of applied · = .disabled) ++ missing applied current
  createdOrChanged := current.filter fun m => evicts (Change.of applied m)
  retargetedFrom := current.filterMap fun m => former? (Change.of applied m)

end Delta

end DetectorCache
