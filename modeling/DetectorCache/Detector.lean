import DetectorCache.Octets
/-!
Detectors and their ids. An id is canonical when it is the lower-case text of a UUID; letter case
in an id carries no meaning, so ids are normalized before they are compared or stored. A detector
is identified by its id alone.
-/
set_option autoImplicit false

namespace DetectorCache

open Octets (ascii)

namespace DetectorId

def isLowerHex (b : UInt8) : Bool := Octets.isDigit b || (97 ≤ b && b ≤ 102)

def groupLengths : List Nat := [8, 4, 4, 4, 12]

def isCanonical (text : Octets) : Bool :=
  let groups := text.pieces Octets.hyphen
  groups.map List.length = groupLengths && groups.all (·.all isLowerHex)

structure NotUuid where
  text : Octets
  deriving DecidableEq

def NotUuid.message (e : NotUuid) : Octets :=
  ascii "detector id is not a UUID: " ++ e.text.inApostrophes

def normalize (text : Octets) : Except NotUuid Octets :=
  if isCanonical text.toLower then .ok text.toLower else .error ⟨text⟩

theorem normalize_eq_ok_iff {text id : Octets} :
    normalize text = .ok id ↔ id = text.toLower ∧ isCanonical id := by
  rw [normalize]
  split
  · next h =>
    rw [Except.ok.injEq, eq_comm]
    exact ⟨fun heq => ⟨heq, heq ▸ h⟩, And.left⟩
  · next h => exact ⟨nofun, fun ⟨heq, hcanonical⟩ => absurd (heq ▸ hcanonical) h⟩

theorem isCanonical_of_normalize {text id : Octets} (h : normalize text = .ok id) :
    isCanonical id := (normalize_eq_ok_iff.mp h).2

end DetectorId

/-- A detector as the mapping service names it. The flag is the service's; a detector read back
from the cache counts as enabled. -/
structure Detector where
  id : Octets
  enabled : Bool := true
  deriving DecidableEq

namespace Detector

def firstById : List Detector → List Detector
  | [] => []
  | d :: ds => d :: (firstById ds).filter (·.id ≠ d.id)

theorem firstById_nodup (ds : List Detector) : ((firstById ds).map id).Nodup := by
  induction ds with
  | nil => simp [firstById]
  | cons d ds ih =>
    rw [firstById, List.map_cons, List.nodup_cons]
    refine ⟨?_, ih.sublist (List.filter_sublist.map _)⟩
    simp

def normalize (d : Detector) : Except DetectorId.NotUuid Detector :=
  match DetectorId.normalize d.id with
  | .error refusal => .error refusal
  | .ok id => .ok { d with id }

/-- The detectors whose id is a UUID, under their canonical ids. -/
def valid (ds : List Detector) : List Detector := ds.filterMap fun d => d.normalize.toOption

def refusals (ds : List Detector) : List DetectorId.NotUuid :=
  ds.filterMap fun d =>
    match d.normalize with
    | .error refusal => some refusal
    | .ok _ => none

def joinedIds (ds : List Detector) : Octets := Octets.joined [Octets.comma] (ds.map id)

end Detector

end DetectorCache
