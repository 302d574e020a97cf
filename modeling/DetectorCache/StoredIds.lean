import DetectorCache.Detector

set_option autoImplicit false

namespace DetectorCache.StoredIds

open Octets (ascii)

def encode (detectors : List Detector) : Octets :=
  Octets.joined [Octets.comma] (detectors.map Detector.id).eraseDups

structure Malformed where
  piece : Octets
  value : Octets
  deriving DecidableEq

def Malformed.message (e : Malformed) : Octets :=
  ascii "MALFORMED_VALUE: invalid detector id " ++ e.piece.inApostrophes ++ ascii " in value " ++
    e.value.inApostrophes

/-- Reads the ids back, each where it first occurs, as enabled detectors. -/
def decode (value : Octets) : Except Malformed (List Detector) :=
  if value = [] then .ok []
  else
    let ids := value.pieces Octets.comma
    match ids.find? fun id => !DetectorId.isCanonical id with
    | some piece => .error ⟨piece, value⟩
    | none => .ok (ids.eraseDups.map fun id => ⟨id, true⟩)

end DetectorCache.StoredIds
