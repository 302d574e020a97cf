import DetectorCache.Detector
import DetectorCache.SortedMap

set_option autoImplicit false

namespace DetectorCache

open Octets (ascii inApostrophes)

abbrev Tags := SortedMap Octets

structure Operand where
  key : Octets
  value : Octets
  deriving DecidableEq

/-- A conjunction of conditions; the empty one always holds. -/
abbrev Expression := List Operand

structure Mapping where
  detector : Detector
  expression : Expression
  deriving DecidableEq

def Tags.has (tags : Tags) (key value : Octets) : Bool := tags.find? key = some value

def Tags.covers (tags required : Tags) : Bool := required.entries.all fun e => tags.has e.1 e.2

namespace Expression

def holds (expression : Expression) (tags : Tags) : Bool :=
  expression.all fun o => tags.has o.key o.value

structure Conflict where
  key : Octets
  first : Octets
  second : Octets
  deriving DecidableEq

def Conflict.message (e : Conflict) : Octets :=
  ascii "conflicting operands for tag " ++ inApostrophes e.key ++ ascii ": " ++
    inApostrophes e.first ++ ascii " and " ++ inApostrophes e.second

def flattenOnto (required : Tags) : Expression → Except Conflict Tags
  | [] => .ok required
  | o :: os =>
    match required.find? o.key with
    | none => flattenOnto (required.insert o.key o.value) os
    | some value =>
      if value = o.value then flattenOnto required os else .error ⟨o.key, value, o.value⟩

def flatten (expression : Expression) : Except Conflict Tags := flattenOnto ∅ expression

end Expression

end DetectorCache
