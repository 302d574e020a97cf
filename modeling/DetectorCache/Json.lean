import DetectorCache.Binary64
import DetectorCache.SortedMap

set_option autoImplicit false

namespace DetectorCache

inductive Json where
  | null
  | bool (value : Bool)
  | number (value : Binary64)
  | string (value : Octets)
  | array (items : List Json)
  | object (members : List (Octets × Json))

namespace Json

/-- The object of a row of members; of several with one name the last counts. -/
def ofMembers (members : List (Octets × Json)) : Json :=
  .object (members.foldl (fun held m => insertByKey m.1 m.2 held) [])

def member? (value : Json) (name : Octets) : Option Json :=
  match value with
  | .object members => members.lookup name
  | _ => none

def unsigned? : Json → Option Nat
  | .number x => x.toUnsigned?
  | _ => none

theorem unsigned?_lt {value : Json} {n : Nat} (h : value.unsigned? = some n) : n < twoTo 64 := by
  cases value with
  | number x => exact Binary64.toUnsigned?_lt h
  | _ => cases h

end Json

end DetectorCache
