import DetectorCache.Mapping
/-!
Cache keys: a tag-set written as `key:value` pairs in key order, joined by commas, with a backslash
before every comma, colon and backslash of a key or value. `decode` reads a key back and refuses
what is no rendering of pairs with distinct keys.
-/
set_option autoImplicit false

namespace DetectorCache.CacheKey

open Octets (ascii)

def isReserved (b : UInt8) : Bool :=
  b == Octets.backslash || b == Octets.comma || b == Octets.colon

def escape (text : Octets) : Octets :=
  text.flatMap fun b => if isReserved b then [Octets.backslash, b] else [b]

def renderPair (pair : Octets × Octets) : Octets :=
  escape pair.1 ++ Octets.colon :: escape pair.2

def render : List (Octets × Octets) → Octets
  | [] => []
  | [pair] => renderPair pair
  | pair :: pairs => renderPair pair ++ Octets.comma :: render pairs

def encode (tags : Tags) : Octets := render tags.entries

inductive Fault where
  | danglingEscape
  | unknownEscape
  | pairWithoutColon
  | repeatedTag
  | colonInsideValue
  deriving DecidableEq

def Fault.message : Fault → Octets
  | .danglingEscape => ascii "dangling escape"
  | .unknownEscape => ascii "unknown escape"
  | .pairWithoutColon => ascii "pair without ':'"
  | .repeatedTag => ascii "repeated tag key"
  | .colonInsideValue => ascii "unescaped ':' inside value"

structure Malformed where
  fault : Fault
  key : Octets
  deriving DecidableEq

def Malformed.message (e : Malformed) : Octets :=
  ascii "MALFORMED_KEY: " ++ e.fault.message ++ ascii " in key " ++ e.key.inApostrophes

/-- Reads an escaped text up to a bare comma or colon, which stays in the rest. -/
def readText : Octets → Except Fault (Octets × Octets)
  | [] => .ok ([], [])
  | b :: rest =>
    if b = Octets.backslash then
      match rest with
      | [] => .error .danglingEscape
      | c :: rest =>
        if isReserved c then
          match readText rest with
          | .error e => .error e
          | .ok (text, rest) => .ok (c :: text, rest)
        else .error .unknownEscape
    else if b = Octets.comma ∨ b = Octets.colon then .ok ([], b :: rest)
    else
      match readText rest with
      | .error e => .error e
      | .ok (text, rest) => .ok (b :: text, rest)

theorem length_le_of_readText {text : Octets} {r : Octets × Octets}
    (h : readText text = .ok r) : r.2.length ≤ text.length := by
  revert r
  fun_induction readText text with
  | case1 => rintro _ ⟨⟩; exact Nat.le_refl _
  | case2 => nofun
  | case3 => nofun
  | case4 c _ rest text rest' hr ih =>
    rintro _ ⟨⟩
    have hle := ih hr
    simp only [List.length_cons] at hle ⊢
    omega
  | case5 => nofun
  | case6 => rintro _ ⟨⟩; exact Nat.le_refl _
  | case7 => nofun
  | case8 b rest _ _ text rest' hr ih =>
    rintro _ ⟨⟩
    have hle := ih hr
    simp only [List.length_cons] at hle ⊢
    omega

def readPair (text : Octets) : Except Fault ((Octets × Octets) × Option Octets) :=
  match readText text with
  | .error e => .error e
  | .ok (_, []) => .error .pairWithoutColon
  | .ok (key, b :: afterKey) =>
    if b = Octets.colon then
      match readText afterKey with
      | .error e => .error e
      | .ok (value, []) => .ok ((key, value), none)
      | .ok (value, c :: rest) =>
        if c = Octets.comma then .ok ((key, value), some rest) else .error .colonInsideValue
    else .error .pairWithoutColon

theorem length_lt_of_readPair {text rest : Octets} {pair : Octets × Octets}
    (h : readPair text = .ok (pair, some rest)) : rest.length < text.length := by
  rw [readPair] at h
  split at h
  · cases h
  · cases h
  · rename_i hk
    have h1 := length_le_of_readText hk
    split at h
    · split at h
      · cases h
      · cases h
      · rename_i hv
        have h2 := length_le_of_readText hv
        split at h
        · cases h
          simp only [List.length_cons] at h1 h2
          omega
        · cases h
    · cases h

def readPairs (tags : Tags) (text : Octets) : Except Fault Tags :=
  match _h : readPair text with
  | .error e => .error e
  | .ok ((key, value), next) =>
    if tags.contains key then .error .repeatedTag
    else
      match next with
      | none => .ok (tags.insert key value)
      | some rest => readPairs (tags.insert key value) rest
termination_by text.length
decreasing_by exact length_lt_of_readPair _h

def decode (key : Octets) : Except Malformed Tags :=
  if key = [] then .ok ∅
  else
    match readPairs ∅ key with
    | .error fault => .error ⟨fault, key⟩
    | .ok tags => .ok tags

end DetectorCache.CacheKey
