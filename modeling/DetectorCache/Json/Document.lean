import DetectorCache.Json
import DetectorCache.Json.Numeral
import DetectorCache.Json.Quoted
/-!
Whole JSON documents. A value may lie inside at most 64 others; `valueReader n` reads one that may
hold others to a depth below `n`, so reading recurses on that number, and along a row of items on
the text that is left. `parse` reads a document that is one value with blanks around it.
-/
set_option autoImplicit false

namespace DetectorCache.Json

open Octets (ascii)

def elements (item : Reader Json) (text : Octets) : Except Failure (List Json × Octets) :=
  match _h : item.read (skipBlanks text) with
  | .error e => .error e
  | .ok (value, afterItem) =>
    match _h' : skipBlanks afterItem with
    | [] => .error ⟨.missingArrayComma, 0⟩
    | b :: rest =>
      if b = 93 then .ok ([value], rest)
      else if b = Octets.comma then
        match elements item rest with
        | .error e => .error e
        | .ok (others, rest) => .ok (value :: others, rest)
      else .error ⟨.missingArrayComma, rest.length + 1⟩
termination_by text.length
decreasing_by
  have h1 := length_skipBlanks_le text
  have h2 := item.shrinks _h
  have h3 := length_skipBlanks_le afterItem
  simp only [_h', List.length_cons] at h3
  omega

theorem length_lt_of_elements {item : Reader Json} {text : Octets} {r : List Json × Octets}
    (h : elements item text = .ok r) : r.2.length < text.length := by
  revert r
  fun_induction elements item text with
  | case1 | case2 | case4 | case6 => nofun
  | case3 text value afterItem hi rest hs =>
    rintro _ ⟨⟩
    have h1 := length_skipBlanks_le text
    have h2 := item.shrinks hi
    have h3 := length_skipBlanks_le afterItem
    simp only [hs, List.length_cons] at h3 ⊢
    omega
  | case5 text value afterItem hi rest others rest' he hs _ ih =>
    rintro _ ⟨⟩
    have h1 := length_skipBlanks_le text
    have h2 := item.shrinks hi
    have h3 := length_skipBlanks_le afterItem
    have h4 := ih he
    simp only [hs, List.length_cons] at h3 h4 ⊢
    omega

def memberName (text : Octets) : Except Failure (Octets × Octets) :=
  match stringReader.read (skipBlanks text) with
  | .error e => .error e
  | .ok (name, afterName) =>
    match skipBlanks afterName with
    | [] => .error ⟨.missingColon, 0⟩
    | b :: rest =>
      if b = Octets.colon then .ok (name, rest) else .error ⟨.missingColon, rest.length + 1⟩

theorem length_lt_of_memberName {text : Octets} {r : Octets × Octets}
    (h : memberName text = .ok r) : r.2.length < text.length := by
  rw [memberName] at h
  split at h
  · cases h
  · rename_i name afterName hn
    split at h
    · cases h
    · rename_i b rest hs
      split at h
      · cases h
        have h1 := length_skipBlanks_le text
        have h2 := stringReader.shrinks hn
        have h3 := length_skipBlanks_le afterName
        simp only [hs, List.length_cons] at h3 ⊢
        omega
      · cases h

def members (item : Reader Json) (text : Octets) :
    Except Failure (List (Octets × Json) × Octets) :=
  match _h : memberName text with
  | .error e => .error e
  | .ok (name, afterName) =>
    match _h' : item.read (skipBlanks afterName) with
    | .error e => .error e
    | .ok (value, afterItem) =>
      match _h'' : skipBlanks afterItem with
      | [] => .error ⟨.missingObjectComma, 0⟩
      | b :: rest =>
        if b = 125 then .ok ([(name, value)], rest)
        else if b = Octets.comma then
          match members item rest with
          | .error e => .error e
          | .ok (others, rest) => .ok ((name, value) :: others, rest)
        else .error ⟨.missingObjectComma, rest.length + 1⟩
termination_by text.length
decreasing_by
  have h1 := length_lt_of_memberName _h
  have h2 := length_skipBlanks_le afterName
  have h3 := item.shrinks _h'
  have h4 := length_skipBlanks_le afterItem
  simp only [_h'', List.length_cons] at h1 h4
  omega

theorem length_lt_of_members {item : Reader Json} {text : Octets}
    {r : List (Octets × Json) × Octets} (h : members item text = .ok r) :
    r.2.length < text.length := by
  revert r
  fun_induction members item text with
  | case1 | case2 | case3 | case5 | case7 => nofun
  | case4 text name afterName hn value afterItem hi rest hs =>
    rintro _ ⟨⟩
    have h1 := length_lt_of_memberName hn
    have h2 := length_skipBlanks_le afterName
    have h3 := item.shrinks hi
    have h4 := length_skipBlanks_le afterItem
    simp only [hs, List.length_cons] at h1 h4 ⊢
    omega
  | case6 text name afterName hn value afterItem hi rest others rest' he hs _ ih =>
    rintro _ ⟨⟩
    have h1 := length_lt_of_memberName hn
    have h2 := length_skipBlanks_le afterName
    have h3 := item.shrinks hi
    have h4 := length_skipBlanks_le afterItem
    have h5 := ih he
    simp only [hs, List.length_cons] at h1 h4 h5 ⊢
    omega

def arrayBody (item : Reader Json) (text : Octets) : Except Failure (List Json × Octets) :=
  match skipBlanks text with
  | [] => elements item []
  | b :: rest => if b = 93 then .ok ([], rest) else elements item (b :: rest)

theorem length_lt_of_arrayBody {item : Reader Json} {text : Octets} {r : List Json × Octets}
    (h : arrayBody item text = .ok r) : r.2.length < text.length := by
  have hle := length_skipBlanks_le text
  rw [arrayBody] at h
  split at h
  · exact absurd (length_lt_of_elements h) (by simp)
  · rename_i hs
    rw [hs] at hle
    split at h
    · cases h; exact hle
    · exact Nat.lt_of_lt_of_le (length_lt_of_elements h) hle

def objectBody (item : Reader Json) (text : Octets) :
    Except Failure (List (Octets × Json) × Octets) :=
  match skipBlanks text with
  | [] => members item []
  | b :: rest => if b = 125 then .ok ([], rest) else members item (b :: rest)

theorem length_lt_of_objectBody {item : Reader Json} {text : Octets}
    {r : List (Octets × Json) × Octets} (h : objectBody item text = .ok r) :
    r.2.length < text.length := by
  have hle := length_skipBlanks_le text
  rw [objectBody] at h
  split at h
  · exact absurd (length_lt_of_members h) (by simp)
  · rename_i hs
    rw [hs] at hle
    split at h
    · cases h; exact hle
    · exact Nat.lt_of_lt_of_le (length_lt_of_members h) hle

def literal (word : Octets) (value : Json) (text : Octets) : Except Failure (Json × Octets) :=
  if word.isPrefixOf text then .ok (value, text.drop word.length)
  else .error ⟨.invalidLiteral, text.length⟩

theorem length_lt_of_literal {word text : Octets} {value : Json} {r : Json × Octets}
    (hw : word ≠ []) (h : literal word value text = .ok r) : r.2.length < text.length := by
  rw [literal] at h
  split at h
  · rename_i hp
    cases h
    have hle := (List.isPrefixOf_iff_prefix.mp hp).length_le
    have hpos := List.length_pos_iff.mpr hw
    simp only [List.length_drop]
    omega
  · cases h

def readAs {α : Type} (f : α → Json) : Except Failure (α × Octets) → Except Failure (Json × Octets)
  | .error e => .error e
  | .ok (value, rest) => .ok (f value, rest)

theorem length_lt_of_readAs {α : Type} {f : α → Json} {x : Except Failure (α × Octets)}
    {n : Nat} {r : Json × Octets} (h : readAs f x = .ok r)
    (hx : ∀ s, x = .ok s → s.2.length < n) : r.2.length < n := by
  cases x with
  | error e => cases h
  | ok s => cases h; exact hx s rfl

/-- Reads a value by its first octet; `item` reads the values inside it. -/
def valueOf (item : Reader Json) : Octets → Except Failure (Json × Octets)
  | [] => .error ⟨.endOfInput, 0⟩
  | b :: rest =>
    if b = 123 then readAs ofMembers (objectBody item rest)
    else if b = 91 then readAs .array (arrayBody item rest)
    else if b = Octets.quotationMark then readAs .string (stringReader.read (b :: rest))
    else if b = 116 then literal (ascii "true") (.bool true) (b :: rest)
    else if b = 102 then literal (ascii "false") (.bool false) (b :: rest)
    else if b = 110 then literal (ascii "null") .null (b :: rest)
    else if b = Octets.hyphen ∨ Octets.isDigit b then readAs .number (numberReader.read (b :: rest))
    else .error ⟨.noValue, rest.length + 1⟩

theorem length_lt_of_valueOf {item : Reader Json} {text : Octets} {r : Json × Octets}
    (h : valueOf item text = .ok r) : r.2.length < text.length := by
  cases text with
  | nil => cases h
  | cons b rest =>
    rw [valueOf] at h
    split at h
    · exact length_lt_of_readAs h fun s hs =>
        Nat.lt_succ_of_lt (length_lt_of_objectBody hs)
    · split at h
      · exact length_lt_of_readAs h fun s hs =>
          Nat.lt_succ_of_lt (length_lt_of_arrayBody hs)
      · split at h
        · exact length_lt_of_readAs h fun s hs => stringReader.shrinks hs
        · repeat' split at h
          · exact length_lt_of_literal (by decide) h
          · exact length_lt_of_literal (by decide) h
          · exact length_lt_of_literal (by decide) h
          · exact length_lt_of_readAs h fun s hs => numberReader.shrinks hs
          · cases h

/-- Reads a value that nests to a depth below the given number. -/
def valueReader : Nat → Reader Json
  | 0 => ⟨fun text => .error ⟨.tooDeep, text.length⟩, nofun⟩
  | n + 1 => ⟨valueOf (valueReader n), length_lt_of_valueOf⟩

def maxDepth : Nat := 64

def parse (text : Octets) : Except ParseError Json :=
  match (valueReader (maxDepth + 1)).read (skipBlanks text) with
  | .error failure => .error (failure.locate text)
  | .ok (root, rest) =>
    if skipBlanks rest = [] then .ok root
    else .error ((Failure.mk .trailingContent (skipBlanks rest).length).locate text)

end DetectorCache.Json
