import DetectorCache.Json.Fault
import DetectorCache.Octets.Utf8

set_option autoImplicit false

namespace DetectorCache.Json

open Octets (ascii)

def hexDigit (n : Nat) : UInt8 := (if n < 10 then 48 + n else 87 + n).toUInt8

/-- How an octet is written inside quotation marks: quotation marks, backslashes and control
characters as escapes, everything else as itself. -/
def escapeOctet (b : UInt8) : Octets :=
  if b = 34 then ascii "\\\""
  else if b = 92 then ascii "\\\\"
  else if b = 8 then ascii "\\b"
  else if b = 12 then ascii "\\f"
  else if b = 10 then ascii "\\n"
  else if b = 13 then ascii "\\r"
  else if b = 9 then ascii "\\t"
  else if b < 32 then ascii "\\u00" ++ [hexDigit (b.toNat / 16), hexDigit (b.toNat % 16)]
  else [b]

def escape (text : Octets) : Octets := text.flatMap escapeOctet

def quote (text : Octets) : Octets :=
  Octets.quotationMark :: (escape text ++ [Octets.quotationMark])

def shortEscape? (letter : UInt8) : Option UInt8 :=
  if letter = 34 ∨ letter = 92 ∨ letter = 47 then some letter
  else if letter = 98 then some 8
  else if letter = 102 then some 12
  else if letter = 110 then some 10
  else if letter = 114 then some 13
  else if letter = 116 then some 9
  else none

def hexDigits : Nat → Nat → Octets → Except Failure (Nat × Octets)
  | 0, value, text => .ok (value, text)
  | _ + 1, _, [] => .error ⟨.truncatedCodePoint, 0⟩
  | count + 1, value, b :: rest =>
    match Octets.hexValue? b with
    | none => .error ⟨.invalidHexDigit, rest.length⟩
    | some digit => hexDigits count (16 * value + digit) rest

theorem length_le_of_hexDigits {count value : Nat} {text : Octets} {r : Nat × Octets}
    (h : hexDigits count value text = .ok r) : r.2.length ≤ text.length := by
  induction count generalizing value text with
  | zero => simp only [hexDigits, Except.ok.injEq] at h; subst h; exact Nat.le_refl _
  | succ count ih =>
    cases text with
    | nil => simp [hexDigits] at h
    | cons b rest =>
      rw [hexDigits] at h
      split at h
      · cases h
      · exact Nat.le_trans (ih h) (by simp)

def codePoint (text : Octets) : Except Failure (Octets × Octets) :=
  match hexDigits 4 0 text with
  | .error e => .error e
  | .ok (value, rest) =>
    if 0xD800 ≤ value ∧ value ≤ 0xDFFF then .error ⟨.surrogate, rest.length⟩
    else .ok (Octets.encode value, rest)

def escapeSequence : Octets → Except Failure (Octets × Octets)
  | [] => .error ⟨.unterminatedString, 0⟩
  | letter :: rest =>
    if letter = 117 then codePoint rest
    else
      match shortEscape? letter with
      | some b => .ok ([b], rest)
      | none => .error ⟨.invalidEscape, rest.length⟩

theorem length_lt_of_escapeSequence {text : Octets} {r : Octets × Octets}
    (h : escapeSequence text = .ok r) : r.2.length < text.length := by
  cases text with
  | nil => simp [escapeSequence] at h
  | cons letter rest =>
    rw [escapeSequence] at h
    split at h
    · rw [codePoint] at h
      split at h
      · cases h
      · rename_i value rest' hd
        split at h
        · cases h
        · cases h
          exact Nat.lt_of_le_of_lt (length_le_of_hexDigits hd) (by simp)
    · split at h <;> cases h
      simp

/-- Reads one unit of a string, or `none` for the quotation mark that ends it. -/
def stringUnit : Octets → Except Failure (Option Octets × Octets)
  | [] => .error ⟨.unterminatedString, 0⟩
  | b :: rest =>
    if b = Octets.quotationMark then .ok (none, rest)
    else if b < 32 then .error ⟨.controlCharacter, rest.length⟩
    else if b = Octets.backslash then
      match escapeSequence rest with
      | .error e => .error e
      | .ok (unit, rest) => .ok (some unit, rest)
    else .ok (some [b], rest)

theorem length_lt_of_stringUnit {text : Octets} {r : Option Octets × Octets}
    (h : stringUnit text = .ok r) : r.2.length < text.length := by
  cases text with
  | nil => simp [stringUnit] at h
  | cons b rest =>
    rw [stringUnit] at h
    split at h
    · cases h; simp
    · split at h
      · cases h
      · split at h
        · split at h
          · cases h
          · rename_i he
            cases h
            exact Nat.lt_trans (length_lt_of_escapeSequence he) (by simp)
        · cases h; simp

def stringBody (text : Octets) : Except Failure (Octets × Octets) :=
  match _h : stringUnit text with
  | .error e => .error e
  | .ok (none, rest) => .ok ([], rest)
  | .ok (some unit, rest) =>
    match stringBody rest with
    | .error e => .error e
    | .ok (others, rest) => .ok (unit ++ others, rest)
termination_by text.length
decreasing_by exact length_lt_of_stringUnit _h

theorem length_lt_of_stringBody {text : Octets} {r : Octets × Octets}
    (h : stringBody text = .ok r) : r.2.length < text.length := by
  revert r
  fun_induction stringBody text with
  | case1 => nofun
  | case2 text rest hu => rintro _ ⟨⟩; exact length_lt_of_stringUnit hu
  | case3 => nofun
  | case4 text unit rest hu others rest' hb ih =>
    rintro _ ⟨⟩
    have hlt := ih hb
    exact Nat.lt_trans hlt (length_lt_of_stringUnit hu)

def stringReader : Reader Octets where
  read
    | [] => .error ⟨.missingQuotationMark, 0⟩
    | b :: rest =>
      if b = Octets.quotationMark then stringBody rest
      else .error ⟨.missingQuotationMark, rest.length + 1⟩
  shrinks := by
    intro text rest value h
    cases text with
    | nil => cases h
    | cons b rest =>
      dsimp only at h
      split at h
      · exact Nat.lt_trans (length_lt_of_stringBody h) (by simp)
      · cases h

end DetectorCache.Json
