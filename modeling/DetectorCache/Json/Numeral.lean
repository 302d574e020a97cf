import DetectorCache.Json.Fault
import DetectorCache.Binary64.Rounding

set_option autoImplicit false

namespace DetectorCache.Json

open Octets (isDigit digitsValue)

def digitRow (missing : Fault) (text : Octets) : Except Failure (Octets × Octets) :=
  if text.takeWhile isDigit = [] then .error ⟨missing, text.length⟩
  else .ok (text.takeWhile isDigit, text.dropWhile isDigit)

theorem length_lt_of_digitRow {missing : Fault} {text : Octets} {r : Octets × Octets}
    (h : digitRow missing text = .ok r) : r.2.length < text.length := by
  rw [digitRow] at h
  split at h
  · cases h
  · rename_i hne
    cases h
    have hlen := congrArg List.length (List.takeWhile_append_dropWhile (p := isDigit) (l := text))
    have hpos := List.length_pos_iff.mpr hne
    simp only [List.length_append] at hlen ⊢
    omega

def minus : Octets → Bool × Octets
  | [] => (false, [])
  | b :: rest => if b = Octets.hyphen then (true, rest) else (false, b :: rest)

theorem length_minus_le (text : Octets) : (minus text).2.length ≤ text.length := by
  cases text with
  | nil => exact Nat.le_refl _
  | cons b rest => simp only [minus]; split <;> simp

/-- Reads the digits before the point. A leading zero stands alone. -/
def wholePart : Octets → Except Failure (Octets × Octets)
  | [] => .error ⟨.missingDigits, 0⟩
  | b :: rest => if b = 48 then .ok ([48], rest) else digitRow .missingDigits (b :: rest)

theorem length_lt_of_wholePart {text : Octets} {r : Octets × Octets}
    (h : wholePart text = .ok r) : r.2.length < text.length := by
  cases text with
  | nil => cases h
  | cons b rest =>
    rw [wholePart] at h
    split at h
    · cases h; simp
    · exact length_lt_of_digitRow h

def fractionPart : Octets → Except Failure (Octets × Octets)
  | [] => .ok ([], [])
  | b :: rest => if b = 46 then digitRow .missingFraction rest else .ok ([], b :: rest)

theorem length_le_of_fractionPart {text : Octets} {r : Octets × Octets}
    (h : fractionPart text = .ok r) : r.2.length ≤ text.length := by
  cases text with
  | nil => cases h; exact Nat.le_refl _
  | cons b rest =>
    rw [fractionPart] at h
    split at h
    · exact Nat.le_of_lt (Nat.lt_trans (length_lt_of_digitRow h) (by simp))
    · cases h; exact Nat.le_refl _

def exponentSign : Octets → Bool × Octets
  | [] => (false, [])
  | b :: rest => if b = 43 then (false, rest) else minus (b :: rest)

theorem length_exponentSign_le (text : Octets) : (exponentSign text).2.length ≤ text.length := by
  cases text with
  | nil => exact Nat.le_refl _
  | cons b rest =>
    rw [exponentSign]
    split
    · simp
    · exact length_minus_le _

def exponentPart : Octets → Except Failure (Int × Octets)
  | [] => .ok (0, [])
  | b :: rest =>
    if b = 101 ∨ b = 69 then
      match digitRow .missingExponent (exponentSign rest).2 with
      | .error e => .error e
      | .ok (digits, others) =>
        let size : Int := digitsValue digits
        .ok (if (exponentSign rest).1 then -size else size, others)
    else .ok (0, b :: rest)

theorem length_le_of_exponentPart {text : Octets} {r : Int × Octets}
    (h : exponentPart text = .ok r) : r.2.length ≤ text.length := by
  cases text with
  | nil => cases h; exact Nat.le_refl _
  | cons b rest =>
    rw [exponentPart] at h
    split at h
    · split at h
      · cases h
      · rename_i hd
        cases h
        have h1 := length_lt_of_digitRow hd
        have h2 := length_exponentSign_le rest
        simp only [List.length_cons] at h1 ⊢
        omega
    · cases h; exact Nat.le_refl _

def numeral (text : Octets) : Except Failure (Binary64.Decimal × Octets) :=
  match wholePart (minus text).2 with
  | .error e => .error e
  | .ok (whole, afterWhole) =>
    match fractionPart afterWhole with
    | .error e => .error e
    | .ok (fraction, afterFraction) =>
      match exponentPart afterFraction with
      | .error e => .error e
      | .ok (exponent, rest) =>
        .ok (⟨(minus text).1, digitsValue (whole ++ fraction), exponent - fraction.length⟩, rest)

theorem length_lt_of_numeral {text : Octets} {r : Binary64.Decimal × Octets}
    (h : numeral text = .ok r) : r.2.length < text.length := by
  rw [numeral] at h
  split at h
  · cases h
  · rename_i hw
    split at h
    · cases h
    · rename_i hf
      split at h
      · cases h
      · rename_i he
        cases h
        have h1 := length_minus_le text
        have h2 := length_lt_of_wholePart hw
        have h3 := length_le_of_fractionPart hf
        have h4 := length_le_of_exponentPart he
        simp only at h2 h3 h4 ⊢
        omega

def numberReader : Reader Binary64 where
  read text :=
    match numeral text with
    | .error e => .error e
    | .ok (decimal, rest) =>
      match Binary64.ofDecimal? decimal with
      | some x => .ok (x, rest)
      | none => .error ⟨.outOfRange, rest.length⟩
  shrinks := by
    intro text rest value h
    split at h
    · cases h
    · rename_i hn
      split at h
      · cases h; exact length_lt_of_numeral hn
      · cases h

end DetectorCache.Json
