import DetectorCache.Json.Numeral
import DetectorCache.Proofs.Json.Grammar

set_option autoImplicit false

namespace DetectorCache.Json

open Octets (ascii isDigit digitsValue)
open Grammar (Digits Sign Whole Fraction ExponentSign Exponent Numeral)

theorem isDigit_iff {b : UInt8} : isDigit b = true ↔ b ∈ ascii "0123456789" := by
  have hdigits : ascii "0123456789" = [48, 49, 50, 51, 52, 53, 54, 55, 56, 57] := by decide
  rw [hdigits]
  simp only [isDigit, Bool.and_eq_true, decide_eq_true_eq, List.mem_cons, List.not_mem_nil,
    or_false, UInt8.le_iff_toNat_le, ← UInt8.toNat_inj, UInt8.reduceToNat]
  omega

def Apart (octets others : Octets) : Prop := ∀ b ∈ octets, b ∉ others

instance (octets others : Octets) : Decidable (Apart octets others) := List.decidableBAll _ _

def Avoids (octets text : Octets) : Prop := ∀ b ∈ text.head?, b ∉ octets

theorem avoids_cons {octets text : Octets} {b : UInt8} (h : b ∉ octets) :
    Avoids octets (b :: text) := by
  intro first hfirst
  cases hfirst
  exact h

theorem Avoids.mono {fewer more text : Octets} (h : Avoids more text) (hsub : fewer ⊆ more) :
    Avoids fewer text :=
  fun b hb hmem => h b hb (hsub hmem)

abbrev EndsNumeral (rest : Octets) : Prop := Avoids (ascii "0123456789.eE") rest

theorem run_append {inClass : UInt8 → Bool} {octets run rest : Octets}
    (hclass : ∀ {b}, inClass b = true ↔ b ∈ octets) (hrun : ∀ b ∈ run, b ∈ octets)
    (hrest : Avoids octets rest) :
    (run ++ rest).takeWhile inClass = run ∧ (run ++ rest).dropWhile inClass = rest := by
  have hall : ∀ b ∈ run, inClass b = true := fun b hb => hclass.mpr (hrun b hb)
  have hstop : rest.takeWhile inClass = [] ∧ rest.dropWhile inClass = rest := by
    cases rest with
    | nil => exact ⟨rfl, rfl⟩
    | cons b rest =>
      have hb : inClass b = false := Bool.eq_false_iff.mpr fun hin => hrest b rfl (hclass.mp hin)
      simp [hb]
  rw [List.takeWhile_append_of_pos hall, List.dropWhile_append_of_pos hall, hstop.1, hstop.2,
    List.append_nil]
  exact ⟨rfl, rfl⟩

theorem mem_of_mem_takeWhile {inClass : UInt8 → Bool} {octets text : Octets}
    (hclass : ∀ {b}, inClass b = true ↔ b ∈ octets) {b : UInt8} (h : b ∈ text.takeWhile inClass) :
    b ∈ octets :=
  hclass.mp (List.all_eq_true.mp List.all_takeWhile b h)

theorem digits_of_digitRow {missing : Fault} {text row rest : Octets}
    (h : digitRow missing text = .ok (row, rest)) : Digits row ∧ text = row ++ rest := by
  rw [digitRow] at h
  split at h
  · cases h
  · next hne =>
    cases h
    have hdigits := fun b (hb : b ∈ text.takeWhile isDigit) => mem_of_mem_takeWhile isDigit_iff hb
    exact ⟨⟨hne, hdigits⟩, List.takeWhile_append_dropWhile.symm⟩

theorem digitRow_append {row rest : Octets} (h : Digits row)
    (hrest : Avoids (ascii "0123456789") rest) (missing : Fault) :
    digitRow missing (row ++ rest) = .ok (row, rest) := by
  obtain ⟨hne, hdigits⟩ := h
  obtain ⟨htake, hdrop⟩ := run_append isDigit_iff hdigits hrest
  rw [digitRow, htake, hdrop, if_neg hne]

theorem avoids_of_digits {row : Octets} (h : Digits row) {octets : Octets}
    (hother : Apart (ascii "0123456789") octets) (rest : Octets) :
    Avoids octets (row ++ rest) := by
  obtain ⟨hne, hdigits⟩ := h
  cases row with
  | nil => exact absurd rfl hne
  | cons b row => exact avoids_cons (hother b (hdigits b List.mem_cons_self))

theorem sign_of_minus (text : Octets) :
    ∃ sign, Sign sign (minus text).1 ∧ text = sign ++ (minus text).2 := by
  cases text with
  | nil => exact ⟨[], .plus, rfl⟩
  | cons b rest =>
    rw [minus]
    split
    · next hb =>
      rw [hb]
      exact ⟨ascii "-", .minus, rfl⟩
    · exact ⟨[], .plus, rfl⟩

theorem minus_append {sign rest : Octets} {negative : Bool} (h : Sign sign negative)
    (hrest : Avoids (ascii "-") rest) : minus (sign ++ rest) = (negative, rest) := by
  cases h with
  | minus => rfl
  | plus =>
    cases rest with
    | nil => rfl
    | cons b rest =>
      have hb : b ≠ Octets.hyphen := fun heq => hrest b rfl (heq ▸ List.mem_singleton_self _)
      rw [List.nil_append, minus, if_neg hb]

theorem whole_of_wholePart {text whole rest : Octets}
    (h : wholePart text = .ok (whole, rest)) : Whole whole ∧ text = whole ++ rest := by
  cases text with
  | nil => cases h
  | cons b text =>
    rw [wholePart] at h
    split at h
    · next hb =>
      cases h
      rw [hb]
      exact ⟨.zero, rfl⟩
    · next hb =>
      obtain ⟨hdigits, heq⟩ := digits_of_digitRow h
      refine ⟨.row hdigits ?_, heq⟩
      cases whole with
      | nil => exact absurd rfl hdigits.1
      | cons first whole =>
        obtain ⟨rfl, -⟩ := List.cons.inj heq
        intro hzero
        exact hb (Option.some.inj hzero)

theorem wholePart_append {whole rest : Octets} (h : Whole whole)
    (hrest : Avoids (ascii "0123456789") rest) :
    wholePart (whole ++ rest) = .ok (whole, rest) := by
  cases h with
  | zero => rfl
  | row hdigits hfirst =>
    cases whole with
    | nil => exact absurd rfl hdigits.1
    | cons b whole =>
      have hb : b ≠ 48 := fun heq => hfirst (by rw [heq]; rfl)
      rw [List.cons_append, wholePart, if_neg hb]
      exact digitRow_append hdigits hrest _

theorem fraction_of_fractionPart {text digits rest : Octets}
    (h : fractionPart text = .ok (digits, rest)) :
    ∃ fraction, Fraction fraction digits ∧ text = fraction ++ rest := by
  cases text with
  | nil =>
    cases h
    exact ⟨[], .none, rfl⟩
  | cons b text =>
    rw [fractionPart] at h
    split at h
    · next hb =>
      obtain ⟨hdigits, rfl⟩ := digits_of_digitRow h
      rw [hb]
      exact ⟨_, .some hdigits, rfl⟩
    · cases h
      exact ⟨[], .none, rfl⟩

theorem fractionPart_append {fraction digits rest : Octets} (h : Fraction fraction digits)
    (hrest : Avoids (ascii "0123456789.") rest) :
    fractionPart (fraction ++ rest) = .ok (digits, rest) := by
  cases h with
  | none =>
    cases rest with
    | nil => rfl
    | cons b rest =>
      have hb : b ≠ 46 := fun heq => hrest b rfl (by rw [heq]; decide)
      rw [List.nil_append, fractionPart, if_neg hb]
  | some hdigits =>
    exact digitRow_append hdigits (hrest.mono (by decide)) _

theorem sign_of_exponentSign (text : Octets) :
    ∃ sign, ExponentSign sign (exponentSign text).1 ∧ text = sign ++ (exponentSign text).2 := by
  cases text with
  | nil => exact ⟨[], .none, rfl⟩
  | cons b rest =>
    rw [exponentSign]
    split
    · next hb =>
      rw [hb]
      exact ⟨ascii "+", .plus, rfl⟩
    · obtain ⟨sign, hsign, heq⟩ := sign_of_minus (b :: rest)
      refine ⟨sign, ?_, heq⟩
      generalize (minus (b :: rest)).1 = negative at hsign
      cases hsign with
      | plus => exact .none
      | minus => exact .minus

theorem exponentSign_append {sign rest : Octets} {negative : Bool}
    (h : ExponentSign sign negative) (hrest : Avoids (ascii "+-") rest) :
    exponentSign (sign ++ rest) = (negative, rest) := by
  cases h with
  | plus => rfl
  | minus => rfl
  | none =>
    cases rest with
    | nil => rfl
    | cons b rest =>
      have hb : b ≠ 43 := fun heq => hrest b rfl (by rw [heq]; decide)
      rw [List.nil_append, exponentSign, if_neg hb]
      exact minus_append .plus (hrest.mono (by decide))

theorem letter_iff {b : UInt8} : b = 101 ∨ b = 69 ↔ b ∈ ascii "eE" := by
  have hletters : ascii "eE" = [101, 69] := by decide
  simp [hletters]

theorem exponent_of_exponentPart {text rest : Octets} {size : Int}
    (h : exponentPart text = .ok (size, rest)) :
    ∃ exponent, Exponent exponent size ∧ text = exponent ++ rest := by
  cases text with
  | nil =>
    cases h
    exact ⟨[], .none, rfl⟩
  | cons letter text =>
    rw [exponentPart] at h
    split at h
    · next hletter =>
      split at h
      · cases h
      · next digits others hrow =>
        cases h
        obtain ⟨hdigits, heq⟩ := digits_of_digitRow hrow
        obtain ⟨sign, hsign, htext⟩ := sign_of_exponentSign text
        refine ⟨_, .some (letter_iff.mp hletter) hsign hdigits, ?_⟩
        rw [List.cons_append, List.append_assoc, ← heq, ← htext]
    · cases h
      exact ⟨[], .none, rfl⟩

theorem exponentPart_append {exponent rest : Octets} {size : Int} (h : Exponent exponent size)
    (hrest : EndsNumeral rest) : exponentPart (exponent ++ rest) = .ok (size, rest) := by
  cases h with
  | none =>
    cases rest with
    | nil => rfl
    | cons b rest =>
      have hb : ¬ (b = 101 ∨ b = 69) := by
        intro hletter
        refine hrest b rfl ?_
        rcases hletter with rfl | rfl <;> decide
      rw [List.nil_append, exponentPart, if_neg hb]
  | some hletter hsign hdigits =>
    have htail : Avoids (ascii "+-") _ := avoids_of_digits hdigits (by decide) rest
    have hdigitsEnd : Avoids (ascii "0123456789") rest := hrest.mono (by decide)
    rw [List.cons_append, exponentPart, if_pos (letter_iff.mpr hletter), List.append_assoc,
      exponentSign_append hsign htail]
    dsimp only
    rw [digitRow_append hdigits hdigitsEnd]

theorem numeral_sound {text rest : Octets} {decimal : Binary64.Decimal}
    (h : numeral text = .ok (decimal, rest)) :
    ∃ used, Numeral used decimal ∧ text = used ++ rest := by
  rw [numeral] at h
  split at h
  · cases h
  · next whole afterWhole hwhole =>
    split at h
    · cases h
    · next digits afterFraction hfraction =>
      split at h
      · cases h
      · next size rest' hexponent =>
        cases h
        obtain ⟨sign, hs, hsign⟩ := sign_of_minus text
        obtain ⟨hw, heqWhole⟩ := whole_of_wholePart hwhole
        obtain ⟨fraction, hf, rfl⟩ := fraction_of_fractionPart hfraction
        obtain ⟨exponent, he, rfl⟩ := exponent_of_exponentPart hexponent
        refine ⟨_, .mk hs hw hf he, ?_⟩
        rw [List.append_assoc, List.append_assoc, List.append_assoc, ← heqWhole]
        exact hsign

theorem avoids_of_exponent {exponent rest : Octets} {size : Int} (h : Exponent exponent size)
    (hrest : EndsNumeral rest) : Avoids (ascii "0123456789.") (exponent ++ rest) := by
  cases h with
  | none => exact hrest.mono (by decide)
  | some hletter hsign hdigits =>
    refine avoids_cons ?_
    rcases letter_iff.mpr hletter with rfl | rfl <;> decide

theorem avoids_of_fraction {fraction digits rest : Octets} (h : Fraction fraction digits)
    (hrest : Avoids (ascii "0123456789.") rest) :
    Avoids (ascii "0123456789") (fraction ++ rest) := by
  cases h with
  | none => exact hrest.mono (by decide)
  | some hdigits => exact avoids_cons (by decide)

theorem avoids_of_whole {whole : Octets} (h : Whole whole) (rest : Octets) :
    Avoids (ascii "-") (whole ++ rest) := by
  cases h with
  | zero => exact avoids_cons (by decide)
  | row hdigits hfirst => exact avoids_of_digits hdigits (by decide) rest

/-- A numeral is read whole if nothing after it could go on with it. -/
theorem numeral_complete {used rest : Octets} {decimal : Binary64.Decimal}
    (h : Numeral used decimal) (hrest : EndsNumeral rest) :
    numeral (used ++ rest) = .ok (decimal, rest) := by
  cases h with
  | @mk sign whole fraction exponent digits negative size hsign hwhole hfraction hexponent =>
    have hafterFraction := avoids_of_exponent hexponent hrest
    have hafterWhole := avoids_of_fraction hfraction hafterFraction
    have hafterSign := avoids_of_whole hwhole (fraction ++ (exponent ++ rest))
    have hminus := minus_append hsign hafterSign
    rw [numeral]
    simp only [List.append_assoc]
    rw [hminus]
    dsimp only
    rw [wholePart_append hwhole hafterWhole]
    dsimp only
    rw [fractionPart_append hfraction hafterFraction]
    dsimp only
    rw [exponentPart_append hexponent hrest]

theorem numberReader_sound {text rest : Octets} {x : Binary64}
    (h : numberReader.read text = .ok (x, rest)) :
    ∃ used decimal, Numeral used decimal ∧ Binary64.ofDecimal? decimal = some x ∧
      text = used ++ rest := by
  simp only [numberReader] at h
  split at h
  · cases h
  · next decimal rest' hnumeral =>
    split at h
    · next x' hx =>
      cases h
      obtain ⟨used, hused, heq⟩ := numeral_sound hnumeral
      exact ⟨used, decimal, hused, hx, heq⟩
    · cases h

theorem numberReader_complete {used rest : Octets} {decimal : Binary64.Decimal} {x : Binary64}
    (h : Numeral used decimal) (hx : Binary64.ofDecimal? decimal = some x)
    (hrest : EndsNumeral rest) : numberReader.read (used ++ rest) = .ok (x, rest) := by
  simp only [numberReader, numeral_complete h hrest, hx]

end DetectorCache.Json
