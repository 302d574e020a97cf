import DetectorCache.Json.Quoted
import DetectorCache.Proofs.Json.Grammar

set_option autoImplicit false

namespace DetectorCache.Json

open Octets (ascii)
open Grammar (HexDigit Unit Units Quoted shortEscapes)

theorem shortEscape?_eq_some_iff {letter b : UInt8} :
    shortEscape? letter = some b ↔ (letter, b) ∈ shortEscapes := by
  have hescapes : shortEscapes = [(34, 34), (92, 92), (47, 47), (98, 8), (102, 12), (110, 10),
      (114, 13), (116, 9)] := by decide
  rw [hescapes]
  constructor
  · intro h
    rw [shortEscape?] at h
    repeat' split at h
    all_goals cases h
    · next hself => rcases hself with rfl | rfl | rfl <;> simp
    all_goals next hletter => simp [hletter]
  · intro h
    simp only [List.mem_cons, List.not_mem_nil, or_false, Prod.mk.injEq] at h
    rcases h with ⟨rfl, rfl⟩ | ⟨rfl, rfl⟩ | ⟨rfl, rfl⟩ | ⟨rfl, rfl⟩ | ⟨rfl, rfl⟩ | ⟨rfl, rfl⟩ |
      ⟨rfl, rfl⟩ | ⟨rfl, rfl⟩ <;> rfl

theorem hexDigit_iff_toNat {b : UInt8} {n : Nat} :
    HexDigit b n ↔
      (n < 10 ∧ b.toNat = 48 + n) ∨ (10 ≤ n ∧ n < 16 ∧ (b.toNat = 87 + n ∨ b.toNat = 55 + n)) := by
  have hback : ∀ m, b.toNat = m → b = m.toUInt8 := by
    rintro _ rfl
    exact (UInt8.ofNat_toNat).symm
  constructor
  · intro h
    cases h <;> simp only [Nat.toUInt8_eq, UInt8.toNat_ofNat'] <;> omega
  · rintro (⟨hlt, hb⟩ | ⟨hle, hlt, hb⟩)
    · rw [hback _ hb]
      exact .decimal hlt
    · obtain ⟨m, rfl⟩ := Nat.exists_eq_add_of_le hle
      have hm : m < 6 := by omega
      rcases hb with hb | hb
      · rw [hback (97 + m) (by omega)]
        exact .lower hm
      · rw [hback (65 + m) (by omega)]
        exact .upper hm

theorem hexValue?_eq_some_iff {b : UInt8} {n : Nat} :
    Octets.hexValue? b = some n ↔ HexDigit b n := by
  rw [hexDigit_iff_toNat]
  simp only [Octets.hexValue?, UInt8.le_iff_toNat_le, UInt8.reduceToNat]
  constructor
  · intro h
    repeat' split at h
    all_goals cases h
    all_goals omega
  · intro h
    repeat' split
    all_goals simp only [Option.some.injEq, reduceCtorEq]
    all_goals omega

theorem hexDigits_step {count value : Nat} {text : Octets} {r : Nat × Octets}
    (h : hexDigits (count + 1) value text = .ok r) :
    ∃ b n rest, HexDigit b n ∧ text = b :: rest ∧
      hexDigits count (16 * value + n) rest = .ok r := by
  cases text with
  | nil => cases h
  | cons b rest =>
    rw [hexDigits] at h
    split at h
    · cases h
    · next n hn => exact ⟨b, n, rest, hexValue?_eq_some_iff.mp hn, rfl, h⟩

theorem hexDigits_cons {b : UInt8} {n : Nat} (h : HexDigit b n) (count value : Nat)
    (text : Octets) :
    hexDigits (count + 1) value (b :: text) = hexDigits count (16 * value + n) text := by
  rw [hexDigits, hexValue?_eq_some_iff.mpr h]

theorem lt_of_hexDigit {b : UInt8} {n : Nat} (h : HexDigit b n) : n < 16 := by
  cases h <;> omega

theorem isScalar_iff_of_lt {value : Nat} (h : value < 0x10000) :
    Octets.IsScalar value ↔ ¬ (0xD800 ≤ value ∧ value ≤ 0xDFFF) := by
  unfold Octets.IsScalar
  omega

theorem codePoint_sound {text octets rest : Octets} (h : codePoint text = .ok (octets, rest)) :
    ∃ digits, Unit (ascii "\\u" ++ digits) octets ∧ text = digits ++ rest := by
  rw [codePoint] at h
  split at h
  · cases h
  · next value rest' hdigits =>
    split at h
    · cases h
    · next hsurrogate =>
      cases h
      obtain ⟨a, i, _, ha, rfl, hthree⟩ := hexDigits_step hdigits
      obtain ⟨b, j, _, hb, rfl, htwo⟩ := hexDigits_step hthree
      obtain ⟨c, k, _, hc, rfl, hone⟩ := hexDigits_step htwo
      obtain ⟨d, l, _, hd, rfl, hnone⟩ := hexDigits_step hone
      cases hnone
      have hi := lt_of_hexDigit ha
      have hj := lt_of_hexDigit hb
      have hk := lt_of_hexDigit hc
      have hl := lt_of_hexDigit hd
      have hscalar := (isScalar_iff_of_lt (by omega)).mpr hsurrogate
      rw [Nat.mul_zero, Nat.zero_add] at hscalar ⊢
      exact ⟨[a, b, c, d], .codePoint ha hb hc hd hscalar, rfl⟩

theorem codePoint_complete {a b c d : UInt8} {i j k l : Nat} (ha : HexDigit a i)
    (hb : HexDigit b j) (hc : HexDigit c k) (hd : HexDigit d l)
    (hscalar : Octets.IsScalar (16 * (16 * (16 * i + j) + k) + l)) (rest : Octets) :
    codePoint (a :: b :: c :: d :: rest) =
      .ok (Octets.encode (16 * (16 * (16 * i + j) + k) + l), rest) := by
  have hi := lt_of_hexDigit ha
  have hj := lt_of_hexDigit hb
  have hk := lt_of_hexDigit hc
  have hl := lt_of_hexDigit hd
  have hsurrogate := (isScalar_iff_of_lt (by omega)).mp hscalar
  rw [codePoint, hexDigits_cons ha, hexDigits_cons hb, hexDigits_cons hc, hexDigits_cons hd,
    hexDigits, Nat.mul_zero, Nat.zero_add]
  exact if_neg hsurrogate

theorem escapeSequence_sound {text octets rest : Octets}
    (h : escapeSequence text = .ok (octets, rest)) :
    ∃ escape, Unit (ascii "\\" ++ escape) octets ∧ text = escape ++ rest := by
  cases text with
  | nil => cases h
  | cons letter text =>
    rw [escapeSequence] at h
    split at h
    · next hletter =>
      obtain ⟨digits, hunit, rfl⟩ := codePoint_sound h
      rw [hletter]
      exact ⟨117 :: digits, hunit, rfl⟩
    · split at h
      · next b hshort =>
        cases h
        exact ⟨[letter], .short (shortEscape?_eq_some_iff.mp hshort), rfl⟩
      · cases h

theorem stringUnit_sound {text octets rest : Octets}
    (h : stringUnit text = .ok (some octets, rest)) :
    ∃ unit, Unit unit octets ∧ text = unit ++ rest := by
  cases text with
  | nil => cases h
  | cons b text =>
    rw [stringUnit] at h
    split at h
    · cases h
    · next hquote =>
      split at h
      · cases h
      · next hprinted =>
        split at h
        · next hbackslash =>
          split at h
          · cases h
          · next octets' rest' hescape =>
            cases h
            obtain ⟨escape, hunit, rfl⟩ := escapeSequence_sound hescape
            rw [hbackslash]
            exact ⟨_, hunit, rfl⟩
        · next hbackslash =>
          cases h
          exact ⟨[b], .plain (UInt8.not_lt.mp hprinted) hquote hbackslash, rfl⟩

theorem stringUnit_complete {unit octets : Octets} (h : Unit unit octets) (rest : Octets) :
    stringUnit (unit ++ rest) = .ok (some octets, rest) := by
  cases h with
  | plain hprinted hquote hbackslash =>
    rw [List.singleton_append, stringUnit, if_neg hquote, if_neg (UInt8.not_lt.mpr hprinted),
      if_neg hbackslash]
  | @short letter b hshort =>
    have hletter : letter ≠ 117 := by
      rintro rfl
      cases shortEscape?_eq_some_iff.mpr hshort
    have hescape : escapeSequence (letter :: rest) = .ok ([b], rest) := by
      rw [escapeSequence, if_neg hletter, shortEscape?_eq_some_iff.mpr hshort]
    have hunit : stringUnit (92 :: letter :: rest) = .ok (some [b], rest) := by
      rw [stringUnit, if_neg (by decide), if_neg (by decide), if_pos rfl, hescape]
    exact hunit
  | @codePoint a b c d i j k l ha hb hc hd hscalar =>
    have hunit : stringUnit (92 :: 117 :: a :: b :: c :: d :: rest) =
        .ok (some (Octets.encode (16 * (16 * (16 * i + j) + k) + l)), rest) := by
      rw [stringUnit, if_neg (by decide), if_neg (by decide), if_pos rfl, escapeSequence,
        if_pos rfl, codePoint_complete ha hb hc hd hscalar]
    exact hunit

theorem eq_quotationMark_of_stringUnit {text rest : Octets}
    (h : stringUnit text = .ok (none, rest)) : text = Octets.quotationMark :: rest := by
  cases text with
  | nil => cases h
  | cons b text =>
    rw [stringUnit] at h
    split at h
    · next hquote =>
      cases h
      rw [hquote]
    · repeat' split at h
      all_goals cases h

theorem stringBody_sound {text value rest : Octets} (h : stringBody text = .ok (value, rest)) :
    ∃ units, Units units value ∧ text = units ++ Octets.quotationMark :: rest := by
  fun_induction stringBody text generalizing value rest with
  | case1 | case3 => cases h
  | case2 text rest' hunit =>
    cases h
    exact ⟨[], .nil, eq_quotationMark_of_stringUnit hunit⟩
  | case4 text octets rest' hunit others rest'' hbody ih =>
    cases h
    obtain ⟨units, hunits, rfl⟩ := ih hbody
    obtain ⟨unit, hfirst, rfl⟩ := stringUnit_sound hunit
    exact ⟨unit ++ units, .cons hfirst hunits, (List.append_assoc ..).symm⟩

theorem stringBody_complete {units value : Octets} (h : Units units value) (rest : Octets) :
    stringBody (units ++ Octets.quotationMark :: rest) = .ok (value, rest) := by
  induction h with
  | nil =>
    have hend : stringUnit (Octets.quotationMark :: rest) = .ok (none, rest) := rfl
    rw [List.nil_append, stringBody, hend]
  | cons hunit _ ih =>
    rw [List.append_assoc, stringBody, stringUnit_complete hunit]
    dsimp only
    rw [ih]

theorem stringReader_sound {text value rest : Octets}
    (h : stringReader.read text = .ok (value, rest)) :
    ∃ used, Quoted used value ∧ text = used ++ rest := by
  cases text with
  | nil => cases h
  | cons b text =>
    simp only [stringReader] at h
    split at h
    · next hquote =>
      obtain ⟨units, hunits, rfl⟩ := stringBody_sound h
      refine ⟨_, .mk hunits, ?_⟩
      rw [hquote, List.append_assoc]
      rfl
    · cases h

theorem stringReader_complete {used value : Octets} (h : Quoted used value) (rest : Octets) :
    stringReader.read (used ++ rest) = .ok (value, rest) := by
  obtain ⟨hunits⟩ := h
  rw [List.append_assoc, List.append_assoc]
  exact stringBody_complete hunits rest

theorem ascii_of_hexDigit {b : UInt8} {n : Nat} (h : HexDigit b n) : 32 ≤ b ∧ b < 128 := by
  have hdigit := hexDigit_iff_toNat.mp h
  simp only [UInt8.le_iff_toNat_le, UInt8.lt_iff_toNat_lt, UInt8.reduceToNat]
  omega

def IsPrinted (text : Octets) : Prop := ∀ b ∈ text, 32 ≤ b ∧ b < 128

instance (text : Octets) : Decidable (IsPrinted text) := List.decidableBAll _ _

/-- A unit is a printed octet that stands for itself, or an escape. Escapes are printed ASCII
characters and stand for characters in UTF-8. -/
theorem plain_or_escape {unit octets : Octets} (h : Unit unit octets) :
    (∃ b, 32 ≤ b ∧ unit = [b] ∧ octets = [b]) ∨
      (unit ≠ [] ∧ IsPrinted unit ∧ Octets.IsUtf8 octets) := by
  cases h with
  | @plain b hprinted => exact Or.inl ⟨b, hprinted, rfl, rfl⟩
  | @short letter b hshort =>
    have hletters : shortEscapes.all fun e => decide (IsPrinted (ascii "\\" ++ [e.1]) ∧
        Octets.IsScalar e.2.toNat ∧ Octets.encode e.2.toNat = [e.2]) := by
      decide
    obtain ⟨hascii, hscalar, hencode⟩ :=
      of_decide_eq_true (List.all_eq_true.mp hletters _ hshort)
    refine Or.inr ⟨List.append_ne_nil_of_right_ne_nil _ (by simp), hascii, ?_⟩
    exact hencode ▸ Octets.isUtf8_encode hscalar
  | codePoint ha hb hc hd hscalar =>
    have hintro : IsPrinted (ascii "\\u") := by decide
    refine Or.inr ⟨List.append_ne_nil_of_right_ne_nil _ (by simp), fun b hmem => ?_,
      Octets.isUtf8_encode hscalar⟩
    rcases List.mem_append.mp hmem with hfront | hdigit
    · exact hintro b hfront
    · simp only [List.mem_cons, List.not_mem_nil, or_false] at hdigit
      rcases hdigit with rfl | rfl | rfl | rfl
      · exact ascii_of_hexDigit ha
      · exact ascii_of_hexDigit hb
      · exact ascii_of_hexDigit hc
      · exact ascii_of_hexDigit hd

theorem printed_of_units {text value : Octets} (h : Units text value) : ∀ b ∈ text, 32 ≤ b := by
  induction h with
  | nil => nofun
  | cons hunit _ ih =>
    intro b hb
    rcases List.mem_append.mp hb with hfirst | hrest
    · rcases plain_or_escape hunit with ⟨b', hprinted, rfl, -⟩ | ⟨-, hascii, -⟩
      · rw [List.mem_singleton.mp hfirst]
        exact hprinted
      · exact (hascii b hfirst).1
    · exact ih b hrest

end DetectorCache.Json
