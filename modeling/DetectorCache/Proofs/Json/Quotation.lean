import DetectorCache.Proofs.Json.Acceptance

set_option autoImplicit false

namespace DetectorCache.Json

open Octets (ascii)
open Grammar (HexDigit Unit Units Quoted Value Document)

theorem hexDigit_hexDigit {n : Nat} (h : n < 16) : HexDigit (hexDigit n) n := by
  rw [hexDigit]
  split
  · next hdecimal => exact .decimal hdecimal
  · next hletter =>
    obtain ⟨m, rfl⟩ := Nat.exists_eq_add_of_le (Nat.not_lt.mp hletter)
    rw [← Nat.add_assoc]
    exact .lower (by omega)

theorem encode_toNat {b : UInt8} (h : b.toNat < 128) : Octets.encode b.toNat = [b] := by
  rw [Octets.encode, if_pos h, Nat.toUInt8_eq, UInt8.ofNat_toNat]

theorem unit_codePoint {b : UInt8} (h : b < 32) :
    Unit (ascii "\\u00" ++ [hexDigit (b.toNat / 16), hexDigit (b.toNat % 16)]) [b] := by
  have hlt : b.toNat < 32 := UInt8.lt_iff_toNat_lt.mp h
  have hzero : HexDigit (48 + 0).toUInt8 0 := .decimal (by decide)
  have hhigh := hexDigit_hexDigit (n := b.toNat / 16) (by omega)
  have hlow := hexDigit_hexDigit (Nat.mod_lt b.toNat (by decide : 0 < 16))
  have hvalue : 16 * (16 * (16 * 0 + 0) + b.toNat / 16) + b.toNat % 16 = b.toNat := by omega
  have hscalar : Octets.IsScalar b.toNat := Or.inl (by omega)
  have hunit := Unit.codePoint hzero hzero hhigh hlow (hvalue.symm ▸ hscalar)
  rw [hvalue, encode_toNat (by omega)] at hunit
  exact hunit

theorem unit_escapeOctet (b : UInt8) : Unit (escapeOctet b) [b] := by
  rw [escapeOctet]
  split
  · next hb => rw [hb]; exact @Unit.short 34 _ (by decide)
  · next hquote =>
    split
    · next hb => rw [hb]; exact @Unit.short 92 _ (by decide)
    · next hbackslash =>
      repeat' split
      · next hb => rw [hb]; exact @Unit.short 98 _ (by decide)
      · next hb => rw [hb]; exact @Unit.short 102 _ (by decide)
      · next hb => rw [hb]; exact @Unit.short 110 _ (by decide)
      · next hb => rw [hb]; exact @Unit.short 114 _ (by decide)
      · next hb => rw [hb]; exact @Unit.short 116 _ (by decide)
      · next hcontrol => exact unit_codePoint hcontrol
      · next hprinted => exact .plain (UInt8.not_lt.mp hprinted) hquote hbackslash

theorem units_escape (text : Octets) : Units (escape text) text := by
  induction text with
  | nil => exact .nil
  | cons b text ih => exact .cons (unit_escapeOctet b) ih

theorem quoted_quote (text : Octets) : Quoted (quote text) text := .mk (units_escape text)

theorem parse_of_quoted {text value : Octets} (h : Quoted text value) :
    parse text = .ok (.string value) := by
  have hvalue : Value 64 text (.string value) := .string h
  have hdocument := @Document.mk [] text [] _ nofun hvalue nofun
  rw [List.nil_append, List.append_nil] at hdocument
  exact parse_of_document hdocument

theorem printed_of_quoted {text value : Octets} (h : Quoted text value) :
    ∀ b ∈ text, 32 ≤ b := by
  obtain ⟨hunits⟩ := h
  have hmark : IsPrinted (ascii "\"") := by decide
  intro b hb
  rcases List.mem_append.mp hb with hfront | hend
  · rcases List.mem_append.mp hfront with hstart | hbody
    · exact (hmark b hstart).1
    · exact printed_of_units hunits b hbody
  · exact (hmark b hend).1

/-- Any octets can be quoted and are read back as they were; so different texts are quoted
differently, and a quoted text holds no control character. -/
theorem parse_quote_exact (text : Octets) :
    parse (quote text) = .ok (.string text) ∧ (∀ other, quote other = quote text ↔ other = text) ∧
      ∀ b ∈ quote text, 32 ≤ b := by
  have hread := parse_of_quoted (quoted_quote text)
  have hprinted := printed_of_quoted (quoted_quote text)
  refine ⟨hread, fun other => ⟨fun heq => ?_, congrArg quote⟩, hprinted⟩
  have hother := parse_of_quoted (quoted_quote other)
  rw [heq, hread] at hother
  cases hother
  rfl

/-- A control character without a letter, a line feed, a quotation mark, a backslash, the delete
character and an octet that no UTF-8 text holds. -/
example : quote [0, 10, 34, 92, 127, 255] =
    ascii "\"\\u0000\\n\\\"\\\\" ++ [127, 255] ++ ascii "\"" := by decide

end DetectorCache.Json
