import DetectorCache.Proofs.Octets.Lines
import Mathlib.Algebra.Group.Nat.Defs

set_option autoImplicit false

namespace DetectorCache.Octets

def digitValue (digit : UInt8) : Nat := digit.toNat - 48

theorem foldl_digits (digits : Octets) (start : Nat) :
    digits.foldl (fun n d => 10 * n + (d.toNat - 48)) start =
      start * 10 ^ digits.length + digitsValue digits := by
  induction digits generalizing start with
  | nil => simp [digitsValue]
  | cons d digits ih =>
    rw [digitsValue, List.foldl_cons, List.foldl_cons, ih, ih (10 * 0 + _), List.length_cons,
      Nat.pow_succ']
    simp only [Nat.add_mul, Nat.mul_zero, Nat.zero_add, Nat.add_assoc,
      Nat.mul_left_comm start, Nat.mul_assoc]

theorem digitsValue_append (digits others : Octets) :
    digitsValue (digits ++ others) =
      digitsValue digits * 10 ^ others.length + digitsValue others := by
  rw [digitsValue, List.foldl_append]
  exact foldl_digits others _

theorem digitsValue_cons (d : UInt8) (digits : Octets) :
    digitsValue (d :: digits) = digitValue d * 10 ^ digits.length + digitsValue digits := by
  have hsplit := digitsValue_append [d] digits
  have hfirst : digitsValue [d] = digitValue d := Nat.zero_add _
  rwa [hfirst] at hsplit

theorem digitsValue_zeros (count : Nat) : digitsValue (List.replicate count 48) = 0 := by
  induction count with
  | zero => rfl
  | succ count ih =>
    rw [List.replicate_succ, digitsValue_cons, ih]
    exact Nat.zero_mul _

theorem toNat_of_isDigit {b : UInt8} (h : isDigit b = true) :
    b.toNat = 48 + digitValue b ∧ digitValue b ≤ 9 := by
  simp only [isDigit, Bool.and_eq_true, decide_eq_true_eq, UInt8.le_iff_toNat_le,
    UInt8.reduceToNat] at h
  unfold digitValue
  omega

theorem digitsValue_lt {digits : Octets} (h : ∀ b ∈ digits, isDigit b = true) :
    digitsValue digits < 10 ^ digits.length := by
  induction digits with
  | nil => exact Nat.one_pos
  | cons d digits ih =>
    have hrest := ih fun b hb => h b (List.mem_cons_of_mem _ hb)
    have hd := toNat_of_isDigit (h d List.mem_cons_self)
    have hvalue : (digitValue d + 1) * 10 ^ digits.length ≤ 10 * 10 ^ digits.length :=
      Nat.mul_le_mul_right _ (Nat.succ_le_succ hd.2)
    rw [Nat.succ_mul] at hvalue
    rw [digitsValue_cons, List.length_cons, Nat.pow_succ']
    omega

/-- Rows of digits of one length are ordered as texts like the numbers they stand for. -/
theorem lt_of_digitsValue_lt {digits others : Octets} (hlength : digits.length = others.length)
    (hdigits : ∀ b ∈ digits, isDigit b = true) (hothers : ∀ b ∈ others, isDigit b = true)
    (h : digitsValue digits < digitsValue others) : digits < others := by
  induction digits generalizing others with
  | nil =>
    rw [List.length_eq_zero_iff.mp hlength.symm] at h
    exact absurd h (Nat.lt_irrefl _)
  | cons d digits ih =>
    cases others with
    | nil => cases hlength
    | cons e others =>
      obtain ⟨hd, hdigits⟩ := List.forall_mem_cons.mp hdigits
      obtain ⟨he, hothers⟩ := List.forall_mem_cons.mp hothers
      obtain ⟨hd, -⟩ := toNat_of_isDigit hd
      obtain ⟨he, -⟩ := toNat_of_isDigit he
      have hlength := Nat.succ.inj hlength
      have hbound := digitsValue_lt hothers
      rw [digitsValue_cons, digitsValue_cons, hlength] at h
      rw [List.cons_lt_cons_iff, UInt8.lt_iff_toNat_lt, ← UInt8.toNat_inj]
      rcases Nat.lt_trichotomy (digitValue d) (digitValue e) with hlt | heq | hgt
      · exact Or.inl (by omega)
      · refine Or.inr ⟨by omega, ih hlength hdigits hothers ?_⟩
        rw [heq] at h
        exact Nat.lt_of_add_lt_add_left h
      · -- a greater first digit outweighs all that can follow it
        have hfirst : (digitValue e + 1) * 10 ^ others.length ≤
            digitValue d * 10 ^ others.length := Nat.mul_le_mul_right _ hgt
        rw [Nat.succ_mul] at hfirst
        omega

theorem decimal_ne_nil (n : Nat) : decimal n ≠ [] := by
  rw [decimal, ne_eq, List.map_eq_nil_iff]
  exact Nat.toDigits_ne_nil

theorem decimal_of_lt {n : Nat} (h : n < 10) : decimal n = [(48 + n).toUInt8] := by
  have hall : ∀ m < 10, decimal m = [(48 + m).toUInt8] := by decide
  exact hall n h

theorem decimal_snoc {n d : Nat} (hn : 0 < n) (hd : d < 10) :
    decimal (10 * n + d) = decimal n ++ [(48 + d).toUInt8] := by
  rw [decimal, ← Nat.toDigits_append_toDigits (by decide) hn hd, List.map_append]
  exact congrArg (decimal n ++ ·) (decimal_of_lt hd)

theorem digitValue_toUInt8 {d : Nat} (h : d < 10) : digitValue (48 + d).toUInt8 = d := by
  simp only [digitValue, Nat.toUInt8_eq, UInt8.toNat_ofNat']
  omega

theorem digitsValue_decimal (n : Nat) : digitsValue (decimal n) = n := by
  induction n using Nat.strongRecOn with
  | ind n ih =>
    have hlast : n % 10 < 10 := Nat.mod_lt n (by decide)
    have hdigit : digitsValue [(48 + n % 10).toUInt8] = n % 10 := by
      rw [digitsValue_cons, digitValue_toUInt8 hlast]
      exact Nat.mul_one _
    by_cases hn : n < 10
    · rw [Nat.mod_eq_of_lt hn] at hdigit
      rw [decimal_of_lt hn, hdigit]
    · have hpos : 0 < n / 10 := Nat.div_pos (Nat.not_lt.mp hn) (by decide)
      have hfront := ih (n / 10) (by omega)
      have hsnoc := decimal_snoc hpos hlast
      rw [Nat.div_add_mod] at hsnoc
      rw [hsnoc, digitsValue_append, hfront, hdigit, List.length_singleton]
      omega

theorem head?_decimal {n : Nat} (h : 0 < n) : (decimal n).head? ≠ some 48 := by
  induction n using Nat.strongRecOn with
  | ind n ih =>
    by_cases hn : n < 10
    · have hall : ∀ m < 10, 0 < m → (decimal m).head? ≠ some 48 := by decide
      exact hall n hn h
    · have hpos : 0 < n / 10 := Nat.div_pos (Nat.not_lt.mp hn) (by decide)
      have hsnoc := decimal_snoc hpos (Nat.mod_lt n (by decide))
      rw [Nat.div_add_mod] at hsnoc
      have hfront := ih (n / 10) (by omega) hpos
      obtain ⟨d, digits, heq⟩ := List.exists_cons_of_ne_nil (decimal_ne_nil (n / 10))
      rw [hsnoc]
      rw [heq] at hfront ⊢
      exact hfront

theorem isDigit_of_mem_paddedDecimal {width n : Nat} {b : UInt8} (h : b ∈ paddedDecimal width n) :
    isDigit b = true := by
  rcases List.mem_append.mp h with hzero | hdigit
  · rw [List.eq_of_mem_replicate hzero]
    rfl
  · exact isDigit_of_mem_decimal hdigit

theorem digitsValue_paddedDecimal (width n : Nat) : digitsValue (paddedDecimal width n) = n := by
  rw [paddedDecimal, digitsValue_append, digitsValue_zeros, digitsValue_decimal, Nat.zero_mul,
    Nat.zero_add]

theorem length_paddedDecimal {width n : Nat} (hwidth : 0 < width) (h : n < 10 ^ width) :
    (paddedDecimal width n).length = width := by
  have hle : (decimal n).length ≤ width := by
    rw [decimal, List.length_map]
    exact (Nat.length_toDigits_le_iff (by decide) hwidth).mpr h
  rw [paddedDecimal, List.length_append, List.length_replicate]
  exact Nat.sub_add_cancel hle

theorem paddedDecimal_lt {width m n : Nat} (hwidth : 0 < width) (h : m < n)
    (hn : n < 10 ^ width) : paddedDecimal width m < paddedDecimal width n := by
  have hlength : (paddedDecimal width m).length = (paddedDecimal width n).length := by
    rw [length_paddedDecimal hwidth (Nat.lt_trans h hn), length_paddedDecimal hwidth hn]
  refine lt_of_digitsValue_lt hlength (fun _ => isDigit_of_mem_paddedDecimal)
    (fun _ => isDigit_of_mem_paddedDecimal) ?_
  rwa [digitsValue_paddedDecimal, digitsValue_paddedDecimal]

end DetectorCache.Octets
