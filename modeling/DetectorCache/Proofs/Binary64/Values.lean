import DetectorCache.Proofs.Binary64.Comparison
import Mathlib.Algebra.Order.Field.Rat
import Mathlib.Tactic.FieldSimp

set_option autoImplicit false

namespace DetectorCache

theorem twoTo_pos (n : Nat) : 0 < twoTo n := Nat.two_pow_pos n

theorem twoTo_add (m n : Nat) : twoTo (m + n) = twoTo m * twoTo n := Nat.pow_add 2 m n

theorem twoTo_succ (n : Nat) : twoTo (n + 1) = 2 * twoTo n := Nat.pow_succ'

theorem twoTo_le {m n : Nat} (h : m ≤ n) : twoTo m ≤ twoTo n := Nat.pow_le_pow_right (by decide) h

theorem twoTo_dvd {m n : Nat} (h : m ≤ n) : twoTo m ∣ twoTo n := Nat.pow_dvd_pow 2 h

theorem cast_twoTo (n : Nat) : (twoTo n : ℚ) = 2 ^ n := Nat.cast_pow 2 n

namespace Binary64

theorem magnitude_eq (x : Binary64) : x.magnitude = x.biasedExponent * twoTo 52 + x.fraction :=
  (Nat.div_add_mod' ..).symm

theorem fraction_lt (x : Binary64) : x.fraction < twoTo 52 := Nat.mod_lt _ (twoTo_pos 52)

theorem units_of_significand {x : Binary64} {exponent significand : Nat}
    (h : x.magnitude = exponent * twoTo 52 + significand) (hle : twoTo 52 ≤ significand)
    (hcarry : significand ≤ twoTo 53) : x.units = significand * twoTo exponent := by
  have hdouble : twoTo 53 = 2 * twoTo 52 := twoTo_succ 52
  have hpos := twoTo_pos 52
  obtain ⟨fraction, rfl⟩ := Nat.exists_eq_add_of_le hle
  rw [← Nat.add_assoc, ← Nat.succ_mul] at h
  rcases Nat.lt_or_ge fraction (twoTo 52) with hlt | hge
  · have hexponent : x.biasedExponent = exponent + 1 := by
      rw [biasedExponent, h, Nat.add_comm, Nat.add_mul_div_right _ _ hpos,
        Nat.div_eq_of_lt hlt, Nat.zero_add]
    have hfraction : x.fraction = fraction := by
      rw [Binary64.fraction, h, Nat.mul_add_mod', Nat.mod_eq_of_lt hlt]
    rw [units, hexponent, hfraction, if_neg (Nat.succ_ne_zero _), Nat.add_sub_cancel]
  · have hfull : fraction = twoTo 52 := by omega
    rw [hfull, ← Nat.succ_mul] at h
    have hexponent : x.biasedExponent = exponent + 1 + 1 := by
      rw [biasedExponent, h, Nat.mul_div_cancel _ hpos]
    have hfraction : x.fraction = 0 := by
      rw [Binary64.fraction, h, Nat.mul_mod_left]
    rw [units, hexponent, hfraction, hfull, if_neg (Nat.succ_ne_zero _), Nat.add_sub_cancel,
      Nat.add_zero, twoTo_succ exponent, ← Nat.two_mul, Nat.mul_left_comm, Nat.mul_assoc]

theorem units_of_normal {x : Binary64} {exponent : Nat} (h : x.biasedExponent = exponent + 1) :
    x.units = (twoTo 52 + x.fraction) * twoTo exponent := by
  rw [units, h, if_neg (Nat.succ_ne_zero _), Nat.add_sub_cancel]

theorem units_mem_binade {x : Binary64} {exponent : Nat} (h : x.biasedExponent = exponent + 1) :
    twoTo (52 + exponent) ≤ x.units ∧ x.units < twoTo (53 + exponent) := by
  have hfraction := x.fraction_lt
  have hdouble : twoTo 53 = 2 * twoTo 52 := twoTo_succ 52
  rw [units_of_normal h, twoTo_add, twoTo_add]
  exact ⟨Nat.mul_le_mul_right _ (by omega), Nat.mul_lt_mul_of_pos_right (by omega) (twoTo_pos _)⟩

theorem units_lt_of_exponent {x : Binary64} {exponent : Nat} (h : x.biasedExponent ≤ exponent) :
    x.units < twoTo (52 + exponent) := by
  cases hx : x.biasedExponent with
  | zero =>
    rw [units, if_pos hx]
    exact Nat.lt_of_lt_of_le x.fraction_lt (twoTo_le (Nat.le_add_right _ _))
  | succ below =>
    have hbinade := (units_mem_binade hx).2
    exact Nat.lt_of_lt_of_le hbinade (twoTo_le (by omega))

theorem units_lt_of_magnitude_lt {x y : Binary64} (h : x.magnitude < y.magnitude) :
    x.units < y.units := by
  have hle : x.biasedExponent ≤ y.biasedExponent := Nat.div_le_div_right (Nat.le_of_lt h)
  rcases Nat.lt_or_eq_of_le hle with hlt | heq
  · obtain ⟨below, hbelow⟩ := Nat.exists_eq_add_of_lt hlt
    have hy : y.biasedExponent = x.biasedExponent + below + 1 := hbelow
    have hx := units_lt_of_exponent (Nat.le_add_right x.biasedExponent below)
    exact Nat.lt_of_lt_of_le hx (units_mem_binade hy).1
  · rw [magnitude_eq, magnitude_eq y, heq] at h
    have hfraction : x.fraction < y.fraction := Nat.lt_of_add_lt_add_left h
    cases hy : y.biasedExponent with
    | zero =>
      rw [units, units, if_pos (heq.trans hy), if_pos hy]
      exact hfraction
    | succ below =>
      rw [units_of_normal hy, units_of_normal (heq.trans hy)]
      exact Nat.mul_lt_mul_of_pos_right (Nat.add_lt_add_left hfraction _) (twoTo_pos _)

theorem units_congr {x y : Binary64} (h : x.magnitude = y.magnitude) : x.units = y.units := by
  obtain ⟨_, magnitude, _⟩ := x
  obtain ⟨_, _, _⟩ := y
  cases h
  rfl

theorem units_lt_iff {x y : Binary64} : x.units < y.units ↔ x.magnitude < y.magnitude := by
  refine ⟨fun h => Nat.lt_of_not_le fun hle => ?_, units_lt_of_magnitude_lt⟩
  rcases Nat.lt_or_eq_of_le hle with hlt | heq
  · exact Nat.lt_asymm h (units_lt_of_magnitude_lt hlt)
  · exact Nat.ne_of_lt h (units_congr heq.symm)

/-- The number that a finite pattern stands for: a fraction of 52 bits, with a one before its point
except in subnormal numbers, times a power of two. -/
def toRat (x : Binary64) : ℚ :=
  let fraction : ℚ := x.fraction / 2 ^ 52
  let size : ℚ :=
    if x.biasedExponent = 0 then fraction * 2 ^ (-1022 : ℤ)
    else (1 + fraction) * 2 ^ ((x.biasedExponent : ℤ) - 1023)
  if x.negative then -size else size

def signedUnits (x : Binary64) : ℤ := if x.negative then -(x.units : ℤ) else x.units

theorem signedUnits_of_negative {x : Binary64} (h : x.negative = true) :
    x.signedUnits = -(x.units : ℤ) := if_pos h

theorem signedUnits_of_positive {x : Binary64} (h : x.negative = false) :
    x.signedUnits = x.units := if_neg (Bool.eq_false_iff.mp h)

theorem scale_eq : (twoTo 1074 : ℚ) = 2 ^ 52 * 2 ^ 1022 := by
  rw [cast_twoTo, ← pow_add]

theorem toRat_eq (x : Binary64) : x.toRat = x.signedUnits / twoTo 1074 := by
  have hsize : (if x.biasedExponent = 0 then (x.fraction / 2 ^ 52 : ℚ) * 2 ^ (-1022 : ℤ)
      else (1 + x.fraction / 2 ^ 52) * 2 ^ ((x.biasedExponent : ℤ) - 1023)) =
      x.units / twoTo 1074 := by
    rw [scale_eq]
    cases hexponent : x.biasedExponent with
    | zero =>
      rw [units, if_pos rfl, if_pos hexponent, zpow_neg, zpow_ofNat]
      field_simp
    | succ below =>
      have hshift : ((below + 1 : ℕ) : ℤ) - 1023 = below - (1022 : ℕ) := by omega
      have hunits : (x.units : ℚ) = (2 ^ 52 + x.fraction) * 2 ^ below := by
        rw [units_of_normal hexponent, Nat.cast_mul, Nat.cast_add, cast_twoTo, cast_twoTo]
      rw [if_neg (Nat.succ_ne_zero _), hshift, zpow_sub₀ two_ne_zero, zpow_natCast, zpow_natCast,
        hunits]
      field_simp
  rw [toRat, signedUnits]
  simp only [hsize]
  split
  · rw [Int.cast_neg, Int.cast_natCast, neg_div]
  · rw [Int.cast_natCast]

theorem units_zero : zero.units = 0 := rfl

theorem units_pos_iff {x : Binary64} : 0 < x.units ↔ 0 < x.magnitude := units_lt_iff (x := zero)

theorem signedUnits_lt_iff {x y : Binary64} : x.signedUnits < y.signedUnits ↔ x.rank < y.rank := by
  have hless := @units_lt_iff x y
  have hgreater := @units_lt_iff y x
  have hx := @units_pos_iff x
  have hy := @units_pos_iff y
  unfold signedUnits rank
  split <;> split <;> omega

theorem toRat_lt_iff {x y : Binary64} : x.toRat < y.toRat ↔ x.rank < y.rank := by
  have hscale : (0 : ℚ) < twoTo 1074 := Nat.cast_pos.mpr (twoTo_pos 1074)
  rw [toRat_eq, toRat_eq, div_lt_div_iff_of_pos_right hscale, Int.cast_lt, signedUnits_lt_iff]

theorem compare_rank (x y : Binary64) : compare x.rank y.rank = compare x.toRat y.toRat := by
  rcases lt_trichotomy x.rank y.rank with hlt | heq | hgt
  · rw [compare_lt_iff_lt.mpr hlt, compare_lt_iff_lt.mpr (toRat_lt_iff.mpr hlt)]
  · have hsame : x.toRat = y.toRat :=
      le_antisymm (not_lt.mp fun h => absurd (toRat_lt_iff.mp h) heq.not_gt)
        (not_lt.mp fun h => absurd (toRat_lt_iff.mp h) heq.not_lt)
    rw [compare_eq_iff_eq.mpr heq, compare_eq_iff_eq.mpr hsame]
  · rw [compare_gt_iff_gt.mpr hgt, compare_gt_iff_gt.mpr (toRat_lt_iff.mpr hgt)]

theorem isFinite_iff {x : Binary64} : x.IsFinite ↔ x.magnitude < infinity := by
  have hlt := x.biasedExponent_lt
  rw [infinity, ← Nat.div_lt_iff_lt_mul (twoTo_pos 52), ← biasedExponent, IsFinite]
  omega

theorem IsFinite.isNumber {x : Binary64} (h : x.IsFinite) : x.IsNumber :=
  Nat.le_of_lt (isFinite_iff.mp h)

section

variable {x y : Binary64} (hx : x.IsFinite) (hy : y.IsFinite)

include hx hy

theorem compare?_of_finite : compare? x y = some (compare x.toRat y.toRat) := by
  rw [compare?, if_pos ⟨hx.isNumber, hy.isNumber⟩, compare_rank]

theorem less_iff : x.less y = true ↔ x.toRat < y.toRat := by
  rw [less, compare?_of_finite hx hy, Option.any_some, Ordering.isLT_iff_eq_lt, compare_lt_iff_lt]

theorem equal_iff : x.equal y = true ↔ x.toRat = y.toRat := by
  rw [equal, compare?_of_finite hx hy, Option.any_some, Ordering.isEq_iff_eq_eq, compare_eq_iff_eq]

theorem atLeast_iff : x.atLeast y = true ↔ y.toRat ≤ x.toRat := by
  rw [atLeast, compare?_of_finite hx hy, Option.any_some, Ordering.isGE_iff_ne_lt,
    compare_lt_iff_lt, not_lt]

end

end Binary64

end DetectorCache
