/-!
Binary64 numbers by their bit patterns: a sign and 63 bits of magnitude, the upper eleven of which
are the biased exponent. Magnitudes are ordered like the numbers they stand for, so the pattern
after a finite magnitude is the next larger number. `toUnsigned?` reads the numbers that are
natural and fit in 64 bits.
-/
set_option autoImplicit false

namespace DetectorCache

def twoTo (n : Nat) : Nat := Nat.pow 2 n

structure Binary64 where
  negative : Bool
  magnitude : Nat
  magnitude_lt : magnitude < twoTo 63
  deriving DecidableEq

namespace Binary64

def toBits (x : Binary64) : Nat := (if x.negative then twoTo 63 else 0) + x.magnitude

/-- The exponent field. 0 marks subnormal numbers, 2047 infinities and what is no number. -/
def biasedExponent (x : Binary64) : Nat := x.magnitude / twoTo 52

def fraction (x : Binary64) : Nat := x.magnitude % twoTo 52

theorem biasedExponent_lt (x : Binary64) : x.biasedExponent < 2048 := by
  have h : x.magnitude < twoTo 52 * 2048 := x.magnitude_lt
  exact Nat.div_lt_of_lt_mul h

def IsFinite (x : Binary64) : Prop := x.biasedExponent ≠ 2047

instance (x : Binary64) : Decidable x.IsFinite := inferInstanceAs (Decidable (_ ≠ _))

/-- The magnitude in units of 2^-1074, the least positive number. Every finite magnitude is a whole
number of them. -/
def units (x : Binary64) : Nat :=
  if x.biasedExponent = 0 then x.fraction
  else (twoTo 52 + x.fraction) * twoTo (x.biasedExponent - 1)

/-- The natural number that `x` is, if it is one below 2^64. Negative zero is zero. A number from 1
up to 2^64 has a biased exponent from 1023 up to 1086, and its significand counts units of
2^(exponent - 1075). -/
def toUnsigned? (x : Binary64) : Option Nat :=
  if x.magnitude = 0 then some 0
  else if x.negative ∨ x.biasedExponent < 1023 ∨ 1087 ≤ x.biasedExponent then none
  else
    let significand := twoTo 52 + x.fraction
    if 1075 ≤ x.biasedExponent then some (significand * twoTo (x.biasedExponent - 1075))
    else
      let unit := twoTo (1075 - x.biasedExponent)
      if significand % unit = 0 then some (significand / unit) else none

theorem toUnsigned?_lt {x : Binary64} {n : Nat} (h : x.toUnsigned? = some n) : n < twoTo 64 := by
  have hsignificand : twoTo 52 + x.fraction < twoTo 53 :=
    Nat.add_lt_add_left (Nat.mod_lt x.magnitude (by decide)) (twoTo 52)
  simp only [toUnsigned?] at h
  split at h
  · rw [← Option.some.inj h]
    decide
  · split at h
    · cases h
    · split at h
      · have hshift : twoTo (x.biasedExponent - 1075) ≤ twoTo 11 :=
          Nat.pow_le_pow_right (by decide) (by omega)
        rw [← Option.some.inj h]
        calc (twoTo 52 + x.fraction) * twoTo (x.biasedExponent - 1075)
          _ < twoTo 53 * twoTo 11 := Nat.mul_lt_mul_of_lt_of_le hsignificand hshift (by decide)
          _ = twoTo 64 := rfl
      · split at h
        · rw [← Option.some.inj h]
          exact Nat.lt_of_le_of_lt (Nat.div_le_self _ _) (Nat.lt_trans hsignificand (by decide))
        · cases h

end Binary64

end DetectorCache
