import DetectorCache.Binary64.Rounding

set_option autoImplicit false

namespace DetectorCache.Binary64

/-- The place of a number in the order of all numbers. The two zeros share one place. -/
def rank (x : Binary64) : Int := if x.negative then -(x.magnitude : Int) else x.magnitude

def IsNumber (x : Binary64) : Prop := x.magnitude ≤ infinity

instance (x : Binary64) : Decidable x.IsNumber := inferInstanceAs (Decidable (_ ≤ _))

/-- How two numbers compare. What is no number compares with nothing. -/
def compare? (x y : Binary64) : Option Ordering :=
  if x.IsNumber ∧ y.IsNumber then some (compare x.rank y.rank) else none

def less (x y : Binary64) : Bool := (compare? x y).any Ordering.isLT

def equal (x y : Binary64) : Bool := (compare? x y).any Ordering.isEq

def atLeast (x y : Binary64) : Bool := (compare? x y).any Ordering.isGE

def zero : Binary64 := ⟨false, 0, Nat.two_pow_pos 63⟩

def oneMagnitude : Nat := 1023 * twoTo 52

/-- The steps from one magnitude to the next that make up 1, for numbers from 1 up to 2^53. Larger
numbers are all whole and take their steps by 1 or more. -/
def stepsToOne (x : Binary64) : Nat := twoTo (1075 - x.biasedExponent)

def wholeBelow (x : Binary64) : Nat :=
  if x.biasedExponent < 1023 then 0 else x.magnitude - x.magnitude % x.stepsToOne

def wholeAbove (x : Binary64) : Nat :=
  if x.wholeBelow = x.magnitude then x.magnitude
  else if x.biasedExponent < 1023 then oneMagnitude
  else x.wholeBelow + x.stepsToOne

theorem wholeBelow_le (x : Binary64) : x.wholeBelow ≤ x.magnitude := by
  rw [wholeBelow]
  split
  · exact Nat.zero_le _
  · exact Nat.sub_le _ _

theorem wholeAbove_lt {x : Binary64} {bound : Nat} (h : x.magnitude < bound)
    (hbound : 1076 * twoTo 52 ≤ bound) : x.wholeAbove < bound := by
  have hmagnitude : x.magnitude = x.biasedExponent * twoTo 52 + x.fraction :=
    (Nat.div_add_mod' ..).symm
  have hfraction : x.fraction < twoTo 52 := Nat.mod_lt _ (by decide)
  rw [wholeAbove]
  split
  · exact h
  · next hbroken =>
    split
    · exact Nat.lt_of_lt_of_le (by decide) hbound
    · next hlarge =>
      have hsteps : x.stepsToOne ≤ twoTo 52 := Nat.pow_le_pow_right (by decide) (by omega)
      have hexponent : x.biasedExponent < 1075 := by
        refine Nat.not_le.mp fun hwhole => hbroken ?_
        rw [wholeBelow, if_neg hlarge, stepsToOne, Nat.sub_eq_zero_of_le hwhole]
        exact congrArg (x.magnitude - ·) (Nat.mod_one _)
      have hexponents : x.biasedExponent * twoTo 52 ≤ 1074 * twoTo 52 :=
        Nat.mul_le_mul_right _ (Nat.le_of_lt_succ hexponent)
      have hbelow := x.wholeBelow_le
      omega

/-- The greatest whole number that is not above a number. -/
def floor (x : Binary64) : Binary64 :=
  if x.negative then ⟨true, x.wholeAbove, wholeAbove_lt x.magnitude_lt (by decide)⟩
  else ⟨false, x.wholeBelow, Nat.lt_of_le_of_lt x.wholeBelow_le x.magnitude_lt⟩

def wholePart (x : Binary64) : Nat := x.units / twoTo 1074

/-- The limit of the numbers that are counted in 64 bits: the number nearest to 2^64 - 1. -/
def countLimit : Binary64 := ⟨false, 1087 * twoTo 52, by decide⟩

theorem ofDecimal?_greatest :
    ofDecimal? ⟨false, 18446744073709551615, 0⟩ = some countLimit := by
  decide +kernel

/-- The count that a number is, found by comparisons. -/
def count? (x : Binary64) : Option Nat :=
  if ¬ x.IsFinite ∨ x.less zero then none
  else if ¬ x.floor.equal x ∨ x.floor.atLeast countLimit then none
  else some x.floor.wholePart

end DetectorCache.Binary64
