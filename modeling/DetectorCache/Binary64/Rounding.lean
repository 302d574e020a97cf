import DetectorCache.Binary64

set_option autoImplicit false

namespace DetectorCache.Binary64

/-- The natural number nearest to `a / b`, the even one of two that are equally near. -/
def nearest (a b : Nat) : Nat :=
  if 2 * (a % b) < b then a / b
  else if b < 2 * (a % b) then a / b + 1
  else a / b + a / b % 2

theorem nearest_mul (a : Nat) {b : Nat} (h : 0 < b) : nearest (a * b) b = a := by
  simp [nearest, h]

def exponentOfRatio (a b : Nat) : Int :=
  let guess : Int := (a.log2 : Int) - b.log2
  if b * twoTo guess.toNat ≤ a * twoTo (-guess).toNat then guess else guess - 1

def nearestUnits (a b : Nat) (exponent : Int) : Nat :=
  nearest (a * twoTo (-exponent).toNat) (b * twoTo exponent.toNat)

def excess (a b : Nat) : Nat := a * twoTo 1074 % b

/-- Whether the excess of a number from 2^-1023 up to 2^-1022 is no loss of digits: rounding to 53
bits lifts the number to 2^-1022, or the excess is a quarter of a unit and no more. These numbers
have their 53rd bit at half a unit, and the quarter is the bit after it, passed over if alone. -/
def Spared (a b : Nat) : Prop :=
  nearestUnits a b (-1075) = twoTo 53 ∨ 4 * excess a b = b

/-- Whether `a / b`, whose leading bit stands for 2^`exponent`, loses digits below the normal
numbers: it has an excess that is not spared. -/
def Underflows (a b : Nat) (exponent : Int) : Prop :=
  exponent < -1022 ∧ excess a b ≠ 0 ∧ ¬(exponent = -1023 ∧ Spared a b)

instance (a b : Nat) : Decidable (Spared a b) := inferInstanceAs (Decidable (_ ∨ _))

instance (a b : Nat) (exponent : Int) : Decidable (Underflows a b exponent) :=
  inferInstanceAs (Decidable (_ ∧ _ ∧ _))

def infinity : Nat := 2047 * twoTo 52

/-- The magnitude nearest to a positive ratio. Counting in units of the last of 53 bits, but never
below 2^-1074, the pattern is that count on top of the patterns of smaller exponents; a count that
rounds up to 2^53 lands on the next exponent by itself. -/
def magnitudeOfRatio? (a b : Nat) : Option Nat :=
  let exponent := exponentOfRatio a b
  let unit := max (exponent - 52) (-1074)
  let magnitude := (unit + 1074).toNat * twoTo 52 + nearestUnits a b unit
  if infinity ≤ magnitude ∨ Underflows a b exponent then none else some magnitude

structure Decimal where
  negative : Bool
  coefficient : Nat
  exponent : Int
  deriving DecidableEq

/-- The greatest distance of the leading digit from the decimal point that can still be in range;
both limits of the finite numbers lie well inside it. -/
def farthestDigit : Int := 400

def tenTo (n : Nat) : Nat := Nat.pow 10 n

/-- The magnitude of a positive decimal numeral. The leading digit is looked at first, so that no
power of ten is built for a numeral that is far out of range. -/
def magnitudeOfDecimal? (coefficient : Nat) (exponent : Int) : Option Nat :=
  let leading := (Nat.toDigits 10 coefficient).length + exponent
  if leading < -farthestDigit ∨ farthestDigit < leading then none
  else magnitudeOfRatio? (coefficient * tenTo exponent.toNat) (tenTo (-exponent).toNat)

/-- The number nearest to a decimal numeral, or `none` when it is out of range. Zero keeps its
sign, whatever its exponent. -/
def ofDecimal? (d : Decimal) : Option Binary64 :=
  if d.coefficient = 0 then some ⟨d.negative, 0, by decide⟩
  else
    match magnitudeOfDecimal? d.coefficient d.exponent with
    | none => none
    | some magnitude =>
      if h : magnitude < twoTo 63 then some ⟨d.negative, magnitude, h⟩ else none

end DetectorCache.Binary64
