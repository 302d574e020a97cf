import DetectorCache.Octets
/-!
Points in time and their texts: the proleptic Gregorian calendar counted from 1970-01-01, UTC
timestamps to the millisecond, and durations in whole milliseconds. Times and durations are 64-bit
counts, so a duration that is scaled up wraps around.
-/
set_option autoImplicit false

namespace DetectorCache

open Octets (ascii)

/-- The 64-bit two's complement number congruent to `n` modulo 2^64. -/
def wrap64 (n : Int) : Int := n.bmod 18446744073709551616

theorem wrap64_eq_self_iff {n : Int} :
    wrap64 n = n ↔ -9223372036854775808 ≤ n ∧ n < 9223372036854775808 := by
  simp only [wrap64, Int.bmod_def]
  omega

structure Date where
  year : Int
  month : Nat
  day : Nat
  deriving DecidableEq

namespace Date

def daysPerEra : Int := 146097

/-- Days from 0000-03-01 to 1970-01-01. Years are counted from March, so a leap day ends one. -/
def daysBeforeEpoch : Int := 719468

def yearOfEra (dayOfEra : Nat) : Nat × Nat :=
  let year := (dayOfEra - dayOfEra / 1460 + dayOfEra / 36524 - dayOfEra / 146096) / 365
  (year, dayOfEra - (365 * year + year / 4 - year / 100))

def ofDays (days : Int) : Date :=
  let shifted := days + daysBeforeEpoch
  let (year, dayOfYear) := yearOfEra (shifted % daysPerEra).toNat
  let month := (5 * dayOfYear + 2) / 153
  let marchYear := 400 * (shifted / daysPerEra) + year
  { year := if month < 10 then marchYear else marchYear + 1
    month := if month < 10 then month + 3 else month - 9
    day := dayOfYear - (153 * month + 2) / 5 + 1 }

end Date

/-- A point in time, in nanoseconds from 1970-01-01T00:00:00Z. -/
abbrev Timestamp := Int

namespace Timestamp

def milliseconds (t : Timestamp) : Int := Int.tdiv t 1000000

def seconds (t : Timestamp) : Int := Int.tdiv t 1000000000

def yearText (year : Int) : Octets :=
  if year < 0 then Octets.hyphen :: Octets.paddedDecimal 3 year.natAbs
  else Octets.paddedDecimal 4 year.toNat

/-- The UTC text of a point in time. Before 1970 the seconds are cut off toward zero while the
milliseconds count up from the last whole second before. -/
def text (t : Timestamp) : Octets :=
  let date := Date.ofDays (t.seconds / 86400)
  let second := (t.seconds % 86400).toNat
  yearText date.year ++ ascii "-" ++ Octets.paddedDecimal 2 date.month ++ ascii "-" ++
    Octets.paddedDecimal 2 date.day ++ ascii "T" ++ Octets.paddedDecimal 2 (second / 3600) ++
    ascii ":" ++ Octets.paddedDecimal 2 (second / 60 % 60) ++ ascii ":" ++
    Octets.paddedDecimal 2 (second % 60) ++ ascii "." ++
    Octets.paddedDecimal 3 (t.milliseconds % 1000).toNat ++ ascii "Z"

end Timestamp

inductive TimeUnit where
  | nanoseconds
  | microseconds
  | milliseconds
  | seconds
  | minutes
  deriving DecidableEq

namespace TimeUnit

def toMilliseconds (unit : TimeUnit) (count : Int) : Int :=
  match unit with
  | .nanoseconds => Int.tdiv count 1000000
  | .microseconds => Int.tdiv count 1000
  | .milliseconds => count
  | .seconds => wrap64 (count * 1000)
  | .minutes => wrap64 (count * 60000)

def inNanoseconds : TimeUnit → Int
  | .nanoseconds => 1
  | .microseconds => 1000
  | .milliseconds => 1000000
  | .seconds => 1000000000
  | .minutes => 60000000000

/-- As long as the whole milliseconds of a duration can be counted in 64 bits, they are its
nanoseconds divided toward zero. -/
theorem toMilliseconds_eq_tdiv {unit : TimeUnit} {count : Int}
    (hle : -9223372036854775808 ≤ Int.tdiv (count * unit.inNanoseconds) 1000000)
    (hlt : Int.tdiv (count * unit.inNanoseconds) 1000000 < 9223372036854775808) :
    unit.toMilliseconds count = Int.tdiv (count * unit.inNanoseconds) 1000000 := by
  have hcoarse : ∀ per : Int, Int.tdiv (count * (per * 1000000)) 1000000 = count * per := by
    intro per
    rw [← Int.mul_assoc, Int.mul_tdiv_cancel _ (by decide)]
  cases unit with
  | nanoseconds => rw [inNanoseconds, Int.mul_one, toMilliseconds]
  | microseconds =>
    have hpos : (0 : Int) < 1000 := by decide
    exact (Int.mul_tdiv_mul_of_pos_left count 1000 hpos).symm
  | milliseconds => exact ((hcoarse 1).trans (Int.mul_one count)).symm
  | seconds =>
    have hexact : Int.tdiv (count * inNanoseconds .seconds) 1000000 = count * 1000 := hcoarse 1000
    rw [hexact] at hle hlt ⊢
    exact wrap64_eq_self_iff.mpr ⟨hle, hlt⟩
  | minutes =>
    have hexact : Int.tdiv (count * inNanoseconds .minutes) 1000000 = count * 60000 :=
      hcoarse 60000
    rw [hexact] at hle hlt ⊢
    exact wrap64_eq_self_iff.mpr ⟨hle, hlt⟩

end TimeUnit

def millisecondsText (milliseconds : Int) : Octets :=
  Octets.signedDecimal milliseconds ++ ascii "ms"

end DetectorCache
