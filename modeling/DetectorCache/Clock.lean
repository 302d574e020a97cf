/-!
A clock that never runs backwards by itself. Every reading may find it later than the one before,
by an amount that nothing else depends on; a clock that stands still between readings is moved by
hand, forwards or backwards.
-/
set_option autoImplicit false

namespace DetectorCache

/-- The time of the last reading in nanoseconds, and how much later each reading to come will be. -/
structure Clock where
  now : Int := 0
  readings : Nat := 0
  drift : Nat → Nat := fun _ => 0

namespace Clock

def read (clock : Clock) : Clock :=
  { clock with now := clock.now + clock.drift clock.readings, readings := clock.readings + 1 }

theorem le_now_read (clock : Clock) : clock.now ≤ clock.read.now := by
  simp only [read]; omega

def advance (clock : Clock) (nanoseconds : Int) : Clock :=
  { clock with now := clock.now + nanoseconds }

end Clock

end DetectorCache
