import DetectorCache.Timestamp
import Mathlib.Logic.Function.Iterate
/-!
The Gregorian calendar as a walk from day to day. The date that is computed for a day is the date
after that of the day before, for all days before and after 1970-01-01; from there on dates follow
each other in the order of their years, months and days.
-/
set_option autoImplicit false

namespace DetectorCache.Date

/-- Every fourth year has a leap day, but of the full centuries only every fourth. -/
def IsLeap (year : Int) : Prop := year % 4 = 0 ∧ (year % 100 = 0 → year % 400 = 0)

instance (year : Int) : Decidable (IsLeap year) := inferInstanceAs (Decidable (_ ∧ _))

def daysOfMonth (leap : Bool) (month : Nat) : Nat :=
  if month = 2 then 28 + leap.toNat
  else if month = 4 ∨ month = 6 ∨ month = 9 ∨ month = 11 then 30
  else 31

def nextIn (leap : Bool) (date : Date) : Date :=
  if date.day < daysOfMonth leap date.month then { date with day := date.day + 1 }
  else if date.month < 12 then ⟨date.year, date.month + 1, 1⟩
  else ⟨date.year + 1, 1, 1⟩

def next (date : Date) : Date := nextIn (decide (IsLeap date.year)) date

def epoch : Date := ⟨1970, 1, 1⟩

/-! Years that begin in March, in an era of 400 of them. -/

/-- The days of a year that begins in March. It ends with the February of the next calendar year. -/
def daysFromMarch (year : Int) : Nat := 365 + (decide (IsLeap (year + 1))).toNat

def startOfYear (year : Nat) : Nat := 365 * year + year / 4 - year / 100

/-- The years of an era follow each other without a gap; the first and the last day of each are
found in it. -/
theorem years_of_era : ∀ year < 400,
    (yearOfEra (startOfYear year)).1 = year ∧
      (yearOfEra (startOfYear year + daysFromMarch year - 1)).1 = year ∧
      startOfYear year + daysFromMarch year =
        (if year = 399 then 146097 else startOfYear (year + 1)) := by
  decide +kernel

theorem yearOfEra_mono {d e : Nat} (h : d ≤ e) : (yearOfEra d).1 ≤ (yearOfEra e).1 := by
  have hfour : ∀ n : Nat, n / 146096 = n / 36524 / 4 := fun n => by omega
  have hcentury : d / 36524 ≤ e / 36524 := Nat.div_le_div_right h
  simp only [yearOfEra, hfour]
  refine Nat.div_le_div_right ?_
  generalize d / 36524 = c at *
  generalize e / 36524 = c' at *
  omega

theorem snd_yearOfEra (d : Nat) : (yearOfEra d).2 = d - startOfYear (yearOfEra d).1 := rfl

theorem yearOfEra_of_day {year day : Nat} (hyear : year < 400) (hday : day < daysFromMarch year) :
    yearOfEra (startOfYear year + day) = (year, day) := by
  obtain ⟨hfirst, hlast, -⟩ := years_of_era year hyear
  have hlow := yearOfEra_mono (Nat.le_add_right (startOfYear year) day)
  have hhigh := @yearOfEra_mono (startOfYear year + day)
    (startOfYear year + daysFromMarch year - 1) (by omega)
  have hsame : (yearOfEra (startOfYear year + day)).1 = year := by omega
  refine Prod.ext hsame ?_
  rw [snd_yearOfEra, hsame]
  exact Nat.add_sub_cancel_left ..

theorem daysFromMarch_pos (year : Int) : 0 < daysFromMarch year := by
  unfold daysFromMarch
  omega

theorem exists_year {d : Nat} (h : d < 146097) : ∃ year day : Nat,
    year < 400 ∧ day < daysFromMarch year ∧ d = startOfYear year + day := by
  induction d with
  | zero => exact ⟨0, 0, by decide, daysFromMarch_pos 0, rfl⟩
  | succ d ih =>
    obtain ⟨year, day, hyear, hday, rfl⟩ := ih (Nat.lt_of_succ_lt h)
    by_cases hlast : day + 1 < daysFromMarch year
    · exact ⟨year, day + 1, hyear, hlast, rfl⟩
    · obtain ⟨-, -, hnext⟩ := years_of_era year hyear
      have hfull : startOfYear year + day + 1 = startOfYear year + daysFromMarch year := by omega
      split at hnext
      · omega
      · exact ⟨year + 1, 0, by omega, daysFromMarch_pos _, hfull.trans hnext⟩

theorem daysFromMarch_of_era (era year : Int) :
    daysFromMarch (400 * era + year) = daysFromMarch year := by
  have hleap : IsLeap (400 * era + year + 1) ↔ IsLeap (year + 1) := by
    unfold IsLeap
    omega
  unfold daysFromMarch
  rw [decide_eq_decide.mpr hleap]

def ofMarch (year : Int) (day : Nat) : Date :=
  let month := (5 * day + 2) / 153
  { year := if month < 10 then year else year + 1
    month := if month < 10 then month + 3 else month - 9
    day := day - (153 * month + 2) / 5 + 1 }

def later (years : Int) (date : Date) : Date := { date with year := date.year + years }

theorem ofMarch_eq_later (year : Int) (day : Nat) :
    ofMarch year day = (ofMarch 0 day).later year := by
  unfold ofMarch later
  dsimp only
  split <;> simp [Int.add_comm]

theorem nextIn_later (leap : Bool) (years : Int) (date : Date) :
    nextIn leap (date.later years) = (nextIn leap date).later years := by
  unfold nextIn later
  dsimp only
  split
  · rfl
  · split
    · rfl
    · rw [Int.add_right_comm]

theorem nextIn_ofMarch : ∀ leap : Bool, ∀ day < 365 + leap.toNat,
    nextIn leap (ofMarch 0 day) =
      if day + 1 = 365 + leap.toNat then ofMarch 1 0 else ofMarch 0 (day + 1) := by
  decide +kernel

theorem nextIn_of_ne_february {date : Date} (h : date.month ≠ 2) (leap other : Bool) :
    nextIn leap date = nextIn other date := by
  simp only [nextIn, daysOfMonth, if_neg h]

theorem next_ofMarch {year : Int} {day : Nat} (h : day < daysFromMarch year) :
    (ofMarch year day).next =
      if day + 1 = daysFromMarch year then ofMarch (year + 1) 0 else ofMarch year (day + 1) := by
  have hstep := nextIn_ofMarch (decide (IsLeap (year + 1))) day h
  -- only February tells a leap year, and it lies in the next calendar year
  have hleap : (ofMarch year day).next =
      nextIn (decide (IsLeap (year + 1))) (ofMarch year day) := by
    by_cases hmonth : (ofMarch year day).month = 2
    · have hyear : (ofMarch year day).year = year + 1 := by
        simp only [ofMarch] at hmonth ⊢
        split at hmonth
        · omega
        · exact if_neg ‹_›
      rw [next, hyear]
    · exact nextIn_of_ne_february hmonth _ _
  rw [hleap, ofMarch_eq_later, nextIn_later, hstep]
  split
  · rw [if_pos ‹_›, ofMarch_eq_later 1, ofMarch_eq_later (year + 1), later, later, later]
    simp only [Int.add_assoc, Int.add_comm year]
  · rw [if_neg ‹_›, ofMarch_eq_later year]

theorem ofDays_of_year {days era : Int} {year day : Nat} (hyear : year < 400)
    (hday : day < daysFromMarch year)
    (h : days + daysBeforeEpoch = daysPerEra * era + ↑(startOfYear year + day)) :
    ofDays days = ofMarch (400 * era + year) day := by
  have hbound : startOfYear year + day < 146097 := by
    unfold daysFromMarch at hday
    unfold startOfYear
    have := Bool.toNat_le (decide (IsLeap ((year : Int) + 1)))
    omega
  have hera : (days + daysBeforeEpoch) / daysPerEra = era := by
    unfold daysPerEra at h ⊢
    omega
  have hrest : ((days + daysBeforeEpoch) % daysPerEra).toNat = startOfYear year + day := by
    unfold daysPerEra at h ⊢
    omega
  have hofDays : ofDays days =
      let found := yearOfEra ((days + daysBeforeEpoch) % daysPerEra).toNat
      ofMarch (400 * ((days + daysBeforeEpoch) / daysPerEra) + found.1) found.2 := rfl
  rw [hofDays, hera, hrest, yearOfEra_of_day hyear hday]

/-- One day later, one day further in the calendar. -/
theorem ofDays_succ (days : Int) : ofDays (days + 1) = (ofDays days).next := by
  have hrange := Int.emod_lt_of_pos (days + daysBeforeEpoch) (show 0 < daysPerEra by decide)
  have hpos := Int.emod_nonneg (days + daysBeforeEpoch) (show daysPerEra ≠ 0 by decide)
  have hsplit := Int.mul_ediv_add_emod (days + daysBeforeEpoch) daysPerEra
  generalize (days + daysBeforeEpoch) / daysPerEra = era at hsplit
  obtain ⟨year, day, hyear, hday, hd⟩ :=
    @exists_year ((days + daysBeforeEpoch) % daysPerEra).toNat (by unfold daysPerEra at *; omega)
  have hthis : days + daysBeforeEpoch = daysPerEra * era + ↑(startOfYear year + day) := by omega
  have hmarch := daysFromMarch_of_era era year
  rw [ofDays_of_year hyear hday hthis, next_ofMarch (hmarch ▸ hday), hmarch]
  split
  case isFalse hmore =>
    exact ofDays_of_year hyear (by omega) (by omega)
  case isTrue hlast =>
    obtain ⟨-, -, hnext⟩ := years_of_era year hyear
    split at hnext
    case isFalse hinner =>
      have hday' := daysFromMarch_pos (year + 1 : Nat)
      rw [@ofDays_of_year (days + 1) era (year + 1) 0 (by omega) hday' (by omega)]
      congr 1
      omega
    case isTrue hlastYear =>
      -- the last day of an era
      rw [@ofDays_of_year (days + 1) (era + 1) 0 0 (by omega) (daysFromMarch_pos 0)
        (by unfold daysPerEra at *; unfold startOfYear; omega)]
      congr 1
      omega

theorem ofDays_natCast (days : Nat) : ofDays days = next^[days] epoch := by
  induction days with
  | zero => rfl
  | succ days ih => rw [Function.iterate_succ_apply', ← ih, Int.natCast_succ, ofDays_succ]

structure InCalendar (date : Date) : Prop where
  month_pos : 0 < date.month
  month_le : date.month ≤ 12
  day_pos : 0 < date.day
  day_le : date.day ≤ daysOfMonth (decide (IsLeap date.year)) date.month

theorem daysOfMonth_bounds (leap : Bool) (month : Nat) :
    0 < daysOfMonth leap month ∧ daysOfMonth leap month ≤ 31 := by
  have := Bool.toNat_le leap
  unfold daysOfMonth
  split
  · omega
  · split <;> omega

theorem InCalendar.next {date : Date} (h : date.InCalendar) : date.next.InCalendar := by
  unfold Date.next nextIn
  split
  · exact ⟨h.month_pos, h.month_le, Nat.succ_pos _, ‹_›⟩
  · split
    · exact ⟨Nat.succ_pos _, ‹_›, Nat.one_pos, (daysOfMonth_bounds _ _).1⟩
    · exact ⟨Nat.one_pos, Nat.le_add_left 1 11, Nat.one_pos, (daysOfMonth_bounds _ _).1⟩

theorem walk_inCalendar (days : Nat) : (next^[days] epoch).InCalendar := by
  induction days with
  | zero => exact ⟨by decide, by decide, by decide, by decide⟩
  | succ days ih =>
    rw [Function.iterate_succ_apply']
    exact ih.next

/-- By year, then by month, then by day. -/
def Before (date other : Date) : Prop :=
  date.year < other.year ∨ date.year = other.year ∧
    (date.month < other.month ∨ date.month = other.month ∧ date.day < other.day)

theorem Before.trans {first second third : Date} (h : first.Before second)
    (h' : second.Before third) : first.Before third := by
  unfold Before at *
  omega

theorem before_next (date : Date) : date.Before date.next := by
  unfold next nextIn Before
  split
  · exact Or.inr ⟨rfl, Or.inr ⟨rfl, Nat.lt_succ_self _⟩⟩
  · split
    · exact Or.inr ⟨rfl, Or.inl (Nat.lt_succ_self _)⟩
    · exact Or.inl (Int.lt_succ _)

/-- Of two dates on the way the one reached first is the earlier one. -/
theorem walk_before {first second : Nat} (h : first < second) :
    (next^[first] epoch).Before (next^[second] epoch) := by
  induction h with
  | refl =>
    rw [Function.iterate_succ_apply']
    exact before_next _
  | step _ ih =>
    rw [Function.iterate_succ_apply']
    exact ih.trans (before_next _)

theorem walk_injective {first second : Nat} (h : next^[first] epoch = next^[second] epoch) :
    first = second := by
  have hirrefl : ∀ date : Date, ¬date.Before date := fun date hbefore => by
    unfold Before at hbefore
    omega
  rcases Nat.lt_trichotomy first second with hlt | heq | hgt
  · exact absurd (h ▸ walk_before hlt) (hirrefl _)
  · exact heq
  · exact absurd (h ▸ walk_before hgt) (hirrefl _)

theorem year_walk_mono {first second : Nat} (h : first ≤ second) :
    (next^[first] epoch).year ≤ (next^[second] epoch).year := by
  rcases Nat.eq_or_lt_of_le h with rfl | hlt
  · exact Int.le_refl _
  · rcases walk_before hlt with hyear | ⟨hyear, -⟩
    · exact Int.le_of_lt hyear
    · exact Int.le_of_eq hyear

end DetectorCache.Date
