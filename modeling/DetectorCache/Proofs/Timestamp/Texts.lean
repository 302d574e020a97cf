import DetectorCache.Proofs.Octets.Fields
import DetectorCache.Proofs.Timestamp.Calendar
import Mathlib.Algebra.Group.Int.Defs

set_option autoImplicit false

namespace DetectorCache

open Octets (ascii Field)

/-- A millisecond by the calendar and the clock. -/
structure Moment where
  date : Date
  hour : Nat
  minute : Nat
  second : Nat
  millisecond : Nat

namespace Moment

/-- The millisecond that the fields name, counted from the start of 1970-01-01: the date is reached
by steps from day to day, and the clock shows a time of day. -/
def Denotes (moment : Moment) (milliseconds : Int) : Prop :=
  ∃ days : Nat, moment.date = Date.next^[days] Date.epoch ∧
    moment.hour < 24 ∧ moment.minute < 60 ∧ moment.second < 60 ∧ moment.millisecond < 1000 ∧
    milliseconds =
      (((days * 24 + moment.hour) * 60 + moment.minute) * 60 + moment.second) * 1000 +
        moment.millisecond

theorem Denotes.unique {moment : Moment} {first second : Int} (h : moment.Denotes first)
    (h' : moment.Denotes second) : first = second := by
  obtain ⟨days, hdate, -, -, -, -, rfl⟩ := h
  obtain ⟨days', hdate', -, -, -, -, rfl⟩ := h'
  rw [Date.walk_injective (hdate.symm.trans hdate')]

def fields : List Field :=
  [{ width := 4, mark := 45 }, { width := 2, mark := 45 }, { width := 2, mark := 84 },
    { width := 2, mark := 58 }, { width := 2, mark := 58 }, { width := 2, mark := 46 },
    { width := 3, mark := 90 }]

def ofText (text : Octets) : Option Moment :=
  match Field.readAll fields text with
  | [year, month, day, hour, minute, second, millisecond] =>
    some ⟨⟨year, month, day⟩, hour, minute, second, millisecond⟩
  | _ => none

def values (moment : Moment) : List Nat :=
  [moment.date.year.toNat, moment.date.month, moment.date.day, moment.hour, moment.minute,
    moment.second, moment.millisecond]

def after (milliseconds : Nat) : Moment where
  date := Date.next^[milliseconds / 86400000] Date.epoch
  hour := milliseconds / 3600000 % 24
  minute := milliseconds / 60000 % 60
  second := milliseconds / 1000 % 60
  millisecond := milliseconds % 1000

def lastMillisecond : Nat := 9223372036854

theorem clock_after (milliseconds : Nat) :
    (after milliseconds).hour < 24 ∧ (after milliseconds).minute < 60 ∧
      (after milliseconds).second < 60 ∧ (after milliseconds).millisecond < 1000 ∧
      milliseconds =
        (((milliseconds / 86400000 * 24 + (after milliseconds).hour) * 60 +
          (after milliseconds).minute) * 60 + (after milliseconds).second) * 1000 +
          (after milliseconds).millisecond := by
  refine ⟨Nat.mod_lt _ (by decide), Nat.mod_lt _ (by decide), Nat.mod_lt _ (by decide),
    Nat.mod_lt _ (by decide), ?_⟩
  simp only [after]
  omega

theorem denotes_after (milliseconds : Nat) : (after milliseconds).Denotes milliseconds := by
  obtain ⟨hhour, hminute, hsecond, hmillisecond, heq⟩ := clock_after milliseconds
  refine ⟨milliseconds / 86400000, rfl, hhour, hminute, hsecond, hmillisecond, ?_⟩
  -- the walk is out of sight for omega, which would take its steps
  generalize after milliseconds = moment at heq ⊢
  omega

theorem year_after (milliseconds : Nat) : 1970 ≤ (after milliseconds).date.year :=
  Date.year_walk_mono (Nat.zero_le _)

theorem year_after_le {milliseconds : Nat} (h : milliseconds ≤ lastMillisecond) :
    (after milliseconds).date.year ≤ 2262 := by
  have hdays : milliseconds / 86400000 ≤ 106751 := by
    unfold lastMillisecond at h
    omega
  have hlast : (Date.ofDays (106751 : Nat)).year = 2262 := by decide
  have hmono := Date.year_walk_mono hdays
  rwa [← Date.ofDays_natCast 106751, hlast] at hmono

theorem fits_after {milliseconds : Nat} (h : milliseconds ≤ lastMillisecond) :
    List.Forall₂ Field.Fits fields (after milliseconds).values := by
  have hyear := year_after_le h
  have hdate : (after milliseconds).date.InCalendar := Date.walk_inCalendar _
  have hday := Nat.le_trans hdate.day_le (Date.daysOfMonth_bounds _ _).2
  have hmonth := hdate.month_le
  obtain ⟨hhour, hminute, hsecond, hmillisecond, -⟩ := clock_after milliseconds
  generalize after milliseconds = moment at *
  simp only [fields, values, List.forall₂_cons, Field.Fits]
  refine ⟨?_, ?_, ?_, ?_, ?_, ?_, ?_, List.Forall₂.nil⟩ <;> omega

theorem values_after_lt {first second : Nat} (h : first < second) :
    (after first).values < (after second).values := by
  have hyear := year_after first
  have hyear' := year_after second
  have hclock := clock_after first
  have hclock' := clock_after second
  simp only [values, List.cons_lt_cons_iff, List.lt_irrefl, and_false, or_false]
  rcases Nat.eq_or_lt_of_le (@Nat.div_le_div_right _ _ 86400000 (Nat.le_of_lt h)) with heq | hlt
  · have hdate : (after first).date = (after second).date := congrArg (Date.next^[·] _) heq
    rw [hdate]
    refine Or.inr ⟨rfl, Or.inr ⟨rfl, Or.inr ⟨rfl, ?_⟩⟩⟩
    generalize after first = moment, after second = moment' at *
    omega
  · have hdate : (after first).date.Before (after second).date := Date.walk_before hlt
    unfold Date.Before at hdate
    generalize after first = moment, after second = moment' at *
    omega

theorem ofText_after {milliseconds : Nat} (h : milliseconds ≤ lastMillisecond) :
    ofText (Field.writeAll fields (after milliseconds).values) = some (after milliseconds) := by
  have hyear := year_after milliseconds
  have hfits := fits_after h
  generalize after milliseconds = moment at *
  obtain ⟨⟨year, month, day⟩, hour, minute, second, millisecond⟩ := moment
  have hnat : (year.toNat : Int) = year := Int.toNat_of_nonneg (Int.le_trans (by decide) hyear)
  rw [ofText, Field.readAll_writeAll hfits]
  simp only [values, hnat]

theorem text_eq {t : Int} {milliseconds : Nat} (h : 0 ≤ t) (hm : t / 1000000 = milliseconds) :
    Timestamp.text t = Field.writeAll fields (after milliseconds).values := by
  have hmilliseconds : Timestamp.milliseconds t = milliseconds := by
    rw [← hm, Timestamp.milliseconds, Int.tdiv_eq_ediv_of_nonneg h]
  have hseconds : Timestamp.seconds t = (milliseconds / 1000 : Nat) := by
    rw [Timestamp.seconds, Int.tdiv_eq_ediv_of_nonneg h]
    omega
  have hdate : Date.ofDays (Timestamp.seconds t / 86400) = (after milliseconds).date := by
    have hdays : Timestamp.seconds t / 86400 = (milliseconds / 86400000 : Nat) := by omega
    rw [hdays, Date.ofDays_natCast]
    rfl
  have hhour : (Timestamp.seconds t % 86400).toNat / 3600 = (after milliseconds).hour := by
    simp only [after]
    omega
  have hminute : (Timestamp.seconds t % 86400).toNat / 60 % 60 = (after milliseconds).minute := by
    simp only [after]
    omega
  have hsecond : (Timestamp.seconds t % 86400).toNat % 60 = (after milliseconds).second := by
    simp only [after]
    omega
  have hmillisecond :
      (Timestamp.milliseconds t % 1000).toNat = (after milliseconds).millisecond := by
    simp only [after]
    omega
  have hyear : ¬(after milliseconds).date.year < 0 := by
    have hle := year_after milliseconds
    generalize after milliseconds = moment at hle ⊢
    omega
  simp only [Timestamp.text, hdate, hhour, hminute, hsecond, hmillisecond, Timestamp.yearText,
    if_neg hyear]
  generalize after milliseconds = moment
  simp only [fields, values, Field.writeAll, Field.write, List.append_assoc, List.append_nil]
  rfl

theorem exists_text_eq {t : Int} (h : 0 ≤ t) (ht : t < 2 ^ 63) :
    ∃ milliseconds ≤ lastMillisecond, t / 1000000 = milliseconds ∧
      Timestamp.text t = Field.writeAll fields (after milliseconds).values := by
  have hm : t / 1000000 = (t / 1000000).toNat := by omega
  refine ⟨(t / 1000000).toNat, ?_, hm, text_eq h hm⟩
  unfold lastMillisecond
  omega

theorem writeAll_after_lt {first second : Nat} (h : first < second)
    (hlast : second ≤ lastMillisecond) :
    Field.writeAll fields (after first).values < Field.writeAll fields (after second).values :=
  Field.writeAll_lt (fits_after (Nat.le_trans (Nat.le_of_lt h) hlast)) (fits_after hlast)
    (values_after_lt h)

end Moment

namespace Timestamp

/-- The text of a point in time from 1970 to the end of the 64-bit counts has its shape and names
the millisecond that the point lies in, no other; such texts are in the order of their
milliseconds. -/
theorem text_names_and_orders_milliseconds {t : Int} (h : 0 ≤ t) (ht : t < 2 ^ 63) :
    Octets.Follows (ascii "dddd-dd-ddTdd:dd:dd.dddZ") (text t) ∧
      (∃ moment, Moment.ofText (text t) = some moment ∧
        ∀ milliseconds, moment.Denotes milliseconds ↔ milliseconds = t / 1000000) ∧
      ∀ u : Int, 0 ≤ u → u < 2 ^ 63 →
        (text t < text u ↔ t / 1000000 < u / 1000000) ∧
        (text t = text u ↔ t / 1000000 = u / 1000000) := by
  obtain ⟨first, hfirst, hm, htext⟩ := Moment.exists_text_eq h ht
  refine ⟨?_, ?_, ?_⟩
  · rw [htext]
    exact Field.follows_writeAll (Moment.fits_after hfirst)
  · have hdenotes := Moment.denotes_after first
    rw [htext, hm]
    refine ⟨Moment.after first, Moment.ofText_after hfirst, fun milliseconds =>
      ⟨fun hother => hother.unique hdenotes, fun heq => heq ▸ hdenotes⟩⟩
  · intro u hu hut
    obtain ⟨second, hsecond, hm', htext'⟩ := Moment.exists_text_eq hu hut
    rw [hm, hm', htext, htext', Int.ofNat_lt, Int.ofNat_inj]
    rcases Nat.lt_trichotomy first second with hlt | rfl | hgt
    · have hbefore := Moment.writeAll_after_lt hlt hsecond
      refine ⟨iff_of_true hbefore hlt, iff_of_false (fun heq => ?_) (Nat.ne_of_lt hlt)⟩
      exact List.lt_irrefl _ (heq ▸ hbefore)
    · exact ⟨iff_of_false (List.lt_irrefl _) (Nat.lt_irrefl _), iff_of_true rfl rfl⟩
    · have hafter := Moment.writeAll_after_lt hgt hfirst
      refine ⟨iff_of_false (List.lt_asymm hafter) (Nat.lt_asymm hgt),
        iff_of_false (fun heq => ?_) (Nat.ne_of_gt hgt)⟩
      exact List.lt_irrefl _ (heq ▸ hafter)

theorem text_of_leap_day :
    text 1709251199999999999 = ascii "2024-02-29T23:59:59.999Z" ∧
      (∃ moment, Moment.ofText (text 1709251199999999999) = some moment ∧
        ∀ milliseconds, moment.Denotes milliseconds ↔ milliseconds = 1709251199999) ∧
      text 1709251199999999999 < text 1709251200000000000 := by
  obtain ⟨-, hmoment, horder⟩ :=
    @text_names_and_orders_milliseconds 1709251199999999999 (by decide) (by decide)
  refine ⟨by decide, hmoment, ?_⟩
  exact ((horder 1709251200000000000 (by decide) (by decide)).1).mpr (by decide)

end Timestamp

end DetectorCache
