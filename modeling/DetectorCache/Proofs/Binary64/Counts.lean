import DetectorCache.Json
import DetectorCache.Proofs.Binary64.Values
import Mathlib.Data.Rat.Floor
/-!
Counts read from binary64 numbers. The floor of a pattern stands for the floor of its number, so the
numbers that pass the comparisons of `count?` are the natural numbers below 2^64, each read as
itself; `toUnsigned?` reads the same ones off the pattern. No number lies between 2^64 - 1 and the
limit that it is rounded to.
-/
set_option autoImplicit false

namespace DetectorCache.Binary64

section

variable {x y : Binary64} {exponent : Nat}

theorem units_lt_one (h : x.biasedExponent < 1023) : x.units < twoTo 1074 :=
  @units_lt_of_exponent x 1022 (Nat.le_of_lt_succ h)

theorem magnitude_of_normal (h : x.biasedExponent = exponent + 1) :
    x.magnitude = exponent * twoTo 52 + (twoTo 52 + x.fraction) := by
  rw [magnitude_eq, h, Nat.succ_mul, Nat.add_assoc]

theorem exists_exponent (h : 1023 ≤ x.biasedExponent) :
    ∃ exponent, x.biasedExponent = exponent + 1 :=
  Nat.exists_eq_succ_of_ne_zero (by omega)

theorem steps_dvd (h : 1023 ≤ x.biasedExponent) : x.stepsToOne ∣ twoTo 52 := twoTo_dvd (by omega)

theorem steps_cases (h : x.biasedExponent = exponent + 1) :
    x.stepsToOne * twoTo exponent = twoTo 1074 ∨ 1074 ≤ exponent ∧ x.stepsToOne = 1 := by
  have hshift : 1075 - (exponent + 1) = 1074 - exponent := Nat.add_sub_add_right 1074 1 exponent
  rw [stepsToOne, h, hshift]
  rcases Nat.le_total exponent 1074 with hle | hge
  · rw [← twoTo_add, Nat.sub_add_cancel hle]
    exact Or.inl rfl
  · rw [Nat.sub_eq_zero_of_le hge]
    exact Or.inr ⟨hge, rfl⟩

theorem wholeBelow_of_normal (h : x.biasedExponent = exponent + 1)
    (hlarge : 1023 ≤ x.biasedExponent) :
    x.wholeBelow = exponent * twoTo 52 +
      (twoTo 52 + x.fraction) / x.stepsToOne * x.stepsToOne := by
  have hmod : x.magnitude % x.stepsToOne = (twoTo 52 + x.fraction) % x.stepsToOne := by
    obtain ⟨count, hcount⟩ := steps_dvd hlarge
    rw [magnitude_of_normal h, hcount, Nat.mul_left_comm, Nat.mul_add_mod]
  have hdiv := Nat.div_add_mod' (twoTo 52 + x.fraction) x.stepsToOne
  rw [wholeBelow, if_neg (Nat.not_lt.mpr hlarge), hmod, magnitude_of_normal h]
  omega

theorem le_whole_significand (hlarge : 1023 ≤ x.biasedExponent) :
    twoTo 52 ≤ (twoTo 52 + x.fraction) / x.stepsToOne * x.stepsToOne :=
  calc twoTo 52
    _ = twoTo 52 / x.stepsToOne * x.stepsToOne := (Nat.div_mul_cancel (steps_dvd hlarge)).symm
    _ ≤ _ := Nat.mul_le_mul_right _ (Nat.div_le_div_right (Nat.le_add_right _ _))

theorem units_wholeBelow (h : y.magnitude = x.wholeBelow) :
    y.units = x.units / twoTo 1074 * twoTo 1074 := by
  rcases Nat.lt_or_ge x.biasedExponent 1023 with hsmall | hlarge
  · have hzero : ¬ 0 < y.units := by
      rw [units_pos_iff, h, wholeBelow, if_pos hsmall]
      exact Nat.lt_irrefl 0
    rw [Nat.div_eq_of_lt (units_lt_one hsmall), Nat.zero_mul]
    exact Nat.eq_zero_of_not_pos hzero
  · obtain ⟨exponent, hexponent⟩ := exists_exponent hlarge
    have hdouble : twoTo 53 = 2 * twoTo 52 := twoTo_succ 52
    have hfraction := x.fraction_lt
    have hle := Nat.div_mul_le_self (twoTo 52 + x.fraction) x.stepsToOne
    have hunits := units_of_significand (h.trans (wholeBelow_of_normal hexponent hlarge))
      (le_whole_significand hlarge) (by omega)
    rw [hunits, units_of_normal hexponent]
    rcases steps_cases hexponent with hsteps | ⟨hwhole, hone⟩
    · rw [← hsteps, Nat.mul_div_mul_right _ _ (twoTo_pos exponent), Nat.mul_assoc]
    · have hdvd : twoTo 1074 ∣ (twoTo 52 + x.fraction) * twoTo exponent :=
        Nat.dvd_mul_left_of_dvd (twoTo_dvd hwhole) _
      rw [Nat.div_mul_cancel hdvd, hone, Nat.div_one, Nat.mul_one]

theorem units_oneMagnitude (h : y.magnitude = oneMagnitude) : y.units = twoTo 1074 := by
  rw [oneMagnitude, Nat.succ_mul] at h
  rw [units_of_significand h (Nat.le_refl _) (twoTo_le (by decide)), ← twoTo_add]

theorem units_wholeAbove (hbroken : x.wholeBelow ≠ x.magnitude) (h : y.magnitude = x.wholeAbove) :
    y.units = (x.units / twoTo 1074 + 1) * twoTo 1074 := by
  rw [wholeAbove, if_neg hbroken] at h
  rcases Nat.lt_or_ge x.biasedExponent 1023 with hsmall | hlarge
  · rw [if_pos hsmall] at h
    rw [Nat.div_eq_of_lt (units_lt_one hsmall), units_oneMagnitude h, Nat.zero_add, Nat.one_mul]
  · obtain ⟨exponent, hexponent⟩ := exists_exponent hlarge
    have hsteps : x.stepsToOne * twoTo exponent = twoTo 1074 := by
      refine (steps_cases hexponent).resolve_right fun hlast => hbroken ?_
      rw [wholeBelow_of_normal hexponent hlarge, hlast.2, Nat.div_one, Nat.mul_one,
        magnitude_of_normal hexponent]
    rw [if_neg (Nat.not_lt.mpr hlarge), wholeBelow_of_normal hexponent hlarge, Nat.add_assoc,
      ← Nat.succ_mul] at h
    have hlow := Nat.le_trans (le_whole_significand hlarge)
      (Nat.mul_le_mul_right x.stepsToOne (Nat.le_succ ((twoTo 52 + x.fraction) / x.stepsToOne)))
    -- one step more than the whole steps of a significand is still no more than 2^53
    have hcarry : ((twoTo 52 + x.fraction) / x.stepsToOne).succ * x.stepsToOne ≤ twoTo 53 := by
      have hdouble : twoTo 53 = 2 * twoTo 52 := twoTo_succ 52
      have hfraction := x.fraction_lt
      have hpos : 0 < x.stepsToOne := twoTo_pos _
      have hdvd : x.stepsToOne ∣ twoTo 53 := hdouble ▸ Nat.dvd_mul_left_of_dvd (steps_dvd hlarge) 2
      have hwhole : twoTo 53 / x.stepsToOne * x.stepsToOne = twoTo 53 := Nat.div_mul_cancel hdvd
      have hlt : (twoTo 52 + x.fraction) / x.stepsToOne < twoTo 53 / x.stepsToOne :=
        (Nat.div_lt_iff_lt_mul hpos).mpr (by omega)
      exact hwhole ▸ Nat.mul_le_mul_right x.stepsToOne hlt
    rw [units_of_significand h hlow hcarry, units_of_normal hexponent, ← hsteps,
      Nat.mul_div_mul_right _ _ (twoTo_pos exponent), Nat.mul_assoc]

end

theorem floor_cases (x : Binary64) :
    x.negative = false ∧ x.floor.negative = false ∧ x.floor.magnitude = x.wholeBelow ∨
      x.negative = true ∧ x.floor.negative = true ∧ x.floor.magnitude = x.wholeAbove := by
  rw [floor]
  cases hsign : x.negative
  · exact Or.inl ⟨rfl, rfl, rfl⟩
  · exact Or.inr ⟨rfl, rfl, rfl⟩

theorem wholes_lt_units {x : Binary64} (h : x.wholeBelow ≠ x.magnitude) :
    x.units / twoTo 1074 * twoTo 1074 < x.units := by
  have hlt : x.wholeBelow < x.magnitude := Nat.lt_of_le_of_ne x.wholeBelow_le h
  let below : Binary64 := ⟨false, x.wholeBelow, Nat.lt_trans hlt x.magnitude_lt⟩
  have hbelow : below.units = x.units / twoTo 1074 * twoTo 1074 := units_wholeBelow rfl
  rw [← hbelow]
  exact units_lt_iff.mpr hlt

theorem signedUnits_floor (x : Binary64) :
    x.floor.signedUnits = x.signedUnits / (twoTo 1074 : ℤ) * twoTo 1074 := by
  have hpos := twoTo_pos 1074
  have hscale : (0 : ℤ) < twoTo 1074 := Int.natCast_pos.mpr hpos
  rcases floor_cases x with ⟨hsign, hfloor, hbelow⟩ | ⟨hsign, hfloor, habove⟩
  · rw [signedUnits_of_positive hsign, signedUnits_of_positive hfloor, units_wholeBelow hbelow]
    push_cast
    rfl
  · rw [signedUnits_of_negative hsign, signedUnits_of_negative hfloor]
    by_cases hwhole : x.wholeBelow = x.magnitude
    · have hdvd : twoTo 1074 ∣ x.units :=
        ⟨_, (units_wholeBelow hwhole.symm).trans (Nat.mul_comm _ _)⟩
      have hsame : x.floor.units = x.units := units_congr (habove.trans (if_pos hwhole))
      rw [hsame, Int.ediv_mul_cancel (Int.dvd_neg.mpr (Int.natCast_dvd_natCast.mpr hdvd))]
    · have hunits := units_wholeAbove hwhole habove
      have hlow := wholes_lt_units hwhole
      have hhigh : x.units < x.units / twoTo 1074 * twoTo 1074 + twoTo 1074 :=
        Nat.lt_div_mul_add hpos
      rw [Nat.succ_mul] at hunits
      have hdiv : -(x.units : ℤ) / twoTo 1074 = -((x.units / twoTo 1074 : ℕ) + 1 : ℤ) := by
        refine ((Int.ediv_emod_unique (r := x.floor.units - x.units) hscale).mpr
          ⟨?_, by omega, by omega⟩).1
        rw [hunits]
        push_cast
        ring
      rw [hdiv, hunits]
      push_cast
      ring

theorem toRat_floor (x : Binary64) : x.floor.toRat = ⌊x.toRat⌋ := by
  have hscale : (twoTo 1074 : ℚ) ≠ 0 := Nat.cast_ne_zero.mpr (twoTo_pos 1074).ne'
  rw [toRat_eq, toRat_eq, Rat.floor_intCast_div_natCast, signedUnits_floor, Int.cast_mul,
    Int.cast_natCast, mul_div_cancel_right₀ _ hscale]

theorem toRat_eq_natCast_iff {x : Binary64} {n : Nat} :
    x.toRat = n ↔ x.units = n * twoTo 1074 ∧ (x.negative = true → x.magnitude = 0) := by
  have hscale : (twoTo 1074 : ℚ) ≠ 0 := Nat.cast_ne_zero.mpr (twoTo_pos 1074).ne'
  have hzero := @units_pos_iff x
  have hsigned : x.toRat = n ↔ x.signedUnits = (n * twoTo 1074 : ℕ) := by
    rw [toRat_eq, div_eq_iff hscale, ← Nat.cast_mul, ← Int.cast_natCast (n * _), Int.cast_inj]
  rw [hsigned]
  generalize n * twoTo 1074 = count
  cases hsign : x.negative
  · rw [signedUnits_of_positive hsign, Int.natCast_inj]
    exact (and_iff_left nofun).symm
  · rw [signedUnits_of_negative hsign, imp_iff_right rfl]
    omega

theorem exponent_lt_of_natural {x : Binary64} {n : Nat} (h : x.units = n * twoTo 1074)
    (hlt : n < twoTo 64) : x.biasedExponent < 1087 := by
  refine Nat.not_le.mp fun hlarge => ?_
  obtain ⟨exponent, hexponent⟩ := @exists_exponent x (by omega)
  have hunits := (units_mem_binade hexponent).1
  have hbound : n * twoTo 1074 < twoTo 64 * twoTo 1074 :=
    Nat.mul_lt_mul_of_pos_right hlt (twoTo_pos 1074)
  rw [h] at hunits
  rw [← twoTo_add] at hbound
  exact Nat.not_lt.mpr (Nat.le_trans (twoTo_le (by omega)) hunits) hbound

theorem isFinite_of_toRat {x : Binary64} {n : Nat} (h : x.toRat = n) (hlt : n < twoTo 64) :
    x.IsFinite := by
  have hexponent := exponent_lt_of_natural (toRat_eq_natCast_iff.mp h).1 hlt
  exact Nat.ne_of_lt (Nat.lt_trans hexponent (by decide))

theorem units_of_large {x : Binary64} (h : 1075 ≤ x.biasedExponent) :
    x.units = (twoTo 52 + x.fraction) * twoTo (x.biasedExponent - 1075) * twoTo 1074 := by
  obtain ⟨exponent, hexponent⟩ := @exists_exponent x (by omega)
  have hshift : x.biasedExponent - 1075 + 1074 = exponent := by omega
  rw [units_of_normal hexponent, Nat.mul_assoc, ← twoTo_add, hshift]

theorem units_eq_iff_of_small {x : Binary64} {n : Nat} (hone : 1023 ≤ x.biasedExponent)
    (h : x.biasedExponent ≤ 1075) :
    x.units = n * twoTo 1074 ↔
      twoTo 52 + x.fraction = n * twoTo (1075 - x.biasedExponent) := by
  obtain ⟨exponent, hexponent⟩ := exists_exponent hone
  have hscale : twoTo 1074 = twoTo (1075 - x.biasedExponent) * twoTo exponent := by
    have hshift : 1075 - x.biasedExponent + exponent = 1074 := by omega
    rw [← twoTo_add, hshift]
  rw [units_of_normal hexponent, hscale, ← Nat.mul_assoc]
  exact Nat.mul_left_inj (twoTo_pos exponent).ne'

theorem exponent_of_natural {x : Binary64} {n : Nat} (hne : x.magnitude ≠ 0)
    (h : x.units = n * twoTo 1074) (hlt : n < twoTo 64) :
    1023 ≤ x.biasedExponent ∧ x.biasedExponent < 1087 := by
  have hpos : 0 < x.units := units_pos_iff.mpr (Nat.pos_of_ne_zero hne)
  refine ⟨Nat.not_lt.mp fun hsmall => ?_, exponent_lt_of_natural h hlt⟩
  have hone := units_lt_one hsmall
  rw [h] at hpos hone
  have hn : n < 1 := Nat.lt_of_mul_lt_mul_right (hone.trans_eq (Nat.one_mul _).symm)
  rw [Nat.lt_one_iff.mp hn, Nat.zero_mul] at hpos
  exact Nat.lt_irrefl 0 hpos

theorem toUnsigned?_eq_some_iff_of_lt {x : Binary64} {n : Nat} (hlt : n < twoTo 64) :
    x.toUnsigned? = some n ↔ x.toRat = n := by
  rw [toRat_eq_natCast_iff, toUnsigned?]
  split
  · next hzero =>
    have hunits : x.units = 0 := Nat.eq_zero_of_not_pos fun h => (units_pos_iff.mp h).ne' hzero
    constructor
    · rintro ⟨⟩
      exact ⟨hunits.trans (Nat.zero_mul _).symm, fun _ => hzero⟩
    · rintro ⟨hvalue, -⟩
      rw [hunits, zero_eq_mul] at hvalue
      rw [hvalue.resolve_right (twoTo_pos 1074).ne']
  · next hne =>
    split
    · next hout =>
      constructor
      · intro h
        cases h
      · rintro ⟨hvalue, hsign⟩
        have hexponent := exponent_of_natural hne hvalue hlt
        rcases hout with hnegative | hsmall | hlarge
        · exact absurd (hsign hnegative) hne
        · omega
        · omega
    · next hin =>
      obtain ⟨hpositive, hone, hbelow⟩ := not_or.mp hin |>.imp_right not_or.mp
      rw [and_iff_left fun hnegative => absurd hnegative hpositive]
      dsimp only
      split
      · next hlarge =>
        rw [units_of_large hlarge, Option.some.injEq]
        exact (Nat.mul_left_inj (twoTo_pos 1074).ne').symm
      · next hsmall =>
        have hunit := twoTo_pos (1075 - x.biasedExponent)
        rw [units_eq_iff_of_small (Nat.not_lt.mp hone) (Nat.le_of_not_le hsmall)]
        split
        · next hwhole =>
          rw [Option.some.injEq, Nat.div_eq_iff_eq_mul_left hunit (Nat.dvd_of_mod_eq_zero hwhole)]
        · next hbroken =>
          constructor
          · intro h
            cases h
          · intro hvalue
            rw [hvalue, Nat.mul_mod_left] at hbroken
            exact absurd rfl hbroken

theorem toUnsigned?_eq_some_iff {x : Binary64} {n : Nat} :
    x.toUnsigned? = some n ↔ x.IsFinite ∧ x.toRat = n ∧ n < twoTo 64 := by
  constructor
  · intro h
    have hlt := toUnsigned?_lt h
    have hvalue := (toUnsigned?_eq_some_iff_of_lt hlt).mp h
    exact ⟨isFinite_of_toRat hvalue hlt, hvalue, hlt⟩
  · rintro ⟨-, hvalue, hlt⟩
    exact (toUnsigned?_eq_some_iff_of_lt hlt).mpr hvalue

theorem isFinite_floor {x : Binary64} (h : x.IsFinite) : x.floor.IsFinite := by
  rw [isFinite_iff] at h ⊢
  rcases floor_cases x with ⟨-, -, hbelow⟩ | ⟨-, -, habove⟩
  · exact hbelow ▸ Nat.lt_of_le_of_lt x.wholeBelow_le h
  · exact habove ▸ wholeAbove_lt h (by decide)

theorem wholePart_of_toRat {x : Binary64} {n : Nat} (h : x.toRat = n) : x.wholePart = n := by
  rw [wholePart, (toRat_eq_natCast_iff.mp h).1, Nat.mul_div_cancel _ (twoTo_pos 1074)]

theorem toRat_zero : zero.toRat = 0 := by
  have hzero : zero.toRat = (0 : Nat) :=
    toRat_eq_natCast_iff.mpr ⟨units_zero.trans (Nat.zero_mul _).symm, fun _ => rfl⟩
  rw [hzero, Nat.cast_zero]

theorem isFinite_countLimit : countLimit.IsFinite := by decide

theorem toRat_countLimit : countLimit.toRat = twoTo 64 := by
  have hexponent : countLimit.biasedExponent = 1086 + 1 := by decide
  have hfraction : countLimit.fraction = 0 := by decide
  rw [toRat_eq_natCast_iff, units_of_normal hexponent, hfraction, Nat.add_zero, ← twoTo_add,
    ← twoTo_add]
  exact ⟨rfl, nofun⟩

theorem atLeast_countLimit_iff {x : Binary64} (h : x.IsFinite) :
    x.floor.atLeast countLimit = true ↔ (twoTo 64 : ℤ) ≤ ⌊x.toRat⌋ := by
  rw [atLeast_iff (isFinite_floor h) isFinite_countLimit, toRat_countLimit, toRat_floor,
    ← Int.cast_natCast, Int.cast_le]

theorem count?_eq_some_iff {x : Binary64} {n : Nat} :
    x.count? = some n ↔ x.IsFinite ∧ x.toRat = n ∧ n < twoTo 64 := by
  rw [count?]
  constructor
  · intro h
    split at h
    · cases h
    · next hsign =>
      obtain ⟨hfinite, hnonneg⟩ := not_or.mp hsign |>.imp_left not_not.mp
      split at h
      · cases h
      · next hwhole =>
        obtain ⟨hequal, hbelow⟩ := not_or.mp hwhole |>.imp_left not_not.mp
        rw [less_iff hfinite (by decide), toRat_zero, not_lt] at hnonneg
        rw [equal_iff (isFinite_floor hfinite) hfinite] at hequal
        rw [atLeast_countLimit_iff hfinite, not_le] at hbelow
        obtain ⟨count, hcount⟩ := Int.eq_ofNat_of_zero_le (Int.floor_nonneg.mpr hnonneg)
        have hvalue : x.floor.toRat = count := by rw [toRat_floor, hcount, Int.cast_natCast]
        cases h
        rw [wholePart_of_toRat hvalue]
        exact ⟨hfinite, hequal.symm.trans hvalue, Int.ofNat_lt.mp (hcount ▸ hbelow)⟩
  · rintro ⟨hfinite, hvalue, hlt⟩
    have hfloor : x.floor.toRat = n := by rw [toRat_floor, hvalue, Int.floor_natCast]; rfl
    rw [if_neg, if_neg, wholePart_of_toRat hfloor]
    · rw [equal_iff (isFinite_floor hfinite) hfinite, hfloor, hvalue,
        atLeast_countLimit_iff hfinite, hvalue, Int.floor_natCast]
      rintro (hne | hle)
      · exact hne rfl
      · exact Nat.not_lt.mpr (Int.ofNat_le.mp hle) hlt
    · rw [less_iff hfinite (by decide), toRat_zero, hvalue]
      rintro (hinfinite | hnegative)
      · exact hinfinite hfinite
      · exact (Nat.cast_nonneg n).not_gt hnegative

/-- A number is read as a count exactly if it is finite and a natural number below 2^64, and then as
itself; negative zero is zero. The comparisons of `count?` come to the same: the limit is the number
that 2^64 - 1 is rounded to, and a finite number has its floor below this limit exactly if the floor
is below 2^64. -/
theorem unsigned_exact_at_limits (x : Binary64) :
    (∀ n : ℕ, (Json.number x).unsigned? = some n ↔ x.IsFinite ∧ x.toRat = n ∧ n < 2 ^ 64) ∧
      (Json.number x).unsigned? = x.count? ∧
      ofDecimal? ⟨false, 2 ^ 64 - 1, 0⟩ = some countLimit ∧ countLimit.toRat = 2 ^ 64 ∧
      (x.IsFinite ∧ x.floor.atLeast countLimit = true ↔ x.IsFinite ∧ 2 ^ 64 ≤ ⌊x.toRat⌋) := by
  have hread : ∀ n, (Json.number x).unsigned? = some n ↔ x.count? = some n :=
    fun n => toUnsigned?_eq_some_iff.trans count?_eq_some_iff.symm
  refine ⟨fun n => toUnsigned?_eq_some_iff, Option.ext hread, ofDecimal?_greatest, ?_, ?_⟩
  · exact toRat_countLimit.trans (Nat.cast_pow 2 64)
  · exact and_congr_right fun hfinite => atLeast_countLimit_iff hfinite

end DetectorCache.Binary64
