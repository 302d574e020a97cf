import DetectorCache.Proofs.Binary64.Counts

set_option autoImplicit false

namespace DetectorCache.Binary64

theorem nearest_le {a b bound : Nat} (hb : 0 < b) (h : a < bound * b) : nearest a b ≤ bound := by
  have hquotient : a / b < bound := (Nat.div_lt_iff_lt_mul hb).mpr h
  rw [nearest]
  split
  · omega
  · split <;> omega

theorem le_nearest {a b bound : Nat} (hb : 0 < b) (h : bound * b ≤ a) : bound ≤ nearest a b := by
  have hquotient : bound ≤ a / b := (Nat.le_div_iff_mul_le hb).mpr h
  rw [nearest]
  split
  · exact hquotient
  · split <;> omega

/-- A positive natural number in units of the last of its 53 leading bits, rounded. -/
def significandOf (n : Nat) : Nat := nearest (n * twoTo (52 - n.log2)) (twoTo (n.log2 - 52))

theorem shift_cases (exponent : Nat) :
    twoTo (exponent - 52) * twoTo 52 = twoTo exponent * twoTo (52 - exponent) := by
  have hshift : exponent - 52 + 52 = exponent + (52 - exponent) := by omega
  rw [← twoTo_add, ← twoTo_add, hshift]

theorem significandOf_bounds {n : Nat} (h : 0 < n) :
    twoTo 52 ≤ significandOf n ∧ significandOf n ≤ twoTo 53 := by
  have hlow : twoTo n.log2 ≤ n := Nat.log2_self_le h.ne'
  have hhigh : n < twoTo (n.log2 + 1) := Nat.lt_log2_self
  have hshift := shift_cases n.log2
  constructor
  · refine le_nearest (twoTo_pos _) ?_
    rw [Nat.mul_comm, hshift]
    exact Nat.mul_le_mul_right _ hlow
  · refine nearest_le (twoTo_pos _) ?_
    calc n * twoTo (52 - n.log2)
      _ < twoTo (n.log2 + 1) * twoTo (52 - n.log2) :=
        Nat.mul_lt_mul_of_pos_right hhigh (twoTo_pos _)
      _ = twoTo 53 * twoTo (n.log2 - 52) := by
        rw [twoTo_succ, twoTo_succ 52, Nat.mul_assoc, ← hshift, Nat.mul_comm (twoTo _),
          Nat.mul_assoc]

theorem exponentOfRatio_one {n : Nat} (h : 0 < n) : exponentOfRatio n 1 = n.log2 := by
  have hlow : 1 * twoTo n.log2 ≤ n * twoTo 0 := by
    rw [Nat.one_mul]
    exact Nat.le_trans (Nat.log2_self_le h.ne') (Nat.le_mul_of_pos_right n (twoTo_pos 0))
  have hguess : (n.log2 : Int) - (Nat.log2 1 : Nat) = n.log2 := Int.sub_zero _
  simp only [exponentOfRatio, hguess, Int.toNat_natCast, Int.toNat_neg_natCast]
  exact if_pos hlow

theorem nearestUnits_one (n : Nat) : nearestUnits n 1 (n.log2 - 52) = significandOf n := by
  have hfine : (-((n.log2 : Int) - 52)).toNat = 52 - n.log2 := by omega
  have hcoarse : ((n.log2 : Int) - 52).toNat = n.log2 - 52 := by omega
  rw [nearestUnits, hfine, hcoarse, Nat.one_mul, significandOf]

theorem magnitude_lt_infinity {n : Nat} (h : 0 < n) (hlt : n < twoTo 64) :
    (n.log2 + 1022) * twoTo 52 + significandOf n < infinity := by
  have hlog : n.log2 < 64 := (Nat.log2_lt h.ne').mpr hlt
  have hbounds := significandOf_bounds h
  have hdouble : twoTo 53 = 2 * twoTo 52 := twoTo_succ 52
  have hpos := twoTo_pos 52
  have hexponents : (n.log2 + 1022) * twoTo 52 ≤ 1085 * twoTo 52 :=
    Nat.mul_le_mul_right _ (by omega)
  unfold infinity
  omega

theorem magnitudeOfRatio?_one {n : Nat} (h : 0 < n) (hlt : n < twoTo 64) :
    magnitudeOfRatio? n 1 = some ((n.log2 + 1022) * twoTo 52 + significandOf n) := by
  have hunit : max ((n.log2 : Int) - 52) (-1074) = n.log2 - 52 := by omega
  have hexponent : ((n.log2 : Int) - 52 + 1074).toNat = n.log2 + 1022 := by omega
  have hinrange : ¬ (infinity ≤ (n.log2 + 1022) * twoTo 52 + significandOf n ∨
      Underflows n 1 n.log2) := by
    rintro (hlarge | ⟨hsmall, -⟩)
    · exact Nat.not_lt.mpr hlarge (magnitude_lt_infinity h hlt)
    · omega
  simp only [magnitudeOfRatio?, exponentOfRatio_one h, hunit, hexponent, nearestUnits_one]
  exact if_neg hinrange

theorem magnitudeOfDecimal?_natural {n : Nat} (h : 0 < n) (hlt : n < twoTo 64) :
    magnitudeOfDecimal? n 0 = some ((n.log2 + 1022) * twoTo 52 + significandOf n) := by
  have hlength : (Nat.toDigits 10 n).length ≤ 20 :=
    (Nat.length_toDigits_le_iff (by decide) (by decide)).mpr (Nat.lt_trans hlt (by decide))
  have hnear : ¬ (((Nat.toDigits 10 n).length : Int) + 0 < -farthestDigit ∨
      farthestDigit < ((Nat.toDigits 10 n).length : Int) + 0) := by
    unfold farthestDigit
    omega
  rw [magnitudeOfDecimal?, if_neg hnear]
  exact (congrArg (magnitudeOfRatio? · 1) (Nat.mul_one n)).trans (magnitudeOfRatio?_one h hlt)

/-- The number that a natural number is rounded to. -/
def ofNatural (n : Nat) : Binary64 := (ofDecimal? ⟨false, n, 0⟩).getD zero

theorem ofDecimal?_of_pos {n : Nat} (h : 0 < n) (hlt : n < twoTo 64) :
    ∃ x, ofDecimal? ⟨false, n, 0⟩ = some x ∧ x.negative = false ∧
      x.magnitude = (n.log2 + 1022) * twoTo 52 + significandOf n := by
  have hmagnitude := magnitudeOfDecimal?_natural h hlt
  have hbound := Nat.lt_trans (magnitude_lt_infinity h hlt) (by decide : infinity < twoTo 63)
  refine ⟨⟨false, _, hbound⟩, ?_, rfl, rfl⟩
  simp only [ofDecimal?, if_neg h.ne', hmagnitude]
  exact dif_pos hbound

theorem ofDecimal?_natural {n : Nat} (hlt : n < twoTo 64) :
    ofDecimal? ⟨false, n, 0⟩ = some (ofNatural n) := by
  rcases Nat.eq_zero_or_pos n with rfl | hpos
  · rfl
  · obtain ⟨x, hx, -⟩ := ofDecimal?_of_pos hpos hlt
    rw [ofNatural, hx]
    rfl

theorem significandOf_mul {n : Nat} (h : n ≤ twoTo 53) :
    significandOf n * twoTo (n.log2 - 52) = n * twoTo (52 - n.log2) := by
  rcases Nat.eq_or_lt_of_le h with rfl | hlt
  · decide +kernel
  · have hlog : n.log2 - 52 = 0 := by
      rcases Nat.eq_zero_or_pos n with rfl | hpos
      · rfl
      · have hbits := (Nat.log2_lt hpos.ne').mpr hlt
        omega
    have hone : twoTo 0 = 1 := rfl
    have hexact := nearest_mul (n * twoTo (52 - n.log2)) (twoTo_pos 0)
    rw [hone, Nat.mul_one] at hexact
    rw [significandOf, hlog, hone, Nat.mul_one, hexact]

theorem units_of_natural {x : Binary64} {n : Nat} (hpos : 0 < n) (h : n ≤ twoTo 53)
    (hmagnitude : x.magnitude = (n.log2 + 1022) * twoTo 52 + significandOf n) :
    x.units = n * twoTo 1074 := by
  obtain ⟨hlow, hhigh⟩ := significandOf_bounds hpos
  have hshift : n.log2 + 1022 + (52 - n.log2) = n.log2 - 52 + 1074 := by omega
  rw [units_of_significand hmagnitude hlow hhigh]
  refine Nat.eq_of_mul_eq_mul_right (twoTo_pos (52 - n.log2)) ?_
  calc significandOf n * twoTo (n.log2 + 1022) * twoTo (52 - n.log2)
    _ = significandOf n * twoTo (n.log2 - 52) * twoTo 1074 := by
      rw [Nat.mul_assoc, Nat.mul_assoc, ← twoTo_add, ← twoTo_add, hshift]
    _ = n * twoTo 1074 * twoTo (52 - n.log2) := by
      rw [significandOf_mul h, Nat.mul_right_comm]

theorem toRat_ofNatural {n : Nat} (h : n ≤ twoTo 53) : (ofNatural n).toRat = n := by
  rcases Nat.eq_zero_or_pos n with rfl | hpos
  · exact toRat_zero.trans Nat.cast_zero.symm
  · have hlt : n < twoTo 64 := Nat.lt_of_le_of_lt h (by decide)
    obtain ⟨x, hx, hsign, hmagnitude⟩ := ofDecimal?_of_pos hpos hlt
    have hsame : ofNatural n = x := Option.some.inj ((ofDecimal?_natural hlt).symm.trans hx)
    rw [hsame, toRat_eq_natCast_iff, hsign]
    exact ⟨units_of_natural hpos h hmagnitude, nofun⟩

theorem toUnsigned?_ofNatural {n : Nat} (h : n ≤ twoTo 53) :
    (ofNatural n).toUnsigned? = some n :=
  (toUnsigned?_eq_some_iff_of_lt (Nat.lt_of_le_of_lt h (by decide))).mpr (toRat_ofNatural h)

end DetectorCache.Binary64
