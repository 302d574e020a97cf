import DetectorCache.Octets

set_option autoImplicit false

namespace DetectorCache.Octets

/-- Code points that stand for a character: all but the surrogates, up to U+10FFFF. -/
def IsScalar (codePoint : Nat) : Prop :=
  codePoint < 0xD800 ∨ (0xDFFF < codePoint ∧ codePoint ≤ 0x10FFFF)

instance (codePoint : Nat) : Decidable (IsScalar codePoint) := inferInstanceAs (Decidable (_ ∨ _))

def continuation (bits : Nat) : UInt8 := (0x80 + bits % 64).toUInt8

def encode (codePoint : Nat) : Octets :=
  if codePoint < 0x80 then [codePoint.toUInt8]
  else if codePoint < 0x800 then [(0xC0 + codePoint / 64).toUInt8, continuation codePoint]
  else if codePoint < 0x10000 then
    [(0xE0 + codePoint / 4096).toUInt8, continuation (codePoint / 64), continuation codePoint]
  else
    [(0xF0 + codePoint / 262144).toUInt8, continuation (codePoint / 4096),
      continuation (codePoint / 64), continuation codePoint]

def IsUtf8 (text : Octets) : Prop :=
  ∃ scalars : List Nat, (∀ c ∈ scalars, IsScalar c) ∧ text = scalars.flatMap encode

theorem isUtf8_nil : IsUtf8 [] := ⟨[], by simp, rfl⟩

theorem IsUtf8.append {s t : Octets} : IsUtf8 s → IsUtf8 t → IsUtf8 (s ++ t)
  | ⟨xs, hx, hs⟩, ⟨ys, hy, ht⟩ => ⟨xs ++ ys, by
      intro c hc
      exact (List.mem_append.mp hc).elim (hx c) (hy c), by simp [hs, ht]⟩

theorem isUtf8_encode {codePoint : Nat} (h : IsScalar codePoint) : IsUtf8 (encode codePoint) :=
  ⟨[codePoint], by simpa using h, by simp⟩

private def isContinuation (b : UInt8) : Bool := 0x80 ≤ b && b ≤ 0xBF

/-- The octets that may follow a given first octet of a three-octet form: the first of them is
narrowed where a shorter form or a surrogate would result. -/
private def mayFollowThree (a b : UInt8) : Bool :=
  isContinuation b && (a != 0xE0 || 0xA0 ≤ b) && (a != 0xED || b ≤ 0x9F)

private def mayFollowFour (a b : UInt8) : Bool :=
  isContinuation b && (a != 0xF0 || 0x90 ≤ b) && (a != 0xF4 || b ≤ 0x8F)

def isUtf8 : Octets → Bool
  | [] => true
  | a :: rest =>
    if a < 0x80 then isUtf8 rest
    else if 0xC2 ≤ a ∧ a ≤ 0xDF then
      match rest with
      | b :: rest => isContinuation b && isUtf8 rest
      | [] => false
    else if 0xE0 ≤ a ∧ a ≤ 0xEF then
      match rest with
      | b :: c :: rest => mayFollowThree a b && isContinuation c && isUtf8 rest
      | _ => false
    else if 0xF0 ≤ a ∧ a ≤ 0xF4 then
      match rest with
      | b :: c :: d :: rest =>
        mayFollowFour a b && isContinuation c && isContinuation d && isUtf8 rest
      | _ => false
    else false

/-! `isUtf8` takes a character off the text by its first octet; what is taken is an encoded scalar
value, and every one is taken whole. -/

theorem toNat_toUInt8 {n : Nat} (h : n < 256) : n.toUInt8.toNat = n := by
  rw [Nat.toUInt8_eq, UInt8.toNat_ofNat', Nat.mod_eq_of_lt h]

theorem toUInt8_eq {b : UInt8} {n : Nat} (h : n = b.toNat) : n.toUInt8 = b := by
  rw [h, Nat.toUInt8_eq, UInt8.ofNat_toNat]

theorem toNat_continuation (bits : Nat) : (continuation bits).toNat = 128 + bits % 64 :=
  toNat_toUInt8 (by omega)

private theorem isContinuation_iff {b : UInt8} :
    isContinuation b = true ↔ 128 ≤ b.toNat ∧ b.toNat < 192 := by
  simp only [isContinuation, Bool.and_eq_true, decide_eq_true_eq, UInt8.le_iff_toNat_le,
    UInt8.reduceToNat]
  omega

private theorem mayFollowThree_iff {a b : UInt8} :
    mayFollowThree a b = true ↔ 128 ≤ b.toNat ∧ b.toNat < 192 ∧
      (a.toNat = 0xE0 → 0xA0 ≤ b.toNat) ∧ (a.toNat = 0xED → b.toNat < 0xA0) := by
  simp only [mayFollowThree, Bool.and_eq_true, isContinuation_iff, Bool.or_eq_true,
    bne_iff_ne, ne_eq, decide_eq_true_eq, UInt8.le_iff_toNat_le, ← UInt8.toNat_inj,
    UInt8.reduceToNat]
  omega

private theorem mayFollowFour_iff {a b : UInt8} :
    mayFollowFour a b = true ↔ 128 ≤ b.toNat ∧ b.toNat < 192 ∧
      (a.toNat = 0xF0 → 0x90 ≤ b.toNat) ∧ (a.toNat = 0xF4 → b.toNat < 0x90) := by
  simp only [mayFollowFour, Bool.and_eq_true, isContinuation_iff, Bool.or_eq_true,
    bne_iff_ne, ne_eq, decide_eq_true_eq, UInt8.le_iff_toNat_le, ← UInt8.toNat_inj,
    UInt8.reduceToNat]
  omega

private theorem isUtf8_one {a : UInt8} (h : a.toNat < 128) (rest : Octets) :
    isUtf8 (a :: rest) = isUtf8 rest := by
  rw [isUtf8.eq_def]
  exact if_pos (UInt8.lt_iff_toNat_lt.mpr h)

private theorem isUtf8_two {a : UInt8} (h : 0xC2 ≤ a.toNat ∧ a.toNat ≤ 0xDF) (b : UInt8)
    (rest : Octets) : isUtf8 (a :: b :: rest) = (isContinuation b && isUtf8 rest) := by
  rw [isUtf8.eq_def]
  simp only [UInt8.lt_iff_toNat_lt, UInt8.le_iff_toNat_le, UInt8.reduceToNat]
  rw [if_neg (by omega), if_pos h]

private theorem isUtf8_three {a : UInt8} (h : 0xE0 ≤ a.toNat ∧ a.toNat ≤ 0xEF) (b c : UInt8)
    (rest : Octets) : isUtf8 (a :: b :: c :: rest) =
      (mayFollowThree a b && isContinuation c && isUtf8 rest) := by
  rw [isUtf8.eq_def]
  simp only [UInt8.lt_iff_toNat_lt, UInt8.le_iff_toNat_le, UInt8.reduceToNat]
  rw [if_neg (by omega), if_neg (by omega), if_pos h]

private theorem isUtf8_four {a : UInt8} (h : 0xF0 ≤ a.toNat ∧ a.toNat ≤ 0xF4) (b c d : UInt8)
    (rest : Octets) : isUtf8 (a :: b :: c :: d :: rest) =
      (mayFollowFour a b && isContinuation c && isContinuation d && isUtf8 rest) := by
  rw [isUtf8.eq_def]
  simp only [UInt8.lt_iff_toNat_lt, UInt8.le_iff_toNat_le, UInt8.reduceToNat]
  rw [if_neg (by omega), if_neg (by omega), if_neg (by omega), if_pos h]

theorem isUtf8_encode_append {codePoint : Nat} (h : IsScalar codePoint) (rest : Octets) :
    isUtf8 (encode codePoint ++ rest) = isUtf8 rest := by
  unfold IsScalar at h
  have hlast := toNat_continuation codePoint
  have hsecond := toNat_continuation (codePoint / 64)
  have hthird := toNat_continuation (codePoint / 4096)
  rw [encode]
  split
  · have hfirst := toNat_toUInt8 (n := codePoint) (by omega)
    exact isUtf8_one (by omega) rest
  · split
    · have hfirst := toNat_toUInt8 (n := 0xC0 + codePoint / 64) (by omega)
      rw [List.cons_append, List.cons_append, isUtf8_two (by omega),
        isContinuation_iff.mpr (by omega)]
      rfl
    · split
      · have hfirst := toNat_toUInt8 (n := 0xE0 + codePoint / 4096) (by omega)
        rw [List.cons_append, List.cons_append, List.cons_append, isUtf8_three (by omega),
          mayFollowThree_iff.mpr (by omega), isContinuation_iff.mpr (by omega)]
        rfl
      · have hfirst := toNat_toUInt8 (n := 0xF0 + codePoint / 262144) (by omega)
        rw [List.cons_append, List.cons_append, List.cons_append, List.cons_append,
          isUtf8_four (by omega), mayFollowFour_iff.mpr (by omega),
          isContinuation_iff.mpr (by omega), isContinuation_iff.mpr (by omega)]
        rfl

theorem isUtf8_append_of_encode {codePoint : Nat} {octets rest : Octets} (h : IsScalar codePoint)
    (hencode : encode codePoint = octets) (hrest : IsUtf8 rest) : IsUtf8 (octets ++ rest) :=
  hencode ▸ (isUtf8_encode h).append hrest

theorem isUtf8_sound {text : Octets} (h : isUtf8 text = true) : IsUtf8 text := by
  fun_induction isUtf8 text with
  | case1 => exact isUtf8_nil
  | case2 a rest hone ih =>
    have hlt : a.toNat < 128 := UInt8.lt_iff_toNat_lt.mp hone
    have hencode : encode a.toNat = [a] := by
      rw [encode, if_pos hlt, toUInt8_eq rfl]
    exact isUtf8_append_of_encode (Or.inl (by omega)) hencode (ih h)
  | case3 a _ htwo b rest ih =>
    rw [Bool.and_eq_true, isContinuation_iff] at h
    simp only [UInt8.le_iff_toNat_le, UInt8.reduceToNat] at htwo
    have hencode : encode ((a.toNat - 0xC0) * 64 + (b.toNat - 128)) = [a, b] := by
      rw [encode, if_neg (by omega), if_pos (by omega), continuation,
        toUInt8_eq (b := a) (by omega), toUInt8_eq (b := b) (by omega)]
    exact isUtf8_append_of_encode (Or.inl (by omega)) hencode (ih h.2)
  | case5 a _ _ hthree b c rest ih =>
    rw [Bool.and_eq_true, Bool.and_eq_true, mayFollowThree_iff, isContinuation_iff] at h
    simp only [UInt8.le_iff_toNat_le, UInt8.reduceToNat] at hthree
    have hencode :
        encode ((a.toNat - 0xE0) * 4096 + (b.toNat - 128) * 64 + (c.toNat - 128)) = [a, b, c] := by
      rw [encode, if_neg (by omega), if_neg (by omega), if_pos (by omega), continuation,
        continuation, toUInt8_eq (b := a) (by omega), toUInt8_eq (b := b) (by omega),
        toUInt8_eq (b := c) (by omega)]
    refine isUtf8_append_of_encode ?_ hencode (ih h.2)
    unfold IsScalar
    omega
  | case7 a _ _ _ hfour b c d rest ih =>
    rw [Bool.and_eq_true, Bool.and_eq_true, Bool.and_eq_true, mayFollowFour_iff,
      isContinuation_iff, isContinuation_iff] at h
    simp only [UInt8.le_iff_toNat_le, UInt8.reduceToNat] at hfour
    have hencode : encode ((a.toNat - 0xF0) * 262144 + (b.toNat - 128) * 4096 +
        (c.toNat - 128) * 64 + (d.toNat - 128)) = [a, b, c, d] := by
      rw [encode, if_neg (by omega), if_neg (by omega), if_neg (by omega), continuation,
        continuation, continuation, toUInt8_eq (b := a) (by omega), toUInt8_eq (b := b) (by omega),
        toUInt8_eq (b := c) (by omega), toUInt8_eq (b := d) (by omega)]
    refine isUtf8_append_of_encode ?_ hencode (ih h.2)
    unfold IsScalar
    omega
  | case4 | case6 | case8 | case9 => cases h

theorem isUtf8_iff {text : Octets} : isUtf8 text = true ↔ IsUtf8 text := by
  refine ⟨isUtf8_sound, ?_⟩
  rintro ⟨scalars, hscalars, rfl⟩
  induction scalars with
  | nil => rfl
  | cons c scalars ih =>
    rw [List.flatMap_cons, isUtf8_encode_append (hscalars c List.mem_cons_self)]
    exact ih fun c hc => hscalars c (List.mem_cons_of_mem _ hc)

end DetectorCache.Octets
