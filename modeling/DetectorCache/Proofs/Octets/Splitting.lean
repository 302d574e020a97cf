import DetectorCache.Octets.Utf8

set_option autoImplicit false

namespace DetectorCache.Octets

def IsAscii (text : Octets) : Prop := ∀ b ∈ text, b < 128

instance (text : Octets) : Decidable (IsAscii text) := List.decidableBAll _ _

theorem IsAscii.append {s t : Octets} (hs : IsAscii s) (ht : IsAscii t) : IsAscii (s ++ t) :=
  fun b hb => (List.mem_append.mp hb).elim (hs b) (ht b)

theorem toNat_ge_of_mem_encode {codePoint : Nat} (h : IsScalar codePoint) (hlong : 128 ≤ codePoint)
    {b : UInt8} (hb : b ∈ encode codePoint) : 128 ≤ b.toNat := by
  unfold IsScalar at h
  have htwo := toNat_toUInt8 (n := 0xC0 + codePoint / 64)
  have hthree := toNat_toUInt8 (n := 0xE0 + codePoint / 4096)
  have hfour := toNat_toUInt8 (n := 0xF0 + codePoint / 262144)
  have hfollow : ∀ bits, 128 ≤ (continuation bits).toNat := by
    intro bits
    rw [toNat_continuation]
    exact Nat.le_add_right ..
  rw [encode, if_neg (Nat.not_lt.mpr hlong)] at hb
  repeat' split at hb
  all_goals simp only [List.mem_cons, List.not_mem_nil, or_false] at hb
  · rcases hb with rfl | rfl
    · omega
    · exact hfollow _
  · rcases hb with rfl | rfl | rfl
    · omega
    · exact hfollow _
    · exact hfollow _
  · rcases hb with rfl | rfl | rfl | rfl
    · omega
    · exact hfollow _
    · exact hfollow _
    · exact hfollow _

theorem encode_of_mem_of_ascii {codePoint : Nat} (h : IsScalar codePoint) {b : UInt8}
    (hb : b ∈ encode codePoint) (hascii : b < 128) : encode codePoint = [b] := by
  by_cases hlong : 128 ≤ codePoint
  · have hge := toNat_ge_of_mem_encode h hlong hb
    have hlt : b.toNat < 128 := UInt8.lt_iff_toNat_lt.mp hascii
    omega
  · rw [encode, if_pos (Nat.lt_of_not_le hlong)] at hb ⊢
    rw [List.mem_singleton.mp hb]

/-- Before an ASCII character, and after it, a text can be cut. -/
theorem IsUtf8.of_append_cons {s t : Octets} {b : UInt8} (h : IsUtf8 (s ++ b :: t))
    (hascii : b < 128) : IsUtf8 s ∧ IsUtf8 t := by
  obtain ⟨scalars, hscalars, htext⟩ := h
  induction scalars generalizing s with
  | nil => cases List.append_ne_nil_of_right_ne_nil s (List.cons_ne_nil b t) htext
  | cons c scalars ih =>
    have hc := hscalars c List.mem_cons_self
    have hrest : ∀ c ∈ scalars, IsScalar c := fun c hc => hscalars c (List.mem_cons_of_mem _ hc)
    rw [List.flatMap_cons] at htext
    rcases List.append_eq_append_iff.mp htext with ⟨cut, hfirst, htail⟩ | ⟨cut, rfl, htail⟩
    · cases cut with
      | nil =>
        -- the cut falls right after the first character
        rw [List.append_nil] at hfirst
        rw [List.nil_append] at htail
        obtain ⟨-, ht⟩ := ih (s := []) hrest htail
        exact ⟨hfirst ▸ isUtf8_encode hc, ht⟩
      | cons first cut =>
        -- the ASCII character is the first one
        obtain ⟨rfl, rfl⟩ := List.cons.inj htail
        have hmem : b ∈ encode c := hfirst ▸ List.mem_append_right s List.mem_cons_self
        rw [encode_of_mem_of_ascii hc hmem hascii] at hfirst
        obtain ⟨rfl, hcut⟩ := List.append_eq_singleton_iff.mp hfirst.symm |>.resolve_right (by simp)
        obtain ⟨-, rfl⟩ := List.cons.inj hcut
        exact ⟨isUtf8_nil, scalars, hrest, rfl⟩
    · obtain ⟨hs, ht⟩ := ih hrest htail.symm
      exact ⟨(isUtf8_encode hc).append hs, ht⟩

theorem IsUtf8.split {s middle t : Octets} (h : IsUtf8 (s ++ (middle ++ t)))
    (hascii : IsAscii middle) (hne : middle ≠ []) : IsUtf8 s ∧ IsUtf8 t := by
  induction middle generalizing s with
  | nil => exact absurd rfl hne
  | cons b middle ih =>
    obtain ⟨hs, hrest⟩ := h.of_append_cons (hascii b List.mem_cons_self)
    refine ⟨hs, ?_⟩
    cases middle with
    | nil => exact hrest
    | cons b' middle =>
      have htail : IsAscii (b' :: middle) := fun b hb => hascii b (List.mem_cons_of_mem _ hb)
      exact (ih (s := []) hrest htail (List.cons_ne_nil _ _)).2

theorem IsUtf8.of_ascii_append {s t : Octets} (h : IsUtf8 (s ++ t)) (hascii : IsAscii s) :
    IsUtf8 t := by
  cases s with
  | nil => exact h
  | cons b s => exact (IsUtf8.split (s := []) h hascii (List.cons_ne_nil _ _)).2

theorem IsUtf8.of_append_ascii {s t : Octets} (h : IsUtf8 (s ++ t)) (hascii : IsAscii t) :
    IsUtf8 s := by
  cases t with
  | nil => rwa [List.append_nil] at h
  | cons b t => exact (h.of_append_cons (hascii b List.mem_cons_self)).1

end DetectorCache.Octets
