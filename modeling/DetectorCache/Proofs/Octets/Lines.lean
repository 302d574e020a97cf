import DetectorCache.Proofs.StoredIds.RoundTrip

set_option autoImplicit false

namespace DetectorCache.Octets

/-- The lines of a text, without the line feeds that end them. What comes after the last line feed
is no line. -/
def lines (text : Octets) : List Octets := (pieces lineFeed text).dropLast

theorem length_pieces (separator : UInt8) (text : Octets) :
    (pieces separator text).length = text.count separator + 1 := by
  induction text with
  | nil => rfl
  | cons b text ih =>
    rw [pieces, List.count_cons]
    split
    · next hb => rw [List.length_cons, ih, hb, if_pos BEq.rfl]
    · next hb =>
      have hpieces := pieces_ne_nil separator text
      cases hrest : pieces separator text with
      | nil => exact absurd hrest hpieces
      | cons piece others =>
        rw [hrest, List.length_cons] at ih
        rw [List.length_cons, ih, beq_false_of_ne hb, if_neg Bool.false_ne_true, Nat.add_zero]

theorem length_lines (text : Octets) : (lines text).length = text.count lineFeed := by
  rw [lines, List.length_dropLast, length_pieces, Nat.add_sub_cancel]

theorem lines_append_lineFeed {line : Octets} (h : lineFeed ∉ line) (rest : Octets) :
    lines (line ++ lineFeed :: rest) = line :: lines rest := by
  rw [lines, pieces_append_separator h, List.dropLast_cons_of_ne_nil (pieces_ne_nil _ _), lines]

theorem lines_flatMap {written : List Octets} (h : ∀ line ∈ written, lineFeed ∉ line) :
    lines (written.flatMap fun line => line ++ [lineFeed]) = written := by
  induction written with
  | nil => rfl
  | cons line written ih =>
    rw [List.flatMap_cons, List.append_assoc, List.singleton_append,
      lines_append_lineFeed (h line List.mem_cons_self),
      ih fun other hother => h other (List.mem_cons_of_mem _ hother)]

theorem mem_joined {separator : Octets} {items : List Octets} {b : UInt8}
    (h : b ∈ joined separator items) : b ∈ separator ∨ ∃ item ∈ items, b ∈ item := by
  have hall : ∀ written : Octets, b ∈ items.foldl (appendSeparated separator) written →
      b ∈ written ∨ b ∈ separator ∨ ∃ item ∈ items, b ∈ item := by
    clear h
    induction items with
    | nil => exact fun _ hb => Or.inl hb
    | cons item items ih =>
      intro written hb
      rcases ih _ hb with hwritten | hseparator | ⟨other, hother, hin⟩
      · have hitem : b ∈ written ∨ b ∈ separator ∨ b ∈ item := by
          rw [appendSeparated] at hwritten
          split at hwritten
          · exact Or.inr (Or.inr hwritten)
          · simpa [or_assoc] using hwritten
        exact hitem.imp_right (Or.imp_right fun hin => ⟨item, List.mem_cons_self, hin⟩)
      · exact Or.inr (Or.inl hseparator)
      · exact Or.inr (Or.inr ⟨other, List.mem_cons_of_mem _ hother, hin⟩)
  exact (hall [] h).resolve_left List.not_mem_nil

theorem isDigit_of_mem_decimal {n : Nat} {b : UInt8} (h : b ∈ decimal n) : isDigit b = true := by
  obtain ⟨c, hc, rfl⟩ := List.mem_map.mp h
  have hdigit : c.isDigit = true :=
    Nat.isDigit_of_mem_toDigits (by decide) (Nat.le_refl 10) hc
  have hlow : 48 ≤ c.val.toNat := by
    simpa [UInt32.le_iff_toNat_le] using (Bool.and_eq_true_iff.mp hdigit).1
  have hhigh : c.val.toNat ≤ 57 := by
    simpa [UInt32.le_iff_toNat_le] using (Bool.and_eq_true_iff.mp hdigit).2
  have hoctet : c.toUInt8.toNat = c.val.toNat % 256 := UInt32.toNat_toUInt8 c.val
  simp only [isDigit, Bool.and_eq_true, decide_eq_true_eq, UInt8.le_iff_toNat_le, hoctet,
    UInt8.reduceToNat]
  omega

end DetectorCache.Octets
