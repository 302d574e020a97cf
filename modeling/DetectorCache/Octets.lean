/-!
Texts as the octets they are made of. Every text the library reads or writes is a list of octets,
compared octet by octet; no encoding is assumed. Here are the octets of ASCII literals, the
character classes the formats use, decimal numerals and the joining of lists.
-/
set_option autoImplicit false

namespace DetectorCache

abbrev Octets := List UInt8

namespace Octets

def ascii (text : String) : Octets := text.toList.map Char.toUInt8

abbrev lineFeed : UInt8 := 10
abbrev quotationMark : UInt8 := 34
abbrev comma : UInt8 := 44
abbrev hyphen : UInt8 := 45
abbrev slash : UInt8 := 47
abbrev colon : UInt8 := 58
abbrev backslash : UInt8 := 92

/-- The six blank octets: tab, line feed, vertical tab, form feed, carriage return and space. -/
def isBlank (b : UInt8) : Bool := b == 32 || (9 ≤ b && b ≤ 13)

def isDigit (b : UInt8) : Bool := 48 ≤ b && b ≤ 57

def hexValue? (b : UInt8) : Option Nat :=
  if 48 ≤ b ∧ b ≤ 57 then some (b.toNat - 48)
  else if 97 ≤ b ∧ b ≤ 102 then some (b.toNat - 87)
  else if 65 ≤ b ∧ b ≤ 70 then some (b.toNat - 55)
  else none

/-- Lower-cases the ASCII letters and leaves every other octet alone. -/
def lower (b : UInt8) : UInt8 := if 65 ≤ b ∧ b ≤ 90 then b + 32 else b

@[simp] theorem lower_lower (b : UInt8) : lower (lower b) = lower b := by
  simp only [lower, UInt8.le_iff_toNat_le]
  split
  · have h : (b + 32).toNat = b.toNat + 32 := by
      rw [UInt8.toNat_add]; simp at *; omega
    rw [h]; simp at *; omega
  · simp_all

def toLower (text : Octets) : Octets := text.map lower

@[simp] theorem toLower_toLower (text : Octets) : text.toLower.toLower = text.toLower := by
  simp [toLower, lower_lower]

def decimal (n : Nat) : Octets := (Nat.toDigits 10 n).map Char.toUInt8

def signedDecimal : Int → Octets
  | .ofNat n => decimal n
  | .negSucc n => hyphen :: decimal (n + 1)

def paddedDecimal (width n : Nat) : Octets :=
  List.replicate (width - (decimal n).length) 48 ++ decimal n

def digitsValue (digits : Octets) : Nat := digits.foldl (fun n d => 10 * n + (d.toNat - 48)) 0

def appendSeparated (separator written item : Octets) : Octets :=
  if written = [] then item else written ++ separator ++ item

/-- Joins texts with a separator. Empty texts at the front leave no separator behind. -/
def joined (separator : Octets) (items : List Octets) : Octets :=
  items.foldl (appendSeparated separator) []

def inApostrophes (text : Octets) : Octets := ascii "'" ++ text ++ ascii "'"

/-- The pieces of a text between the occurrences of `separator`; there is always one more piece
than there are separators. -/
def pieces (separator : UInt8) : Octets → List Octets
  | [] => [[]]
  | b :: rest =>
    if b = separator then [] :: pieces separator rest
    else
      match pieces separator rest with
      | [] => [[b]]
      | piece :: others => (b :: piece) :: others

theorem pieces_ne_nil (separator : UInt8) (text : Octets) : pieces separator text ≠ [] := by
  cases text with
  | nil => simp [pieces]
  | cons b rest =>
    rw [pieces]
    split
    · simp
    · split <;> simp

theorem intercalate_pieces (separator : UInt8) (text : Octets) :
    List.intercalate [separator] (pieces separator text) = text := by
  induction text with
  | nil => rfl
  | cons b rest ih =>
    obtain ⟨piece, others, hpieces⟩ := List.exists_cons_of_ne_nil (pieces_ne_nil separator rest)
    rw [hpieces] at ih
    rw [pieces, hpieces]
    split
    · next hb =>
      rw [List.intercalate_cons_cons, ih, hb]
      rfl
    · cases others with
      | nil => exact congrArg (b :: ·) ih
      | cons next others =>
        rw [List.intercalate_cons_cons] at ih ⊢
        exact congrArg (b :: ·) ih

theorem pieces_injective {separator : UInt8} {text other : Octets}
    (h : pieces separator text = pieces separator other) : text = other := by
  rw [← intercalate_pieces separator text, h, intercalate_pieces]

end Octets

end DetectorCache
