import DetectorCache.Proofs.Octets.Decimals
import Mathlib.Data.List.Forall2

set_option autoImplicit false

namespace DetectorCache.Octets

theorem append_lt_append {first second : Octets} (hlength : first.length = second.length)
    (h : first < second) (rest others : Octets) : first ++ rest < second ++ others := by
  induction first generalizing second with
  | nil =>
    rw [List.length_eq_zero_iff.mp hlength.symm] at h
    exact absurd h (List.lt_irrefl _)
  | cons b first ih =>
    cases second with
    | nil => cases hlength
    | cons c second =>
      rw [List.cons_lt_cons_iff] at h
      refine List.cons_lt_cons_iff.mpr ?_
      rcases h with hlt | ⟨heq, hlt⟩
      · exact Or.inl hlt
      · exact Or.inr ⟨heq, ih (Nat.succ.inj hlength) hlt⟩

/-- A column of digits and the mark that ends it. -/
structure Field where
  width : Nat
  mark : UInt8
  width_pos : 0 < width := by decide
  mark_ne : mark ≠ 100 := by decide

/-- In a pattern a `d` is any digit; everything else stands for itself. -/
def Matches (letter b : UInt8) : Prop := if letter = 100 then isDigit b = true else b = letter

def Follows (pattern text : Octets) : Prop := List.Forall₂ Matches pattern text

namespace Field

def pattern (fields : List Field) : Octets :=
  fields.flatMap fun field => List.replicate field.width 100 ++ [field.mark]

def Fits (field : Field) (value : Nat) : Prop := value < 10 ^ field.width

def write (field : Field) (value : Nat) : Octets :=
  paddedDecimal field.width value ++ [field.mark]

def writeAll : List Field → List Nat → Octets
  | field :: fields, value :: values => field.write value ++ writeAll fields values
  | _, _ => []

def readAll : List Field → Octets → List Nat
  | [], _ => []
  | field :: fields, text =>
    digitsValue (text.take field.width) :: readAll fields (text.drop (field.width + 1))

theorem follows_digits {digits : Octets} (h : ∀ b ∈ digits, isDigit b = true) :
    Follows (List.replicate digits.length 100) digits := by
  induction digits with
  | nil => exact List.Forall₂.nil
  | cons d digits ih =>
    obtain ⟨hd, hdigits⟩ := List.forall_mem_cons.mp h
    exact List.Forall₂.cons hd (ih hdigits)

theorem length_digits {field : Field} {value : Nat} (h : field.Fits value) :
    (paddedDecimal field.width value).length = field.width :=
  length_paddedDecimal field.width_pos h

theorem follows_write {field : Field} {value : Nat} (h : field.Fits value) :
    Follows (List.replicate field.width 100 ++ [field.mark]) (field.write value) := by
  refine List.rel_append ?_ (List.Forall₂.cons ?_ List.Forall₂.nil)
  · have hdigits := @follows_digits (paddedDecimal field.width value)
      fun _ => isDigit_of_mem_paddedDecimal
    rwa [length_digits h] at hdigits
  · unfold Matches
    rw [if_neg field.mark_ne]

theorem follows_writeAll {fields : List Field} {values : List Nat}
    (h : List.Forall₂ Fits fields values) : Follows (pattern fields) (writeAll fields values) := by
  induction h with
  | nil => exact List.Forall₂.nil
  | cons hfirst _ ih => exact List.rel_append (follows_write hfirst) ih

theorem readAll_writeAll {fields : List Field} {values : List Nat}
    (h : List.Forall₂ Fits fields values) : readAll fields (writeAll fields values) = values := by
  induction h with
  | nil => rfl
  | @cons field value fields values hfirst _ ih =>
    have hlength := length_digits hfirst
    have hwrite : (field.write value).length = field.width + 1 := by
      rw [write, List.length_append, hlength, List.length_singleton]
    rw [writeAll, readAll, List.drop_left' hwrite, ih, write, List.append_assoc,
      List.take_left' hlength, digitsValue_paddedDecimal]

/-- The texts are ordered like the rows: the first column that differs decides. -/
theorem writeAll_lt {fields : List Field} {values others : List Nat}
    (h : List.Forall₂ Fits fields values) (hothers : List.Forall₂ Fits fields others)
    (hlt : values < others) : writeAll fields values < writeAll fields others := by
  induction h generalizing others with
  | nil =>
    cases hothers
    exact absurd hlt (List.lt_irrefl _)
  | @cons field value fields values hfirst _ ih =>
    cases hothers with
    | @cons _ other _ others hother hothers =>
      rcases List.cons_lt_cons_iff.mp hlt with hvalue | ⟨rfl, hrest⟩
      · have hdigits := paddedDecimal_lt field.width_pos hvalue hother
        have hlength := (length_digits hfirst).trans (length_digits hother).symm
        simp only [writeAll, write, List.append_assoc]
        exact append_lt_append hlength hdigits _ _
      · exact List.append_left_lt (ih hothers hrest)

end Field

end DetectorCache.Octets
