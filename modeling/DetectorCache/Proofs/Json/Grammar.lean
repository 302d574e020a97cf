import DetectorCache.Binary64.Rounding
import DetectorCache.Json
import DetectorCache.Octets.Utf8
/-!
The grammar of JSON texts and the values that they have. It is that of RFC 8259, except that
vertical tabs and form feeds are blanks too, that an escaped code point is no surrogate, that a
numeral has to be in range, and that values nest to a limited depth.
-/
set_option autoImplicit false

namespace DetectorCache.Json.Grammar

open Octets (ascii digitsValue)

def blankOctets : Octets := [9, 10, 11, 12, 13, 32]

def Blanks (text : Octets) : Prop := ∀ b ∈ text, b ∈ blankOctets

def Digits (text : Octets) : Prop := text ≠ [] ∧ ∀ b ∈ text, b ∈ ascii "0123456789"

inductive Sign : Octets → Bool → Prop where
  | plus : Sign [] false
  | minus : Sign (ascii "-") true

inductive Whole : Octets → Prop where
  | zero : Whole (ascii "0")
  | row {text : Octets} (h : Digits text) (hfirst : text.head? ≠ (ascii "0").head?) : Whole text

inductive Fraction : Octets → Octets → Prop where
  | none : Fraction [] []
  | some {digits : Octets} (h : Digits digits) : Fraction (ascii "." ++ digits) digits

inductive ExponentSign : Octets → Bool → Prop where
  | none : ExponentSign [] false
  | plus : ExponentSign (ascii "+") false
  | minus : ExponentSign (ascii "-") true

inductive Exponent : Octets → Int → Prop where
  | none : Exponent [] 0
  | some {letter : UInt8} {sign digits : Octets} {negative : Bool} (hletter : letter ∈ ascii "eE")
      (hsign : ExponentSign sign negative) (h : Digits digits) :
      Exponent (letter :: (sign ++ digits))
        (if negative then -(digitsValue digits : Int) else digitsValue digits)

/-- A numeral, and the decimal number that it writes down. -/
inductive Numeral : Octets → Binary64.Decimal → Prop where
  | mk {sign whole fraction exponent digits : Octets} {negative : Bool} {size : Int}
      (hsign : Sign sign negative) (hwhole : Whole whole) (hfraction : Fraction fraction digits)
      (hexponent : Exponent exponent size) :
      Numeral (sign ++ (whole ++ (fraction ++ exponent)))
        ⟨negative, digitsValue (whole ++ digits), size - digits.length⟩

def shortEscapes : List (UInt8 × UInt8) :=
  (ascii "\"\\/bfnrt").zip [34, 92, 47, 8, 12, 10, 13, 9]

inductive HexDigit : UInt8 → Nat → Prop where
  | decimal {n : Nat} (h : n < 10) : HexDigit (48 + n).toUInt8 n
  | lower {n : Nat} (h : n < 6) : HexDigit (97 + n).toUInt8 (10 + n)
  | upper {n : Nat} (h : n < 6) : HexDigit (65 + n).toUInt8 (10 + n)

/-- One unit of a string and the octets it stands for: an octet that stands for itself, an escape of
one octet, or the escape of a code point. -/
inductive Unit : Octets → Octets → Prop where
  | plain {b : UInt8} (hprinted : 32 ≤ b) (hquote : b ≠ 34) (hbackslash : b ≠ 92) : Unit [b] [b]
  | short {letter b : UInt8} (h : (letter, b) ∈ shortEscapes) : Unit (ascii "\\" ++ [letter]) [b]
  | codePoint {a b c d : UInt8} {i j k l : Nat} (ha : HexDigit a i) (hb : HexDigit b j)
      (hc : HexDigit c k) (hd : HexDigit d l)
      (hscalar : Octets.IsScalar (16 * (16 * (16 * i + j) + k) + l)) :
      Unit (ascii "\\u" ++ [a, b, c, d]) (Octets.encode (16 * (16 * (16 * i + j) + k) + l))

inductive Units : Octets → Octets → Prop where
  | nil : Units [] []
  | cons {unit octets text value : Octets} (h : Unit unit octets) (hrest : Units text value) :
      Units (unit ++ text) (octets ++ value)

inductive Quoted : Octets → Octets → Prop where
  | mk {text value : Octets} (h : Units text value) :
      Quoted (ascii "\"" ++ text ++ ascii "\"") value

/-- The members of an object by name, each with the value of its last mention. -/
def LastOf (members held : List (Octets × Json)) : Prop :=
  KeysIncrease held ∧ ∀ name, held.lookup name = members.reverse.lookup name

section

variable (item : Octets → Json → Prop)

inductive Items : Octets → List Json → Prop where
  | last {before text after : Octets} {value : Json} (hbefore : Blanks before)
      (h : item text value) (hafter : Blanks after) : Items (before ++ (text ++ after)) [value]
  | next {before text after rest : Octets} {value : Json} {others : List Json}
      (hbefore : Blanks before) (h : item text value) (hafter : Blanks after)
      (hrest : Items rest others) :
      Items (before ++ (text ++ (after ++ (ascii "," ++ rest)))) (value :: others)

inductive Member : Octets → Octets × Json → Prop where
  | mk {before text after between inner behind : Octets} {name : Octets} {value : Json}
      (hbefore : Blanks before) (hname : Quoted text name) (hafter : Blanks after)
      (hbetween : Blanks between) (h : item inner value) (hbehind : Blanks behind) :
      Member (before ++ (text ++ (after ++ (ascii ":" ++ (between ++ (inner ++ behind))))))
        (name, value)

inductive Members : Octets → List (Octets × Json) → Prop where
  | last {text : Octets} {member : Octets × Json} (h : Member item text member) :
      Members text [member]
  | next {text rest : Octets} {member : Octets × Json} {others : List (Octets × Json)}
      (h : Member item text member) (hrest : Members rest others) :
      Members (text ++ (ascii "," ++ rest)) (member :: others)

/-- A value, given the values that may lie right inside it. -/
inductive ValueOf : Octets → Json → Prop where
  | null : ValueOf (ascii "null") .null
  | true : ValueOf (ascii "true") (.bool true)
  | false : ValueOf (ascii "false") (.bool false)
  | number {text : Octets} {decimal : Binary64.Decimal} {x : Binary64} (h : Numeral text decimal)
      (hx : Binary64.ofDecimal? decimal = some x) : ValueOf text (.number x)
  | string {text value : Octets} (h : Quoted text value) : ValueOf text (.string value)
  | emptyArray {blanks : Octets} (h : Blanks blanks) :
      ValueOf (ascii "[" ++ (blanks ++ ascii "]")) (.array [])
  | array {text : Octets} {items : List Json} (h : Items item text items) :
      ValueOf (ascii "[" ++ (text ++ ascii "]")) (.array items)
  | emptyObject {blanks : Octets} (h : Blanks blanks) :
      ValueOf (ascii "\x7b" ++ (blanks ++ ascii "\x7d")) (.object [])
  | object {text : Octets} {members held : List (Octets × Json)} (h : Members item text members)
      (hheld : LastOf members held) :
      ValueOf (ascii "\x7b" ++ (text ++ ascii "\x7d")) (.object held)

end

/-- A value with at most the given number of levels of values inside it. -/
def Value : Nat → Octets → Json → Prop
  | 0 => ValueOf fun _ _ => False
  | levels + 1 => ValueOf (Value levels)

/-- A document: a value with blanks around it that nests no value deeper than in 64 others. -/
inductive Document : Octets → Json → Prop where
  | mk {before text after : Octets} {value : Json} (hbefore : Blanks before)
      (h : Value 64 text value) (hafter : Blanks after) :
      Document (before ++ (text ++ after)) value

end DetectorCache.Json.Grammar
