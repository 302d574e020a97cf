import DetectorCache.Octets

set_option autoImplicit false

namespace DetectorCache.Json

open Octets (ascii)

inductive Fault where
  | tooDeep
  | endOfInput
  | noValue
  | invalidLiteral
  | missingColon
  | missingObjectComma
  | missingArrayComma
  | missingQuotationMark
  | unterminatedString
  | controlCharacter
  | invalidEscape
  | truncatedCodePoint
  | invalidHexDigit
  | surrogate
  | missingDigits
  | missingFraction
  | missingExponent
  | outOfRange
  | trailingContent
  deriving DecidableEq

def Fault.message : Fault → Octets
  | .tooDeep => ascii "document nesting is too deep"
  | .endOfInput => ascii "unexpected end of input while parsing value"
  | .noValue => ascii "expected JSON value"
  | .invalidLiteral => ascii "invalid literal"
  | .missingColon => ascii "expected ':' after object key"
  | .missingObjectComma => ascii "expected ',' or '\x7d' in object"
  | .missingArrayComma => ascii "expected ',' or ']' in array"
  | .missingQuotationMark => ascii "expected '\"' to start string"
  | .unterminatedString => ascii "unterminated string literal"
  | .controlCharacter => ascii "control character in string is not allowed"
  | .invalidEscape => ascii "invalid escape sequence in string"
  | .truncatedCodePoint => ascii "truncated \\u escape"
  | .invalidHexDigit => ascii "invalid hex digit in \\u escape"
  | .surrogate => ascii "surrogate \\u escapes are not supported"
  | .missingDigits => ascii "expected digits in number"
  | .missingFraction => ascii "expected digits after decimal point"
  | .missingExponent => ascii "expected exponent digits"
  | .outOfRange => ascii "numeric value out of range"
  | .trailingContent => ascii "unexpected trailing content after JSON value"

structure Failure where
  fault : Fault
  unread : Nat
  deriving DecidableEq

/-- A place in a text, lines and columns counted from 1 and columns in octets. -/
structure Position where
  line : Nat
  column : Nat
  deriving DecidableEq

def Position.next (p : Position) (b : UInt8) : Position :=
  if b = Octets.lineFeed then ⟨p.line + 1, 1⟩ else ⟨p.line, p.column + 1⟩

def Position.after (text : Octets) : Position := text.foldl Position.next ⟨1, 1⟩

structure ParseError where
  position : Position
  fault : Fault
  deriving DecidableEq

def Failure.locate (failure : Failure) (text : Octets) : ParseError :=
  ⟨Position.after (text.take (text.length - failure.unread)), failure.fault⟩

def ParseError.message (e : ParseError) : Octets :=
  ascii "parse error at line " ++ Octets.decimal e.position.line ++ ascii ", col " ++
    Octets.decimal e.position.column ++ ascii ": " ++ e.fault.message

/-- Reads a value off the front of a text and returns it with the rest, which is shorter. -/
structure Reader (α : Type) where
  read : Octets → Except Failure (α × Octets)
  shrinks : ∀ {text rest : Octets} {value : α}, read text = .ok (value, rest) →
    rest.length < text.length

def skipBlanks (text : Octets) : Octets := text.dropWhile Octets.isBlank

theorem length_skipBlanks_le (text : Octets) : (skipBlanks text).length ≤ text.length :=
  (List.dropWhile_sublist _).length_le

end DetectorCache.Json
