import DetectorCache.Json.Document

set_option autoImplicit false

namespace DetectorCache.Document

open Octets (ascii)

inductive Refusal (π : Type) where
  | notJson (error : Json.ParseError)
  | problem (cause : π)

def Refusal.message {π : Type} (describe : π → Octets) : Refusal π → Octets
  | .notJson error => error.message
  | .problem cause => describe cause

def ofText {π α : Type} (ofJson : Json → Except π α) (text : Octets) : Except (Refusal π) α :=
  match Json.parse text with
  | .error error => .error (.notJson error)
  | .ok root =>
    match ofJson root with
    | .error problem => .error (.problem problem)
    | .ok value => .ok value

theorem bind_eq_ok_iff {π α β : Type} {first : Except π α} {rest : α → Except π β} {b : β} :
    (first >>= rest) = .ok b ↔ ∃ a, first = .ok a ∧ rest a = .ok b := by
  cases first <;> simp [bind, Except.bind]

theorem eq_ok_of_toOption {π α : Type} {reading : Except π α} {value : α}
    (h : reading.toOption = some value) : reading = .ok value := by
  cases reading with
  | error problem => cases h
  | ok a => rw [Option.some.inj h]

theorem ofText_eq_ok_iff {π α : Type} {ofJson : Json → Except π α} {text : Octets} {value : α} :
    ofText ofJson text = .ok value ↔
      ∃ root, Json.parse text = .ok root ∧ ofJson root = .ok value := by
  rw [ofText]
  cases Json.parse text with
  | error error => simp
  | ok root => cases h : ofJson root <;> simp [h]

abbrev Files := Octets → Option Octets

inductive FileRefusal (π : Type) where
  | cannotOpen (path : Octets)
  | inFile (path : Octets) (refusal : Refusal π)

def FileRefusal.message {π : Type} (describe : π → Octets) : FileRefusal π → Octets
  | .cannotOpen path => ascii "unable to open file: " ++ path
  | .inFile path refusal => path ++ ascii ": " ++ refusal.message describe

def ofFile {π α : Type} (ofJson : Json → Except π α) (files : Files) (path : Octets) :
    Except (FileRefusal π) α :=
  match files path with
  | none => .error (.cannotOpen path)
  | some text =>
    match ofText ofJson text with
    | .error refusal => .error (.inFile path refusal)
    | .ok value => .ok value

end DetectorCache.Document
