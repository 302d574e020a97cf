import DetectorCache.Json
import DetectorCache.Mapping

set_option autoImplicit false

namespace DetectorCache

open Octets (ascii)

def itemPath (path : Octets) (index : Nat) : Octets :=
  path ++ ascii "[" ++ Octets.decimal index ++ ascii "]"

/-- Reads the items of an array in order, counting from `index`; the first one that cannot be read
is reported with its index. -/
def readItems {ε α : Type} (read : Json → Except ε α) (index : Nat) :
    List Json → Except (Nat × ε) (List α)
  | [] => .ok []
  | item :: items =>
    match read item with
    | .error e => .error (index, e)
    | .ok value =>
      match readItems read (index + 1) items with
      | .error e => .error e
      | .ok values => .ok (value :: values)

namespace Operand

inductive Problem where
  | notObject
  | keyNotString
  | valueNotString
  deriving DecidableEq

def Problem.message (path : Octets) : Problem → Octets
  | .notObject => path ++ ascii " must be an object with key and value"
  | .keyNotString => path ++ ascii ".key must be a string"
  | .valueNotString => path ++ ascii ".value must be a string"

def ofJson (json : Json) : Except Problem Operand :=
  match json with
  | .object _ =>
    match json.member? (ascii "key") with
    | some (.string key) =>
      match json.member? (ascii "value") with
      | some (.string value) => .ok ⟨key, value⟩
      | _ => .error .valueNotString
    | _ => .error .keyNotString
  | _ => .error .notObject

end Operand

namespace Expression

inductive Problem where
  | notObject
  | operatorNotAnd
  | operandsNotArray
  | operand (index : Nat) (problem : Operand.Problem)
  deriving DecidableEq

def Problem.message : Problem → Octets
  | .notObject => ascii "expression must be an object"
  | .operatorNotAnd =>
    ascii "expression.operator must be \"AND\" (only conjunctive expressions are supported)"
  | .operandsNotArray => ascii "expression.operands must be an array"
  | .operand index problem => problem.message (itemPath (ascii "expression.operands") index)

def operandsOfJson (json : Json) : Except Problem Expression :=
  match json.member? (ascii "operands") with
  | some (.array items) =>
    match readItems Operand.ofJson 0 items with
    | .error (index, problem) => .error (.operand index problem)
    | .ok operands => .ok operands
  | _ => .error .operandsNotArray

def ofJson (json : Json) : Except Problem Expression :=
  match json with
  | .object _ =>
    match json.member? (ascii "operator") with
    | none => operandsOfJson json
    | some (.string operator) =>
      if operator = ascii "AND" then operandsOfJson json else .error .operatorNotAnd
    | some _ => .error .operatorNotAnd
  | _ => .error .notObject

end Expression

namespace Mapping

inductive Problem where
  | notObject
  | detectorNotObject
  | uuidNotString
  | notUuid (cause : DetectorId.NotUuid)
  | enabledNotBool
  | noExpression
  | expression (problem : Expression.Problem)
  deriving DecidableEq

def Problem.message : Problem → Octets
  | .notObject => ascii "mapping must be an object"
  | .detectorNotObject => ascii "detector must be an object"
  | .uuidNotString => ascii "detector.uuid must be a string"
  | .notUuid cause => ascii "detector.uuid: " ++ cause.message
  | .enabledNotBool => ascii "detector.enabled must be a bool"
  | .noExpression => ascii "expression is required"
  | .expression problem => problem.message

def enabledOfJson (detector : Json) : Except Problem Bool :=
  match detector.member? (ascii "enabled") with
  | none => .ok true
  | some (.bool flag) => .ok flag
  | some _ => .error .enabledNotBool

def detectorOfJson (json : Json) : Except Problem Detector :=
  match json.member? (ascii "detector") with
  | some (.object members) =>
    match (Json.object members).member? (ascii "uuid") with
    | some (.string uuid) =>
      match DetectorId.normalize uuid with
      | .error cause => .error (.notUuid cause)
      | .ok id =>
        match enabledOfJson (.object members) with
        | .error problem => .error problem
        | .ok enabled => .ok ⟨id, enabled⟩
    | _ => .error .uuidNotString
  | _ => .error .detectorNotObject

def ofJson (json : Json) : Except Problem Mapping :=
  match json with
  | .object _ =>
    match detectorOfJson json with
    | .error problem => .error problem
    | .ok detector =>
      match json.member? (ascii "expression") with
      | none => .error .noExpression
      | some value =>
        match Expression.ofJson value with
        | .error problem => .error (.expression problem)
        | .ok expression => .ok ⟨detector, expression⟩
  | _ => .error .notObject

inductive ListProblem where
  | notArray
  | item (index : Nat) (problem : Problem)
  deriving DecidableEq

def ListProblem.message (path : Octets) : ListProblem → Octets
  | .notArray => path ++ ascii " must be an array"
  | .item index problem => itemPath path index ++ ascii "." ++ problem.message

def listOfJson : Json → Except ListProblem (List Mapping)
  | .array items =>
    match readItems ofJson 0 items with
    | .error (index, problem) => .error (.item index problem)
    | .ok mappings => .ok mappings
  | _ => .error .notArray

end Mapping

namespace Tags

inductive Problem where
  | notObject
  | valueNotString (key : Octets)
  deriving DecidableEq

def Problem.message (path : Octets) : Problem → Octets
  | .notObject => path ++ ascii " must be an object of string tags"
  | .valueNotString key => path ++ ascii "." ++ key ++ ascii " must be a string"

def ofMembers (tags : Tags) : List (Octets × Json) → Except Problem Tags
  | [] => .ok tags
  | (key, .string value) :: rest => ofMembers (tags.insert key value) rest
  | (key, _) :: _ => .error (.valueNotString key)

def ofJson : Json → Except Problem Tags
  | .object members => ofMembers ∅ members
  | _ => .error .notObject

end Tags

end DetectorCache
