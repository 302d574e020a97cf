import DetectorCache.Document
import DetectorCache.Mapping.Document

set_option autoImplicit false

namespace DetectorCache.Replay

open Octets (ascii)

inductive Step where
  | lookup (tags : Tags)
  | refresh (mappings : List Mapping)
  deriving DecidableEq

structure Plan where
  mappings : List Mapping
  steps : List Step
  deriving DecidableEq

inductive Step.Problem where
  | notOneMember
  | unknownKind (kind : Octets)
  | lookup (problem : Tags.Problem)
  | refresh (problem : Mapping.ListProblem)
  deriving DecidableEq

def Step.Problem.message (path : Octets) : Step.Problem → Octets
  | .notOneMember => path ++ ascii " must be an object with exactly one of: lookup, refresh"
  | .unknownKind kind => path ++ ascii ": unknown step kind " ++ kind.inApostrophes
  | .lookup problem => problem.message (path ++ ascii ".lookup")
  | .refresh problem => problem.message (path ++ ascii ".refresh")

def Step.ofJson : Json → Except Step.Problem Step
  | .object [(kind, body)] =>
    if kind = ascii "lookup" then
      match Tags.ofJson body with
      | .error problem => .error (.lookup problem)
      | .ok tags => .ok (.lookup tags)
    else if kind = ascii "refresh" then
      match Mapping.listOfJson body with
      | .error problem => .error (.refresh problem)
      | .ok mappings => .ok (.refresh mappings)
    else .error (.unknownKind kind)
  | _ => .error .notOneMember

inductive Plan.Problem where
  | rootNotObject
  | mappings (problem : Mapping.ListProblem)
  | stepsNotArray
  | step (index : Nat) (problem : Step.Problem)
  deriving DecidableEq

def Plan.Problem.message : Plan.Problem → Octets
  | .rootNotObject => ascii "replay root must be a JSON object"
  | .mappings problem => problem.message (ascii "mappings")
  | .stepsNotArray => ascii "steps must be an array"
  | .step index problem => problem.message (itemPath (ascii "steps") index)

def Plan.mappingsOfJson (root : Json) : Except Plan.Problem (List Mapping) :=
  match root.member? (ascii "mappings") with
  | none => .ok []
  | some value =>
    match Mapping.listOfJson value with
    | .error problem => .error (.mappings problem)
    | .ok mappings => .ok mappings

def Plan.stepsOfJson (root : Json) : Except Plan.Problem (List Step) :=
  match root.member? (ascii "steps") with
  | some (.array items) =>
    match readItems Step.ofJson 0 items with
    | .error (index, problem) => .error (.step index problem)
    | .ok steps => .ok steps
  | _ => .error .stepsNotArray

def Plan.ofJson (root : Json) : Except Plan.Problem Plan :=
  match root with
  | .object _ =>
    match Plan.mappingsOfJson root with
    | .error problem => .error problem
    | .ok mappings =>
      match Plan.stepsOfJson root with
      | .error problem => .error problem
      | .ok steps => .ok ⟨mappings, steps⟩
  | _ => .error .rootNotObject

end DetectorCache.Replay
