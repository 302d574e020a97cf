import DetectorCache.Proofs.Document.Schema

set_option autoImplicit false

namespace DetectorCache

open Octets (ascii)
open Document (Path Schema Exact readMember readOptional readBoth readObject readArray readWithin
  readString readBool)

namespace Operand

def schema : Schema Operand :=
  .object (.both Operand.mk (.member (ascii "key") .string) (.member (ascii "value") .string))

def Problem.path : Problem → Path
  | .notObject => []
  | .keyNotString => [.member (ascii "key")]
  | .valueNotString => [.member (ascii "value")]

def Problem.complaint : Problem → Octets
  | .notObject => ascii " must be an object with key and value"
  | .keyNotString | .valueNotString => ascii " must be a string"

theorem Problem.message_eq (place : Octets) (problem : Problem) :
    problem.message place = place ++ (problem.path.below ++ problem.complaint) := by
  cases problem <;> rfl

theorem ofJson_eq : ofJson = readObject .notObject (readBoth Operand.mk
    (readMember (ascii "key") .keyNotString (readString .keyNotString))
    (readMember (ascii "value") .valueNotString (readString .valueNotString))) := by
  funext json
  cases json with
  | object members =>
    simp only [ofJson, readObject, readBoth, readMember]
    cases (Json.object members).member? (ascii "key") with
    | none => rfl
    | some key =>
      cases key with
      | string key =>
        cases (Json.object members).member? (ascii "value") with
        | none => rfl
        | some value => cases value <;> rfl
      | _ => rfl
  | _ => rfl

theorem ofJson_exact : Exact schema [] ofJson Problem.path := by
  rw [ofJson_eq]
  exact .object (.both (.member (.string rfl) rfl) (.member (.string rfl) rfl)) rfl

end Operand

namespace Expression

/-- An object with the operands in order; the operator is that of conjunctions. -/
def schema : Schema Expression :=
  .object (.both (fun _ operands => operands)
    (.optional (ascii "operator") () (.whole fun json _ => json = .string (ascii "AND")))
    (.member (ascii "operands") (.array Operand.schema)))

def Problem.path : Problem → Path
  | .notObject => []
  | .operatorNotAnd => [.member (ascii "operator")]
  | .operandsNotArray => [.member (ascii "operands")]
  | .operand index problem => .member (ascii "operands") :: .item index :: problem.path

def Problem.complaint : Problem → Octets
  | .notObject => ascii " must be an object"
  | .operatorNotAnd => ascii " must be \"AND\" (only conjunctive expressions are supported)"
  | .operandsNotArray => ascii " must be an array"
  | .operand _ problem => problem.complaint

theorem Problem.message_eq (problem : Problem) :
    problem.message = ascii "expression" ++ (problem.path.below ++ problem.complaint) := by
  cases problem with
  | operand index problem =>
    rw [Problem.message, Operand.Problem.message_eq]
    simp [itemPath, Problem.path, Path.below, Problem.complaint, ascii]
  | _ => decide +kernel

def operatorOfJson (json : Json) : Except Problem Unit :=
  match json with
  | .string operator => if operator = ascii "AND" then .ok () else .error .operatorNotAnd
  | _ => .error .operatorNotAnd

theorem operatorOfJson_exact :
    Exact (.whole fun json _ => json = .string (ascii "AND")) [.member (ascii "operator")]
      operatorOfJson Problem.path := by
  refine .whole (fun json _ => ?_) (fun json problem hread => ?_)
  · cases json <;> simp [operatorOfJson]
  · unfold operatorOfJson at hread
    repeat' split at hread
    all_goals cases hread <;> rfl

theorem operandsOfJson_eq : operandsOfJson = readMember (ascii "operands") .operandsNotArray
    (readArray .operandsNotArray .operand Operand.ofJson) := by
  funext json
  simp only [operandsOfJson, readMember]
  cases json.member? (ascii "operands") with
  | none => rfl
  | some value =>
    cases value with
    | array items => cases h : readItems Operand.ofJson 0 items <;> simp [readArray, h]
    | _ => rfl

theorem ofJson_eq : ofJson = readObject .notObject (readBoth (fun _ operands => operands)
    (readOptional (ascii "operator") () operatorOfJson) operandsOfJson) := by
  funext json
  cases json with
  | object members =>
    simp only [ofJson, readObject, readBoth, readOptional]
    cases (Json.object members).member? (ascii "operator") with
    | none => cases operandsOfJson (.object members) <;> rfl
    | some value =>
      cases value with
      | string operator =>
        simp only [operatorOfJson]
        split
        · cases operandsOfJson (.object members) <;> rfl
        · rfl
      | _ => rfl
  | _ => rfl

theorem ofJson_exact : Exact schema [] ofJson Problem.path := by
  rw [ofJson_eq, operandsOfJson_eq]
  refine .object (.both (.optional operatorOfJson_exact) (.member ?operands rfl)) rfl
  exact .array Operand.ofJson_exact rfl fun _ _ => rfl

end Expression

namespace Detector

def idSchema : Schema Octets :=
  .whole fun json id => ∃ text : Octets,
    json = .string text ∧ id = text.toLower ∧ DetectorId.isCanonical id

/-- An object with an id; the detector is enabled unless it says otherwise. -/
def schema : Schema Detector :=
  .object (.both Detector.mk (.member (ascii "uuid") idSchema)
    (.optional (ascii "enabled") true .bool))

end Detector

namespace Mapping

def schema : Schema Mapping :=
  .object (.both Mapping.mk (.member (ascii "detector") Detector.schema)
    (.member (ascii "expression") Expression.schema))

def Problem.path : Problem → Path
  | .notObject => []
  | .detectorNotObject => [.member (ascii "detector")]
  | .uuidNotString | .notUuid _ => [.member (ascii "detector"), .member (ascii "uuid")]
  | .enabledNotBool => [.member (ascii "detector"), .member (ascii "enabled")]
  | .noExpression => [.member (ascii "expression")]
  | .expression problem => .member (ascii "expression") :: problem.path

def Problem.complaint : Problem → Octets
  | .notObject => ascii ".mapping must be an object"
  | .detectorNotObject => ascii " must be an object"
  | .uuidNotString => ascii " must be a string"
  | .notUuid cause => ascii ": " ++ cause.message
  | .enabledNotBool => ascii " must be a bool"
  | .noExpression => ascii " is required"
  | .expression problem => problem.complaint

theorem Problem.message_eq (problem : Problem) :
    ascii "." ++ problem.message = problem.path.below ++ problem.complaint := by
  cases problem with
  | expression problem =>
    rw [Problem.message, Expression.Problem.message_eq]
    simp [Problem.path, Path.below, Problem.complaint]
  | notUuid cause =>
    simp [Problem.message, Problem.path, Path.below, Problem.complaint, ascii]
  | _ => decide +kernel

def idOfJson (json : Json) : Except Problem Octets :=
  match json with
  | .string text =>
    match DetectorId.normalize text with
    | .error cause => .error (.notUuid cause)
    | .ok id => .ok id
  | _ => .error .uuidNotString

theorem idOfJson_exact :
    Exact Detector.idSchema [.member (ascii "detector"), .member (ascii "uuid")] idOfJson
      Problem.path := by
  refine .whole (fun json id => ?_) (fun json problem hread => ?_)
  · cases json with
    | string text =>
      have hread : idOfJson (.string text) = .ok id ↔ DetectorId.normalize text = .ok id := by
        rw [idOfJson]
        cases DetectorId.normalize text <;> simp
      rw [hread, DetectorId.normalize_eq_ok_iff]
      simp
    | _ => simp [idOfJson]
  · unfold idOfJson at hread
    repeat' split at hread
    all_goals cases hread <;> rfl

theorem enabledOfJson_eq :
    enabledOfJson = readOptional (ascii "enabled") true (readBool .enabledNotBool) := by
  funext json
  simp only [enabledOfJson, readOptional]
  cases json.member? (ascii "enabled") with
  | none => rfl
  | some value => cases value <;> rfl

theorem detectorOfJson_eq : detectorOfJson = readMember (ascii "detector") .detectorNotObject
    (readObject .detectorNotObject (readBoth Detector.mk
      (readMember (ascii "uuid") .uuidNotString idOfJson) enabledOfJson)) := by
  funext json
  simp only [detectorOfJson, readMember]
  cases json.member? (ascii "detector") with
  | none => rfl
  | some detector =>
    cases detector with
    | object members =>
      simp only [readObject, readBoth, readMember]
      cases (Json.object members).member? (ascii "uuid") with
      | none => rfl
      | some uuid =>
        cases uuid with
        | string text =>
          simp only [idOfJson]
          cases DetectorId.normalize text with
          | error cause => rfl
          | ok id => cases enabledOfJson (.object members) <;> rfl
        | _ => rfl
    | _ => rfl

theorem detectorOfJson_exact : Exact (.member (ascii "detector") Detector.schema) [] detectorOfJson
    Problem.path := by
  rw [detectorOfJson_eq, enabledOfJson_eq]
  exact .member (.object (.both (.member idOfJson_exact rfl) (.optional (.bool rfl))) rfl) rfl

theorem ofJson_eq : ofJson = readObject .notObject (readBoth Mapping.mk detectorOfJson
    (readMember (ascii "expression") .noExpression
      (readWithin .expression Expression.ofJson))) := by
  funext json
  cases json with
  | object members =>
    simp only [ofJson, readObject, readBoth]
    cases detectorOfJson (.object members) with
    | error problem => rfl
    | ok detector =>
      simp only [readMember]
      cases (Json.object members).member? (ascii "expression") with
      | none => rfl
      | some value =>
        simp only [readWithin]
        cases Expression.ofJson value <;> rfl
  | _ => rfl

theorem ofJson_exact : Exact schema [] ofJson Problem.path := by
  rw [ofJson_eq]
  exact .object
    (.both detectorOfJson_exact (.member (.within Expression.ofJson_exact fun _ => rfl) rfl)) rfl

def ListProblem.path : ListProblem → Path
  | .notArray => []
  | .item index problem => .item index :: problem.path

def ListProblem.complaint : ListProblem → Octets
  | .notArray => ascii " must be an array"
  | .item _ problem => problem.complaint

theorem ListProblem.message_eq (place : Octets) (problem : ListProblem) :
    problem.message place = place ++ (problem.path.below ++ problem.complaint) := by
  cases problem with
  | notArray => rfl
  | item index problem =>
    rw [ListProblem.message, List.append_assoc, Problem.message_eq]
    simp [itemPath, ListProblem.path, Path.below, ListProblem.complaint]

theorem listOfJson_eq : listOfJson = readArray .notArray .item ofJson := by
  funext json
  cases json with
  | array items => cases h : readItems ofJson 0 items <;> simp [listOfJson, readArray, h]
  | _ => rfl

theorem listOfJson_exact : Exact (.array schema) [] listOfJson ListProblem.path := by
  rw [listOfJson_eq]
  exact .array ofJson_exact rfl fun _ _ => rfl

end Mapping

namespace Tags

def membersOf (row : List (Octets × Octets)) : List (Octets × Json) :=
  row.map fun e => (e.1, .string e.2)

/-- An object of strings; the first member that is none is to blame. -/
def schema : Schema Tags where
  Written json tags := ∃ row, json = .object (membersOf row) ∧ tags = SortedMap.ofList row
  Offends json path :=
    (¬ Document.IsObject json ∧ path = []) ∨
      ∃ before key value after, json = .object (before ++ (key, value) :: after) ∧
        (∃ row, before = membersOf row) ∧ (¬ ∃ text, value = .string text) ∧
        path = [.member key]

def Problem.path : Problem → Path
  | .notObject => []
  | .valueNotString key => [.member key]

def Problem.complaint : Problem → Octets
  | .notObject => ascii " must be an object of string tags"
  | .valueNotString _ => ascii " must be a string"

theorem Problem.message_eq (place : Octets) (problem : Problem) :
    problem.message place = place ++ (problem.path.below ++ problem.complaint) := by
  cases problem with
  | notObject => rfl
  | valueNotString key =>
    simp [Problem.message, Problem.path, Path.below, Problem.complaint]

theorem ofMembers_eq_ok_iff {start tags : Tags} {members : List (Octets × Json)} :
    ofMembers start members = .ok tags ↔
      ∃ row, members = membersOf row ∧ tags = row.foldl (fun m e => m.insert e.1 e.2) start := by
  constructor
  · intro h
    induction members generalizing start with
    | nil => exact ⟨[], rfl, (Except.ok.inj h).symm⟩
    | cons member members ih =>
      obtain ⟨key, value⟩ := member
      cases value with
      | string text =>
        obtain ⟨row, rfl, htags⟩ := ih h
        exact ⟨(key, text) :: row, rfl, htags⟩
      | _ => cases h
  · rintro ⟨row, rfl, rfl⟩
    induction row generalizing start with
    | nil => rfl
    | cons e row ih => exact ih

theorem ofMembers_eq_error_iff {start : Tags} {members : List (Octets × Json)}
    {problem : Problem} :
    ofMembers start members = .error problem ↔
      ∃ before key value after, members = before ++ (key, value) :: after ∧
        (∃ row, before = membersOf row) ∧ (¬ ∃ text, value = .string text) ∧
        problem = .valueNotString key := by
  constructor
  · intro h
    induction members generalizing start with
    | nil => cases h
    | cons member members ih =>
      obtain ⟨key, value⟩ := member
      cases value with
      | string text =>
        obtain ⟨_, first, value, after, rfl, ⟨row, rfl⟩, hvalue, hproblem⟩ := ih h
        exact ⟨_, first, value, after, rfl, ⟨(key, text) :: row, rfl⟩, hvalue, hproblem⟩
      | _ => cases h; exact ⟨[], key, _, members, rfl, ⟨[], rfl⟩, by simp, rfl⟩
  · rintro ⟨_, key, value, after, rfl, ⟨row, rfl⟩, hvalue, rfl⟩
    induction row generalizing start with
    | nil =>
      cases value with
      | string text => exact absurd ⟨text, rfl⟩ hvalue
      | _ => rfl
    | cons e row ih => exact ih

theorem ofJson_exact : Exact schema [] ofJson Problem.path where
  accepts := by
    intro json tags
    cases json with
    | object members => simp [ofJson, schema, ofMembers_eq_ok_iff, SortedMap.ofList]
    | _ => simp [ofJson, schema]
  sound := by
    intro json problem hread
    cases json with
    | object members =>
      obtain ⟨before, key, value, after, rfl, hbefore, hvalue, rfl⟩ :=
        ofMembers_eq_error_iff.mp hread
      exact ⟨_, Or.inr ⟨before, key, value, after, rfl, hbefore, hvalue, rfl⟩, rfl⟩
    | _ =>
      cases hread
      exact ⟨[], Or.inl ⟨nofun, rfl⟩, rfl⟩
  complete := by
    rintro json rest (⟨hother, rfl⟩ | ⟨before, key, value, after, rfl, hbefore, hvalue, rfl⟩)
    · cases json with
      | object members => exact absurd ⟨members, rfl⟩ hother
      | _ => exact ⟨.notObject, rfl, rfl⟩
    · exact ⟨.valueNotString key,
        ofMembers_eq_error_iff.mpr ⟨before, key, value, after, rfl, hbefore, hvalue, rfl⟩, rfl⟩

def toJson (tags : Tags) : Json := .object (membersOf tags.entries)

theorem eq_toJson_of_written {json : Json} {tags : Tags} (h : schema.Written json tags)
    (hkeys : ∀ members, json = .object members → KeysIncrease members) : json = tags.toJson := by
  obtain ⟨row, rfl, rfl⟩ := h
  have hrow : KeysIncrease row := by
    simpa only [KeysIncrease, membersOf, List.pairwise_map] using hkeys _ rfl
  rw [toJson, SortedMap.ofList_entries ⟨row, hrow⟩]

end Tags

end DetectorCache
