import DetectorCache.Proofs.Json.Contents
import DetectorCache.Proofs.Mapping.Documents
import DetectorCache.Replay.Plan

set_option autoImplicit false

namespace DetectorCache.Replay

open Octets (ascii)
open Document (Path Schema Exact readMember readOptional readBoth readObject readArray readWithin)

namespace Step

def Holds (json : Json) (name : Octets) (body : Json) : Prop := json = .object [(name, body)]

/-- An object with just one member: a lookup of tags or a refresh with mappings. -/
def schema : Schema Step where
  Written json step :=
    (∃ body tags, Holds json (ascii "lookup") body ∧ Tags.schema.Written body tags ∧
      step = .lookup tags) ∨
    ∃ body mappings, Holds json (ascii "refresh") body ∧
      (Schema.array Mapping.schema).Written body mappings ∧ step = .refresh mappings
  Offends json path :=
    ((¬ ∃ body, Holds json (ascii "lookup") body ∨ Holds json (ascii "refresh") body) ∧
      path = []) ∨
    (∃ body rest, Holds json (ascii "lookup") body ∧ Tags.schema.Offends body rest ∧
      path = .member (ascii "lookup") :: rest) ∨
    ∃ body rest, Holds json (ascii "refresh") body ∧
      (Schema.array Mapping.schema).Offends body rest ∧ path = .member (ascii "refresh") :: rest

def Problem.path : Problem → Path
  | .notOneMember | .unknownKind _ => []
  | .lookup problem => .member (ascii "lookup") :: problem.path
  | .refresh problem => .member (ascii "refresh") :: problem.path

def Problem.complaint : Problem → Octets
  | .notOneMember => ascii " must be an object with exactly one of: lookup, refresh"
  | .unknownKind kind => ascii ": unknown step kind " ++ kind.inApostrophes
  | .lookup problem => problem.complaint
  | .refresh problem => problem.complaint

theorem Problem.message_eq (place : Octets) (problem : Problem) :
    problem.message place = place ++ (problem.path.below ++ problem.complaint) := by
  cases problem with
  | notOneMember => rfl
  | unknownKind kind => exact List.append_assoc _ _ _
  | lookup problem =>
    rw [Problem.message, Tags.Problem.message_eq]
    simp [Problem.path, Path.below, Problem.complaint, ascii]
  | refresh problem =>
    rw [Problem.message, Mapping.ListProblem.message_eq]
    simp [Problem.path, Path.below, Problem.complaint, ascii]

theorem ofJson_eq_ok_iff {json : Json} {step : Step} :
    ofJson json = .ok step ↔ schema.Written json step := by
  constructor
  · intro h
    unfold ofJson at h
    split at h
    · next kind body =>
      split at h
      · next hkind =>
        split at h
        · cases h
        · next tags htags =>
          cases h
          exact Or.inl ⟨body, tags, hkind ▸ rfl, Tags.ofJson_exact.accepts.mp htags, rfl⟩
      · split at h
        · next hkind =>
          split at h
          · cases h
          · next mappings hmappings =>
            cases h
            exact Or.inr ⟨body, mappings, hkind ▸ rfl,
              Mapping.listOfJson_exact.accepts.mp hmappings, rfl⟩
        · cases h
    · cases h
  · rintro (⟨body, tags, rfl, htags, rfl⟩ | ⟨body, mappings, rfl, hmappings, rfl⟩)
    · rw [ofJson, if_pos rfl, Tags.ofJson_exact.accepts.mpr htags]
    · rw [ofJson, if_neg (by decide), if_pos rfl, Mapping.listOfJson_exact.accepts.mpr hmappings]

theorem ofJson_of_other {json : Json}
    (h : ¬ ∃ body, Holds json (ascii "lookup") body ∨ Holds json (ascii "refresh") body) :
    ∃ problem, ofJson json = .error problem ∧ problem.path = [] := by
  unfold ofJson
  split
  · next kind body =>
    have hlookup : kind ≠ ascii "lookup" := fun hkind => h ⟨body, Or.inl (hkind ▸ rfl)⟩
    have hrefresh : kind ≠ ascii "refresh" := fun hkind => h ⟨body, Or.inr (hkind ▸ rfl)⟩
    rw [if_neg hlookup, if_neg hrefresh]
    exact ⟨_, rfl, rfl⟩
  · exact ⟨_, rfl, rfl⟩

theorem ofJson_exact : Exact schema [] ofJson Problem.path where
  accepts := ofJson_eq_ok_iff
  sound := by
    intro json problem h
    by_cases hother :
        ∃ body, Holds json (ascii "lookup") body ∨ Holds json (ascii "refresh") body
    · obtain ⟨body, rfl | rfl⟩ := hother
      · rw [ofJson, if_pos rfl] at h
        split at h
        · next cause htags =>
          cases h
          obtain ⟨rest, hoffends, hpath⟩ := Tags.ofJson_exact.sound htags
          exact ⟨_, Or.inr (Or.inl ⟨body, rest, rfl, hoffends, rfl⟩), congrArg _ hpath⟩
        · cases h
      · rw [ofJson, if_neg (by decide), if_pos rfl] at h
        split at h
        · next cause hmappings =>
          cases h
          obtain ⟨rest, hoffends, hpath⟩ := Mapping.listOfJson_exact.sound hmappings
          exact ⟨_, Or.inr (Or.inr ⟨body, rest, rfl, hoffends, rfl⟩), congrArg _ hpath⟩
        · cases h
    · obtain ⟨_, hproblem, hpath⟩ := ofJson_of_other hother
      rw [h] at hproblem
      cases hproblem
      exact ⟨[], Or.inl ⟨hother, rfl⟩, hpath⟩
  complete := by
    rintro json _ (⟨hother, rfl⟩ | ⟨body, rest, rfl, hoffends, rfl⟩ |
      ⟨body, rest, rfl, hoffends, rfl⟩)
    · exact ofJson_of_other hother
    · obtain ⟨problem, hread, hpath⟩ := Tags.ofJson_exact.complete hoffends
      exact ⟨.lookup problem, by rw [ofJson, if_pos rfl, hread], congrArg _ hpath⟩
    · obtain ⟨problem, hread, hpath⟩ := Mapping.listOfJson_exact.complete hoffends
      refine ⟨.refresh problem, ?_, congrArg _ hpath⟩
      rw [ofJson, if_neg (by decide), if_pos rfl, hread]

end Step

namespace Plan

/-- An object with the steps in order, and before them, unless there are none, the mappings. -/
def schema : Schema Plan :=
  .object (.both Plan.mk (.optional (ascii "mappings") [] (.array Mapping.schema))
    (.member (ascii "steps") (.array Step.schema)))

def Problem.path : Problem → Path
  | .rootNotObject => []
  | .mappings problem => .member (ascii "mappings") :: problem.path
  | .stepsNotArray => [.member (ascii "steps")]
  | .step index problem => .member (ascii "steps") :: .item index :: problem.path

def Problem.complaint : Problem → Octets
  | .rootNotObject => ascii "replay root must be a JSON object"
  | .mappings problem => problem.complaint
  | .stepsNotArray => ascii " must be an array"
  | .step _ problem => problem.complaint

theorem Problem.message_eq (problem : Problem) :
    problem.message = problem.path.text ++ problem.complaint := by
  cases problem with
  | rootNotObject => rfl
  | mappings problem =>
    rw [Problem.message, Mapping.ListProblem.message_eq]
    simp [Problem.path, Path.text, Problem.complaint]
  | stepsNotArray => decide +kernel
  | step index problem =>
    rw [Problem.message, Step.Problem.message_eq]
    simp [itemPath, Problem.path, Path.text, Path.below, Problem.complaint]

theorem mappingsOfJson_eq : mappingsOfJson = readOptional (ascii "mappings") []
    (readWithin .mappings Mapping.listOfJson) := by
  funext root
  simp only [mappingsOfJson, readOptional, readWithin]
  cases root.member? (ascii "mappings") with
  | none => rfl
  | some value => cases h : Mapping.listOfJson value <;> simp [h]

theorem stepsOfJson_eq : stepsOfJson = readMember (ascii "steps") .stepsNotArray
    (readArray .stepsNotArray .step Step.ofJson) := by
  funext root
  simp only [stepsOfJson, readMember]
  cases root.member? (ascii "steps") with
  | none => rfl
  | some value =>
    cases value with
    | array items => cases h : readItems Step.ofJson 0 items <;> simp [readArray, h]
    | _ => rfl

theorem ofJson_eq : ofJson = readObject .rootNotObject
    (readBoth Plan.mk mappingsOfJson stepsOfJson) := by
  funext root
  cases root with
  | object members =>
    simp only [ofJson, readObject, readBoth]
    cases mappingsOfJson (.object members) with
    | error problem => rfl
    | ok mappings => cases stepsOfJson (.object members) <;> rfl
  | _ => rfl

theorem ofJson_exact : Exact schema [] ofJson Problem.path := by
  rw [ofJson_eq, mappingsOfJson_eq, stepsOfJson_eq]
  exact .object (.both (.optional (.within Mapping.listOfJson_exact fun _ => rfl))
    (.member (.array Step.ofJson_exact rfl fun _ _ => rfl) rfl)) rfl

/-- The names in a document are in order, so the tags of a lookup are just those of its step. -/
theorem lookups_of_written {text : Octets} {root : Json} (h : Json.parse text = .ok root)
    {plan : Plan} (hwritten : schema.Written root plan) :
    ∃ items, root.member? (ascii "steps") = some (.array items) ∧
      items.length = plan.steps.length ∧
      ∀ (i : Nat) (tags : Tags), plan.steps[i]? = some (.lookup tags) →
        items[i]? = some (.object [(ascii "lookup", tags.toJson)]) := by
  obtain ⟨-, mappings, steps, -, ⟨value, hvalue, items, rfl, hsteps⟩, rfl⟩ := hwritten
  refine ⟨items, hvalue, hsteps.length_eq, fun i tags hstep => ?_⟩
  obtain ⟨hi, hstep⟩ := List.getElem?_eq_some_iff.mp hstep
  have hi' : i < items.length := hsteps.length_eq ▸ hi
  have hitem : Step.schema.Written items[i] (.lookup tags) := hstep ▸ hsteps.get hi' hi
  refine List.getElem?_eq_some_iff.mpr ⟨hi', ?_⟩
  rcases hitem with ⟨body, others, hbody, htags, heq⟩ | ⟨body, others, -, -, heq⟩
  · cases heq
    have hwithin : Json.Within body root := by
      refine .child (Json.mem_children_of_member? hvalue) (.child (List.getElem_mem hi') ?_)
      rw [hbody]
      exact .child (List.mem_singleton.mpr rfl) .self
    have hkeys : ∀ members, body = .object members → KeysIncrease members :=
      fun members hmembers => Json.keysIncrease_of_parse h (hmembers ▸ hwithin)
    rw [hbody, Tags.eq_toJson_of_written htags hkeys]
  · cases heq

/-- A document of a plan is accepted exactly if it is as the schema says, and then its plan is the
one that is written. Otherwise the refusal tells one path, and this is the only one at which the
document offends the schema: what comes before it in reading order is as it should be, mappings
before steps. -/
theorem plan_read_exactly {text : Octets} {root : Json} (h : Json.parse text = .ok root) :
    (∀ plan, Document.ofText ofJson text = .ok plan ↔ schema.Written root plan) ∧
      ((¬ ∃ plan, schema.Written root plan) →
        ∃ problem : Problem, Document.ofText ofJson text = .error (.problem problem) ∧
          (∀ path, schema.Offends root path ↔ path = problem.path) ∧
          problem.message = problem.path.text ++ problem.complaint) ∧
      ∀ plan, schema.Written root plan →
        ∃ items, root.member? (ascii "steps") = some (.array items) ∧
          items.length = plan.steps.length ∧
          ∀ (i : Nat) (tags : Tags), plan.steps[i]? = some (.lookup tags) →
            items[i]? = some (.object [(ascii "lookup", tags.toJson)]) := by
  refine ⟨fun plan => ?_, fun hnone => ?_, fun plan => lookups_of_written h⟩
  · rw [Document.ofText_eq_ok_iff, ← ofJson_exact.accepts]
    exact ⟨fun ⟨other, hother, hread⟩ => Except.ok.inj (h.symm.trans hother) ▸ hread,
      fun hread => ⟨root, h, hread⟩⟩
  · cases hread : ofJson root with
    | ok plan => exact absurd ⟨plan, ofJson_exact.accepts.mp hread⟩ hnone
    | error problem =>
      refine ⟨problem, by simp only [Document.ofText, h, hread], fun path => ?_, problem.message_eq⟩
      -- each offence is a problem that is reported, and one reading reports one problem
      constructor
      · intro hoffends
        obtain ⟨other, hother, hpath⟩ := ofJson_exact.complete hoffends
        rw [hread] at hother
        cases hother
        exact hpath.symm
      · rintro rfl
        obtain ⟨rest, hoffends, hpath⟩ := ofJson_exact.sound hread
        rw [hpath]
        exact hoffends

theorem plan_read_exactly_of_both_kinds :
    let good := ascii "\x7b\"mappings\":[\x7b\"detector\":\x7b\"uuid\":" ++
      ascii "\"00000000-0000-4000-8000-00000000000A\"\x7d,\"expression\":" ++
      ascii "\x7b\"operands\":[\x7b\"key\":\"a\",\"value\":\"1\"\x7d]\x7d\x7d]," ++
      ascii "\"steps\":[\x7b\"lookup\":\x7b\"b\":\"2\",\"a\":\"1\"\x7d\x7d," ++
      ascii "\x7b\"refresh\":[]\x7d]\x7d"
    let bad := ascii "\x7b\"steps\":[\x7b\"lookup\":\x7b\x7d\x7d,\x7b\"refresh\":" ++
      ascii "[\x7b\"detector\":\x7b\"uuid\":\"x\"\x7d\x7d]\x7d,null]\x7d"
    let mapping : Mapping :=
      ⟨⟨ascii "00000000-0000-4000-8000-00000000000a", true⟩, [⟨ascii "a", ascii "1"⟩]⟩
    let tags : Tags := SortedMap.ofList [(ascii "a", ascii "1"), (ascii "b", ascii "2")]
    let place : Path := [.member (ascii "steps"), .item 1, .member (ascii "refresh"), .item 0,
      .member (ascii "detector"), .member (ascii "uuid")]
    (∃ root, Json.parse good = .ok root ∧
      schema.Written root ⟨[mapping], [.lookup tags, .refresh []]⟩) ∧
    (∃ root, Json.parse bad = .ok root ∧ ∀ path, schema.Offends root path ↔ path = place) ∧
    place.text = ascii "steps[1].refresh[0].detector.uuid" := by
  intro good bad mapping tags place
  refine ⟨?_, ?_, by decide +kernel⟩
  · have haccepted : Document.ofText ofJson good =
        .ok ⟨[mapping], [.lookup tags, .refresh []]⟩ :=
      Document.eq_ok_of_toOption (by decide +kernel)
    obtain ⟨root, hroot, -⟩ := Document.ofText_eq_ok_iff.mp haccepted
    exact ⟨root, hroot, ((plan_read_exactly hroot).1 _).mp haccepted⟩
  · have hjson : (Json.parse bad).toOption.isSome := by decide +kernel
    have hrefused : (Document.ofText ofJson bad).toOption = none := by decide +kernel
    obtain ⟨root, hroot⟩ := Option.isSome_iff_exists.mp hjson
    have hroot := Document.eq_ok_of_toOption hroot
    obtain ⟨hwritten, hoffends, -⟩ := plan_read_exactly hroot
    obtain ⟨problem, hproblem, hpath, -⟩ := hoffends fun ⟨plan, hplan⟩ => by
      rw [(hwritten plan).mpr hplan] at hrefused
      cases hrefused
    have hplace : (match Document.ofText ofJson bad with
        | .error (.problem problem) => problem.path
        | _ => []) = place := by
      decide +kernel
    rw [hproblem] at hplace
    exact ⟨root, hroot, fun path => by rw [hpath, ← hplace]⟩

end Plan

end DetectorCache.Replay
