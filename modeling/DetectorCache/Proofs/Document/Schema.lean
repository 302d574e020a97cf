import Mathlib.Data.List.Forall2
import DetectorCache.Mapping.Document
/-!
Prescriptions for documents, and readers against them. A schema tells which values a document stands
for, and at which path the first part, in reading order, lies that is not as it should be. Schemas
are put together like the documents they prescribe, and so are the readers that follow them exactly.
-/
set_option autoImplicit false

namespace DetectorCache.Document

open Octets (ascii)

/-- A step from a value to one right inside it. -/
inductive Segment where
  | member (name : Octets)
  | item (index : Nat)
  deriving DecidableEq

abbrev Path := List Segment

def Path.below : Path → Octets
  | [] => []
  | .member name :: path => ascii "." ++ name ++ below path
  | .item index :: path => ascii "[" ++ Octets.decimal index ++ ascii "]" ++ below path

def Path.text : Path → Octets
  | .member name :: path => name ++ Path.below path
  | path => Path.below path

def IsObject (json : Json) : Prop := ∃ members, json = .object members

/-- Which values of type `α` are written as a document, and where a document first offends. -/
structure Schema (α : Type) where
  Written : Json → α → Prop
  Offends : Json → Path → Prop

namespace Schema

variable {α β γ : Type}

def whole (Written : Json → α → Prop) : Schema α where
  Written
  Offends json path := path = [] ∧ ¬ ∃ value, Written json value

def string : Schema Octets := .whole fun json text => json = .string text

def bool : Schema Bool := .whole fun json flag => json = .bool flag

def member (name : Octets) (schema : Schema α) : Schema α where
  Written json value := ∃ inner, json.member? name = some inner ∧ schema.Written inner value
  Offends json path :=
    (json.member? name = none ∧ path = [.member name]) ∨
      ∃ inner rest, json.member? name = some inner ∧ schema.Offends inner rest ∧
        path = .member name :: rest

/-- A member that may be left out, for a default. -/
def optional (name : Octets) (default : α) (schema : Schema α) : Schema α where
  Written json value :=
    (json.member? name = none ∧ value = default) ∨
      ∃ inner, json.member? name = some inner ∧ schema.Written inner value
  Offends json path := ∃ inner rest, json.member? name = some inner ∧
    schema.Offends inner rest ∧ path = .member name :: rest

def both (make : α → β → γ) (first : Schema α) (second : Schema β) : Schema γ where
  Written json value := ∃ a b, first.Written json a ∧ second.Written json b ∧ value = make a b
  Offends json path :=
    first.Offends json path ∨ ((∃ a, first.Written json a) ∧ second.Offends json path)

def object (schema : Schema α) : Schema α where
  Written json value := IsObject json ∧ schema.Written json value
  Offends json path :=
    (¬ IsObject json ∧ path = []) ∨ (IsObject json ∧ schema.Offends json path)

def array (schema : Schema α) : Schema (List α) where
  Written json values := ∃ items, json = .array items ∧ List.Forall₂ schema.Written items values
  Offends json path :=
    ((¬ ∃ items, json = .array items) ∧ path = []) ∨
      ∃ before item after rest, json = .array (before ++ item :: after) ∧
        (∀ earlier ∈ before, ∃ value, schema.Written earlier value) ∧
        schema.Offends item rest ∧ path = .item before.length :: rest

end Schema

/-- A reader that follows a schema: it accepts what is written, as the value that is written, and
refuses what offends, with a problem of the path of the offence. The document is itself at a place
inside another one, from whose root the paths of problems start. -/
structure Exact {α π : Type} (schema : Schema α) (place : Path) (read : Json → Except π α)
    (path : π → Path) : Prop where
  accepts : ∀ {json value}, read json = .ok value ↔ schema.Written json value
  sound : ∀ {json problem}, read json = .error problem →
    ∃ rest, schema.Offends json rest ∧ path problem = place ++ rest
  complete : ∀ {json rest}, schema.Offends json rest →
    ∃ problem, read json = .error problem ∧ path problem = place ++ rest

section

variable {α β γ π : Type}

def readString (notString : π) (json : Json) : Except π Octets :=
  match json with
  | .string text => .ok text
  | _ => .error notString

def readBool (notBool : π) (json : Json) : Except π Bool :=
  match json with
  | .bool flag => .ok flag
  | _ => .error notBool

def readMember (name : Octets) (absent : π) (read : Json → Except π α) (json : Json) :
    Except π α :=
  match json.member? name with
  | none => .error absent
  | some inner => read inner

def readOptional (name : Octets) (default : α) (read : Json → Except π α) (json : Json) :
    Except π α :=
  match json.member? name with
  | none => .ok default
  | some inner => read inner

def readBoth (make : α → β → γ) (first : Json → Except π α) (second : Json → Except π β)
    (json : Json) : Except π γ :=
  match first json with
  | .error problem => .error problem
  | .ok a =>
    match second json with
    | .error problem => .error problem
    | .ok b => .ok (make a b)

def readObject (notObject : π) (read : Json → Except π α) (json : Json) : Except π α :=
  match json with
  | .object _ => read json
  | _ => .error notObject

def readArray {ε : Type} (notArray : π) (inItem : Nat → ε → π) (read : Json → Except ε α)
    (json : Json) : Except π (List α) :=
  match json with
  | .array items =>
    match readItems read 0 items with
    | .error (index, problem) => .error (inItem index problem)
    | .ok values => .ok values
  | _ => .error notArray

def readWithin {ε : Type} (within : ε → π) (read : Json → Except ε α) (json : Json) :
    Except π α :=
  match read json with
  | .error problem => .error (within problem)
  | .ok value => .ok value

end

section

variable {ε α : Type} {read : Json → Except ε α}

theorem readItems_eq_ok_iff {start : Nat} {items : List Json} {values : List α} :
    readItems read start items = .ok values ↔
      List.Forall₂ (fun item value => read item = .ok value) items values := by
  induction items generalizing start values with
  | nil => cases values <;> simp [readItems]
  | cons item items ih =>
    rw [readItems, List.forall₂_cons_left_iff]
    cases hitem : read item with
    | error problem => simp
    | ok value =>
      have hitems := fun others => @ih (start + 1) others
      cases hrest : readItems read (start + 1) items with
      | error problem => simp [← hitems, hrest]
      | ok others => simp [← hitems, hrest, eq_comm]

theorem readItems_eq_error_iff {start index : Nat} {items : List Json} {problem : ε} :
    readItems read start items = .error (index, problem) ↔
      ∃ before item after, items = before ++ item :: after ∧ index = start + before.length ∧
        (∀ earlier ∈ before, ∃ value, read earlier = .ok value) ∧ read item = .error problem := by
  constructor
  · intro h
    -- the count moves on with the items, so the start is part of what the induction is about
    induction items generalizing start with
    | nil => cases h
    | cons item items ih =>
      rw [readItems] at h
      split at h
      · next hitem =>
        cases h
        exact ⟨[], item, items, rfl, rfl, nofun, hitem⟩
      · next value hitem =>
        split at h
        · next hrest =>
          cases h
          obtain ⟨before, first, after, rfl, rfl, hbefore, hfirst⟩ := ih hrest
          refine ⟨item :: before, first, after, rfl, ?_, ?_, hfirst⟩
          · rw [List.length_cons]
            omega
          · exact List.forall_mem_cons.mpr ⟨⟨value, hitem⟩, hbefore⟩
        · cases h
  · rintro ⟨before, item, after, rfl, rfl, hbefore, hitem⟩
    induction before generalizing start with
    | nil => simp [readItems, hitem]
    | cons first before ih =>
      obtain ⟨⟨value, hfirst⟩, hbefore⟩ := List.forall_mem_cons.mp hbefore
      have hrest := @ih (start + 1) hbefore
      simp only [List.cons_append, readItems, hfirst, hrest, List.length_cons]
      congr 2
      omega

end

namespace Exact

variable {α β γ π : Type} {schema : Schema α} {place : Path} {path : π → Path}
  {read : Json → Except π α}

theorem whole {Written : Json → α → Prop}
    (haccepts : ∀ json value, read json = .ok value ↔ Written json value)
    (hplace : ∀ json problem, read json = .error problem → path problem = place) :
    Exact (.whole Written) place read path where
  accepts := haccepts _ _
  sound := by
    intro json problem hread
    refine ⟨[], ⟨rfl, fun ⟨value, hwritten⟩ => ?_⟩, ?_⟩
    · rw [(haccepts json value).mpr hwritten] at hread
      cases hread
    · rw [hplace json problem hread, List.append_nil]
  complete := by
    rintro json rest ⟨rfl, hnone⟩
    cases hread : read json with
    | ok value => exact absurd ⟨value, (haccepts json value).mp hread⟩ hnone
    | error problem => exact ⟨problem, rfl, by rw [hplace json problem hread, List.append_nil]⟩

theorem string {notString : π} (hpath : path notString = place) :
    Exact .string place (readString notString) path := by
  refine .whole (fun json text => ?_) (fun json problem hread => ?_)
  · cases json <;> simp [readString]
  · cases json <;> cases hread <;> exact hpath

theorem bool {notBool : π} (hpath : path notBool = place) :
    Exact .bool place (readBool notBool) path := by
  refine .whole (fun json flag => ?_) (fun json problem hread => ?_)
  · cases json <;> simp [readBool]
  · cases json <;> cases hread <;> exact hpath

theorem within {ε : Type} {inner : Json → Except ε α} {innerPath : ε → Path} {within : ε → π}
    (h : Exact schema [] inner innerPath)
    (hpath : ∀ problem, path (within problem) = place ++ innerPath problem) :
    Exact schema place (readWithin within inner) path where
  accepts := by
    intro json value
    rw [← h.accepts, readWithin]
    cases inner json <;> simp
  sound := by
    intro json problem hread
    rw [readWithin] at hread
    split at hread
    · next cause hinner =>
      cases hread
      obtain ⟨rest, hoffends, hcause⟩ := h.sound hinner
      exact ⟨rest, hoffends, by rw [hpath, hcause, List.nil_append]⟩
    · cases hread
  complete := by
    intro json rest hoffends
    obtain ⟨cause, hinner, hcause⟩ := h.complete hoffends
    refine ⟨within cause, by rw [readWithin, hinner], ?_⟩
    rw [hpath, hcause, List.nil_append]

theorem member {name : Octets} {absent : π}
    (h : Exact schema (place ++ [.member name]) read path)
    (habsent : path absent = place ++ [.member name]) :
    Exact (schema.member name) place (readMember name absent read) path where
  accepts := by
    intro json value
    simp only [Schema.member, readMember]
    cases json.member? name with
    | none => simp
    | some inner => simp [h.accepts]
  sound := by
    intro json problem hread
    rw [readMember] at hread
    split at hread
    · next hnone =>
      cases hread
      exact ⟨_, Or.inl ⟨hnone, rfl⟩, habsent⟩
    · next inner hinner =>
      obtain ⟨rest, hoffends, hpath⟩ := h.sound hread
      refine ⟨_, Or.inr ⟨inner, rest, hinner, hoffends, rfl⟩, ?_⟩
      rw [hpath, List.append_assoc, List.singleton_append]
  complete := by
    rintro json _ (⟨hnone, rfl⟩ | ⟨inner, rest, hinner, hoffends, rfl⟩)
    · exact ⟨absent, by rw [readMember, hnone], habsent⟩
    · obtain ⟨problem, hread, hpath⟩ := h.complete hoffends
      refine ⟨problem, by rw [readMember, hinner]; exact hread, ?_⟩
      rw [hpath, List.append_assoc, List.singleton_append]

theorem optional {name : Octets} {default : α}
    (h : Exact schema (place ++ [.member name]) read path) :
    Exact (schema.optional name default) place (readOptional name default read) path where
  accepts := by
    intro json value
    simp only [Schema.optional, readOptional]
    cases json.member? name with
    | none => simp [eq_comm]
    | some inner => simp [h.accepts]
  sound := by
    intro json problem hread
    rw [readOptional] at hread
    split at hread
    · cases hread
    · next inner hinner =>
      obtain ⟨rest, hoffends, hpath⟩ := h.sound hread
      refine ⟨_, ⟨inner, rest, hinner, hoffends, rfl⟩, ?_⟩
      rw [hpath, List.append_assoc, List.singleton_append]
  complete := by
    rintro json _ ⟨inner, rest, hinner, hoffends, rfl⟩
    obtain ⟨problem, hread, hpath⟩ := h.complete hoffends
    refine ⟨problem, by rw [readOptional, hinner]; exact hread, ?_⟩
    rw [hpath, List.append_assoc, List.singleton_append]

theorem both {other : Schema β} {readOther : Json → Except π β} {make : α → β → γ}
    (hfirst : Exact schema place read path) (hsecond : Exact other place readOther path) :
    Exact (.both make schema other) place (readBoth make read readOther) path where
  accepts := by
    intro json value
    simp only [Schema.both, readBoth, ← hfirst.accepts, ← hsecond.accepts]
    cases read json with
    | error problem => simp
    | ok a => cases readOther json <;> simp [eq_comm]
  sound := by
    intro json problem hread
    rw [readBoth] at hread
    split at hread
    · next hproblem =>
      cases hread
      obtain ⟨rest, hoffends, hpath⟩ := hfirst.sound hproblem
      exact ⟨rest, Or.inl hoffends, hpath⟩
    · next a ha =>
      split at hread
      · next hproblem =>
        cases hread
        obtain ⟨rest, hoffends, hpath⟩ := hsecond.sound hproblem
        exact ⟨rest, Or.inr ⟨⟨a, hfirst.accepts.mp ha⟩, hoffends⟩, hpath⟩
      · cases hread
  complete := by
    rintro json rest (hoffends | ⟨⟨a, ha⟩, hoffends⟩)
    · obtain ⟨problem, hread, hpath⟩ := hfirst.complete hoffends
      exact ⟨problem, by rw [readBoth, hread], hpath⟩
    · obtain ⟨problem, hread, hpath⟩ := hsecond.complete hoffends
      exact ⟨problem, by simp only [readBoth, hfirst.accepts.mpr ha, hread], hpath⟩

theorem object {notObject : π} (h : Exact schema place read path)
    (hnotObject : path notObject = place) :
    Exact schema.object place (readObject notObject read) path where
  accepts := by
    intro json value
    cases json with
    | object members => simp [Schema.object, readObject, IsObject, h.accepts]
    | _ => simp [Schema.object, readObject, IsObject]
  sound := by
    intro json problem hread
    unfold readObject at hread
    split at hread
    · obtain ⟨rest, hoffends, hpath⟩ := h.sound hread
      exact ⟨rest, Or.inr ⟨⟨_, rfl⟩, hoffends⟩, hpath⟩
    · next hother =>
      cases hread
      refine ⟨[], Or.inl ⟨fun ⟨members, hmembers⟩ => hother members hmembers, rfl⟩, ?_⟩
      rw [hnotObject, List.append_nil]
  complete := by
    rintro json rest (⟨hother, rfl⟩ | ⟨⟨members, rfl⟩, hoffends⟩)
    · unfold readObject
      split
      · exact absurd ⟨_, rfl⟩ hother
      · exact ⟨notObject, rfl, by rw [hnotObject, List.append_nil]⟩
    · exact h.complete hoffends

theorem array {ε : Type} {readItem : Json → Except ε α} {itemPath : ε → Path} {notArray : π}
    {inItem : Nat → ε → π} (h : Exact schema [] readItem itemPath)
    (hnotArray : path notArray = place)
    (hinItem : ∀ index problem,
      path (inItem index problem) = place ++ .item index :: itemPath problem) :
    Exact schema.array place (readArray notArray inItem readItem) path where
  accepts := by
    intro json values
    cases json with
    | array items =>
      have hitems : readItems readItem 0 items = .ok values ↔
          List.Forall₂ schema.Written items values := by
        rw [readItems_eq_ok_iff]
        simp only [h.accepts]
      simp only [Schema.array, readArray, Json.array.injEq, exists_eq_left', ← hitems]
      cases readItems readItem 0 items <;> simp
    | _ => simp [Schema.array, readArray]
  sound := by
    intro json problem hread
    unfold readArray at hread
    split at hread
    · split at hread
      · next index cause hitems =>
        cases hread
        obtain ⟨before, item, after, rfl, rfl, hbefore, hitem⟩ := readItems_eq_error_iff.mp hitems
        obtain ⟨rest, hoffends, hcause⟩ := h.sound hitem
        simp only [h.accepts] at hbefore
        refine ⟨_, Or.inr ⟨before, item, after, rest, rfl, hbefore, hoffends, rfl⟩, ?_⟩
        rw [hinItem, hcause, Nat.zero_add, List.nil_append]
      · cases hread
    · next hother =>
      cases hread
      refine ⟨[], Or.inl ⟨fun ⟨items, hitems⟩ => hother items hitems, rfl⟩, ?_⟩
      rw [hnotArray, List.append_nil]
  complete := by
    rintro json _ (⟨hother, rfl⟩ | ⟨before, item, after, rest, rfl, hbefore, hoffends, rfl⟩)
    · unfold readArray
      split
      · exact absurd ⟨_, rfl⟩ hother
      · exact ⟨notArray, rfl, by rw [hnotArray, List.append_nil]⟩
    · obtain ⟨cause, hitem, hcause⟩ := h.complete hoffends
      simp only [← h.accepts] at hbefore
      have hitems : readItems readItem 0 (before ++ item :: after) =
          .error (0 + before.length, cause) :=
        readItems_eq_error_iff.mpr ⟨before, item, after, rfl, rfl, hbefore, hitem⟩
      refine ⟨inItem before.length cause, ?_, ?_⟩
      · simp only [readArray, hitems, Nat.zero_add]
      · rw [hinItem, hcause, List.nil_append]

end Exact

end DetectorCache.Document
