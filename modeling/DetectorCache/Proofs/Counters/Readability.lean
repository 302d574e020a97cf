import DetectorCache.Counters
import DetectorCache.Proofs.Binary64.Naturals
import DetectorCache.Proofs.Json.Quotation
import DetectorCache.Proofs.Octets.Decimals

set_option autoImplicit false

namespace DetectorCache

open Octets (ascii decimal)

namespace Json

open Grammar (Digits Whole Numeral Member Members Value Document)
open Binary64 (ofNatural)

theorem digits_decimal (n : Nat) : Digits (decimal n) :=
  ⟨Octets.decimal_ne_nil n, fun _ hb => isDigit_iff.mp (Octets.isDigit_of_mem_decimal hb)⟩

theorem whole_decimal (n : Nat) : Whole (decimal n) := by
  rcases Nat.eq_zero_or_pos n with rfl | hpos
  · exact .zero
  · exact .row (digits_decimal n) (Octets.head?_decimal hpos)

theorem numeral_decimal (n : Nat) : Numeral (decimal n) ⟨false, n, 0⟩ := by
  have hnumeral := Numeral.mk .plus (whole_decimal n) .none .none
  simpa only [List.nil_append, List.append_nil, Octets.digitsValue_decimal, List.length_nil,
    Int.natCast_zero, Int.sub_zero] using hnumeral

theorem value_decimal {n : Nat} (h : n < twoTo 64) (levels : Nat) :
    Value levels (decimal n) (.number (ofNatural n)) := by
  have hx := Binary64.ofDecimal?_natural h
  cases levels with
  | zero | succ => exact .number (numeral_decimal n) hx

theorem member_quote {item : Octets → Json → Prop} {inner : Octets} {value : Json} (name : Octets)
    (h : item inner value) : Member item (quote name ++ Octets.colon :: inner) (name, value) := by
  have hmember := @Member.mk item [] _ [] [] inner [] name value nofun (quoted_quote name) nofun
    nofun h nofun
  simp only [List.nil_append, List.append_nil] at hmember
  exact hmember

theorem members_joined {item : Octets → Json → Prop} {α : Type} {name inner : α → Octets}
    {value : α → Json} {entries : List α} (hne : entries ≠ [])
    (h : ∀ e ∈ entries, item (inner e) (value e)) :
    Members item
      (Octets.joined [Octets.comma]
        (entries.map fun e => quote (name e) ++ Octets.colon :: inner e))
      (entries.map fun e => (name e, value e)) := by
  have hfilled : ∀ e, quote (name e) ++ Octets.colon :: inner e ≠ [] :=
    fun e => List.append_ne_nil_of_left_ne_nil (List.cons_ne_nil _ _) _
  induction entries with
  | nil => exact absurd rfl hne
  | cons first entries ih =>
    have hfirst := member_quote (name first) (h first List.mem_cons_self)
    rw [List.map_cons, List.map_cons, Octets.joined_cons (hfilled first)]
    cases entries with
    | nil =>
      rw [List.map_nil, List.map_nil, List.flatMap_nil, List.append_nil]
      exact .last hfirst
    | cons second others =>
      have hrest := ih (List.cons_ne_nil _ _) fun e he => h e (List.mem_cons_of_mem _ he)
      rw [List.map_cons, Octets.joined_cons (hfilled second)] at hrest
      exact .next hfirst hrest

theorem parse_of_members {text : Octets} {row : List (Octets × Json)}
    (h : Members (Value 63) text row) :
    parse (ascii "\x7b" ++ text ++ ascii "\x7d") = .ok (ofMembers row) := by
  have hvalue : Value 64 (ascii "\x7b" ++ (text ++ ascii "\x7d")) (ofMembers row) :=
    .object h (lastOf_foldl row)
  have hdocument := @Document.mk [] _ [] _ nofun hvalue nofun
  rw [List.nil_append, List.append_nil, ← List.append_assoc] at hdocument
  exact parse_of_document hdocument

end Json

namespace Counters

open Binary64 (ofNatural)

variable {c : Counters}

def row (c : Counters) : List (Octets × Json) :=
  c.named.map fun e => (e.1, .number (ofNatural e.2))

theorem parse_json (h : ∀ e ∈ c.named, e.2 < twoTo 64) :
    Json.parse c.json = .ok (.ofMembers c.row) := by
  have hne : c.named ≠ [] := List.cons_ne_nil _ _
  exact Json.parse_of_members (Json.members_joined hne fun e he => Json.value_decimal (h e he) 63)

def members (c : Counters) : List (Octets × Json) :=
  [(ascii "cache.corrupt_evictions", .number (ofNatural c.corruptEvictions)),
    (ascii "cache.hit", .number (ofNatural c.hits)),
    (ascii "cache.miss", .number (ofNatural c.misses)),
    (ascii "cache.size", .number (ofNatural c.size)),
    (ascii "resolver.errors", .number (ofNatural c.resolutionErrors)),
    (ascii "resolver.resolutions", .number (ofNatural c.resolutions))]

theorem ofMembers_row (c : Counters) : .ofMembers c.row = Json.object c.members := rfl

theorem keysIncrease_members (c : Counters) : KeysIncrease c.members :=
  (Json.lastOf_foldl c.row).1

theorem lookup_members (c : Counters) :
    ∀ e ∈ c.named, c.members.lookup e.1 = some (.number (ofNatural e.2)) := by
  simp only [named, List.forall_mem_cons]
  exact ⟨rfl, rfl, rfl, rfl, rfl, rfl, nofun⟩

/-- Counters of 64 bits are read back as an object of six numbers under the names they are written
with. The number of a counter is the one nearest to it, and up to 2^53 it is read as the counter
itself. -/
theorem json_read_back (c : Counters) (h : ∀ e ∈ c.named, e.2 < 2 ^ 64) :
    ∃ members, Json.parse c.json = .ok (.object members) ∧
      members.map (·.1) = [ascii "cache.corrupt_evictions", ascii "cache.hit", ascii "cache.miss",
        ascii "cache.size", ascii "resolver.errors", ascii "resolver.resolutions"] ∧
      (members.map (·.1)).Nodup ∧
      ∀ e ∈ c.named, ∃ x, (Json.object members).member? e.1 = some (.number x) ∧
        Binary64.ofDecimal? ⟨false, e.2, 0⟩ = some x ∧
        (e.2 ≤ 2 ^ 53 → (Json.number x).unsigned? = some e.2) := by
  refine ⟨c.members, ?_, rfl, ?_, fun e he => ⟨ofNatural e.2, ?_, ?_, ?_⟩⟩
  · rw [parse_json h, ofMembers_row]
  · exact c.keysIncrease_members.nodup_keys
  · exact lookup_members c e he
  · exact Binary64.ofDecimal?_natural (h e he)
  · exact Binary64.toUnsigned?_ofNatural

/-- The greatest counter that is read exactly beside the greatest of all, which is rounded to 2^64
and so is no count any more. -/
theorem json_read_back_of_greatest :
    let c : Counters := ⟨2 ^ 53, 2 ^ 64 - 1, 3, 0, 10, 1⟩
    (∀ e ∈ c.named, e.2 < 2 ^ 64) ∧ ∃ root, Json.parse c.json = .ok root ∧
      (root.member? (ascii "cache.hit")).bind Json.unsigned? = some (2 ^ 53) ∧
      (root.member? (ascii "cache.miss")) = some (.number Binary64.countLimit) ∧
      (Json.number Binary64.countLimit).unsigned? = none := by
  intro c
  have hbound : ∀ e ∈ c.named, e.2 < 2 ^ 64 := by decide
  obtain ⟨members, hparse, -, -, hread⟩ := json_read_back c hbound
  obtain ⟨x, hhit, -, hexact⟩ := hread (ascii "cache.hit", 2 ^ 53) (by decide)
  obtain ⟨y, hmiss, hnearest, -⟩ := hread (ascii "cache.miss", 2 ^ 64 - 1) (by decide)
  have hy : y = Binary64.countLimit :=
    Option.some.inj (hnearest.symm.trans Binary64.ofDecimal?_greatest)
  refine ⟨hbound, .object members, hparse, ?_, hmiss.trans (by rw [hy]), by decide⟩
  rw [hhit]
  exact hexact (Nat.le_refl _)

end Counters

end DetectorCache
