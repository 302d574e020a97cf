import DetectorCache.Proofs.Json.Quotation
import DetectorCache.Proofs.Octets.Splitting

set_option autoImplicit false

namespace DetectorCache.Json

open Octets (ascii IsAscii IsUtf8)
open Grammar (Blanks Unit Units Quoted Items Member Members LastOf ValueOf Value Document)

def children : Json → List Json
  | .array items => items
  | .object members => members.map Prod.snd
  | _ => []

theorem mem_children_of_member? {outer inner : Json} {name : Octets}
    (h : outer.member? name = some inner) : inner ∈ outer.children := by
  cases outer with
  | object members =>
    obtain ⟨before, after, hmembers, -⟩ := List.lookup_eq_some_iff.mp h
    refine List.mem_map.mpr ⟨(name, inner), ?_, rfl⟩
    rw [hmembers]
    exact List.mem_append_right before List.mem_cons_self
  | _ => cases h

/-- A value lies within itself and within each value that one of its surroundings is a child of. -/
inductive Within (inner : Json) : Json → Prop where
  | self : Within inner inner
  | child {value outer : Json} (hmem : value ∈ outer.children) (h : Within inner value) :
      Within inner outer

/-- The octets of a string go over to its value one by one, and escapes are ASCII characters, which
no character of the text spans. `before` is what has been taken over since the last escape. -/
theorem isUtf8_of_units {text value : Octets} (h : Units text value) (before : Octets)
    (htext : IsUtf8 (before ++ text)) : IsUtf8 (before ++ value) := by
  induction h generalizing before with
  | nil => exact htext
  | @cons unit octets text value hunit _ ih =>
    rcases plain_or_escape hunit with ⟨b, -, rfl, rfl⟩ | ⟨hne, hascii, hoctets⟩
    · rw [← List.append_assoc] at htext ⊢
      exact ih _ htext
    · obtain ⟨hbefore, hrest⟩ := htext.split (fun b hb => (hascii b hb).2) hne
      exact hbefore.append (hoctets.append (ih [] hrest))

theorem isUtf8_of_quoted {text value : Octets} (h : Quoted text value) (htext : IsUtf8 text) :
    IsUtf8 value := by
  obtain ⟨hunits⟩ := h
  have hmark : IsAscii (ascii "\"") := by decide
  exact isUtf8_of_units hunits [] ((htext.of_append_ascii hmark).of_ascii_append hmark)

theorem isAscii_of_blanks {text : Octets} (h : Blanks text) : IsAscii text := by
  have hblank : IsAscii Grammar.blankOctets := by decide
  exact fun b hb => hblank b (h b hb)

section

variable {texts : Octets → Json → Prop} {text : Octets}

theorem exists_text_of_items {items : List Json} (h : Items texts text items) :
    ∀ value ∈ items, ∃ used, texts used value ∧ (IsUtf8 text → IsUtf8 used) := by
  induction h with
  | last hbefore hvalue hafter =>
    intro value hmem
    rw [List.mem_singleton.mp hmem]
    refine ⟨_, hvalue, fun htext => ?_⟩
    exact (htext.of_ascii_append (isAscii_of_blanks hbefore)).of_append_ascii
      (isAscii_of_blanks hafter)
  | @next before used after rest value others hbefore hvalue hafter _ ih =>
    have hcomma : IsAscii (after ++ ascii ",") := (isAscii_of_blanks hafter).append (by decide)
    have hsplit : IsUtf8 (before ++ (used ++ (after ++ (ascii "," ++ rest)))) →
        IsUtf8 used ∧ IsUtf8 rest := by
      intro htext
      have hrest := htext.of_ascii_append (isAscii_of_blanks hbefore)
      rw [← List.append_assoc after] at hrest
      exact hrest.split hcomma (by simp [ascii])
    intro other hmem
    rcases List.mem_cons.mp hmem with rfl | hothers
    · exact ⟨used, hvalue, fun htext => (hsplit htext).1⟩
    · obtain ⟨used', hused, hutf8⟩ := ih other hothers
      exact ⟨used', hused, fun htext => hutf8 (hsplit htext).2⟩

theorem exists_text_of_members {members : List (Octets × Json)} (h : Members texts text members) :
    ∀ member ∈ members, ∃ used, Member texts used member ∧ (IsUtf8 text → IsUtf8 used) := by
  induction h with
  | last hmember =>
    intro member hmem
    rw [List.mem_singleton.mp hmem]
    exact ⟨_, hmember, id⟩
  | next hmember _ ih =>
    have hcomma : IsAscii (ascii ",") := by decide
    intro other hmem
    rcases List.mem_cons.mp hmem with rfl | hothers
    · exact ⟨_, hmember, fun htext => (htext.split hcomma (by decide)).1⟩
    · obtain ⟨used, hused, hutf8⟩ := ih other hothers
      exact ⟨used, hused, fun htext => hutf8 (htext.split hcomma (by decide)).2⟩

theorem exists_texts_of_member {member : Octets × Json} (h : Member texts text member) :
    ∃ quoted used, Quoted quoted member.1 ∧ texts used member.2 ∧
      (IsUtf8 text → IsUtf8 quoted ∧ IsUtf8 used) := by
  cases h with
  | @mk before quoted after between inner behind name value hbefore hname hafter hbetween hvalue
      hbehind =>
    refine ⟨quoted, inner, hname, hvalue, fun htext => ?_⟩
    have hrest := htext.of_ascii_append (isAscii_of_blanks hbefore)
    have hcolon : IsAscii (after ++ (ascii ":" ++ between)) :=
      (isAscii_of_blanks hafter).append (.append (by decide) (isAscii_of_blanks hbetween))
    have htext' : quoted ++ (after ++ (ascii ":" ++ (between ++ (inner ++ behind)))) =
        quoted ++ ((after ++ (ascii ":" ++ between)) ++ (inner ++ behind)) := by
      simp only [List.append_assoc]
    rw [htext'] at hrest
    obtain ⟨hquoted, hinner⟩ := hrest.split hcolon (by simp [ascii])
    exact ⟨hquoted, hinner.of_append_ascii (isAscii_of_blanks hbehind)⟩

theorem mem_of_lastOf {row held : List (Octets × Json)} (h : LastOf row held)
    {member : Octets × Json} (hmem : member ∈ held) : member ∈ row := by
  obtain ⟨hkeys, hlookup⟩ := h
  have hfound : held.lookup member.1 = some member.2 :=
    (SortedMap.find?_eq_some_iff ⟨held, hkeys⟩ member.1 member.2).mpr hmem
  rw [hlookup] at hfound
  obtain ⟨before, after, hrow, -⟩ := List.lookup_eq_some_iff.mp hfound
  rw [← List.mem_reverse, hrow]
  exact List.mem_append_right _ List.mem_cons_self

theorem exists_text_of_child {value child : Json} (h : ValueOf texts text value)
    (hchild : child ∈ value.children) :
    ∃ used, texts used child ∧ (IsUtf8 text → IsUtf8 used) := by
  cases h with
  | null | true | false | number | string | emptyArray | emptyObject => cases hchild
  | array hitems =>
    obtain ⟨used, hused, hutf8⟩ := exists_text_of_items hitems child hchild
    refine ⟨used, hused, fun htext => hutf8 ?_⟩
    exact (htext.of_ascii_append (by decide)).of_append_ascii (by decide)
  | object hrow hheld =>
    obtain ⟨member, hmem, rfl⟩ := List.mem_map.mp hchild
    obtain ⟨between, hmember, hbetween⟩ :=
      exists_text_of_members hrow member (mem_of_lastOf hheld hmem)
    obtain ⟨_, used, _, hused, hutf8⟩ := exists_texts_of_member hmember
    refine ⟨used, hused, fun htext => (hutf8 (hbetween ?_)).2⟩
    exact (htext.of_ascii_append (by decide)).of_append_ascii (by decide)

theorem isUtf8_of_string {string : Octets} (h : ValueOf texts text (.string string))
    (htext : IsUtf8 text) : IsUtf8 string := by
  cases h with
  | string hquoted => exact isUtf8_of_quoted hquoted htext

theorem isUtf8_of_name {members : List (Octets × Json)} (h : ValueOf texts text (.object members))
    (htext : IsUtf8 text) : ∀ member ∈ members, IsUtf8 member.1 := by
  cases h with
  | emptyObject => nofun
  | object hrow hheld =>
    intro member hmem
    obtain ⟨used, hmember, hused⟩ :=
      exists_text_of_members hrow member (mem_of_lastOf hheld hmem)
    obtain ⟨quoted, _, hquoted, _, hutf8⟩ := exists_texts_of_member hmember
    have hbody := (htext.of_ascii_append (by decide)).of_append_ascii (by decide)
    exact isUtf8_of_quoted hquoted (hutf8 (hused hbody)).1

theorem keysIncrease_of_object {members : List (Octets × Json)}
    (h : ValueOf texts text (.object members)) : KeysIncrease members := by
  cases h with
  | emptyObject => exact .nil
  | object _ hheld => exact hheld.1

end

theorem exists_text_of_within {levels : Nat} {text : Octets} {value inner : Json}
    (h : Value levels text value) (hwithin : Within inner value) :
    ∃ texts used, ValueOf texts used inner ∧ (IsUtf8 text → IsUtf8 used) := by
  induction hwithin generalizing levels text with
  | self =>
    cases levels with
    | zero | succ => exact ⟨_, text, h, id⟩
  | child hmem _ ih =>
    cases levels with
    | zero =>
      obtain ⟨used, hused, -⟩ := exists_text_of_child h hmem
      exact hused.elim
    | succ levels =>
      obtain ⟨between, hbetween, hcut⟩ := exists_text_of_child h hmem
      obtain ⟨texts, used, hused, hutf8⟩ := ih hbetween
      exact ⟨texts, used, hused, fun htext => hutf8 (hcut htext)⟩

theorem exists_text_of_parse {text : Octets} {value inner : Json} (h : parse text = .ok value)
    (hwithin : Within inner value) :
    ∃ texts used, ValueOf texts used inner ∧ (IsUtf8 text → IsUtf8 used) := by
  obtain ⟨hbefore, hvalue, hafter⟩ := document_of_parse h
  obtain ⟨texts, used, hused, hutf8⟩ := exists_text_of_within hvalue hwithin
  refine ⟨texts, used, hused, fun htext => hutf8 ?_⟩
  exact (htext.of_ascii_append (isAscii_of_blanks hbefore)).of_append_ascii
    (isAscii_of_blanks hafter)

theorem keysIncrease_of_parse {text : Octets} {value : Json} (h : parse text = .ok value)
    {members : List (Octets × Json)} (hwithin : Within (.object members) value) :
    KeysIncrease members := by
  obtain ⟨texts, used, hused, -⟩ := exists_text_of_parse h hwithin
  exact keysIncrease_of_object hused

/-- In a document that is UTF-8 every string and every name of a member is UTF-8, at any depth and
whatever is escaped in it. -/
theorem parse_keeps_utf8 {text : Octets} {value : Json} (htext : IsUtf8 text)
    (h : parse text = .ok value) :
    (∀ string, Within (.string string) value → IsUtf8 string) ∧
      ∀ members, Within (.object members) value → ∀ member ∈ members, IsUtf8 member.1 := by
  constructor
  · intro string hwithin
    obtain ⟨texts, used, hused, hutf8⟩ := exists_text_of_parse h hwithin
    exact isUtf8_of_string hused (hutf8 htext)
  · intro members hwithin
    obtain ⟨texts, used, hused, hutf8⟩ := exists_text_of_parse h hwithin
    exact isUtf8_of_name hused (hutf8 htext)

theorem parse_keeps_utf8_of_mixed_escapes :
    let text := ascii "\x7b\"" ++ [195, 169] ++ ascii "\":[\"" ++ [226, 130, 172] ++
      ascii "\\u20ac\\n\"]\x7d"
    let string : Octets := [226, 130, 172, 226, 130, 172, 10]
    let value : Json := .object [([195, 169], .array [.string string])]
    IsUtf8 text ∧ parse text = .ok value ∧ Within (.string string) value ∧ IsUtf8 string ∧
      IsUtf8 [195, 169] := by
  intro text string value
  have htext : IsUtf8 text := Octets.isUtf8_iff.mp (by decide +kernel)
  have hparse : parse text = .ok value := by with_unfolding_all rfl
  have hitem : Within (.string string) (.array [.string string]) :=
    .child (List.mem_singleton.mpr rfl) .self
  have hwithin : Within (.string string) value := .child (List.mem_singleton.mpr rfl) hitem
  obtain ⟨hstrings, hnames⟩ := parse_keeps_utf8 htext hparse
  exact ⟨htext, hparse, hwithin, hstrings string hwithin,
    hnames _ .self _ List.mem_cons_self⟩

end DetectorCache.Json
