import DetectorCache.Json.Document
import DetectorCache.Proofs.Json.Numerals
import DetectorCache.Proofs.Json.Strings
/-!
The parser accepts the documents of the grammar and nothing else, each with its value. A reader is
compared with the texts it is for in both directions: what it reads is such a text, and it reads
such a text to the end, whatever comes after it as long as no numeral could go on there. Both go
through rows of items by induction on the row and through levels of values by induction on the
number of levels.
-/
set_option autoImplicit false

namespace DetectorCache.Json

open Octets (ascii isBlank)
open Grammar (Blanks blankOctets Numeral Quoted Items Member Members LastOf ValueOf Value Document)

theorem isBlank_iff {b : UInt8} : isBlank b = true ↔ b ∈ blankOctets := by
  simp only [isBlank, blankOctets, Bool.or_eq_true, beq_iff_eq, Bool.and_eq_true,
    decide_eq_true_eq, List.mem_cons, List.not_mem_nil, or_false, UInt8.le_iff_toNat_le,
    ← UInt8.toNat_inj]
  simp only [UInt8.reduceToNat]
  omega

theorem blanks_of_skipBlanks (text : Octets) :
    ∃ blanks, Blanks blanks ∧ text = blanks ++ skipBlanks text :=
  ⟨text.takeWhile isBlank, fun _ hb => mem_of_mem_takeWhile isBlank_iff hb,
    List.takeWhile_append_dropWhile.symm⟩

theorem blanks_of_skipBlanks_eq {text rest : Octets} (h : skipBlanks text = rest) :
    ∃ blanks, Blanks blanks ∧ text = blanks ++ rest :=
  h ▸ blanks_of_skipBlanks text

theorem skipBlanks_append {blanks rest : Octets} (h : Blanks blanks)
    (hrest : Avoids blankOctets rest) : skipBlanks (blanks ++ rest) = rest :=
  (run_append isBlank_iff h hrest).2

theorem avoids_skipBlanks (text : Octets) : Avoids blankOctets (skipBlanks text) := by
  intro b hb hblank
  have hnot := List.head?_dropWhile_not isBlank text
  rw [show (text.dropWhile isBlank).head? = some b from hb] at hnot
  exact Bool.false_ne_true (hnot.symm.trans (isBlank_iff.mpr hblank))

theorem skipBlanks_skipBlanks (text : Octets) :
    skipBlanks (skipBlanks text) = skipBlanks text :=
  @skipBlanks_append [] _ nofun (avoids_skipBlanks text)

theorem skipBlanks_eq_nil_iff {text : Octets} : skipBlanks text = [] ↔ Blanks text := by
  constructor
  · intro h
    obtain ⟨blanks, hblanks, rfl⟩ := blanks_of_skipBlanks_eq h
    rw [List.append_nil]
    exact hblanks
  · intro h
    have hskip := @skipBlanks_append text [] h nofun
    rwa [List.append_nil] at hskip

theorem endsNumeral_of_blanks {blanks rest : Octets} (h : Blanks blanks)
    (hrest : EndsNumeral rest) : EndsNumeral (blanks ++ rest) := by
  cases blanks with
  | nil => exact hrest
  | cons b blanks =>
    have hother : Apart blankOctets (ascii "0123456789.eE") := by decide
    exact avoids_cons (hother b (h b List.mem_cons_self))

/-- The reader reads the given texts with their values, and nothing else. A numeral is read as far
as it goes, so only before a rest that could not go on with it is a text read to its very end. -/
structure Reads {α : Type} (read : Octets → Except Failure (α × Octets))
    (texts : Octets → α → Prop) : Prop where
  sound {text rest : Octets} {value : α} (h : read text = .ok (value, rest)) :
    ∃ used, texts used value ∧ text = used ++ rest
  complete {used rest : Octets} {value : α} (h : texts used value) (hrest : EndsNumeral rest) :
    read (used ++ rest) = .ok (value, rest)

def StartIn {α : Type} (texts : Octets → α → Prop) (octets : Octets) : Prop :=
  ∀ text value, texts text value → ∃ b ∈ octets, ∃ rest, text = b :: rest

def itemStarts : Octets := ascii "\x7b[\"tfn-0123456789"

def itemEnds : Octets := ascii ",:]\x7d"

section

variable {α : Type} {read : Octets → Except Failure (α × Octets)} {texts : Octets → α → Prop}
variable {before used after rest : Octets} {value : α} {b : UInt8}

theorem StartIn.avoids (hstart : StartIn texts itemStarts) {others : Octets}
    (hother : Apart itemStarts others) (hused : texts used value) (rest : Octets) :
    Avoids others (used ++ rest) := by
  obtain ⟨b, hb, tail, rfl⟩ := hstart used value hused
  exact avoids_cons (hother b hb)

theorem StartIn.skipBlanks_ne (hstart : StartIn texts itemStarts) (hb : b ∉ itemStarts)
    (hbefore : Blanks before) (hused : texts used value) (tail rest : Octets) :
    skipBlanks (before ++ (used ++ tail)) ≠ b :: rest := by
  obtain ⟨first, hfirst, others, rfl⟩ := hstart used value hused
  have hnot : Apart itemStarts blankOctets := by decide
  rw [List.cons_append, skipBlanks_append hbefore (avoids_cons (hnot first hfirst))]
  rintro ⟨⟩
  exact hb hfirst

theorem Reads.sound_up_to (h : Reads read texts) {text afterItem : Octets}
    (hread : read (skipBlanks text) = .ok (value, afterItem))
    (hskip : skipBlanks afterItem = b :: rest) :
    ∃ before used after, Blanks before ∧ texts used value ∧ Blanks after ∧
      text = before ++ (used ++ (after ++ b :: rest)) := by
  obtain ⟨used, hused, hitem⟩ := h.sound hread
  obtain ⟨before, hbefore, rfl⟩ := blanks_of_skipBlanks_eq hitem
  obtain ⟨after, hafter, rfl⟩ := blanks_of_skipBlanks_eq hskip
  exact ⟨before, used, after, hbefore, hused, hafter, rfl⟩

theorem Reads.complete_up_to (h : Reads read texts) (hstart : StartIn texts itemStarts)
    (hbefore : Blanks before) (hused : texts used value) (hafter : Blanks after)
    (hend : b ∈ itemEnds) (rest : Octets) :
    ∃ afterItem, read (skipBlanks (before ++ (used ++ (after ++ b :: rest)))) =
        .ok (value, afterItem) ∧
      skipBlanks afterItem = b :: rest := by
  have hblank : Apart itemEnds blankOctets := by decide
  have hnumeral : Apart itemEnds (ascii "0123456789.eE") := by decide
  have hends : EndsNumeral (after ++ b :: rest) :=
    endsNumeral_of_blanks hafter (avoids_cons (hnumeral b hend))
  refine ⟨after ++ b :: rest, ?_, skipBlanks_append hafter (avoids_cons (hblank b hend))⟩
  rw [skipBlanks_append hbefore (hstart.avoids (by decide) hused _)]
  exact h.complete hused hends

end

theorem reads_quoted : Reads stringReader.read Quoted :=
  ⟨stringReader_sound, fun h _ => stringReader_complete h _⟩

theorem quoted_start : StartIn Quoted itemStarts := by
  rintro _ _ ⟨hunits⟩
  exact ⟨34, by decide, _, rfl⟩

section

variable {item : Reader Json} {texts : Octets → Json → Prop} {text rest used : Octets}

theorem elements_sound (hitem : Reads item.read texts) {items : List Json}
    (h : elements item text = .ok (items, rest)) :
    ∃ row, Items texts row items ∧ text = row ++ 93 :: rest := by
  fun_induction elements item text generalizing items rest with
  | case1 | case2 | case4 | case6 => cases h
  | case3 text value afterItem hi rest' hs =>
    cases h
    obtain ⟨before, used, after, hbefore, hused, hafter, rfl⟩ := hitem.sound_up_to hi hs
    refine ⟨_, .last hbefore hused hafter, ?_⟩
    simp only [List.append_assoc]
  | case5 text value afterItem hi rest' others rest'' he hs _ ih =>
    cases h
    obtain ⟨row, hrow, rfl⟩ := ih he
    obtain ⟨before, used, after, hbefore, hused, hafter, rfl⟩ := hitem.sound_up_to hi hs
    refine ⟨_, .next hbefore hused hafter hrow, ?_⟩
    simp only [List.append_assoc]
    rfl

theorem elements_complete (hitem : Reads item.read texts) (hstart : StartIn texts itemStarts)
    {row : Octets} {items : List Json} (h : Items texts row items) (rest : Octets) :
    elements item (row ++ 93 :: rest) = .ok (items, rest) := by
  -- along the row: an item is read up to the bracket or the comma, and after a comma comes a row
  induction h with
  | last hbefore hvalue hafter =>
    obtain ⟨afterItem, hread, hskip⟩ :=
      hitem.complete_up_to hstart hbefore hvalue hafter (b := 93) (by decide) rest
    simp only [List.append_assoc]
    rw [elements, hread]
    dsimp only
    rw [hskip]
    rfl
  | @next before text after row value others hbefore hvalue hafter _ ih =>
    obtain ⟨afterItem, hread, hskip⟩ :=
      hitem.complete_up_to hstart hbefore hvalue hafter (b := 44) (by decide) (row ++ 93 :: rest)
    have htext : before ++ (text ++ (after ++ (ascii "," ++ row))) ++ 93 :: rest =
        before ++ (text ++ (after ++ 44 :: (row ++ 93 :: rest))) := by
      simp only [List.append_assoc]
      rfl
    rw [htext, elements, hread]
    dsimp only
    rw [hskip]
    dsimp only
    rw [if_neg (by decide), if_pos rfl, ih]

theorem memberName_sound {name : Octets} (h : memberName text = .ok (name, rest)) :
    ∃ before used after, Blanks before ∧ Quoted used name ∧ Blanks after ∧
      text = before ++ (used ++ (after ++ 58 :: rest)) := by
  rw [memberName] at h
  split at h
  · cases h
  · next name' afterName hname =>
    split at h
    · cases h
    · next b rest' hs =>
      split at h
      · next hcolon =>
        cases h
        rw [hcolon] at hs
        exact reads_quoted.sound_up_to hname hs
      · cases h

theorem memberName_complete {before after name : Octets} (hbefore : Blanks before)
    (hused : Quoted used name) (hafter : Blanks after) (rest : Octets) :
    memberName (before ++ (used ++ (after ++ 58 :: rest))) = .ok (name, rest) := by
  obtain ⟨afterName, hread, hskip⟩ :=
    reads_quoted.complete_up_to quoted_start hbefore hused hafter (b := 58) (by decide) rest
  rw [memberName, hread]
  dsimp only
  rw [hskip]
  rfl

theorem member_sound (hitem : Reads item.read texts) {name afterName afterItem : Octets}
    {value : Json} {b : UInt8} (hname : memberName text = .ok (name, afterName))
    (hread : item.read (skipBlanks afterName) = .ok (value, afterItem))
    (hskip : skipBlanks afterItem = b :: rest) :
    ∃ used, Member texts used (name, value) ∧ text = used ++ b :: rest := by
  obtain ⟨before, quoted, after, hbefore, hquoted, hafter, rfl⟩ := memberName_sound hname
  obtain ⟨between, inner, behind, hbetween, hinner, hbehind, rfl⟩ := hitem.sound_up_to hread hskip
  refine ⟨_, .mk hbefore hquoted hafter hbetween hinner hbehind, ?_⟩
  simp only [List.append_assoc]
  rfl

theorem member_complete (hitem : Reads item.read texts) (hstart : StartIn texts itemStarts)
    {name : Octets} {value : Json} (h : Member texts used (name, value)) {b : UInt8}
    (hend : b ∈ itemEnds) (rest : Octets) :
    ∃ afterName afterItem, memberName (used ++ b :: rest) = .ok (name, afterName) ∧
      item.read (skipBlanks afterName) = .ok (value, afterItem) ∧
      skipBlanks afterItem = b :: rest := by
  cases h with
  | @mk before quoted after between inner behind _ _ hbefore hquoted hafter hbetween hinner
      hbehind =>
    obtain ⟨afterItem, hread, hskip⟩ :=
      hitem.complete_up_to hstart hbetween hinner hbehind hend rest
    refine ⟨between ++ (inner ++ (behind ++ b :: rest)), afterItem, ?_, hread, hskip⟩
    simp only [List.append_assoc]
    exact memberName_complete hbefore hquoted hafter _

theorem members_sound (hitem : Reads item.read texts) {row : List (Octets × Json)}
    (h : members item text = .ok (row, rest)) :
    ∃ used, Members texts used row ∧ text = used ++ 125 :: rest := by
  fun_induction members item text generalizing row rest with
  | case1 | case2 | case3 | case5 | case7 => cases h
  | case4 text name afterName hn value afterItem hi rest' hs =>
    cases h
    obtain ⟨used, hmember, rfl⟩ := member_sound hitem hn hi hs
    exact ⟨used, .last hmember, rfl⟩
  | case6 text name afterName hn value afterItem hi rest' others rest'' he hs _ ih =>
    cases h
    obtain ⟨row, hrow, rfl⟩ := ih he
    obtain ⟨used, hmember, rfl⟩ := member_sound hitem hn hi hs
    refine ⟨_, .next hmember hrow, ?_⟩
    simp only [List.append_assoc]
    rfl

theorem members_complete (hitem : Reads item.read texts) (hstart : StartIn texts itemStarts)
    {row : List (Octets × Json)} (h : Members texts used row) (rest : Octets) :
    members item (used ++ 125 :: rest) = .ok (row, rest) := by
  induction h with
  | last hmember =>
    obtain ⟨afterName, afterItem, hname, hread, hskip⟩ :=
      member_complete hitem hstart hmember (b := 125) (by decide) rest
    rw [members, hname]
    dsimp only
    rw [hread]
    dsimp only
    rw [hskip]
    rfl
  | @next text row member others hmember _ ih =>
    obtain ⟨afterName, afterItem, hname, hread, hskip⟩ :=
      member_complete hitem hstart hmember (b := 44) (by decide) (row ++ 125 :: rest)
    have htext : text ++ (ascii "," ++ row) ++ 125 :: rest =
        text ++ 44 :: (row ++ 125 :: rest) := by
      simp only [List.append_assoc]
      rfl
    rw [htext, members, hname]
    dsimp only
    rw [hread]
    dsimp only
    rw [hskip]
    dsimp only
    rw [if_neg (by decide), if_pos rfl, ih]

theorem elements_skipBlanks (text : Octets) :
    elements item (skipBlanks text) = elements item text := by
  rw [elements, skipBlanks_skipBlanks, ← elements]

theorem members_skipBlanks (text : Octets) :
    members item (skipBlanks text) = members item text := by
  have hname : memberName (skipBlanks text) = memberName text := by
    rw [memberName, skipBlanks_skipBlanks, ← memberName]
  rw [members, hname, ← members]

theorem arrayBody_closed (h : skipBlanks text = 93 :: rest) :
    arrayBody item text = .ok ([], rest) := by
  rw [arrayBody, h]
  rfl

theorem arrayBody_filled (h : ∀ rest, skipBlanks text ≠ 93 :: rest) :
    arrayBody item text = elements item text := by
  rw [arrayBody, ← elements_skipBlanks text]
  split
  · next hs => rw [hs]
  · next b rest hs =>
    have hb : b ≠ 93 := by
      rintro rfl
      exact h rest hs
    rw [if_neg hb, hs]

theorem objectBody_closed (h : skipBlanks text = 125 :: rest) :
    objectBody item text = .ok ([], rest) := by
  rw [objectBody, h]
  rfl

theorem objectBody_filled (h : ∀ rest, skipBlanks text ≠ 125 :: rest) :
    objectBody item text = members item text := by
  rw [objectBody, ← members_skipBlanks text]
  split
  · next hs => rw [hs]
  · next b rest hs =>
    have hb : b ≠ 125 := by
      rintro rfl
      exact h rest hs
    rw [if_neg hb, hs]

theorem arrayBody_sound (hitem : Reads item.read texts) {items : List Json}
    (h : arrayBody item text = .ok (items, rest)) :
    ∃ body, ValueOf texts (ascii "[" ++ (body ++ ascii "]")) (.array items) ∧
      text = body ++ 93 :: rest := by
  by_cases hclosed : ∃ rest, skipBlanks text = 93 :: rest
  · obtain ⟨rest', hskip⟩ := hclosed
    rw [arrayBody_closed hskip] at h
    cases h
    obtain ⟨blanks, hblanks, rfl⟩ := blanks_of_skipBlanks_eq hskip
    exact ⟨blanks, .emptyArray hblanks, rfl⟩
  · rw [arrayBody_filled (not_exists.mp hclosed)] at h
    obtain ⟨row, hrow, rfl⟩ := elements_sound hitem h
    exact ⟨row, .array hrow, rfl⟩

theorem arrayBody_of_blanks {blanks : Octets} (h : Blanks blanks) (rest : Octets) :
    arrayBody item (blanks ++ 93 :: rest) = .ok ([], rest) :=
  arrayBody_closed (skipBlanks_append h (avoids_cons (by decide)))

theorem arrayBody_of_items (hitem : Reads item.read texts) (hstart : StartIn texts itemStarts)
    {row : Octets} {items : List Json} (h : Items texts row items) (rest : Octets) :
    arrayBody item (row ++ 93 :: rest) = .ok (items, rest) := by
  have hfilled : ∀ tail, skipBlanks (row ++ 93 :: rest) ≠ 93 :: tail := by
    intro tail
    cases h with
    | last hbefore hvalue hafter | next hbefore hvalue hafter hrest =>
      simp only [List.append_assoc]
      exact hstart.skipBlanks_ne (by decide) hbefore hvalue _ tail
  rw [arrayBody_filled hfilled]
  exact elements_complete hitem hstart h rest

theorem objectBody_of_blanks {blanks : Octets} (h : Blanks blanks) (rest : Octets) :
    objectBody item (blanks ++ 125 :: rest) = .ok ([], rest) :=
  objectBody_closed (skipBlanks_append h (avoids_cons (by decide)))

theorem objectBody_of_members (hitem : Reads item.read texts) (hstart : StartIn texts itemStarts)
    {row : List (Octets × Json)} (h : Members texts used row) (rest : Octets) :
    objectBody item (used ++ 125 :: rest) = .ok (row, rest) := by
  have hmember : ∀ {used tail : Octets} {member : Octets × Json}, Member texts used member →
      ∀ others, skipBlanks (used ++ tail) ≠ 125 :: others := by
    rintro _ tail _ ⟨hbefore, hname, -, -, -, -⟩ others
    simp only [List.append_assoc]
    exact quoted_start.skipBlanks_ne (by decide) hbefore hname _ others
  have hfilled : ∀ tail, skipBlanks (used ++ 125 :: rest) ≠ 125 :: tail := by
    cases h with
    | last hlast => exact hmember hlast
    | next hfirst hrest =>
      rw [List.append_assoc]
      exact hmember hfirst
  rw [objectBody_filled hfilled]
  exact members_complete hitem hstart h rest

/-! Of several members with one name the last is kept. -/

theorem lookup_foldl_insertByKey (row : List (Octets × Json)) {held : List (Octets × Json)}
    (hheld : KeysIncrease held) :
    KeysIncrease (row.foldl (fun held m => insertByKey m.1 m.2 held) held) ∧
      ∀ name, (row.foldl (fun held m => insertByKey m.1 m.2 held) held).lookup name =
        (row.reverse.lookup name).or (held.lookup name) := by
  induction row generalizing held with
  | nil => exact ⟨hheld, fun _ => rfl⟩
  | cons member row ih =>
    obtain ⟨key, value⟩ := member
    obtain ⟨hkeys, hlookup⟩ := ih (hheld.insertByKey key value)
    refine ⟨hkeys, fun name => ?_⟩
    rw [List.foldl_cons, hlookup, lookup_insertByKey hheld, List.reverse_cons,
      List.lookup_append, Option.or_assoc]
    congr 1
    by_cases hname : name = key
    · simp [hname]
    · simp [List.lookup_cons, hname, beq_false_of_ne hname]

theorem lastOf_foldl (row : List (Octets × Json)) :
    LastOf row (row.foldl (fun held m => insertByKey m.1 m.2 held) []) := by
  obtain ⟨hkeys, hlookup⟩ := @lookup_foldl_insertByKey row [] .nil
  refine ⟨hkeys, fun name => ?_⟩
  rw [hlookup]
  exact Option.or_none

theorem lastOf_unique {row held held' : List (Octets × Json)} (h : LastOf row held)
    (h' : LastOf row held') : held = held' := by
  have heq : (⟨held, h.1⟩ : SortedMap Json) = ⟨held', h'.1⟩ :=
    SortedMap.ext_find? fun name => (h.2 name).trans (h'.2 name).symm
  exact congrArg SortedMap.entries heq

theorem ofMembers_eq_object {row held : List (Octets × Json)} (h : LastOf row held) :
    ofMembers row = .object held := by
  rw [ofMembers, lastOf_unique (lastOf_foldl row) h]

theorem objectBody_sound (hitem : Reads item.read texts) {row : List (Octets × Json)}
    (h : objectBody item text = .ok (row, rest)) :
    ∃ body, ValueOf texts (ascii "\x7b" ++ (body ++ ascii "\x7d")) (.ofMembers row) ∧
      text = body ++ 125 :: rest := by
  by_cases hclosed : ∃ rest, skipBlanks text = 125 :: rest
  · obtain ⟨rest', hskip⟩ := hclosed
    rw [objectBody_closed hskip] at h
    cases h
    obtain ⟨blanks, hblanks, rfl⟩ := blanks_of_skipBlanks_eq hskip
    exact ⟨blanks, .emptyObject hblanks, rfl⟩
  · rw [objectBody_filled (not_exists.mp hclosed)] at h
    obtain ⟨used, hused, rfl⟩ := members_sound hitem h
    exact ⟨used, .object hused (lastOf_foldl row), rfl⟩

theorem literal_eq_ok_iff {word : Octets} {value read : Json} :
    literal word value text = .ok (read, rest) ↔ read = value ∧ text = word ++ rest := by
  rw [literal]
  split
  · next h =>
    obtain ⟨tail, rfl⟩ := List.isPrefixOf_iff_prefix.mp h
    simp [eq_comm]
  · next h =>
    constructor
    · intro hread
      cases hread
    · rintro ⟨-, rfl⟩
      exact absurd (List.isPrefixOf_iff_prefix.mpr (List.prefix_append ..)) h

theorem readAs_eq_ok_iff {α : Type} {f : α → Json} {x : Except Failure (α × Octets)}
    {value : Json} :
    readAs f x = .ok (value, rest) ↔ ∃ a, x = .ok (a, rest) ∧ f a = value := by
  cases x with
  | error e => exact ⟨nofun, nofun⟩
  | ok r =>
    obtain ⟨a, others⟩ := r
    simp only [readAs, Except.ok.injEq, Prod.mk.injEq]
    constructor
    · rintro ⟨hvalue, hothers⟩
      exact ⟨a, ⟨rfl, hothers⟩, hvalue⟩
    · rintro ⟨_, ⟨rfl, hothers⟩, hvalue⟩
      exact ⟨hvalue, hothers⟩

theorem valueOf_sound (hitem : Reads item.read texts) {value : Json}
    (h : valueOf item text = .ok (value, rest)) :
    ∃ used, ValueOf texts used value ∧ text = used ++ rest := by
  cases text with
  | nil => cases h
  | cons b text =>
    rw [valueOf] at h
    split at h
    · next hb =>
      obtain ⟨row, hbody, rfl⟩ := readAs_eq_ok_iff.mp h
      obtain ⟨body, hvalue, rfl⟩ := objectBody_sound hitem hbody
      refine ⟨_, hvalue, ?_⟩
      rw [hb, List.append_assoc, List.append_assoc]
      rfl
    · split at h
      · next hb =>
        obtain ⟨items, hbody, rfl⟩ := readAs_eq_ok_iff.mp h
        obtain ⟨body, hvalue, rfl⟩ := arrayBody_sound hitem hbody
        refine ⟨_, hvalue, ?_⟩
        rw [hb, List.append_assoc, List.append_assoc]
        rfl
      · split at h
        · obtain ⟨string, hread, rfl⟩ := readAs_eq_ok_iff.mp h
          obtain ⟨used, hused, heq⟩ := stringReader_sound hread
          exact ⟨used, .string hused, heq⟩
        · repeat' split at h
          · obtain ⟨rfl, heq⟩ := literal_eq_ok_iff.mp h
            exact ⟨_, .true, heq⟩
          · obtain ⟨rfl, heq⟩ := literal_eq_ok_iff.mp h
            exact ⟨_, .false, heq⟩
          · obtain ⟨rfl, heq⟩ := literal_eq_ok_iff.mp h
            exact ⟨_, .null, heq⟩
          · obtain ⟨x, hread, rfl⟩ := readAs_eq_ok_iff.mp h
            obtain ⟨used, decimal, hused, hx, heq⟩ := numberReader_sound hread
            exact ⟨used, .number hused hx, heq⟩
          · cases h

theorem numeral_start {text : Octets} {decimal : Binary64.Decimal} (h : Numeral text decimal) :
    ∃ b ∈ ascii "-0123456789", ∃ rest, text = b :: rest := by
  obtain ⟨hsign, hwhole, -, -⟩ := h
  cases hsign with
  | minus => exact ⟨45, by decide, _, rfl⟩
  | plus =>
    cases hwhole with
    | zero => exact ⟨48, by decide, _, rfl⟩
    | row hdigits =>
      obtain ⟨hne, hdigits⟩ := hdigits
      obtain ⟨b, row, rfl⟩ := List.exists_cons_of_ne_nil hne
      exact ⟨b, List.mem_cons_of_mem _ (hdigits b List.mem_cons_self), _, rfl⟩

theorem valueOf_numeral {decimal : Binary64.Decimal} (h : Numeral used decimal) :
    valueOf item (used ++ rest) = readAs .number (numberReader.read (used ++ rest)) := by
  -- the kinds of values are told apart by their first octets
  have hother : Apart (ascii "-0123456789") [123, 91, Octets.quotationMark, 116, 102, 110] := by
    decide
  obtain ⟨b, hb, tail, rfl⟩ := numeral_start h
  have hnumber : b = Octets.hyphen ∨ Octets.isDigit b :=
    (List.mem_cons.mp hb).imp_right isDigit_iff.mpr
  have hkinds := hother b hb
  simp only [List.mem_cons, List.not_mem_nil, or_false, not_or] at hkinds
  obtain ⟨hbrace, hbracket, hquote, htrue, hfalse, hnull⟩ := hkinds
  rw [List.cons_append, valueOf, if_neg hbrace, if_neg hbracket, if_neg hquote, if_neg htrue,
    if_neg hfalse, if_neg hnull, if_pos hnumber]

theorem valueOf_bracketed {items : List Json} {body : Octets}
    (h : arrayBody item (body ++ 93 :: rest) = .ok (items, rest)) :
    valueOf item (ascii "[" ++ (body ++ ascii "]") ++ rest) = .ok (.array items, rest) := by
  have htext : ascii "[" ++ (body ++ ascii "]") ++ rest = 91 :: (body ++ 93 :: rest) := by
    simp only [List.append_assoc]
    rfl
  rw [htext]
  exact readAs_eq_ok_iff.mpr ⟨items, h, rfl⟩

theorem valueOf_braced {row : List (Octets × Json)} {body : Octets}
    (h : objectBody item (body ++ 125 :: rest) = .ok (row, rest)) :
    valueOf item (ascii "\x7b" ++ (body ++ ascii "\x7d") ++ rest) = .ok (.ofMembers row, rest) := by
  have htext : ascii "\x7b" ++ (body ++ ascii "\x7d") ++ rest = 123 :: (body ++ 125 :: rest) := by
    simp only [List.append_assoc]
    rfl
  rw [htext]
  exact readAs_eq_ok_iff.mpr ⟨row, h, rfl⟩

theorem valueOf_complete (hitem : Reads item.read texts) (hstart : StartIn texts itemStarts)
    {value : Json} (h : ValueOf texts used value) (hrest : EndsNumeral rest) :
    valueOf item (used ++ rest) = .ok (value, rest) := by
  have hword : ∀ (word : Octets) (value : Json),
      literal word value (word ++ rest) = .ok (value, rest) :=
    fun _ _ => literal_eq_ok_iff.mpr ⟨rfl, rfl⟩
  cases h with
  | null => exact hword (ascii "null") .null
  | true => exact hword (ascii "true") (.bool true)
  | false => exact hword (ascii "false") (.bool false)
  | number hnumeral hx =>
    rw [valueOf_numeral hnumeral]
    exact readAs_eq_ok_iff.mpr ⟨_, numberReader_complete hnumeral hx hrest, rfl⟩
  | string hquoted =>
    have hread := stringReader_complete hquoted rest
    obtain ⟨hunits⟩ := hquoted
    exact readAs_eq_ok_iff.mpr ⟨_, hread, rfl⟩
  | emptyArray hblanks => exact valueOf_bracketed (arrayBody_of_blanks hblanks rest)
  | array hitems => exact valueOf_bracketed (arrayBody_of_items hitem hstart hitems rest)
  | emptyObject hblanks => exact valueOf_braced (objectBody_of_blanks hblanks rest)
  | object hrow hheld =>
    rw [← ofMembers_eq_object hheld]
    exact valueOf_braced (objectBody_of_members hitem hstart hrow rest)

end

theorem valueOf_start (texts : Octets → Json → Prop) : StartIn (ValueOf texts) itemStarts := by
  intro text value h
  cases h with
  | null => exact ⟨110, by decide, _, rfl⟩
  | true => exact ⟨116, by decide, _, rfl⟩
  | false => exact ⟨102, by decide, _, rfl⟩
  | number hnumeral =>
    obtain ⟨b, hb, rest, rfl⟩ := numeral_start hnumeral
    have hstarts : ascii "-0123456789" ⊆ itemStarts := by decide
    exact ⟨b, hstarts hb, rest, rfl⟩
  | string hquoted => exact quoted_start _ _ hquoted
  | emptyArray => exact ⟨91, by decide, _, rfl⟩
  | array => exact ⟨91, by decide, _, rfl⟩
  | emptyObject => exact ⟨123, by decide, _, rfl⟩
  | object => exact ⟨123, by decide, _, rfl⟩

theorem reads_valueOf {item : Reader Json} {texts : Octets → Json → Prop}
    (hitem : Reads item.read texts) (hstart : StartIn texts itemStarts) :
    Reads (valueOf item) (ValueOf texts) :=
  ⟨valueOf_sound hitem, valueOf_complete hitem hstart⟩

theorem reads_value (levels : Nat) : Reads (valueReader (levels + 1)).read (Value levels) := by
  induction levels with
  | zero =>
    -- on the last level the reader of inner values refuses every text
    have hnone : Reads (valueReader 0).read fun _ _ => False := ⟨nofun, nofun⟩
    exact reads_valueOf hnone nofun
  | succ levels ih =>
    have hstart : StartIn (Value levels) itemStarts := by
      cases levels with
      | zero | succ => exact valueOf_start _
    exact reads_valueOf ih hstart

theorem document_of_parse {text : Octets} {value : Json} (h : parse text = .ok value) :
    Document text value := by
  rw [parse] at h
  split at h
  · cases h
  · next root rest hread =>
    split at h
    · next hrest =>
      cases h
      obtain ⟨used, hused, hskip⟩ := (reads_value maxDepth).sound hread
      obtain ⟨before, hbefore, rfl⟩ := blanks_of_skipBlanks_eq hskip
      exact .mk hbefore hused (skipBlanks_eq_nil_iff.mp hrest)
    · cases h

theorem parse_of_document {text : Octets} {value : Json} (h : Document text value) :
    parse text = .ok value := by
  obtain ⟨hbefore, hvalue, hafter⟩ := h
  next before used after =>
  have hends : EndsNumeral after := by
    have hblanks := @endsNumeral_of_blanks after [] hafter nofun
    rwa [List.append_nil] at hblanks
  have hskip : skipBlanks (before ++ (used ++ after)) = used ++ after :=
    skipBlanks_append hbefore ((valueOf_start _).avoids (by decide) hvalue after)
  have hread : (valueReader (maxDepth + 1)).read (used ++ after) = .ok (value, after) :=
    (reads_value maxDepth).complete hvalue hends
  rw [parse, hskip, hread]
  exact if_pos (skipBlanks_eq_nil_iff.mpr hafter)

/-- A text is read as a value exactly if the grammar derives the text with this value, and the
texts that it derives with no value are refused. -/
theorem parse_exact (text : Octets) :
    (∀ value, parse text = .ok value ↔ Document text value) ∧
      ((∃ e, parse text = .error e) ↔ ¬ ∃ value, Document text value) := by
  refine ⟨fun value => ⟨document_of_parse, parse_of_document⟩, ?_, ?_⟩
  · rintro ⟨e, herror⟩ ⟨value, hdocument⟩
    rw [parse_of_document hdocument] at herror
    cases herror
  · intro hnone
    cases hparse : parse text with
    | error e => exact ⟨e, rfl⟩
    | ok value => exact absurd ⟨value, document_of_parse hparse⟩ hnone

end DetectorCache.Json
