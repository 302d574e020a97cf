import DetectorCache.Journal
import DetectorCache.Proofs.Octets.Lines
import DetectorCache.Timestamp
import Mathlib.Data.List.Basic
/-!
Records read back. A record is one line, and all that it was made of can be read from that line: the
escapes keep line feeds and bare quotation marks out of quoted texts, and a field's name ends at the
equals sign. So no component, message or value can end a record or pass for a further field, and
whatever a journal writes comes apart into the records it kept.
-/
set_option autoImplicit false

namespace DetectorCache

open Octets (ascii lineFeed quotationMark backslash hyphen)

namespace Octets

abbrev blank : UInt8 := 32

abbrev equalsSign : UInt8 := 61

theorem isPrefixOf?_append (front rest : Octets) : front.isPrefixOf? (front ++ rest) = some rest :=
  List.isPrefixOf?_eq_some_iff_append_eq.mpr rfl

theorem split_at_mark {mark : UInt8} {run : Octets} (h : mark ∉ run) (rest : Octets)
    (hrest : rest.head? = some mark) :
    (run ++ rest).takeWhile (· != mark) = run ∧ (run ++ rest).dropWhile (· != mark) = rest := by
  have hrun : ∀ b ∈ run, (b != mark) = true :=
    fun b hb => bne_iff_ne.mpr fun heq => h (heq ▸ hb)
  obtain ⟨others, rfl⟩ := List.head?_eq_some_iff.mp hrest
  rw [List.takeWhile_append_of_pos hrun, List.dropWhile_append_of_pos hrun, List.takeWhile_cons,
    List.dropWhile_cons, bne_self_eq_false]
  exact ⟨List.append_nil run, rfl⟩

end Octets

open Octets (blank equalsSign)

namespace Timestamp

theorem hyphen_le_of_mem_decimal {n : Nat} {b : UInt8} (h : b ∈ Octets.decimal n) :
    hyphen ≤ b := by
  have hdigit := Octets.isDigit_of_mem_decimal h
  simp only [Octets.isDigit, Bool.and_eq_true, decide_eq_true_eq] at hdigit
  exact UInt8.le_trans (by decide) hdigit.1

theorem hyphen_le_of_mem_paddedDecimal {width n : Nat} {b : UInt8}
    (h : b ∈ Octets.paddedDecimal width n) : hyphen ≤ b := by
  rcases List.mem_append.mp h with hzero | hdigit
  · rw [List.eq_of_mem_replicate hzero]
    decide
  · exact hyphen_le_of_mem_decimal hdigit

theorem hyphen_le_of_mem_text (t : Timestamp) : ∀ b ∈ t.text, hyphen ≤ b := by
  have hnumeral : ∀ width n, ∀ b ∈ Octets.paddedDecimal width n, hyphen ≤ b :=
    fun _ _ _ => hyphen_le_of_mem_paddedDecimal
  have hyear : ∀ year, ∀ b ∈ yearText year, hyphen ≤ b := by
    intro year
    rw [yearText]
    split
    · exact List.forall_mem_cons.mpr ⟨UInt8.le_refl hyphen, hnumeral _ _⟩
    · exact hnumeral _ _
  have hmark {mark : Octets} (h : mark.all fun b => hyphen ≤ b) : ∀ b ∈ mark, hyphen ≤ b :=
    fun b hb => of_decide_eq_true (List.all_eq_true.mp h b hb)
  simp only [text, List.forall_mem_append]
  exact ⟨⟨⟨⟨⟨⟨⟨⟨⟨⟨⟨⟨⟨hyear _, hmark (by decide)⟩, hnumeral _ _⟩, hmark (by decide)⟩, hnumeral _ _⟩,
    hmark (by decide)⟩, hnumeral _ _⟩, hmark (by decide)⟩, hnumeral _ _⟩, hmark (by decide)⟩,
    hnumeral _ _⟩, hmark (by decide)⟩, hnumeral _ _⟩, hmark (by decide)⟩

theorem not_mem_text {mark : UInt8} (h : mark < hyphen) (t : Timestamp) : mark ∉ t.text :=
  fun hmem => UInt8.not_le.mpr h (t.hyphen_le_of_mem_text mark hmem)

end Timestamp

namespace Journal

def escapedOctet (b : UInt8) : UInt8 :=
  if b = 110 then 10 else if b = 114 then 13 else if b = 116 then 9 else b

def readQuoted : Octets → Option (Octets × Octets)
  | [] => none
  | b :: rest =>
    if b = quotationMark then some ([], rest)
    else if b = backslash then
      match rest with
      | [] => none
      | c :: rest => (readQuoted rest).map fun read => (escapedOctet c :: read.1, read.2)
    else (readQuoted rest).map fun read => (b :: read.1, read.2)

theorem length_lt_of_readQuoted {text : Octets} {read : Octets × Octets}
    (h : readQuoted text = some read) : read.2.length < text.length := by
  revert read
  fun_induction readQuoted text with
  | case1 => nofun
  | case2 rest =>
    rintro read ⟨⟩
    exact Nat.lt_succ_self _
  | case3 => nofun
  | case4 c rest _ ih =>
    intro read hread
    obtain ⟨inner, hinner, rfl⟩ := Option.map_eq_some_iff.mp hread
    have hlt := ih hinner
    simp only [List.length_cons]
    omega
  | case5 b rest _ _ ih =>
    intro read hread
    obtain ⟨inner, hinner, rfl⟩ := Option.map_eq_some_iff.mp hread
    have hlt := ih hinner
    simp only [List.length_cons]
    omega

theorem readQuoted_escapeOctet (b : UInt8) (rest : Octets) :
    readQuoted (escapeOctet b ++ rest) =
      (readQuoted rest).map fun read => (b :: read.1, read.2) := by
  rw [escapeOctet]
  split
  · next hb => rw [hb]; rfl
  · next hbackslash =>
    split
    · next hb => rw [hb]; rfl
    · next hquote =>
      repeat' split
      · next hb => rw [hb]; rfl
      · next hb => rw [hb]; rfl
      · next hb => rw [hb]; rfl
      · rw [List.singleton_append, readQuoted.eq_def]
        simp only [if_neg hquote, if_neg hbackslash]

theorem readQuoted_escaped (text rest : Octets) :
    readQuoted (text.flatMap escapeOctet ++ quotationMark :: rest) = some (text, rest) := by
  induction text with
  | nil =>
    rw [List.flatMap_nil, List.nil_append, readQuoted.eq_def]
    simp only [if_true]
  | cons b text ih =>
    rw [List.flatMap_cons, List.append_assoc, readQuoted_escapeOctet, ih]
    rfl

def readQuote (text : Octets) : Option (Octets × Octets) := do
  readQuoted (← [quotationMark].isPrefixOf? text)

theorem length_lt_of_readQuote {text : Octets} {read : Octets × Octets}
    (h : readQuote text = some read) : read.2.length < text.length := by
  obtain ⟨quoted, hquoted, hread⟩ := Option.bind_eq_some_iff.mp h
  rw [← List.isPrefixOf?_eq_some_iff_append_eq.mp hquoted]
  exact Nat.lt_succ_of_lt (length_lt_of_readQuoted hread)

theorem readQuote_quote (text rest : Octets) :
    readQuote (quote text ++ rest) = some (text, rest) := by
  have hquote : quote text ++ rest =
      [quotationMark] ++ (text.flatMap escapeOctet ++ quotationMark :: rest) := by
    rw [quote, List.cons_append, List.append_assoc]
    rfl
  rw [hquote, readQuote, Octets.isPrefixOf?_append]
  exact readQuoted_escaped text rest

theorem lineFeed_not_mem_quote (text : Octets) : lineFeed ∉ quote text := by
  have hone : ∀ b, lineFeed ∉ escapeOctet b := by
    intro b
    rw [escapeOctet]
    repeat' split
    · decide
    · decide
    · decide
    · decide
    · decide
    · next hother _ _ => exact fun hmem => hother (List.mem_singleton.mp hmem).symm
  rw [quote, List.mem_cons, List.mem_append, List.mem_flatMap]
  rintro (hopened | ⟨b, -, hescaped⟩ | hclosed)
  · exact absurd hopened (by decide)
  · exact hone b hescaped
  · exact absurd (List.mem_singleton.mp hclosed) (by decide)

def readField (text : Octets) : Option ((Octets × Octets) × Octets) := do
  let named ← [blank].isPrefixOf? text
  let quoted ← [equalsSign].isPrefixOf? (named.dropWhile (· != equalsSign))
  let value ← readQuote quoted
  return ((named.takeWhile (· != equalsSign), value.1), value.2)

theorem length_lt_of_readField {text : Octets} {read : (Octets × Octets) × Octets}
    (h : readField text = some read) : read.2.length < text.length := by
  obtain ⟨named, hnamed, h⟩ := Option.bind_eq_some_iff.mp h
  obtain ⟨quoted, hquoted, h⟩ := Option.bind_eq_some_iff.mp h
  obtain ⟨value, hvalue, h⟩ := Option.bind_eq_some_iff.mp h
  cases h
  have hsplit := congrArg List.length (List.isPrefixOf?_eq_some_iff_append_eq.mp hquoted)
  have hdropped := (List.dropWhile_suffix (l := named) (· != equalsSign)).length_le
  have hlt := length_lt_of_readQuote hvalue
  rw [← List.isPrefixOf?_eq_some_iff_append_eq.mp hnamed]
  simp only [List.length_append, List.length_cons, List.length_nil] at hsplit ⊢
  omega

def readFields (text : Octets) : Option (List (Octets × Octets)) :=
  if text = [] then some []
  else
    match _h : readField text with
    | none => none
    | some (field, rest) => (readFields rest).map (field :: ·)
termination_by text.length
decreasing_by exact length_lt_of_readField _h

/-- A name that cannot be taken for more than a name. Blanks and quotation marks do no harm in it,
since it goes on to the equals sign. -/
def IsName (name : Octets) : Prop := equalsSign ∉ name ∧ lineFeed ∉ name

instance (name : Octets) : Decidable (IsName name) := instDecidableAnd

theorem readField_fieldText {field : Octets × Octets} (h : IsName field.1) (rest : Octets) :
    readField (fieldText field ++ rest) = some (field, rest) := by
  have htext : fieldText field ++ rest =
      [blank] ++ (field.1 ++ ([equalsSign] ++ (quote field.2 ++ rest))) := by
    simp only [fieldText, List.append_assoc]
    rfl
  obtain ⟨hname, hvalue⟩ :=
    Octets.split_at_mark h.1 ([equalsSign] ++ (quote field.2 ++ rest)) rfl
  rw [htext, readField, Octets.isPrefixOf?_append]
  simp only [Option.bind_eq_bind, Option.bind_some, hname, hvalue, Octets.isPrefixOf?_append,
    readQuote_quote]
  rfl

theorem readFields_flatMap {fields : List (Octets × Octets)}
    (h : ∀ field ∈ fields, IsName field.1) :
    readFields (fields.flatMap fieldText) = some fields := by
  induction fields with
  | nil => rw [List.flatMap_nil, readFields, if_pos rfl]
  | cons field fields ih =>
    have hrest := ih fun other hother => h other (List.mem_cons_of_mem _ hother)
    have hne : fieldText field ++ fields.flatMap fieldText ≠ [] := List.cons_ne_nil _ _
    have hfirst := readField_fieldText (h field List.mem_cons_self) (fields.flatMap fieldText)
    rw [List.flatMap_cons, readFields, if_neg hne]
    split
    · next hnone => rw [hfirst] at hnone; cases hnone
    · next hsome =>
      rw [hfirst] at hsome
      cases hsome
      rw [hrest]
      rfl

theorem Level.blank_not_mem_name (level : Level) : blank ∉ level.name := by
  cases level <;> decide

theorem Level.ofText_name (level : Level) : ofText level.name = .ok level := by
  cases level <;> rfl

theorem lineFeed_not_mem_fields {fields : List (Octets × Octets)}
    (h : ∀ field ∈ fields, IsName field.1) : lineFeed ∉ fields.flatMap fieldText := by
  rw [List.mem_flatMap]
  rintro ⟨field, hfield, hmem⟩
  simp only [fieldText, List.mem_append] at hmem
  rcases hmem with ((hblank | hname) | hsign) | hvalue
  · exact absurd hblank (by decide)
  · exact (h field hfield).2 hname
  · exact absurd hsign (by decide)
  · exact lineFeed_not_mem_quote field.2 hvalue

namespace Record

def content (record : Record) (stamp : Octets) : Octets :=
  ascii "ts_utc=" ++ stamp ++ ascii " level=" ++ record.level.name ++ ascii " component=" ++
    quote record.component ++ ascii " msg=" ++ quote record.message ++
    record.fields.flatMap fieldText

/-- Reads a line as the record that it shows, whatever the time of it. -/
def ofLine? (line : Octets) : Option Record := do
  let stamped ← (ascii "ts_utc=").isPrefixOf? line
  let leveled ← (ascii " level=").isPrefixOf? (stamped.dropWhile (· != blank))
  let level ← (Level.ofText (leveled.takeWhile (· != blank))).toOption
  let written ← (ascii " component=").isPrefixOf? (leveled.dropWhile (· != blank))
  let component ← readQuote written
  let told ← (ascii " msg=").isPrefixOf? component.2
  let message ← readQuote told
  let fields ← readFields message.2
  return ⟨level, component.1, message.1, fields⟩

variable {record : Record} {stamp : Octets}

theorem ofLine?_content (hstamp : blank ∉ stamp) (h : ∀ field ∈ record.fields, IsName field.1) :
    ofLine? (record.content stamp) = some record := by
  have hfields := readFields_flatMap h
  obtain ⟨hlevel, hleveled⟩ := Octets.split_at_mark record.level.blank_not_mem_name
    (ascii " component=" ++ (quote record.component ++ (ascii " msg=" ++
      (quote record.message ++ record.fields.flatMap fieldText)))) rfl
  obtain ⟨-, hstamped⟩ := Octets.split_at_mark hstamp
    (ascii " level=" ++ (record.level.name ++ (ascii " component=" ++
      (quote record.component ++ (ascii " msg=" ++
        (quote record.message ++ record.fields.flatMap fieldText)))))) rfl
  simp only [ofLine?, content, List.append_assoc, Octets.isPrefixOf?_append, Option.bind_eq_bind,
    Option.bind_some, hstamped, hlevel, hleveled, Level.ofText_name, Except.toOption,
    readQuote_quote, hfields]
  rfl

theorem lineFeed_not_mem_content (hstamp : lineFeed ∉ stamp)
    (h : ∀ field ∈ record.fields, IsName field.1) : lineFeed ∉ record.content stamp := by
  have hlevel : lineFeed ∉ record.level.name := by cases record.level <;> decide
  simp only [content, List.mem_append, not_or]
  exact ⟨⟨⟨⟨⟨⟨⟨⟨by decide, hstamp⟩, by decide⟩, hlevel⟩, by decide⟩, lineFeed_not_mem_quote _⟩,
    by decide⟩, lineFeed_not_mem_quote _⟩, lineFeed_not_mem_fields h⟩

end Record

/-- What a journal, as it is set up at the time, is told at a time. -/
structure Telling where
  journal : Journal
  time : Timestamp
  level : Level
  message : Octets
  fields : List (Octets × Octets)

namespace Telling

def written (t : Telling) : Octets :=
  (t.journal.drain.2.write t.level t.message t.fields).drain.1.flatMap (·.line t.time.text)

def record (t : Telling) : Record := ⟨t.level, t.journal.component, t.message, t.fields⟩

/-- The level is not below the threshold. -/
def Heard (t : Telling) : Prop := t.journal.threshold.rank ≤ t.level.rank

instance (t : Telling) : Decidable t.Heard := Nat.decLe _ _

/-- The names of the fields are names. -/
def Named (t : Telling) : Prop := ∀ field ∈ t.fields, IsName field.1

variable {t : Telling}

theorem written_of_heard (h : t.Heard) :
    t.written = t.record.content t.time.text ++ [lineFeed] := by
  have hkeeps : t.journal.drain.2.keeps t.level = true := decide_eq_true h
  rw [written, write, if_pos hkeeps]
  exact List.append_nil _

theorem written_of_not_heard (h : ¬ t.Heard) : t.written = [] := by
  have hkeeps : t.journal.drain.2.keeps t.level = false := decide_eq_false h
  rw [written, write, hkeeps]
  rfl

theorem Named.ofLine? (h : t.Named) :
    Record.ofLine? (t.record.content t.time.text) = some t.record :=
  Record.ofLine?_content (t.time.not_mem_text (by decide)) h

theorem Named.lineFeed_not_mem (h : t.Named) : lineFeed ∉ t.record.content t.time.text :=
  Record.lineFeed_not_mem_content (t.time.not_mem_text (by decide)) h

theorem lines_written {tellings : List Telling} (h : ∀ t ∈ tellings, t.Named) :
    Octets.lines (tellings.flatMap written) =
      (tellings.filter (·.Heard)).map fun t => t.record.content t.time.text := by
  have hwritten : tellings.flatMap written =
      ((tellings.filter (·.Heard)).map fun t => t.record.content t.time.text).flatMap
        fun line => line ++ [lineFeed] := by
    clear h
    induction tellings with
    | nil => rfl
    | cons t tellings ih =>
      rw [List.flatMap_cons, ih, List.filter_cons]
      split
      · next hheard =>
        rw [written_of_heard (of_decide_eq_true hheard), List.map_cons, List.flatMap_cons]
      · next hheard =>
        rw [written_of_not_heard fun hyes => hheard (decide_eq_true hyes), List.nil_append]
  rw [hwritten]
  refine Octets.lines_flatMap fun line hline => ?_
  obtain ⟨t, ht, rfl⟩ := List.mem_map.mp hline
  exact (h t (List.mem_filter.mp ht).1).lineFeed_not_mem

/-- Whatever is told, with any texts but for the names of fields, what is not below the threshold is
written as one line and can be read from it with its level, component, message and fields, and what
is below writes nothing. So at one time two tellings that differ in any of these write different
lines; and after any tellings the text comes apart at its line feeds into the records heard. -/
theorem written_recoverable {tellings : List Telling} (h : ∀ t ∈ tellings, t.Named) :
    (∀ t ∈ tellings, t.Heard → ∃ line, t.written = line ++ [lineFeed] ∧ lineFeed ∉ line ∧
      Record.ofLine? line = some t.record) ∧
    (∀ t ∈ tellings, ¬ t.Heard → t.written = []) ∧
    (∀ t ∈ tellings, ∀ other ∈ tellings, t.Heard → other.Heard → t.time = other.time →
      (t.written = other.written ↔ t.record = other.record)) ∧
    (Octets.lines (tellings.flatMap written)).map Record.ofLine? =
      (tellings.filter (·.Heard)).map fun t => some t.record := by
  refine ⟨?_, fun t _ hnot => written_of_not_heard hnot, ?_, ?_⟩
  · intro t ht hheard
    exact ⟨_, written_of_heard hheard, (h t ht).lineFeed_not_mem, (h t ht).ofLine?⟩
  · intro t ht other hother hheard hheardToo htime
    rw [written_of_heard hheard, written_of_heard hheardToo, htime]
    constructor
    · intro heq
      have hread := (h t ht).ofLine?
      rw [htime, List.append_cancel_right heq, (h other hother).ofLine?] at hread
      exact (Option.some.inj hread).symm
    · intro hrecord
      rw [hrecord]
  · rw [lines_written h, List.map_map]
    refine List.map_congr_left fun t ht => ?_
    exact (h t (List.mem_filter.mp ht).1).ofLine?

/-- A value tries to end its quotation, to add a field and to end the record. It reads back as the
value that it is, and is not what a record with that field writes; a telling below the threshold
between the two writes nothing. -/
theorem written_recoverable_of_forged_field :
    let journal : Journal := { threshold := .info, component := ascii "replay" }
    let forging : Telling :=
      ⟨journal, 0, .warn, ascii "evicting", [(ascii "key", ascii "a\" error=\"b\n")]⟩
    let plain : Telling :=
      ⟨journal, 0, .warn, ascii "evicting",
        [(ascii "key", ascii "a"), (ascii "error", ascii "b\n")]⟩
    let quiet : Telling := ⟨journal, 0, .debug, ascii "evicting", []⟩
    (∀ t ∈ [forging, quiet, plain], t.Named) ∧ forging.written ≠ plain.written ∧
      quiet.written = [] ∧
      (Octets.lines ([forging, quiet, plain].flatMap written)).map Record.ofLine? =
        [some forging.record, some plain.record] := by
  intro journal forging plain quiet
  have hnamed : ∀ t ∈ [forging, quiet, plain], t.Named := by
    simp only [List.forall_mem_cons, List.not_mem_nil, false_imp_iff, implies_true, and_true, Named]
    decide
  obtain ⟨-, hquiet, hdiffer, hlines⟩ := written_recoverable hnamed
  refine ⟨hnamed, ?_, hquiet quiet (by simp) (by decide), hlines⟩
  intro hsame
  have hrecord := (hdiffer forging (by simp) plain (by simp) (by decide) (by decide) rfl).mp hsame
  exact absurd hrecord (by decide)

end Telling

end Journal

end DetectorCache
