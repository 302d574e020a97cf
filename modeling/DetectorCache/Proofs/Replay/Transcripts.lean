import DetectorCache.Proofs.Json.Quotation
import DetectorCache.Proofs.Lookup.Answers
import DetectorCache.Proofs.Octets.Lines
import DetectorCache.Replay.Transcript
import Mathlib.Data.List.Forall2
/-!
Transcripts by their lines. A replay answers every step by one line of its kind, in their order, and
closes with the counters. What is written of a line holds no line feed but those of its tags, which
the key of a tag-set keeps as they are; so the written lines are those of the steps exactly if no
tag of a lookup holds one.
-/
set_option autoImplicit false

namespace DetectorCache

open Octets (ascii lineFeed)

theorem total_eq_zero_iff (counts : List Nat) : total counts = 0 ↔ ∀ n ∈ counts, n = 0 := by
  induction counts with
  | nil => simp [total]
  | cons n counts ih => rw [total, Nat.add_eq_zero_iff, ih, List.forall_mem_cons]

namespace CacheKey

theorem count_escape (text : Octets) : (escape text).count lineFeed = text.count lineFeed := by
  have hone : ∀ b, (if isReserved b then [Octets.backslash, b] else [b]).count lineFeed =
      [b].count lineFeed := by
    intro b
    split
    · rw [List.count_cons, beq_false_of_ne (by decide), if_neg Bool.false_ne_true, Nat.add_zero]
    · rfl
  induction text with
  | nil => rfl
  | cons b text ih =>
    rw [escape, List.flatMap_cons, List.count_append, ← escape, ih, hone, ← List.count_append,
      List.singleton_append]

def lineFeeds (tags : Tags) : Nat :=
  total (tags.entries.map fun e => e.1.count lineFeed + e.2.count lineFeed)

theorem count_renderPair (pair : Octets × Octets) :
    (renderPair pair).count lineFeed = pair.1.count lineFeed + pair.2.count lineFeed := by
  rw [renderPair, List.count_append, List.count_cons, count_escape, count_escape,
    beq_false_of_ne (by decide), if_neg Bool.false_ne_true, Nat.add_zero]

theorem count_encode (tags : Tags) : (encode tags).count lineFeed = lineFeeds tags := by
  rw [encode, lineFeeds]
  induction tags.entries with
  | nil => rfl
  | cons pair pairs ih =>
    cases pairs with
    | nil =>
      rw [render, count_renderPair]
      rfl
    | cons second others =>
      have hrender : render (pair :: second :: others) =
          renderPair pair ++ Octets.comma :: render (second :: others) := rfl
      rw [hrender, List.count_append, List.count_cons, ih, count_renderPair,
        beq_false_of_ne (by decide), if_neg Bool.false_ne_true, Nat.add_zero]
      rfl

theorem lineFeeds_eq_zero_iff {tags : Tags} :
    lineFeeds tags = 0 ↔ ∀ e ∈ tags.entries, lineFeed ∉ e.1 ∧ lineFeed ∉ e.2 := by
  simp only [lineFeeds, total_eq_zero_iff, List.forall_mem_map,
    Nat.add_eq_zero_iff, List.count_eq_zero]

end CacheKey

namespace Front

theorem isCanonical_of_mem_lookup {σ : Type} [MappingService σ] {front : Front σ} {tags : Tags}
    {d : Detector} (h : d ∈ (front.lookup tags).1) : DetectorId.isCanonical d.id := by
  rw [lookup] at h
  cases hfound : (front.cache.find (CacheKey.encode tags)).1 with
  | some detectors =>
    simp only [hfound] at h
    rw [Cache.fst_find] at hfound
    obtain ⟨slot, -, hdecode⟩ := Option.bind_eq_some_iff.mp hfound
    exact (StoredIds.of_decode (Document.eq_ok_of_toOption hdecode)).1 d h
  | none =>
    simp only [hfound] at h
    cases hresolved : (MappingService.resolve tags front.service).1 with
    | error reason =>
      rw [hresolved] at h
      cases h
    | ok mappings =>
      rw [hresolved] at h
      exact Mapping.isCanonical_of_mem_activeDetectors h

end Front

namespace Replay

theorem lineFeed_not_mem_decimal (n : Nat) : lineFeed ∉ Octets.decimal n :=
  fun hmem => absurd (Octets.isDigit_of_mem_decimal hmem) (by decide)

theorem lineFeed_not_mem_joinedIds {detectors : List Detector}
    (h : ∀ d ∈ detectors, DetectorId.isCanonical d.id) :
    lineFeed ∉ Detector.joinedIds detectors := by
  intro hmem
  rcases Octets.mem_joined hmem with hcomma | ⟨id, hid, hin⟩
  · exact absurd hcomma (by decide)
  · obtain ⟨d, hd, rfl⟩ := List.mem_map.mp hid
    rcases DetectorId.octet_of_isCanonical (h d hd) hin with hhyphen | hhex
    · exact absurd hhyphen (by decide)
    · exact absurd hhex (by decide)

theorem lineFeed_not_mem_json (totals : Counters) : lineFeed ∉ totals.json := by
  have hjoined : lineFeed ∉ Octets.joined [Octets.comma]
      (totals.named.map fun e => Json.quote e.1 ++ Octets.colon :: Octets.decimal e.2) := by
    intro hmem
    rcases Octets.mem_joined hmem with hcomma | ⟨member, hmember, hin⟩
    · exact absurd hcomma (by decide)
    · obtain ⟨e, -, rfl⟩ := List.mem_map.mp hmember
      rcases List.mem_append.mp hin with hname | hvalue
      · exact absurd (Json.printed_of_quoted (Json.quoted_quote e.1) _ hname) (by decide)
      · rcases List.mem_cons.mp hvalue with hcolon | hdigit
        · exact absurd hcolon (by decide)
        · exact lineFeed_not_mem_decimal e.2 hdigit
  rw [Counters.json, List.mem_append, List.mem_append, not_or, not_or]
  exact ⟨⟨by decide, hjoined⟩, by decide⟩

def Step.lineFeeds : Step → Nat
  | .lookup tags => CacheKey.lineFeeds tags
  | .refresh _ => 0

/-- A line that answers a step, with whatever it reports. -/
inductive Answers : Step → Line → Prop where
  | lookup (tags : Tags) {detectors : List Detector}
      (h : ∀ d ∈ detectors, DetectorId.isCanonical d.id) :
      Answers (.lookup tags) (.lookup tags detectors)
  | refresh (mappings : List Mapping) (report : Refresh.Report) :
      Answers (.refresh mappings) (.refresh report)

theorem Answers.count_text {step : Step} {line : Line} (h : Answers step line) :
    line.text.count lineFeed = step.lineFeeds := by
  cases h with
  | lookup tags hcanonical =>
    rw [Line.text, List.count_append, List.count_append, List.count_append, CacheKey.count_encode,
      List.count_eq_zero.mpr (lineFeed_not_mem_joinedIds hcanonical)]
    exact Nat.zero_add _
  | refresh mappings report =>
    refine List.count_eq_zero.mpr ?_
    simp only [Line.text, List.mem_append, not_or]
    exact ⟨⟨⟨⟨⟨⟨⟨⟨⟨by decide, lineFeed_not_mem_decimal _⟩, by decide⟩, lineFeed_not_mem_decimal _⟩,
      by decide⟩, lineFeed_not_mem_decimal _⟩, by decide⟩, lineFeed_not_mem_decimal _⟩, by decide⟩,
      lineFeed_not_mem_decimal _⟩

theorem lineFeed_not_mem_counters (totals : Counters) :
    lineFeed ∉ (Line.counters totals).text := by
  rw [Line.text, List.mem_append, not_or]
  exact ⟨by decide, lineFeed_not_mem_json totals⟩

theorem answers_playStep (s : System) (step : Step) : Answers step (playStep s step).1 := by
  cases step with
  | lookup tags => exact .lookup tags fun _ hd => Front.isCanonical_of_mem_lookup hd
  | refresh mappings => exact .refresh mappings _

theorem answers_playSteps (s : System) (steps : List Step) :
    List.Forall₂ Answers steps (playSteps s steps).1 := by
  induction steps generalizing s with
  | nil => exact .nil
  | cons step steps ih => exact .cons (answers_playStep s step) (ih _)

theorem count_transcript_append (lines others : List Line) :
    (transcript (lines ++ others)).count lineFeed =
      (transcript lines).count lineFeed + (transcript others).count lineFeed := by
  rw [transcript, List.flatMap_append, List.count_append, ← transcript, ← transcript]

theorem count_transcript {steps : List Step} {lines : List Line}
    (h : List.Forall₂ Answers steps lines) :
    (transcript lines).count lineFeed = steps.length + total (steps.map Step.lineFeeds) := by
  induction h with
  | nil => rfl
  | cons hanswers _ ih =>
    rw [transcript, List.flatMap_cons, List.count_append, List.count_append, ← transcript, ih,
      hanswers.count_text, List.count_singleton_self, List.length_cons, List.map_cons,
      total]
    omega

theorem count_transcript_counters (totals : Counters) :
    (transcript [.counters totals]).count lineFeed = 1 := by
  rw [transcript, List.flatMap_singleton, List.count_append,
    List.count_eq_zero.mpr (lineFeed_not_mem_counters totals), List.count_singleton_self]

theorem answers_run (plan : Plan) (config : Config) (clock : Clock) (journal : Journal)
    (hash : Octets → Nat) :
    ∃ lines totals, List.Forall₂ Answers plan.steps lines ∧
      transcript (run plan config clock journal hash).1 =
        transcript (lines ++ [.counters totals]) :=
  ⟨_, _, answers_playSteps _ plan.steps, rfl⟩

/-- The lines of a text are one for each step, which answers it, and one with counters; and it holds
nothing else. -/
def Framed (steps : List Step) (text : Octets) : Prop :=
  ∃ lines totals, List.Forall₂ Answers steps lines ∧
    text = transcript (lines ++ [.counters totals]) ∧
    Octets.lines text = (lines ++ [Line.counters totals]).map Line.text

theorem exists_step_of_mem {steps : List Step} {lines : List Line}
    (h : List.Forall₂ Answers steps lines) {line : Line} (hline : line ∈ lines) :
    ∃ step ∈ steps, Answers step line := by
  induction h with
  | nil => cases hline
  | @cons step first _ _ hfirst _ ih =>
    rcases List.mem_cons.mp hline with rfl | hrest
    · exact ⟨step, List.mem_cons_self, hfirst⟩
    · obtain ⟨other, hother, hanswers⟩ := ih hrest
      exact ⟨other, List.mem_cons_of_mem _ hother, hanswers⟩

theorem Framed.length_lines {steps : List Step} {text : Octets} (h : Framed steps text) :
    (Octets.lines text).length = steps.length + 1 := by
  obtain ⟨lines, totals, hanswers, -, hlines⟩ := h
  rw [hlines, List.length_map, List.length_append, hanswers.length_eq, List.length_singleton]

/-- A replay writes one line more than its plan has steps, and one for every line feed in a key or
value of a tag that is looked up. So what it writes is a line for every step, which answers it, and
then the counters, exactly if the tags hold no line feed; this goes for every plan, every
configuration, every clock and every spreading of keys over shards. -/
theorem transcript_framed_iff (plan : Plan) (config : Config) (clock : Clock) (journal : Journal)
    (hash : Octets → Nat) :
    let text := transcript (run plan config clock journal hash).1
    (Octets.lines text).length =
        plan.steps.length + 1 + total (plan.steps.map Step.lineFeeds) ∧
      (Framed plan.steps text ↔
        ∀ tags, .lookup tags ∈ plan.steps →
          ∀ e ∈ tags.entries, lineFeed ∉ e.1 ∧ lineFeed ∉ e.2) := by
  intro text
  obtain ⟨lines, totals, hanswers, hrun⟩ := answers_run plan config clock journal hash
  have htext : text = transcript (lines ++ [.counters totals]) := hrun
  have hlength : (Octets.lines text).length =
      plan.steps.length + 1 + total (plan.steps.map Step.lineFeeds) := by
    rw [Octets.length_lines, htext, count_transcript_append, count_transcript hanswers,
      count_transcript_counters]
    omega
  refine ⟨hlength, ?_, ?_⟩
  · intro hframed tags hlookup
    have hnone : total (plan.steps.map Step.lineFeeds) = 0 := by
      have hlines := hframed.length_lines
      omega
    have hzero := (total_eq_zero_iff _).mp hnone (CacheKey.lineFeeds tags)
      (List.mem_map.mpr ⟨_, hlookup, rfl⟩)
    exact CacheKey.lineFeeds_eq_zero_iff.mp hzero
  · intro htags
    refine ⟨lines, totals, hanswers, htext, ?_⟩
    have hwritten : text =
        ((lines ++ [Line.counters totals]).map Line.text).flatMap fun line =>
          line ++ [lineFeed] := by
      rw [htext, transcript, List.flatMap_map]
    rw [hwritten]
    refine Octets.lines_flatMap fun line hline => ?_
    obtain ⟨told, htold, rfl⟩ := List.mem_map.mp hline
    rcases List.mem_append.mp htold with hstep | hlast
    · obtain ⟨step, hmem, htells⟩ := exists_step_of_mem hanswers hstep
      refine List.count_eq_zero.mp (htells.count_text.trans ?_)
      cases step with
      | lookup tags => exact CacheKey.lineFeeds_eq_zero_iff.mpr (htags tags hmem)
      | refresh mappings => rfl
    · rw [List.mem_singleton.mp hlast]
      exact lineFeed_not_mem_counters totals

/-- A plan and a configuration are accepted, and the value of the one tag looked up ends its line
early: three lines are written for one step. -/
theorem line_feed_in_tag_splits_line :
    let text := ascii "\x7b\"steps\":[\x7b\"lookup\":\x7b\"a\":\"x\\ny\"\x7d\x7d]\x7d"
    let plan : Plan := ⟨[], [.lookup (.ofList [(ascii "a", ascii "x\ny")])]⟩
    let written := transcript (run plan {} {} { threshold := .error }).1
    Document.ofText Plan.ofJson text = .ok plan ∧
      Document.ofText Config.ofJson (ascii "\x7b\x7d") = .ok {} ∧
      (Octets.lines written).take 2 = [ascii "lookup key=a:x", ascii "y detectors="] ∧
      (Octets.lines written).length = 3 ∧ ¬ Framed plan.steps written := by
  intro text plan written
  have haccepted : Document.ofText Plan.ofJson text = .ok plan :=
    Document.eq_ok_of_toOption (by decide +kernel)
  have hconfig : Document.ofText Config.ofJson (ascii "\x7b\x7d") = .ok {} :=
    Document.eq_ok_of_toOption (by decide +kernel)
  have hlength : (Octets.lines written).length = 3 := by decide +kernel
  refine ⟨haccepted, hconfig, by decide +kernel, hlength, fun hframed => ?_⟩
  exact absurd (hlength.symm.trans hframed.length_lines) (by decide)

end Replay

end DetectorCache
