import Mathlib.Data.List.Nodup
import DetectorCache.Proofs.CacheKey.RoundTrip
/-!
Which texts are cache keys. A text is read as a tag-set exactly if it is written out for a row of
pairs with different keys that makes up the tag-set, in whatever order; one text is written for one
row only. So a key that is read and written again comes back with its pairs in key order.
-/
set_option autoImplicit false

namespace DetectorCache.CacheKey

open Octets (ascii)

/-- The text is written out for a row of pairs with different keys. -/
structure Renders (pairs : List (Octets × Octets)) (key : Octets) : Prop where
  distinct : (pairs.map Prod.fst).Nodup
  text : render pairs = key

theorem eq_of_readText {text read rest : Octets} (h : readText text = .ok (read, rest)) :
    text = escape read ++ rest := by
  fun_induction readText text generalizing read with
  | case1 =>
    cases h
    rfl
  | case2 => cases h
  | case3 => cases h
  | case4 c _ hreserved text rest' hread ih =>
    cases h
    rw [escape_of_isReserved hreserved, ih hread]
    rfl
  | case5 => cases h
  | case6 =>
    cases h
    rfl
  | case7 => cases h
  | case8 b rest' hslash hbare text rest'' hread ih =>
    cases h
    have hplain : isReserved b = false := by
      rw [not_or] at hbare
      simp [isReserved, hslash, hbare.1, hbare.2]
    rw [escape_of_not_isReserved hplain, ih hread]
    rfl

theorem eq_of_readPair {text : Octets} {pair : Octets × Octets} {next : Option Octets}
    (h : readPair text = .ok (pair, next)) : text = renderPair pair ++ following next := by
  rw [readPair] at h
  split at h
  · cases h
  · cases h
  · next key b afterKey hkey =>
    split at h
    · next hcolon =>
      have htext := eq_of_readText hkey
      rw [hcolon] at htext
      split at h
      · cases h
      · next value hvalue =>
        cases h
        rw [htext, eq_of_readText hvalue]
        simp [renderPair, following]
      · next value c rest hvalue =>
        split at h
        · next hcomma =>
          cases h
          rw [htext, eq_of_readText hvalue, hcomma]
          simp [renderPair, following]
        · cases h
    · cases h

theorem eq_render_of_readPairs {tags read : Tags} {text : Octets}
    (h : readPairs tags text = .ok read) :
    ∃ pairs, pairs ≠ [] ∧ Renders pairs text ∧
      (∀ pair ∈ pairs, tags.contains pair.1 = false) ∧
      pairs.foldl (fun m e => m.insert e.1 e.2) tags = read := by
  -- the keys of later pairs are checked against `tags` with the pairs before them
  fun_induction readPairs tags text with
  | case1 => cases h
  | case2 => cases h
  | case3 tags text key value hnew hread =>
    cases h
    have htext := eq_of_readPair hread
    refine ⟨[(key, value)], by simp, ⟨by simp, by simpa [render, following] using htext.symm⟩, ?_,
      rfl⟩
    simpa using hnew
  | case4 tags text key value hnew rest hread _ ih =>
    obtain ⟨pairs, hne, hrenders, hothers, hfold⟩ := ih h
    have hapart : ∀ pair ∈ pairs, pair.1 ≠ key ∧ tags.contains pair.1 = false := by
      intro pair hpair
      simpa [contains_insert] using hothers pair hpair
    refine ⟨(key, value) :: pairs, by simp, ⟨?_, ?_⟩, ?_, hfold⟩
    · rw [List.map_cons, List.nodup_cons]
      refine ⟨?_, hrenders.distinct⟩
      intro hmem
      obtain ⟨pair, hpair, hkey⟩ := List.mem_map.mp hmem
      exact (hapart pair hpair).1 hkey
    · have hafter : after? pairs = some rest := by
        rw [← hrenders.text]
        cases pairs with
        | nil => exact absurd rfl hne
        | cons second others => rfl
      rw [render_cons, hafter]
      exact (eq_of_readPair hread).symm
    · intro pair hpair
      rcases List.mem_cons.mp hpair with rfl | hpair
      · simpa using hnew
      · exact (hapart pair hpair).2

theorem decode_eq_ok_iff {key : Octets} {tags : Tags} :
    decode key = .ok tags ↔ ∃ pairs, Renders pairs key ∧ SortedMap.ofList pairs = tags := by
  constructor
  · intro h
    rw [decode] at h
    split at h
    · next hempty =>
      cases h
      exact ⟨[], ⟨List.nodup_nil, hempty.symm⟩, rfl⟩
    · split at h
      · cases h
      · next hread =>
        cases h
        obtain ⟨pairs, -, hrenders, -, hfold⟩ := eq_render_of_readPairs hread
        exact ⟨pairs, hrenders, hfold⟩
  · intro hgiven
    obtain ⟨pairs, ⟨hdistinct, rfl⟩, rfl⟩ := hgiven
    by_cases hempty : pairs = []
    · subst hempty
      rfl
    · have hread := readPairs_render hempty hdistinct ∅ fun _ _ => rfl
      rw [decode, if_neg (render_ne_nil hempty), hread]
      rfl

theorem render_injective : Function.Injective render := by
  intro pairs others h
  induction pairs generalizing others with
  | nil =>
    by_cases hempty : others = []
    · exact hempty.symm
    · exact absurd h.symm (render_ne_nil hempty)
  | cons pair pairs ih =>
    cases others with
    | nil => exact absurd h (render_ne_nil (List.cons_ne_nil pair pairs))
    | cons other others =>
      -- of both rows the same pair is read first, and the same text is left
      have hread := readPair_render pair pairs
      rw [h, readPair_render, Except.ok.injEq, Prod.mk.injEq] at hread
      obtain ⟨hpair, hafter⟩ := hread
      refine hpair ▸ congrArg (other :: ·) (ih ?_)
      cases pairs <;> cases others <;> simp_all [after?, render]

theorem perm_entries_ofList {pairs : List (Octets × Octets)} (h : (pairs.map Prod.fst).Nodup) :
    (SortedMap.ofList pairs).entries.Perm pairs := by
  refine (List.perm_ext_iff_of_nodup ((nodup_keys _).of_map) (h.of_map)).mpr ?_
  intro e
  refine SortedMap.mem_entries_ofList ?_
  intro v v' hv hv'
  have heq : (e.1, v) = (e.1, v') := List.inj_on_of_nodup_map h hv hv' rfl
  exact congrArg Prod.snd heq

theorem entries_ofList_of_keysIncrease {pairs : List (Octets × Octets)} (h : KeysIncrease pairs) :
    (SortedMap.ofList pairs).entries = pairs :=
  congrArg SortedMap.entries (SortedMap.ofList_entries ⟨pairs, h⟩)

/-- Reading a key is exact. A text is read as a tag-set exactly if it is written out for a row of
pairs with different keys that makes up the tag-set, and the row is the only one with that text.
So what is written for a tag-set reads back as that tag-set, different tag-sets have different keys,
and writing again what was read from a text puts its pairs in key order, which leaves the text as it
was exactly if they were in key order. -/
theorem decode_exact (key : Octets) (tags : Tags) :
    (decode key = .ok tags ↔ ∃ pairs, Renders pairs key ∧ SortedMap.ofList pairs = tags) ∧
      (∀ pairs others, Renders pairs key → Renders others key → pairs = others) ∧
      decode (encode tags) = .ok tags ∧
      Function.Injective encode ∧
      ∀ pairs, Renders pairs key → decode key = .ok tags →
        (∃ sorted, sorted.Perm pairs ∧ KeysIncrease sorted ∧ encode tags = render sorted) ∧
          (encode tags = key ↔ KeysIncrease pairs) := by
  refine ⟨decode_eq_ok_iff, ?_, decode_encode tags, fun _ _ h => encode_injective h, ?_⟩
  · intro pairs others hpairs hothers
    exact render_injective (hpairs.text.trans hothers.text.symm)
  · intro pairs hpairs hread
    obtain ⟨others, hothers, rfl⟩ := decode_eq_ok_iff.mp hread
    have hsame : others = pairs := render_injective (hothers.text.trans hpairs.text.symm)
    subst hsame
    refine ⟨⟨_, perm_entries_ofList hpairs.distinct, SortedMap.increasing _, rfl⟩, ?_, ?_⟩
    · intro hkept
      have hentries := render_injective (hkept.trans hpairs.text.symm)
      exact hentries ▸ (SortedMap.ofList others).increasing
    · intro hsorted
      rw [encode, entries_ofList_of_keysIncrease hsorted, hpairs.text]

theorem decode_exact_unsorted :
    let pairs := [(ascii "b", ascii "x,y"), (ascii "a", [])]
    let key := ascii "b:x" ++ Octets.backslash :: ascii ",y,a:"
    let tags : Tags := .ofList pairs
    Renders pairs key ∧ decode key = .ok tags ∧
      encode tags = ascii "a:,b:x" ++ Octets.backslash :: ascii ",y" ∧ encode tags ≠ key := by
  intro pairs key tags
  have hpairs : Renders pairs key := ⟨by decide +kernel, by decide +kernel⟩
  obtain ⟨hread, -, -, -, hwritten⟩ := decode_exact key tags
  have hdecode : decode key = .ok tags := hread.mpr ⟨pairs, hpairs, rfl⟩
  refine ⟨hpairs, hdecode, by decide +kernel, ?_⟩
  intro hkept
  have hsorted : KeysIncrease pairs := (hwritten pairs hpairs hdecode).2.mp hkept
  revert hsorted
  decide +kernel

end DetectorCache.CacheKey
