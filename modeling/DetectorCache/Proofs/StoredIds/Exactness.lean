import DetectorCache.Proofs.Mapping.Active

set_option autoImplicit false

namespace DetectorCache

namespace Octets

theorem pieces_eq_splitOn (separator : UInt8) (text : Octets) :
    pieces separator text = text.splitOn separator := by
  induction text with
  | nil => rw [pieces, List.splitOn_nil]
  | cons b rest ih =>
    rw [pieces, List.splitOn_cons_eq_if_modifyHead, ← ih]
    by_cases hb : b = separator
    · simp [hb]
    · rw [if_neg hb, if_neg (by simpa using hb)]
      cases hp : pieces separator rest with
      | nil => exact absurd hp (pieces_ne_nil separator rest)
      | cons piece others => rfl

theorem intercalate_cons_eq_append_flatMap (separator item : Octets) (items : List Octets) :
    separator.intercalate (item :: items) = item ++ items.flatMap (separator ++ ·) := by
  induction items generalizing item with
  | nil => simp
  | cons second others ih => simp [List.intercalate_cons_cons, ih second]

theorem joined_eq_intercalate {separator : Octets} {items : List Octets}
    (h : ∀ item ∈ items, item ≠ []) : joined separator items = separator.intercalate items := by
  cases items with
  | nil => rfl
  | cons item items =>
    rw [joined_cons (h item List.mem_cons_self), intercalate_cons_eq_append_flatMap]

/-- The different members of a row, in the order in which they first occur. -/
structure FirstOccurrences (all firsts : List Octets) : Prop where
  mem_iff : ∀ item, item ∈ firsts ↔ item ∈ all
  in_order : firsts.Pairwise fun a b => all.idxOf a < all.idxOf b

theorem firstOccurrences_eraseDups (all : List Octets) : FirstOccurrences all all.eraseDups where
  mem_iff := fun _ => List.mem_eraseDups
  in_order := by
    induction all with
    | nil => exact List.Pairwise.nil
    | cons item items ih =>
      rw [List.eraseDups_cons, eraseDups_filter]
      refine List.Pairwise.cons ?_ ?_
      · intro b hb
        have hne : b ≠ item := by simpa using (List.mem_filter.mp hb).2
        rw [List.idxOf_cons_self, idxOf_cons_of_ne hne]
        omega
      · refine (ih.sublist List.filter_sublist).imp_of_mem fun {a b} ha hb hlt => ?_
        have hane : a ≠ item := by simpa using (List.mem_filter.mp ha).2
        have hbne : b ≠ item := by simpa using (List.mem_filter.mp hb).2
        rw [idxOf_cons_of_ne hane, idxOf_cons_of_ne hbne]
        omega

namespace FirstOccurrences

variable {all firsts : List Octets}

theorem nodup (h : FirstOccurrences all firsts) : firsts.Nodup := by
  refine h.in_order.imp ?_
  rintro a b hlt rfl
  exact Nat.lt_irrefl _ hlt

theorem eq_eraseDups (h : FirstOccurrences all firsts) : firsts = all.eraseDups := by
  have hfirst := firstOccurrences_eraseDups all
  refine List.Perm.eq_of_pairwise ?_ h.in_order hfirst.in_order ?_
  · intro a b _ _ hab hba
    exact absurd (Nat.lt_trans hab hba) (Nat.lt_irrefl _)
  · refine (List.perm_ext_iff_of_nodup h.nodup hfirst.nodup).mpr fun item => ?_
    rw [h.mem_iff, hfirst.mem_iff]

end FirstOccurrences

end Octets

open Octets (FirstOccurrences)

namespace DetectorId

/-- A canonical id is five groups of lower-case hexadecimal digits with hyphens between them. -/
theorem isCanonical_iff {id : Octets} :
    isCanonical id ↔
      ∃ groups : List Octets, [Octets.hyphen].intercalate groups = id ∧
        groups.map List.length = [8, 4, 4, 4, 12] ∧
        ∀ group ∈ groups, ∀ b ∈ group, isLowerHex b := by
  rw [isCanonical, Octets.pieces_eq_splitOn]
  simp only [Bool.and_eq_true, decide_eq_true_eq, List.all_eq_true]
  constructor
  · intro h
    exact ⟨_, List.intercalate_splitOn _, h.1, h.2⟩
  · intro h
    obtain ⟨groups, rfl, hlengths, hhex⟩ := h
    have hne : groups ≠ [] := by
      rintro rfl
      cases hlengths
    have hfree : ∀ group ∈ groups, Octets.hyphen ∉ group := fun group hgroup hmem =>
      absurd (hhex group hgroup _ hmem) (by decide)
    rw [List.splitOn_intercalate _ hfree hne]
    exact ⟨hlengths, hhex⟩

end DetectorId

namespace StoredIds

variable {ids others : List Octets} {value : Octets} {detectors : List Detector}

/-- The text is that of the canonical ids, with a comma between any two. -/
structure Renders (ids : List Octets) (value : Octets) : Prop where
  canonical : ∀ id ∈ ids, DetectorId.isCanonical id
  text : [Octets.comma].intercalate ids = value

theorem renders_joined (h : ∀ id ∈ ids, DetectorId.isCanonical id) :
    Renders ids (Octets.joined [Octets.comma] ids) where
  canonical := h
  text := (Octets.joined_eq_intercalate fun id hid =>
    DetectorId.ne_nil_of_isCanonical (h id hid)).symm

namespace Renders

theorem splitOn (h : Renders ids value) (hne : ids ≠ []) : value.splitOn Octets.comma = ids := by
  rw [← h.text]
  exact List.splitOn_intercalate _
    (fun id hid => DetectorId.comma_not_mem_of_isCanonical (h.canonical id hid)) hne

theorem eq_nil_iff (h : Renders ids value) : value = [] ↔ ids = [] := by
  rw [← h.text]
  cases ids with
  | nil => simp
  | cons id ids =>
    have hid := DetectorId.ne_nil_of_isCanonical (h.canonical id List.mem_cons_self)
    simp [Octets.intercalate_cons_eq_append_flatMap, hid]

theorem unique (h : Renders ids value) (hothers : Renders others value) : ids = others := by
  by_cases hvalue : value = []
  · rw [h.eq_nil_iff.mp hvalue, hothers.eq_nil_iff.mp hvalue]
  · rw [← h.splitOn fun hnil => hvalue (h.eq_nil_iff.mpr hnil),
      hothers.splitOn fun hnil => hvalue (hothers.eq_nil_iff.mpr hnil)]

theorem decode (h : Renders ids value) :
    StoredIds.decode value = .ok (ids.eraseDups.map fun id => ⟨id, true⟩) := by
  by_cases hids : ids = []
  · rw [h.eq_nil_iff.mpr hids, hids]
    rfl
  · have hfind : ids.find? (fun piece => !DetectorId.isCanonical piece) = none := by
      refine List.find?_eq_none.mpr fun piece hpiece => ?_
      simp [h.canonical piece hpiece]
    rw [StoredIds.decode, if_neg fun hvalue => hids (h.eq_nil_iff.mp hvalue),
      Octets.pieces_eq_splitOn, h.splitOn hids]
    simp only [hfind]

end Renders

theorem exists_renders (h : decode value = .ok detectors) : ∃ ids, Renders ids value := by
  rw [decode] at h
  split at h
  · next hvalue => exact ⟨[], by simp, by simp [hvalue]⟩
  · dsimp only at h
    split at h
    · cases h
    · next hfind =>
      rw [Octets.pieces_eq_splitOn] at hfind
      refine ⟨_, fun id hid => ?_, List.intercalate_splitOn _⟩
      simpa using List.find?_eq_none.mp hfind id hid

/-- What cannot be read has a first piece that is not a canonical id, and this piece is named. -/
theorem piece_of_decode {malformed : Malformed} (h : decode value = .error malformed) :
    malformed.value = value ∧ value ≠ [] ∧ ∃ before after,
      value.splitOn Octets.comma = before ++ malformed.piece :: after ∧
        (∀ id ∈ before, DetectorId.isCanonical id) ∧ ¬ DetectorId.isCanonical malformed.piece := by
  rw [decode] at h
  split at h
  · cases h
  · next hvalue =>
    dsimp only at h
    split at h
    · next piece hfind =>
      cases h
      rw [Octets.pieces_eq_splitOn, List.find?_eq_some_iff_append] at hfind
      obtain ⟨hbad, before, after, hsplit, hbefore⟩ := hfind
      refine ⟨rfl, hvalue, before, after, hsplit, fun id hid => ?_, by simpa using hbad⟩
      simpa using hbefore id hid
    · cases h

theorem encode_eq_joinedIds (detectors : List Detector) :
    encode detectors = Detector.joinedIds (Detector.firstById detectors) := by
  rw [encode, Detector.joinedIds, Detector.ids_firstById]

theorem map_enabled_iff {read : List Detector} :
    read = ids.map (fun id => ⟨id, true⟩) ↔
      read.map Detector.id = ids ∧ ∀ d ∈ read, d.enabled = true := by
  constructor
  · rintro rfl
    rw [List.map_map]
    exact ⟨List.map_id ids, by simp⟩
  · rintro ⟨rfl, henabled⟩
    exact (Detector.map_enabled_ids henabled).symm

namespace Renders

theorem decode_iff (h : Renders ids value) :
    StoredIds.decode value = .ok detectors ↔
      detectors.map Detector.id = ids.eraseDups ∧ ∀ d ∈ detectors, d.enabled = true := by
  rw [h.decode, Except.ok.injEq, eq_comm, map_enabled_iff]

theorem encode_eq_iff (h : Renders ids value) (hdecode : StoredIds.decode value = .ok detectors) :
    encode detectors = value ↔ ids.Nodup := by
  have hwritten : Renders ids.eraseDups (encode detectors) := by
    rw [encode, (h.decode_iff.mp hdecode).1,
      Octets.eraseDups_of_nodup (Octets.nodup_eraseDups ids)]
    exact renders_joined fun id hid => h.canonical id (List.mem_eraseDups.mp hid)
  constructor
  · intro hsame
    rw [hsame] at hwritten
    rw [← hwritten.unique h]
    exact Octets.nodup_eraseDups ids
  · intro hnodup
    rw [Octets.eraseDups_of_nodup hnodup] at hwritten
    rw [← hwritten.text, h.text]

end Renders

/-- The values of the cache, exactly. A value can be read if and only if it is the text of some
canonical ids with commas between them, and it then reads as their first occurrences, in order and
enabled; otherwise its first piece that is no canonical id is named. Detectors with canonical ids
are written so that they read back, each where it first occurs, and a value that was read is written
again as it was exactly if no id is repeated in it. Whatever the ids are, what is written is those
of the detectors that are the first with their id, joined. -/
theorem codec_exact (value : Octets) (detectors : List Detector) :
    (decode value = .ok detectors ↔
      ∃ ids, Renders ids value ∧ FirstOccurrences ids (detectors.map Detector.id) ∧
        ∀ d ∈ detectors, d.enabled = true) ∧
    (∀ malformed, decode value = .error malformed →
      malformed.value = value ∧ value ≠ [] ∧ ∃ before after,
        value.splitOn Octets.comma = before ++ malformed.piece :: after ∧
          (∀ id ∈ before, DetectorId.isCanonical id) ∧
          ¬ DetectorId.isCanonical malformed.piece) ∧
    (∀ ids, Renders ids value → decode value = .ok detectors →
      (encode detectors = value ↔ ids.Nodup)) ∧
    ((∀ d ∈ detectors, DetectorId.isCanonical d.id) →
      decode (encode detectors) =
        .ok ((Detector.firstById detectors).map fun d => ⟨d.id, true⟩)) ∧
    FirstOccurrences (detectors.map Detector.id)
      ((Detector.firstById detectors).map Detector.id) ∧
    encode detectors = Detector.joinedIds (Detector.firstById detectors) := by
  refine ⟨⟨?_, ?_⟩, fun _ => piece_of_decode,
    fun ids hrenders hdecode => hrenders.encode_eq_iff hdecode, ?_, ?_,
    encode_eq_joinedIds detectors⟩
  · intro hdecode
    obtain ⟨ids, hrenders⟩ := exists_renders hdecode
    obtain ⟨hids, henabled⟩ := hrenders.decode_iff.mp hdecode
    exact ⟨ids, hrenders, hids ▸ Octets.firstOccurrences_eraseDups ids, henabled⟩
  · rintro ⟨ids, hrenders, hfirst, henabled⟩
    exact hrenders.decode_iff.mpr ⟨hfirst.eq_eraseDups, henabled⟩
  · intro hcanonical
    rw [decode_encode hcanonical, ← Detector.ids_firstById, List.map_map]
    rfl
  · rw [Detector.ids_firstById]
    exact Octets.firstOccurrences_eraseDups _

theorem codec_exact_of_repeated_id :
    let first := Octets.ascii "11111111-1111-4111-8111-11111111111a"
    let second := Octets.ascii "22222222-2222-4222-8222-22222222222b"
    let value := [Octets.comma].intercalate [first, second, first]
    decode value = .ok [⟨first, true⟩, ⟨second, true⟩] ∧
      encode [⟨first, true⟩, ⟨second, true⟩] ≠ value ∧
      decode (encode [⟨second, false⟩, ⟨first, true⟩, ⟨second, true⟩]) =
        .ok [⟨second, true⟩, ⟨first, true⟩] ∧
      (decode (value ++ [Octets.comma])).toOption = none := by
  intro first second value
  have hfirst : DetectorId.isCanonical first := by decide
  have hsecond : DetectorId.isCanonical second := by decide
  have hrenders : Renders [first, second, first] value := ⟨by simp [hfirst, hsecond], rfl⟩
  have honce : [first, second, first].eraseDups = [first, second] := by decide
  have hoccur := Octets.firstOccurrences_eraseDups [first, second, first]
  rw [honce] at hoccur
  have hdecode : decode value = .ok [⟨first, true⟩, ⟨second, true⟩] :=
    (codec_exact value _).1.mpr ⟨_, hrenders, hoccur, by simp⟩
  have htrailing : (decode (value ++ [Octets.comma])).toOption = none := by decide +kernel
  refine ⟨hdecode, ?_, ?_, htrailing⟩
  · intro hsame
    have hnodup := ((codec_exact value _).2.2.1 _ hrenders hdecode).mp hsame
    exact (List.nodup_cons.mp hnodup).1 (by simp)
  · have hread := (codec_exact [] [⟨second, false⟩, ⟨first, true⟩, ⟨second, true⟩]).2.2.2.1
      (by simp [hfirst, hsecond])
    have honceMore : Detector.firstById [⟨second, false⟩, ⟨first, true⟩, ⟨second, true⟩] =
        [⟨second, false⟩, ⟨first, true⟩] := by decide
    rw [hread, honceMore]
    rfl

end StoredIds

end DetectorCache
