import DetectorCache.StoredIds

set_option autoImplicit false

namespace DetectorCache

namespace Octets

theorem pieces_of_not_mem {separator : UInt8} {text : Octets} (h : separator ∉ text) :
    pieces separator text = [text] := by
  induction text with
  | nil => rfl
  | cons b text ih =>
    simp only [List.mem_cons, not_or] at h
    rw [pieces, if_neg (Ne.symm h.1), ih h.2]

theorem pieces_append_separator {separator : UInt8} {text : Octets} (h : separator ∉ text)
    (rest : Octets) :
    pieces separator (text ++ separator :: rest) = text :: pieces separator rest := by
  induction text with
  | nil => simp [pieces]
  | cons b text ih =>
    simp only [List.mem_cons, not_or] at h
    rw [List.cons_append, pieces, if_neg (Ne.symm h.1), ih h.2]

theorem mem_of_mem_pieces {separator b : UInt8} {text : Octets} (h : b ∈ text) :
    b = separator ∨ ∃ piece ∈ pieces separator text, b ∈ piece := by
  induction text with
  | nil => cases h
  | cons c text ih =>
    have htail : b ∈ text → b = separator ∨ ∃ piece ∈ pieces separator (c :: text), b ∈ piece := by
      intro hb
      rcases ih hb with hsep | ⟨piece, hpiece, hin⟩
      · exact Or.inl hsep
      · refine Or.inr ?_
        rw [pieces]
        split
        · exact ⟨piece, List.mem_cons_of_mem _ hpiece, hin⟩
        · cases hp : pieces separator text with
          | nil => exact absurd hp (pieces_ne_nil separator text)
          | cons first others =>
            rw [hp] at hpiece
            rcases List.mem_cons.mp hpiece with rfl | hother
            · exact ⟨c :: piece, List.mem_cons_self, List.mem_cons_of_mem _ hin⟩
            · exact ⟨piece, List.mem_cons_of_mem _ hother, hin⟩
    rcases List.mem_cons.mp h with rfl | hb
    · by_cases hsep : b = separator
      · exact Or.inl hsep
      · refine Or.inr ?_
        rw [pieces, if_neg hsep]
        split
        · exact ⟨[b], List.mem_cons_self, List.mem_cons_self⟩
        · next first others _ => exact ⟨b :: first, List.mem_cons_self, List.mem_cons_self⟩
    · exact htail hb

theorem foldl_appendSeparated {separator : Octets} {written : Octets} (hw : written ≠ [])
    (items : List Octets) :
    items.foldl (appendSeparated separator) written =
      written ++ items.flatMap (separator ++ ·) := by
  induction items generalizing written with
  | nil => simp
  | cons item items ih =>
    have hne : written ++ separator ++ item ≠ [] := by simp [hw]
    rw [List.foldl_cons, appendSeparated, if_neg hw, ih hne]
    simp

theorem joined_cons {separator item : Octets} (h : item ≠ []) (items : List Octets) :
    joined separator (item :: items) = item ++ items.flatMap (separator ++ ·) := by
  rw [joined, List.foldl_cons, appendSeparated, if_pos rfl, foldl_appendSeparated h]

/-- Joined texts come apart again if none of them is empty or holds the separator. -/
theorem pieces_joined {separator : UInt8} {items : List Octets} (hne : items ≠ [])
    (hitems : ∀ item ∈ items, item ≠ [] ∧ separator ∉ item) :
    pieces separator (joined [separator] items) = items := by
  induction items with
  | nil => exact absurd rfl hne
  | cons item items ih =>
    obtain ⟨hitem, hfree⟩ := hitems item List.mem_cons_self
    rw [joined_cons hitem]
    cases items with
    | nil => simpa using pieces_of_not_mem hfree
    | cons second others =>
      have hrest := ih (by simp) fun i hi => hitems i (List.mem_cons_of_mem _ hi)
      have hsecond := hitems second (by simp)
      rw [joined_cons hsecond.1] at hrest
      simp only [List.flatMap_cons, List.cons_append, List.nil_append]
      rw [pieces_append_separator hfree]
      simpa using hrest

theorem length_filter_lt_cons {α : Type} [BEq α] {item : α} (items : List α) :
    (items.filter fun b => !b == item).length < (item :: items).length := by
  have hle := List.length_filter_le (fun b => !b == item) items
  simp only [List.length_cons]
  omega

theorem nodup_eraseDups (items : List Octets) : items.eraseDups.Nodup := by
  cases items with
  | nil => exact List.nodup_nil
  | cons item items =>
    rw [List.eraseDups_cons, List.nodup_cons]
    refine ⟨?_, nodup_eraseDups _⟩
    simp
termination_by items.length
decreasing_by exact length_filter_lt_cons items

theorem eraseDups_filter {α : Type} [BEq α] [LawfulBEq α] (keep : α → Bool) (items : List α) :
    (items.filter keep).eraseDups = items.eraseDups.filter keep := by
  cases items with
  | nil => rfl
  | cons item items =>
    have hrest := eraseDups_filter keep (items.filter fun b => !b == item)
    rw [List.eraseDups_cons, List.filter_cons, List.filter_cons, ← hrest, List.filter_filter]
    split
    · rw [List.eraseDups_cons, List.filter_filter]
      simp only [Bool.and_comm]
    · next hdropped =>
      refine congrArg List.eraseDups (List.filter_congr fun b _ => ?_)
      cases hkeep : keep b with
      | false => rfl
      | true =>
        have hne : b ≠ item := fun heq => hdropped (heq ▸ hkeep)
        simp [hne]
termination_by items.length
decreasing_by exact length_filter_lt_cons items

theorem idxOf_cons_of_ne {item other : Octets} (h : other ≠ item) (items : List Octets) :
    (item :: items).idxOf other = items.idxOf other + 1 := by
  rw [List.idxOf_cons, beq_false_of_ne h.symm, cond_false]

theorem eraseDups_of_nodup {items : List Octets} (h : items.Nodup) : items.eraseDups = items := by
  induction items with
  | nil => rfl
  | cons item items ih =>
    obtain ⟨hnot, hrest⟩ := List.nodup_cons.mp h
    have hkeep : items.filter (fun b => !b == item) = items := by
      refine List.filter_eq_self.mpr ?_
      intro b hb
      have hne : b ≠ item := fun heq => hnot (heq ▸ hb)
      simp [hne]
    rw [List.eraseDups_cons, hkeep, ih hrest]

end Octets

namespace DetectorId

theorem ne_nil_of_isCanonical {id : Octets} (h : isCanonical id) : id ≠ [] := by
  intro hnil
  subst hnil
  revert h
  decide

theorem octet_of_isCanonical {id : Octets} (h : isCanonical id) {b : UInt8} (hb : b ∈ id) :
    b = Octets.hyphen ∨ isLowerHex b := by
  simp only [isCanonical, Bool.and_eq_true, decide_eq_true_eq, List.all_eq_true] at h
  rcases Octets.mem_of_mem_pieces hb with hhyphen | ⟨piece, hpiece, hin⟩
  · exact Or.inl hhyphen
  · exact Or.inr (h.2 piece hpiece b hin)

theorem comma_not_mem_of_isCanonical {id : Octets} (h : isCanonical id) :
    Octets.comma ∉ id := by
  intro hmem
  rcases octet_of_isCanonical h hmem with heq | hhex
  · revert heq
    decide
  · revert hhex
    decide

theorem lower_of_isLowerHex {b : UInt8} (h : isLowerHex b) : Octets.lower b = b := by
  have hnot : ¬ (65 ≤ b ∧ b ≤ 90) := by
    simp only [isLowerHex, Octets.isDigit, Bool.or_eq_true, Bool.and_eq_true, decide_eq_true_eq,
      UInt8.le_iff_toNat_le] at h ⊢
    simp at h ⊢
    omega
  rw [Octets.lower, if_neg hnot]

theorem normalize_of_isCanonical {id : Octets} (h : isCanonical id) : normalize id = .ok id := by
  have hlower : id.toLower = id := by
    refine (List.map_congr_left ?_).trans (List.map_id id)
    intro b hb
    rcases octet_of_isCanonical h hb with rfl | hhex
    · rfl
    · exact lower_of_isLowerHex hhex
  rw [normalize, hlower, if_pos h]

end DetectorId

namespace StoredIds

/-- The value reads back as detectors one of which has the id. -/
def Lists (value id : Octets) : Prop :=
  ∃ detectors, decode value = .ok detectors ∧ id ∈ detectors.map Detector.id

/-- The value reads back as the detectors of a set of ids. -/
def Denotes (value : Octets) (ids : Octets → Prop) : Prop :=
  ∃ detectors, decode value = .ok detectors ∧ ∀ id, id ∈ detectors.map Detector.id ↔ ids id

variable {value id : Octets} {ids others : Octets → Prop}

theorem Denotes.lists_iff (h : Denotes value ids) : Lists value id ↔ ids id := by
  obtain ⟨detectors, hdecode, hids⟩ := h
  rw [← hids, Lists, hdecode]
  simp

theorem Denotes.congr (h : Denotes value ids) (heq : ∀ id, ids id ↔ others id) :
    Denotes value others := by
  obtain ⟨detectors, hdecode, hids⟩ := h
  exact ⟨detectors, hdecode, fun id => (hids id).trans (heq id)⟩

theorem decode_joined {ids : List Octets} (hcanonical : ∀ id ∈ ids, DetectorId.isCanonical id)
    (hnodup : ids.Nodup) :
    decode (Octets.joined [Octets.comma] ids) = .ok (ids.map fun id => ⟨id, true⟩) := by
  cases ids with
  | nil => rfl
  | cons id ids =>
    have hpieces : (Octets.joined [Octets.comma] (id :: ids)).pieces Octets.comma = id :: ids := by
      refine Octets.pieces_joined (List.cons_ne_nil id ids) ?_
      intro item hitem
      have hc := hcanonical item hitem
      exact ⟨DetectorId.ne_nil_of_isCanonical hc, DetectorId.comma_not_mem_of_isCanonical hc⟩
    have hne : Octets.joined [Octets.comma] (id :: ids) ≠ [] := by
      have hid := DetectorId.ne_nil_of_isCanonical (hcanonical id List.mem_cons_self)
      simp [Octets.joined_cons hid, hid]
    have hfind : (id :: ids).find? (fun piece => !DetectorId.isCanonical piece) = none := by
      refine List.find?_eq_none.mpr ?_
      intro piece hpiece
      simp [hcanonical piece hpiece]
    rw [decode, if_neg hne, hpieces]
    simp only [hfind, Octets.eraseDups_of_nodup hnodup]

theorem decode_encode {detectors : List Detector}
    (h : ∀ d ∈ detectors, DetectorId.isCanonical d.id) :
    decode (encode detectors) =
      .ok ((detectors.map Detector.id).eraseDups.map fun id => ⟨id, true⟩) := by
  refine decode_joined ?_ (Octets.nodup_eraseDups _)
  intro id hid
  obtain ⟨d, hd, rfl⟩ := List.mem_map.mp (List.mem_eraseDups.mp hid)
  exact h d hd

/-- What has been read is a row of different canonical ids, all enabled. -/
theorem of_decode {value : Octets} {detectors : List Detector} (h : decode value = .ok detectors) :
    (∀ d ∈ detectors, DetectorId.isCanonical d.id) ∧ (detectors.map Detector.id).Nodup := by
  rw [decode] at h
  split at h
  · cases h
    simp
  · dsimp only at h
    split at h
    · cases h
    · next hfind =>
      cases h
      rw [List.map_map]
      refine ⟨?_, ?_⟩
      · intro d hd
        obtain ⟨id, hid, rfl⟩ := List.mem_map.mp hd
        have hc := List.find?_eq_none.mp hfind id (List.mem_eraseDups.mp hid)
        simpa using hc
      · exact (List.map_id _).symm ▸ Octets.nodup_eraseDups _

theorem enabled_of_decode {value : Octets} {detectors : List Detector}
    (h : decode value = .ok detectors) {d : Detector} (hd : d ∈ detectors) :
    d.enabled = true := by
  rw [decode] at h
  split at h
  · cases h
    cases hd
  · dsimp only at h
    split at h
    · cases h
    · cases h
      obtain ⟨id, -, rfl⟩ := List.mem_map.mp hd
      rfl

theorem decode_encode_of_sublist {value : Octets} {detectors kept : List Detector}
    (h : decode value = .ok detectors) (hkept : kept.Sublist detectors) :
    decode (encode kept) = .ok kept := by
  obtain ⟨hcanonical, hnodup⟩ := of_decode h
  rw [decode_encode fun d hd => hcanonical d (hkept.subset hd),
    Octets.eraseDups_of_nodup (hnodup.sublist (hkept.map _)), List.map_map]
  refine congrArg Except.ok ((List.map_congr_left fun d hd => ?_).trans (List.map_id kept))
  rw [Function.comp, ← enabled_of_decode h (hkept.subset hd)]
  rfl

end StoredIds

end DetectorCache
