import DetectorCache.CacheKey

set_option autoImplicit false

namespace DetectorCache.CacheKey

/-- What may follow an escaped text: nothing, or a bare comma or colon. -/
def Delimited : Octets → Prop
  | [] => True
  | b :: _ => b = Octets.comma ∨ b = Octets.colon

theorem delimited_comma (rest : Octets) : Delimited (Octets.comma :: rest) := Or.inl rfl

theorem delimited_colon (rest : Octets) : Delimited (Octets.colon :: rest) := Or.inr rfl

theorem readText_of_delimited {rest : Octets} (h : Delimited rest) :
    readText rest = .ok ([], rest) := by
  cases rest with
  | nil => rfl
  | cons b rest =>
    have hslash : b ≠ Octets.backslash := by
      rcases h with rfl | rfl <;> decide
    have hbare : b = Octets.comma ∨ b = Octets.colon := h
    rw [readText.eq_def]
    simp only [if_neg hslash, if_pos hbare]

theorem escape_of_isReserved {b : UInt8} (h : isReserved b = true) (text : Octets) :
    escape (b :: text) = Octets.backslash :: b :: escape text := by
  simp [escape, h]

theorem escape_of_not_isReserved {b : UInt8} (h : isReserved b = false) (text : Octets) :
    escape (b :: text) = b :: escape text := by
  simp [escape, h]

theorem readText_escape (text : Octets) {rest : Octets} (h : Delimited rest) :
    readText (escape text ++ rest) = .ok (text, rest) := by
  induction text with
  | nil => exact readText_of_delimited h
  | cons b text ih =>
    cases hb : isReserved b with
    | true =>
      rw [escape_of_isReserved hb, List.cons_append, List.cons_append, readText, if_pos rfl]
      simp [hb, ih]
    | false =>
      have hplain : (b ≠ Octets.backslash ∧ b ≠ Octets.comma) ∧ b ≠ Octets.colon := by
        simpa [isReserved] using hb
      have hbare : ¬ (b = Octets.comma ∨ b = Octets.colon) := by
        simp [hplain.1.2, hplain.2]
      rw [escape_of_not_isReserved hb, List.cons_append, readText.eq_def]
      simp only [if_neg hplain.1.1, if_neg hbare, ih]

def following : Option Octets → Octets
  | none => []
  | some rest => Octets.comma :: rest

theorem delimited_following (next : Option Octets) : Delimited (following next) := by
  cases next with
  | none => trivial
  | some rest => exact delimited_comma rest

theorem readPair_renderPair (pair : Octets × Octets) (next : Option Octets) :
    readPair (renderPair pair ++ following next) = .ok (pair, next) := by
  have hvalue := readText_escape pair.2 (delimited_following next)
  have hassoc : renderPair pair ++ following next =
      escape pair.1 ++ Octets.colon :: (escape pair.2 ++ following next) := by
    simp [renderPair]
  rw [readPair, hassoc, readText_escape pair.1 (delimited_colon _)]
  simp only [if_true, hvalue]
  cases next <;> simp [following]

def after? : List (Octets × Octets) → Option Octets
  | [] => none
  | pair :: pairs => some (render (pair :: pairs))

theorem render_cons (pair : Octets × Octets) (pairs : List (Octets × Octets)) :
    render (pair :: pairs) = renderPair pair ++ following (after? pairs) := by
  cases pairs <;> simp [render, after?, following]

theorem readPair_render (pair : Octets × Octets) (pairs : List (Octets × Octets)) :
    readPair (render (pair :: pairs)) = .ok (pair, after? pairs) := by
  rw [render_cons, readPair_renderPair]

theorem readPairs_of_last {tags : Tags} {text : Octets} {pair : Octets × Octets}
    (h : readPair text = .ok (pair, none)) (hnew : tags.contains pair.1 = false) :
    readPairs tags text = .ok (tags.insert pair.1 pair.2) := by
  rw [readPairs]
  split
  · next he => rw [h] at he; cases he
  · next he =>
    rw [h] at he
    cases he
    rw [if_neg (by simpa using hnew)]

theorem readPairs_of_next {tags : Tags} {text rest : Octets} {pair : Octets × Octets}
    (h : readPair text = .ok (pair, some rest)) (hnew : tags.contains pair.1 = false) :
    readPairs tags text = readPairs (tags.insert pair.1 pair.2) rest := by
  rw [readPairs]
  split
  · next he => rw [h] at he; cases he
  · next he =>
    rw [h] at he
    cases he
    rw [if_neg (by simpa using hnew)]

theorem contains_insert (tags : Tags) (key value k : Octets) :
    (tags.insert key value).contains k = (k = key || tags.contains k) := by
  rw [SortedMap.contains, SortedMap.find?_insert]
  by_cases hk : k = key <;> simp [hk, SortedMap.contains]

theorem readPairs_render {pairs : List (Octets × Octets)} (hne : pairs ≠ [])
    (hdistinct : (pairs.map Prod.fst).Nodup) (tags : Tags)
    (hnew : ∀ pair ∈ pairs, tags.contains pair.1 = false) :
    readPairs tags (render pairs) = .ok (pairs.foldl (fun m e => m.insert e.1 e.2) tags) := by
  -- the pairs already read are in `tags`, which no later key may repeat
  induction pairs generalizing tags with
  | nil => exact absurd rfl hne
  | cons pair pairs ih =>
    have hfirst := hnew pair List.mem_cons_self
    cases pairs with
    | nil => exact readPairs_of_last (readPair_render pair []) hfirst
    | cons second others =>
      obtain ⟨hnot, hrest⟩ := List.nodup_cons.mp hdistinct
      rw [readPairs_of_next (readPair_render pair (second :: others)) hfirst]
      refine ih (by simp) hrest _ ?_
      intro p hp
      have hpne : p.1 ≠ pair.1 := fun heq => hnot (heq ▸ List.mem_map_of_mem hp)
      rw [contains_insert, hnew p (List.mem_cons_of_mem _ hp)]
      simp [hpne]

theorem render_ne_nil {pairs : List (Octets × Octets)} (h : pairs ≠ []) : render pairs ≠ [] := by
  cases pairs with
  | nil => exact absurd rfl h
  | cons pair pairs => simp [render_cons, renderPair]

theorem nodup_keys (tags : Tags) : (tags.entries.map Prod.fst).Nodup :=
  tags.increasing.nodup_keys

theorem decode_encode (tags : Tags) : decode (encode tags) = .ok tags := by
  by_cases hempty : tags.entries = []
  · have htags : tags = ∅ := SortedMap.ext hempty
    rw [htags]
    rfl
  · have hread := readPairs_render hempty (nodup_keys tags) ∅ (fun _ _ => rfl)
    have hall : tags.entries.foldl (fun m e => m.insert e.1 e.2) ∅ = tags :=
      SortedMap.ofList_entries tags
    rw [decode, encode, if_neg (render_ne_nil hempty), hread, hall]

theorem encode_injective {first second : Tags} (h : encode first = encode second) :
    first = second := by
  have hdecode := decode_encode first
  rw [h, decode_encode second] at hdecode
  exact (Except.ok.inj hdecode).symm

end DetectorCache.CacheKey
