import DetectorCache.Octets
/-!
Finite maps from texts, kept as a list of entries in strictly increasing key order, so that two
maps with the same entries are equal and every walk over a map goes by key. `find?` is the view
through which the other operations are described.
-/
set_option autoImplicit false

namespace DetectorCache

universe u
variable {β : Type u}

abbrev KeysIncrease (entries : List (Octets × β)) : Prop :=
  entries.Pairwise fun a b => a.1 < b.1

/-- Puts an entry at its place in a list ordered by key, replacing an entry of the same key. -/
def insertByKey (key : Octets) (value : β) : List (Octets × β) → List (Octets × β)
  | [] => [(key, value)]
  | (k, v) :: rest =>
    if key < k then (key, value) :: (k, v) :: rest
    else if key = k then (key, value) :: rest
    else (k, v) :: insertByKey key value rest

theorem mem_insertByKey {key : Octets} {value : β} {entries : List (Octets × β)}
    {e : Octets × β} (h : e ∈ insertByKey key value entries) : e = (key, value) ∨ e ∈ entries := by
  induction entries with
  | nil => simpa [insertByKey] using h
  | cons first rest ih =>
    obtain ⟨k, v⟩ := first
    rw [insertByKey] at h
    split at h
    · exact List.mem_cons.mp h
    · split at h
      · simp only [List.mem_cons] at h ⊢; grind
      · simp only [List.mem_cons] at h ⊢; grind

theorem KeysIncrease.insertByKey {entries : List (Octets × β)} (h : KeysIncrease entries)
    (key : Octets) (value : β) : KeysIncrease (insertByKey key value entries) := by
  induction entries with
  | nil => simp [DetectorCache.insertByKey]
  | cons first rest ih =>
    obtain ⟨k, v⟩ := first
    have ⟨hk, hr⟩ := List.pairwise_cons.mp h
    rw [DetectorCache.insertByKey]
    split
    · rename_i hlt
      refine List.pairwise_cons.mpr ⟨fun e he => ?_, h⟩
      rcases List.mem_cons.mp he with rfl | he
      · exact hlt
      · exact List.lt_trans hlt (hk e he)
    · split
      · rename_i heq
        exact List.pairwise_cons.mpr ⟨fun e he => heq ▸ hk e he, hr⟩
      · rename_i hlt hne
        refine List.pairwise_cons.mpr ⟨fun e he => ?_, ih hr⟩
        rcases mem_insertByKey he with rfl | he
        · rcases Std.lt_trichotomy key k with h1 | h1 | h1
          · exact absurd h1 hlt
          · exact absurd h1 hne
          · exact h1
        · exact hk e he

theorem lookup_insertByKey {entries : List (Octets × β)} (h : KeysIncrease entries)
    (key : Octets) (value : β) (k : Octets) :
    (insertByKey key value entries).lookup k =
      if k = key then some value else entries.lookup k := by
  induction entries with
  | nil => simp [insertByKey, List.lookup_cons]; split <;> simp_all
  | cons first rest ih =>
    obtain ⟨k', v'⟩ := first
    have ⟨_, hr⟩ := List.pairwise_cons.mp h
    rw [insertByKey]
    split
    · by_cases hk : k = key <;> simp [List.lookup_cons, hk, beq_false_of_ne]
    · split
      · rename_i heq
        subst heq
        by_cases hk : k = key <;> simp [List.lookup_cons, hk, beq_false_of_ne]
      · rename_i hne
        rw [List.lookup_cons, List.lookup_cons, ih hr]
        by_cases hk : k = key
        · subst hk; simp [beq_false_of_ne hne]
        · simp [hk]

theorem length_insertByKey {entries : List (Octets × β)} (h : KeysIncrease entries)
    (key : Octets) (value : β) :
    (insertByKey key value entries).length =
      if (entries.lookup key).isSome then entries.length else entries.length + 1 := by
  induction entries with
  | nil => simp [insertByKey]
  | cons first rest ih =>
    obtain ⟨k, v⟩ := first
    have ⟨hk, hr⟩ := List.pairwise_cons.mp h
    rw [insertByKey, List.lookup_cons]
    split
    · next hlt =>
      have hne : key ≠ k := fun heq => List.lt_irrefl k (heq ▸ hlt)
      -- a key below the first one is the key of no entry
      have hnone : rest.lookup key = none := by
        refine List.lookup_eq_none_iff.mpr ?_
        intro e he
        have hlt' : key < e.1 := List.lt_trans hlt (hk e he)
        exact bne_iff_ne.mpr fun heq => List.lt_irrefl e.1 (heq ▸ hlt')
      simp [beq_false_of_ne hne, hnone]
    · split
      · next heq => simp [heq]
      · next hne =>
        simp only [beq_false_of_ne hne, List.length_cons, ih hr]
        split <;> rfl

theorem KeysIncrease.nodup_keys {entries : List (Octets × β)} (h : KeysIncrease entries) :
    (entries.map Prod.fst).Nodup := by
  refine List.pairwise_map.mpr (h.imp ?_)
  intro a b hlt heq
  exact List.lt_irrefl b.1 (heq ▸ hlt)

theorem KeysIncrease.eq_of_mem_iff {a b : List (Octets × β)} (ha : KeysIncrease a)
    (hb : KeysIncrease b) (h : ∀ e, e ∈ a ↔ e ∈ b) : a = b := by
  have hne : ∀ {x y : Octets × β}, x.1 < y.1 → x ≠ y := by
    intro x y hlt heq
    exact List.lt_irrefl y.1 (heq ▸ hlt)
  have hperm := (List.perm_ext_iff_of_nodup (ha.imp hne) (hb.imp hne)).mpr h
  refine hperm.eq_of_pairwise ?_ ha hb
  intro x y _ _ hxy hyx
  exact absurd (List.lt_trans hxy hyx) (List.lt_irrefl x.1)

structure SortedMap (β : Type u) where
  entries : List (Octets × β)
  increasing : KeysIncrease entries

namespace SortedMap

@[ext] theorem ext {m n : SortedMap β} (h : m.entries = n.entries) : m = n := by
  cases m; cases n; cases h; rfl

instance [DecidableEq β] : DecidableEq (SortedMap β) := fun m n =>
  decidable_of_iff (m.entries = n.entries) ⟨ext, fun h => h ▸ rfl⟩

def empty : SortedMap β := ⟨[], List.Pairwise.nil⟩

instance : EmptyCollection (SortedMap β) := ⟨empty⟩

instance : Inhabited (SortedMap β) := ⟨empty⟩

def size (m : SortedMap β) : Nat := m.entries.length

def keys (m : SortedMap β) : List Octets := m.entries.map Prod.fst

def find? (m : SortedMap β) (key : Octets) : Option β := m.entries.lookup key

def contains (m : SortedMap β) (key : Octets) : Bool := (m.find? key).isSome

def insert (m : SortedMap β) (key : Octets) (value : β) : SortedMap β :=
  ⟨insertByKey key value m.entries, m.increasing.insertByKey key value⟩

def filter (m : SortedMap β) (keep : Octets → β → Bool) : SortedMap β :=
  ⟨m.entries.filter fun e => keep e.1 e.2, m.increasing.filter _⟩

def erase (m : SortedMap β) (key : Octets) : SortedMap β := m.filter fun k _ => k != key

/-- The map of a list of entries; of several with one key the last counts. -/
def ofList (entries : List (Octets × β)) : SortedMap β :=
  entries.foldl (fun m e => m.insert e.1 e.2) ∅

@[simp] theorem find?_empty (key : Octets) : (∅ : SortedMap β).find? key = none := rfl

theorem find?_insert (m : SortedMap β) (key : Octets) (value : β) (k : Octets) :
    (m.insert key value).find? k = if k = key then some value else m.find? k :=
  lookup_insertByKey m.increasing key value k

theorem find?_eq_some_iff (m : SortedMap β) (key : Octets) (value : β) :
    m.find? key = some value ↔ (key, value) ∈ m.entries := by
  obtain ⟨entries, h⟩ := m
  simp only [find?]
  induction entries with
  | nil => simp
  | cons first rest ih =>
    obtain ⟨k, v⟩ := first
    have ⟨hk, hr⟩ := List.pairwise_cons.mp h
    rw [List.lookup_cons, List.mem_cons]
    by_cases hkey : key = k
    · subst hkey
      have hnot : (key, value) ∉ rest := fun hm => List.lt_irrefl key (hk _ hm)
      simp [hnot, eq_comm]
    · simp [hkey, beq_false_of_ne hkey, ih hr]

theorem find?_filter (m : SortedMap β) (keep : Octets → β → Bool) (key : Octets) :
    (m.filter keep).find? key = (m.find? key).filter (keep key) := by
  refine Option.ext fun value => ?_
  rw [find?_eq_some_iff, Option.filter_eq_some_iff, find?_eq_some_iff]
  simp [filter]

theorem find?_erase (m : SortedMap β) (key k : Octets) :
    (m.erase key).find? k = if k = key then none else m.find? k := by
  rw [erase, find?_filter]
  by_cases h : k = key <;> cases m.find? k <;> simp [h]

theorem ext_find? {m n : SortedMap β} (h : ∀ key, m.find? key = n.find? key) : m = n := by
  refine ext (KeysIncrease.eq_of_mem_iff m.increasing n.increasing ?_)
  intro e
  rw [← find?_eq_some_iff, ← find?_eq_some_iff, h]

theorem size_insert (m : SortedMap β) (key : Octets) (value : β) :
    (m.insert key value).size = if m.contains key then m.size else m.size + 1 :=
  length_insertByKey m.increasing key value

theorem size_erase {m : SortedMap β} {key : Octets} {value : β} (h : m.find? key = some value) :
    (m.erase key).size + 1 = m.size := by
  have hback : (m.erase key).insert key value = m := by
    refine ext_find? fun k => ?_
    rw [find?_insert, find?_erase]
    by_cases hk : k = key <;> simp [hk, h]
  have hsize := size_insert (m.erase key) key value
  rw [hback, contains, find?_erase] at hsize
  simpa using hsize.symm

theorem mem_of_mem_foldl_insert {entries : List (Octets × β)} {m : SortedMap β}
    {e : Octets × β} (h : e ∈ (entries.foldl (fun m e => m.insert e.1 e.2) m).entries) :
    e ∈ entries ∨ e ∈ m.entries := by
  induction entries generalizing m with
  | nil => exact Or.inr h
  | cons first rest ih =>
    rcases ih h with hr | hm
    · exact Or.inl (List.mem_cons_of_mem _ hr)
    · rcases mem_insertByKey hm with rfl | hm
      · exact Or.inl List.mem_cons_self
      · exact Or.inr hm

theorem find?_foldl_insert {entries : List (Octets × β)} {key : Octets} {value : β}
    (h : ∀ v, (key, v) ∈ entries → v = value) (m : SortedMap β)
    (hmem : (key, value) ∈ entries ∨ m.find? key = some value) :
    (entries.foldl (fun m e => m.insert e.1 e.2) m).find? key = some value := by
  induction entries generalizing m with
  | nil => simpa using hmem
  | cons e rest ih =>
    obtain ⟨k, v⟩ := e
    refine ih (fun v hv => h v (List.mem_cons_of_mem _ hv)) (m.insert k v) ?_
    rw [find?_insert]
    by_cases hk : key = k
    · subst hk
      exact Or.inr (by rw [if_pos rfl, h v List.mem_cons_self])
    · simpa [hk] using hmem

theorem exists_find?_foldl_insert {entries : List (Octets × β)} {key : Octets} (m : SortedMap β)
    (h : (∃ value, (key, value) ∈ entries) ∨ ∃ value, m.find? key = some value) :
    ∃ value, (entries.foldl (fun m e => m.insert e.1 e.2) m).find? key = some value := by
  induction entries generalizing m with
  | nil => simpa using h
  | cons e rest ih =>
    refine ih (m.insert e.1 e.2) ?_
    rw [find?_insert]
    by_cases hkey : key = e.1
    · exact Or.inr ⟨e.2, if_pos hkey⟩
    · rw [if_neg hkey]
      rcases h with ⟨value, hmem⟩ | hfound
      · rcases List.mem_cons.mp hmem with rfl | hrest
        · exact absurd rfl hkey
        · exact Or.inl ⟨value, hrest⟩
      · exact Or.inr hfound

theorem mem_entries_ofList {entries : List (Octets × β)} {key : Octets} {value : β}
    (h : ∀ v v', (key, v) ∈ entries → (key, v') ∈ entries → v = v') :
    (key, value) ∈ (ofList entries).entries ↔ (key, value) ∈ entries := by
  constructor
  · intro hmem
    rcases mem_of_mem_foldl_insert hmem with hin | hempty
    · exact hin
    · cases hempty
  · intro hmem
    rw [← find?_eq_some_iff]
    exact find?_foldl_insert (fun v hv => h v value hv hmem) ∅ (Or.inl hmem)

theorem ofList_entries (m : SortedMap β) : ofList m.entries = m := by
  refine ext (KeysIncrease.eq_of_mem_iff (ofList m.entries).increasing m.increasing fun e => ?_)
  refine mem_entries_ofList fun v v' hv hv' => ?_
  rw [← find?_eq_some_iff] at hv hv'
  exact Option.some.inj (hv.symm.trans hv')

end SortedMap

end DetectorCache
