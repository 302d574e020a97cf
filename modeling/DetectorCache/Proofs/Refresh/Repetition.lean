import DetectorCache.Proofs.System.Reachable
/-!
Repeating a refresh cycle with the list just applied. The record holds one mapping of the list for
every id, while the list is compared with it mapping by mapping. So the cycle has nothing to do
exactly if the mappings that the list has for one id agree: then it leaves the store as it is, and
otherwise it does part of its work again, every time.
-/
set_option autoImplicit false

namespace DetectorCache

namespace Mapping

/-- Two mappings say the same of their detector: that it is disabled, or where it applies. -/
structure Agrees (m n : Mapping) : Prop where
  enabled : m.detector.enabled = n.detector.enabled
  expression : m.detector.enabled = true → m.expression = n.expression

theorem Agrees.symm {m n : Mapping} (h : Agrees m n) : Agrees n m :=
  ⟨h.enabled.symm, fun hn => (h.expression (h.enabled.trans hn)).symm⟩

theorem Agrees.trans {m n k : Mapping} (hmn : Agrees m n) (hnk : Agrees n k) : Agrees m k :=
  ⟨hmn.enabled.trans hnk.enabled,
    fun hm => (hmn.expression hm).trans (hnk.expression (hmn.enabled.symm.trans hm))⟩

/-- The mappings that a list has for one id agree with each other. -/
def Agreeing (mappings : List Mapping) : Prop :=
  ∀ m ∈ mappings, ∀ n ∈ mappings, ∀ id, m.canonicalId? = some id → n.canonicalId? = some id →
    Agrees m n

end Mapping

namespace Applied

theorem exists_find?_ofMappings {mappings : List Mapping} {m : Mapping} (hm : m ∈ mappings)
    {id : Octets} (hid : m.canonicalId? = some id) :
    ∃ recorded, (ofMappings mappings).find? id = some recorded := by
  rw [ofMappings_eq_ofList]
  exact SortedMap.exists_find?_foldl_insert ∅ (Or.inl ⟨m, mem_keyed.mpr ⟨hm, hid⟩⟩)

end Applied

namespace Change

variable {applied : Applied} {m recorded : Mapping} {id : Octets}

theorem of_eq_nothing_iff (hid : m.canonicalId? = some id)
    (hfind : applied.find? id = some recorded) :
    of applied m = .nothing ↔ Mapping.Agrees recorded m := by
  simp only [of, hid, hfind]
  constructor
  · intro h
    cases hm : m.detector.enabled with
    | true =>
      rw [if_pos hm] at h
      split at h
      · next hr =>
        split at h
        · next hexpression => exact ⟨hr.trans hm.symm, fun _ => hexpression⟩
        · cases h
      · cases h
    | false =>
      rw [if_neg (by simp [hm])] at h
      split at h
      · cases h
      · next hr => exact ⟨(Bool.eq_false_iff.mpr hr).trans hm.symm, fun hon => absurd hon hr⟩
  · intro hagrees
    cases hm : m.detector.enabled with
    | true =>
      have hr := hagrees.enabled.trans hm
      rw [if_pos rfl, if_pos hr, if_pos (hagrees.expression hr)]
    | false =>
      have hr := hagrees.enabled.trans hm
      rw [if_neg Bool.false_ne_true, if_neg (by simp [hr])]

theorem of_eq_nothing_of_invalid (h : m.canonicalId? = none) : of applied m = .nothing := by
  simp only [of, h]

theorem eq_nothing_iff (change : Change) :
    change = .nothing ↔ change ≠ .disabled ∧ Delta.evicts change = false := by
  cases change <;> simp [Delta.evicts]

end Change

namespace Delta

variable {applied : Applied} {current : List Mapping}

theorem missing_ofMappings (current : List Mapping) :
    missing (Applied.ofMappings current) current = [] := by
  rw [missing, List.map_eq_nil_iff, List.filter_eq_nil_iff]
  intro e he hmissing
  have hfind := (SortedMap.find?_eq_some_iff _ _ _).mpr he
  obtain ⟨hm, hid⟩ := Applied.of_find?_ofMappings hfind
  have hnamed : e.1 ∈ current.filterMap Mapping.canonicalId? :=
    List.mem_filterMap.mpr ⟨e.2, hm, hid⟩
  simp [hnamed] at hmissing

/-- Compared with its own record a list brings no news exactly if its mappings agree. -/
theorem between_ofMappings_eq_nil_iff (current : List Mapping) :
    ((between (Applied.ofMappings current) current).newlyDisabled = [] ∧
      (between (Applied.ofMappings current) current).createdOrChanged = []) ↔
      Mapping.Agreeing current := by
  have hquiet : ((between (Applied.ofMappings current) current).newlyDisabled = [] ∧
      (between (Applied.ofMappings current) current).createdOrChanged = []) ↔
      ∀ m ∈ current, Change.of (Applied.ofMappings current) m = .nothing := by
    simp only [between, missing_ofMappings, List.append_nil, List.filter_eq_nil_iff,
      Change.eq_nothing_iff, decide_eq_true_eq, Bool.not_eq_true]
    exact ⟨fun h m hm => ⟨h.1 m hm, h.2 m hm⟩,
      fun h => ⟨fun m hm => (h m hm).1, fun m hm => (h m hm).2⟩⟩
  rw [hquiet]
  constructor
  · -- each of the two agrees with what is recorded under their id
    intro hnone m hm n hn id hmid hnid
    obtain ⟨recorded, hfind⟩ := Applied.exists_find?_ofMappings hm hmid
    have hfirst := (Change.of_eq_nothing_iff hmid hfind).mp (hnone m hm)
    have hsecond := (Change.of_eq_nothing_iff hnid hfind).mp (hnone n hn)
    exact hfirst.symm.trans hsecond
  · intro hagreeing m hm
    cases hid : m.canonicalId? with
    | none => exact Change.of_eq_nothing_of_invalid hid
    | some id =>
      obtain ⟨recorded, hfind⟩ := Applied.exists_find?_ofMappings hm hid
      obtain ⟨hrecorded, hrid⟩ := Applied.of_find?_ofMappings hfind
      exact (Change.of_eq_nothing_iff hid hfind).mpr
        (hagreeing recorded hrecorded m hm id hrid hid)

end Delta

namespace Refresh

open Octets (ascii)

variable {current : List Mapping} {s : System}

theorem run_of_no_news (hidle : s.refreshing = false)
    (hdisabled : (Delta.between s.applied current).newlyDisabled = [])
    (hcreated : (Delta.between s.applied current).createdOrChanged = []) :
    (run current s).1 = { received := current.length } ∧
      (run current s).2.cache.store = s.cache.store := by
  have hstart : run current s =
      close current (Delta.between s.applied current) {} {} { s with refreshing := true } := by
    simp only [run, start, hidle, Bool.false_eq_true, if_false, hdisabled, if_true,
      complete_suspend_evicting, startEviction, hcreated]
    rfl
  rw [hstart]
  refine ⟨?_, (closed_close _ _ _ _ _).store⟩
  simp only [close, hdisabled, hcreated, List.length_nil]

/-- After a cycle in any state, whatever is cached and recorded, a second one with the same list is
not skipped, and it reports nothing disabled, created or changed exactly if the mappings that the
list has for one id agree. Then its report is empty altogether, and the record and the store with
every entry, value and expiry stay as they are. -/
theorem repetition_reports_nothing_iff (hidle : s.refreshing = false) (current : List Mapping) :
    let first := run current s
    let second := run current first.2
    second.1.skipped = false ∧
      (second.1.newlyDisabled = 0 ∧ second.1.createdOrChanged = 0 ↔ Mapping.Agreeing current) ∧
      (Mapping.Agreeing current →
        second.1 = { received := current.length } ∧
          second.2.cache.store = first.2.cache.store ∧ second.2.applied = first.2.applied) := by
  intro first second
  obtain ⟨cache, hfirst⟩ := closed_run_any current hidle
  obtain ⟨cache', hsecond⟩ := closed_run_any current hfirst.idle
  have hreflects := reflects_run current hfirst.idle
  have hnews := Delta.between_ofMappings_eq_nil_iff current
  rw [← hfirst.applied] at hnews
  refine ⟨hsecond.ran, ?_, ?_⟩
  · rw [hreflects.newlyDisabled, hreflects.createdOrChanged, List.length_eq_zero_iff,
      List.length_eq_zero_iff]
    exact hnews
  · intro hagreeing
    obtain ⟨hdisabled, hcreated⟩ := hnews.mpr hagreeing
    obtain ⟨hreport, hstore⟩ := run_of_no_news hfirst.idle hdisabled hcreated
    exact ⟨hreport, hstore, hsecond.applied.trans hfirst.applied.symm⟩

theorem repetition_reports_nothing_in_other_case :
    let here : Expression := [⟨ascii "a", ascii "1"⟩]
    let current : List Mapping :=
      [⟨⟨ascii "00000000-0000-4000-8000-00000000000a", true⟩, here⟩,
        ⟨⟨ascii "00000000-0000-4000-8000-00000000000A", true⟩, here⟩,
        ⟨⟨ascii "00000000-0000-4000-8000-00000000000b", false⟩, here⟩, ⟨⟨ascii "none", true⟩, here⟩]
    let s := (Session.performAll (.fresh 1000 1 {} fnv1a { threshold := .error } {})
      [.put (ascii "a:1") [⟨ascii "00000000-0000-4000-8000-00000000000a", true⟩]]).2
    s.refreshing = false ∧ Mapping.Agreeing current ∧
      (run current (run current s).2).1 = { received := 4 } := by
  intro here current s
  have hidle : s.refreshing = false := Session.refreshing_performAll _ _
  have hagreeing : Mapping.Agreeing current :=
    (Delta.between_ofMappings_eq_nil_iff current).mp (by decide +kernel)
  exact ⟨hidle, hagreeing, ((repetition_reports_nothing_iff hidle current).2.2 hagreeing).1⟩

/-- A detector is named twice, first as disabled and then as enabled. The record keeps the second,
so the first is news again: the repeated cycle takes the detector out of an entry written before the
first one, which has left it there. -/
theorem contradictory_list_prunes_again :
    let first := ascii "00000000-0000-4000-8000-000000000001"
    let here : Expression := [⟨ascii "a", ascii "1"⟩]
    let current : List Mapping := [⟨⟨first, false⟩, here⟩, ⟨⟨first, true⟩, here⟩]
    let s := (Session.performAll (.fresh 1000 1 {} fnv1a { threshold := .error } {})
      [.prime [⟨⟨first, false⟩, here⟩], .put (ascii "b:2") [⟨first, true⟩]]).2
    let once := run current s
    let twice := run current once.2
    s.refreshing = false ∧ twice.1.newlyDisabled = 1 ∧
      once.2.cache.store.liveEntries = [(ascii "b:2", first)] ∧
      twice.2.cache.store.liveEntries = [(ascii "b:2", [])] := by
  decide +kernel

end Refresh

end DetectorCache
