import DetectorCache.Proofs.Pass.Cuts
import DetectorCache.Proofs.System.Traffic
/-!
A prune among other writers. Between its snapshot and its cuts any work may go on: requests to the
store, whole actions, the passing of time. The cuts then leave alone whatever that work has changed,
and what lists one of the ids afterwards was written by that work.
-/
set_option autoImplicit false

namespace DetectorCache

open Octets (ascii)
open Store (Traffic Request)

namespace Session

/-- Work on the cache of a system: a request to its store, or a whole action. -/
inductive Work where
  | request (request : Request)
  | action (action : Action)

namespace Work

def Forward : Work → Prop
  | .request asked => asked.Forward
  | .action performed => performed.Forward

def perform (s : System) : Work → System
  | .request asked => s.withCache { s.cache with store := (s.cache.store.serve asked).2 }
  | .action performed => (Session.perform s performed).2

def performAll (s : System) : List Work → System
  | [] => s
  | work :: others => performAll (perform s work) others

theorem forward_performAll {between : List Work} (h : ∀ work ∈ between, work.Forward)
    (s : System) : Traffic Request.Forward s.cache.store (performAll s between).cache.store := by
  induction between generalizing s with
  | nil => exact .refl _
  | cons work others ih =>
    have hfirst : Traffic Request.Forward s.cache.store (perform s work).cache.store := by
      have hforward := h work List.mem_cons_self
      cases work with
      | request asked =>
        have hasked : asked.Forward := hforward
        exact .single hasked
      | action performed =>
        have hperformed : performed.Forward := hforward
        exact forward_perform hperformed s
    exact hfirst.trans (ih (fun w hw => h w (List.mem_cons_of_mem _ hw)) _)

end Work

end Session

namespace Prune

namespace Pending

variable {pending : Pending} {key value : Octets}

theorem counts_finish (cache : Cache) :
    let report := (pending.finish cache).1
    report.pruned + report.superseded =
        pending.snapshot.countP (fun entry => listsAny pending.ids entry.2) ∧
      report.emptied ≤ report.pruned := by
  intro report
  obtain ⟨noted, -, heq⟩ := pending.finish_eq_applyAll cache
  obtain ⟨hcount, hemptied⟩ := reported_applyAll pending.cuts (pending.report, noted)
  have hreport : report = { (applyAll pending.cuts (pending.report, noted)).1 with
      corrupt := report.corrupt } := by
    simp only [report, heq]
  rw [hreport, ← pending.length_cuts]
  simp only [Pending.report] at hcount hemptied ⊢
  omega

variable (hkeys : (pending.snapshot.map Prod.fst).Nodup)

include hkeys

/-- For readers nothing happens to a key that is not live with the value shown. -/
theorem unexpired_finish_of_changed {cache : Cache} (hshown : (key, value) ∈ pending.snapshot)
    (hchanged : (cache.store.liveSlot? key).map Slot.value ≠ some value) {time : Int}
    (htime : cache.store.now ≤ time) :
    unexpired cache.store.lifetime time ((pending.finish cache).2.store.slot? key) =
      unexpired cache.store.lifetime time (cache.store.slot? key) := by
  have hgone : ∀ slot, cache.store.slot? key = some slot → slot.value = value →
      ∀ later, cache.store.now ≤ later → slot.expired cache.store.lifetime later ≠ false := by
    intro slot hslot hvalue later hlater hunexpired
    have hlive : cache.store.liveSlot? key = some slot :=
      (Store.liveSlot?_eq_some_iff _).mpr ⟨hslot, Slot.not_expired_of_le hlater hunexpired⟩
    rw [hlive, Option.map_some, hvalue] at hchanged
    exact hchanged rfl
  cases hunreadable : unreadable value with
  | true =>
    -- the slot is removed if it holds the value still, but then it has expired
    rw [slot?_finish_of_unreadable hkeys hshown hunreadable]
    refine Option.ext fun slot => ?_
    rw [unexpired_eq_some_iff, unexpired_eq_some_iff, Option.filter_eq_some_iff]
    constructor
    · rintro ⟨⟨hslot, -⟩, hunexpired⟩
      exact ⟨hslot, hunexpired⟩
    · rintro ⟨hslot, hunexpired⟩
      have hvalue : slot.value ≠ value := fun heq => hgone slot hslot heq time htime hunexpired
      exact ⟨⟨hslot, decide_eq_true hvalue⟩, hunexpired⟩
  | false =>
    cases hlists : listsAny pending.ids value with
    | false => rw [slot?_finish_of_not_listsAny hkeys hshown hunreadable hlists]
    | true =>
      obtain ⟨cut, hcut, rfl, rfl⟩ := exists_cut hshown hlists
      rcases made_or_missed_finish hkeys hcut cache with
        ⟨slot, turn, hheld, hvalue, hunexpired, hturn, -, -⟩ | ⟨hkept, -⟩
      · exact absurd hunexpired (hgone slot hheld hvalue turn hturn)
      · rw [hkept]

theorem of_slot?_finish {cache : Cache} {slot : Slot}
    (hafter : (pending.finish cache).2.store.slot? key = some slot) :
    cache.store.slot? key = some slot ∨
      ∃ cut ∈ pending.cuts, cut.key = key ∧ slot.value = cut.value ∧
        (cache.store.liveSlot? key).map Slot.value = some cut.found ∧
        cache.store.now ≤ slot.writtenAt := by
  by_cases hcuts : ∃ cut ∈ pending.cuts, cut.key = key
  · obtain ⟨cut, hcut, rfl⟩ := hcuts
    rcases made_or_missed_finish hkeys hcut cache with
      ⟨found, turn, hheld, hvalue, hunexpired, hturn, -, hmade⟩ | ⟨hkept, -⟩
    · rw [hmade] at hafter
      cases hafter
      have hlive : cache.store.liveSlot? cut.key = some found :=
        (Store.liveSlot?_eq_some_iff _).mpr ⟨hheld, Slot.not_expired_of_le hturn hunexpired⟩
      refine Or.inr ⟨cut, hcut, rfl, rfl, ?_, hturn⟩
      rw [hlive, Option.map_some, hvalue]
    · exact Or.inl (hkept.symm.trans hafter)
  · have hnone : ∀ cut ∈ pending.cuts, cut.key ≠ key :=
      fun cut hcut heq => hcuts ⟨cut, hcut, heq⟩
    rw [slot?_finish_of_not_cut hnone, Option.filter_eq_some_iff] at hafter
    exact Or.inl hafter.1

theorem of_listsAny_finish {cache : Cache} {slot : Slot}
    (hlive : (pending.finish cache).2.store.liveSlot? key = some slot)
    (hlists : listsAny pending.ids slot.value = true) :
    cache.store.slot? key = some slot ∧ (key, slot.value) ∉ pending.snapshot := by
  obtain ⟨hheld, -⟩ := (Store.liveSlot?_eq_some_iff _).mp hlive
  constructor
  · rcases of_slot?_finish hkeys hheld with hbefore | ⟨cut, hcut, -, hvalue, -, -⟩
    · exact hbefore
    · rw [hvalue, listsAny_value_of_mem_cuts hcut] at hlists
      cases hlists
  · intro hshown
    obtain ⟨cut, hcut, rfl, hfound⟩ := exists_cut hshown hlists
    rcases made_or_missed_finish hkeys hcut cache with
      ⟨_, _, -, -, -, -, -, hmade⟩ | ⟨-, hgone⟩
    · rw [hmade] at hheld
      cases hheld
      rw [listsAny_value_of_mem_cuts hcut] at hlists
      cases hlists
    · rw [hlive, Option.map_some, hfound] at hgone
      exact hgone rfl

omit hkeys in
/-- A live entry that lists one of the ids was written since the snapshot. -/
theorem written_since_of_listsAny {copied : Store} (hplaced : copied.Placed)
    (hshown : pending.snapshot = copied.liveEntries) {requests : List Request}
    (hforward : ∀ request ∈ requests, request.Forward) {cache : Cache}
    (hstage : cache.store = copied.serveAll requests) {slot : Slot}
    (hlive : (pending.finish cache).2.store.liveSlot? key = some slot)
    (hlists : listsAny pending.ids slot.value = true) :
    copied.slot? key ≠ some slot ∧ copied.WrittenAmong requests key slot := by
  have hkeys : (pending.snapshot.map Prod.fst).Nodup := by
    rw [hshown]
    exact copied.nodup_keys_liveEntries
  obtain ⟨hbefore, hnew⟩ := of_listsAny_finish hkeys hlive hlists
  obtain ⟨-, hunexpired⟩ := (Store.liveSlot?_eq_some_iff _).mp hlive
  have hlater : copied.now ≤ (pending.finish cache).2.store.now := by
    have hbetween := Store.now_le_serveAll hforward copied
    rw [← hstage] at hbetween
    exact Int.le_trans hbetween (now_le_finish cache)
  rw [lifetime_finish, hstage, Store.lifetime_serveAll] at hunexpired
  have hother : copied.slot? key ≠ some slot := by
    intro hcopied
    have hthen : copied.liveSlot? key = some slot :=
      (Store.liveSlot?_eq_some_iff _).mpr ⟨hcopied, Slot.not_expired_of_le hlater hunexpired⟩
    rw [hshown] at hnew
    exact hnew (hplaced.mem_liveEntries.mpr ⟨slot, hthen, rfl⟩)
  rw [hstage] at hbefore
  rcases Store.of_slot?_serveAll hbefore with hheld | hwritten
  · exact absurd hheld hother
  · exact ⟨hother, hwritten⟩

end Pending

theorem of_start_eq_scanned {disabled : List Mapping} {cache : Cache} {pending : Pending}
    (h : (start disabled cache).1 = .scanned pending) :
    pending.ids = idsOf disabled ∧ pending.snapshot = cache.store.tick.liveEntries ∧
      (start disabled cache).2.store = cache.store.tick := by
  by_cases hids : idsOf disabled = []
  · obtain ⟨report, hended, -, -⟩ := start_of_idsOf_eq_nil hids cache
    rw [hended] at h
    cases h
  · obtain ⟨pending', hscanned, hpending⟩ := start_of_idsOf_ne_nil hids cache
    rw [hscanned] at h
    cases h
    exact hpending

/-- Let a prune take its snapshot and any work go on before its cuts. Then readers find what they
found under every key that is not live with the value shown; keys that were not shown keep their
slots; what is written is written over a live value that was shown, with the ids taken out; every
entry shown that lists one of the ids counts as pruned or as superseded; and a live entry that lists
one afterwards is no entry of the snapshot, but was written by the work in between. -/
theorem spares_later_writes {s : System} (hplaced : s.cache.store.Placed)
    {disabled : List Mapping} {pending : Pending}
    (hscanned : (s.onCache (start disabled)).1 = .scanned pending)
    {between : List Session.Work} (hforward : ∀ work ∈ between, work.Forward) :
    let copied := (s.onCache (start disabled)).2
    let stage := (Session.Work.performAll copied between).cache
    let report := (pending.finish stage).1
    let after := (pending.finish stage).2.store
    let shown := copied.cache.store.liveEntries
    let ids := idsOf disabled
    (∀ key value, (key, value) ∈ shown →
      (stage.store.liveSlot? key).map Slot.value ≠ some value →
      ∀ time, stage.store.now ≤ time →
        unexpired stage.store.lifetime time (after.slot? key) =
          unexpired stage.store.lifetime time (stage.store.slot? key)) ∧
    (∀ key, (∀ value, (key, value) ∉ shown) → after.slot? key = stage.store.slot? key) ∧
    (∀ key slot, after.slot? key = some slot → stage.store.slot? key ≠ some slot →
      ∃ value detectors, (key, value) ∈ shown ∧
        (stage.store.liveSlot? key).map Slot.value = some value ∧
        StoredIds.decode value = .ok detectors ∧ (∃ d ∈ detectors, d.id ∈ ids) ∧
        slot.value = StoredIds.encode (detectors.filter fun d => d.id ∉ ids) ∧
        stage.store.now ≤ slot.writtenAt) ∧
    (report.pruned + report.superseded = shown.countP fun entry => listsAny ids entry.2) ∧
    report.emptied ≤ report.pruned ∧
    ∀ key slot, after.liveSlot? key = some slot → listsAny ids slot.value = true →
      copied.cache.store.slot? key ≠ some slot ∧
        ∃ requests, stage.store = copied.cache.store.serveAll requests ∧
          copied.cache.store.WrittenAmong requests key slot := by
  intro copied stage report after shown ids
  obtain ⟨(hids : pending.ids = ids), hsnapshot, hcopied⟩ := of_start_eq_scanned hscanned
  have hcopy : copied.cache.store = s.cache.store.tick := hcopied
  have hshown : pending.snapshot = shown := by
    rw [hsnapshot, ← hcopy]
  have hkeys : (pending.snapshot.map Prod.fst).Nodup := by
    rw [hsnapshot]
    exact Store.nodup_keys_liveEntries _
  obtain ⟨requests, hrequests, hstage⟩ := Session.Work.forward_performAll hforward copied
  obtain ⟨hcount, hemptied⟩ := pending.counts_finish stage
  rw [hids, hshown] at hcount
  refine ⟨?_, ?_, ?_, hcount, hemptied, ?_⟩
  · intro key value hmem hchanged time htime
    exact Pending.unexpired_finish_of_changed hkeys (hshown ▸ hmem) hchanged htime
  · intro key hnot
    exact Pending.slot?_finish_of_not_shown (hshown ▸ hnot) stage
  · intro key slot hafter hnew
    rcases Pending.of_slot?_finish hkeys hafter with
      hbefore | ⟨cut, hcut, rfl, hvalue, hlive, htime⟩
    · exact absurd hbefore hnew
    · obtain ⟨entry, hmem, detectors, hdecode, hlisted, rfl⟩ := Pending.mem_cuts.mp hcut
      rw [hids] at hlisted
      refine ⟨entry.2, detectors, hshown ▸ hmem, hlive, hdecode, hlisted, ?_, htime⟩
      rw [hvalue, Cut.value, hids]
      simp [ids]
  · intro key slot hlive hlists
    rw [← hids] at hlists
    have hplacedCopy : copied.cache.store.Placed := by
      rw [hcopy]
      exact hplaced.tick
    obtain ⟨hother, hwritten⟩ :=
      Pending.written_since_of_listsAny hplacedCopy hshown hrequests hstage hlive hlists
    exact ⟨hother, requests, hstage, hwritten⟩

theorem spares_later_writes_of_new_key :
    let first := ascii "00000000-0000-4000-8000-000000000001"
    let disabled : List Mapping := [⟨⟨first, false⟩, []⟩]
    let s := (Session.performAll (System.fresh 1000 2 {} fnv1a { threshold := .error } {})
      [.put (ascii "a:1") [⟨first, true⟩], .put (ascii "b:2") [⟨first, true⟩]]).2
    let between : List Session.Work :=
      [.action (.advance 5), .action (.put (ascii "c:3") [⟨first, true⟩]),
        .request (.invalidate (ascii "b:2"))]
    let copied := (s.onCache (start disabled)).2
    let stage := (Session.Work.performAll copied between).cache
    let pending : Pending := ⟨[first], 0, [(ascii "a:1", first), (ascii "b:2", first)]⟩
    (s.onCache (start disabled)).1 = .scanned pending ∧
      (pending.finish stage).1.pruned + (pending.finish stage).1.superseded = 2 ∧
      (pending.finish stage).2.store.liveSlot? (ascii "c:3") = some ⟨first, 5⟩ ∧
      ∃ requests, copied.cache.store.WrittenAmong requests (ascii "c:3") ⟨first, 5⟩ := by
  intro first disabled s between
  dsimp only
  have hplaced : s.cache.store.Placed :=
    ((System.Reachable.fresh 1000 2 {} fnv1a { threshold := .error } {}).performAll _).placed
  have hscanned : (s.onCache (start disabled)).1 =
      .scanned ⟨[first], 0, [(ascii "a:1", first), (ascii "b:2", first)]⟩ := by
    have hids : idsOf disabled = [first] := by decide +kernel
    have hrefusals : Detector.refusals (disabled.map Mapping.detector) = [] := by decide +kernel
    have hshown : s.cache.store.tick.liveEntries =
        [(ascii "a:1", first), (ascii "b:2", first)] := by decide +kernel
    simp only [System.onCache, start, hids, hrefusals, Cache.entries, Cache.onStore,
      Store.snapshot, Cache.store_noteEach, hshown]
    rfl
  have hforward : ∀ work ∈ between, work.Forward := by
    simp [between, Session.Work.Forward, Action.Forward, Request.Forward]
  obtain ⟨-, -, -, hcount, -, hlate⟩ := spares_later_writes hplaced hscanned hforward
  obtain ⟨-, requests, -, hwritten⟩ :=
    hlate (ascii "c:3") ⟨first, 5⟩ (by decide +kernel) (by decide +kernel)
  exact ⟨hscanned, hcount.trans (by decide +kernel), by decide +kernel, requests, hwritten⟩

end Prune

end DetectorCache
