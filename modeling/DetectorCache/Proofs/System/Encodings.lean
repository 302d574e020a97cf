import DetectorCache.Proofs.Pass.Encoded
import DetectorCache.Proofs.Refresh.Throughout
import DetectorCache.Proofs.System.Traffic

set_option autoImplicit false

namespace DetectorCache

open Octets (ascii)
open Store (Traffic Request)

namespace Refresh

/-- Neither pass of the cycle found anything corrupt. -/
def Report.Uncorrupted (report : Report) : Prop :=
  report.prune.corrupt = 0 ∧ report.eviction.corrupt = 0

def Evicting.Clean (cycle : Evicting) : Prop :=
  ShowsEncoded cycle.pending.snapshot ∧ cycle.prune.corrupt = 0

def Pending.Clean : Pending → Prop
  | .pruning cycle => ShowsEncoded cycle.pending.snapshot
  | .evicting cycle => cycle.Clean

theorem corruptEvictions_close (current : List Mapping) (delta : Delta) (prune : Prune.Report)
    (eviction : Eviction.Report) (s : System) :
    (close current delta prune eviction s).2.cache.corruptEvictions =
      s.cache.corruptEvictions :=
  Cache.corruptEvictions_noteEach _ _ _ _ _

theorem startEviction_of_encoded (current : List Mapping) (delta : Delta) {prune : Prune.Report}
    (hprune : prune.corrupt = 0) {s : System} (h : s.cache.store.HoldsEncoded) :
    (startEviction current delta prune s).1.All Report.Uncorrupted Evicting.Clean ∧
      (startEviction current delta prune s).2.cache.corruptEvictions =
        s.cache.corruptEvictions := by
  have hshows : (s.onCache
      (Eviction.start (delta.createdOrChanged ++ delta.retargetedFrom))).1.All
      (·.corrupt = 0) (ShowsEncoded ·.snapshot) := Eviction.showsEncoded_start _ h
  have hcount : (s.onCache
      (Eviction.start (delta.createdOrChanged ++ delta.retargetedFrom))).2.cache.corruptEvictions =
      s.cache.corruptEvictions := Eviction.corruptEvictions_start _ _
  simp only [startEviction]
  split
  · exact ⟨⟨hprune, rfl⟩, corruptEvictions_close _ _ _ _ _⟩
  · split
    · next eviction hended =>
      rw [hended] at hshows
      exact ⟨⟨hprune, hshows⟩, (corruptEvictions_close _ _ _ _ _).trans hcount⟩
    · next pending hscanned =>
      rw [hscanned] at hshows
      exact ⟨⟨hshows, hprune⟩, hcount⟩

theorem Evicting.finish_of_clean {cycle : Evicting} (h : cycle.Clean) (s : System) :
    (cycle.finish s).1.Uncorrupted ∧
      (cycle.finish s).2.cache.corruptEvictions = s.cache.corruptEvictions := by
  obtain ⟨hcorrupt, hcount⟩ := cycle.pending.finish_of_encoded h.1 s.cache
  exact ⟨⟨h.2, hcorrupt⟩, (corruptEvictions_close _ _ _ _ _).trans hcount⟩

theorem complete_of_encoded (current : List Mapping) (delta : Delta) {prune : Prune.Report}
    (hprune : prune.corrupt = 0) {s : System} (h : s.cache.store.HoldsEncoded) :
    let result := Pass.complete Evicting.finish (startEviction current delta prune s)
    result.1.Uncorrupted ∧ result.2.cache.corruptEvictions = s.cache.corruptEvictions := by
  obtain ⟨hstart, hcount⟩ := startEviction_of_encoded current delta hprune h
  simp only [Pass.complete]
  split
  · next report hended =>
    rw [hended] at hstart
    exact ⟨hstart, hcount⟩
  · next cycle hscanned =>
    rw [hscanned] at hstart
    obtain ⟨hcorrupt, hfinish⟩ := Evicting.finish_of_clean hstart _
    exact ⟨hcorrupt, hfinish.trans hcount⟩

theorem Pending.finish_of_clean {pending : Pending} (h : pending.Clean) {s : System}
    (hs : s.cache.store.HoldsEncoded) :
    (pending.finish s).1.Uncorrupted ∧
      (pending.finish s).2.cache.corruptEvictions = s.cache.corruptEvictions := by
  cases pending with
  | evicting cycle => exact Evicting.finish_of_clean h s
  | pruning cycle =>
    obtain ⟨hcorrupt, hcount⟩ := Prune.Pending.finish_of_encoded h s.cache
    have hpruned : (s.onCache cycle.pending.finish).2.cache.store.HoldsEncoded :=
      hs.of_traffic (cycle.pending.traffic_finish
        (fun cut hcut => Prune.Pending.encoded_of_mem_cuts h hcut) s.cache)
    obtain ⟨hrest, hfinish⟩ := complete_of_encoded cycle.current cycle.delta hcorrupt hpruned
    exact ⟨hrest, hfinish.trans hcount⟩

theorem suspend_startEviction_of_encoded (current : List Mapping) (delta : Delta)
    {prune : Prune.Report} (hprune : prune.corrupt = 0) {s : System}
    (h : s.cache.store.HoldsEncoded) :
    let result := Pass.suspend Pending.evicting (startEviction current delta prune s)
    result.1.All Report.Uncorrupted Pending.Clean ∧
      result.2.cache.corruptEvictions = s.cache.corruptEvictions := by
  obtain ⟨hstart, hcount⟩ := startEviction_of_encoded current delta hprune h
  refine ⟨hstart.suspend fun _ hclean => hclean, ?_⟩
  rw [Pass.snd_suspend]
  exact hcount

theorem start_of_encoded (current : List Mapping) {s : System}
    (h : s.cache.store.HoldsEncoded) :
    (start current s).1.All Report.Uncorrupted Pending.Clean ∧
      (start current s).2.cache.corruptEvictions = s.cache.corruptEvictions := by
  simp only [start]
  generalize Delta.between s.applied current = delta
  split
  · exact ⟨⟨rfl, rfl⟩, rfl⟩
  · have hrunning : ({ s with refreshing := true } : System).cache.store.HoldsEncoded := h
    split
    · exact suspend_startEviction_of_encoded _ _ rfl hrunning
    · have hstarted := hrunning.of_traffic (Prune.traffic_start Encoded delta.newlyDisabled _)
      have hshows := Prune.showsEncoded_start delta.newlyDisabled h
      have hcount := Prune.corruptEvictions_start delta.newlyDisabled s.cache
      split
      · next prune hended =>
        have hprune : (Prune.start delta.newlyDisabled s.cache).1 = .ended prune := hended
        rw [hprune] at hshows
        obtain ⟨hclean, hsame⟩ := suspend_startEviction_of_encoded current delta hshows
          (s := (System.onCache _ _).2) hstarted
        exact ⟨hclean, hsame.trans hcount⟩
      · next pending hscanned =>
        have hpending : (Prune.start delta.newlyDisabled s.cache).1 = .scanned pending := hscanned
        rw [hpending] at hshows
        exact ⟨hshows, hcount⟩

end Refresh

def Answer.corrupt : Answer → Nat
  | .pruned report => report.corrupt
  | .evicted report => report.corrupt
  | .refreshed report => report.prune.corrupt + report.eviction.corrupt
  | _ => 0

/-- What may be done to a cache that nobody writes encoded values to by hand: everything but writes
under other keys than encoded tag-sets, writes of given values and the eviction of corrupt ones. The
clock is not set back. -/
def Action.Tends : Action → Prop
  | .advance nanoseconds => 0 ≤ nanoseconds
  | .put key _ => ∃ tags, key = CacheKey.encode tags
  | .putEncoded _ | .replaceEncoded _ _ _ | .evictCorrupt _ _ _ => False
  | _ => True

theorem Action.Tends.writes {action : Action} (h : action.Tends) : action.Writes Encoded := by
  cases action with
  | advance nanoseconds => exact h
  | put key detectors =>
    obtain ⟨tags, rfl⟩ := h
    exact Encoded.of_valid tags detectors
  | putEncoded given => exact h.elim
  | replaceEncoded key expected value => exact h.elim
  | lookup tags => exact fun mappings => Encoded.of_valid tags (Mapping.activeDetectors mappings)
  | _ => trivial

namespace Session

/-- The rest of an action was shown encoded entries only. -/
def Pending.Clean : Pending → Prop
  | .listing entries => ShowsEncoded entries
  | .pruning pending => ShowsEncoded pending.snapshot
  | .evicting pending => ShowsEncoded pending.snapshot
  | .refreshing pending => pending.Clean

theorem Pending.Clean.writes {pending : Pending} (h : pending.Clean) :
    pending.Writes Encoded := by
  cases pending with
  | listing entries => trivial
  | evicting pending => trivial
  | pruning pending => exact fun cut hcut => Prune.Pending.encoded_of_mem_cuts h hcut
  | refreshing pending =>
    cases pending with
    | pruning cycle => exact fun cut hcut => Prune.Pending.encoded_of_mem_cuts h hcut
    | evicting cycle =>
      intro cut hcut
      cases hcut

theorem reported_of_clean {ρ π : Type} {answer : ρ → Answer} {wrap : π → Pending}
    {started : Pass ρ π × System} {ended : ρ → Prop} {scanned : π → Prop}
    (h : started.1.All ended scanned)
    (hended : ∀ report, ended report → (answer report).corrupt = 0)
    (hscanned : ∀ pending, scanned pending → (wrap pending).Clean) :
    (reported answer wrap started).1.All (·.corrupt = 0) Pending.Clean := by
  rw [reported]
  split
  · next report heq =>
    rw [heq] at h
    exact hended report h
  · next pending heq =>
    rw [heq] at h
    exact hscanned pending h

theorem start_of_encoded {s : System} (h : s.cache.store.HoldsEncoded) {action : Action}
    (haction : action.Tends) :
    (start s action).1.All (·.corrupt = 0) Pending.Clean ∧
      (start s action).2.cache.corruptEvictions = s.cache.corruptEvictions := by
  cases action with
  | find key => exact ⟨rfl, Cache.corruptEvictions_find_of_encoded h key⟩
  | get key => exact ⟨rfl, Cache.corruptEvictions_find_of_encoded h key⟩
  | put key detectors => exact ⟨rfl, s.cache.corruptEvictions_put key detectors⟩
  | putEncoded given => exact haction.elim
  | replaceEncoded key expected value => exact haction.elim
  | evictCorrupt key value reason => exact haction.elim
  | entries => exact ⟨h.showsEncoded, rfl⟩
  | lookup tags => exact ⟨rfl, s.front.corruptEvictions_lookup_of_encoded h tags⟩
  | prime mappings => exact ⟨rfl, Cache.corruptEvictions_noteEach _ _ _ _ _⟩
  | prune mappings =>
    have hstart := Prune.showsEncoded_start mappings h
    refine ⟨reported_of_clean hstart (fun _ hreport => hreport) (fun _ hshows => hshows), ?_⟩
    simp only [start, snd_reported]
    exact Prune.corruptEvictions_start mappings s.cache
  | evict mappings =>
    have hstart := Eviction.showsEncoded_start mappings h
    refine ⟨reported_of_clean hstart (fun _ hreport => hreport) (fun _ hshows => hshows), ?_⟩
    simp only [start, snd_reported]
    exact Eviction.corruptEvictions_start mappings s.cache
  | refresh mappings =>
    obtain ⟨hstart, hcount⟩ := Refresh.start_of_encoded mappings h
    refine ⟨reported_of_clean hstart ?_ (fun _ hclean => hclean), ?_⟩
    · intro report huncorrupted
      simp only [Answer.corrupt, huncorrupted.1, huncorrupted.2]
    · simp only [start, snd_reported]
      exact hcount
  | _ => exact ⟨rfl, rfl⟩

theorem Pending.finish_of_clean {pending : Pending} (hclean : pending.Clean) {s : System}
    (h : s.cache.store.HoldsEncoded) :
    (pending.finish s).1.corrupt = 0 ∧
      (pending.finish s).2.cache.corruptEvictions = s.cache.corruptEvictions := by
  cases pending with
  | listing entries => exact ⟨rfl, rfl⟩
  | pruning pending => exact Prune.Pending.finish_of_encoded hclean s.cache
  | evicting pending => exact Eviction.Pending.finish_of_encoded hclean s.cache
  | refreshing pending =>
    obtain ⟨huncorrupted, hcount⟩ := Refresh.Pending.finish_of_clean hclean h
    refine ⟨?_, hcount⟩
    simp only [finish, Answer.corrupt, huncorrupted.1, huncorrupted.2]

theorem corrupt_perform_of_encoded {s : System} (h : s.cache.store.HoldsEncoded) {action : Action}
    (haction : action.Tends) : (perform s action).1.corrupt = 0 := by
  obtain ⟨hstart, -⟩ := start_of_encoded h haction
  have hstarted := h.of_traffic (traffic_start haction.writes s)
  rw [perform, Pass.complete]
  split
  · next answer hended =>
    rw [hended] at hstart
    exact hstart
  · next pending hscanned =>
    rw [hscanned] at hstart
    exact (Pending.finish_of_clean hstart hstarted).1

def stopped : Pass Answer Pending → List Pending
  | .ended _ => []
  | .scanned pending => [pending]

end Session

namespace System

/-- The states of a cache that is tended only, with the actions that have stopped at a snapshot:
fresh over any store and service, and then after actions, each of which may be finished at any later
time, and after lookups in front of any other service. -/
inductive Tended : System → List Session.Pending → Prop where
  | fresh (lifetimeMilliseconds : Int) (shardCount : Nat) (clock : Clock) (hash : Octets → Nat)
      (journal : Journal) (service : Directory) :
      Tended (fresh lifetimeMilliseconds shardCount clock hash journal service) []
  | start {s : System} {waiting : List Session.Pending} (before : Tended s waiting)
      (action : Action) (haction : action.Tends) :
      Tended (Session.start s action).2 (Session.stopped (Session.start s action).1 ++ waiting)
  | finish {s : System} {first rest : List Session.Pending} {pending : Session.Pending}
      (before : Tended s (first ++ pending :: rest)) :
      Tended (pending.finish s).2 (first ++ rest)
  | lookup {s : System} {waiting : List Session.Pending} (before : Tended s waiting) {σ : Type}
      [MappingService σ] (front : Front σ) (hcache : front.cache = s.cache) (tags : Tags) :
      Tended (s.withCache (front.lookup tags).2.cache) waiting

/-- Every entry is encoded, none was ever found corrupt, and no snapshot shows another one. -/
structure Tidy (s : System) (waiting : List Session.Pending) : Prop where
  encoded : s.cache.store.HoldsEncoded
  uncorrupted : s.cache.corruptEvictions = 0
  clean : ∀ pending ∈ waiting, pending.Clean

namespace Tidy

variable {s : System} {waiting : List Session.Pending}

theorem fresh (lifetimeMilliseconds : Int) (shardCount : Nat) (clock : Clock)
    (hash : Octets → Nat) (journal : Journal) (service : Directory) :
    Tidy (System.fresh lifetimeMilliseconds shardCount clock hash journal service) [] where
  encoded := ⟨Store.placed_create _ _ _ _, Store.allHeld_create _ _ _ _ _⟩
  uncorrupted := rfl
  clean pending hmem := by cases hmem

theorem start (h : s.Tidy waiting) {action : Action} (haction : action.Tends) :
    Tidy (Session.start s action).2
      (Session.stopped (Session.start s action).1 ++ waiting) := by
  obtain ⟨hstart, hcount⟩ := Session.start_of_encoded h.encoded haction
  refine ⟨h.encoded.of_traffic (Session.traffic_start haction.writes s),
    hcount.trans h.uncorrupted, ?_⟩
  intro pending hmem
  rcases List.mem_append.mp hmem with hstopped | hwaiting
  · cases hresult : (Session.start s action).1 with
    | ended answer =>
      rw [hresult] at hstopped
      cases hstopped
    | scanned stopped =>
      rw [hresult] at hstopped hstart
      cases List.mem_singleton.mp hstopped
      exact hstart
  · exact h.clean pending hwaiting

theorem finish {first rest : List Session.Pending} {pending : Session.Pending}
    (h : s.Tidy (first ++ pending :: rest)) : Tidy (pending.finish s).2 (first ++ rest) := by
  have hclean := h.clean pending (by simp)
  obtain ⟨-, hcount⟩ := Session.Pending.finish_of_clean hclean h.encoded
  refine ⟨h.encoded.of_traffic (Session.Pending.traffic_finish hclean.writes s),
    hcount.trans h.uncorrupted, ?_⟩
  intro other hmem
  refine h.clean other (List.mem_append.mpr ((List.mem_append.mp hmem).imp_right ?_))
  exact List.mem_cons_of_mem _

theorem lookup (h : s.Tidy waiting) {σ : Type} [MappingService σ] (front : Front σ)
    (hcache : front.cache = s.cache) (tags : Tags) :
    Tidy (s.withCache (front.lookup tags).2.cache) waiting := by
  have hencoded : front.cache.store.HoldsEncoded := hcache ▸ h.encoded
  have hcount := front.corruptEvictions_lookup_of_encoded hencoded tags
  rw [hcache, h.uncorrupted] at hcount
  have htraffic : Traffic (Request.Writes Encoded) front.cache.store _ :=
    front.traffic_lookup_any fun mappings =>
      Encoded.of_valid tags (Mapping.activeDetectors mappings)
  exact ⟨hencoded.of_traffic htraffic, hcount, h.clean⟩

end Tidy

variable {s : System} {waiting : List Session.Pending}

theorem Tended.tidy (h : s.Tended waiting) : s.Tidy waiting := by
  induction h with
  | fresh lifetimeMilliseconds shardCount clock hash journal service =>
    exact .fresh lifetimeMilliseconds shardCount clock hash journal service
  | start _ action haction ih => exact ih.start haction
  | finish _ ih => exact ih.finish
  | lookup _ front hcache tags ih => exact ih.lookup front hcache tags

/-- In a cache that is tended only, whatever the services answer and in whatever order passes stop
and are finished, every key held is the encoding of a tag-set and every value that of different
canonical ids. So every live value is found, no eviction of a corrupt entry is ever counted, and no
action or rest of one reports a corrupt entry. -/
theorem Tended.stays_encoded (h : s.Tended waiting) :
    (∀ shard ∈ s.cache.store.shards, ∀ entry ∈ shard.slots.entries,
      (∃ tags, entry.1 = CacheKey.encode tags) ∧
        ∃ detectors : List Detector, (∀ d ∈ detectors, DetectorId.isCanonical d.id) ∧
          (detectors.map Detector.id).Nodup ∧ entry.2.value = StoredIds.encode detectors) ∧
    (∀ key slot, s.cache.store.tick.liveSlot? key = some slot →
      ∃ detectors, StoredIds.decode slot.value = .ok detectors ∧
        (s.cache.find key).1 = some detectors) ∧
    s.cache.corruptEvictions = 0 ∧
    (∀ action, action.Tends → (Session.perform s action).1.corrupt = 0) ∧
    ∀ pending ∈ waiting, (pending.finish s).1.corrupt = 0 := by
  obtain ⟨hencoded, huncorrupted, hclean⟩ := h.tidy
  refine ⟨?_, ?_, huncorrupted, ?_, ?_⟩
  · intro shard hshard entry hentry
    have hslot := hencoded.placed.slot?_of_shard hshard
      ((shard.slots.find?_eq_some_iff _ _).mpr hentry)
    obtain ⟨hkey, hvalue⟩ := hencoded.held _ _ hslot
    exact ⟨hkey, hvalue⟩
  · exact fun key slot hlive => Cache.fst_find_of_encoded hencoded key hlive
  · exact fun action haction => Session.corrupt_perform_of_encoded hencoded haction
  · exact fun pending hpending =>
      (Session.Pending.finish_of_clean (hclean pending hpending) hencoded).1

theorem Tended.stays_encoded_in_both_cases :
    let lower := ascii "0000000a-0000-4000-8000-000000000001"
    let upper := ascii "0000000A-0000-4000-8000-000000000001"
    let empty := System.fresh 1000 2 {} fnv1a { threshold := .error } {}
    let written := (Session.start empty
      (.put (CacheKey.encode (.ofList [(ascii "a", ascii "1")]))
        [⟨upper, true⟩, ⟨ascii "none", true⟩, ⟨lower, true⟩])).2
    let stopped := Session.start written (.prune [⟨⟨upper, false⟩, []⟩])
    stopped.2.cache.store.liveEntries = [(ascii "a:1", lower)] ∧
      stopped.2.cache.corruptEvictions = 0 ∧
      ∀ pending ∈ Session.stopped stopped.1, (pending.finish stopped.2).1.corrupt = 0 := by
  intro lower upper empty written stopped
  have hempty : empty.Tended [] := .fresh 1000 2 {} fnv1a { threshold := .error } {}
  have hwritten : written.Tended [] := hempty.start _ ⟨_, rfl⟩
  have hstopped := hwritten.start (.prune [⟨⟨upper, false⟩, []⟩]) trivial
  obtain ⟨-, -, huncorrupted, -, hclean⟩ := hstopped.stays_encoded
  rw [List.append_nil] at hclean
  exact ⟨by decide +kernel, huncorrupted, hclean⟩

end System

end DetectorCache
