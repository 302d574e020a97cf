import DetectorCache.Proofs.Refresh.Coherence
import DetectorCache.Proofs.System.Reachable

set_option autoImplicit false

namespace DetectorCache

open Octets (ascii)
open Store (Traffic Request)

/-- What may go on while a cycle is under way: lookups, which may be made to fail, reads, purges,
the passing of time, and further cycles. -/
def Action.Background : Action → Prop
  | .lookup _ | .find _ | .purge | .failNext _ _ | .refresh _ => True
  | .advance nanoseconds => 0 ≤ nanoseconds
  | _ => False

namespace Session

/-- What goes on in the background of a cycle for a list that the service holds: answers of the
service are written, and the cycle goes on. -/
structure Undisturbed (mappings : List Mapping) (before after : System) : Prop where
  traffic : Traffic (Request.Writes (Mapping.Answers mappings)) before.cache.store
    after.cache.store
  service : after.front.service.mappings = mappings
  refreshing : after.refreshing = true

theorem undisturbed_perform {mappings : List Mapping} {s : System} {action : Action}
    (haction : action.Background) (hservice : s.front.service.mappings = mappings)
    (hrefreshing : s.refreshing = true) : Undisturbed mappings s (perform s action).2 := by
  have hrunning := (refreshing_perform s action).trans hrefreshing
  cases action with
  | lookup tags =>
    refine ⟨?_, ?_, hrunning⟩
    · rw [← hservice]
      exact s.traffic_lookup tags
    · rw [← hservice]
      exact s.front.mappings_lookup tags
  | find key => exact ⟨s.cache.traffic_find key, hservice, hrunning⟩
  | purge => exact ⟨.readOnly .purge trivial rfl, hservice, hrunning⟩
  | failNext count reason => exact ⟨.refl _, hservice, hrunning⟩
  | advance nanoseconds =>
    exact ⟨.readOnly (.advance nanoseconds) haction rfl, hservice, hrunning⟩
  | refresh others =>
    obtain ⟨journal, heq⟩ := start_refresh_of_refreshing hrefreshing others
    have hperform : (perform s (.refresh others)).2 = s.withCache { s.cache with journal } := by
      rw [perform, Pass.complete, heq]
    rw [hperform]
    exact ⟨.refl _, hservice, hrefreshing⟩
  | _ => exact haction.elim

theorem undisturbed_performAll {mappings : List Mapping} {actions : List Action}
    (hactions : ∀ action ∈ actions, action.Background) {s : System}
    (hservice : s.front.service.mappings = mappings) (hrefreshing : s.refreshing = true) :
    Undisturbed mappings s (performAll s actions).2 := by
  induction actions generalizing s with
  | nil => exact ⟨.refl _, hservice, hrefreshing⟩
  | cons action actions ih =>
    have hfirst := undisturbed_perform (hactions action List.mem_cons_self) hservice hrefreshing
    have hothers := ih (fun a ha => hactions a (List.mem_cons_of_mem _ ha)) hfirst.service
      hfirst.refreshing
    exact ⟨hfirst.traffic.trans hothers.traffic, hothers.service, hothers.refreshing⟩

end Session

namespace Refresh

theorem answers_performAround {current : List Mapping} {s : System} (hidle : s.refreshing = false)
    (hkeyed : s.applied.Keyed) (hdistinct : Mapping.DistinctIds current)
    (hplaced : s.cache.store.Placed) (hservice : s.front.service.mappings = current)
    (hlive : s.cache.store.AllLive (OldOrNew s.applied [] current)) {meanwhile : List Action}
    (hmeanwhile : ∀ action ∈ meanwhile, action.Background) :
    let after := (Session.performAround s (.refresh current) meanwhile).2
    after.cache.store.AllLive (Mapping.Answers current) ∧
      after.applied = Applied.ofMappings current := by
  have hsound := start_sound hidle hkeyed hdistinct hplaced hlive
  have htraffic := traffic_start (fun _ _ => True) current s
  rcases start_idle current hidle with
    ⟨report, cache, hstore, hended, hclosed⟩ | ⟨pending, cache, -, hcurrent, -, heq⟩
  · rcases hsound with ⟨report', -, hanswers⟩ | ⟨pending, hscanned, -⟩
    · simp only [Session.performAround, Session.start, Session.reported, hended]
      exact ⟨hanswers, hclosed.applied⟩
    · rw [hended] at hscanned
      cases hscanned
  · rcases hsound with ⟨report, hended, -⟩ | ⟨pending', hscanned, hpending, hshown⟩
    · rw [heq] at hended
      cases hended
    · rw [heq] at hscanned htraffic hshown
      cases hscanned
      simp only [Session.performAround, Session.start, Session.reported, heq]
      have hquiet := Session.undisturbed_performAll hmeanwhile
        (s := { s with refreshing := true }.withCache cache) hservice rfl
      -- a live entry was shown at the snapshot, or the background has written it since
      have hentries := (hquiet.traffic.writes_mono fun _ _ h => Or.inr h).allLive
        (hshown.mono fun _ _ hmem => Or.inl hmem)
      have hplaced' := hquiet.traffic.placed (htraffic.placed hplaced)
      refine ⟨hpending.finish hkeyed hdistinct hplaced' hentries, ?_⟩
      obtain ⟨cache', -, hclosed⟩ := pending.closed_finish_any
        (Session.performAll ({ s with refreshing := true }.withCache cache) meanwhile).2
      rw [← hcurrent]
      exact hclosed.applied

/-- Let the record be that of a former list, the service hold the current one, and the live entries
be answers by the one or the other. A cycle for the current list, with any lookups, reads, purges
and clock advances after its first snapshot, leaves answers by the current list and records it. A
cycle that is started within it is turned away and changes nothing but the journal. -/
theorem restores_coherence {s : System} (hs : s.Reachable) {former current : List Mapping}
    (hformer : Mapping.DistinctIds former) (hcurrent : Mapping.DistinctIds current)
    (happlied : s.applied = Applied.ofMappings former)
    (hservice : s.front.service.mappings = current)
    (hlive : s.cache.store.AllLive fun key value => ∃ tags, key = CacheKey.encode tags ∧
      (StoredIds.Denotes value (Mapping.Active former tags) ∨
        StoredIds.Denotes value (Mapping.Active current tags)))
    {meanwhile : List Action} (hmeanwhile : ∀ action ∈ meanwhile, action.Background) :
    let started := Session.start s (.refresh current)
    let after := (Session.performAround s (.refresh current) meanwhile).2
    (after.cache.store.AllLive fun key value => ∃ tags, key = CacheKey.encode tags ∧
      StoredIds.Denotes value (Mapping.Active current tags)) ∧
    after.applied = Applied.ofMappings current ∧
    ∀ pending, started.1 = .scanned pending → ∀ (inside : List Action) (others : List Mapping),
      let within := (Session.performAll started.2 inside).2
      ∃ journal, Session.perform within (.refresh others) =
        (.refreshed { skipped := true, received := others.length },
          within.withCache { within.cache with journal }) := by
  intro started after
  have hkeyed : s.applied.Keyed := by
    rw [happlied]
    exact Applied.keyed_ofMappings former
  have hmixed : s.cache.store.AllLive (OldOrNew s.applied [] current) := by
    rw [happlied]
    refine hlive.mono ?_
    intro key value hentry
    obtain ⟨tags, rfl, hold | hnew⟩ := hentry
    · exact .of_former hformer hold
    · exact ⟨tags, rfl, Or.inr hnew⟩
  obtain ⟨hanswers, hrecord⟩ :=
    answers_performAround hs.idle hkeyed hcurrent hs.placed hservice hmixed hmeanwhile
  refine ⟨hanswers, hrecord, ?_⟩
  intro pending hscanned inside others within
  have hrunning : started.2.refreshing = true := by
    rcases Session.refreshing_start_refresh hs.idle current with
      ⟨answer, hended, -⟩ | ⟨cycle, -, hrunning⟩
    · rw [hended] at hscanned
      cases hscanned
    · exact hrunning
  have hwithin : within.refreshing = true :=
    (Session.refreshing_performAll started.2 inside).trans hrunning
  obtain ⟨journal, heq⟩ := Session.start_refresh_of_refreshing hwithin others
  refine ⟨journal, ?_⟩
  rw [Session.perform, Pass.complete, heq]

theorem restores_coherence_moved_detector :
    let first := ascii "00000000-0000-4000-8000-000000000001"
    let second := ascii "00000000-0000-4000-8000-000000000002"
    let here : Expression := [⟨ascii "a", ascii "1"⟩]
    let there : Expression := [⟨ascii "b", ascii "2"⟩]
    let former : List Mapping := [⟨⟨first, true⟩, here⟩, ⟨⟨second, true⟩, here⟩]
    let current : List Mapping := [⟨⟨first, false⟩, here⟩, ⟨⟨second, true⟩, there⟩]
    let fresh := System.fresh 1000 2 {} fnv1a { threshold := .error } { mappings := former }
    let tags : Tags := .ofList [(ascii "a", ascii "1")]
    let s := (Session.performAll fresh [.prime former, .lookup tags, .publish current]).2
    let meanwhile : List Action :=
      [.failNext 1 [], .lookup (.ofList [(ascii "b", ascii "2")]), .find (ascii "a:1"), .purge,
        .advance 5, .refresh [], .lookup (.ofList [(ascii "b", ascii "2")])]
    let after := (Session.performAround s (.refresh current) meanwhile).2
    s.cache.store.liveEntries = [(ascii "a:1", first ++ ascii "," ++ second)] ∧
      after.cache.store.AllLive (Mapping.Answers current) ∧
      after.applied = Applied.ofMappings current := by
  intro first second here there former current fresh tags s meanwhile after
  have hreachable : fresh.Reachable :=
    .fresh 1000 2 {} fnv1a { threshold := .error } { mappings := former }
  have hformer : Mapping.DistinctIds former := by
    unfold Mapping.DistinctIds
    decide +kernel
  have hcurrent : Mapping.DistinctIds current := by
    unfold Mapping.DistinctIds
    decide +kernel
  have hprimed : (fresh.prime former).cache.store.AllLive (Mapping.Answers former) := by
    rw [System.store_prime]
    exact Store.allLive_create 1000 2 {} fnv1a _
  have hs : s = ((fresh.prime former).lookup tags).2.publish current := by
    simp only [s, Session.performAll, Session.perform, Pass.complete, Session.start,
      Session.silent, Session.ended]
  have hlive : s.cache.store.AllLive (Mapping.Answers former) := by
    rw [hs, System.cache_publish]
    exact ((fresh.prime former).traffic_lookup tags).allLive hprimed
  have hmixed : s.cache.store.AllLive fun key value => ∃ tags, key = CacheKey.encode tags ∧
      (StoredIds.Denotes value (Mapping.Active former tags) ∨
        StoredIds.Denotes value (Mapping.Active current tags)) := by
    intro key slot hslot
    obtain ⟨others, hkey, hvalue⟩ := hlive key slot hslot
    exact ⟨others, hkey, Or.inl hvalue⟩
  have hmeanwhile : ∀ action ∈ meanwhile, action.Background := by
    simp [meanwhile, Action.Background]
  obtain ⟨hanswers, happlied, -⟩ := restores_coherence (hreachable.performAll _) hformer hcurrent
    (s := s) rfl rfl hmixed hmeanwhile
  exact ⟨by decide +kernel, hanswers, happlied⟩

end Refresh

end DetectorCache
