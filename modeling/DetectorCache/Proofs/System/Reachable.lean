import DetectorCache.Proofs.Delta.Sufficiency
import DetectorCache.Proofs.Lookup.Answers
import DetectorCache.Proofs.Refresh.Stages
import DetectorCache.Session

set_option autoImplicit false

namespace DetectorCache

open Store (Traffic Request)

namespace System

theorem store_prime (s : System) (mappings : List Mapping) :
    (s.prime mappings).cache.store = s.cache.store :=
  Cache.store_noteEach _ _ _ _ _

theorem cache_publish (s : System) (mappings : List Mapping) :
    (s.publish mappings).cache = s.cache := rfl

theorem traffic_lookup (s : System) (tags : Tags) :
    Traffic (Request.Writes (Mapping.Answers s.front.service.mappings)) s.cache.store
      (s.lookup tags).2.cache.store :=
  s.front.traffic_lookup tags

end System

namespace Session

theorem snd_reported {ρ π : Type} (answer : ρ → Answer) (wrap : π → Pending)
    (started : Pass ρ π × System) : (reported answer wrap started).2 = started.2 := by
  rw [reported]
  cases started.1 <;> rfl

/-- A property of systems that every action keeps, up to its snapshot and from there to its end. -/
structure Invariant (holds : System → Prop) : Prop where
  start : ∀ {s}, holds s → ∀ action, holds (Session.start s action).2
  finish : ∀ {s}, holds s → ∀ pending : Pending, holds (pending.finish s).2

namespace Invariant

variable {holds : System → Prop} {s : System}

theorem perform (h : Invariant holds) (hs : holds s) (action : Action) :
    holds (Session.perform s action).2 := by
  have hstart := h.start hs action
  rw [Session.perform, Pass.complete]
  split
  · exact hstart
  · next pending _ => exact h.finish hstart pending

theorem performAll (h : Invariant holds) (hs : holds s) (actions : List Action) :
    holds (Session.performAll s actions).2 := by
  induction actions generalizing s with
  | nil => exact hs
  | cons action actions ih => exact ih (h.perform hs action)

theorem performAround (h : Invariant holds) (hs : holds s) (action : Action)
    (meanwhile : List Action) : holds (Session.performAround s action meanwhile).2 := by
  have hstart := h.start hs action
  simp only [Session.performAround]
  split
  · exact hstart
  · next pending _ => exact h.finish (h.performAll hstart meanwhile) pending

end Invariant

/-- What an action may do to a system: requests to the store, and the record of a whole list. -/
structure Effect (before after : System) : Prop where
  traffic : Traffic (fun _ => True) before.cache.store after.cache.store
  record : after.applied = before.applied ∨ ∃ mappings, after.applied = Applied.ofMappings mappings

theorem Effect.refl (s : System) : Effect s s := ⟨.refl _, Or.inl rfl⟩

theorem Effect.trans {a b c : System} (hab : Effect a b) (hbc : Effect b c) : Effect a c := by
  refine ⟨hab.traffic.trans hbc.traffic, ?_⟩
  rcases hbc.record with hkept | hlist
  · rw [hkept]
    exact hab.record
  · exact Or.inr hlist

theorem Effect.of_closed {current : List Mapping} {s : System} {cache : Cache}
    {result : Refresh.Report × System}
    (htraffic : Traffic (Request.Writes fun _ _ => True) s.cache.store cache.store)
    (hclosed : Refresh.Closed current (s.withCache cache) result) : Effect s result.2 := by
  have hstore : result.2.cache.store = cache.store := hclosed.store
  refine ⟨?_, Or.inr ⟨current, hclosed.applied⟩⟩
  rw [hstore]
  exact htraffic.any

theorem effect_start_refresh (s : System) (mappings : List Mapping) :
    Effect s (Refresh.start mappings s).2 := by
  have htraffic := (Refresh.traffic_start (fun _ _ => True) mappings s).any
  cases hrefreshing : s.refreshing with
  | true =>
    obtain ⟨journal, heq⟩ := Refresh.start_of_refreshing mappings hrefreshing
    refine ⟨htraffic, Or.inl ?_⟩
    rw [heq]
    rfl
  | false =>
    rcases Refresh.start_idle mappings hrefreshing with
      ⟨report, cache, -, -, hclosed⟩ | ⟨pending, cache, -, -, -, heq⟩
    · exact ⟨htraffic, Or.inr ⟨mappings, hclosed.applied⟩⟩
    · refine ⟨htraffic, Or.inl ?_⟩
      rw [heq]
      rfl

theorem effect_start (s : System) (action : Action) : Effect s (start s action).2 := by
  -- most actions are one request to the store, whatever they count and note beside it
  have hone : ∀ request, Traffic (fun _ => True) s.cache.store
      (s.cache.store.serve request).2 := fun _ => .single trivial
  cases action with
  | advance nanoseconds => exact ⟨hone (.advance nanoseconds), Or.inl rfl⟩
  | put key detectors => exact ⟨s.cache.traffic_put_of trivial, Or.inl rfl⟩
  | find key => exact ⟨(s.cache.traffic_find key).any, Or.inl rfl⟩
  | get key => exact ⟨(s.cache.traffic_find key).any, Or.inl rfl⟩
  | putEncoded entries =>
    exact ⟨.any (s.cache.traffic_putEncoded entries fun _ _ => trivial), Or.inl rfl⟩
  | replaceEncoded key expected value => exact ⟨hone (.replaceIf key expected value), Or.inl rfl⟩
  | remove keys => exact ⟨hone (.invalidateAll keys), Or.inl rfl⟩
  | evictCorrupt key value reason =>
    exact ⟨s.cache.traffic_evictCorrupt_of trivial reason, Or.inl rfl⟩
  | purge => exact ⟨hone .purge, Or.inl rfl⟩
  | entries => exact ⟨hone .snapshot, Or.inl rfl⟩
  | lookup tags =>
    exact ⟨.any ((s.traffic_lookup tags).writes_mono fun _ _ _ => trivial), Or.inl rfl⟩
  | prune mappings =>
    simp only [start, snd_reported]
    exact ⟨(Prune.traffic_start (fun _ _ => True) mappings s.cache).any, Or.inl rfl⟩
  | evict mappings =>
    simp only [start, snd_reported]
    exact ⟨(Eviction.traffic_start (fun _ _ => True) mappings s.cache).any, Or.inl rfl⟩
  | prime mappings =>
    exact ⟨.of_eq (s.store_prime mappings), Or.inr ⟨mappings, rfl⟩⟩
  | refresh mappings =>
    simp only [start, snd_reported]
    exact effect_start_refresh s mappings
  | _ => exact ⟨.refl _, Or.inl rfl⟩

theorem Pending.effect_finish (pending : Pending) (s : System) :
    Effect s (pending.finish s).2 := by
  cases pending with
  | listing entries => exact .refl s
  | pruning pending =>
    exact ⟨.any (pending.traffic_finish (fun _ _ => trivial) s.cache), Or.inl rfl⟩
  | evicting pending => exact ⟨.any (pending.traffic_finish s.cache), Or.inl rfl⟩
  | refreshing pending =>
    obtain ⟨cache, htraffic, hclosed⟩ := pending.closed_finish_any s
    exact .of_closed htraffic hclosed

theorem invariant_effect (s : System) : Invariant (Effect s) where
  start h action := h.trans (effect_start _ action)
  finish h pending := h.trans (pending.effect_finish _)

theorem effect_performAround (s : System) (action : Action) (meanwhile : List Action) :
    Effect s (performAround s action meanwhile).2 :=
  (invariant_effect s).performAround (.refl s) action meanwhile

theorem refreshing_start {action : Action} (h : ∀ mappings, action ≠ .refresh mappings)
    (s : System) : (start s action).2.refreshing = s.refreshing := by
  cases action with
  | prune mappings => rw [start, snd_reported]; rfl
  | evict mappings => rw [start, snd_reported]; rfl
  | refresh mappings => exact absurd rfl (h mappings)
  | _ => rfl

theorem refreshing_finish {action : Action} (h : ∀ mappings, action ≠ .refresh mappings)
    {s : System} {pending : Pending} (hscanned : (start s action).1 = .scanned pending)
    (later : System) : (pending.finish later).2.refreshing = later.refreshing := by
  cases pending with
  | refreshing pending =>
    cases action with
    | refresh mappings => exact absurd rfl (h mappings)
    | prune mappings =>
      rw [start, reported] at hscanned
      split at hscanned <;> cases hscanned
    | evict mappings =>
      rw [start, reported] at hscanned
      split at hscanned <;> cases hscanned
    | _ => cases hscanned
  | _ => rfl

theorem refreshing_start_refresh {s : System} (hidle : s.refreshing = false)
    (mappings : List Mapping) :
    (∃ answer, (start s (.refresh mappings)).1 = .ended answer ∧
      (start s (.refresh mappings)).2.refreshing = false) ∨
    (∃ pending, (start s (.refresh mappings)).1 = .scanned (.refreshing pending) ∧
      (start s (.refresh mappings)).2.refreshing = true) := by
  simp only [start, snd_reported]
  rcases Refresh.start_idle mappings hidle with
    ⟨report, cache, -, hended, hclosed⟩ | ⟨pending, cache, -, -, -, heq⟩
  · refine Or.inl ⟨.refreshed report, ?_, hclosed.idle⟩
    rw [reported, hended]
  · refine Or.inr ⟨pending, ?_, ?_⟩
    · rw [heq]
      rfl
    · rw [heq]
      rfl

theorem refreshing_finish_refresh (pending : Refresh.Pending) (s : System) :
    ((Pending.refreshing pending).finish s).2.refreshing = false := by
  obtain ⟨cache, -, hclosed⟩ := pending.closed_finish_any s
  exact hclosed.idle

theorem start_refresh_of_refreshing {s : System} (h : s.refreshing = true)
    (mappings : List Mapping) :
    ∃ journal, start s (.refresh mappings) =
      (.ended (.refreshed { skipped := true, received := mappings.length }),
        s.withCache { s.cache with journal }) := by
  obtain ⟨journal, heq⟩ := Refresh.start_of_refreshing mappings h
  refine ⟨journal, ?_⟩
  rw [start, reported, heq]

/-- An action leaves a running cycle running, and none behind if none was running. -/
theorem refreshing_perform (s : System) (action : Action) :
    (perform s action).2.refreshing = s.refreshing := by
  by_cases hcycle : ∃ mappings, action = .refresh mappings
  · obtain ⟨mappings, rfl⟩ := hcycle
    cases hrefreshing : s.refreshing with
    | true =>
      obtain ⟨journal, heq⟩ := start_refresh_of_refreshing hrefreshing mappings
      rw [perform, Pass.complete, heq]
      exact hrefreshing
    | false =>
      rcases refreshing_start_refresh hrefreshing mappings with
        ⟨answer, hended, hidle⟩ | ⟨pending, hscanned, -⟩
      · rw [perform, Pass.complete, hended]
        exact hidle
      · rw [perform, Pass.complete, hscanned]
        exact refreshing_finish_refresh pending _
  · have hother : ∀ mappings, action ≠ .refresh mappings :=
      fun mappings heq => hcycle ⟨mappings, heq⟩
    rw [perform, Pass.complete]
    split
    · exact refreshing_start hother s
    · next pending hscanned =>
      exact (refreshing_finish hother hscanned _).trans (refreshing_start hother s)

theorem refreshing_performAll (s : System) (actions : List Action) :
    (performAll s actions).2.refreshing = s.refreshing := by
  induction actions generalizing s with
  | nil => rfl
  | cons action actions ih => exact (ih _).trans (refreshing_perform s action)

theorem idle_performAround {s : System} (hidle : s.refreshing = false) (action : Action)
    (meanwhile : List Action) : (performAround s action meanwhile).2.refreshing = false := by
  by_cases hcycle : ∃ mappings, action = .refresh mappings
  · obtain ⟨mappings, rfl⟩ := hcycle
    rcases refreshing_start_refresh hidle mappings with
      ⟨answer, hended, hidle'⟩ | ⟨pending, hscanned, -⟩
    · simp only [performAround, hended]
      exact hidle'
    · simp only [performAround, hscanned]
      exact refreshing_finish_refresh pending _
  · have hother : ∀ mappings, action ≠ .refresh mappings :=
      fun mappings heq => hcycle ⟨mappings, heq⟩
    have hstart := (refreshing_start hother s).trans hidle
    simp only [performAround]
    split
    · exact hstart
    · next pending hscanned =>
      have hmeanwhile := (refreshing_performAll (start s action).2 meanwhile).trans hstart
      exact (refreshing_finish hother hscanned _).trans hmeanwhile

end Session

namespace System

/-- The states of a system: fresh with any store and service, and then after any actions, each of
which others may interrupt. -/
inductive Reachable : System → Prop where
  | fresh (lifetimeMilliseconds : Int) (shardCount : Nat) (clock : Clock) (hash : Octets → Nat)
      (journal : Journal) (service : Directory) :
      Reachable (fresh lifetimeMilliseconds shardCount clock hash journal service)
  | perform {s : System} (before : Reachable s) (action : Action) (meanwhile : List Action) :
      Reachable (Session.performAround s action meanwhile).2

namespace Reachable

variable {s : System}

theorem placed (h : s.Reachable) : s.cache.store.Placed := by
  induction h with
  | fresh lifetimeMilliseconds shardCount clock hash journal service =>
    exact Store.placed_create lifetimeMilliseconds shardCount clock hash
  | perform _ action meanwhile ih =>
    exact (Session.effect_performAround _ action meanwhile).traffic.placed ih

/-- The record is always that of some list, so it holds every mapping under its own id. -/
theorem keyed (h : s.Reachable) : s.applied.Keyed := by
  induction h with
  | fresh =>
    intro id m hfind
    cases hfind
  | perform _ action meanwhile ih =>
    rcases (Session.effect_performAround _ action meanwhile).record with hkept | ⟨mappings, hlist⟩
    · rw [hkept]
      exact ih
    · rw [hlist]
      exact Applied.keyed_ofMappings mappings

theorem performAll (h : s.Reachable) (actions : List Action) :
    (Session.performAll s actions).2.Reachable := by
  induction actions generalizing s with
  | nil => exact h
  | cons action actions ih =>
    have hone : (Session.perform s action).2 = (Session.performAround s action []).2 := by
      simp only [Session.perform, Pass.complete, Session.performAround, Session.performAll]
      cases (Session.start s action).1 <;> rfl
    have hfirst := h.perform action []
    rw [← hone] at hfirst
    exact ih hfirst

/-- Between actions no cycle is running. -/
theorem idle (h : s.Reachable) : s.refreshing = false := by
  induction h with
  | fresh => rfl
  | perform _ action meanwhile ih => exact Session.idle_performAround ih action meanwhile

end Reachable

end System

end DetectorCache
