import DetectorCache.Proofs.Refresh.Coherence
import DetectorCache.Proofs.System.Reachable
import DetectorCache.Replay.Transcript
/-!
A replay serves from its cache what resolving afresh would find. Between two steps every live entry
is an answer by the list in force, the directory holds that list and the record is that of it; a
lookup keeps this up, and a refresh carries it over to its own list.
-/
set_option autoImplicit false

namespace DetectorCache.Replay

open Octets (ascii)
open Store (Traffic Request)

/-- A system whose cache, directory and record all go by one list of mappings. -/
structure InLine (mappings : List Mapping) (s : System) : Prop where
  placed : s.cache.store.Placed
  live : s.cache.store.AllLive (Mapping.Answers mappings)
  service : s.front.service.mappings = mappings
  working : s.front.service.outage = 0
  applied : s.applied = Applied.ofMappings mappings
  idle : s.refreshing = false

/-- No list of the plan holds two mappings with one canonical id. -/
structure Plan.Distinct (plan : Plan) : Prop where
  mappings : Mapping.DistinctIds plan.mappings
  refreshes : ∀ mappings, .refresh mappings ∈ plan.steps → Mapping.DistinctIds mappings

/-- The list in force after some steps: that of the latest refresh, or the one before them. -/
def latest (mappings : List Mapping) : List Step → List Mapping
  | [] => mappings
  | .lookup _ :: steps => latest mappings steps
  | .refresh others :: steps => latest others steps

variable {mappings : List Mapping} {s : System}

theorem InLine.lookup (h : InLine mappings s) (tags : Tags) :
    InLine mappings (s.lookup tags).2 := by
  have htraffic := s.traffic_lookup tags
  rw [h.service] at htraffic
  refine ⟨htraffic.placed h.placed, htraffic.allLive h.live, ?_, ?_, h.applied, h.idle⟩
  · exact (s.front.mappings_lookup tags).trans h.service
  · exact s.front.outage_lookup tags h.working

theorem InLine.areActive (h : InLine mappings s) (tags : Tags) :
    Detector.AreActive (s.lookup tags).1 mappings tags :=
  Front.areActive_lookup h.service h.working h.live

theorem InLine.refresh (h : InLine mappings s) (hdistinct : Mapping.DistinctIds mappings)
    {current : List Mapping} (hcurrent : Mapping.DistinctIds current) :
    InLine current (Refresh.run current (s.publish current)).2 := by
  have hkeyed : (s.publish current).applied.Keyed := by
    have happlied : (s.publish current).applied = Applied.ofMappings mappings := h.applied
    rw [happlied]
    exact Applied.keyed_ofMappings mappings
  have hlive : (s.publish current).cache.store.AllLive
      (Refresh.OldOrNew (s.publish current).applied [] current) := by
    have happlied : (s.publish current).applied = Applied.ofMappings mappings := h.applied
    rw [happlied]
    refine h.live.mono ?_
    intro key value hentry
    obtain ⟨tags, rfl, hvalue⟩ := hentry
    exact .of_former hdistinct hvalue
  have hidle : (s.publish current).refreshing = false := h.idle
  have hplaced : (s.publish current).cache.store.Placed := h.placed
  have hcuts : ∀ pending : Refresh.Pending,
      (Refresh.start current (s.publish current)).1 = .scanned pending →
        ∀ cut ∈ pending.cuts, True := fun _ _ _ _ => trivial
  obtain ⟨cache, htraffic, hclosed⟩ := Refresh.closed_run (fun _ _ => True) hidle hcuts
  have hservice : (Refresh.run current (s.publish current)).2.front.service =
      (s.publish current).front.service := hclosed.service
  refine ⟨?_, Refresh.answers_run hidle hkeyed hcurrent hplaced hlive, ?_, ?_, hclosed.applied,
    hclosed.idle⟩
  · rw [hclosed.store]
    exact htraffic.placed hplaced
  · rw [hservice]
    rfl
  · rw [hservice]
    exact h.working

/-- What is played after a lookup or a refresh is in line with the list then in force. -/
theorem areActive_playSteps {steps : List Step} (h : InLine mappings s)
    (hdistinct : Mapping.DistinctIds mappings)
    (hrefreshes : ∀ others, .refresh others ∈ steps → Mapping.DistinctIds others) {i : Nat}
    {tags : Tags} (hstep : steps[i]? = some (.lookup tags)) :
    ∃ detectors, (playSteps s steps).1[i]? = some (.lookup tags detectors) ∧
      Detector.AreActive detectors (latest mappings (steps.take i)) tags := by
  -- a lookup hands on the list in force, a refresh its own one, so both vary with the steps
  induction steps generalizing s mappings i with
  | nil => simp at hstep
  | cons step steps ih =>
    have hothers : ∀ others, .refresh others ∈ steps → Mapping.DistinctIds others :=
      fun others hmem => hrefreshes others (List.mem_cons_of_mem _ hmem)
    cases i with
    | zero =>
      simp only [List.getElem?_cons_zero, Option.some.injEq] at hstep
      subst hstep
      exact ⟨_, rfl, h.areActive tags⟩
    | succ i =>
      simp only [List.getElem?_cons_succ] at hstep
      cases step with
      | lookup earlier => exact ih (h.lookup earlier) hdistinct hothers hstep
      | refresh others =>
        have hnew := hrefreshes others List.mem_cons_self
        exact ih (h.refresh hdistinct hnew) hnew hothers hstep

theorem inLine_initialSystem (config : Config) (clock : Clock) (hash : Octets → Nat)
    (journal : Journal) (mappings : List Mapping) :
    InLine mappings ((initialSystem config clock hash journal mappings).prime mappings) := by
  refine ⟨?_, ?_, rfl, rfl, rfl, rfl⟩
  · rw [System.store_prime]
    exact Store.placed_create config.lifetime config.shardCount clock hash
  · rw [System.store_prime]
    exact Store.allLive_create config.lifetime config.shardCount clock hash _

/-- Whatever the lifetime, the number of shards, the spreading of keys over them and the clock, each
lookup of a replay yields exactly the ids active by the list of the latest refresh before it, each
once. -/
theorem lookup_yields_active (plan : Plan) (hplan : plan.Distinct) (config : Config)
    (clock : Clock) (journal : Journal) (hash : Octets → Nat) {i : Nat} {tags : Tags}
    (hstep : plan.steps[i]? = some (.lookup tags)) :
    ∃ detectors, (run plan config clock journal hash).1[i]? = some (.lookup tags detectors) ∧
      (detectors.map Detector.id).Nodup ∧
      ∀ id, id ∈ detectors.map Detector.id ↔
        Mapping.Active (latest plan.mappings (plan.steps.take i)) tags id := by
  have hstart := inLine_initialSystem config clock hash journal plan.mappings
  have hnoted : InLine plan.mappings
      (((initialSystem config clock hash journal plan.mappings).prime plan.mappings).note .info
        "replay started"
        [("config", config.summary), ("steps", Octets.decimal plan.steps.length)]) :=
    ⟨hstart.placed, hstart.live, hstart.service, hstart.working, hstart.applied, hstart.idle⟩
  obtain ⟨detectors, hline, hactive⟩ :=
    areActive_playSteps hnoted hplan.mappings hplan.refreshes hstep
  refine ⟨detectors, ?_, hactive⟩
  obtain ⟨hlt, -⟩ := List.getElem?_eq_some_iff.mp hline
  rw [run]
  dsimp only
  rw [List.getElem?_append_left hlt]
  exact hline

theorem lookup_yields_active_disabled :
    let first := ascii "00000000-0000-4000-8000-000000000001"
    let here : Expression := [⟨ascii "a", ascii "1"⟩]
    let tags : Tags := .ofList [(ascii "a", ascii "1")]
    let plan : Plan :=
      { mappings := [⟨⟨first, true⟩, here⟩]
        steps := [.lookup tags, .refresh [⟨⟨first, false⟩, here⟩], .lookup tags] }
    plan.Distinct ∧
      (run plan {} {} { threshold := .error }).1[2]? = some (.lookup tags []) := by
  intro first here tags plan
  have hinitial : Mapping.DistinctIds plan.mappings := by
    unfold Mapping.DistinctIds
    decide +kernel
  have hrefreshed : Mapping.DistinctIds [⟨⟨first, false⟩, here⟩] := by
    unfold Mapping.DistinctIds
    decide +kernel
  have hplan : plan.Distinct := by
    refine ⟨hinitial, ?_⟩
    intro others hmem
    simp only [plan, List.mem_cons, List.not_mem_nil, reduceCtorEq, or_false, false_or,
      Step.refresh.injEq] at hmem
    rw [hmem]
    exact hrefreshed
  have hstep : plan.steps[2]? = some (.lookup tags) := rfl
  obtain ⟨detectors, hline, -, hactive⟩ :=
    lookup_yields_active plan hplan {} {} { threshold := .error } fnv1a hstep
  refine ⟨hplan, ?_⟩
  cases detectors with
  | nil => exact hline
  | cons d detectors =>
    obtain ⟨m, hm, henabled, -⟩ := (hactive d.id).mp List.mem_cons_self
    have hoff : m = ⟨⟨first, false⟩, here⟩ := List.mem_singleton.mp hm
    rw [hoff] at henabled
    cases henabled

end DetectorCache.Replay
