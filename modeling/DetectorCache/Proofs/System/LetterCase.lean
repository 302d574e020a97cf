import DetectorCache.Proofs.Refresh.LetterCase
import DetectorCache.Session
import Mathlib.Data.List.Forall2
import Mathlib.Data.List.InsertIdx
/-!
The letter case of ids does not matter. Whatever is done in two systems, with actions that overlap
in any way, the answers and what is left in the cache are the same if the actions differ in the
letter case of the ids in their mappings and detectors only. Only the journals tell the two apart,
and a resolution, which shows the mappings as they were published.
-/
set_option autoImplicit false

namespace DetectorCache

open Octets (ascii)

theorem Front.Alike.counters {first second : Front Directory} (h : first.Alike second) :
    Counters.ofFront first = Counters.ofFront second := by
  obtain ⟨journal, hcache⟩ := h.cache
  simp only [Counters.ofFront, hcache, h.resolutions, h.resolutionErrors]

/-- Actions that differ in the letter case of the ids of given mappings or detectors only. -/
inductive Action.Alike : Action → Action → Prop where
  | same (action : Action) : Alike action action
  | put (key : Octets) {detectors detectors' : List Detector}
    (h : detectors.map Detector.lowered = detectors'.map Detector.lowered) :
    Alike (.put key detectors) (.put key detectors')
  | publish {mappings mappings' : List Mapping}
    (h : mappings.map Mapping.lowered = mappings'.map Mapping.lowered) :
    Alike (.publish mappings) (.publish mappings')
  | prune {mappings mappings' : List Mapping}
    (h : mappings.map Mapping.lowered = mappings'.map Mapping.lowered) :
    Alike (.prune mappings) (.prune mappings')
  | evict {mappings mappings' : List Mapping}
    (h : mappings.map Mapping.lowered = mappings'.map Mapping.lowered) :
    Alike (.evict mappings) (.evict mappings')
  | prime {mappings mappings' : List Mapping}
    (h : mappings.map Mapping.lowered = mappings'.map Mapping.lowered) :
    Alike (.prime mappings) (.prime mappings')
  | refresh {mappings mappings' : List Mapping}
    (h : mappings.map Mapping.lowered = mappings'.map Mapping.lowered) :
    Alike (.refresh mappings) (.refresh mappings')

inductive Answer.Alike : Answer → Answer → Prop where
  | same (answer : Answer) : Alike answer answer
  | resolution {first second : Resolution} (h : first.Alike second) :
    Alike (.resolution first) (.resolution second)

namespace Session

variable {s t : System}

def Pending.lowered : Pending → Pending
  | .evicting pending => .evicting pending.lowered
  | .refreshing pending => .refreshing pending.lowered
  | pending => pending

abbrev Started : Pass Answer Pending × System → Pass Answer Pending × System → Prop :=
  Agree (Pass.Alike Answer.Alike fun p q => p.lowered = q.lowered) System.Alike

theorem started_silent (h : s.Alike t) : Started (silent s) (silent t) := ⟨.ended (.same _), h⟩

theorem started_ended {α : Type} (answer : α → Answer) {result result' : α × System}
    (h : Agree Eq System.Alike result result') :
    Started (ended answer result) (ended answer result') := by
  refine ⟨.ended ?_, h.state⟩
  rw [h.answer]
  exact .same _

theorem started_reported {ρ π : Type} (answer : ρ → Answer) (wrap : π → Pending)
    {stops : π → π → Prop} (hwrap : ∀ {p q : π}, stops p q → (wrap p).lowered = (wrap q).lowered)
    {started started' : Pass ρ π × System}
    (h : Agree (Pass.Alike Eq stops) System.Alike started started') :
    Started (reported answer wrap started) (reported answer wrap started') :=
  Pass.agree_elim h (fun hreport hstate => ⟨.ended (hreport ▸ .same _), hstate⟩)
    fun hpending hstate => ⟨.scanned (hwrap hpending), hstate⟩

section

variable {mappings mappings' : List Mapping}
  (hmappings : mappings.map Mapping.lowered = mappings'.map Mapping.lowered)

include hmappings

theorem started_prune (h : s.Alike t) :
    Started (start s (.prune mappings)) (start t (.prune mappings')) :=
  started_reported .pruned .pruning (fun heq => congrArg Pending.pruning heq)
    (h.onCache (Prune.agree_start hmappings))

theorem started_evict (h : s.Alike t) :
    Started (start s (.evict mappings)) (start t (.evict mappings')) :=
  started_reported _ _ (congrArg Pending.evicting) (h.onCache (Eviction.agree_start hmappings))

theorem started_refresh (h : s.Alike t) :
    Started (start s (.refresh mappings)) (start t (.refresh mappings')) :=
  started_reported _ _ (congrArg Pending.refreshing) (Refresh.agree_start h hmappings)

end

theorem started_put (key : Octets) {detectors detectors' : List Detector}
    (hdetectors : detectors.map Detector.lowered = detectors'.map Detector.lowered)
    (h : s.Alike t) : Started (start s (.put key detectors)) (start t (.put key detectors')) := by
  have hvalid : Detector.valid detectors = Detector.valid detectors' := by
    rw [← Detector.valid_lowered, hdetectors, Detector.valid_lowered]
  exact started_silent (h.withCache (h.front.cache.put key hvalid))

theorem started_same (action : Action) (h : s.Alike t) :
    Started (start s action) (start t action) := by
  -- the actions that are given mappings or detectors are alike by the lemmas above
  cases action with
  | advance nanoseconds => exact started_silent (h.withCache (h.front.cache.advance nanoseconds))
  | put key detectors => exact started_put key rfl h
  | find key => exact started_ended _ (h.onCache fun hcache => hcache.find key)
  | get key => exact started_ended _ (h.onCache fun hcache => hcache.get key)
  | putEncoded entries => exact started_silent (h.withCache (h.front.cache.putEncoded entries))
  | replaceEncoded key expected value =>
    exact started_ended _ (h.onCache fun hcache => hcache.onStore (·.replaceIf key expected value))
  | remove keys => exact started_ended _ (h.onCache fun hcache => hcache.remove keys)
  | evictCorrupt key value reason =>
    exact started_ended _ (h.onCache fun hcache => hcache.evictCorrupt key value reason)
  | purge => exact started_ended _ (h.onCache Cache.Same.purge)
  | entries =>
    obtain ⟨hentries, hcopied⟩ := h.onCache fun hcache => hcache.onStore Store.snapshot
    exact ⟨.scanned (congrArg Pending.listing hentries), hcopied⟩
  | lookup tags => exact started_ended _ (h.lookup tags)
  | resolve tags =>
    obtain ⟨hresolution, hstate⟩ := h.resolve tags
    exact ⟨.ended (.resolution hresolution), hstate⟩
  | publish mappings => exact started_silent (h.publish rfl)
  | failNext count reason => exact started_silent (h.failNext count reason)
  | counters =>
    simp only [start, h.front.counters]
    exact ⟨.ended (.same _), h⟩
  | setThreshold level =>
    exact started_silent (h.withCache (h.front.cache.withJournal _ _))
  | prune mappings => exact started_prune rfl h
  | evict mappings => exact started_evict rfl h
  | prime mappings => exact started_silent (h.prime rfl)
  | refresh mappings => exact started_refresh rfl h

theorem started_start {action action' : Action} (haction : action.Alike action')
    (h : s.Alike t) : Started (start s action) (start t action') := by
  cases haction with
  | same => exact started_same action h
  | put key hdetectors => exact started_put key hdetectors h
  | publish hmappings => exact started_silent (h.publish hmappings)
  | prune hmappings => exact started_prune hmappings h
  | evict hmappings => exact started_evict hmappings h
  | prime hmappings => exact started_silent (h.prime hmappings)
  | refresh hmappings => exact started_refresh hmappings h

theorem Pending.agree_finish {pending pending' : Pending}
    (hpending : pending.lowered = pending'.lowered) (h : s.Alike t) :
    Agree Answer.Alike System.Alike (pending.finish s) (pending'.finish t) := by
  have hsame {α : Type} (answer : α → Answer) {result result' : α × System}
      (hresult : Agree Eq System.Alike result result') :
      Agree Answer.Alike System.Alike (answer result.1, result.2) (answer result'.1, result'.2) :=
    ⟨hresult.answer ▸ .same _, hresult.state⟩
  cases pending with
  | listing entries =>
    cases pending' with
    | listing entries' =>
      cases hpending
      exact ⟨.same _, h⟩
    | _ => cases hpending
  | pruning pending =>
    cases pending' with
    | pruning pending' =>
      cases hpending
      exact hsame .pruned (h.onCache (Prune.Pending.agree_finish pending))
    | _ => cases hpending
  | evicting pending =>
    cases pending' with
    | evicting pending' =>
      exact hsame .evicted (h.onCache (Eviction.Pending.agree_finish (evicting.inj hpending)))
    | _ => cases hpending
  | refreshing pending =>
    cases pending' with
    | refreshing pending' =>
      exact hsame .refreshed (Refresh.Pending.agree_finish (refreshing.inj hpending) h)
    | _ => cases hpending

theorem agree_perform {action action' : Action} (haction : action.Alike action') (h : s.Alike t) :
    Agree Answer.Alike System.Alike (perform s action) (perform t action') :=
  Pass.agree_complete (started_start haction h) Pending.agree_finish

/-- How far a session has come: the system, and the actions that wait at their snapshots. -/
structure Progress where
  system : System
  waiting : List Pending := []

/-- A turn of a session. An action is performed from start to end; or it is started, and waits if
it stops at a snapshot; or one that waits is finished. -/
inductive Turn where
  | perform (action : Action)
  | start (action : Action)
  | finish (place : Nat)

inductive Turn.Alike : Turn → Turn → Prop where
  | perform {action action' : Action} (h : action.Alike action') :
    Alike (.perform action) (.perform action')
  | start {action action' : Action} (h : action.Alike action') :
    Alike (.start action) (.start action')
  | finish (place : Nat) : Alike (.finish place) (.finish place)

namespace Progress

/-- Takes a turn, which has an answer unless an action begins to wait or there is none to finish. -/
def take (progress : Progress) : Turn → Option Answer × Progress
  | .perform action =>
    let result := Session.perform progress.system action
    (some result.1, { progress with system := result.2 })
  | .start action =>
    let started := Session.start progress.system action
    match started.1 with
    | .ended answer => (some answer, { progress with system := started.2 })
    | .scanned pending => (none, ⟨started.2, progress.waiting ++ [pending]⟩)
  | .finish place =>
    match progress.waiting[place]? with
    | none => (none, progress)
    | some pending =>
      let result := pending.finish progress.system
      (some result.1, ⟨result.2, progress.waiting.eraseIdx place⟩)

def takeAll (progress : Progress) : List Turn → List (Option Answer) × Progress
  | [] => ([], progress)
  | turn :: turns =>
    let first := progress.take turn
    let others := first.2.takeAll turns
    (first.1 :: others.1, others.2)

structure Alike (first second : Progress) : Prop where
  system : first.system.Alike second.system
  waiting : first.waiting.map Pending.lowered = second.waiting.map Pending.lowered

variable {first second : Progress}

theorem agree_take (h : first.Alike second) {turn turn' : Turn} (hturn : turn.Alike turn') :
    Agree (Option.Rel Answer.Alike) Alike (first.take turn) (second.take turn') := by
  obtain ⟨s, waiting⟩ := first
  obtain ⟨t, waiting'⟩ := second
  obtain ⟨hsystem, hwaiting⟩ := h
  cases hturn with
  | perform haction =>
    obtain ⟨hanswer, hstate⟩ := agree_perform haction hsystem
    exact ⟨.some hanswer, hstate, hwaiting⟩
  | @start action action' haction =>
    simp only [take]
    refine Pass.agree_elim (started_start haction hsystem) ?_ ?_
    · intro answer answer' state state' hanswer hstate
      exact ⟨.some hanswer, hstate, hwaiting⟩
    · intro pending pending' state state' hpending hstate
      refine ⟨.none, hstate, ?_⟩
      simp only [List.map_append, hwaiting, List.map_cons, hpending, List.map_nil]
  | finish place =>
    have hplace := congrArg (fun pendings => pendings[place]?) hwaiting
    simp only [List.getElem?_map] at hplace
    cases hfirst : waiting[place]? with
    | none =>
      cases hsecond : waiting'[place]? with
      | none =>
        simp only [take, hfirst, hsecond]
        exact ⟨.none, hsystem, hwaiting⟩
      | some pending' => simp [hfirst, hsecond] at hplace
    | some pending =>
      cases hsecond : waiting'[place]? with
      | none => simp [hfirst, hsecond] at hplace
      | some pending' =>
        rw [hfirst, hsecond] at hplace
        obtain ⟨hanswer, hstate⟩ := Pending.agree_finish (Option.some.inj hplace) hsystem
        simp only [take, hfirst, hsecond]
        refine ⟨.some hanswer, hstate, ?_⟩
        rw [← List.eraseIdx_map, ← List.eraseIdx_map, hwaiting]

theorem agree_takeAll (h : first.Alike second) {turns turns' : List Turn}
    (hturns : List.Forall₂ Turn.Alike turns turns') :
    Agree (List.Forall₂ (Option.Rel Answer.Alike)) Alike (first.takeAll turns)
      (second.takeAll turns') := by
  induction hturns generalizing first second with
  | nil => exact ⟨.nil, h⟩
  | cons hturn _ ih =>
    obtain ⟨hanswer, hnext⟩ := agree_take h hturn
    obtain ⟨hanswers, hlast⟩ := ih hnext
    exact ⟨.cons hanswer hanswers, hlast⟩

/-- Letter case makes no difference. Let turns be taken in two sessions, of which one writes ids in
other letter cases than the other: in the mappings that are published, primed, pruned, evicted or
refreshed with, and in the detectors that are put, whether or not an id is named several times in
different cases. Then all answers are the same, those of resolutions up to letter case, and so are
after every turn what is stored and until when, and all that is counted. -/
theorem letter_case_irrelevant (h : first.Alike second) {turns turns' : List Turn}
    (hturns : List.Forall₂ Turn.Alike turns turns') :
    List.Forall₂ (Option.Rel Answer.Alike) (first.takeAll turns).1 (second.takeAll turns').1 ∧
      ∀ n, let reached := (first.takeAll (turns.take n)).2.system
        let reached' := (second.takeAll (turns'.take n)).2.system
        reached.cache.store = reached'.cache.store ∧
          Counters.ofFront reached.front = Counters.ofFront reached'.front ∧
          reached.front.service.calls = reached'.front.service.calls ∧
          reached.applied.size = reached'.applied.size := by
  refine ⟨(agree_takeAll h hturns).answer, fun n => ?_⟩
  obtain ⟨hfront, happlied, -⟩ := (agree_takeAll h (List.forall₂_take n hturns)).state.system
  have hsize := congrArg SortedMap.size happlied
  simp only [Applied.lowered, SortedMap.size, SortedMap.mapValues, List.length_map] at hsize
  have hcalls := congrArg Directory.calls hfront.service
  exact ⟨hfront.cache.store, hfront.counters, hcalls, hsize⟩

theorem letter_case_irrelevant_of_variants :
    let tags : Tags := .ofList [(ascii "a", ascii "1")]
    let named (ids : List String) (enabled : Bool) : List Mapping :=
      ids.map fun id => ⟨⟨ascii id, enabled⟩, [⟨ascii "a", ascii "1"⟩]⟩
    let turns (ids : List String) : List Turn :=
      [.perform (.prime (named ids true)), .perform (.publish (named ids true)),
        .perform (.lookup tags), .start (.refresh (named ids false)),
        .perform (.find (CacheKey.encode tags)), .finish 0]
    let turned := turns
      ["0000000A-0000-4000-8000-00000000000B", "0000000a-0000-4000-8000-00000000000B"]
    let turned' := turns
      ["0000000a-0000-4000-8000-00000000000b", "0000000a-0000-4000-8000-00000000000b"]
    let empty : Progress := { system := System.fresh 1000 2 {} fnv1a { threshold := .error } {} }
    List.Forall₂ (Option.Rel Answer.Alike) (empty.takeAll turned).1 (empty.takeAll turned').1 ∧
      (empty.takeAll turned).2.system.cache.store.liveEntries = [(CacheKey.encode tags, [])] ∧
      (empty.takeAll turned').2.system.cache.store.liveEntries = [(CacheKey.encode tags, [])] := by
  intro tags named turns turned turned' empty
  have hids : ∀ enabled,
      (named ["0000000A-0000-4000-8000-00000000000B", "0000000a-0000-4000-8000-00000000000B"]
        enabled).map Mapping.lowered =
      (named ["0000000a-0000-4000-8000-00000000000b", "0000000a-0000-4000-8000-00000000000b"]
        enabled).map Mapping.lowered := by decide +kernel
  have hturns : List.Forall₂ Turn.Alike turned turned' :=
    .cons (.perform (.prime (hids true))) <| .cons (.perform (.publish (hids true))) <|
      .cons (.perform (.same _)) <| .cons (.start (.refresh (hids false))) <|
      .cons (.perform (.same _)) <| .cons (.finish 0) .nil
  obtain ⟨hanswers, hreached⟩ := letter_case_irrelevant ⟨.refl empty.system, rfl⟩ hturns
  have hlive : (empty.takeAll turned).2.system.cache.store.liveEntries =
      [(CacheKey.encode tags, [])] := by decide +kernel
  obtain ⟨hstore, -⟩ := hreached 6
  exact ⟨hanswers, hlive, (congrArg Store.liveEntries hstore).symm.trans hlive⟩

end Progress

end Session

end DetectorCache
