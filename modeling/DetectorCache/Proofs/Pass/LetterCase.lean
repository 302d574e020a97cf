import DetectorCache.Proofs.Cache.Agreement
import DetectorCache.Proofs.Mapping.LetterCase
import DetectorCache.Proofs.Pass.Affected
import DetectorCache.Proofs.Pass.Uninterrupted

set_option autoImplicit false

namespace DetectorCache

namespace Pass

/-- Passes that both end with reports of one kind, or both hold snapshots of one kind. -/
inductive Alike {ρ π : Type} (reports : ρ → ρ → Prop) (stops : π → π → Prop) :
    Pass ρ π → Pass ρ π → Prop where
  | ended {first second : ρ} (h : reports first second) :
    Alike reports stops (.ended first) (.ended second)
  | scanned {first second : π} (h : stops first second) :
    Alike reports stops (.scanned first) (.scanned second)

variable {ρ π κ : Type} {reports : ρ → ρ → Prop} {stops : π → π → Prop} {states : κ → κ → Prop}
  {first second : Pass ρ π × κ}

@[elab_as_elim]
theorem agree_elim {motive : Pass ρ π × κ → Pass ρ π × κ → Prop}
    (h : Agree (Alike reports stops) states first second)
    (ended : ∀ {report report' : ρ} {state state' : κ}, reports report report' →
      states state state' → motive (.ended report, state) (.ended report', state'))
    (scanned : ∀ {pending pending' : π} {state state' : κ}, stops pending pending' →
      states state state' → motive (.scanned pending, state) (.scanned pending', state')) :
    motive first second := by
  obtain ⟨pass, state⟩ := first
  obtain ⟨pass', state'⟩ := second
  obtain ⟨hpass, hstate⟩ := h
  cases hpass with
  | ended hreport => exact ended hreport hstate
  | scanned hpending => exact scanned hpending hstate

theorem agree_complete {finish : π → κ → ρ × κ}
    (h : Agree (Alike reports stops) states first second)
    (hfinish : ∀ {p q : π} {c d : κ}, stops p q → states c d →
      Agree reports states (finish p c) (finish q d)) :
    Agree reports states (complete finish first) (complete finish second) :=
  agree_elim h (fun hreport hstate => ⟨hreport, hstate⟩) hfinish

end Pass

variable {mappings mappings' : List Mapping} {cache cache' : Cache}

namespace Prune

theorem idsOf_lowered (disabled : List Mapping) :
    idsOf (disabled.map Mapping.lowered) = idsOf disabled := by
  rw [idsOf_eq, idsOf_eq, List.filterMap_map]
  exact congrArg (fun ids => (disabled.filterMap ids).eraseDups)
    (funext Mapping.canonicalId?_lowered)

theorem length_refusals_lowered (disabled : List Mapping) :
    (Detector.refusals ((disabled.map Mapping.lowered).map Mapping.detector)).length =
      (Detector.refusals (disabled.map Mapping.detector)).length := by
  rw [length_refusals, length_refusals, List.countP_map]
  exact List.countP_congr fun m _ => by rw [Function.comp, Mapping.canonicalId?_lowered]

theorem agree_start (h : mappings.map Mapping.lowered = mappings'.map Mapping.lowered)
    (hcache : cache.Same cache') :
    Agree (Pass.Alike Eq Eq) Cache.Same (start mappings cache) (start mappings' cache') := by
  have hids : idsOf mappings = idsOf mappings' := Mapping.eq_of_lowered idsOf idsOf_lowered h
  have hskipped : (Detector.refusals (mappings.map Mapping.detector)).length =
      (Detector.refusals (mappings'.map Mapping.detector)).length :=
    Mapping.eq_of_lowered
      (fun disabled => (Detector.refusals (disabled.map Mapping.detector)).length)
      length_refusals_lowered h
  simp only [start, hids, hskipped]
  split
  · exact ⟨.ended rfl, hcache.noteEach⟩
  · obtain ⟨hsnapshot, hcopied⟩ := hcache.noteEach.onStore Store.snapshot
    exact ⟨.scanned (congrArg _ hsnapshot), hcopied⟩

theorem Cut.agree_apply (cut : Cut) {state state' : Report × Cache}
    (h : Agree Eq Cache.Same state state') :
    Agree Eq Cache.Same (cut.apply state) (cut.apply state') := by
  obtain ⟨report, cache⟩ := state
  obtain ⟨report', cache'⟩ := state'
  obtain ⟨rfl, hcache : cache.Same cache'⟩ := h
  obtain ⟨hreplaced, hsame⟩ := hcache.onStore (·.replaceIf cut.key cut.found cut.value)
  cases hheld : (cache.onStore (·.replaceIf cut.key cut.found cut.value)).1 <;>
    have hheld' := hreplaced.symm.trans hheld <;>
    simp only [apply, Cache.replaceEncoded, hheld, hheld'] <;>
    exact ⟨rfl, hsame.note⟩

theorem agree_cuts (cuts : List Cut) {state state' : Report × Cache}
    (h : Agree Eq Cache.Same state state') :
    Agree Eq Cache.Same (cuts.foldl (fun state cut => cut.apply state) state)
      (cuts.foldl (fun state cut => cut.apply state) state') := by
  induction cuts generalizing state state' with
  | nil => exact h
  | cons cut cuts ih => exact ih (cut.agree_apply h)

theorem Pending.agree_finish (pending : Pending) (hcache : cache.Same cache') :
    Agree Eq Cache.Same (pending.finish cache) (pending.finish cache') := by
  have hnoted {warned warned' : Cache} (h : warned.Same warned') :
      Agree Eq Cache.Same (pending.report, warned) (pending.report, warned') := ⟨rfl, h⟩
  obtain ⟨hreport, hcut⟩ := agree_cuts pending.cuts (hnoted hcache.noteEach.note)
  obtain ⟨hcorrupt, hevicted⟩ := hcut.evictAll (Octets.ascii "undecodable value found during prune")
    (pending.undecodable.map Prod.fst)
  refine ⟨?_, hevicted⟩
  simp only [finish]
  rw [hreport, hcorrupt]

end Prune

namespace Eviction

theorem requiredTags_lowered (changed : List Mapping) :
    requiredTags (changed.map Mapping.lowered) = requiredTags changed := by
  rw [requiredTags, requiredTags, List.filterMap_map]
  rfl

theorem length_conflicts_lowered (changed : List Mapping) :
    (conflicts (changed.map Mapping.lowered)).length = (conflicts changed).length := by
  rw [length_conflicts, length_conflicts, List.countP_map]
  rfl

def Pending.lowered (pending : Pending) : Pending :=
  { pending with ids := pending.ids.map Octets.toLower }

theorem agree_start (h : mappings.map Mapping.lowered = mappings'.map Mapping.lowered)
    (hcache : cache.Same cache') :
    Agree (Pass.Alike Eq fun p q => p.lowered = q.lowered) Cache.Same
      (start mappings cache) (start mappings' cache') := by
  have hrequired : requiredTags mappings = requiredTags mappings' :=
    Mapping.eq_of_lowered requiredTags requiredTags_lowered h
  have hskipped : (conflicts mappings).length = (conflicts mappings').length :=
    Mapping.eq_of_lowered (fun changed => (conflicts changed).length) length_conflicts_lowered h
  have hlength : mappings.length = mappings'.length :=
    Mapping.eq_of_lowered List.length (fun _ => List.length_map _) h
  have hids : (mappings.map (·.detector.id)).map Octets.toLower =
      (mappings'.map (·.detector.id)).map Octets.toLower := by
    refine Mapping.eq_of_lowered
      (fun changed => (changed.map (·.detector.id)).map Octets.toLower) (fun changed => ?_) h
    simp [Mapping.lowered, Detector.lowered]
  simp only [start, hrequired, hskipped, hlength]
  split
  · exact ⟨.ended rfl, hcache.noteEach⟩
  · obtain ⟨hsnapshot, hcopied⟩ := hcache.noteEach.onStore Store.snapshot
    refine ⟨.scanned ?_, hcopied⟩
    simp only [Pending.lowered, hids]
    exact congrArg _ hsnapshot

theorem Pending.agree_finish {pending pending' : Pending} (h : pending.lowered = pending'.lowered)
    (hcache : cache.Same cache') :
    Agree Eq Cache.Same (pending.finish cache) (pending'.finish cache') := by
  obtain ⟨ids, required, skipped, snapshot⟩ := pending
  obtain ⟨ids', required', skipped', snapshot'⟩ := pending'
  simp only [lowered, mk.injEq] at h
  obtain ⟨hids, rfl, rfl, rfl⟩ := h
  have hlength : ids.length = ids'.length := by simpa using congrArg List.length hids
  obtain ⟨-, hremoved⟩ := hcache.noteEach.note.remove (keys ⟨ids, required, skipped, snapshot⟩)
  obtain ⟨hcorrupt, hevicted⟩ := hremoved.evictAll
    (Octets.ascii "undecodable key found during invalidation")
    ((undecodable ⟨ids, required, skipped, snapshot⟩).map Prod.fst)
  refine ⟨?_, hevicted⟩
  simp only [finish, hlength]
  exact congrArg _ hcorrupt

end Eviction

end DetectorCache
