import DetectorCache.Proofs.Pass.LetterCase
import DetectorCache.Refresh

set_option autoImplicit false

namespace DetectorCache

namespace Directory

def lowered (directory : Directory) : Directory :=
  { directory with mappings := directory.mappings.map Mapping.lowered }

theorem resolve_lowered (tags : Tags) (directory : Directory) :
    resolve tags directory.lowered =
      ((resolve tags directory).1.map (List.map Mapping.lowered),
        (resolve tags directory).2.lowered) := by
  by_cases h : 0 < directory.outage
  · have hlowered : 0 < directory.lowered.outage := h
    rw [resolve, resolve, if_pos h, if_pos hlowered]
    rfl
  · have hlowered : ¬ 0 < directory.lowered.outage := h
    rw [resolve, resolve, if_neg h, if_neg hlowered]
    exact congrArg (fun mappings => (Except.ok mappings, _))
      (Mapping.filter_holds_lowered directory.mappings tags)

end Directory

namespace Resolution

def Alike (first second : Resolution) : Prop :=
  first.map (List.map Mapping.lowered) = second.map (List.map Mapping.lowered)

end Resolution

theorem Directory.agree_resolve {first second : Directory} (h : first.lowered = second.lowered)
    (tags : Tags) :
    Agree Resolution.Alike (fun d d' => d.lowered = d'.lowered) (first.resolve tags)
      (second.resolve tags) := by
  have hfirst := first.resolve_lowered tags
  have hsecond := second.resolve_lowered tags
  rw [h, hsecond] at hfirst
  exact ⟨(congrArg Prod.fst hfirst).symm, (congrArg Prod.snd hfirst).symm⟩

namespace Front

structure Alike (first second : Front Directory) : Prop where
  cache : first.cache.Same second.cache
  service : first.service.lowered = second.service.lowered
  resolutions : first.resolutions = second.resolutions
  resolutionErrors : first.resolutionErrors = second.resolutionErrors

variable {first second : Front Directory}

theorem Alike.settle (h : Alike first second) (key : Octets) {resolution resolution' : Resolution}
    (halike : resolution.Alike resolution') :
    Agree Eq Alike (first.settle key resolution) (second.settle key resolution') := by
  cases resolution with
  | error reason =>
    cases resolution' with
    | ok mappings => cases halike
    | error reason' =>
      cases halike
      exact ⟨rfl, h.cache.note, h.service, h.resolutions, congrArg (· + 1) h.resolutionErrors⟩
  | ok mappings =>
    cases resolution' with
    | error reason => cases halike
    | ok mappings' =>
      have hactive : Mapping.activeDetectors mappings = Mapping.activeDetectors mappings' :=
        Mapping.eq_of_lowered _ Mapping.activeDetectors_lowered (Except.ok.inj halike)
      exact ⟨hactive, h.cache.noteEach.put key (congrArg Detector.valid hactive), h.service,
        h.resolutions, h.resolutionErrors⟩

theorem Alike.lookup (h : Alike first second) (tags : Tags) :
    Agree Eq Alike (first.lookup tags) (second.lookup tags) := by
  obtain ⟨hanswer, hcache⟩ := h.cache.find (CacheKey.encode tags)
  cases hfound : (first.cache.find (CacheKey.encode tags)).1 with
  | some detectors =>
    have hfound' := hanswer.symm.trans hfound
    simp only [Front.lookup, hfound, hfound']
    exact ⟨rfl, hcache, h.service, h.resolutions, h.resolutionErrors⟩
  | none =>
    have hfound' := hanswer.symm.trans hfound
    obtain ⟨hresolution, hservice⟩ := Directory.agree_resolve h.service tags
    have hasked : Alike
        { first with
          cache := (first.cache.find (CacheKey.encode tags)).2
          service := (first.service.resolve tags).2
          resolutions := first.resolutions + 1 }
        { second with
          cache := (second.cache.find (CacheKey.encode tags)).2
          service := (second.service.resolve tags).2
          resolutions := second.resolutions + 1 } :=
      ⟨hcache, hservice, congrArg (· + 1) h.resolutions, h.resolutionErrors⟩
    simp only [Front.lookup, hfound, hfound']
    exact hasked.settle _ hresolution

end Front

namespace System

/-- Systems that differ in their journals and in the letter case of ids only. -/
structure Alike (first second : System) : Prop where
  front : first.front.Alike second.front
  applied : first.applied.lowered = second.applied.lowered
  refreshing : first.refreshing = second.refreshing

namespace Alike

variable {first second : System} {mappings mappings' : List Mapping}

theorem refl (s : System) : Alike s s := ⟨⟨.refl _, rfl, rfl, rfl⟩, rfl, rfl⟩

theorem withCache (h : Alike first second) {cache cache' : Cache} (hcache : cache.Same cache') :
    Alike (first.withCache cache) (second.withCache cache') :=
  ⟨⟨hcache, h.front.service, h.front.resolutions, h.front.resolutionErrors⟩, h.applied,
    h.refreshing⟩

theorem note (h : Alike first second) {level level' : Journal.Level} {message message' : String}
    {fields fields' : List (String × Octets)} :
    Alike (first.note level message fields) (second.note level' message' fields') :=
  h.withCache h.front.cache.note

theorem onCache (h : Alike first second) {α : Type} {answers : α → α → Prop}
    {operation operation' : Cache → α × Cache}
    (hcache : ∀ {cache cache' : Cache}, cache.Same cache' →
      Agree answers Cache.Same (operation cache) (operation' cache')) :
    Agree answers Alike (first.onCache operation) (second.onCache operation') :=
  ⟨(hcache h.front.cache).answer, h.withCache (hcache h.front.cache).state⟩

theorem lookup (h : Alike first second) (tags : Tags) :
    Agree Eq Alike (first.lookup tags) (second.lookup tags) := by
  obtain ⟨hanswer, hfront⟩ := h.front.lookup tags
  exact ⟨hanswer, hfront, h.applied, h.refreshing⟩

theorem resolve (h : Alike first second) (tags : Tags) :
    Agree Resolution.Alike Alike (first.resolve tags) (second.resolve tags) := by
  obtain ⟨hanswer, hservice⟩ := Directory.agree_resolve h.front.service tags
  exact ⟨hanswer,
    ⟨h.front.cache, hservice, h.front.resolutions, h.front.resolutionErrors⟩, h.applied,
    h.refreshing⟩

theorem publish (h : Alike first second)
    (hmappings : mappings.map Mapping.lowered = mappings'.map Mapping.lowered) :
    Alike (first.publish mappings) (second.publish mappings') := by
  have hservice : ({ first.front.service with mappings } : Directory).lowered =
      ({ second.front.service with mappings := mappings' } : Directory).lowered := by
    have hcalls := congrArg Directory.calls h.front.service
    have houtage := congrArg Directory.outage h.front.service
    have hreason := congrArg Directory.reason h.front.service
    simp only [Directory.lowered] at hcalls houtage hreason ⊢
    rw [hmappings, hcalls, houtage, hreason]
  exact ⟨⟨h.front.cache, hservice, h.front.resolutions, h.front.resolutionErrors⟩, h.applied,
    h.refreshing⟩

theorem failNext (h : Alike first second) (count : Nat) (reason : Octets) :
    Alike (first.failNext count reason) (second.failNext count reason) := by
  have hservice := congrArg
    (fun directory : Directory => { directory with outage := count, reason }) h.front.service
  exact ⟨⟨h.front.cache, hservice, h.front.resolutions, h.front.resolutionErrors⟩, h.applied,
    h.refreshing⟩

theorem prime (h : Alike first second)
    (hmappings : mappings.map Mapping.lowered = mappings'.map Mapping.lowered) :
    Alike (first.prime mappings) (second.prime mappings') := by
  have hrecord : (Applied.ofMappings mappings).lowered =
      (Applied.ofMappings mappings').lowered := by
    rw [← Applied.ofMappings_lowered, hmappings, Applied.ofMappings_lowered]
  exact ⟨(h.withCache h.front.cache.noteEach).front, hrecord, h.refreshing⟩

end Alike

end System

namespace Refresh

variable {first second : System} {current current' : List Mapping} {delta delta' : Delta}

def Pruning.lowered (cycle : Pruning) : Pruning where
  current := cycle.current.map Mapping.lowered
  delta := cycle.delta.lowered
  pending := cycle.pending

def Evicting.lowered (cycle : Evicting) : Evicting where
  current := cycle.current.map Mapping.lowered
  delta := cycle.delta.lowered
  prune := cycle.prune
  pending := cycle.pending.lowered

def Pending.lowered : Pending → Pending
  | .pruning cycle => .pruning cycle.lowered
  | .evicting cycle => .evicting cycle.lowered

theorem agree_close (h : first.Alike second)
    (hcurrent : current.map Mapping.lowered = current'.map Mapping.lowered)
    (hdelta : delta.lowered = delta'.lowered) (prune : Prune.Report) (eviction : Eviction.Report) :
    Agree Eq System.Alike (close current delta prune eviction first)
      (close current' delta' prune eviction second) := by
  have hreceived : current.length = current'.length :=
    Mapping.eq_of_lowered List.length (fun _ => List.length_map _) hcurrent
  have hdisabled := congrArg (fun d => d.newlyDisabled.length) hdelta
  have hcreated := congrArg (fun d => d.createdOrChanged.length) hdelta
  simp only [Delta.lowered, List.length_map] at hdisabled hcreated
  obtain ⟨hfront, happlied, -⟩ := h.prime hcurrent
  have hidle : System.Alike { first.prime current with refreshing := false }
      { second.prime current' with refreshing := false } := ⟨hfront, happlied, rfl⟩
  refine ⟨?_, hidle.note⟩
  simp only [close, hreceived, hdisabled, hcreated]

theorem agree_startEviction (h : first.Alike second)
    (hcurrent : current.map Mapping.lowered = current'.map Mapping.lowered)
    (hdelta : delta.lowered = delta'.lowered) (prune : Prune.Report) :
    Agree (Pass.Alike Eq fun p q => p.lowered = q.lowered) System.Alike
      (startEviction current delta prune first) (startEviction current' delta' prune second) := by
  have hcreated : delta.createdOrChanged.map Mapping.lowered =
      delta'.createdOrChanged.map Mapping.lowered := congrArg Delta.createdOrChanged hdelta
  have hretargeted : delta.retargetedFrom.map Mapping.lowered =
      delta'.retargetedFrom.map Mapping.lowered := congrArg Delta.retargetedFrom hdelta
  have hevicted : (delta.createdOrChanged ++ delta.retargetedFrom).map Mapping.lowered =
      (delta'.createdOrChanged ++ delta'.retargetedFrom).map Mapping.lowered := by
    rw [List.map_append, List.map_append, hcreated, hretargeted]
  by_cases hnone : delta.createdOrChanged = []
  · have hnone' := (Mapping.eq_nil_iff_of_lowered hcreated).mp hnone
    obtain ⟨hreport, hclosed⟩ := agree_close h hcurrent hdelta prune {}
    rw [startEviction, startEviction, if_pos hnone, if_pos hnone']
    exact ⟨.ended hreport, hclosed⟩
  · have hsome' := mt (Mapping.eq_nil_iff_of_lowered hcreated).mpr hnone
    rw [startEviction, startEviction, if_neg hnone, if_neg hsome']
    refine Pass.agree_elim (h.onCache (Eviction.agree_start hevicted)) ?_ ?_
    · rintro eviction _ state state' rfl hstate
      obtain ⟨hreport, hclosed⟩ := agree_close hstate hcurrent hdelta prune eviction
      exact ⟨.ended hreport, hclosed⟩
    · intro pending pending' state state' hpending hstate
      refine ⟨.scanned ?_, hstate⟩
      simp only [Evicting.lowered, hcurrent, hdelta, hpending]

theorem Evicting.agree_finish {cycle cycle' : Evicting} (hcycle : cycle.lowered = cycle'.lowered)
    (h : first.Alike second) :
    Agree Eq System.Alike (cycle.finish first) (cycle'.finish second) := by
  obtain ⟨current, delta, prune, pending⟩ := cycle
  obtain ⟨current', delta', prune', pending'⟩ := cycle'
  simp only [lowered, mk.injEq] at hcycle
  obtain ⟨hcurrent, hdelta, rfl, hpending⟩ := hcycle
  obtain ⟨hreport, hevicted⟩ := h.onCache (Eviction.Pending.agree_finish hpending)
  simp only [finish, hreport]
  exact agree_close hevicted hcurrent hdelta prune _

theorem Pruning.agree_finish {cycle cycle' : Pruning} (hcycle : cycle.lowered = cycle'.lowered)
    (h : first.Alike second) :
    Agree Eq System.Alike (cycle.finish first) (cycle'.finish second) := by
  obtain ⟨current, delta, pending⟩ := cycle
  obtain ⟨current', delta', pending'⟩ := cycle'
  simp only [lowered, mk.injEq] at hcycle
  obtain ⟨hcurrent, hdelta, rfl⟩ := hcycle
  obtain ⟨hreport, hpruned⟩ := h.onCache (Prune.Pending.agree_finish pending)
  simp only [finish, hreport]
  exact Pass.agree_complete (agree_startEviction hpruned hcurrent hdelta _) Evicting.agree_finish

theorem Pending.agree_finish {pending pending' : Pending}
    (hpending : pending.lowered = pending'.lowered) (h : first.Alike second) :
    Agree Eq System.Alike (pending.finish first) (pending'.finish second) := by
  cases pending with
  | pruning cycle =>
    cases pending' with
    | pruning cycle' => exact Pruning.agree_finish (Pending.pruning.inj hpending) h
    | evicting cycle' => cases hpending
  | evicting cycle =>
    cases pending' with
    | pruning cycle' => cases hpending
    | evicting cycle' => exact Evicting.agree_finish (Pending.evicting.inj hpending) h

theorem agree_suspend {started started' : Pass Report Evicting × System}
    (h : Agree (Pass.Alike Eq fun p q => p.lowered = q.lowered) System.Alike started started') :
    Agree (Pass.Alike Eq fun p q => p.lowered = q.lowered) System.Alike
      (Pass.suspend Pending.evicting started) (Pass.suspend Pending.evicting started') :=
  Pass.agree_elim h (fun hreport hstate => ⟨.ended hreport, hstate⟩)
    fun hcycle hstate => ⟨.scanned (congrArg Pending.evicting hcycle), hstate⟩

/-- A cycle goes the same way in any letter case: it finds the same differences to what was applied,
takes out the same ids and evicts the same keys. -/
theorem agree_start (h : first.Alike second)
    (hcurrent : current.map Mapping.lowered = current'.map Mapping.lowered) :
    Agree (Pass.Alike Eq fun p q => p.lowered = q.lowered) System.Alike
      (start current first) (start current' second) := by
  have hreceived : current.length = current'.length :=
    Mapping.eq_of_lowered List.length (fun _ => List.length_map _) hcurrent
  have hdelta : (Delta.between first.applied current).lowered =
      (Delta.between second.applied current').lowered := by
    rw [← Delta.between_lowered, hcurrent, h.applied, Delta.between_lowered]
  have hdisabled : (Delta.between first.applied current).newlyDisabled.map Mapping.lowered =
      (Delta.between second.applied current').newlyDisabled.map Mapping.lowered :=
    congrArg Delta.newlyDisabled hdelta
  have hrunning : System.Alike { first with refreshing := true }
      { second with refreshing := true } := ⟨h.front, h.applied, rfl⟩
  by_cases hbusy : first.refreshing = true
  · have hbusy' : second.refreshing = true := h.refreshing ▸ hbusy
    rw [start, start, if_pos hbusy, if_pos hbusy', hreceived]
    exact ⟨.ended rfl, h.note⟩
  · have hbusy' : ¬ second.refreshing = true := h.refreshing ▸ hbusy
    rw [start, start, if_neg hbusy, if_neg hbusy']
    by_cases hnone : (Delta.between first.applied current).newlyDisabled = []
    · have hnone' := (Mapping.eq_nil_iff_of_lowered hdisabled).mp hnone
      simp only [if_pos hnone, if_pos hnone']
      exact agree_suspend (agree_startEviction hrunning hcurrent hdelta {})
    · have hsome' := mt (Mapping.eq_nil_iff_of_lowered hdisabled).mpr hnone
      simp only [if_neg hnone, if_neg hsome']
      refine Pass.agree_elim (hrunning.onCache (Prune.agree_start hdisabled)) ?_ ?_
      · rintro prune _ state state' rfl hstate
        exact agree_suspend (agree_startEviction hstate hcurrent hdelta prune)
      · rintro pending _ state state' rfl hstate
        refine ⟨.scanned ?_, hstate⟩
        simp only [Pending.lowered, Pruning.lowered, hcurrent, hdelta]

end Refresh

end DetectorCache
