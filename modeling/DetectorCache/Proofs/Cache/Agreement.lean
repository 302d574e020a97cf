import DetectorCache.Proofs.Cache.Outcomes

set_option autoImplicit false

namespace DetectorCache

/-- Results that agree: the answers in one sense, and what is left behind in another. -/
structure Agree {α κ : Type} (answers : α → α → Prop) (states : κ → κ → Prop)
    (first second : α × κ) : Prop where
  answer : answers first.1 second.1
  state : states first.2 second.2

namespace Cache

/-- Two caches with the same contents and counts, whatever they told their journals. -/
def Same (first second : Cache) : Prop := ∃ journal, second = { first with journal }

namespace Same

variable {first second third : Cache}

theorem refl (cache : Cache) : Same cache cache := ⟨cache.journal, rfl⟩

theorem symm (h : Same first second) : Same second first := by
  obtain ⟨journal, rfl⟩ := h
  exact ⟨first.journal, rfl⟩

theorem trans (h : Same first second) (h' : Same second third) : Same first third := by
  obtain ⟨journal, rfl⟩ := h
  obtain ⟨journal', rfl⟩ := h'
  exact ⟨journal', rfl⟩

theorem store (h : Same first second) : first.store = second.store := by
  obtain ⟨journal, rfl⟩ := h
  rfl

theorem withJournal (h : Same first second) (journal journal' : Journal) :
    Same { first with journal } { second with journal := journal' } := by
  obtain ⟨_, rfl⟩ := h
  exact ⟨journal', rfl⟩

theorem note (h : Same first second) {level level' : Journal.Level} {message message' : String}
    {fields fields' : List (String × Octets)} :
    Same (first.note level message fields) (second.note level' message' fields') :=
  h.withJournal _ _

theorem noteEach (h : Same first second) {α β : Type} {items : List α} {items' : List β}
    {level level' : Journal.Level} {message message' : String}
    {fields : α → List (String × Octets)} {fields' : β → List (String × Octets)} :
    Same (first.noteEach items level message fields)
      (second.noteEach items' level' message' fields') := by
  have hfirst : Same first (first.noteEach items level message fields) :=
    first.noteEach_eq items level message fields
  have hsecond : Same second (second.noteEach items' level' message' fields') :=
    second.noteEach_eq items' level' message' fields'
  exact hfirst.symm.trans (h.trans hsecond)

theorem refreshGauge (h : Same first second) : Same first.refreshGauge second.refreshGauge := by
  obtain ⟨journal, rfl⟩ := h
  exact ⟨journal, rfl⟩

theorem onStore (h : Same first second) {α : Type} (operation : Store → α × Store) :
    Agree Eq Same (first.onStore operation) (second.onStore operation) := by
  obtain ⟨journal, rfl⟩ := h
  exact ⟨rfl, journal, rfl⟩

theorem evictCorrupt (h : Same first second) (key value reason : Octets) :
    Agree Eq Same (first.evictCorrupt key value reason) (second.evictCorrupt key value reason) := by
  obtain ⟨journal, rfl⟩ := h
  refine ⟨rfl, ?_⟩
  by_cases hheld : (first.store.invalidateIf key value).1 = true <;>
    simp only [Cache.evictCorrupt, Cache.onStore, hheld] <;> exact ⟨_, rfl⟩

theorem find (h : Same first second) (key : Octets) :
    Agree Eq Same (first.find key) (second.find key) := by
  obtain ⟨journal, rfl⟩ := h
  cases hread : (first.store.get key).1 with
  | none =>
    simp only [Cache.find, Cache.onStore, hread]
    exact ⟨rfl, journal, rfl⟩
  | some value =>
    cases hvalue : StoredIds.decode value with
    | ok detectors =>
      simp only [Cache.find, Cache.onStore, hread, hvalue]
      exact ⟨rfl, journal, rfl⟩
    | error malformed =>
      have hsame : Same { first with store := (first.store.get key).2 }
          { first with store := (first.store.get key).2, journal } := ⟨journal, rfl⟩
      obtain ⟨-, journal', hevicted⟩ := hsame.evictCorrupt key value malformed.message
      simp only [Cache.find, Cache.onStore, hread, hvalue, hevicted]
      exact ⟨rfl, journal', rfl⟩

theorem get (h : Same first second) (key : Octets) :
    Agree Eq Same (first.get key) (second.get key) :=
  ⟨congrArg (·.getD []) (h.find key).answer, (h.find key).state⟩

theorem put (h : Same first second) (key : Octets) {detectors detectors' : List Detector}
    (hvalid : Detector.valid detectors = Detector.valid detectors') :
    Same (first.put key detectors) (second.put key detectors') := by
  obtain ⟨journal, rfl⟩ := h
  obtain ⟨_, hfirst⟩ := first.put_eq key detectors
  obtain ⟨_, hsecond⟩ := ({ first with journal } : Cache).put_eq key detectors'
  rw [hfirst, hsecond, hvalid]
  exact ⟨_, rfl⟩

theorem putEncoded (h : Same first second) (entries : List Entry) :
    Same (first.putEncoded entries) (second.putEncoded entries) := by
  obtain ⟨journal, rfl⟩ := h
  exact ⟨journal, rfl⟩

theorem remove (h : Same first second) (keys : List Octets) :
    Agree Eq Same (first.remove keys) (second.remove keys) := by
  obtain ⟨hcount, hsame⟩ := h.onStore (·.invalidateAll keys)
  exact ⟨hcount, hsame.refreshGauge⟩

theorem purge (h : Same first second) : Agree Eq Same first.purge second.purge := by
  obtain ⟨hcount, hsame⟩ := h.onStore Store.purge
  exact ⟨hcount, hsame.refreshGauge⟩

theorem advance (h : Same first second) (nanoseconds : Int) :
    Same (first.advance nanoseconds) (second.advance nanoseconds) := by
  obtain ⟨journal, rfl⟩ := h
  exact ⟨journal, rfl⟩

theorem evictAll (h : Same first second) (reason : Octets) (entries : List Entry) :
    Agree Eq Same (Pass.evictAll first reason entries) (Pass.evictAll second reason entries) := by
  induction entries generalizing first second with
  | nil => exact ⟨rfl, h⟩
  | cons entry entries ih =>
    obtain ⟨hone, hsame⟩ := h.evictCorrupt entry.1 entry.2 reason
    obtain ⟨hothers, hlast⟩ := ih hsame
    refine ⟨?_, hlast⟩
    rw [Pass.evictAll, Pass.evictAll, hone, hothers]

end Same

end Cache

end DetectorCache
