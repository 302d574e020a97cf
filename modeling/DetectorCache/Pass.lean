import DetectorCache.Cache
/-!
A pass over the cache decides on a snapshot of the live entries what has to change and applies the
changes afterwards. Between the two other work may go on, so a pass that has taken its snapshot is a
value of its own, which is finished on whatever the cache has become.
-/
set_option autoImplicit false

namespace DetectorCache

/-- How a pass starts: it has nothing to scan and reports at once, or it holds a snapshot. -/
inductive Pass (ρ π : Type) where
  | ended (report : ρ)
  | scanned (pending : π)

namespace Pass

def complete {ρ π κ : Type} (finish : π → κ → ρ × κ) (started : Pass ρ π × κ) : ρ × κ :=
  match started.1 with
  | .ended report => (report, started.2)
  | .scanned pending => finish pending started.2

def suspend {ρ π τ κ : Type} (wrap : π → τ) (started : Pass ρ π × κ) : Pass ρ τ × κ :=
  match started.1 with
  | .ended report => (.ended report, started.2)
  | .scanned pending => (.scanned (wrap pending), started.2)

def listed (texts : List Octets) : Octets := Octets.joined (Octets.ascii " | ") texts

/-- Removes corrupt entries one by one and counts those that still were what they had been. -/
def evictAll (cache : Cache) (reason : Octets) : List Entry → Nat × Cache
  | [] => (0, cache)
  | entry :: entries =>
    let first := cache.evictCorrupt entry.1 entry.2 reason
    let others := evictAll first.2 reason entries
    (first.1.toNat + others.1, others.2)

end Pass

end DetectorCache
