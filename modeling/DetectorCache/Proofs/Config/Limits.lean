import DetectorCache.Config
import DetectorCache.Document
import DetectorCache.Proofs.Store.Slots
/-!
The numbers of an accepted configuration. The count of shards is held to its range. A duration may
be any positive number below 2^64, but milliseconds are kept in signed 64 bits and a lifetime is
compared in nanoseconds: what can be counted all the way ends at 9223372036854 ms, and longer
durations are not refused.
-/
set_option autoImplicit false

namespace DetectorCache

theorem Store.get_put_at_once {store : Store} {key value : Octets}
    (h : (store.put key value).tick.now = (store.put key value).now) :
    ((store.put key value).get key).1 = if 0 < store.lifetime then some value else none := by
  rw [Store.fst_get, Store.liveSlot?_tick_put, unexpired_some, h, Int.sub_self]
  split <;> rfl

namespace Config

open Octets (ascii)

/-- An optional member states the number `n`, or leaves it at its default. -/
def States (member : Option Json) (default n : Nat) : Prop :=
  match member with
  | none => n = default
  | some value => value.unsigned? = some n

/-- The duration kept for an optional member that states `n` milliseconds. -/
structure Duration (member : Option Json) (default n : Nat) (kept : Int) : Prop where
  stated : States member default n
  pos : 0 < n
  lt : n < 18446744073709551616
  kept_eq : kept = wrap64 n

theorem duration_of_positiveMilliseconds {parent : Json} {name path : Octets} {default : Nat}
    {kept : Int} (hpos : 0 < default) (hlt : default < 9223372036854775808)
    (h : positiveMilliseconds parent name path default = .ok kept) :
    ∃ n, Duration (parent.member? name) default n kept := by
  rw [positiveMilliseconds] at h
  split at h
  · next habsent =>
    cases h
    have hkept : (default : Int) = wrap64 default := (wrap64_eq_self_iff.mpr (by omega)).symm
    exact ⟨default, by rw [habsent]; rfl, hpos, by omega, hkept⟩
  · next value hvalue =>
    split at h
    · cases h
    · next n hn =>
      split at h
      · cases h
      · next hzero =>
        have hkept := (Except.ok.inj h).symm
        exact ⟨n, by rw [hvalue]; exact hn, Nat.pos_of_ne_zero hzero, Json.unsigned?_lt hn, hkept⟩

namespace Duration

variable {member : Option Json} {default n : Nat} {kept : Int}

theorem pos_iff (h : Duration member default n kept) :
    0 < kept ↔ n < 9223372036854775808 := by
  have hpos := h.pos
  have hlt := h.lt
  rw [h.kept_eq, wrap64, Int.bmod_def]
  omega

theorem countable_iff (h : Duration member default n kept) :
    0 < kept ∧ kept * 1000000 < 9223372036854775808 ↔ n ≤ 9223372036854 := by
  have hpos := h.pos
  have hlt := h.lt
  rw [h.kept_eq, wrap64, Int.bmod_def]
  omega

theorem nanoseconds_eq (h : Duration member default n kept) :
    Store.nanoseconds kept = wrap64 (n * 1000000) := by
  rw [h.kept_eq]
  simp only [Store.nanoseconds, wrap64, Int.bmod_mul_bmod]

end Duration

theorem shardCount_of_json {cache : Json} {default count : Nat}
    (hdefault : 1 ≤ default ∧ default ≤ maxShardCount)
    (h : shardCountOfJson cache default = .ok count) : 1 ≤ count ∧ count ≤ maxShardCount := by
  rw [shardCountOfJson] at h
  split at h
  · cases h
    exact hdefault
  · split at h
    · cases h
    · split at h
      · cases h
      · cases h
        omega

theorem sections_of_json {root : Json} {config : Config} (h : ofJson root = .ok config) :
    cacheOfJson root {} = .ok (config.lifetime, config.shardCount) ∧
      positiveMilliseconds root (ascii "refresh_interval_ms") (ascii "refresh_interval_ms") 60000 =
        .ok config.refreshInterval := by
  cases root with
  | object members =>
    obtain ⟨-, -, h⟩ := Document.bind_eq_ok_iff.mp h
    obtain ⟨cache, hcache, h⟩ := Document.bind_eq_ok_iff.mp h
    obtain ⟨interval, hinterval, h⟩ := Document.bind_eq_ok_iff.mp h
    obtain ⟨threshold, -, h⟩ := Document.bind_eq_ok_iff.mp h
    cases h
    exact ⟨hcache, hinterval⟩
  | _ => cases h

theorem limits_of_cacheOfJson {root : Json} {lifetime : Int} {shardCount : Nat}
    (h : cacheOfJson root {} = .ok (lifetime, shardCount)) :
    (∃ n, Duration ((root.member? (ascii "cache")).bind (·.member? (ascii "ttl_ms"))) 7200000 n
      lifetime) ∧ 1 ≤ shardCount ∧ shardCount ≤ maxShardCount := by
  rw [cacheOfJson] at h
  split at h
  · next habsent =>
    cases h
    rw [habsent]
    exact ⟨⟨7200000, rfl, by decide, by decide, by decide⟩, by decide, by decide⟩
  · next members hcache =>
    obtain ⟨-, -, h⟩ := Document.bind_eq_ok_iff.mp h
    obtain ⟨milliseconds, hmilliseconds, h⟩ := Document.bind_eq_ok_iff.mp h
    obtain ⟨count, hcount, h⟩ := Document.bind_eq_ok_iff.mp h
    cases h
    rw [hcache]
    exact ⟨duration_of_positiveMilliseconds (by decide) (by decide) hmilliseconds,
      shardCount_of_json (by decide) hcount⟩
  · cases h

/-- What the numbers of an accepted configuration can be. Durations are positive numbers below 2^64
as the document states them; they are positive as kept only below 2^63, and a lifetime stays
countable in nanoseconds up to 9223372036854 ms. A store of the configuration finds an entry at the
time it was written exactly if the nanoseconds have not wrapped around to a number that is not
positive. -/
theorem limits_of_accepted {text : Octets} {config : Config}
    (h : Document.ofText ofJson text = .ok config) :
    ∃ (root : Json) (lifetime interval : Nat), Json.parse text = .ok root ∧
      Duration ((root.member? (ascii "cache")).bind (·.member? (ascii "ttl_ms"))) 7200000 lifetime
        config.lifetime ∧
      Duration (root.member? (ascii "refresh_interval_ms")) 60000 interval
        config.refreshInterval ∧
      (0 < config.lifetime ↔ lifetime < 9223372036854775808) ∧
      (0 < config.refreshInterval ↔ interval < 9223372036854775808) ∧
      (0 < config.lifetime ∧ config.lifetime * 1000000 < 9223372036854775808 ↔
        lifetime ≤ 9223372036854) ∧
      (1 ≤ config.shardCount ∧ config.shardCount ≤ 4096) ∧
      ∀ (clock : Clock) (hash : Octets → Nat) (requests : List Store.Request)
        (key value : Octets),
        let store :=
          (Store.create config.lifetime config.shardCount clock hash).serveAll requests
        let written := store.put key value
        written.tick.now = written.now →
          (written.get key).1 =
              (if 0 < wrap64 (lifetime * 1000000) then some value else none) ∧
            (lifetime ≤ 9223372036854 → (written.get key).1 = some value) := by
  obtain ⟨root, hroot, h⟩ := Document.ofText_eq_ok_iff.mp h
  obtain ⟨hcache, hinterval⟩ := sections_of_json h
  obtain ⟨⟨lifetime, hlifetime⟩, hcount⟩ := limits_of_cacheOfJson hcache
  obtain ⟨interval, hinterval⟩ :=
    duration_of_positiveMilliseconds (by decide) (by decide) hinterval
  refine ⟨root, lifetime, interval, hroot, hlifetime, hinterval, hlifetime.pos_iff,
    hinterval.pos_iff, hlifetime.countable_iff, hcount, ?_⟩
  intro clock hash requests key value store written hnow
  have hstore : store.lifetime = wrap64 (lifetime * 1000000) :=
    (Store.lifetime_serveAll _ requests).trans hlifetime.nanoseconds_eq
  have hget := Store.get_put_at_once hnow
  rw [hstore] at hget
  refine ⟨hget, fun hcountable => hget.trans (if_pos ?_)⟩
  have hpos := hlifetime.pos
  rw [wrap64_eq_self_iff.mpr (by omega)]
  omega

theorem limits_of_greatest :
    let text := ascii "\x7b\"cache\":\x7b\"ttl_ms\":9223372036854,\"shard_count\":4096\x7d\x7d"
    let config : Config := { lifetime := 9223372036854, shardCount := 4096 }
    let written := (Store.create 9223372036854 4096 {}).put (ascii "k") (ascii "v")
    Document.ofText ofJson text = .ok config ∧ written.tick.now = written.now ∧
      (written.get (ascii "k")).1 = some (ascii "v") := by
  intro text config written
  have haccepted : Document.ofText ofJson text = .ok config :=
    Document.eq_ok_of_toOption (by decide +kernel)
  obtain ⟨root, lifetime, interval, -, -, -, -, -, hcountable, -, hserved⟩ :=
    limits_of_accepted haccepted
  have hlifetime : lifetime ≤ 9223372036854 := hcountable.mp (by decide)
  exact ⟨haccepted, rfl, (hserved {} fnv1a [] (ascii "k") (ascii "v") rfl).2 hlifetime⟩

/-- Durations of 2^63 ms are accepted and kept as negative ones. A lifetime of one millisecond more
than can be counted is accepted too, and a store with it misses what it has just been given. -/
theorem limits_not_enforced :
    let negative := ascii "\x7b\"cache\":\x7b\"ttl_ms\":9223372036854775808\x7d\x7d"
    let period := ascii "\x7b\"refresh_interval_ms\":9223372036854775808\x7d"
    let uncountable := ascii "\x7b\"cache\":\x7b\"ttl_ms\":9223372036855\x7d\x7d"
    let written := (Store.create 9223372036855 16 {}).put (ascii "k") (ascii "v")
    Document.ofText ofJson negative = .ok { lifetime := -9223372036854775808 } ∧
      Document.ofText ofJson period = .ok { refreshInterval := -9223372036854775808 } ∧
      Document.ofText ofJson uncountable = .ok { lifetime := 9223372036855 } ∧
      ¬ (9223372036855 * 1000000 : Int) < 9223372036854775808 ∧
      written.tick.now = written.now ∧ (written.get (ascii "k")).1 = none := by
  intro negative period uncountable written
  have hnegative : (Document.ofText ofJson negative).toOption =
      some { lifetime := -9223372036854775808 } := by decide +kernel
  have hperiod : (Document.ofText ofJson period).toOption =
      some { refreshInterval := -9223372036854775808 } := by decide +kernel
  have huncountable : (Document.ofText ofJson uncountable).toOption =
      some { lifetime := 9223372036855 } := by decide +kernel
  exact ⟨Document.eq_ok_of_toOption hnegative, Document.eq_ok_of_toOption hperiod,
    Document.eq_ok_of_toOption huncountable, by decide, rfl, by decide +kernel⟩

end Config

end DetectorCache
