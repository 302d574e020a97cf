import DetectorCache.Json.Quoted
import DetectorCache.Lookup

set_option autoImplicit false

namespace DetectorCache

open Octets (ascii)

structure Counters where
  hits : Nat
  misses : Nat
  size : Nat
  corruptEvictions : Nat
  resolutions : Nat
  resolutionErrors : Nat
  deriving DecidableEq

namespace Counters

def ofFront {σ : Type} (front : Front σ) : Counters where
  hits := front.cache.hits
  misses := front.cache.misses
  size := front.cache.sizeGauge
  corruptEvictions := front.cache.corruptEvictions
  resolutions := front.resolutions
  resolutionErrors := front.resolutionErrors

def named (c : Counters) : List (Octets × Nat) :=
  [(ascii "cache.hit", c.hits), (ascii "cache.miss", c.misses), (ascii "cache.size", c.size),
    (ascii "cache.corrupt_evictions", c.corruptEvictions),
    (ascii "resolver.resolutions", c.resolutions), (ascii "resolver.errors", c.resolutionErrors)]

def json (c : Counters) : Octets :=
  ascii "\x7b" ++ Octets.joined [Octets.comma]
    (c.named.map fun e => Json.quote e.1 ++ Octets.colon :: Octets.decimal e.2) ++ ascii "\x7d"

end Counters

end DetectorCache
