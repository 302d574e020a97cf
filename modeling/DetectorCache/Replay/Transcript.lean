import DetectorCache.Config
import DetectorCache.Counters
import DetectorCache.Refresh
import DetectorCache.Replay.Plan

set_option autoImplicit false

namespace DetectorCache.Replay

open Octets (ascii decimal)

inductive Line where
  | lookup (tags : Tags) (detectors : List Detector)
  | refresh (report : Refresh.Report)
  | counters (totals : Counters)

def Line.text : Line → Octets
  | .lookup tags detectors =>
    ascii "lookup key=" ++ CacheKey.encode tags ++ ascii " detectors=" ++
      Detector.joinedIds detectors
  | .refresh report =>
    ascii "refresh disabled=" ++ decimal report.newlyDisabled ++ ascii " changed=" ++
      decimal report.createdOrChanged ++ ascii " pruned=" ++ decimal report.prune.pruned ++
      ascii " evicted=" ++ decimal report.eviction.evicted.length ++
      ascii " skipped_mappings=" ++ decimal (report.prune.skipped + report.eviction.skipped)
  | .counters totals => ascii "stats " ++ totals.json

def transcript (lines : List Line) : Octets :=
  lines.flatMap fun line => line.text ++ [Octets.lineFeed]

def initialSystem (config : Config) (clock : Clock) (hash : Octets → Nat) (journal : Journal)
    (mappings : List Mapping) : System :=
  .fresh config.lifetime config.shardCount clock hash journal { mappings }

/-- Plays a step. A refresh publishes its mappings before the cycle runs. -/
def playStep (s : System) : Step → Line × System
  | .lookup tags =>
    let result := s.lookup tags
    (.lookup tags result.1, result.2)
  | .refresh mappings =>
    let result := Refresh.run mappings (s.publish mappings)
    (.refresh result.1, result.2)

def playSteps (s : System) : List Step → List Line × System
  | [] => ([], s)
  | step :: steps =>
    let first := playStep s step
    let others := playSteps first.2 steps
    (first.1 :: others.1, others.2)

/-- Plays a plan, with the keys of the cache spread over its shards by the given hash. -/
def run (plan : Plan) (config : Config) (clock : Clock) (journal : Journal)
    (hash : Octets → Nat := fnv1a) : List Line × System :=
  let primed := (initialSystem config clock hash journal plan.mappings).prime plan.mappings
  let started := primed.note .info "replay started"
    [("config", config.summary), ("steps", decimal plan.steps.length)]
  let played := playSteps started plan.steps
  (played.1 ++ [.counters (Counters.ofFront played.2.front)], played.2)

end DetectorCache.Replay
