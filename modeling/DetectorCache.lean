import DetectorCache.Document.Folder
import DetectorCache.Main
import DetectorCache.Session
import DetectorCache.Proofs.Store.Live
import DetectorCache.Proofs.Store.Placement
import DetectorCache.Proofs.Store.Request
import DetectorCache.Proofs.Store.Held
import DetectorCache.Proofs.Store.Sweeping
import DetectorCache.Proofs.Store.Slots
import DetectorCache.Proofs.Store.Ledger
import DetectorCache.Proofs.CacheKey.RoundTrip
import DetectorCache.Proofs.CacheKey.Exactness
import DetectorCache.Proofs.Mapping.Active
import DetectorCache.Proofs.Delta.Sufficiency
import DetectorCache.Proofs.Cache.Effects
import DetectorCache.Proofs.Pass.Eviction
import DetectorCache.Proofs.Pass.Prune
import DetectorCache.Proofs.Pass.Cuts
import DetectorCache.Proofs.Lookup.Answers
import DetectorCache.Proofs.Refresh.Stages
import DetectorCache.Proofs.Refresh.Throughout
import DetectorCache.Proofs.Refresh.Coherence
import DetectorCache.Proofs.System.Reachable
import DetectorCache.Proofs.System.Traffic
import DetectorCache.Proofs.Pass.Encoded
import DetectorCache.Proofs.System.Encodings
import DetectorCache.Proofs.Pass.Contention
import DetectorCache.Proofs.Pass.Uninterrupted
import DetectorCache.Proofs.Refresh.Interleaving
import DetectorCache.Proofs.Refresh.Convergence
import DetectorCache.Proofs.Replay.Transparency
import DetectorCache.Proofs.System.Gauge
import DetectorCache.Proofs.Refresh.Repetition
import DetectorCache.Proofs.Json.Grammar
import DetectorCache.Proofs.Json.Numerals
import DetectorCache.Proofs.Json.Acceptance
import DetectorCache.Proofs.Pass.Affected
import DetectorCache.Proofs.Lookup.Readthrough
import DetectorCache.Proofs.Store.Sparing
import DetectorCache.Proofs.System.Endurance
import DetectorCache.Proofs.Mapping.Flattening
import DetectorCache.Proofs.StoredIds.Exactness
import DetectorCache.Proofs.Store.Representation
import DetectorCache.Proofs.Pass.Removals
import DetectorCache.Proofs.System.Accounting
import DetectorCache.Proofs.Config.Limits
import DetectorCache.Proofs.Json.Contents
import DetectorCache.Proofs.Replay.Plans
import DetectorCache.Proofs.Octets.Lines
import DetectorCache.Proofs.Journal.Recovery
import DetectorCache.Proofs.Replay.Transcripts
import DetectorCache.Proofs.CommandLine.Classification
import DetectorCache.Proofs.Mapping.LetterCase
import DetectorCache.Proofs.Cache.Agreement
import DetectorCache.Proofs.Pass.LetterCase
import DetectorCache.Proofs.Refresh.LetterCase
import DetectorCache.Proofs.System.LetterCase
import DetectorCache.Proofs.Binary64.Counts
import DetectorCache.Proofs.Counters.Readability
import DetectorCache.Proofs.Timestamp.Texts
