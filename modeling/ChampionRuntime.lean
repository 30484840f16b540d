import ChampionRuntime.Lib.Pool
import ChampionRuntime.Receipts.SourceIdentity
import ChampionRuntime.Publication.Reachability
import ChampionRuntime.Publication.AttemptPolicy
import ChampionRuntime.Publication.IdentityChain
import ChampionRuntime.Publication.SigningWorkflow
import ChampionRuntime.Launch.Remote
import ChampionRuntime.Closure.OverlayAgreement
import ChampionRuntime.Launch.Authorization
import ChampionRuntime.Licensing.Origins
import ChampionRuntime.Licensing.CheckAgreement
import ChampionRuntime.Licensing.Truncation
import ChampionRuntime.Scheduler.LongPrefillSelection
import ChampionRuntime.Scheduler.UniformBatch
import ChampionRuntime.Indexer.Collectives
import ChampionRuntime.Indexer.Scratch
import ChampionRuntime.Indexer.Profile
import ChampionRuntime.Decoding.GraphSelection
import ChampionRuntime.Decoding.DraftBuffer
import ChampionRuntime.Decoding.LadderAgreement
import ChampionRuntime.Decoding.ObservationWindow
import ChampionRuntime.Memory.AllocatorCeiling
import ChampionRuntime.Receipts.SecretKeys
import ChampionRuntime.Benchmark.Thresholds
import ChampionRuntime.Benchmark.ClientFailure
import ChampionRuntime.Artifacts.EvidenceFiles
import ChampionRuntime.Artifacts.FleetModelFiles
import ChampionRuntime.Scheduler.DepthWindow
import ChampionRuntime.Indexer.TwoLevelFold
import ChampionRuntime.Indexer.FoldSelection
import ChampionRuntime.Scheduler.AcceptanceAccounting
import ChampionRuntime.Decoding.GraphLayering
import ChampionRuntime.Benchmark.PromptSizing
import ChampionRuntime.Benchmark.Exposition
import ChampionRuntime.Scans.LargeFiles
import ChampionRuntime.Scans.SecretVerdict
import ChampionRuntime.Correctness.ComparisonSound
import ChampionRuntime.Launch.StopOutcome
import ChampionRuntime.Launch.MemoryGates
import ChampionRuntime.Licensing.ClassificationLookup
import ChampionRuntime.Indexer.ScratchViews
import ChampionRuntime.Indexer.RadixExact
import ChampionRuntime.Licensing.Commits
import ChampionRuntime.Scheduler.TokenBudget
