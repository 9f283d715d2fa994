import WhaleIntelligence.Recent.ResolverAlias
import WhaleIntelligence.Recent.ResolverOrder
import WhaleIntelligence.Recent.ResolverSound
import WhaleIntelligence.Recent.EventKeys
import WhaleIntelligence.Recent.Store
import WhaleIntelligence.Recent.Pipeline
import WhaleIntelligence.Recent.CoverageChain
import WhaleIntelligence.Recent.Publication
import WhaleIntelligence.Recent.Projection
import WhaleIntelligence.Wallet.FifoIsolation
import WhaleIntelligence.Wallet.ScoringAgreement
import WhaleIntelligence.Workers.RobinhoodLoop
import WhaleIntelligence.Signals.OutboxSafety
import WhaleIntelligence.Signals.EvalClaims
import WhaleIntelligence.Radar.Timing
import WhaleIntelligence.Radar.Redelivery
import WhaleIntelligence.Radar.StageOrder
import WhaleIntelligence.Admin.Tenancy
import WhaleIntelligence.Graph.ClusterRuns
import WhaleIntelligence.Migrations.Current
import WhaleIntelligence.Migrations.CaseRepair
import WhaleIntelligence.Telegram.Mentions
import WhaleIntelligence.Telegram.PollRuns
import WhaleIntelligence.Telegram.ClaimContexts
import WhaleIntelligence.Recent.DependencyGroups
import WhaleIntelligence.Narrative.Stages
import WhaleIntelligence.Narrative.Confidence
import WhaleIntelligence.Wallet.SellSplit
import WhaleIntelligence.Chains.Hex
import WhaleIntelligence.Chains.Normalize
import WhaleIntelligence.Chains.Lossless
import WhaleIntelligence.Admin.Login
import WhaleIntelligence.Helius.RateBound
import WhaleIntelligence.Helius.History
import WhaleIntelligence.Signals.OutboxLiveness
import WhaleIntelligence.Signals.GateAgreement
import WhaleIntelligence.Migrations.LegacyOwners
import WhaleIntelligence.Recent.Retractions
import WhaleIntelligence.Recent.Strengthening
import WhaleIntelligence.Recent.FactoryExclusion
import WhaleIntelligence.Signals.Dispositions
import WhaleIntelligence.Radar.Refunding
import WhaleIntelligence.Helius.WalletAge
import WhaleIntelligence.Helius.EdgeOwnership
import WhaleIntelligence.Graph.Evidence
import WhaleIntelligence.Helius.EventKeys
import WhaleIntelligence.Helius.Counts
import WhaleIntelligence.Telegram.UrlScan
import WhaleIntelligence.Telegram.MintMentions
import WhaleIntelligence.Telegram.ChannelRuns
import WhaleIntelligence.Telegram.Edits
import WhaleIntelligence.Helius.Breaker
import WhaleIntelligence.Gmgn.Bucket
import WhaleIntelligence.Signals.Automatic
import WhaleIntelligence.Narrative.Evidence
import WhaleIntelligence.Sources.Selection
import WhaleIntelligence.Portfolio.Components
import WhaleIntelligence.Decision.Evaluate
import WhaleIntelligence.Recent.Social
import WhaleIntelligence.Wallet.Intelligence
import WhaleIntelligence.Admin.Timeline
import WhaleIntelligence.Ingest.Idempotency
import WhaleIntelligence.Radar.Starvation
import WhaleIntelligence.Signals.DueTokens
import WhaleIntelligence.Lib.Walks
import WhaleIntelligence.Lib.Checks
import WhaleIntelligence.Execution.Workspaces
import WhaleIntelligence.Execution.Autonomy
import WhaleIntelligence.Lifecycle.Stages
import WhaleIntelligence.Maintenance.RetentionRuns
import WhaleIntelligence.Workers.Queues
import WhaleIntelligence.Admin.Labels
import WhaleIntelligence.Signals.EntryRuns
import WhaleIntelligence.Admin.Settings
import WhaleIntelligence.Signals.Replay
import WhaleIntelligence.Workers.Discovery
