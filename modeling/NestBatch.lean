import NestBatch.Lib.Wp
import NestBatch.Effects
import NestBatch.Flow.Evaluator
import NestBatch.Lib.Scoped
import NestBatch.Execution.Listeners
import NestBatch.Execution.Policies
import NestBatch.Execution.ChunkStep
import NestBatch.Execution.JobExecutor
import NestBatch.Core.Validation
import NestBatch.Execution.JobLauncher
import NestBatch.Transport.Routing
import NestBatch.Execution.Footprint
import NestBatch.Execution.Checkpoint
import NestBatch.Execution.CheckpointSafety
import NestBatch.Execution.Replay
import NestBatch.Execution.ListEnvironment
import NestBatch.Transport.Agreement
import NestBatch.Execution.StepFootprint
import NestBatch.Execution.ResumeStep
import NestBatch.Repository.StepRows
import NestBatch.Execution.ResumeJob
import NestBatch.Execution.JobFootprint
import NestBatch.Execution.ResumeHistory
import NestBatch.Lib.Pool
import NestBatch.Sql.ReadCommitted
import NestBatch.Sql.LaunchGuard
import NestBatch.Sql.GuardPhases
import NestBatch.Sql.GuardInvariant
import NestBatch.Sql.GuardExclusion
import NestBatch.Execution.JobOutcome
import NestBatch.Sql.StepTable
import NestBatch.Execution.LaunchSettles
import NestBatch.Execution.EventTrace
import NestBatch.Execution.EventBrackets
import NestBatch.Transport.QueueEvents
import NestBatch.Execution.StepLoopWalk
import NestBatch.Execution.ContextCopy
import NestBatch.Execution.ItemSaves
import NestBatch.Execution.ScriptedReader
import NestBatch.Execution.DrainPosition
import NestBatch.Lib.Lockstep
import NestBatch.Sql.TypeOrmDatabase
import NestBatch.Sql.RepositoryAgreement
import NestBatch.Io.Checkpoint
import NestBatch.Io.S3
import NestBatch.Lib.Transfer
import NestBatch.Io.S3Transfer
import NestBatch.Execution.S3Environment
import NestBatch.Execution.S3Step
import NestBatch.Execution.S3Loop
import NestBatch.Execution.S3Job
import NestBatch.Execution.S3History
import NestBatch.Lib.Machine
import NestBatch.Schedule.InProcess
import NestBatch.Schedule.OverlapPolicy
import NestBatch.Execution.OwnSteps
import NestBatch.Transport.FanOut
import NestBatch.Execution.StepsSettled
import NestBatch.Repository.InstanceKeys
import NestBatch.Schedule.Bullmq
import NestBatch.Schedule.Kafka
import NestBatch.Schedule.SkippedFires
import NestBatch.Execution.CallLog
import NestBatch.Execution.LoopRules
import NestBatch.Execution.ItemAccounts
import NestBatch.Execution.SkipBudget
import NestBatch.Execution.PlainStep
import NestBatch.Execution.ChunkSizes
import NestBatch.Execution.InputExhausted
import NestBatch.Flow.UnitEvaluator
import NestBatch.Lib.Pieces
import NestBatch.Lib.RegExp
import NestBatch.Flow.Patterns
import NestBatch.Core.GraphRules
import NestBatch.Core.JobBuilder
import NestBatch.Execution.StatusRouting
import NestBatch.Execution.PolicyAgreement
import NestBatch.Execution.RetryAttempts
import NestBatch.Execution.AfterStepNotice
import NestBatch.Execution.StreamClosing
import NestBatch.Lib.Congruence
import NestBatch.Execution.ListenerExchange
import NestBatch.Execution.NonCritical
import NestBatch.Lib.Feed
import NestBatch.Io.JsonlReaders
import NestBatch.Execution.UnskippedReads
import NestBatch.Execution.RetriedReads
import NestBatch.Core.FlowBuilder
import NestBatch.Core.DiscoveredJob
import NestBatch.Lib.JsHeap
import NestBatch.Core.JsonSerializable
import NestBatch.Sql.PrismaUpdates
import NestBatch.Execution.RestartResidue
import NestBatch.Core.StepBuilder
import NestBatch.Execution.StepListeners
import NestBatch.Lib.Delimited
import NestBatch.Io.CsvFiles
import NestBatch.Io.CsvLines
import NestBatch.Io.CsvRoundTrip
import NestBatch.Io.CsvHeader
import NestBatch.Lib.JsonText
import NestBatch.Lib.JsTree
import NestBatch.Repository.SavedContexts
import NestBatch.Execution.JobKey
import NestBatch.Execution.HeaderProtocol
import NestBatch.Execution.CsvEnvironment
import NestBatch.Execution.CsvRuns
import NestBatch.Execution.PartitionRanges
import NestBatch.Execution.PartitionSlices
import NestBatch.Repository.InstanceIdentity
import NestBatch.Schedule.QueuedTicks
import NestBatch.Schedule.KafkaInterval
import NestBatch.Execution.WorkerArgs
import NestBatch.Lib.JsInteger
import NestBatch.Webhook.Signing
import NestBatch.Webhook.Delivery
import NestBatch.Io.LineFiles
import NestBatch.Io.JsonlFiles
import NestBatch.Execution.JsonlAgreement
import NestBatch.Lib.Resume
import NestBatch.Lib.Paged
import NestBatch.Io.ContextJson
import NestBatch.Io.Database
import NestBatch.Io.StreamReaders
import NestBatch.Transport.Redelivery
import NestBatch.Execution.OwnContexts
import NestBatch.Transport.PartitionOutcomes
import NestBatch.Execution.StepPath
import NestBatch.Transport.Downstream
import NestBatch.Lib.Sessions
import NestBatch.Repository.Integrity
import NestBatch.Repository.ActiveRows
import NestBatch.Execution.RunFootprint
import NestBatch.Transport.Site
import NestBatch.Transport.SiteRules
import NestBatch.Transport.ActiveExecutions
import NestBatch.Transport.SiteRecords
import NestBatch.Transport.RunsBegun
import NestBatch.Transport.LaunchOnce
import NestBatch.Transport.AtRest
import NestBatch.Transport.ClosedExecutions
import NestBatch.Execution.StepLedger
import NestBatch.Execution.RunLedger
import NestBatch.Execution.LedgerRight
import NestBatch.Execution.TakenOver
import NestBatch.Execution.KeptRecords
import NestBatch.Execution.RestartHistory
import NestBatch.Transport.SiteLedgers
import NestBatch.Transport.SiteCheckpoints
import NestBatch.Lib.Beside
import NestBatch.Transport.SiteCloses
import NestBatch.Transport.SiteViews
import NestBatch.Sql.UpdateStatements
import NestBatch.Lib.Utf16
import NestBatch.Transport.ExternalTask
import NestBatch.Transport.Alike
import NestBatch.Transport.Handover
import NestBatch.Transport.Strategies
