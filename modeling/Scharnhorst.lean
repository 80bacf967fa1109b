import Scharnhorst.Atomic
import Scharnhorst.History
import Scharnhorst.Submissions
import Scharnhorst.Retry
import Scharnhorst.Publication
import Scharnhorst.Committed
import Scharnhorst.Restore
import Scharnhorst.Visible
import Scharnhorst.KeyIndex
import Scharnhorst.Replay
import Scharnhorst.Driver
import Scharnhorst.LoadOrder
import Scharnhorst.Retention
import Scharnhorst.SaveRecords
import Scharnhorst.Damaged
import Scharnhorst.AuthorityOnly
import Scharnhorst.FailedWrites
import Scharnhorst.MigrationPaths
import Scharnhorst.LoadedTiers
import Scharnhorst.CompiledRows
import Scharnhorst.Acceptance
import Scharnhorst.CheckpointRuns
import Scharnhorst.Lockstep
import Scharnhorst.Delivery
import Scharnhorst.SchemaRuns
import Scharnhorst.SelfContained
import Scharnhorst.PhaseOrder
import Scharnhorst.OneTick
import Scharnhorst.Phases
import Scharnhorst.ScopeJumps
import Scharnhorst.Decimal
import Scharnhorst.FixedPoint
import Scharnhorst.FixedPointOrder
import Scharnhorst.FixedPointArith
import Scharnhorst.FixedPointText
import Scharnhorst.JumpOrder
import Scharnhorst.PatchedCells
import Scharnhorst.Binary64
import Scharnhorst.IntegerCells
import Scharnhorst.Evaluation
import Scharnhorst.EntryOrder
import Scharnhorst.Slices
import Scharnhorst.SqlParser
import Scharnhorst.SqlText
import Scharnhorst.SqlTotal
import Scharnhorst.KeyHistory
import Scharnhorst.Effects
import Scharnhorst.EffectRuns
import Scharnhorst.Overrides
import Scharnhorst.Recency
import Scharnhorst.Prefetch
import Scharnhorst.Binary64Casts
import Scharnhorst.PublishedCells
import Scharnhorst.Blocks
import Scharnhorst.WriteBack
import Scharnhorst.Materialization
import Scharnhorst.MergedView
import Scharnhorst.Readable
import Scharnhorst.Separators
import Scharnhorst.SqlRows
import Scharnhorst.SqlGuard
import Scharnhorst.SqlWriting
import Scharnhorst.SqlReading
import Scharnhorst.SqlRoundTrip
import Scharnhorst.BatchFaults
import Scharnhorst.PatchRows
import Scharnhorst.RegisteredTypes
import Scharnhorst.DecimalText
import Scharnhorst.IndexKeys
import Scharnhorst.IpcStreams
import Scharnhorst.ModifierRounding
import Scharnhorst.RelationKeys
import Scharnhorst.ThreeColors
import Scharnhorst.CycleDetection
import Scharnhorst.MigrationChains
import Scharnhorst.ColumnIndex
import Scharnhorst.MigrationFrame
import Scharnhorst.RngStreams
import Scharnhorst.MultiplyShift
import Scharnhorst.BoundedDraws
import Scharnhorst.Delimited
import Scharnhorst.FingerprintTexts
import Scharnhorst.ModTolerance
import Scharnhorst.Overlay
import Scharnhorst.StableSort
import Scharnhorst.OverlayArithmetic
import Scharnhorst.NameIds
import Scharnhorst.EntityLinks
import Scharnhorst.EntityRows
import Scharnhorst.EntitiesFollow
import Scharnhorst.DiffPanel
import Scharnhorst.DiffStream
import Scharnhorst.EntitySync
import Scharnhorst.InspectorPages
import Scharnhorst.PagePartition
import Scharnhorst.Triples
import Scharnhorst.RuleKinds
import Scharnhorst.EffectKinds
import Scharnhorst.Simulation
import Scharnhorst.Approximation
import Scharnhorst.RuleArithmetic
import Scharnhorst.Traces
import Scharnhorst.RuleOrder
import Scharnhorst.KeyedSets
import Scharnhorst.DebugWrites
import Scharnhorst.SqlSessions
import Scharnhorst.Replicas
import Scharnhorst.RedoLog
import Scharnhorst.RepeatableReads
import Scharnhorst.Scans
import Scharnhorst.ClientViews
import Scharnhorst.Shelves
import Scharnhorst.SaveDirectory
import Scharnhorst.AcceptedFiles
import Scharnhorst.RuleProofs
