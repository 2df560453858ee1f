import PostgressRs.Lib.ByteBuffer
import PostgressRs.Lib.Procedure
import PostgressRs.Lib.SortedSearch
import PostgressRs.Lib.Transitions
import PostgressRs.Lib.Utf8
import PostgressRs.Types
import PostgressRs.Storage.PageStore
import PostgressRs.Storage.SlottedPage
import PostgressRs.Storage.PageRoundTrip
import PostgressRs.Storage.PageContents
import PostgressRs.Storage.HotChains
import PostgressRs.BufferCache.PagePool
import PostgressRs.BufferCache.PoolInvariants
import PostgressRs.BufferCache.PinnedPool
import PostgressRs.BufferCache.SharedCache
import PostgressRs.Wal.LogRecord
import PostgressRs.Wal.WriteAheadLog
import PostgressRs.Wal.LogIntegrity
import PostgressRs.Wal.ConcurrentAppend
import PostgressRs.Wal.SegmentLayout
import PostgressRs.Wal.Recovery
import PostgressRs.Txn.TransactionTable
import PostgressRs.Txn.BeginInterleaving
import PostgressRs.Executor.HeapAccess
import PostgressRs.Executor.HeapSteps
import PostgressRs.Executor.HeapContents
import PostgressRs.Executor.HeapInvariant
import PostgressRs.Executor.InsertComplete
import PostgressRs.Executor.RelationIsolation
import PostgressRs.Executor.PooledScan
import PostgressRs.Executor.RowVersions
import PostgressRs.Executor.VacuumEffects
import PostgressRs.Executor.VersionChanges
import PostgressRs.Executor.SnapshotStability
import PostgressRs.Executor.UpdateConservation
import PostgressRs.Executor.FetchedVersions
import PostgressRs.Btree.IndexPage
import PostgressRs.Btree.PageCodec
import PostgressRs.Btree.TreeAccess
import PostgressRs.Btree.TreeShape
import PostgressRs.Btree.TreeSteps
import PostgressRs.Btree.SearchComplete
import PostgressRs.Server.StatementHandlers
import PostgressRs.Server.HandlerSteps
import PostgressRs.Server.TableRuns
import PostgressRs.Server.TransactionVisibility
import PostgressRs.Server.RepeatableReads
import PostgressRs.Wal.FlushBookkeeping
import PostgressRs.Txn.LockTable
import PostgressRs.Txn.LockSafety
import PostgressRs.Lib.Effects
import PostgressRs.Executor.HeapPrograms
import PostgressRs.Executor.WriteAheadRule
import PostgressRs.BufferCache.Checkpointer
import PostgressRs.BufferCache.RedoPoint
import PostgressRs.RelationCatalog
import PostgressRs.Server.Queries
import PostgressRs.Server.QueryHandlers
import PostgressRs.Server.Sessions
import PostgressRs.Server.Connections
import PostgressRs.Server.CommitDurability
import PostgressRs.Server.Responses
import PostgressRs.Server.FailedStatements
import PostgressRs.Server.ReadyForQuery
import PostgressRs.Server.DmlRows
import PostgressRs.Executor.IndexAccess
import PostgressRs.Btree.SinglePage
import PostgressRs.Btree.TwoReaders
import PostgressRs.Protocol.DecodeTotality
import PostgressRs.Txn.AdvisoryLocks
import PostgressRs.Txn.DeadlockDetection
import PostgressRs.BufferCache.BatchFetch
import PostgressRs.Executor.RecordSizes
import PostgressRs.Protocol.MessageEncoding
import PostgressRs.Protocol.StreamFraming
import PostgressRs.Protocol.BackendDecoding
import PostgressRs.Protocol.ScramAuth
import PostgressRs.Server.TableNames
import PostgressRs.Sql.Tokenizer
import PostgressRs.Sql.LexerCoverage
import PostgressRs.Lib.TokenParser
import PostgressRs.Sql.Ast
import PostgressRs.Sql.TokenStream
import PostgressRs.Sql.ExprParser
import PostgressRs.Sql.SelectParser
import PostgressRs.Sql.StatementParser
import PostgressRs.Sql.ExprRegularity
import PostgressRs.Sql.StatementRegularity
import PostgressRs.Sql.StatementTermination
import PostgressRs.Sql.LeftoverTokens
import PostgressRs.Sql.ExprPrinter
import PostgressRs.Sql.ExprRoundTrip
import PostgressRs.Lib.DepthFirst
import PostgressRs.Txn.DeadlockExactness
import PostgressRs.Executor.PruneAgreement
import PostgressRs.Executor.RowRemoval
import PostgressRs.Executor.ValueCodec
import PostgressRs.Security.AccessControl
import PostgressRs.Security.RowSecurity
import PostgressRs.Sql.FromClauseRoundTrip
import PostgressRs.Storage.SpaceCheck
import PostgressRs.Executor.SetOperations
import PostgressRs.Sql.OperatorChains
import PostgressRs.Server.StatementSplitting
import PostgressRs.Executor.Evaluation
import PostgressRs.Executor.ThreeValuedLogic
import PostgressRs.Executor.Grouping
import PostgressRs.Executor.EvaluatorAgreement
import PostgressRs.Executor.BagOperations
import PostgressRs.Executor.GroupPartition
import PostgressRs.Executor.Joins
import PostgressRs.Executor.MergeJoin
import PostgressRs.Executor.HashJoin
import PostgressRs.Executor.JoinAgreement
import PostgressRs.Executor.SelectExecutor
import PostgressRs.Executor.UngroupedAggregates
import PostgressRs.Executor.ResultShape
import PostgressRs.Executor.JoinColumns
import PostgressRs.Executor.IndexScan
import PostgressRs.Server.IndexedQueries
import PostgressRs.Executor.RowOrder
import PostgressRs.Executor.BetweenBounds
import PostgressRs.Executor.LikePatterns
import PostgressRs.Executor.WindowValues
import PostgressRs.Executor.NtileBuckets
import PostgressRs.Executor.RankFunctions
import PostgressRs.Executor.DefaultDirection
import PostgressRs.Executor.WindowPartitions
import PostgressRs.Executor.CompositeKeys
import PostgressRs.Executor.KeyOrder
import PostgressRs.Btree.BrinIndex
import PostgressRs.Lib.Buckets
import PostgressRs.Btree.BrinPruning
import PostgressRs.Btree.BrinNulls
import PostgressRs.Btree.HashIndex
import PostgressRs.Btree.GinIndex
import PostgressRs.Btree.GinQueries
import PostgressRs.Executor.PartitionPruning
import PostgressRs.Storage.Toast
import PostgressRs.Executor.ParallelCalls
import PostgressRs.Lib.Lenses
import PostgressRs.Protocol.CopyData
import PostgressRs.Protocol.Cursor
import PostgressRs.Types.Jsonb
import PostgressRs.Types.JsonbUpdates
import PostgressRs.Types.JsonbDeletion
import PostgressRs.Lib.ShiftRegister
import PostgressRs.Wal.RecordCrc
import PostgressRs.BufferCache.ClockVictim
import PostgressRs.Storage.PageVisibility
import PostgressRs.Btree.SkipScan
import PostgressRs.Concurrency.LatchWaiters
import PostgressRs.Lib.TokenTexts
import PostgressRs.Types.TextSearch
import PostgressRs.Types.VectorInvariant
import PostgressRs.Types.PlainQueries
import PostgressRs.Types.QueryPrecedence
import PostgressRs.Types.JsonbContainment
import PostgressRs.Lib.KeyedViews
import PostgressRs.Lib.ReadBack
import PostgressRs.Protocol.ListenNotify
import PostgressRs.Server.ExtendedQueries
import PostgressRs.Server.PipelineAgreement
import PostgressRs.Sql.DmlRoundTrip
import PostgressRs.Executor.StorageAgreement
import PostgressRs.Executor.SelectValues
import PostgressRs.Executor.InsertedTables
import PostgressRs.Server.SqlStatements
import PostgressRs.Server.InsertedRows
import PostgressRs.Sql.TypeRoundTrip
