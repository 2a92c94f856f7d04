import RootLake.Core.InputExpansion
import RootLake.Core.InputResolver
import RootLake.Dataset.BloomPruning
import RootLake.Dataset.CatalogRelations
import RootLake.Dataset.Clip
import RootLake.Dataset.Coalescing
import RootLake.Dataset.CountAgreement
import RootLake.Dataset.DoubleTransport
import RootLake.Dataset.EntrySelection
import RootLake.Dataset.EntrySelectionJson
import RootLake.Dataset.EventZonemap
import RootLake.Dataset.FilterExpression
import RootLake.Dataset.Filters
import RootLake.Dataset.IndexStatistics
import RootLake.Dataset.MetadataCount
import RootLake.Dataset.PathPredicates
import RootLake.Dataset.Plan
import RootLake.Dataset.PlanCoverage
import RootLake.Dataset.PredicateIntersection
import RootLake.Dataset.PredicatePruning
import RootLake.Dataset.ReserveRows
import RootLake.Dataset.RowLimit
import RootLake.Dataset.ScalarActual
import RootLake.Dataset.Scan
import RootLake.Dataset.ScanExactlyOnce
import RootLake.Dataset.ScanTrace
import RootLake.Dataset.Schedule
import RootLake.Dataset.SharedScan
import RootLake.Dataset.Task
import RootLake.Dataset.Zonemap
import RootLake.Dataset.ZonemapClause
import RootLake.Direct.CachedPage
import RootLake.Direct.Discovery
import RootLake.Direct.EntryPruning
import RootLake.Direct.EntryScheduler
import RootLake.Direct.FileScheduler
import RootLake.Direct.IndexColumns
import RootLake.Direct.IndexRows
import RootLake.Direct.RowFilterPartition
import RootLake.Iceberg.CatalogReader
import RootLake.Iceberg.CommittedGenerations
import RootLake.Iceberg.PathLineage
import RootLake.Iceberg.Publication
import RootLake.Iceberg.PublicationHistory
import RootLake.Iceberg.PublicationInvariant
import RootLake.Iceberg.PublicationRecovery
import RootLake.Iceberg.PublicationRuns
import RootLake.Iceberg.PublicationSteps
import RootLake.Iceberg.RecordedFiles
import RootLake.Index.AccessPlan
import RootLake.Index.BasketStatistics
import RootLake.Index.Bloom
import RootLake.Index.BuildDirectory
import RootLake.Index.BuildRun
import RootLake.Index.Checkpoint
import RootLake.Index.EventKeys
import RootLake.Index.FilePlans
import RootLake.Index.LogicalPaths
import RootLake.Index.OriginalFiles
import RootLake.Index.OutputDirectory
import RootLake.Index.Publication
import RootLake.Index.Recovery
import RootLake.Index.RequestIdentity
import RootLake.Index.SchemaClosure
import RootLake.Index.SchemaIdentity
import RootLake.Index.Snapshots
import RootLake.Index.WrittenSchemas
import RootLake.Lib.AppendLog
import RootLake.Lib.Batch
import RootLake.Lib.Budget
import RootLake.Lib.Bytes
import RootLake.Lib.Count
import RootLake.Lib.Dispatch
import RootLake.Lib.ExceptRules
import RootLake.Lib.Feed
import RootLake.Lib.FirstBest
import RootLake.Lib.Greedy
import RootLake.Lib.Ieee
import RootLake.Lib.KeepFirst
import RootLake.Lib.Logged
import RootLake.Lib.Narrowing
import RootLake.Lib.Query
import RootLake.Lib.Runs
import RootLake.Lib.Search
import RootLake.Lib.Sql3
import RootLake.Lib.Text
import RootLake.Production.ChunkPlan
import RootLake.Production.ChunkValidation
import RootLake.Production.IcebergCommit
import RootLake.Production.PythonValue
import RootLake.Production.UriLists
import RootLake.Reader.BranchResolver
import RootLake.Reader.Cursor
import RootLake.Reader.DepthCheck
import RootLake.Reader.DepthLaw
import RootLake.Reader.FixedArrayTypes
import RootLake.Reader.HybridReader
import RootLake.Reader.IndexNames
import RootLake.Reader.LevelChain
import RootLake.Reader.LogicalPath
import RootLake.Reader.MemberNames
import RootLake.Reader.PagedTraversal
import RootLake.Reader.PathLevel
import RootLake.Reader.PathReader
import RootLake.Reader.PathResolver
import RootLake.Reader.PrimitiveConversion
import RootLake.Reader.PrimitiveValue
import RootLake.Reader.ResolvedPath
import RootLake.Reader.RowTuples
import RootLake.Reader.SemanticTypes
import RootLake.Reader.StoredTypes
import RootLake.Reader.TemplateText
import RootLake.Reader.Traversal
import RootLake.Reader.TraversalEvents
import RootLake.Serialized.ArrayCoordinates
import RootLake.Serialized.BasketLookup
import RootLake.Serialized.Codec
import RootLake.Serialized.NestedColumn
import RootLake.Serialized.NestedFixed
import RootLake.Serialized.NestedLayout
import RootLake.Serialized.NestedVector
import RootLake.Serialized.Plan
import RootLake.Serialized.Primitive
import RootLake.Serialized.VectorEntry
import RootLake.Serialized.VectorPages
