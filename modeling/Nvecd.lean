import Nvecd.Lib.Crc32
import Nvecd.Lib.LittleEndian
import Nvecd.Lib.Ieee754
import Nvecd.Lib.BinaryFloat
import Nvecd.Lib.Rounding
import Nvecd.Lib.TokenBucket
import Nvecd.Lib.Machine
import Nvecd.Lib.Memo
import Nvecd.Lib.Ranked
import Nvecd.Lib.Fusion
import Nvecd.Lib.AssocMap
import Nvecd.Lib.LruCache
import Nvecd.Lib.LinkedLru
import Nvecd.Lib.Codec
import Nvecd.Lib.InputStream
import Nvecd.Lib.FlatMatrix
import Nvecd.Lib.Delimited
import Nvecd.Lib.Generations
import Nvecd.Lib.BestFirst
import Nvecd.Lib.Reached
import Nvecd.Lib.TopK
import Nvecd.Lib.Merge
import Nvecd.Lib.Located
import Nvecd.Lib.Covers
import Nvecd.Lib.Checked
import Nvecd.Lib.Lines
import Nvecd.Lib.Base64
import Nvecd.Lib.FilePath
import Nvecd.Lib.FileTree
import Nvecd.Utils.Error
import Nvecd.Storage.WalFormat
import Nvecd.Storage.Wal
import Nvecd.Storage.WalSegments
import Nvecd.Storage.WalSpec
import Nvecd.Storage.WalRun
import Nvecd.Storage.WalNames
import Nvecd.Storage.WalCrash
import Nvecd.Storage.WalFraming
import Nvecd.Storage.SnapshotFork
import Nvecd.Storage.SnapshotDir
import Nvecd.Events.Caches
import Nvecd.Events.LinkedCaches
import Nvecd.Events.EventStore
import Nvecd.Lib.SparseMatrix
import Nvecd.Events.CoOccurrence
import Nvecd.Events.CoMatrix
import Nvecd.Events.CoBounds
import Nvecd.Events.Buffers
import Nvecd.Events.Streaming
import Nvecd.Events.Restore
import Nvecd.Events.History
import Nvecd.Events.Resume
import Nvecd.Vectors.VectorStore
import Nvecd.Vectors.VectorMap
import Nvecd.Vectors.CompactStore
import Nvecd.Vectors.StoreLayout
import Nvecd.Vectors.HnswGraph
import Nvecd.Vectors.HnswIndex
import Nvecd.Vectors.HnswInvariant
import Nvecd.Vectors.HnswNorms
import Nvecd.Vectors.HnswCount
import Nvecd.Vectors.HnswReach
import Nvecd.Vectors.HnswStream
import Nvecd.Vectors.HnswRoundTrip
import Nvecd.Vectors.HnswSizes
import Nvecd.Vectors.HnswSerialization
import Nvecd.Vectors.TieredStore
import Nvecd.Vectors.TieredSearch
import Nvecd.Vectors.TieredMap
import Nvecd.Vectors.IvfIndex
import Nvecd.Vectors.IvfTraining
import Nvecd.Vectors.IvfMachine
import Nvecd.Vectors.IvfSearch
import Nvecd.Vectors.Metadata
import Nvecd.Vectors.MetadataFilter
import Nvecd.Vectors.FilterOrder
import Nvecd.Cache.SimilarityCache
import Nvecd.Cache.CacheKey
import Nvecd.Cache.ResultCompressor
import Nvecd.Cache.CacheOperations
import Nvecd.Cache.CacheTables
import Nvecd.Cache.CacheInvariant
import Nvecd.Server.QueryParser
import Nvecd.Server.EventPreview
import Nvecd.Similarity.SimilarityEngine
import Nvecd.Similarity.Search
import Nvecd.Similarity.FlatSearch
import Nvecd.Similarity.EventSearch
import Nvecd.Similarity.FusionSearch
import Nvecd.Similarity.AnnIndexes
import Nvecd.Storage.SnapshotStream
import Nvecd.Storage.SnapshotVectors
import Nvecd.Storage.SnapshotEvents
import Nvecd.Storage.SnapshotResume
import Nvecd.Storage.SnapshotFormat
import Nvecd.Storage.SnapshotContainer
import Nvecd.Server.WalCodec
import Nvecd.Server.WalPayloads
import Nvecd.Server.Handlers
import Nvecd.Server.Effects
import Nvecd.Server.Replay
import Nvecd.Server.LogReplays
import Nvecd.Server.Recovery
import Nvecd.Server.Durability
import Nvecd.Server.Retention
import Nvecd.Server.DumpLoad
import Nvecd.Server.DumpPath
import Nvecd.Server.Dispatcher
import Nvecd.Server.MetasetFilter
import Nvecd.Server.WriteSteps
import Nvecd.Server.CacheFreshness
import Nvecd.Server.Framing
import Nvecd.Server.ResponseFraming
import Nvecd.Server.ReactorMemory
import Nvecd.Server.ReactorConnection
import Nvecd.Server.ReactorProtocol
import Nvecd.Server.ConnectionAcceptor
import Nvecd.Server.DescriptorOwnership
import Nvecd.Server.CommandParser
import Nvecd.Server.RequestWords
import Nvecd.Server.ScoreFormat
import Nvecd.Server.RateLimiter
import Nvecd.Server.HttpServer
import Nvecd.Server.HttpAuth
import Nvecd.Configuration.Config
import Nvecd.Configuration.ConfigHelp
import Nvecd.Configuration.SettingText
import Nvecd.Configuration.RuntimeVariables
import Nvecd.Configuration.RuntimeReports
import Nvecd.Server.Operations
import Nvecd.Server.WriteAgreement
import Nvecd.Client.Commands
import Nvecd.Client.CanonicalForm
import Nvecd.Server.QueryHandlers
import Nvecd.Server.FrontEnds
import Nvecd.Server.CacheTransparency
import Nvecd.Server.Authorization
