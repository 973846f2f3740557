/-
  File:      Nvecd/Configuration/Config.lean
  Subject:   `config/config.h`: the settings, and the text they are shown as.

  A `double` is the number it stands for. How the JSON library writes one is left open.

  * `Config` -- the settings of the server;
  * `Json`, `configToJson` -- their document, whose members stand in the order of their names;
  * `jsonToYaml` -- the text of a document.
-/
import Mathlib.Data.List.Lex
import Mathlib.Data.List.Sort
import Mathlib.Order.Nat
import Nvecd.Server.QueryParser
import Nvecd.Lib.Delimited

namespace Nvecd.Configuration

open Nvecd.Lib (natText intText)
open Nvecd.Storage (Bytes)
open Nvecd.Server (ascii)

/-! ## 1. Settings, with their defaults -/

structure EventsConfig where
  ctxBufferSize : UInt32 := 50
  maxContexts : UInt32 := 0
  maxNeighborsPerItem : UInt32 := 0
  minSupport : ℚ := 0
  decayIntervalSec : UInt32 := 3600
  decayAlpha : ℚ := 99 / 100
  dedupWindowSec : UInt32 := 60
  dedupCacheSize : UInt32 := 10000
  temporalCooccurrence : Bool := false
  temporalHalfLifeSec : ℚ := 86400
  negativeSignals : Bool := false
  negativeWeight : ℚ := 1 / 2

structure VectorsConfig where
  defaultDimension : UInt32 := 768
  distanceMetric : Bytes := ascii "cosine"

structure SimilarityConfig where
  defaultTopK : UInt32 := 100
  maxTopK : UInt32 := 1000
  fusionAlpha : ℚ := 6 / 10
  fusionBeta : ℚ := 4 / 10
  sampleSize : UInt32 := 10000
  adaptiveFusion : Bool := false
  adaptiveMinAlpha : ℚ := 2 / 10
  adaptiveMaxAlpha : ℚ := 9 / 10
  adaptiveMaturityThreshold : UInt32 := 50
  indexType : Bytes := ascii "flat"
  ivfEnabled : Bool := false
  ivfNlist : UInt32 := 256
  ivfNprobe : UInt32 := 8
  ivfTrainThreshold : UInt32 := 10000
  ivfSealThreshold : UInt32 := 100000
  hnswM : UInt32 := 16
  hnswEfConstruction : UInt32 := 200
  hnswEfSearch : UInt32 := 50
  hnswMaxElements : UInt32 := 0

structure SnapshotConfig where
  dir : Bytes := ascii "/var/lib/nvecd/snapshots"
  defaultFilename : Bytes := ascii "nvecd.snapshot"
  intervalSec : Int32 := 0
  retain : Int32 := 3
  mode : Bytes := ascii "fork"

structure PerformanceConfig where
  threadPoolSize : Int32 := 8
  maxConnections : Int32 := 1000
  maxConnectionsPerIp : Int32 := 100
  connectionTimeoutSec : Int32 := 300
  recvBufferSize : Int32 := 4096
  sendBufferSize : Int32 := 65536
  maxQueryLength : Int32 := 1024 * 1024
  shutdownTimeoutMs : Int32 := 5000
  reactorMaxTotalBufferedBytes : Int32 := 256 * 1024 * 1024

structure TcpConfig where
  bind : Bytes := ascii "127.0.0.1"
  port : Int32 := 11017

structure HttpConfig where
  enable : Bool := false
  bind : Bytes := ascii "127.0.0.1"
  port : Int32 := 8080
  enableCors : Bool := false
  corsAllowOrigin : Bytes := []
  timeoutSec : Int32 := 5

structure RateLimitingConfig where
  enable : Bool := false
  capacity : Int32 := 100
  refillRate : Int32 := 10
  maxClients : Int32 := 10000

structure ApiConfig where
  tcp : TcpConfig := {}
  http : HttpConfig := {}
  /-- The path of the unix socket. -/
  unixSocketPath : Bytes := []
  rateLimiting : RateLimitingConfig := {}

structure LoggingConfig where
  level : Bytes := ascii "info"
  json : Bool := true
  file : Bytes := []

structure CacheConfig where
  enabled : Bool := true
  maxMemoryBytes : UInt64 := 32 * 1024 * 1024
  minQueryCostMs : ℚ := 10
  ttlSeconds : Int32 := 3600
  compressionEnabled : Bool := true
  evictionBatchSize : Int32 := 10

structure WalConfig where
  enabled : Bool := false
  dir : Bytes := ascii "/var/lib/nvecd/wal"
  maxFileSize : UInt64 := 64 * 1024 * 1024
  syncOnWrite : Bool := false
  syncIntervalMs : UInt32 := 100
  includeVectors : Bool := true

structure Config where
  events : EventsConfig := {}
  vectors : VectorsConfig := {}
  similarity : SimilarityConfig := {}
  snapshot : SnapshotConfig := {}
  perf : PerformanceConfig := {}
  api : ApiConfig := {}
  allowCidrs : List Bytes := []
  logging : LoggingConfig := {}
  cache : CacheConfig := {}
  /-- `security.requirepass`: the password; without one nobody has to authenticate. -/
  requirepass : Bytes := []
  wal : WalConfig := {}

/-! ## 2. Documents -/

/-- `nlohmann::json`, with its numbers as they are written. -/
inductive Json where
  | null
  | boolean (value : Bool)
  | number (text : Bytes)
  | string (value : Bytes)
  | array (elements : List Json)
  | object (members : List (Bytes × Json))

namespace Json

def isObject : Json → Bool
  | .object _ => true
  | _ => false

def isArray : Json → Bool
  | .array _ => true
  | _ => false

def isNull : Json → Bool
  | .null => true
  | _ => false

/-- Bytes in the order of `std::map`. -/
def leBytes (a b : Bytes) : Bool := decide (a.map UInt8.toNat ≤ b.map UInt8.toNat)

/-- An object with these members, whose names differ. -/
def ofMembers (members : List (String × Json)) : Json :=
  .object ((members.map fun m => (ascii m.1, m.2)).insertionSort fun m n => leBytes m.1 n.1)

def ofUInt32 (n : UInt32) : Json := .number (natText n.toNat)

def ofUInt64 (n : UInt64) : Json := .number (natText n.toNat)

def ofInt32 (n : Int32) : Json := .number (intText n.toInt)

end Json

open Json

def kBytesPerMB : UInt64 := 1024 * 1024

/-- The section with the password, which is masked before it is shown. -/
def securityJson (config : Config) : Json :=
  .ofMembers [
    ("auth_enabled", .boolean (config.requirepass ≠ [])),
    ("requirepass", .string config.requirepass)]

section Display

-- `dump()` of a floating-point number
variable (dumpDouble : ℚ → Bytes)

def ofDouble (value : ℚ) : Json := .number (dumpDouble value)

/-- `ConfigToJson`, but for the password's section. -/
def otherSections (config : Config) : List (String × Json) :=
  [("vectors", .ofMembers [
      ("default_dimension", ofUInt32 config.vectors.defaultDimension),
      ("distance_metric", .string config.vectors.distanceMetric)]),
    ("events", .ofMembers [
      ("ctx_buffer_size", ofUInt32 config.events.ctxBufferSize),
      ("max_contexts", ofUInt32 config.events.maxContexts),
      ("max_neighbors_per_item", ofUInt32 config.events.maxNeighborsPerItem),
      ("min_support", ofDouble dumpDouble config.events.minSupport),
      ("decay_interval_sec", ofUInt32 config.events.decayIntervalSec),
      ("decay_alpha", ofDouble dumpDouble config.events.decayAlpha),
      ("dedup_window_sec", ofUInt32 config.events.dedupWindowSec),
      ("dedup_cache_size", ofUInt32 config.events.dedupCacheSize),
      ("temporal_cooccurrence", .boolean config.events.temporalCooccurrence),
      ("temporal_half_life_sec", ofDouble dumpDouble config.events.temporalHalfLifeSec),
      ("negative_signals", .boolean config.events.negativeSignals),
      ("negative_weight", ofDouble dumpDouble config.events.negativeWeight)]),
    ("similarity", .ofMembers [
      ("default_top_k", ofUInt32 config.similarity.defaultTopK),
      ("max_top_k", ofUInt32 config.similarity.maxTopK),
      ("fusion_alpha", ofDouble dumpDouble config.similarity.fusionAlpha),
      ("fusion_beta", ofDouble dumpDouble config.similarity.fusionBeta),
      ("sample_size", ofUInt32 config.similarity.sampleSize),
      ("adaptive_fusion", .boolean config.similarity.adaptiveFusion),
      ("adaptive_min_alpha", ofDouble dumpDouble config.similarity.adaptiveMinAlpha),
      ("adaptive_max_alpha", ofDouble dumpDouble config.similarity.adaptiveMaxAlpha),
      ("adaptive_maturity_threshold", ofUInt32 config.similarity.adaptiveMaturityThreshold),
      ("index_type", .string config.similarity.indexType),
      ("ivf_enabled", .boolean config.similarity.ivfEnabled),
      ("ivf_nlist", ofUInt32 config.similarity.ivfNlist),
      ("ivf_nprobe", ofUInt32 config.similarity.ivfNprobe),
      ("ivf_train_threshold", ofUInt32 config.similarity.ivfTrainThreshold),
      ("ivf_seal_threshold", ofUInt32 config.similarity.ivfSealThreshold),
      ("hnsw_m", ofUInt32 config.similarity.hnswM),
      ("hnsw_ef_construction", ofUInt32 config.similarity.hnswEfConstruction),
      ("hnsw_ef_search", ofUInt32 config.similarity.hnswEfSearch),
      ("hnsw_max_elements", ofUInt32 config.similarity.hnswMaxElements)]),
    ("snapshot", .ofMembers [
      ("dir", .string config.snapshot.dir),
      ("default_filename", .string config.snapshot.defaultFilename),
      ("interval_sec", ofInt32 config.snapshot.intervalSec),
      ("retain", ofInt32 config.snapshot.retain),
      ("mode", .string config.snapshot.mode)]),
    ("performance", .ofMembers [
      ("thread_pool_size", ofInt32 config.perf.threadPoolSize),
      ("max_connections", ofInt32 config.perf.maxConnections),
      ("max_connections_per_ip", ofInt32 config.perf.maxConnectionsPerIp),
      ("connection_timeout_sec", ofInt32 config.perf.connectionTimeoutSec),
      ("recv_buffer_size", ofInt32 config.perf.recvBufferSize),
      ("send_buffer_size", ofInt32 config.perf.sendBufferSize),
      ("max_query_length", ofInt32 config.perf.maxQueryLength),
      ("shutdown_timeout_ms", ofInt32 config.perf.shutdownTimeoutMs),
      ("reactor_max_total_buffered_bytes", ofInt32 config.perf.reactorMaxTotalBufferedBytes)]),
    ("api", .ofMembers [
      ("tcp", .ofMembers [
        ("bind", .string config.api.tcp.bind),
        ("port", ofInt32 config.api.tcp.port)]),
      ("http", .ofMembers [
        ("enable", .boolean config.api.http.enable),
        ("bind", .string config.api.http.bind),
        ("port", ofInt32 config.api.http.port),
        ("enable_cors", .boolean config.api.http.enableCors),
        ("cors_allow_origin", .string config.api.http.corsAllowOrigin),
        ("timeout_sec", ofInt32 config.api.http.timeoutSec)]),
      ("unix_socket", .ofMembers [
        ("path", .string config.api.unixSocketPath)]),
      ("rate_limiting", .ofMembers [
        ("enable", .boolean config.api.rateLimiting.enable),
        ("capacity", ofInt32 config.api.rateLimiting.capacity),
        ("refill_rate", ofInt32 config.api.rateLimiting.refillRate),
        ("max_clients", ofInt32 config.api.rateLimiting.maxClients)])]),
    ("network", .ofMembers [
      ("allow_cidrs", .array (config.allowCidrs.map .string))]),
    ("logging", .ofMembers [
      ("level", .string config.logging.level),
      ("json", .boolean config.logging.json),
      ("file", .string config.logging.file)]),
    ("cache", .ofMembers [
      ("enabled", .boolean config.cache.enabled),
      ("max_memory_mb", ofUInt64 (config.cache.maxMemoryBytes / kBytesPerMB)),
      ("min_query_cost_ms", ofDouble dumpDouble config.cache.minQueryCostMs),
      ("ttl_seconds", ofInt32 config.cache.ttlSeconds),
      ("compression_enabled", .boolean config.cache.compressionEnabled),
      ("eviction_batch_size", ofInt32 config.cache.evictionBatchSize)]),
    ("wal", .ofMembers [
      ("enabled", .boolean config.wal.enabled),
      ("dir", .string config.wal.dir),
      ("max_file_size", ofUInt64 config.wal.maxFileSize),
      ("sync_on_write", .boolean config.wal.syncOnWrite),
      ("sync_interval_ms", ofUInt32 config.wal.syncIntervalMs),
      ("include_vectors", .boolean config.wal.includeVectors)])]

/-- **`ConfigToJson`.** -/
def configToJson (config : Config) : Json :=
  .ofMembers (("security", securityJson config) :: otherSections dumpDouble config)

end Display

/-! ## 3. The text of a document -/

-- `dump()` of a document inside another
variable (dump : Json → Bytes)

/-- `JsonValueToString`. -/
def jsonValueToString : Json → Bytes
  | .string s => ascii "\"" ++ s ++ ascii "\""
  | .boolean b => if b then ascii "true" else ascii "false"
  | .number text => text
  | .null => ascii "null"
  | j => dump j

/-- What follows the name of a member, or the mark of an element. -/
def scalarLine (value : Json) : Bytes := ascii " " ++ jsonValueToString dump value ++ ascii "\n"

def indentText (n : Nat) : Bytes := List.replicate (n * 2) 32

mutual

/-- `JsonToYaml`. -/
def jsonToYaml (indent : Nat) : Json → Bytes
  | .object members => yamlMembers indent members
  | .array elements => yamlElements indent elements
  | j => indentText indent ++ jsonValueToString dump j ++ ascii "\n"

/-- The members of an object, each on a line of its own. -/
def yamlMembers (indent : Nat) : List (Bytes × Json) → Bytes
  | [] => []
  | (key, child) :: rest =>
    indentText indent ++ key ++ ascii ":" ++
      (if child.isObject || child.isArray then ascii "\n" ++ jsonToYaml (indent + 1) child
        else scalarLine dump child) ++
      yamlMembers indent rest

/-- The elements of an array. -/
def yamlElements (indent : Nat) : List Json → Bytes
  | [] => []
  | item :: rest =>
    indentText indent ++ ascii "-" ++
      (match item with
        | .object members => yamlItem indent true members
        | item => scalarLine dump item) ++
      yamlElements indent rest

/-- The members of an element: the first one on its line, the others below. -/
def yamlItem (indent : Nat) (first : Bool) : List (Bytes × Json) → Bytes
  | [] => []
  | (key, value) :: rest =>
    (if first then ascii " " else indentText (indent + 1)) ++ key ++ ascii ":" ++
      (if value.isObject || value.isArray then ascii "\n" ++ jsonToYaml (indent + 2) value
        else scalarLine dump value) ++
      yamlItem indent false rest

end

end Nvecd.Configuration
