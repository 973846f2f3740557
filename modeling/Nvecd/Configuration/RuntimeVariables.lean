/-
  File:      Nvecd/Configuration/RuntimeVariables.lean
  Subject:   `SET`, `GET`, `SHOW VARIABLES` and the switches of the cache
             (`config/runtime_variable_manager.cpp`, `handlers/variable_handler.cpp`,
             `cache/similarity_cache_controller.cpp`).

  A mutable variable has a text in the map of the manager; every other one is read from the settings
  the server was started with. `SET` reads its value, applies it to the cache or to the logger, and
  only then stores the text.

  * `setVariable`, `getVariable`, `handleShowVariables` -- as in the source;
  * `RuntimeState.respond` -- the requests that read or change settings, over both surfaces;
  * `password_not_disclosed` -- two servers that differ in the password answer all requests alike.
-/
import Nvecd.Configuration.ConfigHelp
import Nvecd.Configuration.SettingText
import Nvecd.Lib.AssocMap
import Nvecd.Lib.Machine

namespace Nvecd.Configuration

open Nvecd.Lib Nvecd.Utils
open Nvecd.Storage (Bytes)
open Nvecd.Server (ascii)
open Nvecd.Vectors (textOf)

/-! ## 1. Variables -/

def kLegacyPrefix : Bytes := ascii "perf."

def canonicalVariableName (name : Bytes) : Bytes :=
  if name.take kLegacyPrefix.length = kLegacyPrefix then
    ascii "performance." ++ name.drop kLegacyPrefix.length
  else name

/-- Whether a variable can be changed while the server runs. -/
def kVariableMutability : List (String × Bool) :=
  [("logging.level", true),
    ("logging.json", true),
    ("logging.file", false),
    ("cache.enabled", true),
    ("cache.min_query_cost_ms", true),
    ("cache.ttl_seconds", true),
    ("cache.max_memory_mb", false),
    ("cache.compression_enabled", false),
    ("cache.eviction_batch_size", false),
    ("api.tcp.bind", false),
    ("api.tcp.port", false),
    ("api.http.enable", false),
    ("api.http.bind", false),
    ("api.http.port", false),
    ("api.http.enable_cors", false),
    ("api.http.cors_allow_origin", false),
    ("api.rate_limiting.enable", false),
    ("api.rate_limiting.capacity", false),
    ("api.rate_limiting.refill_rate", false),
    ("api.rate_limiting.max_clients", false),
    ("events.ctx_buffer_size", false),
    ("events.max_contexts", false),
    ("events.max_neighbors_per_item", false),
    ("events.min_support", false),
    ("events.decay_alpha", false),
    ("events.decay_interval_sec", false),
    ("events.dedup_window_sec", false),
    ("events.dedup_cache_size", false),
    ("events.temporal_cooccurrence", false),
    ("events.negative_signals", false),
    ("vectors.default_dimension", false),
    ("vectors.distance_metric", false),
    ("similarity.fusion_alpha", false),
    ("similarity.fusion_beta", false),
    ("similarity.default_top_k", false),
    ("similarity.max_top_k", false),
    ("similarity.adaptive_fusion", false),
    ("similarity.index_type", false),
    ("similarity.ivf_enabled", false),
    ("snapshot.dir", false),
    ("snapshot.default_filename", false),
    ("snapshot.interval_sec", false),
    ("snapshot.retain", false),
    ("snapshot.mode", false),
    ("performance.thread_pool_size", false),
    ("performance.max_connections", false),
    ("performance.max_connections_per_ip", false),
    ("performance.connection_timeout_sec", false),
    ("performance.recv_buffer_size", false),
    ("performance.send_buffer_size", false),
    ("performance.max_query_length", false),
    ("performance.shutdown_timeout_ms", false),
    ("performance.reactor_max_total_buffered_bytes", false),
    ("api.http.timeout_sec", false),
    ("api.unix_socket.path", false),
    ("events.temporal_half_life_sec", false),
    ("events.negative_weight", false),
    ("similarity.sample_size", false),
    ("similarity.adaptive_min_alpha", false),
    ("similarity.adaptive_max_alpha", false),
    ("similarity.adaptive_maturity_threshold", false),
    ("similarity.ivf_nlist", false),
    ("similarity.ivf_nprobe", false),
    ("similarity.ivf_train_threshold", false),
    ("similarity.ivf_seal_threshold", false),
    ("similarity.hnsw_m", false),
    ("similarity.hnsw_ef_construction", false),
    ("similarity.hnsw_ef_search", false),
    ("similarity.hnsw_max_elements", false),
    ("network.allow_cidrs", false),
    ("security.requirepass", false),
    ("wal.enabled", false),
    ("wal.dir", false),
    ("wal.max_file_size", false),
    ("wal.sync_on_write", false),
    ("wal.sync_interval_ms", false),
    ("wal.include_vectors", false)]

/-- The table, in the order of `std::map`. -/
def variableTable : List (Bytes × Bool) :=
  (kVariableMutability.map fun v => (ascii v.1, v.2)).insertionSort fun v w => Json.leBytes v.1 w.1

def mutability? (name : Bytes) : Option Bool :=
  (kVariableMutability.find? fun v => ascii v.1 = name).map (·.2)

/-- What the settings at the start say of a variable that cannot be changed. -/
def baseValues (config : Config) : List (String × Bytes) :=
  [("logging.file", config.logging.file),
    ("cache.max_memory_mb", textOfUInt64 (config.cache.maxMemoryBytes / kBytesPerMB)),
    ("cache.compression_enabled", textOfBool config.cache.compressionEnabled),
    ("cache.eviction_batch_size", textOfInt32 config.cache.evictionBatchSize),
    ("api.tcp.bind", config.api.tcp.bind),
    ("api.tcp.port", textOfInt32 config.api.tcp.port),
    ("api.http.enable", textOfBool config.api.http.enable),
    ("api.http.bind", config.api.http.bind),
    ("api.http.port", textOfInt32 config.api.http.port),
    ("api.http.enable_cors", textOfBool config.api.http.enableCors),
    ("api.http.cors_allow_origin", config.api.http.corsAllowOrigin),
    ("api.rate_limiting.enable", textOfBool config.api.rateLimiting.enable),
    ("api.rate_limiting.capacity", textOfInt32 config.api.rateLimiting.capacity),
    ("api.rate_limiting.refill_rate", textOfInt32 config.api.rateLimiting.refillRate),
    ("api.rate_limiting.max_clients", textOfInt32 config.api.rateLimiting.maxClients),
    ("events.ctx_buffer_size", textOfUInt32 config.events.ctxBufferSize),
    ("events.max_contexts", textOfUInt32 config.events.maxContexts),
    ("events.max_neighbors_per_item", textOfUInt32 config.events.maxNeighborsPerItem),
    ("events.min_support", textOfDouble config.events.minSupport),
    ("events.decay_alpha", textOfDouble config.events.decayAlpha),
    ("events.decay_interval_sec", textOfUInt32 config.events.decayIntervalSec),
    ("events.dedup_window_sec", textOfUInt32 config.events.dedupWindowSec),
    ("events.dedup_cache_size", textOfUInt32 config.events.dedupCacheSize),
    ("events.temporal_cooccurrence", textOfBool config.events.temporalCooccurrence),
    ("events.negative_signals", textOfBool config.events.negativeSignals),
    ("vectors.default_dimension", textOfUInt32 config.vectors.defaultDimension),
    ("vectors.distance_metric", config.vectors.distanceMetric),
    ("similarity.fusion_alpha", textOfDouble config.similarity.fusionAlpha),
    ("similarity.fusion_beta", textOfDouble config.similarity.fusionBeta),
    ("similarity.default_top_k", textOfUInt32 config.similarity.defaultTopK),
    ("similarity.max_top_k", textOfUInt32 config.similarity.maxTopK),
    ("similarity.adaptive_fusion", textOfBool config.similarity.adaptiveFusion),
    ("similarity.index_type", config.similarity.indexType),
    ("similarity.ivf_enabled", textOfBool config.similarity.ivfEnabled),
    ("snapshot.dir", config.snapshot.dir),
    ("snapshot.default_filename", config.snapshot.defaultFilename),
    ("snapshot.interval_sec", textOfInt32 config.snapshot.intervalSec),
    ("snapshot.retain", textOfInt32 config.snapshot.retain),
    ("snapshot.mode", config.snapshot.mode),
    ("performance.thread_pool_size", textOfInt32 config.perf.threadPoolSize),
    ("performance.max_connections", textOfInt32 config.perf.maxConnections),
    ("performance.max_connections_per_ip", textOfInt32 config.perf.maxConnectionsPerIp),
    ("performance.connection_timeout_sec", textOfInt32 config.perf.connectionTimeoutSec),
    ("performance.recv_buffer_size", textOfInt32 config.perf.recvBufferSize),
    ("performance.send_buffer_size", textOfInt32 config.perf.sendBufferSize),
    ("performance.max_query_length", textOfInt32 config.perf.maxQueryLength),
    ("performance.shutdown_timeout_ms", textOfInt32 config.perf.shutdownTimeoutMs),
    ("performance.reactor_max_total_buffered_bytes",
      textOfInt32 config.perf.reactorMaxTotalBufferedBytes),
    ("api.http.timeout_sec", textOfInt32 config.api.http.timeoutSec),
    ("api.unix_socket.path", config.api.unixSocketPath),
    ("events.temporal_half_life_sec", textOfDouble config.events.temporalHalfLifeSec),
    ("events.negative_weight", textOfDouble config.events.negativeWeight),
    ("similarity.sample_size", textOfUInt32 config.similarity.sampleSize),
    ("similarity.adaptive_min_alpha", textOfDouble config.similarity.adaptiveMinAlpha),
    ("similarity.adaptive_max_alpha", textOfDouble config.similarity.adaptiveMaxAlpha),
    ("similarity.adaptive_maturity_threshold",
      textOfUInt32 config.similarity.adaptiveMaturityThreshold),
    ("similarity.ivf_nlist", textOfUInt32 config.similarity.ivfNlist),
    ("similarity.ivf_nprobe", textOfUInt32 config.similarity.ivfNprobe),
    ("similarity.ivf_train_threshold", textOfUInt32 config.similarity.ivfTrainThreshold),
    ("similarity.ivf_seal_threshold", textOfUInt32 config.similarity.ivfSealThreshold),
    ("similarity.hnsw_m", textOfUInt32 config.similarity.hnswM),
    ("similarity.hnsw_ef_construction", textOfUInt32 config.similarity.hnswEfConstruction),
    ("similarity.hnsw_ef_search", textOfUInt32 config.similarity.hnswEfSearch),
    ("similarity.hnsw_max_elements", textOfUInt32 config.similarity.hnswMaxElements),
    ("network.allow_cidrs", (config.allowCidrs.intersperse [44]).flatten),
    ("security.requirepass", if config.requirepass = [] then [] else ascii "***"),
    ("wal.enabled", textOfBool config.wal.enabled),
    ("wal.dir", config.wal.dir),
    ("wal.max_file_size", textOfUInt64 config.wal.maxFileSize),
    ("wal.sync_on_write", textOfBool config.wal.syncOnWrite),
    ("wal.sync_interval_ms", textOfUInt32 config.wal.syncIntervalMs),
    ("wal.include_vectors", textOfBool config.wal.includeVectors)]

/-- The variables that can be changed. -/
inductive MutableVariable where
  | loggingLevel
  | loggingJson
  | cacheEnabled
  | minQueryCostMs
  | ttlSeconds
  deriving DecidableEq, Repr

def MutableVariable.name : MutableVariable → Bytes
  | loggingLevel => ascii "logging.level"
  | loggingJson => ascii "logging.json"
  | cacheEnabled => ascii "cache.enabled"
  | minQueryCostMs => ascii "cache.min_query_cost_ms"
  | ttlSeconds => ascii "cache.ttl_seconds"

def MutableVariable.all : List MutableVariable :=
  [loggingLevel, loggingJson, cacheEnabled, minQueryCostMs, ttlSeconds]

/-- The branch of `SetVariable` for a name. -/
def MutableVariable.ofName? (name : Bytes) : Option MutableVariable :=
  MutableVariable.all.find? fun v => v.name = name

structure RuntimeVariableManager where
  baseConfig : Config
  runtimeValues : AssocMap Bytes Bytes

namespace RuntimeVariableManager

/-- `Create`, with `InitializeRuntimeValues`. -/
def create (config : Config) : RuntimeVariableManager where
  baseConfig := config
  runtimeValues :=
    ((((AssocMap.empty.insert (ascii "logging.level") config.logging.level).insert
      (ascii "logging.json") (textOfBool config.logging.json)).insert
      (ascii "cache.enabled") (textOfBool config.cache.enabled)).insert
      (ascii "cache.min_query_cost_ms") (textOfDouble config.cache.minQueryCostMs)).insert
      (ascii "cache.ttl_seconds") (textOfInt32 config.cache.ttlSeconds)

def getVariableInternal (m : RuntimeVariableManager) (name : Bytes) : Bytes :=
  match m.runtimeValues.find? name with
  | some value => value
  | none =>
    match (baseValues m.baseConfig).find? fun v => ascii v.1 = name with
    | some v => v.2
    | none => []

def unknownVariable (name : Bytes) : Error :=
  makeError .kInvalidArgument ("Unknown variable: " ++ textOf name)

def getVariable (m : RuntimeVariableManager) (name : Bytes) : Except Error Bytes :=
  match mutability? (canonicalVariableName name) with
  | none => .error (unknownVariable name)
  | some _ => .ok (m.getVariableInternal (canonicalVariableName name))

/-- The names that begin with `beginning`, each with its value and whether it can be changed. -/
def getAllVariables (m : RuntimeVariableManager) (beginning : Bytes) :
    List (Bytes × Bytes × Bool) :=
  (variableTable.filter fun v => beginning <+: v.1).map fun v =>
    (v.1, m.getVariableInternal v.1, v.2)

end RuntimeVariableManager

/-! ## 2. Components -/

inductive LogFormat where
  | text
  | json
  deriving DecidableEq, Repr

/-- `SimilarityCacheController`, with what it sets of its cache. -/
structure CacheController where
  enabled : Bool
  /-- The switch of the cache itself. -/
  cacheEnabled : Bool
  /-- The cache is published to the handlers. -/
  published : Bool
  minQueryCostMs : ℚ
  ttlSeconds : Int32

namespace CacheController

def start (config : CacheConfig) : CacheController where
  enabled := config.enabled
  cacheEnabled := config.enabled
  published := config.enabled
  minQueryCostMs := config.minQueryCostMs
  ttlSeconds := config.ttlSeconds

def setEnabled (c : CacheController) (enabled : Bool) : CacheController :=
  { c with enabled := enabled, cacheEnabled := enabled, published := enabled }

def setMinQueryCost (c : CacheController) (cost : ℚ) : Except Error CacheController :=
  if cost < 0 then
    .error (makeError .kInvalidArgument "cache.min_query_cost_ms must be finite and >= 0")
  else .ok { c with minQueryCostMs := cost }

def setTtl (c : CacheController) (ttl : Int32) : Except Error CacheController :=
  if ttl.toInt < 0 then .error (makeError .kInvalidArgument "cache.ttl_seconds must be >= 0")
  else .ok { c with ttlSeconds := ttl }

end CacheController

/-- What settings are applied to. -/
structure Components where
  controller : Option CacheController
  level : LogLevel
  format : LogFormat

/-- `ApplyLoggingConfig`, when the server starts. -/
def Components.start (config : Config) : Components where
  controller := some (.start config.cache)
  level := (logLevel? config.logging.level).getD .info
  format := if config.logging.json then .json else .text

/-! ## 3. `SET` -/

def uninitialized : Error := makeError .kInternalError "Cache controller is not initialized"

def applyLoggingLevel (c : Components) (value : Bytes) : Except Error Components :=
  match logLevel? value with
  | none => .error (makeError .kInvalidArgument
      ("Invalid logging level (must be trace/debug/info/warn/error): " ++ textOf value))
  | some level => .ok { c with level := level }

def applyCacheEnabled (c : Components) (value : Bool) : Except Error Components :=
  match c.controller with
  | none => .error uninitialized
  | some controller => .ok { c with controller := some (controller.setEnabled value) }

def applyCacheMinQueryCost (c : Components) (value : ℚ) : Except Error Components :=
  if value < 0 then
    .error (makeError .kInvalidArgument "cache.min_query_cost_ms must be >= 0")
  else
    match c.controller with
    | none => .error uninitialized
    | some controller => do
      let controller ← controller.setMinQueryCost value
      return { c with controller := some controller }

def applyCacheTtl (c : Components) (value : Int32) : Except Error Components :=
  if value.toInt < 0 then .error (makeError .kInvalidArgument "cache.ttl_seconds must be >= 0")
  else
    match c.controller with
    | none => .error uninitialized
    | some controller => do
      let controller ← controller.setTtl value
      return { c with controller := some controller }

section Set

variable (T : DoubleText)

/-- The text that is stored for a value, and the components with it. -/
def applyVariable (c : Components) (v : MutableVariable) (value : Bytes) :
    Except Error (Bytes × Components) :=
  match v with
  | .loggingLevel => do
    let c ← applyLoggingLevel c value
    return (value, c)
  | .loggingJson => do
    let json ← parseBool value
    return (textOfBool json, { c with format := if json then .json else .text })
  | .cacheEnabled => do
    let enabled ← parseBool value
    let c ← applyCacheEnabled c enabled
    return (textOfBool enabled, c)
  | .minQueryCostMs => do
    let cost ← parseDouble T value
    let c ← applyCacheMinQueryCost c cost
    return (T.toChars cost, c)
  | .ttlSeconds => do
    let ttl ← parseInt value
    let c ← applyCacheTtl c ttl
    return (textOfInt32 ttl, c)

/-- The settings of a running server: those it was started with, those that were changed, and what
    they are applied to. -/
structure RuntimeState where
  config : Config
  manager : RuntimeVariableManager
  components : Components

namespace RuntimeState

def start (config : Config) : RuntimeState := ⟨config, .create config, .start config⟩

/-- `SetVariable`. -/
def setVariable (s : RuntimeState) (name value : Bytes) : RuntimeState × Except Error Unit :=
  match mutability? (canonicalVariableName name) with
  | none => (s, .error (RuntimeVariableManager.unknownVariable name))
  | some false => (s, .error (makeError .kInvalidArgument
      ("Variable '" ++ textOf name ++ "' is immutable (requires restart)")))
  | some true =>
    match MutableVariable.ofName? (canonicalVariableName name) with
    | none => (s, .error (makeError .kInvalidArgument
        ("Variable not implemented: " ++ textOf name)))
    | some v =>
      match applyVariable T s.components v value with
      | .error e => (s, .error e)
      | .ok (text, components) =>
        ({ s with
            manager := { s.manager with
              runtimeValues := s.manager.runtimeValues.insert (canonicalVariableName name) text }
            components := components }, .ok ())

end RuntimeState

end Set

/-! ## 4. Requests -/

inductive RuntimeRequest where
  | set (name value : Bytes)
  | get (name : Bytes)
  | showVariables (pattern : Bytes)
  | configShow (path : Bytes)
  | cacheEnable
  | cacheDisable
  | httpCacheEnable
  | httpCacheDisable
  deriving DecidableEq, Repr

/-- An answer: over TCP, or over HTTP with its status and message. -/
inductive RuntimeAnswer where
  | tcp (response : Except Error Bytes)
  | http (status : Nat) (message : String)

/-- `HandleGet`. -/
def bulkString (value : Bytes) : Bytes :=
  ascii "$" ++ natText value.length ++ ascii "\r\n" ++ value ++ ascii "\r\n"

/-- The text before the first `%` of a pattern. -/
def patternBeginning (pattern : Bytes) : Bytes := pattern.takeWhile (· ≠ 37)

/-- A line of `SHOW VARIABLES`. -/
def variableLine (v : Bytes × Bytes × Bool) : Bytes :=
  ascii "$" ++ natText (v.1.length + 1 + v.2.1.length + if v.2.2 then 10 else 12) ++
    ascii "\r\n" ++ v.1 ++ ascii "=" ++ v.2.1 ++
    ascii (if v.2.2 then " (mutable)" else " (immutable)") ++ ascii "\r\n"

def variablesText (entries : List (Bytes × Bytes × Bool)) : Bytes :=
  ascii "*" ++ natText entries.length ++ ascii "\r\n" ++ entries.flatMap variableLine

/-- `HandleShowVariables`. -/
def handleShowVariables (m : RuntimeVariableManager) (pattern : Bytes) : Bytes :=
  variablesText (m.getAllVariables (patternBeginning pattern))

section Respond

variable (T : DoubleText) (dump : Json → Bytes)

/-- What an HTTP switch of the cache answers. -/
def httpAnswer (message : String) : Except Error Unit → RuntimeAnswer
  | .ok () => .http 200 message
  | .error e => .http 500 e.message

/-- What `SET` and the switches answer over TCP. -/
def tcpAnswer (text : String) : Except Error Unit → RuntimeAnswer
  | .ok () => .tcp (.ok (ascii text))
  | .error e => .tcp (.error e)

/-- **One request.** -/
def RuntimeState.respond (s : RuntimeState) : RuntimeRequest → RuntimeState × RuntimeAnswer
  | .set name value =>
    let r := s.setVariable T name value
    (r.1, tcpAnswer "+OK\r\n" r.2)
  | .get name => (s, .tcp ((s.manager.getVariable name).map bulkString))
  | .showVariables pattern => (s, .tcp (.ok (handleShowVariables s.manager pattern)))
  | .configShow path => (s, .tcp (handleConfigShow T.dump dump (some s.config) path))
  | .cacheEnable =>
    let r := s.setVariable T (ascii "cache.enabled") (ascii "true")
    (r.1, tcpAnswer "OK CACHE_ENABLED\n" r.2)
  | .cacheDisable =>
    let r := s.setVariable T (ascii "cache.enabled") (ascii "false")
    (r.1, tcpAnswer "OK CACHE_DISABLED\n" r.2)
  | .httpCacheEnable =>
    let r := s.setVariable T (ascii "cache.enabled") (ascii "true")
    (r.1, httpAnswer "Cache enabled" r.2)
  | .httpCacheDisable =>
    let r := s.setVariable T (ascii "cache.enabled") (ascii "false")
    (r.1, httpAnswer "Cache disabled" r.2)

/-! ## 5. The password -/

variable {T dump} {s : RuntimeState} {config : Config} {password : Bytes}

/-- The same server with another password. -/
def RuntimeState.withPassword (s : RuntimeState) (password : Bytes) : RuntimeState :=
  { s with
    config := { s.config with requirepass := password }
    manager := { s.manager with
      baseConfig := { s.manager.baseConfig with requirepass := password } } }

/-- The server has a password. -/
structure RuntimeState.Protected (s : RuntimeState) : Prop where
  config : s.config.requirepass ≠ []
  base : s.manager.baseConfig.requirepass ≠ []

theorem baseValues_eq (hold : config.requirepass ≠ []) (hnew : password ≠ []) :
    baseValues { config with requirepass := password } = baseValues config := by
  simp only [baseValues, if_neg hold, if_neg hnew]

theorem getVariableInternal_withPassword (hs : s.Protected) (hnew : password ≠ []) (name : Bytes) :
    (s.withPassword password).manager.getVariableInternal name =
      s.manager.getVariableInternal name := by
  simp only [RuntimeState.withPassword, RuntimeVariableManager.getVariableInternal,
    baseValues_eq hs.base hnew]

theorem getVariable_withPassword (hs : s.Protected) (hnew : password ≠ []) (name : Bytes) :
    (s.withPassword password).manager.getVariable name = s.manager.getVariable name := by
  rw [RuntimeVariableManager.getVariable, RuntimeVariableManager.getVariable,
    getVariableInternal_withPassword hs hnew]

theorem handleShowVariables_withPassword (hs : s.Protected) (hnew : password ≠ [])
    (pattern : Bytes) :
    handleShowVariables (s.withPassword password).manager pattern =
      handleShowVariables s.manager pattern := by
  simp only [handleShowVariables, RuntimeVariableManager.getAllVariables,
    getVariableInternal_withPassword hs hnew]

/-- `SET` does not read the password. -/
theorem setVariable_withPassword (s : RuntimeState) (password name value : Bytes) :
    (s.withPassword password).setVariable T name value =
      ((s.setVariable T name value).1.withPassword password, (s.setVariable T name value).2) := by
  have hcomponents : (s.withPassword password).components = s.components := rfl
  simp only [RuntimeState.setVariable, hcomponents]
  split
  · rfl
  · rfl
  · split
    · rfl
    · split
      · rfl
      · rfl

theorem Protected.setVariable (hs : s.Protected) (name value : Bytes) :
    (s.setVariable T name value).1.Protected := by
  simp only [RuntimeState.setVariable]
  split
  · exact hs
  · exact hs
  · split
    · exact hs
    · split
      · exact hs
      · exact ⟨hs.config, hs.base⟩

/-- Whatever the password is, a request does and answers the same. -/
theorem respond_withPassword (hs : s.Protected) (hnew : password ≠ []) (r : RuntimeRequest) :
    (s.withPassword password).respond T dump r =
      ((s.respond T dump r).1.withPassword password, (s.respond T dump r).2) := by
  cases r with
  | get name => simp only [RuntimeState.respond, getVariable_withPassword hs hnew]
  | showVariables pattern =>
    simp only [RuntimeState.respond, handleShowVariables_withPassword hs hnew]
  | configShow path =>
    have hshow := @handleConfigShow_eq T.dump dump _ _ hs.config hnew path
    simp only [RuntimeState.respond, RuntimeState.withPassword, hshow]
  | set | cacheEnable | cacheDisable | httpCacheEnable | httpCacheDisable =>
    simp only [RuntimeState.respond, setVariable_withPassword]

theorem Protected.respond (hs : s.Protected) (r : RuntimeRequest) :
    (s.respond T dump r).1.Protected := by
  cases r with
  | get | showVariables | configShow => exact hs
  | set | cacheEnable | cacheDisable | httpCacheEnable | httpCacheDisable =>
    exact Protected.setVariable hs _ _

/-- **The password is not disclosed**: servers whose settings differ in it, where neither is empty,
    answer all requests alike. -/
theorem password_not_disclosed (T : DoubleText) (dump : Json → Bytes) (config : Config)
    (password : Bytes) (hold : config.requirepass ≠ []) (hnew : password ≠ []) :
    Alike (RuntimeState.respond T dump) (.start config)
      (.start { config with requirepass := password }) := by
  have hstart : RuntimeState.start { config with requirepass := password } =
      (RuntimeState.start config).withPassword password := rfl
  have hstep : ∀ s t r, t = RuntimeState.withPassword s password ∧ s.Protected →
      (s.respond T dump r).2 = (t.respond T dump r).2 ∧
        (t.respond T dump r).1 = (s.respond T dump r).1.withPassword password ∧
          (s.respond T dump r).1.Protected := by
    rintro s _ r ⟨rfl, hs⟩
    rw [respond_withPassword hs hnew]
    exact ⟨rfl, rfl, Protected.respond hs r⟩
  rw [hstart]
  exact Alike.of_simulation hstep ⟨rfl, hold, hold⟩

theorem password_not_disclosed_default :
    Alike (RuntimeState.respond exactTexts fun _ => [])
      (.start { requirepass := ascii "correct horse" })
      (.start { requirepass := ascii "battery staple" }) :=
  password_not_disclosed exactTexts (fun _ => []) { requirepass := ascii "correct horse" }
    (ascii "battery staple") (by decide) (by decide)

end Respond

end Nvecd.Configuration
