/-
  File:      Nvecd/Server/FrontEnds.lean
  Subject:   The server behind its two front ends (`server/request_dispatcher.cpp`,
             `server/command_types.h`, `server/http_server.cpp`): the dispatcher of the TCP
             connections with its table of privileges, and the routes of the HTTP server, each with
             its own check.

  The server is one machine with all its connections, and takes one request after the other. The
  writes, the queries and the settings are those of the other files. What `DUMP` reads and writes
  on the disk is a parameter, which says how the command leaves the log, the flags and the files,
  and which stores it publishes, if any; reports are parameters that read and change nothing.

  * `SharedState`, `ServerState` -- what the connections share, without and with the cache;
  * `Request.privilege`, `dispatch` -- a line of a connection;
  * `setupRoutes`, `serveHttpRequest` -- a request over HTTP;
  * `ServedState.respond` -- the server takes what arrives.
-/
import Nvecd.Configuration.RuntimeVariables
import Nvecd.Server.HttpAuth
import Nvecd.Server.QueryHandlers

namespace Nvecd.Server

open Nvecd.Lib Nvecd.Utils Nvecd.Storage Nvecd.Events Nvecd.Vectors Nvecd.Similarity Nvecd.Cache
open Nvecd.Configuration (RuntimeState RuntimeRequest RuntimeAnswer DoubleText)

/-! ## 1. The server -/

structure ConnectionContext where
  authenticated : Bool := false
  debugMode : Bool := false
  deriving DecidableEq, Repr

/-- What the connections share, but for the cache: stores and log, the ANN index, the counters, the
    runtime variables, and the files of the snapshots, whatever `S` says of them. -/
structure SharedState (F A S : Type) extends HandlerContext F where
  engine : SimilarityEngine A
  vectorGeneration : Nat := 0
  metadataGeneration : Nat := 0
  datasetGeneration : Nat := 0
  loading : Bool := false
  runtime : RuntimeState
  snapshots : S

structure ServerState (F A κ S : Type) [DecidableEq κ] where
  shared : SharedState F A S
  cache : SimilarityCache κ

/-- How a `DUMP` command, or a snapshot that was due, leaves what it can touch. -/
structure DumpOutcome (F S : Type) where
  wal : Option WalRun
  readOnly : Bool
  loading : Bool
  snapshots : S
  /-- The stores of a file that has been read, if they are published. -/
  loaded : Option (Stores F)

/-- What a request meets: the clocks, how its I/O ends, and what a query meets. -/
structure Circumstances where
  clocks : EventClocks
  io : WalIo := {}
  times : QueryTimes := {}

inductive HttpMethod where
  | get
  | post
  | delete
  deriving DecidableEq, Repr

structure HttpRequest where
  method : HttpMethod
  path : Bytes
  /-- The header of that name. -/
  authorization : Option Bytes
  body : Bytes

inductive Endpoint where
  | write (route : HttpRoute)
  | sim
  | simv
  | info
  | health
  | healthLive
  | healthReady
  | healthDetail
  | config
  | metrics
  | cache (sub : CacheCommand)
  | dump (sub : DumpCommand)
  | debug (on : Bool)
  deriving DecidableEq, Repr

/-- Of an answer over HTTP, what a query has found; of any other only that it succeeds. -/
inductive HttpAnswer where
  | done
  | found (response : HttpSimResponse)
  deriving DecidableEq, Repr

/-- What is taken from outside. -/
structure AccessEnv (F A κ S : Type) [DecidableEq κ] extends FrontEnv F A κ where
  /-- `requirepass`, which both front ends have copied from the settings. -/
  requirepass : Bytes
  maxTopK : Nat
  texts : DoubleText
  dumpJson : Nvecd.Configuration.Json → Bytes
  parseJson : Bytes → Option Json
  dump : DumpCommand → Bytes → Circumstances → SharedState F A S →
    DumpOutcome F S × Except Error Bytes
  httpDump : DumpCommand → Bytes → Circumstances → SharedState F A S →
    DumpOutcome F S × Except HttpError Unit
  info : ServerState F A κ S → Bytes
  cacheStats : ServerState F A κ S → Except Error Bytes
  configHelp : Bytes → Except Error Bytes
  configVerify : Bytes → Except Error Bytes
  httpReport : Endpoint → ServerState F A κ S → Except HttpError Unit

section Server

variable {F A κ S : Type} [DecidableEq κ]

/-- The context of the handlers, with a cache. -/
def SharedState.toContext (s : SharedState F A S) (cache : SimilarityCache κ) :
    ServerContext F A κ where
  toHandlerContext := s.toHandlerContext
  engine := s.engine
  cache := cache
  cachePublished := (s.runtime.components.controller.map (·.published)).getD false
  vectorGeneration := s.vectorGeneration
  metadataGeneration := s.metadataGeneration
  datasetGeneration := s.datasetGeneration
  loading := s.loading

/-- What the handlers have made of their context, but for the cache. -/
def SharedState.withContext (s : SharedState F A S) (sc : ServerContext F A κ) :
    SharedState F A S :=
  { s with
    toHandlerContext := sc.toHandlerContext
    engine := sc.engine
    vectorGeneration := sc.vectorGeneration
    metadataGeneration := sc.metadataGeneration
    datasetGeneration := sc.datasetGeneration
    loading := sc.loading }

namespace ServerState

def toContext (s : ServerState F A κ S) : ServerContext F A κ := s.shared.toContext s.cache

def withContext (s : ServerState F A κ S) (sc : ServerContext F A κ) : ServerState F A κ S where
  shared := s.shared.withContext sc
  cache := sc.cache

/-- Changed runtime variables, of which the cache has two. -/
def withRuntime (s : ServerState F A κ S) (runtime : RuntimeState) : ServerState F A κ S where
  shared := { s.shared with runtime := runtime }
  cache :=
    match runtime.components.controller with
    | none => s.cache
    | some c => { s.cache with enabled := c.cacheEnabled, ttlSeconds := c.ttlSeconds.toInt.toNat }

variable [AnnIndex A]

/-- The stores of a file that has been read are published; the rest is as the command leaves it. -/
def finishDump (s : ServerState F A κ S) (outcome : DumpOutcome F S) : ServerState F A κ S :=
  let s := match outcome.loaded with
    | none => s
    | some staged => s.withContext (publishLoaded s.toContext staged)
  { s with shared := { s.shared with
      wal := outcome.wal
      readOnly := outcome.readOnly
      loading := outcome.loading
      snapshots := outcome.snapshots } }

end ServerState

variable (env : AccessEnv F A κ S)

/-- A request that the settings answer. -/
def ServerState.respondRuntime (s : ServerState F A κ S) (r : RuntimeRequest) :
    ServerState F A κ S × RuntimeAnswer :=
  let result := s.shared.runtime.respond env.texts env.dumpJson r
  (s.withRuntime result.1, result.2)

/-! ## 2. TCP -/

inductive CommandPrivilege where
  | kRead
  | kWrite
  | kAdmin
  deriving DecidableEq, Repr

/-- `GetCommandPrivilege`. -/
def Request.privilege : Request → CommandPrivilege
  | .write _ | .set _ _ | .cache .clear | .cache .enable | .cache .disable => .kWrite
  | .dump _ _ | .config .verify _ => .kAdmin
  | _ => .kRead

/-- `IsSnapshotProtectedCommand`. -/
def Request.isSnapshotProtected : Request → Bool
  | .write _ | .sim _ | .simv _ => true
  | _ => false

/-- `FormatError`. -/
def formatError (msg : String) : Bytes := ascii ("ERROR " ++ msg ++ "\r\n")

/-- A response, or the error in its place. -/
def responseText : Except Error Bytes → Bytes
  | .ok text => text
  | .error e => formatError e.message

/-- The answer to a request that reads or changes settings over TCP. -/
def tcpResult : RuntimeAnswer → Except Error Bytes
  | .tcp response => response
  | .http _ message => .ok (ascii message)

/-- `HandleAuth`. -/
def handleAuth (conn : ConnectionContext) (password : Bytes) : ConnectionContext × Bytes :=
  if env.requirepass = [] then (conn, ascii "+OK (no password required)\r\n")
  else if constantTimeEquals password env.requirepass then
    ({ conn with authenticated := true }, ascii "+OK\r\n")
  else (conn, formatError "ERR invalid password")

/-- `HandleCacheClear`. -/
def handleCacheClear (s : ServerState F A κ S) : ServerState F A κ S × Except Error Bytes :=
  if s.shared.runtime.components.controller.isNone then
    (s, .error Nvecd.Configuration.uninitialized)
  else ({ s with cache := s.cache.clear }, .ok (ascii "OK CACHE_CLEARED\n"))

variable [FloatOps F] [AnnIndex A]

/-- The handler a command is routed to. -/
def handleRequest (s : ServerState F A κ S) (conn : ConnectionContext) (c : Circumstances) :
    Request → ServerState F A κ S × ConnectionContext × Except Error Bytes
  | .auth _ => (s, conn, .error (makeError .kCommandUnknown "Unknown command type"))
  | .write cmd =>
    let result := s.toContext.dispatchWrite env.toServerEnv c.clocks c.io cmd
    (s.withContext result.1, conn, result.2.map ascii)
  | .sim cmd =>
    let result := s.toContext.handleSim env.toFrontEnv c.times conn.debugMode cmd
    ({ s with cache := result.1 }, conn, result.2)
  | .simv cmd =>
    let result := s.toContext.handleSimv env.toFrontEnv c.times conn.debugMode cmd
    ({ s with cache := result.1 }, conn, result.2)
  | .info => (s, conn, .ok (env.info s))
  | .config .help path => (s, conn, env.configHelp path)
  | .config .show path =>
    let result := s.respondRuntime env (.configShow path)
    (result.1, conn, tcpResult result.2)
  | .config .verify path => (s, conn, env.configVerify path)
  | .dump sub path =>
    let result := env.dump sub path c s.shared
    (s.finishDump result.1, conn, result.2)
  | .debug on =>
    (s, { conn with debugMode := on },
      .ok (ascii (if on then "OK DEBUG_ON\r\n" else "OK DEBUG_OFF\r\n")))
  | .cache .stats => (s, conn, env.cacheStats s)
  | .cache .clear =>
    let result := handleCacheClear s
    (result.1, conn, result.2)
  | .cache .enable =>
    let result := s.respondRuntime env .cacheEnable
    (result.1, conn, tcpResult result.2)
  | .cache .disable =>
    let result := s.respondRuntime env .cacheDisable
    (result.1, conn, tcpResult result.2)
  | .set name value =>
    let result := s.respondRuntime env (.set name value)
    (result.1, conn, tcpResult result.2)
  | .get name =>
    let result := s.respondRuntime env (.get name)
    (result.1, conn, tcpResult result.2)
  | .showVariables pattern =>
    let result := s.respondRuntime env (.showVariables pattern)
    (result.1, conn, tcpResult result.2)

/-- Why `Dispatch` turns a command away. Behind the gates the flags are looked at again, and are
    the same here. -/
def gate (s : SharedState F A S) (conn : ConnectionContext) (r : Request) : Option String :=
  if env.requirepass ≠ [] ∧ r.privilege ≠ .kRead ∧ ¬ conn.authenticated then
    some "NOAUTH Authentication required"
  else if r.isSnapshotProtected ∧ s.loading then some "LOADING Snapshot load in progress"
  else if r.privilege ≠ .kRead ∧ s.readOnly then some "READONLY Snapshot in progress"
  else none

/-- **`Dispatch`**, behind the parser. -/
def dispatchRequest (s : ServerState F A κ S) (conn : ConnectionContext) (c : Circumstances)
    (r : Request) : ServerState F A κ S × ConnectionContext × Bytes :=
  match gate env s.shared conn r with
  | some message => (s, conn, formatError message)
  | none =>
    let result := handleRequest env s conn c r
    (result.1, result.2.1, responseText result.2.2)

/-- `Dispatch`. -/
def dispatch (s : ServerState F A κ S) (conn : ConnectionContext) (c : Circumstances)
    (line : Bytes) : ServerState F A κ S × ConnectionContext × Bytes :=
  match parseCommand env.stof env.takesPart line env.maxTopK with
  | .error e => (s, conn, formatError e.message)
  | .ok (.auth password) => (s, handleAuth env conn password)
  | .ok r => dispatchRequest env s conn c r

/-! ## 3. HTTP -/

/-- `SetupRoutes`. -/
def setupRoutes : List ((HttpMethod × String) × Endpoint) :=
  [((.post, "/event"), .write .event),
    ((.post, "/vecset"), .write .vecset),
    ((.delete, "/vecset"), .write .vecdel),
    ((.post, "/metaset"), .write .metaset),
    ((.post, "/sim"), .sim),
    ((.post, "/simv"), .simv),
    ((.get, "/info"), .info),
    ((.get, "/health"), .health),
    ((.get, "/health/live"), .healthLive),
    ((.get, "/health/ready"), .healthReady),
    ((.get, "/health/detail"), .healthDetail),
    ((.get, "/config"), .config),
    ((.get, "/metrics"), .metrics),
    ((.get, "/cache/stats"), .cache .stats),
    ((.post, "/cache/clear"), .cache .clear),
    ((.post, "/cache/enable"), .cache .enable),
    ((.post, "/cache/disable"), .cache .disable),
    ((.post, "/dump/save"), .dump .save),
    ((.post, "/dump/load"), .dump .load),
    ((.post, "/dump/verify"), .dump .verify),
    ((.post, "/dump/info"), .dump .info),
    ((.get, "/dump/status"), .dump .status),
    ((.post, "/debug/on"), .debug true),
    ((.post, "/debug/off"), .debug false)]

def endpoint? (method : HttpMethod) (path : Bytes) : Option Endpoint :=
  (setupRoutes.find? fun r => r.1.1 = method ∧ ascii r.1.2 = path).map (·.2)

/-- The handlers that begin with `IsAuthorized`. -/
def Endpoint.requiresAuthorization : Endpoint → Bool
  | .write _ | .cache .clear | .cache .enable | .cache .disable | .dump _ => true
  | _ => false

def kHttpGone : Nat := 410

def ofRuntimeAnswer : RuntimeAnswer → Except HttpError HttpAnswer
  | .http status message => if status = 200 then .ok .done else .error ⟨status, message⟩
  | .tcp _ => .ok .done

def stillLoading : HttpError :=
  ⟨kHttpServiceUnavailable, "Server is loading, please try again later"⟩

/-- `SendError`, or the answer. -/
def ofUnit (result : Except HttpError Unit) : Except HttpError HttpAnswer :=
  result.map fun _ => .done

/-- What the body of a request to clear the cache asks for. -/
def clearScope (body : Bytes) : Except HttpError Bytes :=
  if body = [] then .ok (ascii "all")
  else
    match env.parseJson body with
    | some (.object members) =>
      match (Json.object members).find? (ascii "scope") with
      | none => .ok (ascii "all")
      | some scope =>
        match scope.string? with
        | some text => .ok text
        | none => .error (badRequest "scope must be a string")
    | _ => .error (badRequest "Request body must be a valid JSON object")

/-- `HandleCacheClear`. -/
def httpCacheClear (s : ServerState F A κ S) (body : Bytes) :
    ServerState F A κ S × Except HttpError HttpAnswer :=
  if s.shared.runtime.components.controller.isNone then
    (s, .error ⟨kHttpInternalServerError, "Cache controller not initialized"⟩)
  else
    match clearScope env body with
    | .error e => (s, .error e)
    | .ok scope =>
      if scope = ascii "all" then ({ s with cache := s.cache.clear }, .ok .done)
      else (s, .error (badRequest "Invalid scope. Only 'all' is supported currently."))

/-- The handler of an endpoint, behind its check. -/
def handleEndpoint (s : ServerState F A κ S) (c : Circumstances) (body : Bytes) :
    Endpoint → ServerState F A κ S × Except HttpError HttpAnswer
  | .write route =>
    let result := s.toContext.serveHttp env.toSurfaceEnv true c.clocks c.io route
      (env.parseJson body)
    (s.withContext result.1, ofUnit result.2)
  | .sim =>
    if s.shared.loading then (s, .error stillLoading)
    else
      let result := s.toContext.httpHandleSim env.toFrontEnv c.times (env.parseJson body)
      ({ s with cache := result.1 }, result.2.map .found)
  | .simv =>
    if s.shared.loading then (s, .error stillLoading)
    else
      let result := s.toContext.httpHandleSimv env.toFrontEnv c.times (env.parseJson body)
      ({ s with cache := result.1 }, result.2.map .found)
  | .cache .clear => httpCacheClear env s body
  | .cache .enable =>
    let result := s.respondRuntime env .httpCacheEnable
    (result.1, ofRuntimeAnswer result.2)
  | .cache .disable =>
    let result := s.respondRuntime env .httpCacheDisable
    (result.1, ofRuntimeAnswer result.2)
  | .dump sub =>
    let result := env.httpDump sub body c s.shared
    (s.finishDump result.1, ofUnit result.2)
  | .debug on =>
    (s, .error ⟨kHttpGone, "HTTP debug mode is not supported; use DEBUG " ++
      (if on then "ON" else "OFF") ++ " on a persistent TCP connection"⟩)
  | e => (s, ofUnit (env.httpReport e s))

/-- **A request over HTTP**, if there is a route for it. -/
def serveHttpRequest (s : ServerState F A κ S) (c : Circumstances) (r : HttpRequest) :
    ServerState F A κ S × Except HttpError HttpAnswer :=
  match endpoint? r.method r.path with
  | none => (s, .error ⟨kHttpNotFound, "Not Found"⟩)
  | some e =>
    if e.requiresAuthorization ∧ ¬ isAuthorized env.requirepass r.authorization then
      (s, .error ⟨kHttpUnauthorized, "Authentication required"⟩)
    else handleEndpoint env s c r.body e

/-! ## 4. The server and its connections -/

/-- The connections by their numbers, in the order in which they were accepted. -/
structure ServedState (F A κ S : Type) [DecidableEq κ] where
  server : ServerState F A κ S
  connections : Nat → ConnectionContext := fun _ => {}

/-- What reaches the server: a line of a connection, a request over HTTP, or work of its own, which
    is the decay of the co-occurrence index or a snapshot that is due. -/
inductive Arrival (F A S : Type) where
  | line (connection : Nat) (c : Circumstances) (request : Bytes)
  | http (c : Circumstances) (request : HttpRequest)
  | decay (io : WalIo) (prune : Bool)
  | snapshot (job : SharedState F A S → DumpOutcome F S)

inductive Reply where
  | line (text : Bytes)
  | http (result : Except HttpError HttpAnswer)
  | none

/-- The callback of the decay scheduler. -/
def ServerState.decay (s : ServerState F A κ S) (io : WalIo) (prune : Bool) :
    ServerState F A κ S :=
  { s with shared := { s.shared with
      toHandlerContext := (maintain env.toPlatform s.shared.toHandlerContext io prune).1 } }

/-- **The server takes what arrives.** -/
def ServedState.respond (x : ServedState F A κ S) : Arrival F A S → ServedState F A κ S × Reply
  | .line i c request =>
    let result := dispatch env x.server (x.connections i) c request
    ({ server := result.1, connections := Function.update x.connections i result.2.1 },
      .line result.2.2)
  | .http c request =>
    let result := serveHttpRequest env x.server c request
    ({ x with server := result.1 }, .http result.2)
  | .decay io prune => ({ x with server := x.server.decay env io prune }, .none)
  | .snapshot job => ({ x with server := x.server.finishDump (job x.server.shared) }, .none)

end Server

/-! ## 5. The cache does not feed back -/

section Forget

variable {F A κ S : Type} [DecidableEq κ]

/-- Two contexts that differ at most in the cache. -/
structure ServerContext.SameData (sc sc' : ServerContext F A κ) : Prop where
  handlers : sc.toHandlerContext = sc'.toHandlerContext
  engine : sc.engine = sc'.engine
  cachePublished : sc.cachePublished = sc'.cachePublished
  vectorGeneration : sc.vectorGeneration = sc'.vectorGeneration
  metadataGeneration : sc.metadataGeneration = sc'.metadataGeneration
  datasetGeneration : sc.datasetGeneration = sc'.datasetGeneration
  loading : sc.loading = sc'.loading

/-- Results that differ at most in the cache. -/
def ButForCache {α : Type} (x y : ServerContext F A κ × α) : Prop :=
  x.1.SameData y.1 ∧ x.2 = y.2

variable {sc sc' : ServerContext F A κ}

theorem ServerContext.SameData.updateCache (h : sc.SameData sc')
    (f g : SimilarityCache κ → SimilarityCache κ) :
    (sc.updateCache f).SameData (sc'.updateCache g) := by
  obtain ⟨h₁, h₂, h₃, h₄, h₅, h₆, h₇⟩ := h
  unfold ServerContext.updateCache
  rw [h₃]
  split
  · exact ⟨h₁, h₂, rfl, h₄, h₅, h₆, h₇⟩
  · exact ⟨h₁, h₂, h₃, h₄, h₅, h₆, h₇⟩

theorem butForCache_updateCache {α : Type} (h : sc.SameData sc')
    (f g : SimilarityCache κ → SimilarityCache κ) (result : α) :
    ButForCache (sc.updateCache f, result) (sc'.updateCache g, result) :=
  ⟨h.updateCache f g, rfl⟩

section Writes

variable [AnnIndex A] (sc : ServerContext F A κ) (cache : SimilarityCache κ) (io : WalIo)

theorem notifyAdded_withCache (env : ServerEnv κ) (id : Bytes) :
    { sc with cache := cache }.notifyAdded env id =
      { sc.notifyAdded env id with cache := cache } := by
  unfold ServerContext.notifyAdded
  dsimp only
  split <;> rfl

theorem dispatchVecset_withCache (env : ServerEnv κ) (cmd : Command) :
    ButForCache ({ sc with cache := cache }.dispatchVecset env io cmd)
      (sc.dispatchVecset env io cmd) := by
  unfold ServerContext.dispatchVecset
  dsimp only
  split
  · exact ⟨⟨rfl, rfl, rfl, rfl, rfl, rfl, rfl⟩, rfl⟩
  · rename_i ctx answer _
    have hadd := notifyAdded_withCache { sc with toHandlerContext := ctx } cache env cmd.id
    dsimp only at hadd
    rw [hadd]
    refine butForCache_updateCache ?_ _ _ _
    exact ⟨rfl, rfl, rfl, rfl, rfl, rfl, rfl⟩

theorem dispatchVecdel_withCache (env : ServerEnv κ) (cmd : Command) :
    ButForCache ({ sc with cache := cache }.dispatchVecdel env io cmd)
      (sc.dispatchVecdel env io cmd) := by
  unfold ServerContext.dispatchVecdel
  dsimp only
  split
  · exact ⟨⟨rfl, rfl, rfl, rfl, rfl, rfl, rfl⟩, rfl⟩
  · refine butForCache_updateCache ?_ _ _ _
    exact ⟨rfl, rfl, rfl, rfl, rfl, rfl, rfl⟩

omit [AnnIndex A] in
theorem dispatchMetaset_withCache (env : ServerEnv κ) (cmd : Command) :
    ButForCache ({ sc with cache := cache }.dispatchMetaset env io cmd)
      (sc.dispatchMetaset env io cmd) := by
  unfold ServerContext.dispatchMetaset
  dsimp only
  split
  · exact ⟨⟨rfl, rfl, rfl, rfl, rfl, rfl, rfl⟩, rfl⟩
  · refine butForCache_updateCache ?_ _ _ _
    exact ⟨rfl, rfl, rfl, rfl, rfl, rfl, rfl⟩

theorem httpVecset_withCache (env : SurfaceEnv κ) (body : VecsetBody) :
    ButForCache ({ sc with cache := cache }.httpVecset env io body)
      (sc.httpVecset env io body) := by
  unfold ServerContext.httpVecset
  dsimp only
  split
  · exact ⟨⟨rfl, rfl, rfl, rfl, rfl, rfl, rfl⟩, rfl⟩
  · rename_i ctx _
    have hadd := notifyAdded_withCache { sc with toHandlerContext := ctx } cache env.toServerEnv
      body.id
    dsimp only at hadd
    rw [hadd]
    refine butForCache_updateCache ?_ _ _ _
    exact ⟨rfl, rfl, rfl, rfl, rfl, rfl, rfl⟩

theorem httpVecdel_withCache (env : SurfaceEnv κ) (id : Bytes) :
    ButForCache ({ sc with cache := cache }.httpVecdel env io id) (sc.httpVecdel env io id) := by
  unfold ServerContext.httpVecdel
  dsimp only
  split
  · exact ⟨⟨rfl, rfl, rfl, rfl, rfl, rfl, rfl⟩, rfl⟩
  · refine butForCache_updateCache ?_ _ _ _
    exact ⟨rfl, rfl, rfl, rfl, rfl, rfl, rfl⟩

omit [AnnIndex A] in
theorem httpMetaset_withCache (env : SurfaceEnv κ) (id : Bytes) (metadata : Metadata) :
    ButForCache ({ sc with cache := cache }.httpMetaset env io id metadata)
      (sc.httpMetaset env io id metadata) := by
  unfold ServerContext.httpMetaset
  dsimp only
  split
  · exact ⟨⟨rfl, rfl, rfl, rfl, rfl, rfl, rfl⟩, rfl⟩
  · refine butForCache_updateCache ?_ _ _ _
    exact ⟨rfl, rfl, rfl, rfl, rfl, rfl, rfl⟩

variable [FloatOps F] (clocks : EventClocks)

omit [AnnIndex A] in
theorem dispatchEvent_withCache (env : ServerEnv κ) (cmd : Command) :
    ButForCache ({ sc with cache := cache }.dispatchEvent env clocks io cmd)
      (sc.dispatchEvent env clocks io cmd) := by
  unfold ServerContext.dispatchEvent
  dsimp only
  split
  · exact ⟨⟨rfl, rfl, rfl, rfl, rfl, rfl, rfl⟩, rfl⟩
  · split
    · exact ⟨⟨rfl, rfl, rfl, rfl, rfl, rfl, rfl⟩, rfl⟩
    · split
      · exact ⟨⟨rfl, rfl, rfl, rfl, rfl, rfl, rfl⟩, rfl⟩
      · refine butForCache_updateCache ?_ _ _ _
        exact ⟨rfl, rfl, rfl, rfl, rfl, rfl, rfl⟩

omit [AnnIndex A] in
theorem httpEvent_withCache (env : SurfaceEnv κ) (body : EventBody) :
    ButForCache ({ sc with cache := cache }.httpEvent env clocks io body)
      (sc.httpEvent env clocks io body) := by
  unfold ServerContext.httpEvent
  dsimp only
  split
  · exact ⟨⟨rfl, rfl, rfl, rfl, rfl, rfl, rfl⟩, rfl⟩
  · refine butForCache_updateCache ?_ _ _ _
    exact ⟨rfl, rfl, rfl, rfl, rfl, rfl, rfl⟩

/-- **A command** does and answers the same whatever the cache holds. -/
theorem dispatchWrite_withCache (env : ServerEnv κ) (cmd : Command) :
    ButForCache ({ sc with cache := cache }.dispatchWrite env clocks io cmd)
      (sc.dispatchWrite env clocks io cmd) := by
  unfold ServerContext.dispatchWrite
  split
  · exact dispatchEvent_withCache sc cache io clocks env cmd
  · exact dispatchVecset_withCache sc cache io env cmd
  · exact dispatchVecdel_withCache sc cache io env cmd
  · exact dispatchMetaset_withCache sc cache io env cmd
  · exact ⟨⟨rfl, rfl, rfl, rfl, rfl, rfl, rfl⟩, rfl⟩

/-- **A request that writes** over HTTP does and answers the same whatever the cache holds. -/
theorem serveHttp_withCache (env : SurfaceEnv κ) (authorized : Bool) (route : HttpRoute)
    (body : Option Json) :
    ButForCache ({ sc with cache := cache }.serveHttp env authorized clocks io route body)
      (sc.serveHttp env authorized clocks io route body) := by
  have hsame : ({ sc with cache := cache } : ServerContext F A κ).SameData sc :=
    ⟨rfl, rfl, rfl, rfl, rfl, rfl, rfl⟩
  unfold ServerContext.serveHttp
  dsimp only
  split
  · exact ⟨hsame, rfl⟩
  · split
    · exact ⟨hsame, rfl⟩
    · split
      · exact ⟨hsame, rfl⟩
      · unfold ServerContext.routeHttp
        dsimp only
        split
        · split
          · exact ⟨hsame, rfl⟩
          · exact httpEvent_withCache sc cache io clocks env _
        · split
          · exact ⟨hsame, rfl⟩
          · exact httpVecset_withCache sc cache io env _
        · split
          · exact ⟨hsame, rfl⟩
          · exact httpVecdel_withCache sc cache io env _
        · split
          · exact ⟨hsame, rfl⟩
          · exact httpMetaset_withCache sc cache io env _ _

end Writes

section States

variable {env : AccessEnv F A κ S} {s t : ServerState F A κ S}

theorem shared_withContext {x y : ServerContext F A κ} (h : x.SameData y)
    (hs : s.shared = t.shared) : (s.withContext x).shared = (t.withContext y).shared := by
  unfold ServerState.withContext SharedState.withContext
  dsimp only
  rw [hs, h.handlers, h.engine, h.vectorGeneration, h.metadataGeneration, h.datasetGeneration,
    h.loading]

theorem toContext_of_shared (hs : s.shared = t.shared) :
    s.toContext = { t.toContext with cache := s.cache } := by
  unfold ServerState.toContext
  rw [hs]
  rfl

theorem shared_respondRuntime (hs : s.shared = t.shared) (r : RuntimeRequest) :
    (s.respondRuntime env r).1.shared = (t.respondRuntime env r).1.shared ∧
      (s.respondRuntime env r).2 = (t.respondRuntime env r).2 := by
  unfold ServerState.respondRuntime ServerState.withRuntime
  rw [hs]
  exact ⟨rfl, rfl⟩

theorem shared_handleCacheClear (hs : s.shared = t.shared) :
    (handleCacheClear s).1.shared = (handleCacheClear t).1.shared ∧
      (handleCacheClear s).2 = (handleCacheClear t).2 := by
  unfold handleCacheClear
  rw [hs]
  split
  · exact ⟨hs, rfl⟩
  · exact ⟨rfl, rfl⟩

theorem shared_httpCacheClear (hs : s.shared = t.shared) (body : Bytes) :
    (httpCacheClear env s body).1.shared = (httpCacheClear env t body).1.shared ∧
      (httpCacheClear env s body).2 = (httpCacheClear env t body).2 := by
  unfold httpCacheClear
  rw [hs]
  split
  · exact ⟨hs, rfl⟩
  · split
    · exact ⟨hs, rfl⟩
    · split
      · exact ⟨rfl, rfl⟩
      · exact ⟨hs, rfl⟩

variable [AnnIndex A]

theorem shared_finishDump (hs : s.shared = t.shared) (outcome : DumpOutcome F S) :
    (s.finishDump outcome).shared = (t.finishDump outcome).shared := by
  unfold ServerState.finishDump
  cases outcome.loaded with
  | none =>
    dsimp only
    rw [hs]
  | some staged =>
    have hloaded : (publishLoaded s.toContext staged).SameData
        (publishLoaded t.toContext staged) := by
      rw [toContext_of_shared hs]
      unfold publishLoaded
      refine ServerContext.SameData.updateCache ?_ _ _
      exact ⟨rfl, rfl, rfl, rfl, rfl, rfl, rfl⟩
    dsimp only
    rw [shared_withContext hloaded hs]

end States

variable [FloatOps F] [AnnIndex A] {env : AccessEnv F A κ S} {s t : ServerState F A κ S}

/-- **A command leaves the same behind** whatever the cache holds, but for the cache. -/
theorem shared_handleRequest (hs : s.shared = t.shared) (conn : ConnectionContext)
    (c : Circumstances) (r : Request) :
    (handleRequest env s conn c r).1.shared = (handleRequest env t conn c r).1.shared ∧
      (handleRequest env s conn c r).2.1 = (handleRequest env t conn c r).2.1 := by
  cases r with
  | auth password => exact ⟨hs, rfl⟩
  | write cmd =>
    have hwrite := dispatchWrite_withCache t.toContext s.cache c.io c.clocks env.toServerEnv cmd
    rw [← toContext_of_shared hs] at hwrite
    exact ⟨shared_withContext hwrite.1 hs, rfl⟩
  | sim cmd => exact ⟨hs, rfl⟩
  | simv cmd => exact ⟨hs, rfl⟩
  | info => exact ⟨hs, rfl⟩
  | config sub path =>
    cases sub with
    | help => exact ⟨hs, rfl⟩
    | «show» =>
      simp only [handleRequest]
      exact ⟨(shared_respondRuntime hs (.configShow path)).1, trivial⟩
    | verify => exact ⟨hs, rfl⟩
  | dump sub path =>
    refine ⟨?_, rfl⟩
    simp only [handleRequest, hs]
    exact shared_finishDump hs _
  | debug on => exact ⟨hs, rfl⟩
  | cache sub =>
    cases sub with
    | stats => exact ⟨hs, rfl⟩
    | clear => exact ⟨(shared_handleCacheClear hs).1, rfl⟩
    | enable =>
      simp only [handleRequest]
      exact ⟨(shared_respondRuntime hs .cacheEnable).1, trivial⟩
    | disable =>
      simp only [handleRequest]
      exact ⟨(shared_respondRuntime hs .cacheDisable).1, trivial⟩
  | set name value =>
    simp only [handleRequest]
    exact ⟨(shared_respondRuntime hs (.set name value)).1, trivial⟩
  | get name =>
    simp only [handleRequest]
    exact ⟨(shared_respondRuntime hs (.get name)).1, trivial⟩
  | showVariables pattern =>
    simp only [handleRequest]
    exact ⟨(shared_respondRuntime hs (.showVariables pattern)).1, trivial⟩

theorem shared_dispatch (hs : s.shared = t.shared) (conn : ConnectionContext) (c : Circumstances)
    (line : Bytes) :
    (dispatch env s conn c line).1.shared = (dispatch env t conn c line).1.shared ∧
      (dispatch env s conn c line).2.1 = (dispatch env t conn c line).2.1 := by
  have hrequest : ∀ r, (dispatchRequest env s conn c r).1.shared =
      (dispatchRequest env t conn c r).1.shared ∧
        (dispatchRequest env s conn c r).2.1 = (dispatchRequest env t conn c r).2.1 := by
    intro r
    unfold dispatchRequest
    rw [hs]
    split
    · exact ⟨hs, rfl⟩
    · exact shared_handleRequest hs conn c r
  unfold dispatch
  split
  · exact ⟨hs, rfl⟩
  · exact ⟨hs, rfl⟩
  · exact hrequest _

theorem shared_serveHttpRequest (hs : s.shared = t.shared) (c : Circumstances) (r : HttpRequest) :
    (serveHttpRequest env s c r).1.shared = (serveHttpRequest env t c r).1.shared := by
  unfold serveHttpRequest
  split
  · exact hs
  · split
    · exact hs
    · rename_i e _ _
      cases e with
      | write route =>
        have hwrite := serveHttp_withCache t.toContext s.cache c.io c.clocks env.toSurfaceEnv true
          route (env.parseJson r.body)
        rw [← toContext_of_shared hs] at hwrite
        exact shared_withContext hwrite.1 hs
      | sim =>
        simp only [handleEndpoint, hs]
        split
        · exact hs
        · rfl
      | simv =>
        simp only [handleEndpoint, hs]
        split
        · exact hs
        · rfl
      | cache sub =>
        cases sub with
        | stats => exact hs
        | clear => exact (shared_httpCacheClear hs r.body).1
        | enable => exact (shared_respondRuntime hs .httpCacheEnable).1
        | disable => exact (shared_respondRuntime hs .httpCacheDisable).1
      | dump sub =>
        simp only [handleEndpoint, hs]
        exact shared_finishDump hs _
      | debug on => exact hs
      | info => exact hs
      | health => exact hs
      | healthLive => exact hs
      | healthReady => exact hs
      | healthDetail => exact hs
      | config => exact hs
      | metrics => exact hs

/-- What is left of the server if the contents of the cache are forgotten. -/
def ServedState.forget (x : ServedState F A κ S) :
    SharedState F A S × (Nat → ConnectionContext) :=
  (x.server.shared, x.connections)

/-- **The cache does not feed back**: whatever it holds, the server goes on in the same way. -/
theorem forget_respond {x y : ServedState F A κ S} (h : x.forget = y.forget)
    (a : Arrival F A S) : (x.respond env a).1.forget = (y.respond env a).1.forget := by
  obtain ⟨hs, hconn⟩ := Prod.mk.inj h
  cases a with
  | line i c request =>
    obtain ⟨hshared, hnext⟩ := @shared_dispatch _ _ _ _ _ _ _ env _ _ hs (x.connections i) c
      request
    refine Prod.ext ?_ ?_
    · rw [hconn] at hshared
      simpa only [ServedState.respond, ServedState.forget, hconn] using hshared
    · rw [hconn] at hnext
      simp only [ServedState.respond, ServedState.forget, hconn, hnext]
  | http c request => exact Prod.ext (shared_serveHttpRequest hs c request) hconn
  | decay io prune =>
    refine Prod.ext ?_ hconn
    simp only [ServedState.respond, ServedState.forget, ServerState.decay, hs]
  | snapshot job =>
    refine Prod.ext ?_ hconn
    simp only [ServedState.respond, ServedState.forget, hs]
    exact shared_finishDump hs _

end Forget

end Nvecd.Server
