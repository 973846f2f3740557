/-
  File:      Nvecd/Server/Handlers.lean
  Subject:   The writes of the server: the handlers of `server/request_dispatcher.cpp`, those of
             `server/http_server.cpp` behind their parsing of the request, the callback of the
             decay scheduler (`server/nvecd_server.cpp`), and `ReplayRecord`.

  A write validates its command against the stores, appends it to the WAL, and only then
  changes the stores. One write runs at a time (`write_serialization_gate`); what happens between
  the steps of a write is the subject of `Nvecd/Server/WriteSteps.lean`.

  * `Platform` -- the numeric functions taken from outside;
  * `HandlerContext` -- the stores, the WAL, and `read_only`;
  * `handleEvent`, `handleVecset`, `handleVecdel`, `handleMetaset`, their HTTP counterparts, and
    `maintain`; `Write`, `perform` -- any of them;
  * `replayRecord`; `replayStep` -- a machine whose runs are replays.

  No handler reads the cache, the ANN index or the generation counters to decide what it writes;
  `Nvecd/Server/Dispatcher.lean` adds them.
-/
import Nvecd.Events.CoOccurrence
import Nvecd.Server.WalCodec
import Nvecd.Storage.WalRun

namespace Nvecd.Server

open Nvecd.Lib Nvecd.Utils Nvecd.Storage Nvecd.Events Nvecd.Vectors

/-! ## 1. The context of a handler -/

/-- What the program takes from its libraries: the checksum of WAL records, the norm of a
    vector, and the reading of a floating-point number. -/
structure Platform where
  crc32 : Bytes → UInt32
  l2Norm : List UInt32 → UInt32
  strtod : Bytes → Option UInt64

structure Config where
  events : EventsConfig
  /-- `wal.include_vectors`. -/
  includeVectors : Bool := true

structure Stores (F : Type) where
  eventStore : EventStore
  coIndex : CoOccurrenceIndex F
  vectorStore : VectorStore := {}
  metadataStore : MetadataStore := {}

structure HandlerContext (F : Type) where
  config : Config
  stores : Stores F
  /-- `none` while the log is replayed. -/
  wal : Option WalRun := none
  readOnly : Bool := false

/-- What `Append` meets: how its I/O ends, and the time it stamps the record with. -/
structure WalIo where
  io : AppendIo := {}
  nowUs : Nat := 0

/-- The clocks of `PrepareEvent` and of `AddEventAndGetPrior`. -/
structure EventClocks where
  prepare : Clock
  apply : Clock

/-- `FormatOK`. -/
def formatOk (msg : String) : String := "OK " ++ msg ++ "\r\n"

/-- An HTTP error: status and message. -/
structure HttpError where
  status : Nat
  message : String

def kHttpBadRequest : Nat := 400

def kHttpNotFound : Nat := 404

def kHttpServiceUnavailable : Nat := 503

section Handlers

variable {F : Type} [FloatOps F] (env : Platform)

/-- Empty stores. -/
def Stores.new (cfg : Config) : Stores F :=
  { eventStore := .new cfg.events, coIndex := .new cfg.events }

/-- `read_only.store(true)`: nothing is written any more. -/
def HandlerContext.failStop (ctx : HandlerContext F) : HandlerContext F :=
  { ctx with readOnly := true }

/-- The append that `AppendToWal`, `AppendCommandToWal` and the decay callback make; its failure
    is a fail-stop. -/
def appendRecord (ctx : HandlerContext F) (w : WalRun) (io : WalIo) (op : WalOpType)
    (payload : Bytes) : HandlerContext F × Except Error Unit :=
  let ctx := { ctx with wal := some (w.append env.crc32 io.io io.nowUs op payload) }
  match (append env.crc32 w.cfg io.io io.nowUs op payload w.wal).2 with
  | .error e => (ctx.failStop, .error e)
  | .ok _ => (ctx, .ok ())

/-- `AppendToWal`; `AppendCommandToWal` of the HTTP server does the same. -/
def appendToWal (ctx : HandlerContext F) (io : WalIo) (cmd : Command) :
    HandlerContext F × Except Error Unit :=
  match ctx.wal with
  | none => (ctx, .ok ())
  | some w =>
    if cmd.type = .kVecset ∧ ¬ ctx.config.includeVectors then (ctx, .ok ())
    else appendRecord env ctx w io (walOpForCommand cmd) (encodeCommand cmd)

/-! ## 2. `EVENT` -/

/-- The event goes to its store. -/
def ingest (ctx : HandlerContext F) (clock : Clock) (cmd : Command) :
    HandlerContext F × Except Error IngestResult :=
  let (es, result) := ctx.stores.eventStore.addEventAndGetPrior clock cmd.ctx cmd.id cmd.score
    cmd.eventType (cmd.timestamp.getD 0)
  ({ ctx with stores := { ctx.stores with eventStore := es } }, result)

/-- The co-occurrence update behind an ingested event. -/
def updateCoIndex (ctx : HandlerContext F) (result : IngestResult) : HandlerContext F :=
  let coIndex := ctx.stores.coIndex.applyIngestedEvent result.priorEvents result.storedEvent
    (.ofConfig ctx.config.events)
  { ctx with stores := { ctx.stores with coIndex := coIndex } }

/-- `HandleEvent`. -/
def handleEvent (ctx : HandlerContext F) (clocks : EventClocks) (io : WalIo) (cmd : Command) :
    HandlerContext F × Except Error String :=
  match ctx.stores.eventStore.prepareEvent clocks.prepare cmd.ctx cmd.id cmd.score cmd.eventType
      (cmd.timestamp.getD 0) with
  | .error e => (ctx, .error e)
  | .ok prepared =>
    if prepared.deduped then
      -- the duplicate is counted, not logged
      match ingest ctx clocks.apply { cmd with timestamp := some prepared.event.timestamp } with
      | (ctx, .ok { deduped := true, .. }) => (ctx, .ok (formatOk "EVENT"))
      | (ctx, _) => (ctx.failStop,
          .error (makeError .kInternalError "Event dedup state changed during acceptance"))
    else
      let walCmd := { cmd with
        score := prepared.event.score
        eventType := prepared.event.type
        timestamp := some prepared.event.timestamp }
      match appendToWal env ctx io walCmd with
      | (ctx, .error e) => (ctx, .error e)
      | (ctx, .ok ()) =>
        match ingest ctx clocks.apply walCmd with
        | (ctx, .ok result) =>
          if result.deduped then (ctx.failStop,
            .error (makeError .kInternalError "Event apply diverged after WAL acceptance"))
          else (updateCoIndex ctx result, .ok (formatOk "EVENT"))
        | (ctx, .error _) => (ctx.failStop,
            .error (makeError .kInternalError "Event apply diverged after WAL acceptance"))

/-! ## 3. `VECSET`, `VECDEL`, `METASET` -/

def setMetadata (ctx : HandlerContext F) (id : Bytes) (m : Metadata) : HandlerContext F :=
  { ctx with stores := { ctx.stores with metadataStore := ctx.stores.metadataStore.set id m } }

/-- `HandleVecset`. -/
def handleVecset (ctx : HandlerContext F) (io : WalIo) (cmd : Command) :
    HandlerContext F × Except Error String :=
  match ctx.stores.vectorStore.validateVector env.l2Norm cmd.id cmd.vector with
  | .error e => (ctx, .error e)
  | .ok () =>
    match appendToWal env ctx io cmd with
    | (ctx, .error e) => (ctx, .error e)
    | (ctx, .ok ()) =>
      match ctx.stores.vectorStore.setVector env.l2Norm cmd.id cmd.vector with
      | (vs, .error e) =>
        ({ ctx with stores := { ctx.stores with vectorStore := vs } }.failStop, .error e)
      | (vs, .ok ()) =>
        let ctx := { ctx with stores := { ctx.stores with vectorStore := vs } }
        let ctx :=
          match cmd.metadata with
          | some m => setMetadata ctx cmd.id m
          | none => ctx
        (ctx, .ok (formatOk "VECSET"))

def vectorNotFound (id : Bytes) : Error :=
  makeError .kVectorNotFound ("Vector not found: " ++ textOf id)

/-- `HandleVecdel`: first the vector goes and its store is compacted, then the metadata. -/
def handleVecdel (ctx : HandlerContext F) (io : WalIo) (cmd : Command) :
    HandlerContext F × Except Error String :=
  match ctx.stores.vectorStore.getCompactIndex cmd.id with
  | none => (ctx, .error (vectorNotFound cmd.id))
  | some _ =>
    match appendToWal env ctx io cmd with
    | (ctx, .error e) => (ctx, .error e)
    | (ctx, .ok ()) =>
      match ctx.stores.vectorStore.deleteVector cmd.id with
      | (vs, false) =>
        ({ ctx with stores := { ctx.stores with vectorStore := vs } }.failStop,
          .error (vectorNotFound cmd.id))
      | (vs, true) =>
        let stores := { ctx.stores with
          vectorStore := vs.defragment
          metadataStore := ctx.stores.metadataStore.delete cmd.id }
        ({ ctx with stores := stores }, .ok (formatOk "VECDEL"))

/-- The fields a filter names, with their values; the operators do not matter. -/
def metadataOf : List FilterCondition → Metadata → Except Error Metadata
  | [], m => .ok m
  | condition :: conditions, m =>
    if condition.field = [] then
      .error (makeError .kCommandInvalidArgument "Metadata key must not be empty")
    else metadataOf conditions (m.insert condition.field condition.value)

/-- The metadata of a `METASET`: typed, or the text parsed. -/
def parseMetadata (cmd : Command) : Except Error Metadata :=
  match cmd.metadata with
  | some m => .ok m
  | none =>
    match parseSimpleFilter env.strtod cmd.filterExpr with
    | .error e => .error e
    | .ok conditions => metadataOf conditions .empty

/-- `HandleMetaset`. -/
def handleMetaset (ctx : HandlerContext F) (io : WalIo) (cmd : Command) :
    HandlerContext F × Except Error String :=
  match ctx.stores.vectorStore.getCompactIndex cmd.id with
  | none => (ctx, .error (makeError .kVectorNotFound
      ("Vector not found for metadata: " ++ textOf cmd.id)))
  | some _ =>
    match parseMetadata env cmd with
    | .error e => (ctx, .error e)
    | .ok m =>
      match appendToWal env ctx io cmd with
      | (ctx, .error e) => (ctx, .error e)
      | (ctx, .ok ()) => (setMetadata ctx cmd.id m, .ok (formatOk "METASET"))

/-! ## 4. The same over HTTP -/

/-- `HttpServer::HandleEvent`, behind the JSON. -/
def httpHandleEvent (ctx : HandlerContext F) (clocks : EventClocks) (io : WalIo)
    (ctxId id : Bytes) (type : EventType) (score : Int) (timestamp : UInt64) :
    HandlerContext F × Except HttpError Unit :=
  if type ≠ .DEL ∧ (score < kMinEventScore ∨ score > kMaxEventScore) then
    (ctx, .error ⟨kHttpBadRequest, "Field 'score' must be in range [0, 100], got " ++
      toString score⟩)
  else
    let cmd : Command := { type := .kEvent, ctx := ctxId, id := id, eventType := type
                           score := if type = .DEL then 0 else score
                           timestamp := some timestamp }
    match ctx.stores.eventStore.prepareEvent clocks.prepare ctxId id cmd.score type timestamp with
    | .error e => (ctx, .error ⟨kHttpBadRequest, e.message⟩)
    | .ok prepared =>
      if prepared.deduped then
        match ingest ctx clocks.apply { cmd with timestamp := some prepared.event.timestamp } with
        | (ctx, .ok { deduped := true, .. }) => (ctx, .ok ())
        | (ctx, _) => (ctx.failStop,
            .error ⟨kHttpServiceUnavailable, "Event dedup state changed during acceptance"⟩)
      else
        let walCmd := { cmd with
          score := prepared.event.score
          eventType := prepared.event.type
          timestamp := some prepared.event.timestamp }
        match appendToWal env ctx io walCmd with
        | (ctx, .error e) => (ctx, .error ⟨kHttpServiceUnavailable, e.message⟩)
        | (ctx, .ok ()) =>
          match ingest ctx clocks.apply walCmd with
          | (ctx, .ok result) =>
            if result.deduped then (ctx.failStop,
              .error ⟨kHttpServiceUnavailable, "Event apply diverged after WAL acceptance"⟩)
            else (updateCoIndex ctx result, .ok ())
          | (ctx, .error _) => (ctx.failStop,
              .error ⟨kHttpServiceUnavailable, "Event apply diverged after WAL acceptance"⟩)

/-- What `HttpServer::HandleVecset` logs: without vectors in the WAL, the metadata alone. -/
def vecsetLogEntry (includeVectors : Bool) (id : Bytes) (vector : List UInt32)
    (metadata : Option Metadata) : Command :=
  if includeVectors then
    { type := .kVecset, id := id, vector := vector, dimension := vector.length
      metadata := metadata }
  else
    match metadata with
    | some m => { type := .kMetaset, id := id, metadata := some m }
    | none => {}

/-- `HttpServer::HandleVecset`, behind the JSON. -/
def httpHandleVecset (ctx : HandlerContext F) (io : WalIo) (id : Bytes) (vector : List UInt32)
    (metadata : Option Metadata) : HandlerContext F × Except HttpError Unit :=
  let dim := ctx.stores.vectorStore.dimension
  if vector = [] then (ctx, .error ⟨kHttpBadRequest, "Field 'vector' must not be empty"⟩)
  else if dim > 0 ∧ vector.length ≠ dim then
    (ctx, .error ⟨kHttpBadRequest, "Field 'vector' dimension mismatch: expected " ++
      toString dim ++ ", got " ++ toString vector.length⟩)
  else
    match ctx.stores.vectorStore.validateVector env.l2Norm id vector with
    | .error e => (ctx, .error ⟨kHttpBadRequest, e.message⟩)
    | .ok () =>
      let walCommand := vecsetLogEntry ctx.config.includeVectors id vector metadata
      let logged : HandlerContext F × Except Error Unit :=
        if walCommand.type ≠ .kUnknown then appendToWal env ctx io walCommand else (ctx, .ok ())
      match logged with
      | (ctx, .error e) => (ctx, .error ⟨kHttpServiceUnavailable, e.message⟩)
      | (ctx, .ok ()) =>
        match ctx.stores.vectorStore.setVector env.l2Norm id vector with
        | (vs, .error e) =>
          ({ ctx with stores := { ctx.stores with vectorStore := vs } }.failStop,
            .error ⟨kHttpServiceUnavailable, e.message⟩)
        | (vs, .ok ()) =>
          let ctx := { ctx with stores := { ctx.stores with vectorStore := vs } }
          let ctx :=
            match vs.getCompactIndex id, metadata with
            | some _, some m => setMetadata ctx id m
            | _, _ => ctx
          (ctx, .ok ())

/-- `HttpServer::HandleVecdel`, behind the JSON. -/
def httpHandleVecdel (ctx : HandlerContext F) (io : WalIo) (id : Bytes) :
    HandlerContext F × Except HttpError Unit :=
  if id = [] then (ctx, .error ⟨kHttpBadRequest, "Field 'id' must not be empty"⟩)
  else
    match ctx.stores.vectorStore.getCompactIndex id with
    | none => (ctx, .error ⟨kHttpNotFound, "Vector not found: " ++ textOf id⟩)
    | some _ =>
      match appendToWal env ctx io { type := .kVecdel, id := id } with
      | (ctx, .error e) => (ctx, .error ⟨kHttpServiceUnavailable, e.message⟩)
      | (ctx, .ok ()) =>
        match ctx.stores.vectorStore.deleteVector id with
        | (vs, false) =>
          ({ ctx with stores := { ctx.stores with vectorStore := vs } }.failStop,
            .error ⟨kHttpServiceUnavailable, "Vector disappeared after WAL acceptance"⟩)
        | (vs, true) =>
          let stores := { ctx.stores with
            vectorStore := vs.defragment
            metadataStore := ctx.stores.metadataStore.delete id }
          ({ ctx with stores := stores }, .ok ())

/-- `HttpServer::HandleMetaset`, behind the JSON. -/
def httpHandleMetaset (ctx : HandlerContext F) (io : WalIo) (id : Bytes) (metadata : Metadata) :
    HandlerContext F × Except HttpError Unit :=
  match ctx.stores.vectorStore.getCompactIndex id with
  | none => (ctx, .error ⟨kHttpNotFound, "Vector not found for metadata: " ++ textOf id⟩)
  | some _ =>
    match appendToWal env ctx io { type := .kMetaset, id := id, metadata := some metadata } with
    | (ctx, .error e) => (ctx, .error ⟨kHttpServiceUnavailable, e.message⟩)
    | (ctx, .ok ()) => (setMetadata ctx id metadata, .ok ())

/-! ## 5. Maintenance, and writes in general -/

/-- The payload of a maintenance record: the bits of `alpha`, and whether to prune. -/
def maintenancePayload (alpha : UInt64) (prune : Bool) : Bytes :=
  leBytes 8 alpha.toNat ++ [if prune then 1 else 0]

/-- `ApplyDecay`, then `Prune` if asked for. -/
def decayIndex (x : CoOccurrenceIndex F) (alpha : UInt64) (prune : Bool) : CoOccurrenceIndex F :=
  let x := x.applyDecay alpha
  if prune then x.prune else x

/-- The callback of the decay scheduler, with the WAL enabled. -/
def maintain (ctx : HandlerContext F) (io : WalIo) (prune : Bool) :
    HandlerContext F × Except Error Unit :=
  let alpha := ctx.config.events.decayAlpha
  if ctx.readOnly then
    (ctx, .error (makeError .kEventDecayFailed "Server is read-only; decay maintenance skipped"))
  else
    let logged : HandlerContext F × Except Error Unit :=
      match ctx.wal with
      | none => (ctx, .ok ())
      | some w => appendRecord env ctx w io .kCoOccurrenceMaintenance
          (maintenancePayload alpha prune)
    match logged with
    | (ctx, .error e) => (ctx, .error e)
    | (ctx, .ok ()) =>
      let coIndex := decayIndex ctx.stores.coIndex alpha prune
      ({ ctx with stores := { ctx.stores with coIndex := coIndex } }, .ok ())

/-- A write, with all it reads from outside. -/
inductive Write where
  /-- A command of a connection; `Dispatch` has let it through. -/
  | command (clocks : EventClocks) (io : WalIo) (cmd : Command)
  | httpEvent (clocks : EventClocks) (io : WalIo) (ctxId id : Bytes) (type : EventType)
      (score : Int) (timestamp : UInt64)
  | httpVecset (io : WalIo) (id : Bytes) (vector : List UInt32) (metadata : Option Metadata)
  | httpVecdel (io : WalIo) (id : Bytes)
  | httpMetaset (io : WalIo) (id : Bytes) (metadata : Metadata)
  | decay (io : WalIo) (prune : Bool)

/-- The handler a command is routed to. -/
def handleCommand (ctx : HandlerContext F) (clocks : EventClocks) (io : WalIo) (cmd : Command) :
    HandlerContext F × Except Error String :=
  match cmd.type with
  | .kEvent => handleEvent env ctx clocks io cmd
  | .kVecset => handleVecset env ctx io cmd
  | .kVecdel => handleVecdel env ctx io cmd
  | .kMetaset => handleMetaset env ctx io cmd
  | .kUnknown => (ctx, .error (makeError .kCommandUnknown "Unknown command type"))

/-- The write runs; the truth value says whether it was acknowledged. While the server is
    read-only every write is refused. -/
def perform (ctx : HandlerContext F) (write : Write) : HandlerContext F × Bool :=
  if ctx.readOnly then (ctx, false)
  else
    match write with
    | .command clocks io cmd =>
      let (ctx, result) := handleCommand env ctx clocks io cmd
      (ctx, result.isOk)
    | .httpEvent clocks io ctxId id type score timestamp =>
      let (ctx, result) := httpHandleEvent env ctx clocks io ctxId id type score timestamp
      (ctx, result.isOk)
    | .httpVecset io id vector metadata =>
      let (ctx, result) := httpHandleVecset env ctx io id vector metadata
      (ctx, result.isOk)
    | .httpVecdel io id =>
      let (ctx, result) := httpHandleVecdel env ctx io id
      (ctx, result.isOk)
    | .httpMetaset io id metadata =>
      let (ctx, result) := httpHandleMetaset env ctx io id metadata
      (ctx, result.isOk)
    | .decay io prune =>
      let (ctx, result) := maintain env ctx io prune
      (ctx, result.isOk)

/-! ## 6. Replay -/

/-- `ReplayRecord` of a maintenance record. -/
def replayMaintenance (ctx : HandlerContext F) (payload : Bytes) :
    HandlerContext F × Except Error Unit :=
  if payload.length ≠ 9 then
    (ctx, .error (makeError .kWalCorrupted "Invalid co-occurrence maintenance WAL payload size"))
  else
    let alpha := UInt64.ofNat (ofLeBytes (payload.take 8))
    let prune := ofLeBytes (payload.drop 8)
    if ¬ isFiniteDouble alpha ∨ leZeroDouble alpha ∨ gtOneDouble alpha ∨ prune > 1 then
      (ctx, .error (makeError .kWalCorrupted "Invalid co-occurrence maintenance WAL payload"))
    else
      let coIndex := decayIndex ctx.stores.coIndex alpha (prune != 0)
      ({ ctx with stores := { ctx.stores with coIndex := coIndex } }, .ok ())

/-- `ReplayRecord`. -/
def replayRecord (ctx : HandlerContext F) (clocks : EventClocks) (record : WalRecord) :
    HandlerContext F × Except Error Unit :=
  if record.op = WalOpType.kCoOccurrenceMaintenance.toByte then
    replayMaintenance ctx record.payload
  else
    match decodeWalRecord record with
    | .error e => (ctx, .error e)
    | .ok cmd =>
      match handleCommand env ctx clocks {} cmd with
      | (ctx, .error e) => (ctx, .error e)
      | (ctx, .ok _) => (ctx, .ok ())

/-- A replay as a machine: one record after the other, each at its clocks. A record that is
    rejected is not a step. -/
def replayStep (ctx : HandlerContext F) (record : EventClocks × WalRecord) :
    Option (HandlerContext F) :=
  match replayRecord env ctx record.1 record.2 with
  | (ctx, .ok ()) => some ctx
  | (_, .error _) => none

end Handlers

end Nvecd.Server
