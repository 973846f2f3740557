/-
  File:      Nvecd/Storage/SnapshotFormat.lean
  Subject:   The container of a snapshot: `WriteSnapshotV1`, `ReadSnapshotV1`,
             `VerifySnapshotIntegrity`, `GetSnapshotInfo` (`storage/snapshot_format_v1.cpp`).

  A file is a fixed header (magic, version), the V1 header, a configuration section, a statistics
  section if the flags say so, a count, and one section for each store. A section is its size, its
  checksum and its bytes. The header is written three times: with no size and no checksum, with
  the size once the file is complete, and the checksum over it once it has been computed.

  Files are opened, created and renamed elsewhere; here a file is its bytes, and a write does what
  it is asked. The readers leave the targets of a failed read unspecified; they return the error
  and, apart, what `IntegrityError` says.

  * `HeaderV1`, `SnapshotConfig`, `SnapshotStatistics`, `StoreStatistics` -- what is written;
  * `calculateFileCRC32Streaming` -- the checksum in chunks, with its own field as zero;
  * `writeSnapshotV1`, `readSnapshotV1`, `verifySnapshotIntegrity`, `getSnapshotInfo`.
-/
import Nvecd.Lib.Crc32
import Nvecd.Storage.SnapshotEvents
import Nvecd.Storage.SnapshotVectors

namespace Nvecd.Storage.Snapshot

open Nvecd.Lib Nvecd.Utils Nvecd.Events Nvecd.Vectors

/-! ## 1. Constants -/

def kMaxConfigSize : Nat := 16 * 1024 * 1024

def kMaxStatsSize : Nat := 16 * 1024 * 1024

def kMaxStoreDataSize : Nat := 512 * 1024 * 1024

def kMaxStoreStatsSize : Nat := 16 * 1024 * 1024

def kMaxSnapshotFileSize : Nat := 3 * 1024 * 1024 * 1024

/-- `NVEC`. -/
def kMagicNumber : Bytes := [78, 86, 69, 67]

def kCurrentVersion : UInt32 := 1

def kMinSupportedVersion : UInt32 := 1

def kMaxSupportedVersion : UInt32 := 1

def kFixedHeaderSize : Nat := 8

/-- Where `file_crc32` stands in the file. -/
def kFileCRC32Offset : Nat := kFixedHeaderSize + 24

def kWithStatistics : UInt32 := 0x00000008

def kWithCRC : UInt32 := 0x00000010

/-! ## 2. Failures -/

inductive CRCErrorType where
  | FileCRC
  | ConfigCRC
  | StatsCRC
  | StoreStatsCRC
  | EventStoreCRC
  | CoOccurrenceCRC
  | VectorStoreCRC
  | MetadataStoreCRC
  deriving DecidableEq, Repr

structure IntegrityError where
  type : CRCErrorType
  message : String
  storeName : String := ""
  deriving DecidableEq, Repr

/-- A failed read: the error returned, and what the caller's `IntegrityError` is set to. -/
structure Failure where
  error : Error
  integrity : Option IntegrityError := none
  deriving DecidableEq, Repr

/-- An error that says nothing about checksums. -/
def plain (e : Error) : Failure := ⟨e, none⟩

/-- `fail_file_integrity`. -/
def failFileIntegrity (message : String) : Failure :=
  ⟨readError message, some { type := .FileCRC, message := message }⟩

/-! ## 3. Numbers -/

def writeU32 (x : UInt32) : Bytes := leBytes 4 x.toNat

def writeU64 (x : UInt64) : Bytes := leBytes 8 x.toNat

def readU32 (stream : Bytes) : Option (UInt32 × Bytes) :=
  (readNumber 4 stream).map fun p => (UInt32.ofNat p.1, p.2)

def readU64 (stream : Bytes) : Option (UInt64 × Bytes) :=
  (readNumber 8 stream).map fun p => (UInt64.ofNat p.1, p.2)

/-- A field of four bytes that must be there. -/
def readField32 (name : String) (stream : Bytes) : Except Error (UInt32 × Bytes) :=
  orError (readError ("Failed to read " ++ name)) (readU32 stream)

def readField64 (name : String) (stream : Bytes) : Except Error (UInt64 × Bytes) :=
  orError (readError ("Failed to read " ++ name)) (readU64 stream)

def readFieldString (name : String) (stream : Bytes) : Except Error (Bytes × Bytes) :=
  orError (readError ("Failed to read " ++ name)) (readString stream)

/-! ## 4. Header, configuration, statistics -/

structure HeaderV1 where
  headerSize : UInt32 := 0
  flags : UInt32 := 0
  snapshotTimestamp : UInt64 := 0
  totalFileSize : UInt64 := 0
  fileCrc32 : UInt32 := 0
  reserved : Bytes := []

/-- `WriteHeaderV1`. -/
def writeHeaderV1 (header : HeaderV1) : Except Error Bytes := do
  let reserved ← orError (writeError "Failed to write reserved field") (writeString header.reserved)
  return writeU32 header.headerSize ++ (writeU32 header.flags ++
    (writeU64 header.snapshotTimestamp ++ (writeU64 header.totalFileSize ++
      (writeU32 header.fileCrc32 ++ reserved))))

/-- `ReadHeaderV1`. -/
def readHeaderV1 (stream : Bytes) : Except Error (HeaderV1 × Bytes) := do
  let (headerSize, stream) ← readField32 "header size" stream
  let (flags, stream) ← readField32 "header flags" stream
  let (snapshotTimestamp, stream) ← readField64 "snapshot timestamp" stream
  let (totalFileSize, stream) ← readField64 "total file size" stream
  let (fileCrc32, stream) ← readField32 "file CRC32" stream
  let (reserved, stream) ← readFieldString "reserved field" stream
  return (⟨headerSize, flags, snapshotTimestamp, totalFileSize, fileCrc32, reserved⟩, stream)

/-- The fields of `config::Config` that a snapshot carries; a `double` is its bits. -/
structure SnapshotConfig where
  ctxBufferSize : UInt32
  decayIntervalSec : UInt32
  decayAlpha : UInt64
  defaultDimension : UInt32
  distanceMetric : Bytes
  defaultTopK : UInt32
  maxTopK : UInt32
  fusionAlpha : UInt64
  fusionBeta : UInt64

/-- `SerializeConfig`. -/
def serializeConfig (config : SnapshotConfig) : Except Error Bytes := do
  let metric ← orError (writeError "Failed to write distance_metric")
    (writeString config.distanceMetric)
  return writeU32 config.ctxBufferSize ++ (writeU32 config.decayIntervalSec ++
    (writeU64 config.decayAlpha ++ (writeU32 config.defaultDimension ++ (metric ++
      (writeU32 config.defaultTopK ++ (writeU32 config.maxTopK ++
        (writeU64 config.fusionAlpha ++ writeU64 config.fusionBeta)))))))

/-- `DeserializeConfig`. -/
def deserializeConfig (stream : Bytes) : Except Error (SnapshotConfig × Bytes) := do
  let (ctxBufferSize, stream) ← readField32 "ctx_buffer_size" stream
  let (decayIntervalSec, stream) ← readField32 "decay_interval_sec" stream
  let (decayAlpha, stream) ← readField64 "decay_alpha" stream
  let (defaultDimension, stream) ← readField32 "default_dimension" stream
  let (distanceMetric, stream) ← readFieldString "distance_metric" stream
  let (defaultTopK, stream) ← readField32 "default_top_k" stream
  let (maxTopK, stream) ← readField32 "max_top_k" stream
  let (fusionAlpha, stream) ← readField64 "fusion_alpha" stream
  let (fusionBeta, stream) ← readField64 "fusion_beta" stream
  return (⟨ctxBufferSize, decayIntervalSec, decayAlpha, defaultDimension, distanceMetric,
    defaultTopK, maxTopK, fusionAlpha, fusionBeta⟩, stream)

structure SnapshotStatistics where
  totalContexts : UInt64
  totalEvents : UInt64
  totalCoOccurrences : UInt64
  totalVectors : UInt64
  totalBytes : UInt64
  snapshotTimeMs : UInt64

/-- `SerializeStatistics`. -/
def serializeStatistics (stats : SnapshotStatistics) : Bytes :=
  writeU64 stats.totalContexts ++ (writeU64 stats.totalEvents ++
    (writeU64 stats.totalCoOccurrences ++ (writeU64 stats.totalVectors ++
      (writeU64 stats.totalBytes ++ writeU64 stats.snapshotTimeMs))))

/-- `DeserializeStatistics`. -/
def deserializeStatistics (stream : Bytes) : Except Error (SnapshotStatistics × Bytes) := do
  let (totalContexts, stream) ← readField64 "total_contexts" stream
  let (totalEvents, stream) ← readField64 "total_events" stream
  let (totalCoOccurrences, stream) ← readField64 "total_co_occurrences" stream
  let (totalVectors, stream) ← readField64 "total_vectors" stream
  let (totalBytes, stream) ← readField64 "total_bytes" stream
  let (snapshotTimeMs, stream) ← readField64 "snapshot_time_ms" stream
  return (⟨totalContexts, totalEvents, totalCoOccurrences, totalVectors, totalBytes,
    snapshotTimeMs⟩, stream)

structure StoreStatistics where
  itemCount : UInt64
  memoryBytes : UInt64
  lastUpdateTime : UInt64

/-- `SerializeStoreStatistics`. -/
def serializeStoreStatistics (stats : StoreStatistics) : Bytes :=
  writeU64 stats.itemCount ++ (writeU64 stats.memoryBytes ++ writeU64 stats.lastUpdateTime)

/-- `DeserializeStoreStatistics`. -/
def deserializeStoreStatistics (stream : Bytes) : Except Error (StoreStatistics × Bytes) := do
  let (itemCount, stream) ← readField64 "item_count" stream
  let (memoryBytes, stream) ← readField64 "memory_bytes" stream
  let (lastUpdateTime, stream) ← readField64 "last_update_time" stream
  return (⟨itemCount, memoryBytes, lastUpdateTime⟩, stream)

/-- The stores a snapshot has sections for. -/
inductive StoreKind where
  | events
  | coOccurrence
  | vectors
  | metadata
  deriving DecidableEq, Repr

namespace StoreKind

def text : StoreKind → String
  | events => "events"
  | coOccurrence => "co_occurrence"
  | vectors => "vectors"
  | metadata => "metadata"

/-- The name in the file. -/
def name : StoreKind → Bytes
  | events => [101, 118, 101, 110, 116, 115]
  | coOccurrence => [99, 111, 95, 111, 99, 99, 117, 114, 114, 101, 110, 99, 101]
  | vectors => [118, 101, 99, 116, 111, 114, 115]
  | metadata => [109, 101, 116, 97, 100, 97, 116, 97]

def ofName (name : Bytes) : Option StoreKind :=
  if name = events.name then some events
  else if name = coOccurrence.name then some coOccurrence
  else if name = vectors.name then some vectors
  else if name = metadata.name then some metadata
  else none

/-- The kind of error a wrong checksum of the store's data is. -/
def crcErrorType : StoreKind → CRCErrorType
  | events => .EventStoreCRC
  | coOccurrence => .CoOccurrenceCRC
  | vectors => .VectorStoreCRC
  | metadata => .MetadataStoreCRC

end StoreKind

section Checksum

variable (k : RunningChecksum)

/-! ## 5. The checksum of the file -/

/-- The bytes of a chunk at `offset`, with those of the checksum field set to zero. -/
def zeroCrcField (offset : Nat) (chunk : Bytes) : Bytes :=
  let crcBegin := kFileCRC32Offset
  let crcEnd := crcBegin + 4
  let chunkEnd := offset + chunk.length
  if offset < crcEnd ∧ chunkEnd > crcBegin then
    let zeroBegin := max offset crcBegin - offset
    let zeroEnd := min chunkEnd crcEnd - offset
    chunk.take zeroBegin ++ (List.replicate (zeroEnd - zeroBegin) 0 ++ chunk.drop zeroEnd)
  else chunk

/-- The size of the buffer a file is read into. -/
def kCrcBufferSize : Nat := 64 * 1024

/-- The loop of `CalculateFileCRC32Streaming`. -/
def streamCrc32 (fileSize offset : Nat) (crc : UInt32) (input : Bytes) : Except Error UInt32 :=
  if offset < fileSize then
    let chunkSize := min kCrcBufferSize (fileSize - offset)
    if input.length < chunkSize then .error (readError "Failed to stream snapshot CRC32")
    else
      streamCrc32 fileSize (offset + chunkSize)
        (k.update crc (zeroCrcField offset (input.take chunkSize))) (input.drop chunkSize)
  else .ok crc
termination_by fileSize - offset
decreasing_by
  simp only [kCrcBufferSize]
  omega

/-- `CalculateFileCRC32Streaming`. -/
def calculateFileCRC32Streaming (file : Bytes) (fileSize : Nat) : Except Error UInt32 :=
  if fileSize > kMaxSnapshotFileSize then
    .error (readError "Snapshot exceeds maximum total file size")
  else streamCrc32 k fileSize 0 (k.update 0 []) file

/-- `VerifyFileLevelIntegrity`. -/
def verifyFileLevelIntegrity (file : Bytes) (header : HeaderV1) : Except Failure Unit :=
  if file.length > kMaxSnapshotFileSize ∨ header.totalFileSize.toNat > kMaxSnapshotFileSize then
    .error (failFileIntegrity "Snapshot exceeds maximum total file size")
  else if file.length ≠ header.totalFileSize.toNat then
    .error (failFileIntegrity ("File size mismatch: expected " ++ toString header.totalFileSize ++
      ", got " ++ toString file.length))
  else if header.flags &&& kWithCRC = 0 then
    .error (failFileIntegrity "Snapshot does not declare required CRC32 protection")
  else if header.fileCrc32 = 0 then
    .error (failFileIntegrity "Snapshot file CRC32 is missing")
  else do
    let crc ← (calculateFileCRC32Streaming k file file.length).mapError plain
    if crc ≠ header.fileCrc32 then
      .error (failFileIntegrity ("File CRC32 mismatch: expected " ++ toString header.fileCrc32 ++
        ", got " ++ toString crc))
    else return ()

/-! ## 6. Sections -/

/-- `WriteSizedPayload`. -/
def writeSizedPayload (data : Bytes) (limit : Nat) (label : String) : Except Error Bytes := do
  let size ← checkedSizeToU32 data.length limit label
  return leBytes 4 size ++ (writeU32 (k.of data) ++ data)

/-- What the readers of the four kinds of sections say, and how much they take. -/
structure PayloadTexts where
  size : String
  crc : String
  limit : Nat
  exceedsMaximum : String
  exceedsRemaining : String
  mismatch : String
  type : CRCErrorType
  storeName : String := ""

def configTexts : PayloadTexts where
  size := "Failed to read config size"
  crc := "Failed to read config CRC"
  limit := kMaxConfigSize
  exceedsMaximum := "Config size exceeds maximum: "
  exceedsRemaining := "Config section exceeds remaining file"
  mismatch := "CRC32 mismatch in config section: expected "
  type := .ConfigCRC

def statsTexts : PayloadTexts where
  size := "Failed to read statistics size"
  crc := "Failed to read statistics CRC"
  limit := kMaxStatsSize
  exceedsMaximum := "Statistics size exceeds maximum: "
  exceedsRemaining := "Statistics section exceeds remaining file"
  mismatch := "CRC32 mismatch in statistics section: expected "
  type := .StatsCRC

def storeStatsTexts (kind : StoreKind) : PayloadTexts where
  size := "Failed to read store statistics size for '" ++ kind.text ++ "'"
  crc := "Failed to read store statistics CRC for '" ++ kind.text ++ "'"
  limit := kMaxStoreStatsSize
  exceedsMaximum := "Store statistics size exceeds maximum: "
  exceedsRemaining := "Store statistics exceed remaining file"
  mismatch := "CRC32 mismatch in store statistics for '" ++ kind.text ++ "': expected "
  type := .StoreStatsCRC
  storeName := kind.text

def storeDataTexts (kind : StoreKind) : PayloadTexts where
  size := "Failed to read store data size for '" ++ kind.text ++ "'"
  crc := "Failed to read store data CRC for '" ++ kind.text ++ "'"
  limit := kMaxStoreDataSize
  exceedsMaximum := "Store data size exceeds maximum: "
  exceedsRemaining := "Store data exceeds remaining file"
  mismatch := "CRC32 mismatch in store data for '" ++ kind.text ++ "': expected "
  type := kind.crcErrorType
  storeName := kind.text

/-- The rest of a section whose size has been read. -/
def readPayload (texts : PayloadTexts) (size : UInt32) (stream : Bytes) :
    Except Failure (Bytes × Bytes) := do
  let (crc, stream) ← orError (plain (readError texts.crc)) (readU32 stream)
  if size.toNat > texts.limit then
    .error (plain (readError (texts.exceedsMaximum ++ toString size)))
  else if ¬ hasRemainingBytes stream size.toNat then
    .error (plain (readError texts.exceedsRemaining))
  else
    let data := stream.take size.toNat
    if k.of data ≠ crc then
      let message := texts.mismatch ++ toString crc ++ ", got " ++ toString (k.of data)
      .error ⟨readError message, some ⟨texts.type, message, texts.storeName⟩⟩
    else return (data, stream.drop size.toNat)

/-- A section: its size, its checksum, its bytes. -/
def readSizedPayload (texts : PayloadTexts) (stream : Bytes) : Except Failure (Bytes × Bytes) := do
  let (size, stream) ← orError (plain (readError texts.size)) (readU32 stream)
  readPayload k texts size stream

/-- What is read from a section is all there is in it. -/
def consumeAll {α : Type} (trailing : String) : Except Error (α × Bytes) → Except Failure α
  | .error e => .error (plain e)
  | .ok (x, rest) => if rest ≠ [] then .error (plain (readError trailing)) else .ok x

/-! ## 7. Writing -/

structure SnapshotWriteLimits where
  maxConfigSize : Nat := 16 * 1024 * 1024
  maxStatsSize : Nat := 16 * 1024 * 1024
  maxStoreDataSize : Nat := 512 * 1024 * 1024
  maxStoreStatsSize : Nat := 16 * 1024 * 1024

/-- What a snapshot is made of; statistics and metadata may be missing. -/
structure SnapshotSource (F : Type) where
  config : SnapshotConfig
  events : EventStore
  index : CoOccurrenceIndex F
  vectors : VectorStore
  metadata : Option MetadataStore := none
  stats : Option SnapshotStatistics := none
  storeStats : StoreKind → Option StoreStatistics := fun _ => none

/-- The orders in which the hash maps of the stores are walked. -/
structure WalkOrders (F : Type) where
  contexts : Order Bytes := .listed
  items : Order Bytes := .listed
  neighbors : Bytes → Order (Bytes × F) := fun _ => .listed
  ids : Order Bytes := .listed
  entries : Order (Bytes × Metadata) := .listed
  fields : Bytes → Order (Bytes × MetadataValue) := fun _ => .listed

section Write

variable {F : Type} [FloatOps F] [FloatBits F]

/-- The statistics of one store, or the size zero. -/
def writeStoreStatistics (limits : SnapshotWriteLimits) (label : String) :
    Option StoreStatistics → Except Error Bytes
  | some stats =>
    writeSizedPayload k (serializeStoreStatistics stats)
      (min kMaxStoreStatsSize limits.maxStoreStatsSize) (label ++ " store statistics")
  | none => .ok (leBytes 4 0)

/-- The section of one store. -/
def writeStore (limits : SnapshotWriteLimits) (kind : StoreKind) (label : String)
    (stats : Option StoreStatistics) (store : Except Error Bytes) : Except Error Bytes := do
  let statistics ← writeStoreStatistics k limits label stats
  let data ← store
  let payload ← writeSizedPayload k data (min kMaxStoreDataSize limits.maxStoreDataSize)
    (label ++ " store")
  return leBytes 4 kind.name.length ++ (kind.name ++ (statistics ++ payload))

/-- The section of the metadata, if they are part of the snapshot. -/
def writeMetadataStore (limits : SnapshotWriteLimits) (orders : WalkOrders F) :
    Option MetadataStore → Except Error Bytes
  | some store =>
    writeStore k limits .metadata "metadata" none
      (serializeMetadataStore orders.entries orders.fields store)
  | none => .ok []

/-- The sections of the stores. -/
def writeStores (limits : SnapshotWriteLimits) (orders : WalkOrders F) (src : SnapshotSource F) :
    Except Error Bytes := do
  let events ← writeStore k limits .events "events" (src.storeStats .events)
    (serializeEventStore orders.contexts src.events)
  let index ← writeStore k limits .coOccurrence "co-occurrence" (src.storeStats .coOccurrence)
    (serializeCoOccurrenceIndex orders.items orders.neighbors src.index)
  let vectors ← writeStore k limits .vectors "vectors" (src.storeStats .vectors)
    (serializeVectorStore orders.ids src.vectors)
  let metadata ← writeMetadataStore k limits orders src.metadata
  return events ++ (index ++ (vectors ++ metadata))

/-- The statistics section, if it is part of the snapshot. -/
def writeStatistics (limits : SnapshotWriteLimits) :
    Option SnapshotStatistics → Except Error Bytes
  | some stats =>
    writeSizedPayload k (serializeStatistics stats) (min kMaxStatsSize limits.maxStatsSize)
      "statistics section"
  | none => .ok []

/-- What follows the headers. -/
def writeSections (limits : SnapshotWriteLimits) (orders : WalkOrders F) (src : SnapshotSource F) :
    Except Error Bytes := do
  let config ← serializeConfig src.config
  let configSection ← writeSizedPayload k config (min kMaxConfigSize limits.maxConfigSize)
    "config section"
  let statsSection ← writeStatistics k limits src.stats
  let stores ← writeStores k limits orders src
  let count := if src.metadata.isSome then 4 else 3
  return configSection ++ (statsSection ++ (leBytes 4 count ++ stores))

/-- The header before size and checksum are known. -/
def initialHeader (src : SnapshotSource F) (now : UInt64) : HeaderV1 where
  flags := if src.stats.isSome then kWithCRC ||| kWithStatistics else kWithCRC
  snapshotTimestamp := now

/-- Size and checksum put into the header of a file that is complete otherwise. -/
def fillHeader (header : HeaderV1) (file : Bytes) : Except Error Bytes :=
  if file.length > kMaxSnapshotFileSize then
    .error (writeError "Snapshot exceeds maximum total file size")
  else do
    let header := { header with totalFileSize := UInt64.ofNat file.length }
    let sized ← writeHeaderV1 header
    let file := overwrite kFixedHeaderSize sized file
    match calculateFileCRC32Streaming k file header.totalFileSize.toNat with
    | .error e => .error (writeError e.message)
    | .ok crc => return overwrite kFileCRC32Offset (writeU32 crc) file

/-- `WriteSnapshotV1`: the bytes that are published. -/
def writeSnapshotV1 (limits : SnapshotWriteLimits) (orders : WalkOrders F) (now : UInt64)
    (src : SnapshotSource F) : Except Error Bytes := do
  let header := initialHeader src now
  let measured ← writeHeaderV1 header
  let headerSize ← checkedSizeToU32 measured.length kMaxConfigSize "snapshot header"
  let header := { header with headerSize := UInt32.ofNat headerSize }
  let placeholder ← writeHeaderV1 header
  let sections ← writeSections k limits orders src
  fillHeader k header
    (kMagicNumber ++ (writeU32 kCurrentVersion ++ (placeholder ++ sections)))

end Write

/-! ## 8. Reading -/

/-- What a snapshot is read into. Statistics and metadata are wanted if there is something to
    put them in. -/
structure SnapshotTargets (F : Type) where
  config : SnapshotConfig
  events : EventStore
  index : CoOccurrenceIndex F
  vectors : VectorStore
  metadata : Option MetadataStore := none
  stats : Option SnapshotStatistics := none
  storeStats : Option (StoreKind → Option StoreStatistics) := none

/-- The state of the loop over the stores: what has been read, the stores seen, and metadata that
    nobody asked for. -/
structure Reading (F : Type) where
  targets : SnapshotTargets F
  seen : List StoreKind := []
  discarded : MetadataStore := {}

/-- Magic number and version. -/
def readMagic (stream : Bytes) : Except Error Bytes :=
  if stream.length < kMagicNumber.length then .error (readError "Failed to read magic number")
  else if stream.take kMagicNumber.length ≠ kMagicNumber then
    .error (readError "Invalid magic number")
  else .ok (stream.drop kMagicNumber.length)

def readVersion (stream : Bytes) : Except Error (UInt32 × Bytes) := readField32 "version" stream

def unsupportedVersion (version : UInt32) : Error :=
  readError ("Unsupported version: " ++ toString version)

/-- Both headers, as far as `ReadSnapshotV1` and `GetSnapshotInfo` look at them. -/
def readHeaders (file : Bytes) : Except Error (HeaderV1 × Bytes) := do
  let stream ← readMagic file
  let (version, stream) ← readVersion stream
  if version ≠ 1 then .error (unsupportedVersion version)
  else readHeaderV1 stream

section Read

variable {F : Type} [FloatOps F] [FloatBits F] (l2Norm : List UInt32 → UInt32)

/-- The statistics of a store, if it has some. -/
def readStoreStatistics (kind : StoreKind) (targets : SnapshotTargets F) (stream : Bytes) :
    Except Failure (SnapshotTargets F × Bytes) := do
  let (size, stream) ← orError (plain (readError (storeStatsTexts kind).size)) (readU32 stream)
  if size = 0 then return (targets, stream)
  else
    let (data, stream) ← readPayload k (storeStatsTexts kind) size stream
    match targets.storeStats with
    | none => return (targets, stream)
    | some known =>
      let stats ← consumeAll ("Trailing bytes in store statistics for '" ++ kind.text ++ "'")
        (deserializeStoreStatistics data)
      return ({ targets with storeStats := some (Function.update known kind (some stats)) }, stream)

/-- A store's data put into the store. -/
def deserializeStore (kind : StoreKind) (r : Reading F) (data : Bytes) :
    Except Failure (Reading F) :=
  let trailing := "Trailing bytes in store data for '" ++ kind.text ++ "'"
  match kind with
  | .events => do
    let events ← consumeAll trailing (deserializeEventStore r.targets.events data)
    return { r with targets := { r.targets with events := events } }
  | .coOccurrence => do
    let index ← consumeAll trailing (deserializeCoOccurrenceIndex r.targets.index data)
    return { r with targets := { r.targets with index := index } }
  | .vectors => do
    let vectors ← consumeAll trailing (deserializeVectorStore l2Norm r.targets.vectors data)
    return { r with targets := { r.targets with vectors := vectors } }
  | .metadata => do
    let metadata ← consumeAll trailing (deserializeMetadataStore data)
    match r.targets.metadata with
    | some _ => return { r with targets := { r.targets with metadata := some metadata } }
    | none => return { r with discarded := metadata }

/-- One round of the loop over the stores. -/
def readStore (r : Reading F) (stream : Bytes) : Except Failure (Reading F × Bytes) := do
  let (name, stream) ← orError (plain (readError "Failed to read store name")) (readString stream)
  match StoreKind.ofName name with
  | none => .error (plain (readError ("Unknown store name: '" ++ textOf name ++ "'")))
  | some kind =>
    if kind ∈ r.seen then
      .error (plain (readError ("Duplicate store section: '" ++ kind.text ++ "'")))
    else
      let (targets, stream) ← readStoreStatistics k kind r.targets stream
      let (data, stream) ← readSizedPayload k (storeDataTexts kind) stream
      let r ← deserializeStore l2Norm kind { r with targets := targets } data
      return ({ r with seen := kind :: r.seen }, stream)

/-- The first required store without a section. -/
def missingStore (seen : List StoreKind) : Option StoreKind :=
  [.events, .coOccurrence, .vectors].find? fun kind => kind ∉ seen

/-- The metadata that was read: the caller's store, or the discarded one. -/
def Reading.metadata (r : Reading F) : MetadataStore := r.targets.metadata.getD r.discarded

/-- An item with metadata and no vector. -/
def Reading.orphan (r : Reading F) : Option Bytes :=
  r.metadata.ids.find? fun id => ¬ r.targets.vectors.hasVector id

/-- The statistics section, if the flags say that there is one. -/
def readStatistics (header : HeaderV1) (targets : SnapshotTargets F) (stream : Bytes) :
    Except Failure (SnapshotTargets F × Bytes) :=
  if header.flags &&& kWithStatistics ≠ 0 then do
    let (data, stream) ← readSizedPayload k statsTexts stream
    match targets.stats with
    | none => return (targets, stream)
    | some _ =>
      let stats ← consumeAll "Trailing bytes in statistics section" (deserializeStatistics data)
      return ({ targets with stats := some stats }, stream)
  else return (targets, stream)

/-- The checks after the last store. -/
def finishReading (r : Reading F) (stream : Bytes) : Except Failure (SnapshotTargets F) :=
  match missingStore r.seen with
  | some kind => .error (plain (readError ("Missing required store: '" ++ kind.text ++ "'")))
  | none =>
    match (if StoreKind.metadata ∈ r.seen then r.orphan else none) with
    | some id =>
      .error (plain (readError ("Metadata references missing vector: '" ++ textOf id ++ "'")))
    | none =>
      if stream ≠ [] then .error (plain (readError "Trailing bytes after final store section"))
      else .ok r.targets

/-- The sections behind the headers. -/
def readSections (header : HeaderV1) (targets : SnapshotTargets F) (stream : Bytes) :
    Except Failure (SnapshotTargets F) := do
  let (data, stream) ← readSizedPayload k configTexts stream
  let config ← consumeAll "Trailing bytes in config section" (deserializeConfig data)
  let (targets, stream) ← readStatistics k header { targets with config := config } stream
  let (count, stream) ← orError (plain (readError "Failed to read store count")) (readU32 stream)
  if count < 3 ∨ count > 4 then
    .error (plain (readError "Snapshot store count must be between 3 and 4"))
  else
    let (r, stream) ← readMany (readStore k l2Norm) count.toNat { targets := targets } stream
    finishReading r stream

/-- `ReadSnapshotV1`. -/
def readSnapshotV1 (targets : SnapshotTargets F) (file : Bytes) :
    Except Failure (SnapshotTargets F) := do
  let (header, sections) ← (readHeaders file).mapError plain
  verifyFileLevelIntegrity k file header
  readSections k l2Norm header targets sections

end Read

/-- `VerifySnapshotIntegrity`. -/
def verifySnapshotIntegrity (file : Bytes) : Except Failure Unit := do
  let (header, _) ← ((do
    let stream ← readMagic file
    let (version, stream) ← readVersion stream
    if version < kMinSupportedVersion ∨ version > kMaxSupportedVersion then
      .error (unsupportedVersion version)
    else readHeaderV1 stream) : Except Error (HeaderV1 × Bytes)).mapError
      fun e => failFileIntegrity e.message
  verifyFileLevelIntegrity k file header

structure SnapshotInfo where
  version : UInt32
  storeCount : UInt32
  flags : UInt32
  fileSize : UInt64
  timestamp : UInt64
  hasStatistics : Bool

/-- The header of a section, skipped together with the section. -/
def skipPayload (name : String) (stream : Bytes) : Except Error Bytes :=
  orError (readError ("Failed to read " ++ name ++ " section header")) do
    let (size, stream) ← readU32 stream
    let (_, stream) ← readU32 stream
    return stream.drop size.toNat

/-- `GetSnapshotInfo`. -/
def getSnapshotInfo (file : Bytes) : Except Error SnapshotInfo := do
  let (header, stream) ← readHeaders file
  let hasStatistics := decide (header.flags &&& kWithStatistics ≠ 0)
  let stream ← skipPayload "config" stream
  let stream ← if hasStatistics then skipPayload "statistics" stream else pure stream
  let (storeCount, _) ← readField32 "store count" stream
  return ⟨1, storeCount, header.flags, header.totalFileSize, header.snapshotTimestamp,
    hasStatistics⟩

end Checksum

end Nvecd.Storage.Snapshot
