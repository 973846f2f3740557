/-
  File:      Nvecd/Server/HttpServer.lean
  Subject:   `server/http_server.cpp`: the requests that write, from the JSON of the body to the
             stores, the index, the counters and the cache.

  A body is what `json::parse` makes of it, or nothing if it is no JSON. Numbers keep the kind the
  parser gives them: below zero, not below zero, or floating-point. `get` converts without a check.

  * `Json` -- values;
  * `parseEventBody`, `parseVecsetBody`, `parseVecdelBody`, `parseMetasetBody` -- what each request
    reads of its body, and how it refuses one;
  * `ServerContext.httpEvent` … -- the handlers behind that, with everything they touch;
  * `ServerContext.serveHttp` -- a request with its gates.
-/
import Nvecd.Server.Dispatcher
import Nvecd.Server.CommandParser
import Nvecd.Lib.Ieee754

namespace Nvecd.Server

open Nvecd.Lib Nvecd.Utils Nvecd.Storage Nvecd.Events Nvecd.Vectors Nvecd.Similarity Nvecd.Cache

/-! ## 1. JSON -/

/-- `nlohmann::json`. -/
inductive Json where
  | null
  | boolean (value : Bool)
  /-- A whole number below zero. -/
  | integer (value : Int64)
  /-- A whole number that is not below zero. -/
  | unsigned (value : UInt64)
  | float (bits : UInt64)
  | string (value : Bytes)
  | array (elements : List Json)
  | object (members : List (Bytes × Json))

namespace Json

/-- `find`. -/
def find? (key : Bytes) : Json → Option Json
  | .object members => (members.find? fun m => m.1 = key).map (·.2)
  | _ => none

/-- `get<std::string>()`, of a string. -/
def string? : Json → Option Bytes
  | .string s => some s
  | _ => none

/-- `get<int64_t>()`, if `is_number_integer()`: what is not below zero is converted as it is. -/
def int64? : Json → Option Int64
  | .integer n => some n
  | .unsigned n => some n.toInt64
  | _ => none

/-- `get<double>()`, if `is_number()`. -/
def double? : Json → Option UInt64
  | .integer n => some (doubleOfInt64 n)
  | .unsigned n => some (if n = 0 then 0 else UInt64.ofNat (doubleOfNat n.toNat))
  | .float bits => some bits
  | _ => none

end Json

def kHttpUnauthorized : Nat := 401

def badRequest (message : String) : HttpError := ⟨kHttpBadRequest, message⟩

def invalidBody : HttpError := badRequest "Invalid JSON body"

/-- A member of the body that must be there and be a string. -/
def stringMember (body : Json) (key : String) (missing wrong : HttpError) :
    Except HttpError Bytes :=
  match body.find? (ascii key) with
  | none => .error missing
  | some value =>
    match value.string? with
    | none => .error wrong
    | some s => .ok s

/-! ## 2. `POST /event` -/

structure EventBody where
  ctx : Bytes
  id : Bytes
  type : EventType
  score : Int := 0
  timestamp : UInt64 := 0

/-- The type, in capitals or in small letters. -/
def httpEventType (text : Bytes) : Option EventType :=
  if text = ascii "ADD" ∨ text = ascii "add" then some .ADD
  else if text = ascii "SET" ∨ text = ascii "set" then some .SET
  else if text = ascii "DEL" ∨ text = ascii "del" then some .DEL
  else none

/-- The score, of an event that has one. -/
def httpScore (body : Json) (name : String) : Except HttpError Int :=
  match body.find? (ascii "score") with
  | none => .error (badRequest (name ++ " type requires 'score' field"))
  | some value =>
    match value.int64? with
    | none => .error (badRequest "Field 'score' must be an integer")
    | some raw =>
      if raw.toInt < kMinEventScore ∨ kMaxEventScore < raw.toInt then
        .error (badRequest ("Field 'score' must be in range [0, 100], got " ++ toString raw.toInt))
      else .ok raw.toInt

/-- The score of an event of a type. -/
def httpScoreOf (body : Json) : EventType → Except HttpError Int
  | .ADD => httpScore body "ADD"
  | .SET => httpScore body "SET"
  | _ => .ok 0

def httpTimestamp (body : Json) : Except HttpError UInt64 :=
  match body.find? (ascii "timestamp") with
  | none => .ok 0
  | some (.unsigned n) => .ok n
  | some _ => .error (badRequest "Field 'timestamp' must be an unsigned integer")

/-- `HandleEvent`, up to the store. -/
def parseEventBody (body : Json) : Except HttpError EventBody :=
  match body.find? (ascii "ctx"), body.find? (ascii "id"), body.find? (ascii "type") with
  | some ctx, some id, some type =>
    match ctx.string?, id.string?, type.string? with
    | some ctx, some id, some text =>
      match httpEventType text with
      | none =>
        .error (badRequest ("Invalid type: " ++ textOf text ++ " (must be ADD, SET, or DEL)"))
      | some type => do
        let score ← httpScoreOf body type
        let timestamp ← httpTimestamp body
        return ⟨ctx, id, type, score, timestamp⟩
    | _, _, _ => .error (badRequest "Fields ctx, id, type must be strings")
  | _, _, _ => .error (badRequest "Missing required fields: ctx, id, type")

/-! ## 3. `POST /vecset`, `DELETE /vecset`, `POST /metaset` -/

/-- `ParseMetadataJson`, one member. -/
def metadataMember (m : Metadata) (member : Bytes × Json) : Except HttpError Metadata :=
  if member.1 = [] then .error (badRequest "Metadata keys must not be empty")
  else
    match member.2 with
    | .string s => .ok (m.insert member.1 (.string s))
    | .boolean b => .ok (m.insert member.1 (.bool b))
    | .integer n => .ok (m.insert member.1 (.int64 n))
    | .unsigned n => .ok (m.insert member.1 (.int64 n.toInt64))
    | .float bits =>
      if isFiniteDouble bits then .ok (m.insert member.1 (.double bits))
      else .error (badRequest "Metadata numeric values must be finite")
    | _ => .error (badRequest "Metadata values must be string, integer, float, or bool")

/-- `ParseMetadataJson`. -/
def parseMetadataJson : Json → Except HttpError Metadata
  | .object members => members.foldlM metadataMember .empty
  | _ => .error (badRequest "Field 'metadata' must be an object")

section Bodies

-- `static_cast<float>(double)`
variable (toFloat : UInt64 → UInt32)

/-- `ParseFiniteFloatVector`, one component. -/
def floatComponent (element : Json) : Except HttpError UInt32 :=
  match element.double? with
  | none => .error (badRequest "Field 'vector' must contain only finite numbers")
  | some bits =>
    if ¬ isFiniteDouble bits then
      .error (badRequest "Field 'vector' must contain only finite numbers")
    else if ¬ isFiniteFloat (toFloat bits) then
      .error (badRequest "Field 'vector' component exceeds the finite float range")
    else .ok (toFloat bits)

/-- `ParseFiniteFloatVector`. -/
def parseFiniteFloatVector : Json → Except HttpError (List UInt32)
  | .array elements => elements.mapM (floatComponent toFloat)
  | _ => .error (badRequest "Field 'vector' must be an array of numbers")

structure VecsetBody where
  id : Bytes
  vector : List UInt32
  metadata : Option Metadata := none

/-- `HandleVecset`, up to the store. The dimension of the store is asked for before the metadata
    are looked at. -/
def parseVecsetBody (dimension : Nat) (body : Json) : Except HttpError VecsetBody :=
  match body.find? (ascii "id"), body.find? (ascii "vector") with
  | some id, some vector =>
    match id.string? with
    | none => .error (badRequest "Field 'id' must be a string")
    | some id => do
      let vector ← parseFiniteFloatVector toFloat vector
      if vector = [] then .error (badRequest "Field 'vector' must not be empty")
      else if 0 < dimension ∧ vector.length ≠ dimension then
        .error (badRequest ("Field 'vector' dimension mismatch: expected " ++ toString dimension ++
          ", got " ++ toString vector.length))
      else
        match body.find? (ascii "metadata") with
        | none => .ok ⟨id, vector, none⟩
        | some value => do
          let metadata ← parseMetadataJson value
          return ⟨id, vector, some metadata⟩
  | _, _ => .error (badRequest "Missing required fields: id, vector")

end Bodies

/-- `HandleVecdel`, up to the store. -/
def parseVecdelBody (body : Json) : Except HttpError Bytes :=
  stringMember body "id" (badRequest "Missing or invalid required field: id")
    (badRequest "Missing or invalid required field: id")

/-- `HandleMetaset`, up to the store. -/
def parseMetasetBody (body : Json) : Except HttpError (Bytes × Metadata) :=
  match body.find? (ascii "id"), body.find? (ascii "metadata") with
  | some id, some metadata =>
    match id.string? with
    | none => .error (badRequest "Field 'id' must be a string")
    | some id => do
      let metadata ← parseMetadataJson metadata
      return (id, metadata)
  | _, _ => .error (badRequest "Missing required fields: id, metadata")

/-! ## 4. The handlers -/

/-- What a front end takes from outside, besides what the stores do. -/
structure SurfaceEnv (κ : Type) [DecidableEq κ] extends ServerEnv κ where
  /-- `stof` of a whole text, if that is a finite number. -/
  stof : Bytes → Option UInt32
  /-- Whether `stof` took a part of a text that it did not take as a whole. -/
  takesPart : Bytes → Bool
  /-- `static_cast<float>(double)`. -/
  toFloat : UInt64 → UInt32

section Handlers

variable {F A κ : Type} [FloatOps F] [AnnIndex A] [DecidableEq κ] (env : SurfaceEnv κ)

namespace ServerContext

/-- `HandleEvent`. Unlike the dispatcher it invalidates also behind a duplicate. -/
def httpEvent (sc : ServerContext F A κ) (clocks : EventClocks) (io : WalIo) (body : EventBody) :
    ServerContext F A κ × Except HttpError Unit :=
  match httpHandleEvent env.toPlatform sc.toHandlerContext clocks io body.ctx body.id body.type
      body.score body.timestamp with
  | (ctx, .error e) => ({ sc with toHandlerContext := ctx }, .error e)
  | (ctx, .ok ()) =>
    ({ sc with toHandlerContext := ctx }.updateCache fun c =>
      c.invalidateByItemId env.cache body.id, .ok ())

/-- `HandleVecset`. -/
def httpVecset (sc : ServerContext F A κ) (io : WalIo) (body : VecsetBody) :
    ServerContext F A κ × Except HttpError Unit :=
  match httpHandleVecset env.toPlatform sc.toHandlerContext io body.id body.vector
      body.metadata with
  | (ctx, .error e) => ({ sc with toHandlerContext := ctx }, .error e)
  | (ctx, .ok ()) =>
    let sc := { sc with toHandlerContext := ctx }.notifyAdded env.toServerEnv body.id
    let sc := { sc with
      vectorGeneration := sc.vectorGeneration + 1
      metadataGeneration := sc.metadataGeneration + if body.metadata.isSome then 1 else 0 }
    (sc.updateCache fun c =>
      let c := c.invalidateByItemId env.cache body.id
      if body.metadata.isSome then c.clear else c, .ok ())

/-- `HandleVecdel`. -/
def httpVecdel (sc : ServerContext F A κ) (io : WalIo) (id : Bytes) :
    ServerContext F A κ × Except HttpError Unit :=
  let compactIndex := sc.stores.vectorStore.getCompactIndex id
  match httpHandleVecdel env.toPlatform sc.toHandlerContext io id with
  | (ctx, .error e) => ({ sc with toHandlerContext := ctx }, .error e)
  | (ctx, .ok ()) =>
    let engine := sc.engine.notifyVectorRemoved (compactIndex.getD 0)
    let sc := { sc with
      toHandlerContext := ctx
      engine := engine.rebuildAnnFromStore ctx.stores.vectorStore
      vectorGeneration := sc.vectorGeneration + 1
      metadataGeneration := sc.metadataGeneration + 1 }
    (sc.updateCache fun c => c.invalidateByItemId env.cache id, .ok ())

/-- `HandleMetaset`. -/
def httpMetaset (sc : ServerContext F A κ) (io : WalIo) (id : Bytes) (metadata : Metadata) :
    ServerContext F A κ × Except HttpError Unit :=
  match httpHandleMetaset env.toPlatform sc.toHandlerContext io id metadata with
  | (ctx, .error e) => ({ sc with toHandlerContext := ctx }, .error e)
  | (ctx, .ok ()) =>
    let sc := { sc with
      toHandlerContext := ctx
      metadataGeneration := sc.metadataGeneration + 1 }
    (sc.updateCache fun c => c.clear, .ok ())

end ServerContext

/-! ## 5. Requests -/

/-- The requests that write. -/
inductive HttpRoute where
  | event
  | vecset
  | vecdel
  | metaset
  deriving DecidableEq, Repr

namespace ServerContext

/-- The handler of a route, on a body. -/
def routeHttp (sc : ServerContext F A κ) (clocks : EventClocks) (io : WalIo) (route : HttpRoute)
    (body : Json) : ServerContext F A κ × Except HttpError Unit :=
  match route with
  | .event =>
    match parseEventBody body with
    | .error e => (sc, .error e)
    | .ok b => sc.httpEvent env clocks io b
  | .vecset =>
    match parseVecsetBody env.toFloat sc.stores.vectorStore.dimension body with
    | .error e => (sc, .error e)
    | .ok b => sc.httpVecset env io b
  | .vecdel =>
    match parseVecdelBody body with
    | .error e => (sc, .error e)
    | .ok id => sc.httpVecdel env io id
  | .metaset =>
    match parseMetasetBody body with
    | .error e => (sc, .error e)
    | .ok (id, metadata) => sc.httpMetaset env io id metadata

/-- **A request that writes**, with its gates. -/
def serveHttp (sc : ServerContext F A κ) (authorized : Bool) (clocks : EventClocks) (io : WalIo)
    (route : HttpRoute) (body : Option Json) : ServerContext F A κ × Except HttpError Unit :=
  if ¬ authorized then (sc, .error ⟨kHttpUnauthorized, "Authentication required"⟩)
  else if sc.readOnly ∨ sc.loading then
    (sc, .error ⟨kHttpServiceUnavailable, "Server is read-only or loading"⟩)
  else
    match body with
    | none =>
      (sc, .error (if route = .vecdel then badRequest "Missing or invalid required field: id"
        else invalidBody))
    | some body => sc.routeHttp env clocks io route body

end ServerContext

end Handlers

end Nvecd.Server
