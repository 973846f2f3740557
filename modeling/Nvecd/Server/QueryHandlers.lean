/-
  File:      Nvecd/Server/QueryHandlers.lean
  Subject:   `SIM` and `SIMV` on both front ends: `HandleSim` and `HandleSimv` of
             `server/request_dispatcher.cpp` and of `server/http_server.cpp`, each taken alone.

  Both front ends look a query up in one cache, under one kind of key, and put there what they have
  searched; they differ in how they read the query and in what they make of its results. With no
  other thread in between, the counters are at the insertion what they were at the lookup. The
  searches are those of the engine, as functions of what they read.

  * `Searches`, `Query.search` -- what a query is answered from;
  * `runQuery` -- lookup, search and insertion;
  * `handleSim`, `handleSimv` -- the answers over TCP;
  * `parseSimBody`, `parseSimvBody`, `httpHandleSim`, `httpHandleSimv` -- the same over HTTP.
-/
import Nvecd.Lib.Lines
import Nvecd.Server.CacheFreshness
import Nvecd.Server.HttpServer
import Nvecd.Server.ScoreFormat
import Nvecd.Vectors.MetadataFilter

namespace Nvecd.Server

open Nvecd.Lib Nvecd.Utils Nvecd.Storage Nvecd.Events Nvecd.Vectors Nvecd.Similarity Nvecd.Cache

/-! ## 1. Results -/

/-- `x >= y`. -/
def geFloat (x y : UInt32) : Bool :=
  match floatKey x, floatKey y with
  | some x, some y => y ≤ x
  | _, _ => false

/-- `ApplyMinScore`. -/
def applyMinScore (results : List SimilarityResult) (minScore : UInt32) : List SimilarityResult :=
  results.filter fun item => geFloat item.score minScore

/-- `ApplyMetadataFilter`. -/
def applyMetadataFilter (results : List SimilarityResult) (metadataStore : MetadataStore)
    (filter : MetadataFilter) : List SimilarityResult :=
  if filter = [] then results
  else results.filter fun item => metadataStore.matchesFilter item.itemId filter

/-- One line of `FormatSimResults`. -/
def formatSimResult (result : SimilarityResult) : Bytes :=
  result.itemId ++ 32 :: (formatScore result.score ++ [cr, lf])

/-- `FormatSimResults`. -/
def formatSimResults (results : List SimilarityResult) : Bytes :=
  ascii "OK RESULTS " ++ (natText results.length ++ [cr, lf]) ++ results.flatMap formatSimResult

/-- `FormatSimDebugBlock`. -/
def formatSimDebugBlock (mode : Bytes) (queryTimeUs candidateCount resultCount : Nat) : Bytes :=
  ascii "# DEBUG 4\r\n" ++
    (ascii "mode: " ++ mode ++ [cr, lf]) ++
    (ascii "query_time_us: " ++ natText queryTimeUs ++ [cr, lf]) ++
    (ascii "candidates: " ++ natText candidateCount ++ [cr, lf]) ++
    (ascii "results: " ++ natText resultCount ++ [cr, lf])

/-! ## 2. Queries -/

/-- The searches of `SimilarityEngine`, as functions of what they read: none is sampled at random, and
    no background training changes the index under them. -/
structure Searches (F A : Type) where
  searchByIdEvents : CoOccurrenceIndex F → MetadataStore → Bytes → Int → MetadataFilter →
    Except Error (List SimilarityResult)
  searchByIdVectors : VectorStore → MetadataStore → SimilarityEngine A → Bytes → Int →
    MetadataFilter → Except Error (List SimilarityResult)
  searchByIdFusion : CoOccurrenceIndex F → VectorStore → MetadataStore → SimilarityEngine A →
    Bytes → Int → Option Bool → MetadataFilter → Except Error (List SimilarityResult)
  searchByVector : VectorStore → MetadataStore → SimilarityEngine A → List UInt32 → Int →
    MetadataFilter → Except Error (List SimilarityResult)

/-- What a query meets: the clock at its lookup and at its insertion, whether the search was too
    cheap to be cached, and how long it took. -/
structure QueryTimes where
  lookedUp : Nat := 0
  inserted : Nat := 0
  expiresFrom : Nat := 0
  cheap : Bool := false
  elapsedUs : Nat := 0

/-- What the queries take from outside. -/
structure FrontEnv (F A κ : Type) [DecidableEq κ] extends SurfaceEnv κ where
  searches : Searches F A
  /-- The digest of the text of the parameters. -/
  cacheKey : SimCacheKeyParams ⊕ SimvCacheKeyParams → κ
  /-- `static_cast<float>` of a whole number. -/
  intToFloat : Int → UInt32
  /-- `similarity.default_top_k`. -/
  defaultTopK : Int

namespace Query

/-- The parameters of the key. -/
def keyParams (g : Generations) : Query → SimCacheKeyParams ⊕ SimvCacheKeyParams
  | .sim cmd => .inl (cmd.cacheKeyParams g)
  | .simv cmd => .inr (cmd.cacheKeyParams g)

def filterExpr : Query → Bytes
  | .sim cmd => cmd.filterExpr
  | .simv cmd => cmd.filterExpr

def minScore : Query → UInt32
  | .sim cmd => cmd.minScore
  | .simv cmd => cmd.minScore

def searchType (q : Query) : SearchType :=
  if q.filterExpr ≠ [] then .kFilteredSearch
  else
    match q with
    | .sim _ => .kItemSearch
    | .simv _ => .kVectorSearch

/-- How the debug block names the mode. -/
def modeText : Query → Bytes
  | .sim cmd => cmd.mode.text
  | .simv _ => ascii "vector"

section Search

variable {F A κ : Type} [DecidableEq κ]

/-- The search of a query. What the events give has been filtered already. -/
def search (s : Searches F A) (sc : ServerContext F A κ) (filter : MetadataFilter) :
    Query → Except Error (List SimilarityResult)
  | .sim cmd =>
    match cmd.mode with
    | .events => s.searchByIdEvents sc.stores.coIndex sc.stores.metadataStore cmd.id cmd.topK filter
    | .vectors =>
      (s.searchByIdVectors sc.stores.vectorStore sc.stores.metadataStore sc.engine cmd.id cmd.topK
        filter).map fun results => applyMetadataFilter results sc.stores.metadataStore filter
    | .fusion =>
      (s.searchByIdFusion sc.stores.coIndex sc.stores.vectorStore sc.stores.metadataStore sc.engine
        cmd.id cmd.topK cmd.adaptive filter).map fun results =>
          applyMetadataFilter results sc.stores.metadataStore filter
  | .simv cmd =>
    (s.searchByVector sc.stores.vectorStore sc.stores.metadataStore sc.engine cmd.vector cmd.topK
      filter).map fun results => applyMetadataFilter results sc.stores.metadataStore filter

end Search

end Query

section Handlers

variable {F A κ : Type} [DecidableEq κ]

/-- The counters a query captures. -/
def ServerContext.counters (sc : ServerContext F A κ) : Generations where
  cooccurrence := sc.stores.coIndex.generation
  vectors := sc.vectorGeneration
  metadata := sc.metadataGeneration
  dataset := sc.datasetGeneration

/-- What comes of a query: the cache, whether it had the answer, and the answer. -/
structure QueryOutcome (κ : Type) [DecidableEq κ] where
  cache : SimilarityCache κ
  hit : Bool
  results : Except Error (List SimilarityResult)

namespace ServerContext

variable (env : FrontEnv F A κ)

/-- **A query** with its filter. -/
def runQuery (sc : ServerContext F A κ) (t : QueryTimes) (filter : MetadataFilter) (q : Query) :
    QueryOutcome κ :=
  if ¬ (sc.cachePublished ∧ sc.cache.enabled) then
    ⟨sc.cache, false, q.search env.searches sc filter⟩
  else
    let key := env.cacheKey (q.keyParams sc.counters)
    match sc.cache.lookup env.cache t.lookedUp key q.searchType with
    | (cache, some results) => ⟨cache, true, .ok results⟩
    | (cache, none) =>
      match q.search env.searches sc filter with
      | .error e => ⟨cache, false, .error e⟩
      | .ok results =>
        ⟨(cache.insertAndRegister env.cache t.inserted t.expiresFrom key results
          (q.itemIds results) t.cheap q.searchType).1, false, .ok results⟩

/-! ## 3. TCP -/

/-- The filter of a command, if it has one. -/
def parseFilter (filterExpr : Bytes) : Except Error MetadataFilter :=
  if filterExpr = [] then .ok [] else parseSimpleFilter env.strtod filterExpr

/-- The response to a query over TCP. -/
def respondQuery (sc : ServerContext F A κ) (t : QueryTimes) (debugMode : Bool) (q : Query) :
    SimilarityCache κ × Except Error Bytes :=
  match parseFilter env q.filterExpr with
  | .error e => (sc.cache, .error e)
  | .ok filter =>
    let outcome := sc.runQuery env t filter q
    (outcome.cache, outcome.results.map fun results =>
      let pairs := applyMinScore results q.minScore
      formatSimResults pairs ++
        if debugMode then
          formatSimDebugBlock q.modeText (if outcome.hit then 0 else t.elapsedUs) results.length
            pairs.length
        else [])

/-- `HandleSim`. -/
def handleSim (sc : ServerContext F A κ) (t : QueryTimes) (debugMode : Bool) (cmd : SimCommand) :
    SimilarityCache κ × Except Error Bytes :=
  sc.respondQuery env t debugMode (.sim cmd)

/-- `HandleSimv`. -/
def handleSimv (sc : ServerContext F A κ) (t : QueryTimes) (debugMode : Bool) (cmd : SimvCommand) :
    SimilarityCache κ × Except Error Bytes :=
  sc.respondQuery env t debugMode (.simv cmd)

end ServerContext

/-! ## 4. HTTP -/

def kHttpInternalServerError : Nat := 500

def kHttpForbidden : Nat := 403

/-- `ErrorCodeToHttpStatus`, of the codes that are modelled. -/
def errorCodeToHttpStatus : ErrorCode → Nat
  | .kVectorNotFound | .kNotFound => kHttpNotFound
  | .kInvalidArgument | .kCommandInvalidArgument | .kCommandInvalidTopK | .kCommandSyntaxError
  | .kCommandParseError | .kEventInvalidScore | .kVectorDimensionMismatch
  | .kVectorInvalidDimension => kHttpBadRequest
  | .kPermissionDenied => kHttpForbidden
  | _ => kHttpInternalServerError

/-- `get<float>()`, of a number. -/
def Json.float? (env : FrontEnv F A κ) : Json → Option UInt32
  | .integer n => some (env.intToFloat n.toInt)
  | .unsigned n => some (env.intToFloat n.toNat)
  | .float bits => some (env.toFloat bits)
  | _ => none

section Bodies

variable (env : FrontEnv F A κ)

/-- `top_k`, a whole number that is cut to an `int`. -/
def topKMember (body : Json) : Except HttpError Int :=
  match body.find? (ascii "top_k") with
  | none => .ok env.defaultTopK
  | some value =>
    match value.int64? with
    | none => .error (badRequest "Field 'top_k' must be an integer")
    | some n => .ok n.toInt32.toInt

/-- `min_score`, a number that is finite as a `double`. -/
def minScoreMember (body : Json) : Except HttpError UInt32 :=
  match body.find? (ascii "min_score") with
  | none => .ok 0
  | some value =>
    match value.double?, value.float? env with
    | some bits, some minScore =>
      if isFiniteDouble bits then .ok minScore
      else .error (badRequest "Field 'min_score' must be a finite number")
    | _, _ => .error (badRequest "Field 'min_score' must be a finite number")

/-- `filter`, and the conditions it is read as. -/
def filterMember (body : Json) : Except HttpError (Bytes × MetadataFilter) :=
  match body.find? (ascii "filter") with
  | none => .ok ([], [])
  | some value =>
    match value.string? with
    | none => .error (badRequest "Field 'filter' must be a string")
    | some filterExpr =>
      match parseSimpleFilter env.strtod filterExpr with
      | .error e => .error (badRequest e.message)
      | .ok filter => .ok (filterExpr, filter)

def modeMember (body : Json) : Except HttpError Bytes :=
  match body.find? (ascii "mode") with
  | none => .ok (ascii "fusion")
  | some value =>
    match value.string? with
    | none => .error (badRequest "Field 'mode' must be a string")
    | some mode => .ok mode

def adaptiveMember (body : Json) : Except HttpError (Option Bool) :=
  match body.find? (ascii "adaptive") with
  | none => .ok none
  | some (.boolean on) => .ok (some on)
  | some _ => .error (badRequest "Field 'adaptive' must be a boolean")

/-- The mode of a name. -/
def simMode (mode : Bytes) : Except HttpError SimMode :=
  if mode = SimMode.events.text then .ok .events
  else if mode = SimMode.vectors.text then .ok .vectors
  else if mode = SimMode.fusion.text then .ok .fusion
  else .error (badRequest "Invalid mode. Must be one of: events, vectors, fusion")

/-- `HandleSim`, up to the cache. -/
def parseSimBody (body : Json) : Except HttpError (SimCommand × MetadataFilter) := do
  let id ← stringMember body "id" (badRequest "Missing required field: id")
    (badRequest "Field 'id' must be a string")
  let topK ← topKMember env body
  let mode ← modeMember body
  let minScore ← minScoreMember env body
  let (filterExpr, filter) ← filterMember env body
  let adaptive ← adaptiveMember body
  let mode ← simMode mode
  return ({ id := id, topK := topK, mode := mode, adaptive := adaptive, filterExpr := filterExpr
            minScore := minScore }, filter)

/-- `HandleSimv`, up to the cache. -/
def parseSimvBody (body : Json) : Except HttpError (SimvCommand × MetadataFilter) := do
  match body.find? (ascii "vector") with
  | none => throw (badRequest "Missing required field: vector")
  | some value =>
    let topK ← topKMember env body
    let minScore ← minScoreMember env body
    let vector ← parseFiniteFloatVector env.toFloat value
    let (filterExpr, filter) ← filterMember env body
    return ({ topK := topK, filterExpr := filterExpr, minScore := minScore, vector := vector },
      filter)

end Bodies

/-- The members of a response: what was asked, and the ids with the multiples of the scores. -/
structure HttpSimResponse where
  count : Nat
  mode : Option Bytes := none
  dimension : Option Nat := none
  results : List (Bytes × Int)
  deriving DecidableEq, Repr

def HttpSimResponse.of (q : Query) (results : List SimilarityResult) : HttpSimResponse where
  count := (applyMinScore results q.minScore).length
  mode :=
    match q with
    | .sim cmd => some cmd.mode.text
    | .simv _ => none
  dimension :=
    match q with
    | .sim _ => none
    | .simv cmd => some cmd.vector.length
  results := (applyMinScore results q.minScore).map fun r =>
    (r.itemId, roundScoreMultiple r.score)

namespace ServerContext

variable (env : FrontEnv F A κ)

/-- The response to a query over HTTP. -/
def httpRespondQuery (sc : ServerContext F A κ) (t : QueryTimes) (q : Query)
    (filter : MetadataFilter) : SimilarityCache κ × Except HttpError HttpSimResponse :=
  let outcome := sc.runQuery env t filter q
  (outcome.cache,
    match outcome.results with
    | .error e => .error ⟨errorCodeToHttpStatus e.code, e.message⟩
    | .ok results => .ok (.of q results))

/-- `HandleSim`. -/
def httpHandleSim (sc : ServerContext F A κ) (t : QueryTimes) (body : Option Json) :
    SimilarityCache κ × Except HttpError HttpSimResponse :=
  match body with
  | none => (sc.cache, .error invalidBody)
  | some body =>
    match parseSimBody env body with
    | .error e => (sc.cache, .error e)
    | .ok (cmd, filter) => sc.httpRespondQuery env t (.sim cmd) filter

/-- `HandleSimv`. -/
def httpHandleSimv (sc : ServerContext F A κ) (t : QueryTimes) (body : Option Json) :
    SimilarityCache κ × Except HttpError HttpSimResponse :=
  match body with
  | none => (sc.cache, .error invalidBody)
  | some body =>
    match parseSimvBody env body with
    | .error e => (sc.cache, .error e)
    | .ok (cmd, filter) => sc.httpRespondQuery env t (.simv cmd) filter

end ServerContext

end Handlers

end Nvecd.Server
