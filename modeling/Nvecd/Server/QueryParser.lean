/-
  File:      Nvecd/Server/QueryParser.lean
  Subject:   `server/command_parser.cpp`: the `SIM` and `SIMV` requests, from the bytes of a line
             to the parameters of a query.

  A line is cut at its blanks; what is between them is the client's. Numbers go through `stoi` and
  `stof`, of which the second is a parameter.

  * `requestTokens` -- the words of a request, as every command has them;
  * `parseSim`, `parseSimv` -- the two queries;
  * `SimCommand.cacheKeyParams` -- what `HandleSim` makes a key of;
  * `two_requests_one_key` -- two lines that are answered from one entry of the cache.
-/
import Nvecd.Cache.CacheKey
import Nvecd.Vectors.Metadata

namespace Nvecd.Server

open Nvecd.Lib Nvecd.Storage Nvecd.Utils Nvecd.Vectors Nvecd.Cache

/-! ## 1. Words and numbers -/

/-- `Split`: the parts between the delimiters that are not empty. -/
def split (str : Bytes) (delimiter : UInt8) : List Bytes :=
  (str.splitOn delimiter).filter fun token => token ≠ []

/-- `Trim`. -/
def trim (str : Bytes) : Bytes := ((str.dropWhile isSpace).reverse.dropWhile isSpace).reverse

/-- `ToUpper`. -/
def toUpper (str : Bytes) : Bytes := str.map fun b => if 97 ≤ b ∧ b ≤ 122 then b - 32 else b

def syntaxError (message : String) : Error := makeError .kCommandSyntaxError message

/-- `ParseInt`: what `stoi` takes, which must be all. -/
def parseInt (str : Bytes) : Except Error Int :=
  let (negative, text) :=
    match str.dropWhile isSpace with
    | 45 :: rest => (true, rest)
    | 43 :: rest => (false, rest)
    | text => (false, text)
  let digits := text.takeWhile isDigit
  let value : Int := if negative then -(digitsValue digits) else digitsValue digits
  if digits = [] ∨ value < -(2 ^ 31) ∨ 2 ^ 31 ≤ value then
    .error (makeError .kCommandInvalidArgument ("Failed to parse integer: " ++ textOf str))
  else if text.dropWhile isDigit ≠ [] then
    .error (makeError .kCommandInvalidArgument ("Invalid integer: " ++ textOf str))
  else .ok value

/-- `ParseTopK`; a maximum of zero is none. -/
def parseTopK (str : Bytes) (maxTopK : Nat) : Except Error Int := do
  let value ← parseInt str
  if value ≤ 0 then
    throw (makeError .kCommandInvalidTopK ("top_k must be positive, got " ++ toString value))
  if 0 < maxTopK ∧ (maxTopK : Int) < value then
    throw (makeError .kCommandInvalidTopK
      ("top_k " ++ toString value ++ " exceeds maximum allowed: " ++ toString maxTopK))
  return value

/-- The words of a request: the line without its end, which may not hold another. -/
def requestTokens (request : Bytes) : Except Error (List Bytes) :=
  if request = [] then .error (syntaxError "Empty command")
  else if 0 ∈ request then .error (syntaxError "Command must not contain embedded NUL bytes")
  else
    let line := (request.reverse.dropWhile fun b => b = 13 ∨ b = 10).reverse
    if line = [] then .error (syntaxError "Empty command")
    else if 13 ∈ line ∨ 10 ∈ line then .error (syntaxError "Command must be a single line")
    else
      let tokens := split (trim line) 32
      if tokens = [] then .error (syntaxError "Empty command") else .ok tokens

/-! ## 2. The queries -/

structure SimCommand where
  id : Bytes
  topK : Int
  mode : SimMode := .fusion
  adaptive : Option Bool := none
  filterExpr : Bytes := []
  minScore : UInt32 := 0
  deriving DecidableEq, Repr

structure SimvCommand where
  topK : Int
  filterExpr : Bytes := []
  minScore : UInt32 := 0
  vector : List UInt32 := []
  deriving DecidableEq, Repr

/-- What follows a prefix. -/
def afterText (text token : Bytes) : Option Bytes :=
  if text.isPrefixOf token then some (token.drop text.length) else none

/-- `using=`, `adaptive=`, `filter=`, `min_score=`, `candidate_limit=`, `explain=`. -/
def kUsingText : Bytes := [117, 115, 105, 110, 103, 61]

def kAdaptiveText : Bytes := [97, 100, 97, 112, 116, 105, 118, 101, 61]

def kFilterText : Bytes := [102, 105, 108, 116, 101, 114, 61]

def kMinScoreText : Bytes := [109, 105, 110, 95, 115, 99, 111, 114, 101, 61]

def kCandidateLimitText : Bytes :=
  [99, 97, 110, 100, 105, 100, 97, 116, 101, 95, 108, 105, 109, 105, 116, 61]

def kExplainText : Bytes := [101, 120, 112, 108, 97, 105, 110, 61]

section Queries

-- `stof` of a whole text, if that is a finite number; otherwise whether it took a part
variable (stof : Bytes → Option UInt32) (takesPart : Bytes → Bool)

/-- `ParseFloat`. -/
def parseFloat (str : Bytes) : Except Error UInt32 :=
  match stof str with
  | some value => .ok value
  | none =>
    .error (makeError .kCommandInvalidArgument
      ((if takesPart str then "Invalid float: " else "Failed to parse float: ") ++ textOf str))

/-- One option of `SIM`. -/
def simOption (cmd : SimCommand) (token : Bytes) : Except Error SimCommand :=
  match afterText kUsingText token, afterText kAdaptiveText token, afterText kFilterText token,
      afterText kMinScoreText token with
  | some mode, _, _, _ =>
    if mode = SimMode.events.text then .ok { cmd with mode := .events }
    else if mode = SimMode.vectors.text then .ok { cmd with mode := .vectors }
    else if mode = SimMode.fusion.text then .ok { cmd with mode := .fusion }
    else
      .error (syntaxError
        ("Invalid using value: " ++ textOf mode ++ " (must be events, vectors, or fusion)"))
  | none, some val, _, _ =>
    if val = [111, 110] then .ok { cmd with adaptive := some true }
    else if val = [111, 102, 102] then .ok { cmd with adaptive := some false }
    else .error (syntaxError ("Invalid adaptive value: " ++ textOf val ++ " (must be on or off)"))
  | none, none, some filter, _ => .ok { cmd with filterExpr := filter }
  | none, none, none, some score => do
    let minScore ← parseFloat stof takesPart score
    return { cmd with minScore := minScore }
  | none, none, none, none =>
    if kCandidateLimitText.isPrefixOf token then
      .error (syntaxError "candidate_limit option is not supported")
    else if kExplainText.isPrefixOf token then
      .error (syntaxError "explain option is not supported")
    else .error (syntaxError ("Invalid SIM option: " ++ textOf token))

/-- `SIM <id> <top_k> [options]`, the words behind `SIM`. -/
def parseSim (maxTopK : Nat) : List Bytes → Except Error SimCommand
  | id :: count :: options => do
    let topK ← parseTopK count maxTopK
    options.foldlM (simOption stof takesPart) { id := id, topK := topK }
  | _ => .error (syntaxError "SIM requires at least 2 arguments: <id> <top_k>")

/-- The options of `SIMV`, which end at the first word without `=`. -/
def simvOptions (cmd : SimvCommand) : List Bytes → Except Error (SimvCommand × List Bytes)
  | [] => .ok (cmd, [])
  | token :: tokens =>
    if 61 ∉ token then .ok (cmd, token :: tokens)
    else
      match afterText kFilterText token, afterText kMinScoreText token with
      | some filter, _ => simvOptions { cmd with filterExpr := filter } tokens
      | none, some score =>
        match parseFloat stof takesPart score with
        | .error e => .error e
        | .ok minScore => simvOptions { cmd with minScore := minScore } tokens
      | none, none =>
        if kCandidateLimitText.isPrefixOf token then
          .error (syntaxError "candidate_limit option is not supported")
        else if kExplainText.isPrefixOf token then
          .error (syntaxError "explain option is not supported")
        else .error (syntaxError ("Invalid SIMV option: " ++ textOf token))

/-- `SIMV <top_k> [options] <floats>`, the words behind `SIMV`. -/
def parseSimv (maxTopK : Nat) : List Bytes → Except Error SimvCommand
  | count :: token :: tokens => do
    let topK ← parseTopK count maxTopK
    let (cmd, floats) ← simvOptions stof takesPart { topK := topK } (token :: tokens)
    let vector ← floats.mapM (parseFloat stof takesPart)
    if vector = [] then throw (syntaxError "SIMV requires at least one vector float")
    return { cmd with vector := vector }
  | _ => .error (syntaxError "SIMV requires at least 2 arguments: <top_k> <floats>")

/-- `ParseCommand`, as far as it leads to `SIM`: the other commands are unknown here. -/
def parseSimRequest (request : Bytes) (maxTopK : Nat) : Except Error SimCommand := do
  match ← requestTokens request with
  | name :: arguments =>
    if toUpper name = [83, 73, 77] then parseSim stof takesPart maxTopK arguments
    else throw (makeError .kCommandUnknown ("Unknown command: " ++ textOf (toUpper name)))
  | [] => throw (syntaxError "Empty command")

end Queries

/-! ## 3. Keys of requests -/

/-- The generations that a query finds. -/
structure Generations where
  cooccurrence : Nat := 0
  vectors : Nat := 0
  metadata : Nat := 0
  dataset : Nat := 0
  deriving DecidableEq, Repr

/-- The parameters from which `HandleSim` makes the key. -/
def SimCommand.cacheKeyParams (cmd : SimCommand) (g : Generations) : SimCacheKeyParams where
  id := cmd.id
  topK := cmd.topK
  mode := cmd.mode
  adaptive := cmd.adaptive
  cooccurrenceGeneration := g.cooccurrence
  vectorGeneration := g.vectors
  filterExpr := cmd.filterExpr
  metadataGeneration := g.metadata
  datasetGeneration := g.dataset

/-- The bytes of an ASCII text. -/
def ascii (text : String) : Bytes := text.toList.map fun c => UInt8.ofNat c.toNat

/-- The item `x`, its five nearest with a filter. -/
def filteredRequest : Bytes := ascii "SIM x 5 filter=a=1:7:fusion:adefault:g0:v1:m0:d0"

/-- The seven nearest of an item with a long name. -/
def plainRequest : Bytes := ascii "SIM x:5:fusion:adefault:g0:v1:m0:d0:fa=1 7"

/-- **Two requests with one key**: after one vector has been set, the second is answered with the
    cached result of the first. -/
theorem two_requests_one_key :
    ∃ p q, parseSimRequest (fun _ => none) (fun _ => false) filteredRequest 1000 = .ok p ∧
      parseSimRequest (fun _ => none) (fun _ => false) plainRequest 1000 = .ok q ∧
      (∃ conditions, parseSimpleFilter (fun _ => none) p.filterExpr = .ok conditions) ∧
      simKeyText (p.cacheKeyParams { vectors := 1 }) =
        simKeyText (q.cacheKeyParams { vectors := 1 }) ∧
      p.cacheKeyParams { vectors := 1 } ≠ q.cacheKeyParams { vectors := 1 } := by
  refine ⟨⟨ascii "x", 5, .fusion, none, ascii "a=1:7:fusion:adefault:g0:v1:m0:d0", 0⟩,
    ⟨ascii "x:5:fusion:adefault:g0:v1:m0:d0:fa=1", 7, .fusion, none, [], 0⟩, ?_, ?_, ?_, ?_, ?_⟩
  · rfl
  · rfl
  · exact ⟨_, rfl⟩
  · decide +kernel
  · decide +kernel

end Nvecd.Server
