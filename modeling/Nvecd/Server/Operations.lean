/-
  File:      Nvecd/Server/Operations.lean
  Subject:   What a request line and a body mean (`server/command_parser.cpp`,
             `server/http_server.cpp`), and what each server reads of them.

  A request line and a body denote an operation: its ids, its score and its timestamp as whole
  numbers, its vector as the decimal texts of its components, its metadata as a map. A line holds
  the texts themselves; of a body they are the numbers that `json::parse` makes of them.

  * `Operation`, `tcpOperation`, `HttpDenotes` -- operations, and what denotes them;
  * `isNumberText`, `jsonNumber` -- numbers in JSON, and their values;
  * `PlainFields` -- no whole number above `2 ^ 63 - 1` as metadata;
  * `parseEvent_reads`, `parseEventBody_reads` -- an event, read from either;
  * `parseMetadata_text`, `parseMetadataJson_fields`, `sameMetadata_iff` -- metadata likewise.
-/
import Nvecd.Server.HttpServer
import Nvecd.Server.Effects

namespace Nvecd.Server

open Nvecd.Lib Nvecd.Utils Nvecd.Storage Nvecd.Events Nvecd.Vectors Nvecd.Similarity Nvecd.Cache

/-! ## 1. Operations -/

/-- A value of metadata as it is meant. -/
inductive FieldValue where
  | text (value : Bytes)
  | flag (value : Bool)
  | whole (value : Int)
  /-- The bits of a finite number. -/
  | real (bits : UInt64)
  deriving DecidableEq

/-- **A write as it is meant.** -/
inductive Operation where
  | event (ctx id : Bytes) (type : EventType) (score : Int) (timestamp : Option Int)
  /-- The components are decimal texts. -/
  | vecset (id : Bytes) (components : List Bytes)
  | vecdel (id : Bytes)
  | metaset (id : Bytes) (fields : Bytes → Option FieldValue)

/-- The last entry of a key. -/
def lastOf {ν : Type} (entries : List (Bytes × ν)) (k : Bytes) : Option ν :=
  (entries.reverse.find? fun e => e.1 = k).map (·.2)

/-- The sign and the digits of a number, behind white space. -/
def signedDigits (text : Bytes) : Bool × Bytes :=
  match text.dropWhile isSpace with
  | 45 :: rest => (true, rest)
  | 43 :: rest => (false, rest)
  | rest => (false, rest)

/-- The value of a whole number in decimal. -/
def numeral (text : Bytes) : Option Int :=
  let (negative, digits) := signedDigits text
  if digits = [] ∨ ¬ digits.all isDigit then none
  else some (if negative then -(digitsValue digits : Int) else digitsValue digits)

/-- `e`, a sign or none, and digits; or nothing. -/
def isExponentText : Bytes → Bool
  | [] => true
  | e :: rest =>
    let digits := match rest with
      | 43 :: digits => digits
      | 45 :: digits => digits
      | digits => digits
    (e = 101 || e = 69) && digits ≠ [] && digits.all isDigit

/-- A point and digits, or neither, and an exponent. -/
def isFractionText : Bytes → Bool
  | 46 :: rest => rest.takeWhile isDigit ≠ [] && isExponentText (rest.dropWhile isDigit)
  | rest => isExponentText rest

/-- **A number in JSON**: a minus sign or none, a whole number without leading zeros, a fraction
    and an exponent. -/
def isNumberText (text : Bytes) : Bool :=
  let rest := if text.head? = some 45 then text.tail else text
  let whole := rest.takeWhile isDigit
  (whole = [48] || whole ≠ [] && whole.head? ≠ some 48) && isFractionText (rest.dropWhile isDigit)

section Tcp

variable (strtod : Bytes → Option UInt64)

/-- The whole numbers that are whole numbers in JSON. -/
def jsonWhole (n : Int) : Bool := -(2 ^ 63) ≤ n && n < 2 ^ 64

/-- What a text says: a truth value, a whole number, another number, else itself. -/
def FieldValue.ofText (text : Bytes) : Option FieldValue :=
  if text = ascii "true" then some (.flag true)
  else if text = ascii "false" then some (.flag false)
  else
    match (numeral text).filter jsonWhole with
    | some n => some (.whole n)
    | none =>
      match strtod text with
      | some d => if isFiniteDouble d then some (.real d) else none
      | none => some (.text text)

/-- The characters of the operators. -/
def isOperator (b : UInt8) : Bool := b = 58 || b = 60 || b = 61 || b = 62

/-- The values that are read as lists. -/
def isList (value : Bytes) : Bool :=
  5 ≤ value.length && [105, 110, 40].isPrefixOf value && value.getLast? = some 41

/-- `key:value`. -/
def fieldOf (pair : Bytes) : Option (Bytes × FieldValue) :=
  let key := pair.takeWhile fun b => !isOperator b
  match pair.dropWhile fun b => !isOperator b with
  | 58 :: value =>
    if key = [] ∨ value = [] ∨ isList value then none
    else (FieldValue.ofText strtod value).map fun v => (key, v)
  | _ => none

/-- `[timestamp=<value>]`: at most one, if it is a whole number. -/
def timestampOf : List Bytes → Option (Option Int)
  | [] => some none
  | [option] => ((afterText kTimestampText option).bind numeral).map some
  | _ => none

def scoredOperation (ctx id : Bytes) (type : EventType) : List Bytes → Option Operation
  | score :: rest =>
    match numeral score, timestampOf rest with
    | some score, some timestamp => some (.event ctx id type score timestamp)
    | _, _ => none
  | [] => none

/-- What the words behind `EVENT` say. -/
def eventOperation : List Bytes → Option Operation
  | ctx :: type :: id :: rest =>
    if toUpper type = ascii "ADD" then scoredOperation ctx id .ADD rest
    else if toUpper type = ascii "SET" then scoredOperation ctx id .SET rest
    else if toUpper type = ascii "DEL" then (timestampOf rest).map (.event ctx id .DEL 0)
    else none
  | _ => none

/-- The numbers of a vector, as texts. -/
def vecsetOperation : List Bytes → Option Operation
  | id :: float :: floats =>
    if (float :: floats).all isNumberText then some (.vecset id (float :: floats)) else none
  | _ => none

def vecdelOperation : List Bytes → Option Operation
  | [id] => some (.vecdel id)
  | _ => none

def metasetOperation : List Bytes → Option Operation
  | [id, expr] =>
    ((split expr 44).mapM (fieldOf strtod)).map fun fields => .metaset id (lastOf fields)
  | _ => none

/-- **What a request line says.** -/
def tcpOperation (request : Bytes) : Option Operation :=
  match requestTokens request with
  | .ok (name :: arguments) =>
    if toUpper name = ascii "EVENT" then eventOperation arguments
    else if toUpper name = ascii "VECSET" then vecsetOperation arguments
    else if toUpper name = ascii "VECDEL" then vecdelOperation arguments
    else if toUpper name = ascii "METASET" then metasetOperation strtod arguments
    else none
  | _ => none

end Tcp

section Http

/-- **The number of a text**, as `json::parse` makes it: whole numbers with a sign and without
    one, and `strtod` of the others, also of whole numbers that are too large. An infinite one is
    an error. -/
def jsonNumber (strtod : Bytes → Option UInt64) (text : Bytes) : Option Json :=
  let negative : Bool := text.head? = some 45
  let digits := if negative then text.tail else text
  if ¬ isNumberText text then none
  else if negative ∧ digits.all isDigit ∧ digitsValue digits ≤ 2 ^ 63 then
    some (.integer (Int64.ofInt (-(digitsValue digits : Int))))
  else if ¬ negative ∧ digits.all isDigit ∧ digitsValue digits < 2 ^ 64 then
    some (.unsigned (UInt64.ofNat (digitsValue digits)))
  else
    match strtod text with
    | some d => if isFiniteDouble d then some (.float d) else none
    | none => none

/-- The whole number of a JSON number. -/
def Json.whole? : Json → Option Int
  | .integer n => some n.toInt
  | .unsigned n => some n.toNat
  | _ => none

def FieldValue.ofJson : Json → Option FieldValue
  | .string s => some (.text s)
  | .boolean b => some (.flag b)
  | .float d => if isFiniteDouble d then some (.real d) else none
  | value => value.whole?.map .whole

/-- The timestamp of a body, if it has one. -/
def jsonTimestamp (body : Json) : Option (Option Int) :=
  match body.find? (ascii "timestamp") with
  | none => some none
  | some value => value.whole?.map some

def jsonString (body : Json) (key : String) : Option Bytes :=
  (body.find? (ascii key)).bind Json.string?

/-- The score of a body; that of a deletion does not matter. -/
def jsonScore (body : Json) (type : EventType) : Option Int :=
  if type = .DEL then some 0 else (body.find? (ascii "score")).bind Json.whole?

def jsonEvent (body : Json) : Option Operation :=
  match jsonString body "ctx", jsonString body "id", (jsonString body "type").bind httpEventType with
  | some ctx, some id, some type =>
    match jsonScore body type, jsonTimestamp body with
    | some score, some timestamp => some (.event ctx id type score timestamp)
    | _, _ => none
  | _, _, _ => none

/-- The timestamp of a body is a number with a minus sign. -/
def SignedTimestamp (body : Json) : Prop := ∃ n, body.find? (ascii "timestamp") = some (.integer n)

/-- The keys of an object are distinct; an empty one cannot be told in a line. -/
def jsonFields (members : List (Bytes × Json)) : Option (List (Bytes × FieldValue)) :=
  if (members.map (·.1)).Nodup ∧ [] ∉ members.map (·.1) then
    members.mapM fun m => (FieldValue.ofJson m.2).map fun v => (m.1, v)
  else none

def jsonMetaset (body : Json) : Option Operation :=
  match jsonString body "id", body.find? (ascii "metadata") with
  | some id, some (.object members) =>
    (jsonFields members).map fun fields => .metaset id (lastOf fields)
  | _, _ => none

/-- **What a body says**, to a route. A vector is said in texts, of which the body holds the
    numbers; it comes without metadata, which a request line cannot give it. -/
def HttpDenotes (strtod : Bytes → Option UInt64) (route : HttpRoute) (body : Json) (op : Operation) :
    Prop :=
  match route with
  | .event => jsonEvent body = some op
  | .vecset => ∃ id components elements, op = .vecset id components ∧
      jsonString body "id" = some id ∧ body.find? (ascii "vector") = some (.array elements) ∧
      components.mapM (jsonNumber strtod) = some elements ∧ body.find? (ascii "metadata") = none
  | .vecdel => (jsonString body "id").map .vecdel = some op
  | .metaset => jsonMetaset body = some op

end Http

/-- **Both readers take the metadata for the same**: no whole number is above `2 ^ 63 - 1`, which
    the dispatcher takes for a `double` and the HTTP server modulo `2 ^ 64`. -/
def PlainFields (fields : Bytes → Option FieldValue) : Prop :=
  ∀ k n, fields k = some (.whole n) → n < 2 ^ 63

/-- Two maps with the same entries, in any order. -/
def SameMetadata (m m' : Metadata) : Prop := ∀ field, m.find? field = m'.find? field

/-! ## 2. Whole numbers -/

/-- A whole number has digits only. -/
theorem numeral_some {t : Bytes} {n : Int} (h : numeral t = some n) :
    ∃ negative digits, signedDigits t = (negative, digits) ∧ digits ≠ [] ∧
      (∀ b ∈ digits, isDigit b = true) ∧
      n = if negative then -(digitsValue digits : Int) else digitsValue digits := by
  unfold numeral at h
  cases hs : signedDigits t with
  | mk negative digits =>
    rw [hs] at h
    simp only at h
    split at h
    · cases h
    · rename_i hdigits
      rw [not_or, not_not, List.all_eq_true] at hdigits
      exact ⟨negative, digits, rfl, hdigits.1, hdigits.2, (Option.some.inj h).symm⟩

theorem takeWhile_digits {digits : Bytes} (h : ∀ b ∈ digits, isDigit b = true) :
    digits.takeWhile isDigit = digits ∧ digits.dropWhile isDigit = [] :=
  ⟨List.takeWhile_eq_self_iff.mpr h, List.dropWhile_eq_nil_iff.mpr h⟩

/-- `ParseInt` takes a whole number that is an `int`. -/
theorem parseInt_numeral {t : Bytes} {n : Int} (h : numeral t = some n) :
    (-(2 ^ 31) ≤ n ∧ n < 2 ^ 31 ∧ parseInt t = .ok n) ∨
      (n < -(2 ^ 31) ∨ 2 ^ 31 ≤ n) ∧ ∃ e, parseInt t = .error e := by
  obtain ⟨negative, digits, hs, hne, hall, hn⟩ := numeral_some h
  obtain ⟨htake, hdrop⟩ := takeWhile_digits hall
  have hread : parseInt t =
      if digits = [] ∨ n < -(2 ^ 31) ∨ 2 ^ 31 ≤ n then
        .error (makeError .kCommandInvalidArgument ("Failed to parse integer: " ++ textOf t))
      else .ok n := by
    have hunfold : parseInt t = match signedDigits t with
        | (negative, text) =>
          let digits := text.takeWhile isDigit
          let value : Int := if negative then -(digitsValue digits) else digitsValue digits
          if digits = [] ∨ value < -(2 ^ 31) ∨ 2 ^ 31 ≤ value then
            .error (makeError .kCommandInvalidArgument ("Failed to parse integer: " ++ textOf t))
          else if text.dropWhile isDigit ≠ [] then
            .error (makeError .kCommandInvalidArgument ("Invalid integer: " ++ textOf t))
          else .ok value := rfl
    rw [hunfold, hs]
    simp only [htake, hdrop, ← hn, ne_eq, not_true_eq_false, if_false]
  rw [hread]
  by_cases hrange : n < -(2 ^ 31) ∨ 2 ^ 31 ≤ n
  · rw [if_pos (.inr hrange)]
    exact .inr ⟨hrange, _, rfl⟩
  · rw [if_neg (by rintro (hcon | hcon); exacts [hne hcon, hrange hcon])]
    rw [not_or, not_lt, not_le] at hrange
    exact .inl ⟨hrange.1, hrange.2, rfl⟩

/-- The score of an event is taken if it is one. -/
theorem parseEventScore_numeral {t : Bytes} {n : Int} (h : numeral t = some n) :
    (kMinEventScore ≤ n ∧ n ≤ kMaxEventScore ∧ parseEventScore t = .ok n) ∨
      (n < kMinEventScore ∨ kMaxEventScore < n) ∧ ∃ e, parseEventScore t = .error e := by
  unfold parseEventScore
  rcases parseInt_numeral h with ⟨-, -, hok⟩ | ⟨hrange, e, he⟩
  · rw [hok]
    by_cases hscore : n < kMinEventScore ∨ kMaxEventScore < n
    · refine .inr ⟨hscore, ?_⟩
      simp only [bind, Except.bind, hscore, if_true]
      exact ⟨_, rfl⟩
    · have hin := hscore
      rw [not_or, not_lt, not_lt] at hin
      refine .inl ⟨hin.1, hin.2, ?_⟩
      simp only [bind, Except.bind, hscore, if_false]
      rfl
  · rw [he]
    refine .inr ⟨?_, e, rfl⟩
    unfold kMinEventScore kMaxEventScore
    omega

theorem ofInt_natCast (n : Nat) : UInt64.ofInt n = UInt64.ofNat n := by
  have hmod : ((n : Int) % 2 ^ 64).toNat = n % 2 ^ 64 := by omega
  rw [UInt64.ofInt, hmod, UInt64.ofNat_mod_size]

/-- `ParseTimestamp` takes a whole number whose digits are a `uint64_t`, modulo `2 ^ 64`. -/
theorem parseTimestamp_numeral {option t : Bytes} {n : Int}
    (hoption : afterText kTimestampText option = some t) (h : numeral t = some n)
    (hlo : -(2 ^ 64) < n) (hhi : n < 2 ^ 64) :
    parseTimestamp option = .ok (UInt64.ofInt n) := by
  obtain ⟨negative, digits, hs, hne, hall, hn⟩ := numeral_some h
  obtain ⟨htake, hdrop⟩ := takeWhile_digits hall
  have hunfold : parseTimestamp option = match signedDigits t with
      | (negative, text) =>
        let digits := text.takeWhile isDigit
        if digits = [] ∨ 2 ^ 64 ≤ digitsValue digits then
          .error (makeError .kCommandInvalidArgument
            ("Failed to parse timestamp: " ++ textOf t))
        else if text.dropWhile isDigit ≠ [] then
          .error (makeError .kCommandInvalidArgument
            ("Invalid timestamp value: " ++ textOf t))
        else
          let value := UInt64.ofNat (digitsValue digits)
          .ok (if negative then -value else value) := by
    unfold parseTimestamp
    rw [hoption]
    rfl
  have hsmall : digitsValue digits < 2 ^ 64 := by
    cases negative <;> simp only [Bool.false_eq_true, if_false, if_true] at hn <;> omega
  rw [hunfold, hs]
  simp only [htake, hdrop, ne_eq, not_true_eq_false, if_false]
  rw [if_neg (by rintro (hcon | hcon); exacts [hne hcon, absurd hcon (by omega)])]
  rw [hn]
  cases negative with
  | false =>
    simp only [Bool.false_eq_true, if_false]
    rw [ofInt_natCast]
  | true =>
    simp only [if_true]
    rw [UInt64.ofInt_neg, ofInt_natCast]

/-- A `uint64_t` as an `int64_t`. -/
theorem toInt_toInt64 (n : UInt64) :
    n.toInt64.toInt = if n.toNat < 2 ^ 63 then (n.toNat : Int) else (n.toNat : Int) - 2 ^ 64 := by
  show n.toBitVec.toInt = _
  rw [BitVec.toInt_eq_toNat_cond]
  have hnat : n.toBitVec.toNat = n.toNat := rfl
  rw [hnat]
  split
  · rw [if_pos (by omega)]
  · rw [if_neg (by omega)]
    rfl

/-! ## 3. Events -/

/-- The score of an event, where it has one, is one that both readers take. -/
def ScoreInRange (type : EventType) (score : Int) : Prop :=
  type ≠ .DEL → kMinEventScore ≤ score ∧ score ≤ kMaxEventScore

/-- The timestamps that a body can name. -/
def InReach (timestamp : Option Int) : Prop :=
  ∀ t, timestamp = some t → -(2 ^ 64) < t ∧ t < 2 ^ 64

/-- What is read of an event: its timestamp modulo `2 ^ 64`. -/
def eventBody (ctx id : Bytes) (type : EventType) (score : Int) (timestamp : Option Int) :
    EventBody :=
  ⟨ctx, id, type, score, UInt64.ofInt (timestamp.getD 0)⟩

/-- What the dispatcher reads of an event. -/
structure TcpReads (body : EventBody) (cmd : Command) : Prop where
  isEvent : cmd.type = .kEvent
  sameCtx : cmd.ctx = body.ctx
  sameId : cmd.id = body.id
  sameType : cmd.eventType = body.type
  sameScore : cmd.score = if body.type = .DEL then 0 else body.score
  sameTime : cmd.timestamp.getD 0 = body.timestamp

theorem optionalTimestamp_reads {ctx id : Bytes} {type : EventType} {score : Int}
    {timestamp : Option Int} {rest : List Bytes} (h : timestampOf rest = some timestamp)
    (hreach : InReach timestamp) :
    ∃ cmd, optionalTimestamp
        { type := .kEvent, ctx := ctx, id := id, eventType := type, score := score } rest =
          .ok cmd ∧
      cmd.type = .kEvent ∧ cmd.ctx = ctx ∧ cmd.id = id ∧ cmd.eventType = type ∧
      cmd.score = score ∧ cmd.timestamp.getD 0 = UInt64.ofInt (timestamp.getD 0) := by
  match rest with
  | [] =>
    cases h
    exact ⟨_, rfl, rfl, rfl, rfl, rfl, rfl, rfl⟩
  | [option] =>
    simp only [timestampOf, Option.map_eq_some_iff, Option.bind_eq_some_iff] at h
    obtain ⟨t, ⟨text, htext, ht⟩, rfl⟩ := h
    have hu := parseTimestamp_numeral htext ht (hreach t rfl).1 (hreach t rfl).2
    exact ⟨_, by simp only [optionalTimestamp, hu]; rfl, rfl, rfl, rfl, rfl, rfl, rfl⟩
  | _ :: _ :: _ => cases h

/-- An event with a score. -/
theorem parseScoredEvent_reads {ctx id : Bytes} {type type' : EventType} {score : Int}
    {timestamp : Option Int} {rest : List Bytes} {name : String}
    (htype : type = .ADD ∨ type = .SET) {ctx' id' : Bytes}
    (h : scoredOperation ctx id type rest = some (.event ctx' id' type' score timestamp))
    (hreach : InReach timestamp) :
    (ScoreInRange type' score → ∃ cmd, parseScoredEvent ctx type name (id :: rest) = .ok cmd ∧
      TcpReads (eventBody ctx' id' type' score timestamp) cmd) ∧
    (¬ ScoreInRange type' score →
      ∃ e, parseScoredEvent ctx type name (id :: rest) = .error e) := by
  have hdel : type ≠ .DEL := by
    rcases htype with rfl | rfl <;> decide
  match rest with
  | [] => cases h
  | text :: rest =>
    simp only [scoredOperation] at h
    split at h
    · rename_i n ts hn hts
      cases h
      have hlen : ¬ 1 < rest.length := by
        match rest with
        | [] => simp
        | [_] => simp
        | _ :: _ :: _ => cases hts
      unfold parseScoredEvent
      simp only [hlen, if_false]
      rcases parseEventScore_numeral hn with ⟨hlo, hhi, hok⟩ | ⟨hout, e, he⟩
      · refine ⟨fun _ => ?_, fun hcon => absurd (fun _ => ⟨hlo, hhi⟩) hcon⟩
        obtain ⟨cmd, hcmd, h1, h2, h3, h4, h5, h6⟩ := optionalTimestamp_reads hts hreach
        refine ⟨cmd, ?_, h1, h2, h3, h4, ?_, h6⟩
        · simp only [hok]
          exact hcmd
        · rw [h5]
          exact (if_neg hdel).symm
      · refine ⟨fun hin => ?_, fun _ => ⟨e, by simp only [he]; rfl⟩⟩
        have := hin hdel
        omega
    · cases h

/-- **What the dispatcher makes of an event**: it reads it if its score is in range. -/
theorem parseEvent_reads {arguments : List Bytes} {ctx id : Bytes} {type : EventType} {score : Int}
    {timestamp : Option Int}
    (h : eventOperation arguments = some (.event ctx id type score timestamp))
    (hreach : InReach timestamp) :
    (ScoreInRange type score → ∃ cmd, parseEvent arguments = .ok cmd ∧
      TcpReads (eventBody ctx id type score timestamp) cmd) ∧
    (¬ ScoreInRange type score → ∃ e, parseEvent arguments = .error e) := by
  match arguments with
  | [] => cases h
  | [_] => cases h
  | [_, _] => cases h
  | ctx' :: text :: id' :: rest =>
    simp only [eventOperation] at h
    unfold parseEvent
    dsimp only
    split at h
    · rename_i hadd
      rw [if_pos hadd]
      exact parseScoredEvent_reads (.inl rfl) h hreach
    · rename_i hadd
      rw [if_neg hadd]
      split at h
      · rename_i hset
        rw [if_pos hset]
        exact parseScoredEvent_reads (.inr rfl) h hreach
      · rename_i hset
        rw [if_neg hset]
        split at h
        · rename_i hdel
          rw [if_pos hdel]
          rw [Option.map_eq_some_iff] at h
          obtain ⟨ts, hts, hop⟩ := h
          cases hop
          have hlen : ¬ 1 < rest.length := by
            match rest with
            | [] => simp
            | [_] => simp
            | _ :: _ :: _ => cases hts
          rw [if_neg hlen]
          refine ⟨fun _ => ?_, fun hcon => absurd (fun hne => absurd rfl hne) hcon⟩
          obtain ⟨cmd, hcmd, h1, h2, h3, h4, h5, h6⟩ := optionalTimestamp_reads hts hreach
          exact ⟨cmd, hcmd, h1, h2, h3, h4, h5, h6⟩
        · cases h

/-- What only an event can be. -/
theorem eventOperation_event {arguments : List Bytes} {op : Operation}
    (h : eventOperation arguments = some op) :
    ∃ ctx id type score timestamp, op = .event ctx id type score timestamp := by
  have hscored : ∀ ctx id type rest, scoredOperation ctx id type rest = some op →
      ∃ ctx id type score timestamp, op = .event ctx id type score timestamp := by
    intro ctx id type rest h
    unfold scoredOperation at h
    split at h
    · split at h
      · cases h
        exact ⟨_, _, _, _, _, rfl⟩
      · cases h
    · cases h
  unfold eventOperation at h
  split at h
  · split at h
    · exact hscored _ _ _ _ h
    · split at h
      · exact hscored _ _ _ _ h
      · split at h
        · rw [Option.map_eq_some_iff] at h
          obtain ⟨ts, -, rfl⟩ := h
          exact ⟨_, _, _, _, _, rfl⟩
        · cases h
  · cases h

/-- The whole numbers of a body. -/
theorem whole?_bounds {value : Json} {n : Int} (h : value.whole? = some n) :
    -(2 ^ 63) ≤ n ∧ n < 2 ^ 64 := by
  unfold Json.whole? at h
  split at h
  · rename_i k
    cases h
    exact ⟨k.le_toInt, lt_trans k.toInt_lt (by decide)⟩
  · rename_i k
    cases h
    have := k.toNat_lt
    omega
  · cases h

/-- A score is taken for what it is, if it is in range. -/
theorem httpScore_reads {body value : Json} {n : Int} (name : String)
    (hfind : body.find? (ascii "score") = some value) (h : value.whole? = some n) :
    (kMinEventScore ≤ n ∧ n ≤ kMaxEventScore ∧ httpScore body name = .ok n) ∨
      (n < kMinEventScore ∨ kMaxEventScore < n) ∧ ∃ e, httpScore body name = .error e := by
  have hraw : ∃ raw, value.int64? = some raw ∧ ((raw.toInt = n) ∨
      (n < kMinEventScore ∨ kMaxEventScore < n) ∧
        (raw.toInt < kMinEventScore ∨ kMaxEventScore < raw.toInt)) := by
    unfold Json.whole? at h
    split at h
    · rename_i k
      cases h
      exact ⟨k, rfl, .inl rfl⟩
    · rename_i k
      cases h
      refine ⟨k.toInt64, rfl, ?_⟩
      rw [toInt_toInt64]
      have := k.toNat_lt
      unfold kMinEventScore kMaxEventScore
      split
      · exact .inl rfl
      · right
        omega
    · cases h
  obtain ⟨raw, hint, hval⟩ := hraw
  unfold httpScore
  rw [hfind]
  simp only [hint]
  by_cases hrange : raw.toInt < kMinEventScore ∨ kMaxEventScore < raw.toInt
  · rw [if_pos hrange]
    refine .inr ⟨?_, _, rfl⟩
    rcases hval with rfl | ⟨hout, -⟩
    · exact hrange
    · exact hout
  · rw [if_neg hrange]
    rcases hval with rfl | ⟨-, hout⟩
    · rw [not_or, not_lt, not_lt] at hrange
      exact .inl ⟨hrange.1, hrange.2, rfl⟩
    · exact absurd hout hrange

theorem httpTimestamp_reads {body : Json} {timestamp : Option Int}
    (h : jsonTimestamp body = some timestamp) :
    InReach timestamp ∧
      (¬ SignedTimestamp body → httpTimestamp body = .ok (UInt64.ofInt (timestamp.getD 0))) ∧
      (SignedTimestamp body → ∃ e, httpTimestamp body = .error e) := by
  unfold jsonTimestamp at h
  unfold httpTimestamp SignedTimestamp
  cases hfind : body.find? (ascii "timestamp") with
  | none =>
    rw [hfind] at h
    cases h
    exact ⟨fun t ht => by (cases ht), fun _ => rfl, fun ⟨n, hn⟩ => by cases hn⟩
  | some value =>
    rw [hfind] at h
    obtain ⟨n, hn, rfl⟩ := Option.map_eq_some_iff.mp h
    have hreach : InReach (some n) := by
      intro t ht
      cases ht
      have := whole?_bounds hn
      omega
    refine ⟨hreach, ?_⟩
    unfold Json.whole? at hn
    split at hn
    · rename_i k
      exact ⟨fun hcon => absurd ⟨k, rfl⟩ hcon, fun _ => ⟨_, rfl⟩⟩
    · rename_i k
      cases hn
      refine ⟨fun _ => ?_, fun ⟨n, hn⟩ => by cases hn⟩
      show Except.ok k = .ok (UInt64.ofInt k.toNat)
      rw [ofInt_natCast, UInt64.ofNat_toNat]
    · cases hn

/-- The score of an event, which a deletion does not have. -/
theorem httpScoreOf_reads {body : Json} {type : EventType} {score : Int}
    (htype : type = .ADD ∨ type = .SET ∨ type = .DEL) (h : jsonScore body type = some score) :
    (ScoreInRange type score → httpScoreOf body type = .ok score) ∧
      (¬ ScoreInRange type score → ∃ e, httpScoreOf body type = .error e) := by
  have hscored : ∀ name, type ≠ .DEL →
      (ScoreInRange type score → httpScore body name = .ok score) ∧
      (¬ ScoreInRange type score → ∃ e, httpScore body name = .error e) := by
    intro name hdel
    rw [jsonScore, if_neg hdel] at h
    obtain ⟨value, hfind, hvalue⟩ := Option.bind_eq_some_iff.mp h
    rcases httpScore_reads name hfind hvalue with ⟨hlo, hhi, hok⟩ | ⟨hout, he⟩
    · exact ⟨fun _ => hok, fun hcon => absurd (fun _ => ⟨hlo, hhi⟩) hcon⟩
    · refine ⟨fun hin => ?_, fun _ => he⟩
      have := hin hdel
      omega
  rcases htype with rfl | rfl | rfl
  · exact hscored "ADD" (by decide)
  · exact hscored "SET" (by decide)
  · rw [jsonScore, if_pos rfl] at h
    cases h
    exact ⟨fun _ => rfl, fun hcon => absurd (fun hne => absurd rfl hne) hcon⟩

theorem httpEventType_some {text : Bytes} {type : EventType} (h : httpEventType text = some type) :
    type = .ADD ∨ type = .SET ∨ type = .DEL := by
  unfold httpEventType at h
  split at h
  · exact .inl (Option.some.inj h).symm
  · split at h
    · exact .inr (.inl (Option.some.inj h).symm)
    · split at h
      · exact .inr (.inr (Option.some.inj h).symm)
      · cases h

theorem jsonString_some {body : Json} {key : String} {text : Bytes}
    (h : jsonString body key = some text) :
    body.find? (ascii key) = some (.string text) := by
  unfold jsonString at h
  rw [Option.bind_eq_some_iff] at h
  obtain ⟨value, hfind, hval⟩ := h
  cases value with
  | string s =>
    cases hval
    exact hfind
  | _ => cases hval

/-- **What the HTTP server makes of an event**: it reads it if its score is in range and its
    timestamp has no minus sign. -/
theorem parseEventBody_reads {body : Json} {op : Operation} (h : jsonEvent body = some op) :
    ∃ ctx id type score timestamp, op = .event ctx id type score timestamp ∧ InReach timestamp ∧
      (type = .DEL → score = 0) ∧
      (ScoreInRange type score ∧ ¬ SignedTimestamp body →
        parseEventBody body = .ok (eventBody ctx id type score timestamp)) ∧
      (¬ (ScoreInRange type score ∧ ¬ SignedTimestamp body) →
        ∃ e, parseEventBody body = .error e) := by
  unfold jsonEvent at h
  split at h
  · rename_i ctx id type hctx hid htype
    split at h
    · rename_i score timestamp hscore htime
      cases h
      obtain ⟨text, htext, hkind⟩ := Option.bind_eq_some_iff.mp htype
      obtain ⟨hreach, hok, herr⟩ := httpTimestamp_reads htime
      have hbody : parseEventBody body = (do
          let score ← httpScoreOf body type
          let timestamp ← httpTimestamp body
          return ⟨ctx, id, type, score, timestamp⟩) := by
        unfold parseEventBody
        rw [jsonString_some hctx, jsonString_some hid, jsonString_some htext]
        simp only [Json.string?, hkind]
      refine ⟨ctx, id, type, score, timestamp, rfl, hreach, ?_, ?_⟩
      · rintro rfl
        rw [jsonScore, if_pos rfl] at hscore
        exact (Option.some.inj hscore).symm
      · rw [hbody]
        obtain ⟨hscoreOk, hscoreErr⟩ := httpScoreOf_reads (httpEventType_some hkind) hscore
        constructor
        · intro ⟨hin, hunsigned⟩
          rw [hscoreOk hin, hok hunsigned]
          rfl
        · intro hcon
          by_cases hin : ScoreInRange type score
          · obtain ⟨e, he⟩ := herr (not_not.mp fun hunsigned => hcon ⟨hin, hunsigned⟩)
            rw [hscoreOk hin, he]
            exact ⟨e, rfl⟩
          · obtain ⟨e, he⟩ := hscoreErr hin
            rw [he]
            exact ⟨e, rfl⟩
    · cases h
  · cases h

/-! ## 4. Metadata -/

/-- The two commands of an assignment of metadata: the text, and the values. -/
def textMetaset (id expr : Bytes) : Command := { type := .kMetaset, id := id, filterExpr := expr }

def typedMetaset (id : Bytes) (m : Metadata) : Command :=
  { type := .kMetaset, id := id, metadata := some m }

/-- What the HTTP server stores for a value: a whole number modulo `2 ^ 64`. -/
def FieldValue.value : FieldValue → MetadataValue
  | .text t => .string t
  | .flag b => .bool b
  | .whole n => .int64 (Int64.ofInt n)
  | .real d => .double d

/-- A value that both readers take for the same. -/
def FieldValue.Plain (v : FieldValue) : Prop := ∀ n, v = .whole n → n < 2 ^ 63

/-- An operator other than `:` is not found up to the first `:`. -/
theorem findText_behind {text key value : Bytes} (hkey : ∀ b ∈ key, isOperator b = false)
    (htext : text = [33, 61] ∨ text = [62, 61] ∨ text = [60, 61] ∨ text = [61] ∨ text = [62] ∨
      text = [60]) :
    findText text (key ++ 58 :: value) = (findText text value).map (· + (key.length + 1)) := by
  induction key with
  | nil =>
    have hhead : text.isPrefixOf (58 :: value) = false := by
      rcases htext with rfl | rfl | rfl | rfl | rfl | rfl <;> rfl
    rw [List.nil_append, findText, hhead]
    rfl
  | cons b key ih =>
    have hb := hkey b List.mem_cons_self
    simp only [isOperator, Bool.or_eq_false_iff, decide_eq_false_iff_not] at hb
    obtain ⟨⟨⟨hb58, hb60⟩, hb61⟩, hb62⟩ := hb
    have hhead : text.isPrefixOf (b :: (key ++ 58 :: value)) = false := by
      rcases htext with rfl | rfl | rfl | rfl | rfl | rfl
      · cases key with
        | nil => simp [List.isPrefixOf]
        | cons c key =>
          have hc := hkey c (by simp)
          simp only [isOperator, Bool.or_eq_false_iff, decide_eq_false_iff_not] at hc
          simp [List.isPrefixOf, Ne.symm hc.1.2]
      · simp [List.isPrefixOf, Ne.symm hb62]
      · simp [List.isPrefixOf, Ne.symm hb60]
      · simp [List.isPrefixOf, Ne.symm hb61]
      · simp [List.isPrefixOf, Ne.symm hb62]
      · simp [List.isPrefixOf, Ne.symm hb60]
    rw [List.cons_append, findText, hhead,
      ih fun c hc => hkey c (List.mem_cons_of_mem _ hc)]
    cases findText text value with
    | none => rfl
    | some pos =>
      simp only [Bool.false_eq_true, if_false, Option.map_some, List.length_cons]
      congr 1

theorem findText_colon {key value : Bytes} (hkey : ∀ b ∈ key, isOperator b = false) :
    findText [58] (key ++ 58 :: value) = some key.length := by
  induction key with
  | nil => rfl
  | cons b key ih =>
    have hb := hkey b List.mem_cons_self
    simp only [isOperator, Bool.or_eq_false_iff, decide_eq_false_iff_not] at hb
    have hhead : [58].isPrefixOf (b :: (key ++ 58 :: value)) = false := by
      simp [List.isPrefixOf, Ne.symm hb.1.1.1]
    rw [List.cons_append, findText, hhead, ih fun c hc => hkey c (List.mem_cons_of_mem _ hc)]
    rfl

/-- One step of `selectOperator`. -/
def pickOperator (pair : Bytes) (selected : Option (Nat × Bytes × FilterOp))
    (candidate : Bytes × FilterOp) : Option (Nat × Bytes × FilterOp) :=
  match findText candidate.1 pair, selected with
  | none, selected => selected
  | some pos, none => some (pos, candidate)
  | some pos, some (pos', best) =>
    if pos < pos' ∨ pos = pos' ∧ best.1.length < candidate.1.length then some (pos, candidate)
    else selected

/-- The operator of `key:value` is the `:`. -/
theorem selectOperator_colon {key value : Bytes} (hkey : ∀ b ∈ key, isOperator b = false) :
    selectOperator (key ++ 58 :: value) = some (key.length, [58], .kEq) := by
  set pair := key ++ 58 :: value with hpair
  -- whatever is picked of the others stands behind the `:`
  have hothers : ∀ (candidates : List (Bytes × FilterOp)) (selected : Option (Nat × Bytes × FilterOp)),
      (∀ c ∈ candidates, c.1 = [33, 61] ∨ c.1 = [62, 61] ∨ c.1 = [60, 61] ∨ c.1 = [61] ∨
        c.1 = [62] ∨ c.1 = [60]) →
      (∀ s ∈ selected, key.length < s.1) →
      ∀ s ∈ candidates.foldl (pickOperator pair) selected, key.length < s.1 := by
    intro candidates
    induction candidates with
    | nil => exact fun selected _ hs => hs
    | cons c candidates ih =>
      intro selected hc hs
      refine ih _ (fun d hd => hc d (List.mem_cons_of_mem _ hd)) ?_
      intro s hmem
      have hfind : findText c.1 pair = (findText c.1 value).map (· + (key.length + 1)) :=
        findText_behind hkey (hc c List.mem_cons_self)
      simp only [pickOperator, hfind] at hmem
      cases hv : findText c.1 value with
      | none =>
        simp only [hv, Option.map_none] at hmem
        exact hs s hmem
      | some pos =>
        simp only [hv, Option.map_some] at hmem
        cases selected with
        | none =>
          simp only [Option.mem_def, Option.some.injEq] at hmem
          subst hmem
          show key.length < pos + (key.length + 1)
          omega
        | some best =>
          simp only at hmem
          split at hmem
          · simp only [Option.mem_def, Option.some.injEq] at hmem
            subst hmem
            show key.length < pos + (key.length + 1)
            omega
          · exact hs s hmem
  have hlast : selectOperator pair =
      pickOperator pair ((kOperators.dropLast).foldl (pickOperator pair) none) ([58], .kEq) := rfl
  have hbehind := hothers kOperators.dropLast none (by decide) (by simp)
  rw [hlast]
  have hcolon : findText [58] pair = some key.length := findText_colon hkey
  simp only [pickOperator, hcolon]
  cases hsel : (kOperators.dropLast).foldl (pickOperator pair) none with
  | none => rfl
  | some best =>
    have := hbehind best (by rw [hsel]; exact rfl)
    simp only [this, true_or, if_true]

theorem cString_eq {text : Bytes} (hnul : 0 ∉ text) : cString text = text := by
  unfold cString
  rw [List.takeWhile_eq_self_iff]
  intro b hb
  rw [decide_eq_true_eq]
  rintro rfl
  exact hnul hb

/-- `ParseValue` takes a whole number for itself if it is an `int64_t`. -/
theorem parseInt64_numeral {text : Bytes} (hnul : 0 ∉ text) :
    parseInt64 text =
      (numeral text).bind fun n => if n < -(2 ^ 63) ∨ 2 ^ 63 ≤ n then none else some (.ofInt n) := by
  have hunfold : parseInt64 text = match signedDigits text with
      | (negative, digits) =>
        if digits = [] ∨ ¬ digits.all isDigit then none
        else
          let value : Int := if negative then -(digitsValue digits) else digitsValue digits
          if value < -(2 ^ 63) ∨ 2 ^ 63 ≤ value then none else some (Int64.ofInt value) := by
    unfold parseInt64
    rw [cString_eq hnul]
    rfl
  rw [hunfold]
  unfold numeral
  cases signedDigits text with
  | mk negative digits =>
    simp only
    split
    · rfl
    · rfl

/-- **What the dispatcher stores for a value**: the same as the HTTP server, unless it is a whole
    number above `2 ^ 63 - 1`. -/
theorem parseValue_ofText {strtod : Bytes → Option UInt64} {text : Bytes} {v : FieldValue}
    (h : FieldValue.ofText strtod text = some v) (hnul : 0 ∉ text) :
    parseValue strtod text = v.value ↔ v.Plain := by
  have htrue : ascii "true" = [116, 114, 117, 101] := by decide
  have hfalse : ascii "false" = [102, 97, 108, 115, 101] := by decide
  unfold FieldValue.ofText at h
  unfold parseValue
  rw [htrue, hfalse] at h
  rw [parseInt64_numeral hnul, cString_eq hnul]
  split at h
  · cases h
    simp [FieldValue.value, FieldValue.Plain, *]
  · split at h
    · cases h
      simp [FieldValue.value, FieldValue.Plain, *]
    · rename_i hne hne'
      rw [if_neg hne, if_neg hne']
      cases hn : (numeral text).filter jsonWhole with
      | some n =>
        obtain ⟨hnumeral, hwhole⟩ := Option.filter_eq_some_iff.mp hn
        rw [hn] at h
        cases h
        rw [jsonWhole, Bool.and_eq_true, decide_eq_true_eq, decide_eq_true_eq] at hwhole
        rw [hnumeral, Option.bind_some]
        by_cases hhi : n < 2 ^ 63
        · rw [if_neg (by omega)]
          refine ⟨fun _ k hk => ?_, fun _ => rfl⟩
          cases hk
          exact hhi
        · rw [if_pos (.inr (not_lt.mp hhi))]
          refine ⟨fun heq => ?_, fun hplain => absurd (hplain n rfl) hhi⟩
          cases hd : strtod text with
          | none =>
            rw [hd] at heq
            cases heq
          | some d =>
            rw [hd] at heq
            cases heq
      | none =>
        rw [hn] at h
        have hint : ((numeral text).bind fun n =>
            if n < -(2 ^ 63) ∨ 2 ^ 63 ≤ n then none else some (Int64.ofInt n)) = none := by
          cases hnumeral : numeral text with
          | none => rfl
          | some n =>
            have hwhole := Option.filter_eq_none_iff.mp hn n hnumeral
            rw [jsonWhole, Bool.and_eq_true, decide_eq_true_eq, decide_eq_true_eq] at hwhole
            rw [Option.bind_some, if_pos (by omega)]
        rw [hint]
        cases hd : strtod text with
        | none =>
          rw [hd] at h
          cases h
          exact ⟨fun _ k hk => by (cases hk), fun _ => rfl⟩
        | some d =>
          rw [hd] at h
          dsimp only at h
          split at h
          · cases h
            exact ⟨fun _ k hk => by (cases hk), fun _ => rfl⟩
          · cases h

/-- `key:value` is read as such. -/
theorem parseCondition_fieldOf {strtod : Bytes → Option UInt64} {pair key : Bytes} {v : FieldValue}
    (h : fieldOf strtod pair = some (key, v)) :
    ∃ value, key ≠ [] ∧ (∀ b ∈ value, b ∈ pair) ∧ FieldValue.ofText strtod value = some v ∧
      parseCondition strtod pair =
        some { field := key, op := .kEq, value := parseValue strtod value } := by
  have hsplit := List.takeWhile_append_dropWhile (p := fun b => !isOperator b) (l := pair)
  have hkey : ∀ b ∈ pair.takeWhile fun b => !isOperator b, isOperator b = false := by
    intro b hb
    simpa using List.mem_takeWhile_imp hb
  unfold fieldOf at h
  dsimp only at h
  split at h
  · rename_i value hdrop
    rw [hdrop] at hsplit
    split at h
    · cases h
    · rename_i hok
      obtain ⟨v', hv', heq⟩ := Option.map_eq_some_iff.mp h
      cases heq
      rw [not_or, not_or] at hok
      obtain ⟨hne, hval, hlist⟩ := hok
      refine ⟨value, hne, fun b hb => ?_, hv', ?_⟩
      · rw [← hsplit]
        exact List.mem_append_right _ (List.mem_cons_of_mem _ hb)
      · set key := pair.takeWhile fun b => !isOperator b
        have hsel : selectOperator pair = some (key.length, [58], .kEq) := by
          rw [← hsplit]
          exact selectOperator_colon hkey
        have htake : pair.take key.length = key := by
          rw [← hsplit]
          exact List.take_left
        have hdropv : pair.drop (key.length + 1) = value := by
          rw [← hsplit, List.drop_append]
          simp
        unfold parseCondition
        rw [hsel]
        have hlen : key.length ≠ 0 := fun hcon => hne (List.eq_nil_of_length_eq_zero hcon)
        have hnot : ¬ (True ∧ 5 ≤ value.length ∧
            [105, 110, 40].isPrefixOf value = true ∧ value.getLast? = some 41) := by
          rintro ⟨-, h1, h2, h3⟩
          apply hlist
          simp [isList, h1, h2, h3]
        simp only [if_neg hlen, htake, List.length_cons, List.length_nil, Nat.zero_add, hdropv,
          if_neg hval]
        rw [if_neg hnot]
  · cases h

section Last

variable {ν ν' : Type}

/-- Entries of the same keys in the same order have the last of a key at the same place. -/
theorem lastOf_rel {R : ν → ν' → Prop} {entries : List (Bytes × ν)} {entries' : List (Bytes × ν')}
    (h : List.Forall₂ (fun e e' => e.1 = e'.1 ∧ R e.2 e'.2) entries entries') (k : Bytes) :
    Option.Rel R (lastOf entries k) (lastOf entries' k) := by
  have hfind : ∀ {l : List (Bytes × ν)} {l' : List (Bytes × ν')},
      List.Forall₂ (fun e e' => e.1 = e'.1 ∧ R e.2 e'.2) l l' →
      Option.Rel R ((l.find? fun e => e.1 = k).map (·.2)) ((l'.find? fun e => e.1 = k).map (·.2)) := by
    intro l l' h
    induction h with
    | nil => exact .none
    | @cons e e' l l' he hl ih =>
      rw [List.find?_cons, List.find?_cons, he.1]
      cases hk : decide (e'.1 = k) with
      | true => exact .some he.2
      | false => exact ih
  exact hfind (List.rel_reverse h)

end Last

/-- Conditions as metadata: the last of a field. -/
theorem metadataOf_last {conditions : List FilterCondition} {m : Metadata}
    (h : ∀ c ∈ conditions, c.field ≠ []) :
    ∃ m', metadataOf conditions m = .ok m' ∧ ∀ k, m'.find? k =
      (lastOf (conditions.map fun c => (c.field, c.value)) k).or (m.find? k) := by
  induction conditions generalizing m with
  | nil => exact ⟨m, rfl, fun k => rfl⟩
  | cons c conditions ih =>
    obtain ⟨m', hm', hfind⟩ := ih (m := m.insert c.field c.value)
      fun d hd => h d (List.mem_cons_of_mem _ hd)
    refine ⟨m', ?_, fun k => ?_⟩
    · rw [metadataOf, if_neg (h c List.mem_cons_self)]
      exact hm'
    · rw [hfind, AssocMap.find?_insert]
      unfold lastOf
      rw [List.map_cons, List.reverse_cons, List.find?_append, List.find?_singleton]
      cases List.find? (fun e => decide (e.1 = k))
          (conditions.map fun c => (c.field, c.value)).reverse with
      | some e => rfl
      | none =>
        by_cases hk : k = c.field
        · simp [hk]
        · simp [hk, Ne.symm hk]

/-- What the dispatcher stores, beside what is meant. -/
def TcpStores (v : FieldValue) (w : MetadataValue) : Prop := w = v.value ↔ v.Plain

theorem parseConditions_fields {strtod : Bytes → Option UInt64} {pairs : List Bytes}
    {fields : List (Bytes × FieldValue)} (h : pairs.mapM (fieldOf strtod) = some fields)
    (hnul : ∀ pair ∈ pairs, 0 ∉ pair) :
    ∃ conditions, parseConditions strtod pairs = .ok conditions ∧
      (∀ c ∈ conditions, c.field ≠ []) ∧
      List.Forall₂ (fun e e' => e.1 = e'.1 ∧ TcpStores e.2 e'.2) fields
        (conditions.map fun c => (c.field, c.value)) := by
  induction pairs generalizing fields with
  | nil =>
    cases h
    exact ⟨[], rfl, fun c hc => by (cases hc), .nil⟩
  | cons pair pairs ih =>
    rw [List.mapM_cons] at h
    obtain ⟨⟨key, v⟩, hfield, h⟩ := Option.bind_eq_some_iff.mp h
    obtain ⟨rest, hrest, h⟩ := Option.bind_eq_some_iff.mp h
    cases h
    obtain ⟨conditions, hok, hne, hall⟩ := ih hrest fun p hp => hnul p (List.mem_cons_of_mem _ hp)
    obtain ⟨value, hkey, hmem, hval, hcond⟩ := parseCondition_fieldOf hfield
    refine ⟨{ field := key, op := .kEq, value := parseValue strtod value } :: conditions, ?_, ?_, ?_⟩
    · rw [parseConditions, hcond, hok]
    · intro c hc
      rcases List.mem_cons.mp hc with rfl | hc
      · exact hkey
      · exact hne c hc
    · refine .cons ⟨rfl, ?_⟩ hall
      exact parseValue_ofText hval fun hz => hnul pair List.mem_cons_self (hmem 0 hz)

/-- A part of a text has no other characters. -/
theorem mem_of_mem_split {text pair : Bytes} {d b : UInt8} (hpair : pair ∈ split text d)
    (hb : b ∈ pair) : b ∈ text := by
  have hjoin : ∀ pairs : List Bytes, pair ∈ pairs → b ∈ [d].intercalate pairs := by
    intro pairs
    induction pairs with
    | nil => exact fun hin => by cases hin
    | cons p pairs ih =>
      intro hin
      cases pairs with
      | nil =>
        rw [List.intercalate_singleton]
        exact List.mem_singleton.mp hin ▸ hb
      | cons q pairs =>
        rw [List.intercalate_cons_cons, List.mem_append, List.mem_append]
        rcases List.mem_cons.mp hin with rfl | hin
        · exact .inl (.inl hb)
        · exact .inr (ih hin)
  have htext : [d].intercalate (text.splitOn d) = text := List.intercalate_splitOn d
  rw [← htext]
  exact hjoin _ (List.mem_filter.mp hpair).1

/-- **The metadata of a line.** -/
theorem parseMetadata_text {env : Platform} {expr : Bytes} {fields : List (Bytes × FieldValue)}
    (id : Bytes)
    (h : (split expr 44).mapM (fieldOf env.strtod) = some fields) (hnul : 0 ∉ expr) :
    ∃ m, parseMetadata env (textMetaset id expr) = .ok m ∧
      ∀ k, Option.Rel TcpStores (lastOf fields k) (m.find? k) := by
  obtain ⟨conditions, hok, hne, hall⟩ := parseConditions_fields h
    fun pair hp hz => hnul (mem_of_mem_split hp hz)
  obtain ⟨m, hm, hfind⟩ := metadataOf_last (m := .empty) hne
  refine ⟨m, ?_, fun k => ?_⟩
  · have hread : parseSimpleFilter env.strtod expr = .ok conditions := hok
    simp only [parseMetadata, textMetaset, hread]
    exact hm
  · rw [hfind, AssocMap.find?_empty, Option.or_none]
    exact lastOf_rel hall k

/-- What a value of a body is stored as. -/
theorem metadataMember_ofJson {m : Metadata} {key : Bytes} {value : Json} {v : FieldValue}
    (h : FieldValue.ofJson value = some v) (hkey : key ≠ []) :
    metadataMember m (key, value) = .ok (m.insert key v.value) := by
  unfold metadataMember
  rw [if_neg hkey]
  unfold FieldValue.ofJson at h
  split at h
  · cases h
    rfl
  · cases h
    rfl
  · split at h
    · rename_i hfin
      cases h
      simp only [hfin, if_true]
      rfl
    · cases h
  · obtain ⟨n, hn, rfl⟩ := Option.map_eq_some_iff.mp h
    unfold Json.whole? at hn
    split at hn
    · cases hn
      simp only [FieldValue.value, Int64.ofInt_toInt]
    · rename_i k _ _ _
      cases hn
      have hwrap : k.toInt64 = Int64.ofInt k.toNat := by
        apply Int64.toBitVec_inj.mp
        show k.toBitVec = BitVec.ofInt 64 k.toNat
        apply BitVec.eq_of_toNat_eq
        rw [BitVec.toNat_ofInt]
        show k.toNat = _
        have := k.toNat_lt
        omega
      simp only [FieldValue.value, hwrap]
    · cases hn

/-- **The metadata of a body.** -/
theorem parseMetadataJson_fields {members : List (Bytes × Json)} {fields : List (Bytes × FieldValue)}
    (h : jsonFields members = some fields) :
    ∃ m, parseMetadataJson (.object members) = .ok m ∧
      ∀ k, m.find? k = (lastOf fields k).map FieldValue.value := by
  have hfold : ∀ (members : List (Bytes × Json)) (fields : List (Bytes × FieldValue)) (m : Metadata),
      [] ∉ members.map (·.1) →
      (members.mapM fun m => (FieldValue.ofJson m.2).map fun v => (m.1, v)) = some fields →
      ∃ m', members.foldlM metadataMember m = .ok m' ∧
        ∀ k, m'.find? k = ((lastOf fields k).map FieldValue.value).or (m.find? k) := by
    intro members
    induction members with
    | nil =>
      intro fields m _ h
      cases h
      exact ⟨m, rfl, fun k => rfl⟩
    | cons member members ih =>
      intro fields m hne h
      rw [List.mapM_cons] at h
      obtain ⟨⟨key, v⟩, hfield, h⟩ := Option.bind_eq_some_iff.mp h
      obtain ⟨rest, hrest, h⟩ := Option.bind_eq_some_iff.mp h
      cases h
      obtain ⟨v', hv', heq⟩ := Option.map_eq_some_iff.mp hfield
      cases heq
      rw [List.map_cons, List.mem_cons, not_or] at hne
      have hmember := metadataMember_ofJson (m := m) hv' (Ne.symm hne.1)
      obtain ⟨m', hm', hfind⟩ := ih rest (m.insert member.1 v.value) hne.2 hrest
      refine ⟨m', ?_, fun k => ?_⟩
      · rw [List.foldlM_cons, show metadataMember m member = _ from hmember]
        exact hm'
      · rw [hfind, AssocMap.find?_insert]
        unfold lastOf
        rw [List.reverse_cons, List.find?_append, List.find?_singleton]
        cases List.find? (fun e => decide (e.1 = k)) rest.reverse with
        | some e => rfl
        | none =>
          by_cases hk : k = member.1
          · simp [hk]
          · simp [hk, Ne.symm hk]
  unfold jsonFields at h
  split at h
  · rename_i hkeys
    obtain ⟨m, hm, hfind⟩ := hfold members fields .empty hkeys.2 h
    exact ⟨m, hm, fun k => by rw [hfind, AssocMap.find?_empty, Option.or_none]⟩
  · cases h

/-- **The two maps are the same** exactly if no value is a whole number above `2 ^ 63 - 1`. -/
theorem sameMetadata_iff {fields : Bytes → Option FieldValue} {m m' : Metadata}
    (htcp : ∀ k, Option.Rel TcpStores (fields k) (m.find? k))
    (hhttp : ∀ k, m'.find? k = (fields k).map FieldValue.value) :
    SameMetadata m m' ↔ ∀ k v, fields k = some v → v.Plain := by
  have hkey : ∀ k, m.find? k = m'.find? k ↔ ∀ v, fields k = some v → v.Plain := by
    intro k
    have hrel := htcp k
    rw [hhttp k]
    cases hk : fields k with
    | none =>
      rw [hk] at hrel
      generalize m.find? k = o at hrel ⊢
      cases hrel
      exact ⟨fun _ v hv => by (cases hv), fun _ => rfl⟩
    | some v =>
      rw [hk] at hrel
      generalize m.find? k = o at hrel ⊢
      cases hrel with
      | some hstores =>
        rw [Option.map_some, Option.some.injEq, show _ = _ ↔ _ from hstores]
        exact ⟨fun hplain v' hv' => Option.some.inj hv' ▸ hplain, fun hplain => hplain v rfl⟩
  exact ⟨fun h k v hv => (hkey k).mp (h k) v hv, fun h k => (hkey k).mpr (h k)⟩

theorem parseMetasetBody_reads {body : Json} {op : Operation} (h : jsonMetaset body = some op) :
    ∃ id fields m, op = .metaset id fields ∧ parseMetasetBody body = .ok (id, m) ∧
      ∀ k, m.find? k = (fields k).map FieldValue.value := by
  unfold jsonMetaset at h
  split at h
  · rename_i id members hid hmeta
    obtain ⟨fields, hfields, rfl⟩ := Option.map_eq_some_iff.mp h
    obtain ⟨m, hm, hfind⟩ := parseMetadataJson_fields hfields
    refine ⟨id, lastOf fields, m, rfl, ?_, hfind⟩
    unfold parseMetasetBody
    rw [jsonString_some hid, hmeta]
    simp only [Json.string?, hm]
    rfl
  · cases h

/-! ## 5. Vectors, and words -/

/-- The words of a request are not empty and hold no NUL. -/
theorem mem_requestTokens {request word : Bytes} {tokens : List Bytes}
    (h : requestTokens request = .ok tokens) (hmem : word ∈ tokens) : word ≠ [] ∧ 0 ∉ word := by
  unfold requestTokens at h
  split at h
  · cases h
  split at h
  · cases h
  rename_i hnul
  dsimp only at h
  split at h
  · cases h
  split at h
  · cases h
  split at h
  · cases h
  cases h
  refine ⟨?_, fun hz => hnul ?_⟩
  · exact of_decide_eq_true (List.mem_filter.mp hmem).2
  · have htrim := mem_of_mem_split hmem hz
    unfold trim at htrim
    have hline := (List.dropWhile_sublist _).mem
      (List.mem_reverse.mp ((List.dropWhile_sublist _).mem (List.mem_reverse.mp htrim)))
    exact List.mem_reverse.mp ((List.dropWhile_sublist _).mem (List.mem_reverse.mp hline))

/-- What is read of a list, with errors or without. -/
theorem mapM_toOption {α β ε : Type} {f : α → Except ε β} (l : List α) :
    (l.mapM f).toOption = l.mapM fun a => (f a).toOption := by
  induction l with
  | nil => rfl
  | cons a l ih =>
    rw [List.mapM_cons, List.mapM_cons, ← ih]
    cases f a with
    | error e => rfl
    | ok b =>
      cases l.mapM f with
      | error e => rfl
      | ok rest => rfl

/-- The command of a vector. -/
def vectorCommand (id : Bytes) (vector : List UInt32) : Command :=
  { type := .kVecset, id := id, dimension := vector.length, vector := vector }

/-- **What the dispatcher makes of a vector**: the floats of its texts. -/
theorem parseVecset_reads (stof : Bytes → Option UInt32) (takesPart : Bytes → Bool)
    {arguments : List Bytes} {op : Operation} (h : vecsetOperation arguments = some op) :
    ∃ id components, op = .vecset id components ∧ components ≠ [] ∧
      match components.mapM stof with
      | some vector => parseVecset stof takesPart arguments = .ok (vectorCommand id vector)
      | none => ∃ e, parseVecset stof takesPart arguments = .error e := by
  unfold vecsetOperation at h
  split at h
  · rename_i id float floats
    split at h
    · cases h
      refine ⟨id, float :: floats, rfl, List.cons_ne_nil _ _, ?_⟩
      have hread : ((float :: floats).mapM (parseFloat stof takesPart)).toOption =
          (float :: floats).mapM stof := by
        rw [mapM_toOption]
        refine congrArg (fun f => (float :: floats).mapM f) (funext fun text => ?_)
        unfold parseFloat
        cases stof text with
        | some value => rfl
        | none =>
          dsimp only
          split <;> rfl
      rw [← hread, parseVecset]
      cases (float :: floats).mapM (parseFloat stof takesPart) with
      | error e => exact ⟨e, rfl⟩
      | ok vector => rfl
    · cases h
  · cases h

/-- The float of a text, over HTTP. -/
def httpFloat (strtod : Bytes → Option UInt64) (toFloat : UInt64 → UInt32) (text : Bytes) :
    Option UInt32 :=
  (jsonNumber strtod text).bind fun number => (floatComponent toFloat number).toOption

/-- The floats of the numbers that are made of texts. -/
theorem floats_of_numbers {strtod : Bytes → Option UInt64} (toFloat : UInt64 → UInt32)
    {components : List Bytes} {elements : List Json}
    (h : components.mapM (jsonNumber strtod) = some elements) :
    (elements.mapM (floatComponent toFloat)).toOption =
      components.mapM (httpFloat strtod toFloat) := by
  rw [mapM_toOption]
  induction components generalizing elements with
  | nil =>
    cases h
    rfl
  | cons text components ih =>
    rw [List.mapM_cons] at h
    obtain ⟨number, hnumber, h⟩ := Option.bind_eq_some_iff.mp h
    obtain ⟨rest, hrest, h⟩ := Option.bind_eq_some_iff.mp h
    cases h
    rw [List.mapM_cons, List.mapM_cons, ih hrest, httpFloat, hnumber]
    rfl

/-- **What the HTTP server makes of a vector**: the floats of its texts, or it refuses it, for its
    dimension too. -/
theorem parseVecsetBody_reads {strtod : Bytes → Option UInt64} (toFloat : UInt64 → UInt32)
    {body : Json} {id : Bytes} {components : List Bytes} (hne : components ≠ [])
    (h : HttpDenotes strtod .vecset body (.vecset id components)) (dimension : Nat) :
    match components.mapM (httpFloat strtod toFloat) with
    | some vector => vector ≠ [] ∧
        (parseVecsetBody toFloat dimension body = .ok ⟨id, vector, none⟩ ∨
          (0 < dimension ∧ vector.length ≠ dimension) ∧
            ∃ e, parseVecsetBody toFloat dimension body = .error e)
    | none => ∃ e, parseVecsetBody toFloat dimension body = .error e := by
  obtain ⟨_, _, elements, hop, hid, hvector, hnumbers, hmeta⟩ := h
  cases hop
  have hread := floats_of_numbers toFloat hnumbers
  have hlength : elements ≠ [] := by
    rintro rfl
    cases components with
    | nil => exact hne rfl
    | cons text components =>
      rw [List.mapM_cons] at hnumbers
      obtain ⟨number, -, h⟩ := Option.bind_eq_some_iff.mp hnumbers
      obtain ⟨rest, -, h⟩ := Option.bind_eq_some_iff.mp h
      cases h
  rw [← hread]
  unfold parseVecsetBody
  rw [jsonString_some hid, hvector, hmeta]
  simp only [Json.string?, parseFiniteFloatVector]
  cases hfloats : elements.mapM (floatComponent toFloat) with
  | error e => exact ⟨e, rfl⟩
  | ok vector =>
    have hnonempty : vector ≠ [] := by
      rintro rfl
      cases elements with
      | nil => exact hlength rfl
      | cons element elements =>
        rw [List.mapM_cons] at hfloats
        cases hfirst : floatComponent toFloat element with
        | error e =>
          rw [hfirst] at hfloats
          cases hfloats
        | ok value =>
          rw [hfirst] at hfloats
          cases hrest : elements.mapM (floatComponent toFloat) with
          | error e =>
            rw [hrest] at hfloats
            cases hfloats
          | ok rest =>
            rw [hrest] at hfloats
            cases hfloats
    refine ⟨hnonempty, ?_⟩
    simp only [bind, Except.bind]
    rw [if_neg hnonempty]
    by_cases hdim : 0 < dimension ∧ vector.length ≠ dimension
    · rw [if_pos hdim]
      exact .inr ⟨hdim, _, rfl⟩
    · rw [if_neg hdim]
      exact .inl rfl

/-- The route of an operation. -/
def Operation.route : Operation → HttpRoute
  | .event .. => .event
  | .vecset .. => .vecset
  | .vecdel _ => .vecdel
  | .metaset .. => .metaset

theorem HttpDenotes.route_eq {strtod : Bytes → Option UInt64} {route : HttpRoute} {body : Json}
    {op : Operation} (h : HttpDenotes strtod route body op) : route = op.route := by
  cases route with
  | event =>
    obtain ⟨_, _, _, _, _, rfl, -⟩ := parseEventBody_reads h
    rfl
  | vecset =>
    obtain ⟨_, _, _, rfl, -⟩ := h
    rfl
  | vecdel =>
    obtain ⟨_, -, rfl⟩ := Option.map_eq_some_iff.mp h
    rfl
  | metaset =>
    obtain ⟨_, _, _, rfl, -⟩ := parseMetasetBody_reads h
    rfl

end Nvecd.Server
