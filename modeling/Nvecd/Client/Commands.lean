/-
  File:      Nvecd/Client/Commands.lean
  Subject:   `client/nvecdclient.cpp`: the lines that the calls of a client send, and what
             `ParseCommand` of the server makes of them.

  A line is made of words with one blank between them, unquoted. The client refuses control
  characters and white space in its arguments, but not an empty argument, which leaves two blanks
  side by side that the server reads as one.

  * `Call`, `Call.send` -- a call, and the line it sends or the error it returns;
  * `Call.Means` -- a command of that kind with exactly these arguments;
  * `Call.Unmistakable` -- the arguments are told apart on the wire;
  * `call_means_iff` -- the server reads every line it accepts as it was meant, exactly then.
-/
import Nvecd.Server.CommandParser
import Nvecd.Lib.Ieee754

namespace Nvecd.Client

open Nvecd.Lib Nvecd.Storage Nvecd.Utils Nvecd.Events Nvecd.Vectors Nvecd.Cache Nvecd.Server

/-! ## 1. Validation -/

/-- `std::iscntrl` in the "C" locale. -/
def isControl (b : UInt8) : Bool := b < 32 || b = 127

/-- Two digits in base 16. -/
def hexByte (b : UInt8) : String :=
  String.ofList [Nat.digitChar (b.toNat / 16), Nat.digitChar (b.toNat % 16)] |>.toUpper

/-- `ValidateNoControlCharacters`: the error, if there is one. -/
def validateNoControlCharacters (value : Bytes) (fieldName : String) : Option String :=
  match value.find? isControl with
  | some b =>
    some ("Input for " ++ fieldName ++ " contains control character 0x" ++ hexByte b ++
      ", which is not allowed")
  | none => none

/-- `ValidateProtocolToken`. -/
def validateProtocolToken (value : Bytes) (fieldName : String) : Option String :=
  match validateNoControlCharacters value fieldName with
  | some error => some error
  | none =>
    if value.any isSpace then some ("Input for " ++ fieldName ++ " must not contain whitespace")
    else none

def invalidArgument (message : String) : Error := makeError .kClientInvalidArgument message

/-- The check of a condition that a call may not meet. -/
def refuse (wrong : Prop) [Decidable wrong] (message : String) : Option String :=
  if wrong then some message else none

/-- The call goes on if the check finds nothing. -/
def require (check : Option String) : Except Error Unit :=
  match check with
  | some message => .error (invalidArgument message)
  | none => .ok ()

/-! ## 2. Calls -/

structure SearchOptions where
  filter : Bytes := []
  minScore : Option UInt32 := none
  adaptive : Option Bool := none

/-- The calls that carry arguments of the application. -/
inductive Call where
  | event (ctx type id : Bytes) (score : Int)
  | vecset (id : Bytes) (vector : List UInt32)
  | vecdel (id : Bytes)
  | metaset (id metadata : Bytes)
  | sim (id : Bytes) (topK : UInt32) (mode : Bytes) (options : SearchOptions)
  | simv (vector : List UInt32) (topK : UInt32) (mode : Bytes) (options : SearchOptions)
  | auth (password : Bytes)

section Send

-- `FormatFloat`: nine digits
variable (formatFloat : UInt32 → Bytes)

def minScoreOption : Option UInt32 → List Bytes
  | some score => [kMinScoreText ++ formatFloat score]
  | none => []

/-- `AppendSearchOptions`, as words. -/
def searchOptions (options : SearchOptions) : List Bytes :=
  (if options.filter ≠ [] then [kFilterText ++ options.filter] else []) ++
    minScoreOption formatFloat options.minScore

/-- All options of `Sim`. -/
def simOptions (mode : Bytes) (options : SearchOptions) : List Bytes :=
  (if mode ≠ [] then [kUsingText ++ mode] else []) ++ searchOptions formatFloat options ++
    match options.adaptive with
    | some on => [kAdaptiveText ++ if on then ascii "on" else ascii "off"]
    | none => []

/-- `Event`. The score of a `DEL` is ignored. -/
def event (ctx type id : Bytes) (score : Int) : Except Error Bytes := do
  require (validateProtocolToken ctx "context ID")
  require (validateNoControlCharacters type "event type")
  require (validateProtocolToken id "document ID")
  require (refuse (type ≠ ascii "ADD" ∧ type ≠ ascii "SET" ∧ type ≠ ascii "DEL")
    "Event type must be ADD, SET, or DEL")
  require (refuse ((type = ascii "ADD" ∨ type = ascii "SET") ∧ (score < 0 ∨ score > 100))
    "Score must be between 0 and 100")
  return lineOf ([ascii "EVENT", ctx, type, id] ++
    if type ≠ ascii "DEL" then [intText score] else [])

/-- `Vecset`. -/
def vecset (id : Bytes) (vector : List UInt32) : Except Error Bytes := do
  require (validateProtocolToken id "vector ID")
  require (refuse (vector = []) "Vector cannot be empty")
  return lineOf ([ascii "VECSET", id] ++ vector.map formatFloat)

/-- `Vecdel`. -/
def vecdel (id : Bytes) : Except Error Bytes := do
  require (validateProtocolToken id "vector ID")
  require (refuse (id = []) "Vector ID cannot be empty")
  return lineOf [ascii "VECDEL", id]

/-- `Metaset`. -/
def metaset (id metadata : Bytes) : Except Error Bytes := do
  require (validateProtocolToken id "item ID")
  require (validateProtocolToken metadata "metadata")
  require (refuse (metadata = []) "Metadata cannot be empty")
  return lineOf [ascii "METASET", id, metadata]

/-- `Sim`. -/
def sim (id : Bytes) (topK : UInt32) (mode : Bytes) (options : SearchOptions) :
    Except Error Bytes := do
  require (validateProtocolToken id "document ID")
  require (validateProtocolToken mode "search mode")
  require (validateProtocolToken options.filter "metadata filter")
  return lineOf ([ascii "SIM", id, natText topK.toNat] ++ simOptions formatFloat mode options)

/-- `Simv`. Neither the mode nor `adaptive` is sent. -/
def simv (vector : List UInt32) (topK : UInt32) (mode : Bytes) (options : SearchOptions) :
    Except Error Bytes := do
  require (refuse (vector = []) "Vector cannot be empty")
  require (validateProtocolToken mode "search mode")
  require (validateProtocolToken options.filter "metadata filter")
  return lineOf ([ascii "SIMV", natText topK.toNat] ++
    (searchOptions formatFloat options ++ vector.map formatFloat))

/-- `Auth`: the password is the rest of the line. -/
def auth (password : Bytes) : Except Error Bytes := do
  require (validateNoControlCharacters password "password")
  return ascii "AUTH " ++ password

/-- **The line a call sends.** -/
def Call.send : Call → Except Error Bytes
  | .event ctx type id score => Client.event ctx type id score
  | .vecset id vector => Client.vecset formatFloat id vector
  | .vecdel id => Client.vecdel id
  | .metaset id metadata => Client.metaset id metadata
  | .sim id topK mode options => Client.sim formatFloat id topK mode options
  | .simv vector topK mode options => Client.simv formatFloat vector topK mode options
  | .auth password => Client.auth password

end Send

/-! ## 3. What a call means -/

/-- The name of an event type; others than the three have none. -/
def typeText : EventType → Option Bytes
  | .ADD => some (ascii "ADD")
  | .SET => some (ascii "SET")
  | .DEL => some (ascii "DEL")
  | .unnamed _ _ => none

/-- **A command of that kind with exactly these arguments.** A deletion has no score, and a search
    by vector no `adaptive`; its mode can only be that of the vectors. -/
def Call.Means : Call → Request → Prop
  | .event ctx type id score, .write cmd =>
    cmd.type = .kEvent ∧ cmd.ctx = ctx ∧ cmd.id = id ∧ typeText cmd.eventType = some type ∧
      (cmd.eventType ≠ .DEL → cmd.score = score) ∧ cmd.timestamp = none
  | .vecset id vector, .write cmd =>
    cmd.type = .kVecset ∧ cmd.id = id ∧ cmd.vector = vector ∧ cmd.metadata = none
  | .vecdel id, .write cmd => cmd.type = .kVecdel ∧ cmd.id = id
  | .metaset id metadata, .write cmd =>
    cmd.type = .kMetaset ∧ cmd.id = id ∧ cmd.filterExpr = metadata ∧ cmd.metadata = none
  | .sim id topK mode options, .sim cmd =>
    cmd.id = id ∧ cmd.topK = topK.toNat ∧
      cmd.mode.text = (if mode = [] then SimMode.fusion.text else mode) ∧
      cmd.adaptive = options.adaptive ∧ cmd.filterExpr = options.filter ∧
      cmd.minScore = options.minScore.getD 0
  | .simv vector topK mode options, .simv cmd =>
    cmd.vector = vector ∧ cmd.topK = topK.toNat ∧ (mode = [] ∨ mode = SimMode.vectors.text) ∧
      cmd.filterExpr = options.filter ∧ cmd.minScore = options.minScore.getD 0
  | .auth password, .auth password' => password' = password
  | _, _ => False

/-- The count that `ParseTopK` takes. -/
def validTopK (maxTopK : Nat) (topK : UInt32) : Prop :=
  0 < topK.toNat ∧ topK.toNat < 2 ^ 31 ∧ (0 < maxTopK → topK.toNat ≤ maxTopK)

/-- Why a search by vector is refused. -/
def Unreadable (maxTopK : Nat) (vector : List UInt32) (topK : UInt32) (options : SearchOptions) :
    Prop :=
  ¬ validTopK maxTopK topK ∨ (∃ x ∈ vector, isFiniteFloat x = false) ∨
    ∃ x, options.minScore = some x ∧ isFiniteFloat x = false

/-- **The arguments are told apart.** An event without context is not taken for one of the context
    `ADD` or `SET`, a vector without id does not lend its first number, and a search by vector
    that the server takes is one by its mode. -/
def Call.Unmistakable (maxTopK : Nat) : Call → Prop
  | .event ctx type id _ => ctx ≠ [] ∨ type = ascii "DEL" ∨ toUpper id ≠ ascii "DEL"
  | .vecset id vector => id ≠ [] ∨ vector.length ≤ 1 ∨ ∃ x ∈ vector.tail, isFiniteFloat x = false
  | .simv vector topK mode options =>
    mode = [] ∨ mode = SimMode.vectors.text ∨ Unreadable maxTopK vector topK options
  | _ => True

/-! ## 4. What is sent -/

section Sent

theorem require_bind {α : Type} {check : Option String} {next : Unit → Except Error α} {a : α}
    (h : (require check >>= next) = .ok a) : check = none ∧ next () = .ok a := by
  cases check with
  | some message => cases h
  | none => exact ⟨rfl, h⟩

theorem not_of_refuse {wrong : Prop} [Decidable wrong] {message : String}
    (h : refuse wrong message = none) : ¬ wrong := by
  intro hwrong
  rw [refuse, if_pos hwrong] at h
  cases h

theorem no_control {value : Bytes} {fieldName : String}
    (h : validateNoControlCharacters value fieldName = none) :
    ∀ b ∈ value, isControl b = false := by
  unfold validateNoControlCharacters at h
  split at h
  · cases h
  · rename_i hnone
    intro b hb
    simpa using List.find?_eq_none.mp hnone b hb

/-- Without control characters the only white space is the blank. -/
theorem blank_of_no_control {b : UInt8} (h : isControl b = false) :
    b ≠ 0 ∧ (isSpace b = true → b = 32) := by
  simp only [isControl, isSpace, Bool.or_eq_false_iff, decide_eq_false_iff_not, Bool.or_eq_true,
    Bool.and_eq_true, decide_eq_true_eq, UInt8.le_iff_toNat_le, UInt8.lt_iff_toNat_lt,
    ← UInt8.toNat_inj, ne_eq] at h ⊢
  have h0 : (0 : UInt8).toNat = 0 := rfl
  have h13 : (13 : UInt8).toNat = 13 := rfl
  have h32 : (32 : UInt8).toNat = 32 := rfl
  omega

/-- What passes as a token is a word. -/
theorem isWord_of_token {value : Bytes} {fieldName : String}
    (h : validateProtocolToken value fieldName = none) : IsWord value := by
  unfold validateProtocolToken at h
  split at h
  · cases h
  · rename_i hcontrol
    split at h
    · cases h
    · rename_i hspace
      intro b hb
      refine ⟨?_, ?_⟩
      · rw [Bool.not_eq_true, List.any_eq_false] at hspace
        simpa using hspace b hb
      · rintro rfl
        exact absurd (no_control hcontrol 0 hb) (by decide)

theorem isWord_natText (n : Nat) : IsWord (natText n) := by
  intro b hb
  have hdigit := isDigitByte_natText hb
  constructor
  · simp only [isDigitByte, isSpace, Bool.and_eq_true, decide_eq_true_eq, UInt8.le_iff_toNat_le,
      Bool.or_eq_false_iff, decide_eq_false_iff_not, ← UInt8.toNat_inj,
      Bool.and_eq_false_iff] at hdigit ⊢
    have h48 : (48 : UInt8).toNat = 48 := rfl
    have h32 : (32 : UInt8).toNat = 32 := rfl
    have h13 : (13 : UInt8).toNat = 13 := rfl
    omega
  · rintro rfl
    exact absurd hdigit (by decide)

theorem isWord_of_all {text : Bytes} (h : text.all (fun b => !isSpace b && b != 0) = true) :
    IsWord text := by
  intro b hb
  have hb := List.all_eq_true.mp h b hb
  simpa using hb

theorem isWord_append {v w : Bytes} (hv : IsWord v) (hw : IsWord w) : IsWord (v ++ w) := by
  intro b hb
  rcases List.mem_append.mp hb with hb | hb
  · exact hv b hb
  · exact hw b hb

variable {ctx type id : Bytes} {score : Int} {line : Bytes}

/-- The line of an event. -/
theorem event_sent (h : event ctx type id score = .ok line) :
    IsWord ctx ∧ IsWord id ∧
      (type = ascii "ADD" ∨ type = ascii "SET" ∨ type = ascii "DEL") ∧
      (type ≠ ascii "DEL" → 0 ≤ score ∧ score ≤ 100) ∧
      line = lineOf ([ascii "EVENT", ctx, type, id] ++
        if type ≠ ascii "DEL" then [intText score] else []) := by
  unfold event at h
  obtain ⟨hctx, h⟩ := require_bind h
  obtain ⟨-, h⟩ := require_bind h
  obtain ⟨hid, h⟩ := require_bind h
  obtain ⟨htype, h⟩ := require_bind h
  obtain ⟨hscore, h⟩ := require_bind h
  cases h
  have htype := not_of_refuse htype
  have hscore := not_of_refuse hscore
  have hthree : type = ascii "ADD" ∨ type = ascii "SET" ∨ type = ascii "DEL" := by
    by_contra hcon
    rw [not_or, not_or] at hcon
    exact htype hcon
  refine ⟨isWord_of_token hctx, isWord_of_token hid, hthree, ?_, rfl⟩
  intro hdel
  have hscored : type = ascii "ADD" ∨ type = ascii "SET" := by
    rcases hthree with h | h | h
    · exact .inl h
    · exact .inr h
    · exact absurd h hdel
  have hrange : ¬(score < 0 ∨ score > 100) := fun hout => hscore ⟨hscored, hout⟩
  omega

end Sent

/-! ## 5. What is read -/

section Read

variable {stof : Bytes → Option UInt32} {takesPart : Bytes → Bool} {maxTopK : Nat}
  {w : Bytes} {words : List Bytes}

/-- A line of words, as `ParseCommand` sees it. -/
theorem parseCommand_line (hne : w ≠ []) (hw : ∀ v ∈ w :: words, IsWord v) :
    parseCommand stof takesPart (lineOf (w :: words)) maxTopK =
      parseWords stof takesPart maxTopK (rawFirstLine (lineOf (w :: words))) (toUpper w)
        (words.filter fun v => v ≠ []) := by
  unfold parseCommand
  rw [words_line hne hw]
  rfl

/-- The number of a scored event is read back. -/
theorem parseEventScore_natText {n : Nat} (h : n ≤ 100) :
    parseEventScore (natText n) = .ok (n : Int) := by
  have hint : parseInt (natText n) = .ok (n : Int) := by
    rw [parseInt_natText, if_neg (by omega)]
  have hrange : ¬((n : Int) < kMinEventScore ∨ kMaxEventScore < (n : Int)) := by
    unfold kMinEventScore kMaxEventScore
    omega
  unfold parseEventScore
  rw [hint]
  simp only [bind, Except.bind, hrange, if_false]
  rfl

theorem parseEvent_scored {ctx id : Bytes} {n : Nat} {type : EventType} {text : Bytes}
    (htype : typeText type = some text) (hdel : type ≠ .DEL) (hn : n ≤ 100) :
    parseEvent [ctx, text, id, natText n] =
      .ok { type := .kEvent, ctx := ctx, id := id, eventType := type, score := (n : Int) } := by
  have hscore := parseEventScore_natText hn
  cases type with
  | ADD =>
    cases htype
    show parseScoredEvent ctx .ADD "ADD" [id, natText n] = _
    simp only [parseScoredEvent, hscore]
    rfl
  | SET =>
    cases htype
    show parseScoredEvent ctx .SET "SET" [id, natText n] = _
    simp only [parseScoredEvent, hscore]
    rfl
  | DEL => exact absurd rfl hdel
  | unnamed raw h => cases htype

/-- An event line. -/
theorem parseCommand_event (hw : ∀ v ∈ words, IsWord v) :
    parseCommand stof takesPart (lineOf (ascii "EVENT" :: words)) maxTopK =
      (parseEvent (words.filter fun v => v ≠ [])).map .write := by
  rw [parseCommand_line (by decide) (List.forall_mem_cons.mpr ⟨isWord_of_all (by decide), hw⟩)]
  rfl

/-- Two words, of an event that has lost its context, are read as a deletion or not at all. -/
theorem parseEvent_shifted {type id : Bytes} {text : Bytes} (hid : toUpper id ≠ ascii "DEL") :
    ∃ e, parseEvent [type, id, text] = .error e := by
  unfold parseEvent
  simp only [if_neg hid]
  split
  · exact ⟨_, rfl⟩
  · split
    · exact ⟨_, rfl⟩
    · exact ⟨_, rfl⟩

theorem error_means {α : Type} {e : Error} {x : Except Error α} (h : x = .error e) {P : α → Prop} :
    ∀ r, x = .ok r → P r := by
  intro r hr
  rw [h] at hr
  cases hr

theorem event_means_iff {ctx type id : Bytes} {score : Int} {line : Bytes}
    (h : event ctx type id score = .ok line) :
    (∀ r, parseCommand stof takesPart line maxTopK = .ok r →
      (Call.event ctx type id score).Means r) ↔
      (Call.event ctx type id score).Unmistakable maxTopK := by
  obtain ⟨hctx, hid, hthree, hscore, rfl⟩ := event_sent h
  have htypeWord : IsWord type := by
    rcases hthree with rfl | rfl | rfl <;> exact isWord_of_all (by decide)
  have htypeNe : type ≠ [] := by
    rcases hthree with rfl | rfl | rfl <;> decide
  show _ ↔ ctx ≠ [] ∨ type = ascii "DEL" ∨ toUpper id ≠ ascii "DEL"
  by_cases hdel : type = ascii "DEL"
  · -- without a score three words are the least, and there are no more
    refine iff_of_true ?_ (.inr (.inl hdel))
    have hparse : parseCommand stof takesPart (lineOf [ascii "EVENT", ctx, type, id]) maxTopK = _ :=
      parseCommand_event (by simp [hctx, htypeWord, hid])
    rw [hdel] at hparse ⊢
    rw [if_neg (by simp), List.append_nil, hparse]
    by_cases hc : ctx = []
    · subst hc
      by_cases hi : id = []
      · subst hi
        exact error_means rfl
      · simp only [List.filter_cons, List.filter_nil, ne_eq, hi]
        exact error_means rfl
    · by_cases hi : id = []
      · subst hi
        simp only [List.filter_cons, List.filter_nil, ne_eq, hc]
        exact error_means rfl
      · simp only [List.filter_cons, List.filter_nil, ne_eq, hc, hi]
        rintro r hr
        cases hr
        exact ⟨rfl, rfl, rfl, rfl, fun hne => absurd rfl hne, rfl⟩
  · obtain ⟨hlo, hhi⟩ := hscore hdel
    obtain ⟨n, rfl⟩ := Int.eq_ofNat_of_zero_le hlo
    obtain ⟨t, ht, htdel⟩ : ∃ t, typeText t = some type ∧ t ≠ .DEL := by
      rcases hthree with rfl | rfl | rfl
      · exact ⟨.ADD, rfl, by decide⟩
      · exact ⟨.SET, rfl, by decide⟩
      · exact absurd rfl hdel
    have hint : intText (n : Int) = natText n := by
      rw [intText, if_neg (by omega), Int.natAbs_natCast]
    have hparse : parseCommand stof takesPart
        (lineOf [ascii "EVENT", ctx, type, id, natText n]) maxTopK = _ :=
      parseCommand_event (by simp [hctx, htypeWord, hid, isWord_natText])
    rw [if_pos hdel, hint, List.cons_append, List.cons_append, List.cons_append, List.cons_append,
      List.nil_append, hparse]
    have hnat := natText_ne_nil n
    by_cases hc : ctx = []
    · subst hc
      by_cases hi : id = []
      · subst hi
        simp only [List.filter_cons, List.filter_nil, ne_eq, htypeNe, hnat]
        exact iff_of_true (error_means rfl) (.inr (.inr (by decide)))
      · simp only [List.filter_cons, List.filter_nil, ne_eq, htypeNe, hi, hnat]
        by_cases hu : toUpper id = ascii "DEL"
        · -- the type is taken for the context, the id for the type and the score for the id
          refine iff_of_false ?_ (by simp [hdel, hu])
          intro hmeans
          have hread : parseEvent [type, id, natText n] = .ok
              { type := .kEvent, ctx := type, id := natText n, eventType := .DEL } := by
            unfold parseEvent
            simp only [hu]
            rfl
          have hall := hmeans (.write _) (congrArg (Except.map Request.write) hread)
          exact absurd (Option.some.inj (hall.2.2.2.1)).symm hdel
        · refine iff_of_true ?_ (.inr (.inr hu))
          obtain ⟨e, he⟩ : ∃ e, parseEvent [type, id, natText n] = .error e :=
            parseEvent_shifted hu
          refine error_means (e := e) ?_
          show Except.map Request.write (parseEvent [type, id, natText n]) = _
          rw [he]
          rfl
    · refine iff_of_true ?_ (.inl hc)
      by_cases hi : id = []
      · subst hi
        simp only [List.filter_cons, List.filter_nil, ne_eq, hc, htypeNe, hnat]
        rcases hthree with rfl | rfl | rfl
        · exact error_means rfl
        · exact error_means rfl
        · exact absurd rfl hdel
      · simp only [List.filter_cons, List.filter_nil, ne_eq, hc, htypeNe, hi, hnat]
        intro r hr
        have hread : parseEvent [ctx, type, id, natText n] = _ :=
          parseEvent_scored ht htdel (by omega)
        cases hr.symm.trans (congrArg (Except.map Request.write) hread)
        exact ⟨rfl, rfl, rfl, ht, fun _ => rfl, rfl⟩

end Read

/-! ## 6. Vectors -/

/-- **What is relied on of the rendering of a float**: nine digits are read back as the same
    number, `nan` and `inf` are refused, and a rendering is one word without `=`. -/
structure RoundTrips (formatFloat : UInt32 → Bytes) (stof : Bytes → Option UInt32) : Prop where
  finite : ∀ x, isFiniteFloat x = true → stof (formatFloat x) = some x
  notFinite : ∀ x, isFiniteFloat x = false → stof (formatFloat x) = none
  isWord : ∀ x, IsWord (formatFloat x)
  ne_nil : ∀ x, formatFloat x ≠ []
  noEquals : ∀ x, 61 ∉ formatFloat x

section Vectors

variable {formatFloat : UInt32 → Bytes} {stof : Bytes → Option UInt32}
  {takesPart : Bytes → Bool} {maxTopK : Nat}

/-- Finite numbers are read back. -/
theorem mapM_parseFloat (hf : RoundTrips formatFloat stof) {v : List UInt32}
    (h : ∀ x ∈ v, isFiniteFloat x = true) :
    (v.map formatFloat).mapM (parseFloat stof takesPart) = .ok v := by
  induction v with
  | nil => rfl
  | cons x v ih =>
    have hx : parseFloat stof takesPart (formatFloat x) = .ok x := by
      rw [parseFloat, hf.finite x (h x List.mem_cons_self)]
    rw [List.map_cons, List.mapM_cons, hx, ih fun y hy => h y (List.mem_cons_of_mem x hy)]
    rfl

/-- One that is not finite is not. -/
theorem mapM_parseFloat_error (takesPart : Bytes → Bool) (hf : RoundTrips formatFloat stof)
    {v : List UInt32} {y : UInt32} (hy : y ∈ v) (h : isFiniteFloat y = false) :
    ∃ e, (v.map formatFloat).mapM (parseFloat stof takesPart) = .error e := by
  induction v with
  | nil => cases hy
  | cons x v ih =>
    rw [List.map_cons, List.mapM_cons]
    cases hx : parseFloat stof takesPart (formatFloat x) with
    | error e => exact ⟨e, rfl⟩
    | ok x' =>
      obtain rfl | hin := List.mem_cons.mp hy
      · rw [parseFloat, hf.notFinite y h] at hx
        cases hx
      · obtain ⟨e, he⟩ := ih hin
        rw [he]
        exact ⟨e, rfl⟩

theorem filter_floats (hf : RoundTrips formatFloat stof) (v : List UInt32) :
    ((v.map formatFloat).filter fun w => w ≠ []) = v.map formatFloat := by
  rw [List.filter_eq_self]
  intro w hw
  obtain ⟨x, -, rfl⟩ := List.mem_map.mp hw
  simpa using hf.ne_nil x

theorem isWord_floats (hf : RoundTrips formatFloat stof) {v : List UInt32} :
    ∀ w ∈ v.map formatFloat, IsWord w := by
  intro w hw
  obtain ⟨x, -, rfl⟩ := List.mem_map.mp hw
  exact hf.isWord x

theorem exists_notFinite {v : List UInt32} (h : ¬∀ x ∈ v, isFiniteFloat x = true) :
    ∃ x ∈ v, isFiniteFloat x = false := by
  by_contra hcon
  refine h fun x hx => ?_
  by_contra hfalse
  exact hcon ⟨x, hx, Bool.eq_false_of_not_eq_true hfalse⟩

/-- A vector is set as it was sent, if its numbers are finite; otherwise the line is refused. -/
theorem parseVecset_floats (takesPart : Bytes → Bool) (hf : RoundTrips formatFloat stof)
    (id : Bytes) (x : UInt32) (xs : List UInt32) :
    ((∀ z ∈ x :: xs, isFiniteFloat z = true) ∧
      parseVecset stof takesPart (id :: (x :: xs).map formatFloat) =
        .ok { type := .kVecset, id := id, dimension := (x :: xs).length, vector := x :: xs }) ∨
    (∃ z ∈ x :: xs, isFiniteFloat z = false) ∧
      ∃ e, parseVecset stof takesPart (id :: (x :: xs).map formatFloat) = .error e := by
  have hread : parseVecset stof takesPart (id :: (x :: xs).map formatFloat) =
      ((x :: xs).map formatFloat).mapM (parseFloat stof takesPart) >>= fun v =>
        .ok { type := .kVecset, id := id, dimension := v.length, vector := v } := rfl
  by_cases hall : ∀ z ∈ x :: xs, isFiniteFloat z = true
  · refine .inl ⟨hall, ?_⟩
    rw [hread, mapM_parseFloat hf hall]
    rfl
  · obtain ⟨z, hz, hfin⟩ := exists_notFinite hall
    obtain ⟨e, he⟩ := mapM_parseFloat_error takesPart hf hz hfin
    refine .inr ⟨⟨z, hz, hfin⟩, e, ?_⟩
    rw [hread, he]
    rfl

theorem vecset_means_iff (hf : RoundTrips formatFloat stof) {id : Bytes} {vector : List UInt32}
    {line : Bytes} (h : vecset formatFloat id vector = .ok line) :
    (∀ r, parseCommand stof takesPart line maxTopK = .ok r → (Call.vecset id vector).Means r) ↔
      (Call.vecset id vector).Unmistakable maxTopK := by
  unfold vecset at h
  obtain ⟨hid, h⟩ := require_bind h
  obtain ⟨hne, h⟩ := require_bind h
  cases h
  have hne := not_of_refuse hne
  have hparse : parseCommand stof takesPart
      (lineOf (ascii "VECSET" :: id :: vector.map formatFloat)) maxTopK =
      (parseVecset stof takesPart
        ((id :: vector.map formatFloat).filter fun w => w ≠ [])).map .write := by
    rw [parseCommand_line (by decide)]
    · rfl
    · exact List.forall_mem_cons.mpr ⟨isWord_of_all (by decide),
        List.forall_mem_cons.mpr ⟨isWord_of_token hid, isWord_floats hf⟩⟩
  rw [List.cons_append, List.cons_append, List.nil_append, hparse, List.filter_cons,
    filter_floats hf]
  show _ ↔ id ≠ [] ∨ vector.length ≤ 1 ∨ ∃ x ∈ vector.tail, isFiniteFloat x = false
  obtain ⟨x, xs, rfl⟩ := List.exists_cons_of_ne_nil hne
  by_cases hempty : id = []
  · subst hempty
    cases xs with
    | nil => exact iff_of_true (error_means rfl) (.inr (.inl (by simp)))
    | cons y ys =>
      rcases parseVecset_floats takesPart hf (formatFloat x) y ys with
        ⟨hall, hread⟩ | ⟨hfin, e, hread⟩
      · -- the first number is taken for the id
        refine iff_of_false ?_ ?_
        · intro hmeans
          have hall := hmeans (.write _) (congrArg (Except.map Request.write) hread)
          exact hf.ne_nil x hall.2.1
        · rintro (hcon | hcon | ⟨z, hz, hcon⟩)
          · exact hcon rfl
          · simp at hcon
          · rw [hall z hz] at hcon
            cases hcon
      · refine iff_of_true ?_ (.inr (.inr hfin))
        exact error_means (congrArg (Except.map Request.write) hread)
  · refine iff_of_true ?_ (.inl hempty)
    rw [if_pos (by simpa using hempty)]
    intro r hr
    rcases parseVecset_floats takesPart hf id x xs with ⟨-, hread⟩ | ⟨-, e, hread⟩
    · cases hr.symm.trans (congrArg (Except.map Request.write) hread)
      exact ⟨rfl, rfl, rfl, rfl⟩
    · cases hr.symm.trans (congrArg (Except.map Request.write) hread)

end Vectors

/-! ## 7. Queries -/

section Queries

variable {formatFloat : UInt32 → Bytes} {stof : Bytes → Option UInt32}
  {takesPart : Bytes → Bool} {maxTopK : Nat}

/-- A count is read back, or refused. -/
theorem parseTopK_natText (maxTopK : Nat) (topK : UInt32) :
    (validTopK maxTopK topK ∧ parseTopK (natText topK.toNat) maxTopK = .ok (topK.toNat : Int)) ∨
    ¬ validTopK maxTopK topK ∧ ∃ e, parseTopK (natText topK.toNat) maxTopK = .error e := by
  unfold parseTopK
  rw [parseInt_natText]
  unfold validTopK
  by_cases hbig : 2 ^ 31 ≤ topK.toNat
  · rw [if_pos hbig]
    exact .inr ⟨by omega, _, rfl⟩
  · rw [if_neg hbig]
    by_cases hzero : topK.toNat = 0
    · refine .inr ⟨by omega, ?_⟩
      simp only [bind, Except.bind, hzero]
      exact ⟨_, rfl⟩
    · by_cases hmax : 0 < maxTopK ∧ maxTopK < topK.toNat
      · refine .inr ⟨by omega, ?_⟩
        have hpos : ¬((topK.toNat : Int) ≤ 0) := by omega
        have hmax' : 0 < maxTopK ∧ (maxTopK : Int) < (topK.toNat : Int) := by omega
        simp only [bind, Except.bind, hpos, hmax', if_false, if_true, and_self]
        exact ⟨_, rfl⟩
      · refine .inl ⟨by omega, ?_⟩
        have hpos : ¬((topK.toNat : Int) ≤ 0) := by omega
        have hmax' : ¬(0 < maxTopK ∧ (maxTopK : Int) < (topK.toNat : Int)) := by omega
        simp only [bind, Except.bind, hpos, hmax', if_false]
        rfl

theorem afterText_append (text rest : Bytes) : afterText text (text ++ rest) = some rest := by
  unfold afterText
  rw [if_pos (List.isPrefixOf_iff_prefix.mpr (List.prefix_append text rest)), List.drop_left]

/-- A word that begins with a letter is no count. -/
theorem parseTopK_letter (maxTopK : Nat) {b : UInt8} (l : Bytes) (h : 97 ≤ b) :
    ∃ e, parseTopK (b :: l) maxTopK = .error e := by
  have hnat : 97 ≤ b.toNat := UInt8.le_iff_toNat_le.mp h
  have hspace : isSpace b = false := by
    simp only [isSpace, Bool.or_eq_false_iff, decide_eq_false_iff_not, Bool.and_eq_false_iff,
      UInt8.le_iff_toNat_le, ← UInt8.toNat_inj]
    have h13 : (13 : UInt8).toNat = 13 := rfl
    have h32 : (32 : UInt8).toNat = 32 := rfl
    omega
  have hdigit : isDigit b = false := by
    simp only [isDigit, decide_eq_false_iff_not, Bool.and_eq_false_iff, UInt8.le_iff_toNat_le]
    have h57 : (57 : UInt8).toNat = 57 := rfl
    omega
  have hint : ∃ e, parseInt (b :: l) = .error e := by
    unfold parseInt
    rw [List.dropWhile_cons_of_neg (by simp [hspace])]
    split
    rename_i negative text heq
    obtain rfl : text = b :: l := by
      split at heq
      · rename_i rest htext
        rw [(List.cons.inj htext).1] at h
        exact absurd h (by decide)
      · rename_i rest htext
        rw [(List.cons.inj htext).1] at h
        exact absurd h (by decide)
      · cases heq
        rfl
    have hnone : (b :: l).takeWhile isDigit = [] := List.takeWhile_cons_of_neg (by simp [hdigit])
    simp only [hnone, true_or, if_true]
    exact ⟨_, rfl⟩
  obtain ⟨e, he⟩ := hint
  unfold parseTopK
  rw [he]
  exact ⟨e, rfl⟩

variable {cmd cmd' : SimCommand}

/-- The mode of a query is the one that was sent. -/
theorem simOption_using {mode : Bytes}
    (h : simOption stof takesPart cmd (kUsingText ++ mode) = .ok cmd') :
    ∃ m : SimMode, m.text = mode ∧ cmd' = { cmd with mode := m } := by
  unfold simOption at h
  rw [afterText_append] at h
  simp only at h
  split at h
  · rename_i hm
    cases h
    exact ⟨.events, hm.symm, rfl⟩
  · split at h
    · rename_i hm
      cases h
      exact ⟨.vectors, hm.symm, rfl⟩
    · split at h
      · rename_i hm
        cases h
        exact ⟨.fusion, hm.symm, rfl⟩
      · cases h

theorem simOption_filter (filter : Bytes) :
    simOption stof takesPart cmd (kFilterText ++ filter) =
      .ok { cmd with filterExpr := filter } := by
  unfold simOption
  rw [afterText_append]
  rfl

theorem simOption_minScore (hf : RoundTrips formatFloat stof) {x : UInt32}
    (h : simOption stof takesPart cmd (kMinScoreText ++ formatFloat x) = .ok cmd') :
    cmd' = { cmd with minScore := x } := by
  unfold simOption at h
  rw [afterText_append] at h
  have h' : (parseFloat stof takesPart (formatFloat x) >>= fun minScore =>
      Except.ok { cmd with minScore := minScore }) = .ok cmd' := h
  unfold parseFloat at h'
  cases hfin : isFiniteFloat x with
  | true =>
    rw [hf.finite x hfin] at h'
    cases h'
    rfl
  | false =>
    rw [hf.notFinite x hfin] at h'
    cases h'

theorem simOption_adaptive (on : Bool) :
    simOption stof takesPart cmd (kAdaptiveText ++ if on then ascii "on" else ascii "off") =
      .ok { cmd with adaptive := some on } := by
  unfold simOption
  rw [afterText_append]
  cases on
  · rfl
  · rfl

theorem ok_bind {α β : Type} (a : α) (f : α → Except Error β) : (Except.ok a >>= f) = f a := rfl

theorem bind_ok {α β : Type} {x : Except Error α} {f : α → Except Error β} {b : β}
    (h : (x >>= f) = .ok b) : ∃ a, x = .ok a ∧ f a = .ok b := by
  cases x with
  | error e => cases h
  | ok a => exact ⟨a, rfl, h⟩

/-- The options of both queries. -/
theorem searchOptions_read (hf : RoundTrips formatFloat stof) {options : SearchOptions}
    (h : (searchOptions formatFloat options).foldlM (simOption stof takesPart) cmd = .ok cmd') :
    cmd' = { cmd with
      filterExpr := if options.filter = [] then cmd.filterExpr else options.filter
      minScore := options.minScore.getD cmd.minScore } := by
  unfold searchOptions at h
  rw [List.foldlM_append] at h
  obtain ⟨mid, hfilter, hscore⟩ := bind_ok h
  have hmid : mid = { cmd with
      filterExpr := if options.filter = [] then cmd.filterExpr else options.filter } := by
    by_cases hempty : options.filter = []
    · rw [if_neg (by simpa using hempty)] at hfilter
      cases hfilter
      rw [if_pos hempty]
    · rw [if_pos hempty, List.foldlM_cons, simOption_filter] at hfilter
      cases hfilter
      rw [if_neg hempty]
  cases hm : options.minScore with
  | none =>
    rw [hm] at hscore
    cases hscore
    rw [hmid]
    rfl
  | some x =>
    rw [hm, minScoreOption, List.foldlM_cons] at hscore
    obtain ⟨last, hlast, hend⟩ := bind_ok hscore
    cases hend
    rw [simOption_minScore hf hlast, hmid]
    rfl

/-- **A query is read as it was sent.** -/
theorem parseSim_read (hf : RoundTrips formatFloat stof) {id mode : Bytes} {topK : UInt32}
    {options : SearchOptions}
    (h : parseSim stof takesPart maxTopK
      (id :: natText topK.toNat :: simOptions formatFloat mode options) = .ok cmd) :
    (Call.sim id topK mode options).Means (.sim cmd) := by
  unfold parseSim at h
  obtain ⟨k, hk, h⟩ := bind_ok h
  have hk : k = topK.toNat := by
    rcases parseTopK_natText maxTopK topK with ⟨-, hok⟩ | ⟨-, e, herr⟩
    · exact Except.ok.inj (hk.symm.trans hok)
    · rw [herr] at hk
      cases hk
  rw [simOptions, List.foldlM_append, List.foldlM_append] at h
  obtain ⟨mid, h, hadaptive⟩ := bind_ok h
  obtain ⟨first, husing, hsearch⟩ := bind_ok h
  obtain ⟨m, hm, rfl⟩ : ∃ m : SimMode,
      m.text = (if mode = [] then SimMode.fusion.text else mode) ∧
        first = { id := id, topK := k, mode := m } := by
    by_cases hempty : mode = []
    · rw [if_neg (by simpa using hempty)] at husing
      cases husing
      exact ⟨.fusion, by rw [if_pos hempty], rfl⟩
    · rw [if_pos hempty, List.foldlM_cons] at husing
      obtain ⟨last, hlast, hend⟩ := bind_ok husing
      cases hend
      obtain ⟨m, hm, rfl⟩ := simOption_using hlast
      exact ⟨m, by rw [if_neg hempty, hm], rfl⟩
  have hmid := searchOptions_read hf hsearch
  have hfilter : mid.filterExpr = options.filter := by
    rw [hmid]
    show (if options.filter = [] then [] else options.filter) = options.filter
    split
    · rename_i hempty
      exact hempty.symm
    · rfl
  have hcmd : cmd = { mid with adaptive := options.adaptive } := by
    cases ha : options.adaptive with
    | none =>
      rw [ha] at hadaptive
      cases hadaptive
      rw [hmid]
    | some on =>
      rw [ha, List.foldlM_cons, simOption_adaptive] at hadaptive
      cases hadaptive
      rfl
  subst hcmd
  refine ⟨?_, ?_, ?_, rfl, hfilter, ?_⟩
  · rw [hmid]
  · rw [hmid]
    exact hk
  · rw [hmid]
    exact hm
  · rw [hmid]

/-- The options of `Sim`, as words. -/
theorem simOptions_spec (hf : RoundTrips formatFloat stof) {mode : Bytes} {options : SearchOptions}
    (hmode : IsWord mode) (hfilter : IsWord options.filter) :
    ∀ w ∈ simOptions formatFloat mode options, IsWord w ∧ ∃ b l, w = b :: l ∧ 97 ≤ b := by
  intro w hw
  unfold simOptions at hw
  rcases List.mem_append.mp hw with hw | hw
  · rcases List.mem_append.mp hw with hw | hw
    · split at hw
      · obtain rfl := List.mem_singleton.mp hw
        exact ⟨isWord_append (isWord_of_all (by decide)) hmode, _, _, rfl, by decide⟩
      · cases hw
    · rcases List.mem_append.mp hw with hw | hw
      · split at hw
        · obtain rfl := List.mem_singleton.mp hw
          exact ⟨isWord_append (isWord_of_all (by decide)) hfilter, _, _, rfl, by decide⟩
        · cases hw
      · cases hm : options.minScore with
        | none =>
          rw [hm] at hw
          cases hw
        | some score =>
          rw [hm] at hw
          obtain rfl := List.mem_singleton.mp hw
          exact ⟨isWord_append (isWord_of_all (by decide)) (hf.isWord _), _, _, rfl, by decide⟩
  · split at hw
    · rename_i on hon
      obtain rfl := List.mem_singleton.mp hw
      refine ⟨isWord_append (isWord_of_all (by decide)) ?_, _, _, rfl, by decide⟩
      cases on
      · exact isWord_of_all (by decide)
      · exact isWord_of_all (by decide)
    · cases hw

theorem sim_means (hf : RoundTrips formatFloat stof) {id mode : Bytes} {topK : UInt32}
    {options : SearchOptions} {line : Bytes}
    (h : sim formatFloat id topK mode options = .ok line) {r : Request}
    (hr : parseCommand stof takesPart line maxTopK = .ok r) :
    (Call.sim id topK mode options).Means r := by
  unfold sim at h
  obtain ⟨hid, h⟩ := require_bind h
  obtain ⟨hmode, h⟩ := require_bind h
  obtain ⟨hfilter, h⟩ := require_bind h
  cases h
  have hspec := simOptions_spec hf (isWord_of_token hmode) (isWord_of_token hfilter)
  generalize hopts : simOptions formatFloat mode options = opts at hspec hr
  have hkeep : (opts.filter fun w => w ≠ []) = opts := by
    rw [List.filter_eq_self]
    intro w hw
    obtain ⟨-, b, l, rfl, -⟩ := hspec w hw
    simp
  have hparse : parseCommand stof takesPart
      (lineOf (ascii "SIM" :: id :: natText topK.toNat :: opts)) maxTopK =
      (parseSim stof takesPart maxTopK
        ((id :: natText topK.toNat :: opts).filter fun w => w ≠ [])).map .sim := by
    rw [parseCommand_line (by decide)]
    · rfl
    · exact List.forall_mem_cons.mpr ⟨isWord_of_all (by decide),
        List.forall_mem_cons.mpr ⟨isWord_of_token hid,
          List.forall_mem_cons.mpr ⟨isWord_natText _, fun w hw => (hspec w hw).1⟩⟩⟩
  have hnat :
      (natText topK.toNat :: opts).filter (fun w => w ≠ []) = natText topK.toNat :: opts := by
    rw [List.filter_cons, hkeep, if_pos (by simpa using natText_ne_nil _)]
  rw [List.cons_append, List.cons_append, List.cons_append, List.nil_append, hparse,
    List.filter_cons, hnat] at hr
  by_cases hempty : id = []
  · -- the count is taken for the id, and the next option is no count
    rw [if_neg (by simpa using hempty)] at hr
    cases opts with
    | nil => cases hr
    | cons w opts =>
      obtain ⟨-, b, l, rfl, hletter⟩ := hspec w List.mem_cons_self
      obtain ⟨e, he⟩ := parseTopK_letter maxTopK l hletter
      simp only [parseSim, he] at hr
      cases hr
  · rw [if_pos (by simpa using hempty)] at hr
    cases hcmd : parseSim stof takesPart maxTopK (id :: natText topK.toNat :: opts) with
    | error e =>
      rw [hcmd] at hr
      cases hr
    | ok cmd =>
      rw [hcmd] at hr
      cases hr
      rw [← hopts] at hcmd
      exact parseSim_read hf hcmd

/-- The options before a vector, if the least score is finite. -/
theorem simvOptions_read (hf : RoundTrips formatFloat stof) {options : SearchOptions}
    {vector : List UInt32} (hne : vector ≠ []) {k : Int}
    (hscore : ∀ x, options.minScore = some x → isFiniteFloat x = true) :
    simvOptions stof takesPart { topK := k }
        (searchOptions formatFloat options ++ vector.map formatFloat) =
      .ok ({ topK := k, filterExpr := options.filter, minScore := options.minScore.getD 0 },
        vector.map formatFloat) := by
  obtain ⟨x, xs, rfl⟩ := List.exists_cons_of_ne_nil hne
  have hfloats : ∀ cmd, simvOptions stof takesPart cmd ((x :: xs).map formatFloat) =
      .ok (cmd, (x :: xs).map formatFloat) := by
    intro cmd
    rw [List.map_cons, simvOptions, if_pos (hf.noEquals x)]
  have hmin : ∀ cmd, simvOptions stof takesPart cmd
      (minScoreOption formatFloat options.minScore ++ (x :: xs).map formatFloat) =
      .ok ({ cmd with minScore := options.minScore.getD cmd.minScore },
        (x :: xs).map formatFloat) := by
    intro cmd
    cases hm : options.minScore with
    | none => exact hfloats cmd
    | some score =>
      have hparse : parseFloat stof takesPart (formatFloat score) = .ok score := by
        rw [parseFloat, hf.finite score (hscore score hm)]
      have hother : afterText kFilterText (kMinScoreText ++ formatFloat score) = none := rfl
      show simvOptions stof takesPart cmd ((kMinScoreText ++ formatFloat score) ::
        (x :: xs).map formatFloat) = _
      rw [simvOptions, if_neg (by simp [kMinScoreText])]
      simp only [hother, afterText_append, hparse]
      exact hfloats _
  unfold searchOptions
  rw [List.append_assoc]
  by_cases hempty : options.filter = []
  · rw [if_neg (by simpa using hempty), List.nil_append, hmin, hempty]
  · rw [if_pos hempty, List.singleton_append, simvOptions, if_neg (by simp [kFilterText])]
    simp only [afterText_append]
    exact hmin _

/-- One that is not finite is refused. -/
theorem simvOptions_error (takesPart : Bytes → Bool) (hf : RoundTrips formatFloat stof)
    (cmd : SimvCommand) {options : SearchOptions} (rest : List Bytes) {x : UInt32}
    (hm : options.minScore = some x) (hfin : isFiniteFloat x = false) :
    ∃ e, simvOptions stof takesPart cmd (searchOptions formatFloat options ++ rest) = .error e := by
  have hmin : ∀ cmd, ∃ e, simvOptions stof takesPart cmd
      ((kMinScoreText ++ formatFloat x) :: rest) = .error e := by
    intro cmd
    have hother : afterText kFilterText (kMinScoreText ++ formatFloat x) = none := rfl
    rw [simvOptions, if_neg (by simp [kMinScoreText])]
    simp only [hother, afterText_append, parseFloat, hf.notFinite x hfin]
    exact ⟨_, rfl⟩
  unfold searchOptions
  rw [hm, List.append_assoc]
  by_cases hempty : options.filter = []
  · rw [if_neg (by simpa using hempty)]
    exact hmin cmd
  · rw [if_pos hempty, List.singleton_append, simvOptions, if_neg (by simp [kFilterText])]
    simp only [afterText_append]
    exact hmin _

/-- A search by vector is read as it was sent, or refused. -/
theorem parseSimv_read (takesPart : Bytes → Bool) (maxTopK : Nat)
    (hf : RoundTrips formatFloat stof) (options : SearchOptions) {vector : List UInt32}
    (topK : UInt32) (hne : vector ≠ []) :
    (¬ Unreadable maxTopK vector topK options ∧ parseSimv stof takesPart maxTopK
        (natText topK.toNat :: (searchOptions formatFloat options ++ vector.map formatFloat)) =
      .ok { topK := topK.toNat, filterExpr := options.filter
            minScore := options.minScore.getD 0, vector := vector }) ∨
    Unreadable maxTopK vector topK options ∧ ∃ e, parseSimv stof takesPart maxTopK
        (natText topK.toNat :: (searchOptions formatFloat options ++ vector.map formatFloat)) =
      .error e := by
  obtain ⟨w, ws, hws⟩ := List.exists_cons_of_ne_nil
    (l := searchOptions formatFloat options ++ vector.map formatFloat) (by simp [hne])
  have hread : parseSimv stof takesPart maxTopK
      (natText topK.toNat :: (searchOptions formatFloat options ++ vector.map formatFloat)) =
      parseTopK (natText topK.toNat) maxTopK >>= fun k =>
        simvOptions stof takesPart { topK := k }
            (searchOptions formatFloat options ++ vector.map formatFloat) >>= fun p =>
          p.2.mapM (parseFloat stof takesPart) >>= fun v =>
            if v = [] then .error (syntaxError "SIMV requires at least one vector float")
            else .ok { p.1 with vector := v } := by
    rw [hws]
    rfl
  rw [hread]
  rcases parseTopK_natText maxTopK topK with ⟨hvalid, hk⟩ | ⟨hk, e, he⟩
  · rw [hk]
    by_cases hscore : ∀ x, options.minScore = some x → isFiniteFloat x = true
    · by_cases hall : ∀ x ∈ vector, isFiniteFloat x = true
      · refine .inl ⟨?_, ?_⟩
        · rintro (hcon | ⟨x, hx, hcon⟩ | ⟨x, hx, hcon⟩)
          · exact hcon hvalid
          · rw [hall x hx] at hcon
            cases hcon
          · rw [hscore x hx] at hcon
            cases hcon
        rw [ok_bind, simvOptions_read hf hne hscore, ok_bind, mapM_parseFloat hf hall, ok_bind,
          if_neg hne]
      · obtain ⟨y, hy, hfin⟩ := exists_notFinite hall
        obtain ⟨e, he⟩ := mapM_parseFloat_error takesPart hf hy hfin
        refine .inr ⟨.inr (.inl ⟨y, hy, hfin⟩), e, ?_⟩
        rw [ok_bind, simvOptions_read hf hne hscore, ok_bind, he]
        rfl
    · rw [not_forall] at hscore
      obtain ⟨x, hx⟩ := hscore
      rw [Classical.not_imp, Bool.not_eq_true] at hx
      obtain ⟨e, he⟩ := simvOptions_error takesPart hf { topK := topK.toNat }
        (vector.map formatFloat) hx.1 hx.2
      refine .inr ⟨.inr (.inr ⟨x, hx⟩), e, ?_⟩
      rw [ok_bind, he]
      rfl
  · refine .inr ⟨.inl hk, e, ?_⟩
    rw [he]
    rfl

theorem simv_means_iff (hf : RoundTrips formatFloat stof) {vector : List UInt32} {mode : Bytes}
    {topK : UInt32} {options : SearchOptions} {line : Bytes}
    (h : simv formatFloat vector topK mode options = .ok line) :
    (∀ r, parseCommand stof takesPart line maxTopK = .ok r →
      (Call.simv vector topK mode options).Means r) ↔
      (Call.simv vector topK mode options).Unmistakable maxTopK := by
  unfold simv at h
  obtain ⟨hne, h⟩ := require_bind h
  obtain ⟨hmode, h⟩ := require_bind h
  obtain ⟨hfilter, h⟩ := require_bind h
  cases h
  have hne := not_of_refuse hne
  have hoptions : ∀ w ∈ searchOptions formatFloat options, IsWord w ∧ w ≠ [] := by
    intro w hw
    have hin : w ∈ simOptions formatFloat [] options :=
      List.mem_append_left _ (List.mem_append_right _ hw)
    obtain ⟨hword, b, l, rfl, -⟩ :=
      simOptions_spec hf (fun b hb => absurd hb List.not_mem_nil) (isWord_of_token hfilter) w hin
    exact ⟨hword, List.cons_ne_nil b l⟩
  have hwords : ∀ w ∈ natText topK.toNat ::
      (searchOptions formatFloat options ++ vector.map formatFloat), IsWord w ∧ w ≠ [] := by
    intro w hw
    rcases List.mem_cons.mp hw with rfl | hw
    · exact ⟨isWord_natText _, natText_ne_nil _⟩
    · rcases List.mem_append.mp hw with hw | hw
      · exact hoptions w hw
      · obtain ⟨x, -, rfl⟩ := List.mem_map.mp hw
        exact ⟨hf.isWord x, hf.ne_nil x⟩
  have hparse : parseCommand stof takesPart (lineOf (ascii "SIMV" :: natText topK.toNat ::
      (searchOptions formatFloat options ++ vector.map formatFloat))) maxTopK =
      (parseSimv stof takesPart maxTopK (natText topK.toNat ::
        (searchOptions formatFloat options ++ vector.map formatFloat))).map .simv := by
    rw [parseCommand_line (by decide), List.filter_eq_self.mpr fun w hw => by
      simpa using (hwords w hw).2]
    · rfl
    · exact List.forall_mem_cons.mpr ⟨isWord_of_all (by decide), fun w hw => (hwords w hw).1⟩
  rw [List.cons_append, List.cons_append, List.nil_append, hparse]
  rcases parseSimv_read takesPart maxTopK hf options topK hne with
    ⟨hwhy, hread⟩ | ⟨hwhy, e, hread⟩
  · constructor
    · intro hmeans
      have hall := hmeans (.simv _) (congrArg (Except.map Request.simv) hread)
      rcases hall.2.2.1 with hmode | hmode
      · exact .inl hmode
      · exact .inr (.inl hmode)
    · intro hun r hr
      have hmode : mode = [] ∨ mode = SimMode.vectors.text := by
        rcases hun with hm | hm | hm
        · exact .inl hm
        · exact .inr hm
        · exact absurd hm hwhy
      cases hr.symm.trans (congrArg (Except.map Request.simv) hread)
      exact ⟨rfl, rfl, hmode, rfl, rfl⟩
  · exact iff_of_true (error_means (congrArg (Except.map Request.simv) hread)) (.inr (.inr hwhy))

end Queries

/-! ## 8. Every call -/

section Calls

variable {formatFloat : UInt32 → Bytes} {stof : Bytes → Option UInt32}
  {takesPart : Bytes → Bool} {maxTopK : Nat}

theorem vecdel_means {id line : Bytes} (h : vecdel id = .ok line) {r : Request}
    (hr : parseCommand stof takesPart line maxTopK = .ok r) : (Call.vecdel id).Means r := by
  unfold vecdel at h
  obtain ⟨hid, h⟩ := require_bind h
  obtain ⟨hne, h⟩ := require_bind h
  cases h
  have hne := not_of_refuse hne
  rw [parseCommand_line (by decide)
    (by simp [isWord_of_token hid, show IsWord (ascii "VECDEL") from isWord_of_all (by decide)]),
    List.filter_cons, if_pos (by simpa using hne)] at hr
  cases hr
  exact ⟨rfl, rfl⟩

theorem metaset_means {id metadata line : Bytes} (h : metaset id metadata = .ok line) {r : Request}
    (hr : parseCommand stof takesPart line maxTopK = .ok r) :
    (Call.metaset id metadata).Means r := by
  unfold metaset at h
  obtain ⟨hid, h⟩ := require_bind h
  obtain ⟨hmeta, h⟩ := require_bind h
  obtain ⟨hne, h⟩ := require_bind h
  cases h
  have hne := not_of_refuse hne
  rw [parseCommand_line (by decide) (by simp [isWord_of_token hid, isWord_of_token hmeta,
    show IsWord (ascii "METASET") from isWord_of_all (by decide)]), List.filter_cons] at hr
  have hlast : [metadata].filter (fun w => w ≠ []) = [metadata] := by simp [hne]
  rw [hlast] at hr
  by_cases hempty : id = []
  · rw [if_neg (by simpa using hempty)] at hr
    cases hr
  · rw [if_pos (by simpa using hempty)] at hr
    cases hr
    exact ⟨rfl, rfl, rfl, rfl⟩

/-- The password is the rest of the line, whatever it holds. -/
theorem auth_means {password line : Bytes} (h : auth password = .ok line) {r : Request}
    (hr : parseCommand stof takesPart line maxTopK = .ok r) : (Call.auth password).Means r := by
  unfold auth at h
  obtain ⟨hcontrol, h⟩ := require_bind h
  cases h
  have hblanks : ∀ b ∈ ascii "AUTH" ++ 32 :: password, b ≠ 0 ∧ (isSpace b = true → b = 32) := by
    intro b hb
    rcases List.mem_append.mp hb with hb | hb
    · have hword : IsWord (ascii "AUTH") := isWord_of_all (by decide)
      have hauth := hword b hb
      exact ⟨hauth.2, fun hs => by rw [hauth.1] at hs; cases hs⟩
    · rcases List.mem_cons.mp hb with rfl | hb
      · exact ⟨by decide, fun _ => rfl⟩
      · exact blank_of_no_control (no_control hcontrol b hb)
  have hsplit : split (ascii "AUTH" ++ 32 :: password) 32 = ascii "AUTH" :: split password 32 := by
    rw [split, List.splitOn_append_cons_self, List.filter_append]
    rfl
  have hline : ascii "AUTH " ++ password = ascii "AUTH" ++ 32 :: password := rfl
  have hread : parseCommand stof takesPart (ascii "AUTH" ++ 32 :: password) maxTopK =
      parseAuth (ascii "AUTH" ++ 32 :: password) := by
    unfold parseCommand
    rw [requestTokens_of_blanks hblanks hsplit (List.cons_ne_nil _ _),
      rawFirstLine_of_blanks hblanks]
    rfl
  rw [hline, hread] at hr
  cases password with
  | nil => cases hr
  | cons b password =>
    cases hr
    rfl

/-- **Client and server agree on a call** exactly when its arguments are told apart: whatever
    line it sends is refused or read as a command of its kind with its arguments. -/
theorem call_means_iff (hf : RoundTrips formatFloat stof) {call : Call} {line : Bytes}
    (h : call.send formatFloat = .ok line) :
    (∀ r, parseCommand stof takesPart line maxTopK = .ok r → call.Means r) ↔
      call.Unmistakable maxTopK := by
  cases call with
  | event ctx type id score => exact event_means_iff h
  | vecset id vector => exact vecset_means_iff hf h
  | vecdel id => exact iff_of_true (fun r hr => vecdel_means h hr) trivial
  | metaset id metadata => exact iff_of_true (fun r hr => metaset_means h hr) trivial
  | sim id topK mode options => exact iff_of_true (fun r hr => sim_means hf h hr) trivial
  | simv vector topK mode options => exact simv_means_iff hf h
  | auth password => exact iff_of_true (fun r hr => auth_means h hr) trivial

end Calls

/-! ## 9. Two calls -/

/-- A rendering in which one is `1`, and every other number its bits behind a `#`. -/
def exampleFormat (x : UInt32) : Bytes :=
  if x = 0x3f800000 then ascii "1" else 35 :: natText x.toNat

/-- The reading of `exampleFormat`. -/
def exampleStof (text : Bytes) : Option UInt32 :=
  if text = ascii "1" then some 0x3f800000
  else
    match afterText [35] text with
    | none => none
    | some digits =>
      let x := UInt32.ofNat (digitsValue digits)
      if isFiniteFloat x then some x else none

theorem exampleStof_format {x : UInt32} (h : x ≠ 0x3f800000) :
    exampleStof (exampleFormat x) = if isFiniteFloat x then some x else none := by
  have hback : UInt32.ofNat (digitsValue (natText x.toNat)) = x := by
    rw [digitsValue_natText, UInt32.ofNat_toNat]
  have hafter : afterText [35] (35 :: natText x.toNat) = some (natText x.toNat) :=
    afterText_append [35] (natText x.toNat)
  unfold exampleFormat exampleStof
  rw [if_neg h, if_neg (by intro hcon; cases hcon), hafter]
  simp only [hback]

theorem example_roundTrips : RoundTrips exampleFormat exampleStof where
  finite x hx := by
    by_cases h : x = 0x3f800000
    · subst h
      rfl
    · rw [exampleStof_format h, if_pos hx]
  notFinite x hx := by
    by_cases h : x = 0x3f800000
    · subst h
      exact absurd hx (by decide)
    · rw [exampleStof_format h, if_neg (by simp [hx])]
  isWord x := by
    unfold exampleFormat
    split
    · exact isWord_of_all (by decide)
    · exact isWord_append (v := [35]) (isWord_of_all (by decide)) (isWord_natText x.toNat)
  ne_nil x := by
    unfold exampleFormat
    split
    · decide
    · exact List.cons_ne_nil _ _
  noEquals x := by
    unfold exampleFormat
    split
    · decide
    · intro hin
      rcases List.mem_cons.mp hin with hin | hin
      · exact absurd hin (by decide)
      · exact absurd (isDigitByte_natText hin) (by decide)

/-- A vector of one number is set under its id. -/
theorem call_means_iff_vecset :
    (Call.vecset (ascii "a") [0x3f800000]).send exampleFormat = .ok (ascii "VECSET a 1") ∧
      ∀ r, parseCommand exampleStof (fun _ => false) (ascii "VECSET a 1") 1000 = .ok r →
        (Call.vecset (ascii "a") [0x3f800000]).Means r :=
  ⟨rfl, (call_means_iff example_roundTrips rfl).mpr (.inl (by decide))⟩

/-- **A context that was empty**: the score 5 of an item `DEL` deletes the item `5` from the
    context `ADD`. -/
theorem event_taken_for_deletion :
    RoundTrips exampleFormat exampleStof ∧ ∃ call line r, Call.send exampleFormat call = .ok line ∧
      parseCommand exampleStof (fun _ => false) line 1000 = .ok r ∧ ¬ call.Means r := by
  refine ⟨example_roundTrips, .event [] (ascii "ADD") (ascii "DEL") 5,
    ascii "EVENT  ADD DEL 5", .write { type := .kEvent, ctx := ascii "ADD", id := ascii "5"
                                       eventType := .DEL }, rfl, rfl, ?_⟩
  intro hmeans
  exact absurd hmeans.2.1 (by decide)

end Nvecd.Client
