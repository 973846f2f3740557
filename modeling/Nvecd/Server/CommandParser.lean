/-
  File:      Nvecd/Server/CommandParser.lean
  Subject:   `server/command_parser.cpp`: a request line as a command, every command there is.

  A line is cut at its blanks (`requestTokens`); the first word is the command, in either case.
  Only `AUTH` looks at the line itself, because a password may hold blanks.

  * `Request` -- the commands with what `ParseCommand` reads of them;
  * `parseEvent`, `parseVecset`, `parseVecdel`, `parseMetaset` -- the writes;
  * `parseAuth`, `parseAdmin` -- the others;
  * `parseCommand` -- all of them;
  * `parseInt_natText` -- a number in decimal is read back;
  * `words_line` -- a line made of words has these words, without the empty ones.
-/
import Nvecd.Server.QueryParser
import Nvecd.Server.WalCodec
import Mathlib.Data.List.DropRight

namespace Nvecd.Server

open Nvecd.Lib Nvecd.Storage Nvecd.Utils Nvecd.Events Nvecd.Vectors Nvecd.Cache

/-! ## 1. Requests -/

inductive ConfigCommand where
  | help
  | show
  | verify
  deriving DecidableEq, Repr

inductive DumpCommand where
  | save
  | load
  | verify
  | info
  | status
  deriving DecidableEq, Repr

inductive CacheCommand where
  | stats
  | clear
  | enable
  | disable
  deriving DecidableEq, Repr

/-- `Command`, by its type: the fields that `ParseCommand` sets for it. -/
inductive Request where
  | auth (password : Bytes)
  /-- `EVENT`, `VECSET`, `VECDEL`, `METASET`. -/
  | write (cmd : Command)
  | sim (cmd : SimCommand)
  | simv (cmd : SimvCommand)
  | info
  | config (sub : ConfigCommand) (path : Bytes)
  | dump (sub : DumpCommand) (path : Bytes)
  | debug (on : Bool)
  | cache (sub : CacheCommand)
  | set (name value : Bytes)
  | get (name : Bytes)
  | showVariables (pattern : Bytes)

/-! ## 2. `EVENT` -/

/-- `ParseEventScore`. -/
def parseEventScore (str : Bytes) : Except Error Int := do
  let value ← parseInt str
  if value < kMinEventScore ∨ kMaxEventScore < value then
    throw (makeError .kEventInvalidScore
      ("Score must be in range [0, 100], got " ++ toString value))
  return value

/-- `timestamp=`. -/
def kTimestampText : Bytes := ascii "timestamp="

/-- `ParseTimestamp`: what `stoull` takes, which must be all. A `-` negates modulo `2 ^ 64`. -/
def parseTimestamp (str : Bytes) : Except Error UInt64 :=
  match afterText kTimestampText str with
  | none =>
    .error (makeError .kCommandInvalidArgument
      ("Invalid option: " ++ textOf str ++ " (expected timestamp=<value>)"))
  | some valueStr =>
    let (negative, text) :=
      match valueStr.dropWhile isSpace with
      | 45 :: rest => (true, rest)
      | 43 :: rest => (false, rest)
      | text => (false, text)
    let digits := text.takeWhile isDigit
    if digits = [] ∨ 2 ^ 64 ≤ digitsValue digits then
      .error (makeError .kCommandInvalidArgument
        ("Failed to parse timestamp: " ++ textOf valueStr))
    else if text.dropWhile isDigit ≠ [] then
      .error (makeError .kCommandInvalidArgument
        ("Invalid timestamp value: " ++ textOf valueStr))
    else
      let value := UInt64.ofNat (digitsValue digits)
      .ok (if negative then -value else value)

/-- The option behind the last argument, if there is one. -/
def optionalTimestamp (cmd : Command) : List Bytes → Except Error Command
  | [] => .ok cmd
  | str :: _ => do
    let timestamp ← parseTimestamp str
    return { cmd with timestamp := some timestamp }

/-- `EVENT <ctx> ADD|SET <id> <score> [timestamp=<value>]`, the words behind the type. -/
def parseScoredEvent (ctx : Bytes) (type : EventType) (name : String) :
    List Bytes → Except Error Command
  | id :: score :: rest => do
    if 1 < rest.length then
      throw (syntaxError ("EVENT " ++ name ++ " requires 4-5 arguments: <ctx> " ++ name ++
        " <id> <score> [timestamp=<value>]"))
    let score ← parseEventScore score
    optionalTimestamp { type := .kEvent, ctx := ctx, id := id, eventType := type, score := score }
      rest
  | _ =>
    .error (syntaxError ("EVENT " ++ name ++ " requires 4-5 arguments: <ctx> " ++ name ++
      " <id> <score> [timestamp=<value>]"))

/-- The words behind `EVENT`. -/
def parseEvent : List Bytes → Except Error Command
  | ctx :: type :: id :: rest =>
    if toUpper type = ascii "ADD" then parseScoredEvent ctx .ADD "ADD" (id :: rest)
    else if toUpper type = ascii "SET" then parseScoredEvent ctx .SET "SET" (id :: rest)
    else if toUpper type = ascii "DEL" then
      if 1 < rest.length then
        .error (syntaxError "EVENT DEL requires 3-4 arguments: <ctx> DEL <id> [timestamp=<value>]")
      else optionalTimestamp { type := .kEvent, ctx := ctx, id := id, eventType := .DEL } rest
    else
      .error (syntaxError
        ("Invalid EVENT type: " ++ textOf (toUpper type) ++ " (must be ADD, SET, or DEL)"))
  | _ =>
    .error (syntaxError "EVENT requires at least 3 arguments: <ctx> <type> <id> [<score>]")

/-! ## 3. The other writes -/

/-- The words behind `VECSET`. -/
def parseVecset (stof : Bytes → Option UInt32) (takesPart : Bytes → Bool) :
    List Bytes → Except Error Command
  | id :: float :: floats => do
    let vector ← (float :: floats).mapM (parseFloat stof takesPart)
    return { type := .kVecset, id := id, dimension := vector.length, vector := vector }
  | _ => .error (syntaxError "VECSET requires at least 2 arguments: <id> <floats>")

/-- The words behind `VECDEL`. -/
def parseVecdel : List Bytes → Except Error Command
  | [id] => .ok { type := .kVecdel, id := id }
  | _ => .error (syntaxError "VECDEL requires 1 argument: <id>")

/-- The words behind `METASET`. -/
def parseMetaset : List Bytes → Except Error Command
  | [id, expr] => .ok { type := .kMetaset, id := id, filterExpr := expr }
  | _ => .error (syntaxError "METASET requires 2 arguments: <id> <key:value[,key:value...]>")

/-! ## 4. `AUTH` and the administration -/

/-- The line without its end. -/
def rawFirstLine (request : Bytes) : Bytes :=
  (request.reverse.dropWhile fun b => b = 13 ∨ b = 10).reverse

/-- The password: everything behind the first blank of the line. -/
def parseAuth (line : Bytes) : Except Error Request :=
  match line.dropWhile fun b => ¬(b = 32 ∨ b = 9) with
  | _ :: b :: password => .ok (.auth (b :: password))
  | _ => .error (syntaxError "AUTH requires 1 argument: <password>")

def parseConfig : List Bytes → Except Error Request
  | sub :: rest =>
    let path := rest.headD []
    if toUpper sub = ascii "HELP" then .ok (.config .help path)
    else if toUpper sub = ascii "SHOW" then .ok (.config .show path)
    else if toUpper sub = ascii "VERIFY" then .ok (.config .verify path)
    else .error (syntaxError ("Unknown CONFIG subcommand: " ++ textOf (toUpper sub)))
  | [] => .error (syntaxError "CONFIG requires subcommand: HELP|SHOW|VERIFY")

def parseDump : List Bytes → Except Error Request
  | sub :: rest =>
    let path := rest.headD []
    if toUpper sub = ascii "SAVE" then .ok (.dump .save path)
    else if toUpper sub = ascii "LOAD" then .ok (.dump .load path)
    else if toUpper sub = ascii "VERIFY" then .ok (.dump .verify path)
    else if toUpper sub = ascii "INFO" then .ok (.dump .info path)
    else if toUpper sub = ascii "STATUS" then .ok (.dump .status path)
    else .error (syntaxError ("Unknown DUMP subcommand: " ++ textOf (toUpper sub)))
  | [] => .error (syntaxError "DUMP requires subcommand: SAVE|LOAD|VERIFY|INFO|STATUS")

def parseDebug : List Bytes → Except Error Request
  | [arg] =>
    if toUpper arg = ascii "ON" then .ok (.debug true)
    else if toUpper arg = ascii "OFF" then .ok (.debug false)
    else .error (syntaxError ("DEBUG requires ON or OFF, got: " ++ textOf (toUpper arg)))
  | _ => .error (syntaxError "DEBUG requires exactly one argument: ON|OFF")

def parseCache : List Bytes → Except Error Request
  | sub :: _ =>
    if toUpper sub = ascii "STATS" then .ok (.cache .stats)
    else if toUpper sub = ascii "CLEAR" then .ok (.cache .clear)
    else if toUpper sub = ascii "ENABLE" then .ok (.cache .enable)
    else if toUpper sub = ascii "DISABLE" then .ok (.cache .disable)
    else .error (syntaxError ("Unknown CACHE subcommand: " ++ textOf (toUpper sub)))
  | [] => .error (syntaxError "CACHE requires subcommand: STATS|CLEAR|ENABLE|DISABLE")

/-- `SET <variable_name> <value>`: the words of the value, one blank between them. -/
def parseSet : List Bytes → Except Error Request
  | name :: value :: values => .ok (.set name ([32].intercalate (value :: values)))
  | _ => .error (syntaxError "SET requires 2 arguments: <variable_name> <value>")

def parseGet : List Bytes → Except Error Request
  | name :: _ => .ok (.get name)
  | [] => .error (syntaxError "GET requires 1 argument: <variable_name>")

def parseShow : List Bytes → Except Error Request
  | sub :: rest =>
    if toUpper sub = ascii "VARIABLES" then
      match rest with
      | like :: pattern :: _ =>
        .ok (.showVariables (if toUpper like = ascii "LIKE" then pattern else []))
      | _ => .ok (.showVariables [])
    else .error (syntaxError ("Unknown SHOW subcommand: " ++ textOf (toUpper sub)))
  | [] => .error (syntaxError "SHOW requires subcommand: VARIABLES")

/-- The commands that are neither writes nor queries. -/
def parseAdmin (name : Bytes) (arguments : List Bytes) : Except Error Request :=
  if name = ascii "INFO" then .ok .info
  else if name = ascii "CONFIG" then parseConfig arguments
  else if name = ascii "DUMP" then parseDump arguments
  else if name = ascii "DEBUG" then parseDebug arguments
  else if name = ascii "CACHE" then parseCache arguments
  else if name = ascii "SET" then parseSet arguments
  else if name = ascii "GET" then parseGet arguments
  else if name = ascii "SHOW" then parseShow arguments
  else .error (makeError .kCommandUnknown ("Unknown command: " ++ textOf name))

/-! ## 5. `ParseCommand` -/

section Commands

variable (stof : Bytes → Option UInt32) (takesPart : Bytes → Bool)

/-- The command of a name, which is in upper case, and the words behind it. -/
def parseWords (maxTopK : Nat) (line name : Bytes) (arguments : List Bytes) :
    Except Error Request :=
  if name = ascii "AUTH" then parseAuth line
  else if name = ascii "EVENT" then (parseEvent arguments).map .write
  else if name = ascii "VECSET" then (parseVecset stof takesPart arguments).map .write
  else if name = ascii "VECDEL" then (parseVecdel arguments).map .write
  else if name = ascii "METASET" then (parseMetaset arguments).map .write
  else if name = ascii "SIM" then (parseSim stof takesPart maxTopK arguments).map .sim
  else if name = ascii "SIMV" then (parseSimv stof takesPart maxTopK arguments).map .simv
  else parseAdmin name arguments

/-- **`ParseCommand`.** -/
def parseCommand (request : Bytes) (maxTopK : Nat) : Except Error Request := do
  match ← requestTokens request with
  | name :: arguments =>
    parseWords stof takesPart maxTopK (rawFirstLine request) (toUpper name) arguments
  | [] => throw (syntaxError "Empty command")

end Commands

/-! ## 6. Numbers -/

/-- The digits of a number have its value. -/
theorem digitsValue_natText (n : Nat) : digitsValue (natText n) = n := by
  have hdigits : ∀ l : List Char, (∀ c ∈ l, (UInt8.ofNat c.toNat).toNat = c.toNat) → ∀ init,
      (l.map fun c => UInt8.ofNat c.toNat).foldl (fun n b => 10 * n + (b.toNat - 48)) init =
        Nat.ofDigitChars 10 l init := by
    intro l h
    induction l with
    | nil => exact fun _ => rfl
    | cons c l ih =>
      intro init
      rw [List.map_cons, List.foldl_cons, h c List.mem_cons_self, Nat.ofDigitChars_cons]
      exact ih (fun d hd => h d (List.mem_cons_of_mem c hd)) _
  rw [digitsValue, natText, hdigits _ (fun c hc => (toNat_digit hc).1),
    Nat.ofDigitChars_ten_toDigits]

/-- A number is read back, if it is an `int`. -/
theorem parseInt_natText (n : Nat) : parseInt (natText n) =
    if 2 ^ 31 ≤ n then
      .error (makeError .kCommandInvalidArgument
        ("Failed to parse integer: " ++ textOf (natText n)))
    else .ok (n : Int) := by
  have hdigit : ∀ b ∈ natText n, isDigit b = true := fun b hb => isDigitByte_natText hb
  have hall : (natText n).takeWhile isDigit = natText n :=
    List.takeWhile_eq_self_iff.mpr hdigit
  have hnone : (natText n).dropWhile isDigit = [] := List.dropWhile_eq_nil_iff.mpr hdigit
  obtain ⟨b, l, hcons⟩ : ∃ b l, natText n = b :: l := List.exists_cons_of_ne_nil (natText_ne_nil n)
  have hb : isDigit b = true := hdigit b (hcons ▸ List.mem_cons_self)
  have hspace : (natText n).dropWhile isSpace = natText n := by
    rw [hcons, List.dropWhile_cons_of_neg]
    simp only [isDigit, isSpace, Bool.and_eq_true, decide_eq_true_eq, Bool.or_eq_true,
      UInt8.le_iff_toNat_le, ← UInt8.toNat_inj] at hb ⊢
    have h48 : (48 : UInt8).toNat = 48 := rfl
    have h32 : (32 : UInt8).toNat = 32 := rfl
    have h13 : (13 : UInt8).toNat = 13 := rfl
    omega
  have hsign : b ≠ 45 ∧ b ≠ 43 := by
    constructor <;> rintro rfl <;> exact absurd hb (by decide)
  unfold parseInt
  rw [hspace]
  split
  rename_i negative text heq
  obtain ⟨rfl, rfl⟩ : negative = false ∧ text = natText n := by
    split at heq
    · rename_i rest htext
      exact absurd (List.cons.inj (hcons.symm.trans htext)).1 hsign.1
    · rename_i rest htext
      exact absurd (List.cons.inj (hcons.symm.trans htext)).1 hsign.2
    · cases heq
      exact ⟨rfl, rfl⟩
  simp only [hall, hnone, digitsValue_natText, natText_ne_nil, ne_eq, not_true_eq_false, if_false,
    Bool.false_eq_true, false_or]
  split
  · rename_i h
    rw [if_pos (by omega)]
  · rename_i h
    rw [if_neg (by omega)]

/-! ## 7. The words of a line -/

/-- A blank at the front makes no word. -/
theorem split_cons_blank (l : Bytes) : split (32 :: l) 32 = split l 32 := by
  have h := List.splitOn_append_cons_self (a := (32 : UInt8)) [] l
  rw [List.nil_append, List.splitOn_nil] at h
  simp [split, h]

/-- Nor does one at the end. -/
theorem split_append_blank (l : Bytes) : split (l ++ [32]) 32 = split l 32 := by
  have h := List.splitOn_append_cons_self (a := (32 : UInt8)) l []
  rw [List.splitOn_nil] at h
  simp [split, h]

/-- **Trimming loses no word** of a line whose only white space is the blank. -/
theorem split_trim {l : Bytes} (h : ∀ b ∈ l, isSpace b = true → b = 32) :
    split (trim l) 32 = split l 32 := by
  have hfront : ∀ l : Bytes, (∀ b ∈ l, isSpace b = true → b = 32) →
      split (l.dropWhile isSpace) 32 = split l 32 := by
    intro l h
    induction l with
    | nil => rfl
    | cons b l ih =>
      rw [List.dropWhile_cons]
      split
      · rename_i hb
        rw [h b List.mem_cons_self hb, split_cons_blank]
        exact ih fun b hb => h b (List.mem_cons_of_mem _ hb)
      · rfl
  have hback : ∀ l : Bytes, (∀ b ∈ l, isSpace b = true → b = 32) →
      split (l.reverse.dropWhile isSpace).reverse 32 = split l 32 := by
    intro l h
    induction l using List.reverseRecOn with
    | nil => rfl
    | append_singleton l b ih =>
      rw [List.reverse_append, List.reverse_singleton, List.singleton_append, List.dropWhile_cons]
      split
      · rename_i hb
        rw [h b (by simp) hb, split_append_blank]
        exact ih fun b hb => h b (List.mem_append_left _ hb)
      · rw [List.reverse_cons, List.reverse_reverse]
  rw [trim, hback _ fun b hb => h b ((List.dropWhile_sublist _).mem hb), hfront l h]

/-- What may stand between two blanks. -/
def IsWord (word : Bytes) : Prop := ∀ b ∈ word, isSpace b = false ∧ b ≠ 0

/-- The words with one blank between them. -/
def lineOf (words : List Bytes) : Bytes := [32].intercalate words

theorem mem_lineOf {words : List Bytes} {b : UInt8} (h : b ∈ lineOf words) :
    b = 32 ∨ ∃ w ∈ words, b ∈ w := by
  unfold lineOf at h
  induction words with
  | nil => simp at h
  | cons w words ih =>
    cases words with
    | nil =>
      rw [List.intercalate_singleton] at h
      exact .inr ⟨w, List.mem_cons_self, h⟩
    | cons w' words =>
      rw [List.intercalate_cons_cons, List.mem_append, List.mem_append, List.mem_singleton] at h
      rcases h with (h | h) | h
      · exact .inr ⟨w, List.mem_cons_self, h⟩
      · exact .inl h
      · obtain hb | ⟨v, hv, hb⟩ := ih h
        · exact .inl hb
        · exact .inr ⟨v, List.mem_cons_of_mem w hv, hb⟩

/-- A line of words has no white space but blanks, and no NUL. -/
theorem mem_lineOf_words {words : List Bytes} (hw : ∀ w ∈ words, IsWord w) {b : UInt8}
    (h : b ∈ lineOf words) : b ≠ 0 ∧ (isSpace b = true → b = 32) := by
  obtain rfl | ⟨w, hin, hb⟩ := mem_lineOf h
  · exact ⟨by decide, fun _ => rfl⟩
  · obtain ⟨hspace, hnul⟩ := hw w hin b hb
    exact ⟨hnul, fun hs => by rw [hspace] at hs; cases hs⟩

/-- A line that has no end in it is its own first line. -/
theorem rawFirstLine_eq {line : Bytes} (h : ∀ b ∈ line, b ≠ 13 ∧ b ≠ 10) :
    rawFirstLine line = line := by
  unfold rawFirstLine
  rw [List.dropWhile_eq_self_iff.mpr, List.reverse_reverse]
  intro hpos
  have hmem := h _ (List.mem_reverse.mp (List.getElem_mem hpos))
  rw [Bool.not_eq_true, decide_eq_false_iff_not, not_or]
  exact hmem

/-- A line whose only white space is the blank has no end in it. -/
theorem rawFirstLine_of_blanks {line : Bytes}
    (hline : ∀ b ∈ line, b ≠ 0 ∧ (isSpace b = true → b = 32)) : rawFirstLine line = line := by
  refine rawFirstLine_eq fun b hb => ⟨?_, ?_⟩
  · rintro rfl
    exact absurd ((hline _ hb).2 (by decide)) (by decide)
  · rintro rfl
    exact absurd ((hline _ hb).2 (by decide)) (by decide)

/-- Such a line is cut at its blanks. -/
theorem requestTokens_of_blanks {line : Bytes} {tokens : List Bytes}
    (hline : ∀ b ∈ line, b ≠ 0 ∧ (isSpace b = true → b = 32)) (h : split line 32 = tokens)
    (hne : tokens ≠ []) : requestTokens line = .ok tokens := by
  have hempty : line ≠ [] := by
    rintro rfl
    exact hne (h.symm.trans rfl)
  have hsplit : split (trim line) 32 = tokens := by
    rw [split_trim fun b hb => (hline b hb).2, h]
  have hraw := rawFirstLine_of_blanks hline
  unfold rawFirstLine at hraw
  unfold requestTokens
  rw [if_neg hempty, if_neg fun h0 => (hline 0 h0).1 rfl, hraw, if_neg hempty, if_neg]
  · simp only [hsplit, hne, if_false]
  · rintro (hin | hin)
    · exact absurd ((hline _ hin).2 (by decide)) (by decide)
    · exact absurd ((hline _ hin).2 (by decide)) (by decide)

/-- **The words of a line** are those it was made of, without the empty ones. -/
theorem words_line {w : Bytes} {words : List Bytes} (hne : w ≠ [])
    (hw : ∀ v ∈ w :: words, IsWord v) :
    requestTokens (lineOf (w :: words)) = .ok (w :: words.filter fun v => v ≠ []) := by
  have hblank : ∀ v ∈ w :: words, (32 : UInt8) ∉ v := by
    intro v hv hin
    exact absurd (hw v hv 32 hin).1 (by decide)
  refine requestTokens_of_blanks (fun b hb => mem_lineOf_words hw hb) ?_ (List.cons_ne_nil _ _)
  rw [split, lineOf, List.splitOn_intercalate 32 hblank (List.cons_ne_nil _ _), List.filter_cons]
  simp [hne]

end Nvecd.Server
