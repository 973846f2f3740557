/-
  File:      Nvecd/Client/CanonicalForm.lean
  Subject:   what `ParseCommand` reads of a line that it accepts as a write, a query or `AUTH`,
             and the line that says the same in one way.

  * `Decimal` -- what number a token is;
  * `ReadsWords`, `ReadsIntegers` -- which tokens the fields are, and which numbers;
  * `canonicalLine` -- a command as a line; it is read back (`canonical_read`);
  * `Faithful` -- all of that, and that a variant of the line makes no difference;
  * `faithful_iff` -- so it is but for a negated timestamp, and for `AUTH`, which takes everything
    behind the first blank of the line for the password, its own name as well if the blank is in
    front of it.
-/
import Nvecd.Client.Commands
import Nvecd.Server.RequestWords

namespace Nvecd.Client

open Nvecd.Lib Nvecd.Storage Nvecd.Utils Nvecd.Events Nvecd.Vectors Nvecd.Cache Nvecd.Server

/-! ## 1. Numbers -/

/-- **A decimal token and its value**: white space, a sign and digits. -/
def Decimal (token : Bytes) (n : Int) : Prop :=
  ∃ white digits, (∀ b ∈ white, isSpace b = true) ∧ digits ≠ [] ∧
    (∀ b ∈ digits, isDigit b = true) ∧
    ((token = white ++ digits ∨ token = white ++ 43 :: digits) ∧ n = digitsValue digits ∨
      token = white ++ 45 :: digits ∧ n = -(digitsValue digits : Int))

/-- A number other than zero behind a `-`. -/
def NegatedNumber (value : Bytes) : Prop :=
  ∃ digits, value.dropWhile isSpace = 45 :: digits ∧ digitsValue (digits.takeWhile isDigit) ≠ 0

/-- The sign of a token and what is behind it, as `stoi` and `stoull` take them. -/
def signOf (token : Bytes) : Bool × Bytes :=
  match token.dropWhile isSpace with
  | 45 :: rest => (true, rest)
  | 43 :: rest => (false, rest)
  | text => (false, text)

theorem signOf_cases (token : Bytes) :
    ∃ white text, (∀ b ∈ white, isSpace b = true) ∧
      (signOf token = (true, text) ∧ token = white ++ 45 :: text ∧
          token.dropWhile isSpace = 45 :: text ∨
        signOf token = (false, text) ∧ (token = white ++ text ∨ token = white ++ 43 :: text) ∧
          ∀ rest, token.dropWhile isSpace ≠ 45 :: rest) := by
  have hsplit : token = token.takeWhile isSpace ++ token.dropWhile isSpace :=
    List.takeWhile_append_dropWhile.symm
  have hwhite : ∀ b ∈ token.takeWhile isSpace, isSpace b = true :=
    fun b hb => List.mem_takeWhile_imp hb
  unfold signOf
  split
  · rename_i rest htext
    rw [htext] at hsplit
    exact ⟨_, rest, hwhite, .inl ⟨rfl, hsplit, htext⟩⟩
  · rename_i rest htext
    rw [htext] at hsplit
    refine ⟨_, rest, hwhite, .inr ⟨rfl, .inr hsplit, fun other hcon => ?_⟩⟩
    rw [htext] at hcon
    cases hcon
  · rename_i hminus _
    exact ⟨_, token.dropWhile isSpace, hwhite, .inr ⟨rfl, .inl hsplit, hminus⟩⟩

/-- Digits to the end, with the sign in front of them. -/
theorem decimal_of_signOf {token : Bytes} (hdigits : (signOf token).2.takeWhile isDigit ≠ [])
    (hend : (signOf token).2.dropWhile isDigit = []) :
    Decimal token (if (signOf token).1 then
      -(digitsValue ((signOf token).2.takeWhile isDigit) : Int)
      else digitsValue ((signOf token).2.takeWhile isDigit)) := by
  have hall : ∀ b ∈ (signOf token).2, isDigit b = true := List.dropWhile_eq_nil_iff.mp hend
  rw [List.takeWhile_eq_self_iff.mpr hall] at hdigits ⊢
  obtain ⟨white, text, hwhite, ⟨hsign, heq, -⟩ | ⟨hsign, heq, -⟩⟩ := signOf_cases token
  · rw [hsign] at hdigits hall ⊢
    exact ⟨white, text, hwhite, hdigits, hall, .inr ⟨heq, rfl⟩⟩
  · rw [hsign] at hdigits hall ⊢
    exact ⟨white, text, hwhite, hdigits, hall, .inl ⟨heq, rfl⟩⟩

/-- Behind a `-` a decimal token is not positive. -/
theorem decimal_minus {token text : Bytes} {n : Int} (h : Decimal token n)
    (hminus : token.dropWhile isSpace = 45 :: text) : n ≤ 0 := by
  obtain ⟨white, digits, hwhite, hne, hall, ⟨heq, rfl⟩ | ⟨-, rfl⟩⟩ := h
  · exfalso
    have hfront : ∀ l : Bytes, token = white ++ l → (45 :: text) = l.dropWhile isSpace := by
      rintro l rfl
      rw [← hminus, List.dropWhile_append_of_pos hwhite]
    obtain ⟨d, ds, rfl⟩ := List.exists_cons_of_ne_nil hne
    have hd := hall d List.mem_cons_self
    rcases heq with heq | heq
    · have hcons := hfront _ heq
      rw [List.dropWhile_cons] at hcons
      split at hcons
      · rename_i hspace
        simp only [isDigit, isSpace, Bool.and_eq_true, decide_eq_true_eq, Bool.or_eq_true,
          UInt8.le_iff_toNat_le, ← UInt8.toNat_inj] at hd hspace
        have h48 : (48 : UInt8).toNat = 48 := rfl
        have h32 : (32 : UInt8).toNat = 32 := rfl
        have h13 : (13 : UInt8).toNat = 13 := rfl
        omega
      · cases hcons
        exact absurd hd (by decide)
    · cases hfront _ heq
  · omega

/-- **`ParseInt` reads a decimal token** as its value. -/
theorem parseInt_ok {str : Bytes} {value : Int} (h : parseInt str = .ok value) :
    Decimal str value ∧ value < 2 ^ 31 := by
  have hread : parseInt str =
      if (signOf str).2.takeWhile isDigit = [] ∨
          (if (signOf str).1 then -(digitsValue ((signOf str).2.takeWhile isDigit) : Int)
            else digitsValue ((signOf str).2.takeWhile isDigit)) < -(2 ^ 31) ∨
          2 ^ 31 ≤ (if (signOf str).1 then -(digitsValue ((signOf str).2.takeWhile isDigit) : Int)
            else digitsValue ((signOf str).2.takeWhile isDigit)) then
        .error (makeError .kCommandInvalidArgument ("Failed to parse integer: " ++ textOf str))
      else if (signOf str).2.dropWhile isDigit ≠ [] then
        .error (makeError .kCommandInvalidArgument ("Invalid integer: " ++ textOf str))
      else .ok (if (signOf str).1 then -(digitsValue ((signOf str).2.takeWhile isDigit) : Int)
            else digitsValue ((signOf str).2.takeWhile isDigit)) := rfl
  rw [hread] at h
  by_cases hrange : (signOf str).2.takeWhile isDigit = [] ∨
      (if (signOf str).1 then -(digitsValue ((signOf str).2.takeWhile isDigit) : Int)
        else digitsValue ((signOf str).2.takeWhile isDigit)) < -(2 ^ 31) ∨
      2 ^ 31 ≤ (if (signOf str).1 then -(digitsValue ((signOf str).2.takeWhile isDigit) : Int)
        else digitsValue ((signOf str).2.takeWhile isDigit))
  · rw [if_pos hrange] at h
    cases h
  · rw [if_neg hrange] at h
    by_cases hend : (signOf str).2.dropWhile isDigit = []
    · rw [if_neg (not_not_intro hend)] at h
      cases h
      rw [not_or, not_or, not_le] at hrange
      exact ⟨decimal_of_signOf hrange.1 hend, hrange.2.2⟩
    · rw [if_pos hend] at h
      cases h

theorem parseEventScore_ok {str : Bytes} {score : Int} (h : parseEventScore str = .ok score) :
    Decimal str score ∧ 0 ≤ score ∧ score ≤ 100 := by
  unfold parseEventScore at h
  obtain ⟨value, hint, h⟩ := bind_ok h
  dsimp only at h
  split at h
  · cases h
  · rename_i hrange
    cases h
    unfold kMinEventScore kMaxEventScore at hrange
    exact ⟨(parseInt_ok hint).1, by omega, by omega⟩

theorem parseTopK_ok {str : Bytes} {maxTopK : Nat} {topK : Int}
    (h : parseTopK str maxTopK = .ok topK) :
    Decimal str topK ∧ topK < 2 ^ 31 ∧ 0 < topK ∧ (0 < maxTopK → topK ≤ maxTopK) := by
  unfold parseTopK at h
  obtain ⟨value, hint, h⟩ := bind_ok h
  dsimp only at h
  split at h
  · cases h
  · rename_i hpos
    split at h
    · cases h
    · rename_i hmax
      cases h
      exact ⟨(parseInt_ok hint).1, (parseInt_ok hint).2, by omega, by omega⟩

/-- A timestamp is what its digits say, or that modulo `2 ^ 64` with the sign turned. -/
theorem parseTimestamp_ok {str : Bytes} {t : UInt64} (h : parseTimestamp str = .ok t) :
    ∃ value, afterText kTimestampText str = some value ∧
      (Decimal value t.toNat ↔ ¬ NegatedNumber value) := by
  unfold parseTimestamp at h
  cases hvalue : afterText kTimestampText str with
  | none =>
    rw [hvalue] at h
    cases h
  | some value =>
    rw [hvalue] at h
    have hread : (if (signOf value).2.takeWhile isDigit = [] ∨
          2 ^ 64 ≤ digitsValue ((signOf value).2.takeWhile isDigit) then
        .error (makeError .kCommandInvalidArgument ("Failed to parse timestamp: " ++ textOf value))
      else if (signOf value).2.dropWhile isDigit ≠ [] then
        .error (makeError .kCommandInvalidArgument ("Invalid timestamp value: " ++ textOf value))
      else .ok (if (signOf value).1 then
        -UInt64.ofNat (digitsValue ((signOf value).2.takeWhile isDigit))
        else UInt64.ofNat (digitsValue ((signOf value).2.takeWhile isDigit)))) =
      (.ok t : Except Error UInt64) := h
    clear h
    refine ⟨value, rfl, ?_⟩
    split at hread
    · cases hread
    · rename_i hrange
      rw [not_or, Nat.not_le] at hrange
      split at hread
      · cases hread
      · rename_i hend
        rw [not_not] at hend
        have hdecimal := decimal_of_signOf hrange.1 hend
        obtain ⟨white, text, hwhite, ⟨hsign, heq, hminus⟩ | ⟨hsign, heq, hplus⟩⟩ :=
          signOf_cases value
        · rw [hsign] at hread hdecimal hrange
          dsimp only at hread hdecimal hrange
          rw [if_pos rfl] at hread hdecimal
          obtain rfl := Except.ok.inj hread
          have hbound := hrange.2
          generalize hd : digitsValue (text.takeWhile isDigit) = d at hbound hdecimal
          have hneg : NegatedNumber value ↔ d ≠ 0 := by
            constructor
            · rintro ⟨digits, hdigits, hne⟩
              rw [hminus] at hdigits
              cases hdigits
              exact hd ▸ hne
            · exact fun hne => ⟨text, hminus, hd.symm ▸ hne⟩
          rw [hneg, not_not]
          constructor
          · intro hn
            have hle := decimal_minus hn hminus
            have hsize : UInt64.size = 2 ^ 64 := rfl
            rw [UInt64.toNat_neg, UInt64.toNat_ofNat', hsize] at hle
            omega
          · rintro rfl
            exact hdecimal
        · rw [hsign] at hread hdecimal hrange
          dsimp only at hread hdecimal hrange
          rw [if_neg (by decide)] at hread hdecimal
          obtain rfl := Except.ok.inj hread
          refine iff_of_true ?_ ?_
          · rwa [UInt64.toNat_ofNat', Nat.mod_eq_of_lt hrange.2]
          · rintro ⟨digits, hdigits, -⟩
            exact hplus _ hdigits

/-! ## 2. The lines that are read -/

/-- The writes, the queries and `AUTH`. -/
def DataRequest : Request → Prop
  | .auth _ | .write _ | .sim _ | .simv _ => True
  | _ => False

/-- What the last of the options of this name says. -/
def lastOption (text : Bytes) (options : List Bytes) (start : Bytes) : Bytes :=
  options.foldl (fun value token => (afterText text token).getD value) start

/-- The words behind the last argument of an event. -/
inductive TimestampRead : List Bytes → Option UInt64 → Prop
  | none : TimestampRead [] none
  | some {word : Bytes} {t : UInt64} : parseTimestamp word = .ok t → TimestampRead [word] (some t)

/-- The floats of a vector. -/
def FloatsRead (stof : Bytes → Option UInt32) : List Bytes → List UInt32 → Prop :=
  List.Forall₂ fun word x => stof word = some x

/-- **The lines that are accepted**, by their words, and what is read of them. -/
inductive Grammar (stof : Bytes → Option UInt32) (maxTopK : Nat) : List Bytes → Request → Prop
  | scored {name ctx type id score : Bytes} {options : List Bytes} {t : EventType} {s : Int}
      {timestamp : Option UInt64} :
      toUpper name = ascii "EVENT" → typeText t = some (toUpper type) → t ≠ .DEL →
      parseEventScore score = .ok s → TimestampRead options timestamp →
      Grammar stof maxTopK (name :: ctx :: type :: id :: score :: options)
        (.write { type := .kEvent, ctx := ctx, id := id, eventType := t, score := s
                  timestamp := timestamp })
  | deletion {name ctx type id : Bytes} {options : List Bytes} {timestamp : Option UInt64} :
      toUpper name = ascii "EVENT" → toUpper type = ascii "DEL" →
      TimestampRead options timestamp →
      Grammar stof maxTopK (name :: ctx :: type :: id :: options)
        (.write { type := .kEvent, ctx := ctx, id := id, eventType := .DEL
                  timestamp := timestamp })
  | vecset {name id : Bytes} {floats : List Bytes} {vector : List UInt32} :
      toUpper name = ascii "VECSET" → FloatsRead stof floats vector → vector ≠ [] →
      Grammar stof maxTopK (name :: id :: floats)
        (.write { type := .kVecset, id := id, dimension := vector.length, vector := vector })
  | vecdel {name id : Bytes} : toUpper name = ascii "VECDEL" →
      Grammar stof maxTopK [name, id] (.write { type := .kVecdel, id := id })
  | metaset {name id expr : Bytes} : toUpper name = ascii "METASET" →
      Grammar stof maxTopK [name, id, expr]
        (.write { type := .kMetaset, id := id, filterExpr := expr })
  | sim {name count : Bytes} {options : List Bytes} {cmd : SimCommand} :
      toUpper name = ascii "SIM" → parseTopK count maxTopK = .ok cmd.topK →
      cmd.filterExpr = lastOption kFilterText options [] → isFiniteFloat cmd.minScore = true →
      Grammar stof maxTopK (name :: cmd.id :: count :: options) (.sim cmd)
  | simv {name count : Bytes} {options floats : List Bytes} {cmd : SimvCommand} :
      toUpper name = ascii "SIMV" → parseTopK count maxTopK = .ok cmd.topK →
      cmd.filterExpr = lastOption kFilterText options [] → isFiniteFloat cmd.minScore = true →
      FloatsRead stof floats cmd.vector → cmd.vector ≠ [] →
      Grammar stof maxTopK (name :: count :: (options ++ floats)) (.simv cmd)

section Grammar

variable {stof : Bytes → Option UInt32} {takesPart : Bytes → Bool} {maxTopK : Nat}

theorem optionalTimestamp_ok {cmd cmd' : Command} {options : List Bytes}
    (hlen : ¬ 1 < options.length) (h : optionalTimestamp cmd options = .ok cmd') :
    (cmd.timestamp = none → TimestampRead options cmd'.timestamp) ∧
      cmd' = { cmd with timestamp := cmd'.timestamp } := by
  match options, hlen with
  | [], _ =>
    cases h
    refine ⟨fun hnone => ?_, rfl⟩
    rw [hnone]
    exact .none
  | [word], _ =>
    obtain ⟨t, ht, heq⟩ := bind_ok h
    cases heq
    exact ⟨fun _ => .some ht, rfl⟩
  | _ :: _ :: _, hlen => exact absurd (by simp) hlen

theorem parseScoredEvent_ok {ctx : Bytes} {t : EventType} {name : String} {rest : List Bytes}
    {cmd : Command} (h : parseScoredEvent ctx t name rest = .ok cmd) :
    ∃ id score options s timestamp, rest = id :: score :: options ∧
      parseEventScore score = .ok s ∧ TimestampRead options timestamp ∧
      cmd = { type := .kEvent, ctx := ctx, id := id, eventType := t, score := s
              timestamp := timestamp } := by
  unfold parseScoredEvent at h
  split at h
  · rename_i id score options
    dsimp only at h
    split at h
    · cases h
    · rename_i hlen
      obtain ⟨s, hs, h⟩ := bind_ok h
      obtain ⟨hread, hcmd⟩ := optionalTimestamp_ok hlen h
      exact ⟨id, score, options, s, cmd.timestamp, rfl, hs, hread rfl, hcmd⟩
  · cases h

theorem parseEvent_ok {arguments : List Bytes} {cmd : Command} {name : Bytes}
    (hname : toUpper name = ascii "EVENT") (h : parseEvent arguments = .ok cmd) :
    Grammar stof maxTopK (name :: arguments) (.write cmd) := by
  unfold parseEvent at h
  split at h
  · rename_i ctx type id rest
    split at h
    · rename_i hadd
      obtain ⟨id', score, options, s, timestamp, heq, hs, htime, rfl⟩ := parseScoredEvent_ok h
      cases heq
      exact .scored hname (congrArg some hadd.symm) (by decide) hs htime
    · split at h
      · rename_i hset
        obtain ⟨id', score, options, s, timestamp, heq, hs, htime, rfl⟩ := parseScoredEvent_ok h
        cases heq
        exact .scored hname (congrArg some hset.symm) (by decide) hs htime
      · split at h
        · rename_i hdel
          split at h
          · cases h
          · rename_i hlen
            obtain ⟨hread, hcmd⟩ := optionalTimestamp_ok hlen h
            rw [hcmd]
            exact .deletion hname hdel (hread rfl)
        · cases h
  · cases h

theorem mapM_parseFloat_ok {words : List Bytes} {vector : List UInt32}
    (h : words.mapM (parseFloat stof takesPart) = .ok vector) : FloatsRead stof words vector := by
  induction words generalizing vector with
  | nil =>
    cases h
    exact .nil
  | cons word words ih =>
    rw [List.mapM_cons] at h
    obtain ⟨x, hx, h⟩ := bind_ok h
    obtain ⟨xs, hxs, h⟩ := bind_ok h
    cases h
    refine .cons ?_ (ih hxs)
    unfold parseFloat at hx
    split at hx
    · rename_i hword
      cases hx
      exact hword
    · cases hx

theorem parseVecset_ok {arguments : List Bytes} {cmd : Command} {name : Bytes}
    (hname : toUpper name = ascii "VECSET")
    (h : parseVecset stof takesPart arguments = .ok cmd) :
    Grammar stof maxTopK (name :: arguments) (.write cmd) := by
  unfold parseVecset at h
  split at h
  · rename_i id float floats
    obtain ⟨vector, hvector, h⟩ := bind_ok h
    cases h
    have hread := mapM_parseFloat_ok hvector
    refine .vecset hname hread ?_
    rintro rfl
    cases hread
  · cases h

/-- A word of another option is none of this one. -/
theorem afterText_other {text text' token rest : Bytes} {b c : UInt8} {l l' : Bytes}
    (h : afterText text token = some rest) (htext : text = b :: l) (htext' : text' = c :: l')
    (hne : c ≠ b) : afterText text' token = none := by
  unfold afterText at h ⊢
  split at h
  · rename_i hpre
    rw [htext, List.isPrefixOf_iff_prefix] at hpre
    obtain ⟨t, rfl⟩ := hpre
    rw [if_neg]
    rw [htext', List.isPrefixOf_iff_prefix, List.cons_append]
    intro hcon
    exact hne (List.cons_prefix_cons.mp hcon).1
  · cases h

theorem parseFloat_ok {word : Bytes} {x : UInt32} (h : parseFloat stof takesPart word = .ok x) :
    stof word = some x := by
  unfold parseFloat at h
  split at h
  · rename_i hword
    cases h
    exact hword
  · cases h

/-- What an option of `SIM` changes. -/
theorem simOption_ok {cmd cmd' : SimCommand} {token : Bytes}
    (hfinite : ∀ word x, stof word = some x → isFiniteFloat x = true)
    (h : simOption stof takesPart cmd token = .ok cmd') :
    cmd'.id = cmd.id ∧ cmd'.topK = cmd.topK ∧
      cmd'.filterExpr = (afterText kFilterText token).getD cmd.filterExpr ∧
      (isFiniteFloat cmd.minScore = true → isFiniteFloat cmd'.minScore = true) := by
  unfold simOption at h
  split at h
  · rename_i husing
    have hfilter : afterText kFilterText token = none :=
      afterText_other husing rfl rfl (by decide)
    rw [hfilter]
    split at h
    · cases h
      exact ⟨rfl, rfl, rfl, id⟩
    · split at h
      · cases h
        exact ⟨rfl, rfl, rfl, id⟩
      · split at h
        · cases h
          exact ⟨rfl, rfl, rfl, id⟩
        · cases h
  · rename_i hadaptive
    have hfilter : afterText kFilterText token = none :=
      afterText_other hadaptive rfl rfl (by decide)
    rw [hfilter]
    split at h
    · cases h
      exact ⟨rfl, rfl, rfl, id⟩
    · split at h
      · cases h
        exact ⟨rfl, rfl, rfl, id⟩
      · cases h
  · rename_i hfilter
    rw [hfilter]
    cases h
    exact ⟨rfl, rfl, rfl, id⟩
  · rename_i hfilter _
    rw [hfilter]
    obtain ⟨x, hx, h⟩ := bind_ok h
    cases h
    exact ⟨rfl, rfl, rfl, fun _ => hfinite _ _ (parseFloat_ok hx)⟩
  · split at h
    · cases h
    · split at h <;> cases h

theorem simOptions_ok {options : List Bytes} {cmd cmd' : SimCommand}
    (hfinite : ∀ word x, stof word = some x → isFiniteFloat x = true)
    (h : options.foldlM (simOption stof takesPart) cmd = .ok cmd') :
    cmd'.id = cmd.id ∧ cmd'.topK = cmd.topK ∧
      cmd'.filterExpr = lastOption kFilterText options cmd.filterExpr ∧
      (isFiniteFloat cmd.minScore = true → isFiniteFloat cmd'.minScore = true) := by
  induction options generalizing cmd with
  | nil =>
    cases h
    exact ⟨rfl, rfl, rfl, id⟩
  | cons token options ih =>
    rw [List.foldlM_cons] at h
    obtain ⟨mid, hmid, h⟩ := bind_ok h
    obtain ⟨hid, hk, hfilter, hscore⟩ := simOption_ok hfinite hmid
    obtain ⟨hid', hk', hfilter', hscore'⟩ := ih h
    refine ⟨hid'.trans hid, hk'.trans hk, ?_, hscore' ∘ hscore⟩
    rw [hfilter', hfilter]
    rfl

theorem parseSim_ok {arguments : List Bytes} {cmd : SimCommand} {name : Bytes}
    (hfinite : ∀ word x, stof word = some x → isFiniteFloat x = true)
    (hname : toUpper name = ascii "SIM")
    (h : parseSim stof takesPart maxTopK arguments = .ok cmd) :
    Grammar stof maxTopK (name :: arguments) (.sim cmd) := by
  unfold parseSim at h
  split at h
  · rename_i id count options
    obtain ⟨k, hk, h⟩ := bind_ok h
    obtain ⟨hid, htopK, hfilter, hscore⟩ := simOptions_ok hfinite h
    dsimp only at hid htopK hfilter hscore
    rw [← htopK] at hk
    rw [← hid]
    exact .sim hname hk hfilter (hscore (by decide))
  · cases h

/-- The options of `SIMV` and the rest. -/
theorem simvOptions_ok {tokens floats : List Bytes} {cmd cmd' : SimvCommand}
    (hfinite : ∀ word x, stof word = some x → isFiniteFloat x = true)
    (h : simvOptions stof takesPart cmd tokens = .ok (cmd', floats)) :
    ∃ options, tokens = options ++ floats ∧ cmd'.topK = cmd.topK ∧
      cmd'.filterExpr = lastOption kFilterText options cmd.filterExpr ∧
      (isFiniteFloat cmd.minScore = true → isFiniteFloat cmd'.minScore = true) := by
  induction tokens generalizing cmd with
  | nil =>
    cases h
    exact ⟨[], rfl, rfl, rfl, id⟩
  | cons token tokens ih =>
    unfold simvOptions at h
    split at h
    · cases h
      exact ⟨[], rfl, rfl, rfl, id⟩
    · split at h
      · rename_i hfilter
        obtain ⟨options, rfl, hk, hexpr, hscore⟩ := ih h
        refine ⟨token :: options, rfl, hk, ?_, hscore⟩
        rw [hexpr]
        unfold lastOption
        rw [List.foldl_cons, hfilter]
        rfl
      · rename_i score hfilter _
        split at h
        · cases h
        · rename_i x hx
          obtain ⟨options, rfl, hk, hexpr, hscore⟩ := ih h
          refine ⟨token :: options, rfl, hk, ?_, fun _ => hscore (hfinite _ _ (parseFloat_ok hx))⟩
          rw [hexpr]
          unfold lastOption
          rw [List.foldl_cons, hfilter]
          rfl
      · split at h
        · cases h
        · split at h <;> cases h

theorem parseSimv_ok {arguments : List Bytes} {cmd : SimvCommand} {name : Bytes}
    (hfinite : ∀ word x, stof word = some x → isFiniteFloat x = true)
    (hname : toUpper name = ascii "SIMV")
    (h : parseSimv stof takesPart maxTopK arguments = .ok cmd) :
    Grammar stof maxTopK (name :: arguments) (.simv cmd) := by
  unfold parseSimv at h
  split at h
  · rename_i count token tokens
    obtain ⟨k, hk, h⟩ := bind_ok h
    obtain ⟨⟨mid, floats⟩, hmid, h⟩ := bind_ok h
    obtain ⟨vector, hvector, h⟩ := bind_ok h
    obtain ⟨options, heq, htopK, hfilter, hscore⟩ := simvOptions_ok hfinite hmid
    dsimp only at hvector h htopK
    split at h
    · cases h
    · rename_i hne
      cases h
      rw [heq]
      have hzero : isFiniteFloat 0 = true := by decide
      refine .simv hname ?_ hfilter (hscore hzero) (mapM_parseFloat_ok hvector) hne
      rw [htopK]
      exact hk
  · cases h

theorem parseAdmin_other {name : Bytes} {arguments : List Bytes} {r : Request}
    (h : parseAdmin name arguments = .ok r) : ¬ DataRequest r := by
  unfold parseAdmin parseConfig parseDump parseDebug parseCache parseSet parseGet parseShow at h
  repeat' split at h
  all_goals cases h
  all_goals exact id

/-- **What is accepted is of the grammar**, unless it is `AUTH`. -/
theorem grammar_of_parse {request name : Bytes} {arguments : List Bytes} {r : Request}
    (hfinite : ∀ word x, stof word = some x → isFiniteFloat x = true)
    (htokens : requestTokens request = .ok (name :: arguments))
    (hauth : toUpper name ≠ ascii "AUTH")
    (h : parseCommand stof takesPart request maxTopK = .ok r) (hdata : DataRequest r) :
    Grammar stof maxTopK (name :: arguments) r := by
  have hmap : ∀ {α : Type} {x : Except Error α} {f : α → Request},
      x.map f = .ok r → ∃ a, x = .ok a ∧ r = f a := by
    intro α x f hx
    cases x with
    | error e => cases hx
    | ok a =>
      cases hx
      exact ⟨a, rfl, rfl⟩
  rw [parseCommand_of_tokens htokens] at h
  unfold parseWords at h
  rw [if_neg hauth] at h
  split at h
  · rename_i hname
    obtain ⟨cmd, hcmd, rfl⟩ := hmap h
    exact parseEvent_ok hname hcmd
  split at h
  · rename_i hname
    obtain ⟨cmd, hcmd, rfl⟩ := hmap h
    exact parseVecset_ok hname hcmd
  split at h
  · rename_i hname
    obtain ⟨cmd, hcmd, rfl⟩ := hmap h
    unfold parseVecdel at hcmd
    split at hcmd
    · cases hcmd
      exact .vecdel hname
    · cases hcmd
  split at h
  · rename_i hname
    obtain ⟨cmd, hcmd, rfl⟩ := hmap h
    unfold parseMetaset at hcmd
    split at hcmd
    · cases hcmd
      exact .metaset hname
    · cases hcmd
  split at h
  · rename_i hname
    obtain ⟨cmd, hcmd, rfl⟩ := hmap h
    exact parseSim_ok hfinite hname hcmd
  split at h
  · rename_i hname
    obtain ⟨cmd, hcmd, rfl⟩ := hmap h
    exact parseSimv_ok hfinite hname hcmd
  · exact absurd hdata (parseAdmin_other h)

end Grammar

/-! ## 3. Fields and tokens -/

/-- The option of an event: the word behind its score, or behind its id. -/
def timestampWord : List Bytes → Option Bytes
  | _ :: _ :: type :: _ :: rest => if toUpper type = ascii "DEL" then rest[0]? else rest[1]?
  | _ => none

/-- An event whose timestamp is a number with the sign turned. -/
def NegatedTimestamp (tokens : List Bytes) : Prop :=
  toUpper (tokens.headD []) = ascii "EVENT" ∧ ∃ word value, timestampWord tokens = some word ∧
    afterText kTimestampText word = some value ∧ NegatedNumber value

/-- **The fields are tokens of the line.** The password is what is behind its keyword and the
    blank there. -/
def ReadsWords (stof : Bytes → Option UInt32) (line : Bytes) (tokens : List Bytes) :
    Request → Prop
  | .auth password =>
    ∃ white name separator, line = white ++ name ++ separator :: password ∧
      (∀ b ∈ white, isSpace b = true) ∧ toUpper name = ascii "AUTH"
  | .write cmd =>
    match cmd.type with
    | .kEvent =>
      ∃ name type rest, tokens = name :: cmd.ctx :: type :: cmd.id :: rest ∧
        toUpper name = ascii "EVENT" ∧ typeText cmd.eventType = some (toUpper type)
    | .kVecset =>
      ∃ name floats, tokens = name :: cmd.id :: floats ∧ toUpper name = ascii "VECSET" ∧
        FloatsRead stof floats cmd.vector
    | .kVecdel => ∃ name, tokens = [name, cmd.id] ∧ toUpper name = ascii "VECDEL"
    | .kMetaset =>
      ∃ name, tokens = [name, cmd.id, cmd.filterExpr] ∧ toUpper name = ascii "METASET"
    | _ => False
  | .sim cmd =>
    ∃ name count options, tokens = name :: cmd.id :: count :: options ∧
      toUpper name = ascii "SIM" ∧ cmd.filterExpr = lastOption kFilterText options []
  | .simv cmd =>
    ∃ name count options floats, tokens = name :: count :: (options ++ floats) ∧
      toUpper name = ascii "SIMV" ∧ cmd.filterExpr = lastOption kFilterText options [] ∧
      FloatsRead stof floats cmd.vector
  | _ => False

/-- **The numbers are those of their tokens.** -/
def ReadsIntegers (tokens : List Bytes) : Request → Prop
  | .write cmd => cmd.type = .kEvent →
    (cmd.eventType ≠ .DEL → ∃ word, tokens[4]? = some word ∧ Decimal word cmd.score) ∧
      Option.Rel (fun word t => ∃ value, afterText kTimestampText word = some value ∧
        Decimal value (UInt64.toNat t)) (timestampWord tokens) cmd.timestamp
  | .sim cmd => ∃ word, tokens[2]? = some word ∧ Decimal word cmd.topK
  | .simv cmd => ∃ word, tokens[1]? = some word ∧ Decimal word cmd.topK
  | _ => True

section Fields

variable {stof : Bytes → Option UInt32} {maxTopK : Nat} {tokens : List Bytes} {r : Request}

theorem grammar_words (line : Bytes) (h : Grammar stof maxTopK tokens r) :
    ReadsWords stof line tokens r := by
  cases h with
  | scored hname htype => exact ⟨_, _, _, rfl, hname, htype⟩
  | deletion hname htype => exact ⟨_, _, _, rfl, hname, congrArg some htype.symm⟩
  | vecset hname hfloats => exact ⟨_, _, rfl, hname, hfloats⟩
  | vecdel hname => exact ⟨_, rfl, hname⟩
  | metaset hname => exact ⟨_, rfl, hname⟩
  | sim hname _ hfilter => exact ⟨_, _, _, rfl, hname, hfilter⟩
  | simv hname _ hfilter _ hfloats => exact ⟨_, _, _, _, rfl, hname, hfilter, hfloats⟩

/-- A timestamp is its number, or that is negated. -/
theorem timestamp_reads_iff {options : List Bytes} {timestamp : Option UInt64}
    (h : TimestampRead options timestamp) :
    Option.Rel (fun word t => ∃ value, afterText kTimestampText word = some value ∧
        Decimal value (UInt64.toNat t)) options[0]? timestamp ↔
      ¬ ∃ word value, options[0]? = some word ∧ afterText kTimestampText word = some value ∧
        NegatedNumber value := by
  cases h with
  | none =>
    refine iff_of_true .none ?_
    rintro ⟨word, value, hcon, -⟩
    cases hcon
  | @some word t ht =>
    obtain ⟨value, hvalue, hiff⟩ := parseTimestamp_ok ht
    constructor
    · rintro (⟨value', hvalue', hdecimal⟩ | _) ⟨word', value'', hword, hvalue'', hneg⟩
      cases hword
      rw [hvalue] at hvalue' hvalue''
      cases hvalue'
      cases hvalue''
      exact hiff.mp hdecimal hneg
    · intro hno
      refine .some ⟨value, hvalue, hiff.mpr fun hneg => hno ⟨word, value, rfl, hvalue, hneg⟩⟩

/-- **The numbers are those of their tokens**, but a negated timestamp. -/
theorem grammar_integers_iff (h : Grammar stof maxTopK tokens r) :
    ReadsIntegers tokens r ↔ ¬ NegatedTimestamp tokens := by
  have hother : toUpper (tokens.headD []) ≠ ascii "EVENT" → ¬ NegatedTimestamp tokens :=
    fun hne hcon => hne hcon.1
  cases h with
  | @scored name ctx type id score options t s timestamp hname htype hdel hscore htime =>
    have hword : timestampWord (name :: ctx :: type :: id :: score :: options) = options[0]? := by
      refine if_neg fun hcon => hdel ?_
      rw [hcon] at htype
      cases t with
      | ADD => cases htype
      | SET => cases htype
      | DEL => rfl
      | unnamed raw hraw => cases htype
    unfold ReadsIntegers NegatedTimestamp
    rw [hword]
    have htime := timestamp_reads_iff htime
    constructor
    · rintro hread ⟨-, hneg⟩
      exact htime.mp (hread rfl).2 hneg
    · intro hno _
      exact ⟨fun _ => ⟨score, rfl, (parseEventScore_ok hscore).1⟩,
        htime.mpr fun hneg => hno ⟨hname, hneg⟩⟩
  | @deletion name ctx type id options timestamp hname htype htime =>
    have hword : timestampWord (name :: ctx :: type :: id :: options) = options[0]? :=
      if_pos htype
    unfold ReadsIntegers NegatedTimestamp
    rw [hword]
    have htime := timestamp_reads_iff htime
    constructor
    · rintro hread ⟨-, hneg⟩
      exact htime.mp (hread rfl).2 hneg
    · intro hno _
      exact ⟨fun hcon => absurd rfl hcon, htime.mpr fun hneg => hno ⟨hname, hneg⟩⟩
  | vecset hname =>
    exact iff_of_true (fun hcon => by cases hcon) (hother (by rw [List.headD_cons, hname]; decide))
  | vecdel hname =>
    exact iff_of_true (fun hcon => by cases hcon) (hother (by rw [List.headD_cons, hname]; decide))
  | metaset hname =>
    exact iff_of_true (fun hcon => by cases hcon) (hother (by rw [List.headD_cons, hname]; decide))
  | sim hname hk =>
    exact iff_of_true ⟨_, rfl, (parseTopK_ok hk).1⟩
      (hother (by rw [List.headD_cons, hname]; decide))
  | simv hname hk =>
    exact iff_of_true ⟨_, rfl, (parseTopK_ok hk).1⟩
      (hother (by rw [List.headD_cons, hname]; decide))

end Fields

/-! ## 4. The canonical form -/

section Canonical

variable (formatFloat : UInt32 → Bytes)

def timestampOption : Option UInt64 → List Bytes
  | some t => [kTimestampText ++ natText t.toNat]
  | none => []

/-- The words of a command, in the order in which a client sends them. -/
def canonicalWords : Request → List Bytes
  | .write cmd =>
    match cmd.type with
    | .kEvent =>
      [ascii "EVENT", cmd.ctx, (typeText cmd.eventType).getD [], cmd.id] ++
        (if cmd.eventType = .DEL then [] else [intText cmd.score]) ++
        timestampOption cmd.timestamp
    | .kVecset => [ascii "VECSET", cmd.id] ++ cmd.vector.map formatFloat
    | .kVecdel => [ascii "VECDEL", cmd.id]
    | .kMetaset => [ascii "METASET", cmd.id, cmd.filterExpr]
    | _ => []
  | .sim cmd =>
    [ascii "SIM", cmd.id, intText cmd.topK] ++
      simOptions formatFloat cmd.mode.text
        { filter := cmd.filterExpr, minScore := some cmd.minScore, adaptive := cmd.adaptive }
  | .simv cmd =>
    [ascii "SIMV", intText cmd.topK] ++
      (searchOptions formatFloat { filter := cmd.filterExpr, minScore := some cmd.minScore } ++
        cmd.vector.map formatFloat)
  | _ => []

/-- **The line that says the same in one way.** -/
def canonicalLine : Request → Bytes
  | .auth password => ascii "AUTH " ++ password
  | r => lineOf (canonicalWords formatFloat r)

end Canonical

section Written

variable {formatFloat : UInt32 → Bytes} {stof : Bytes → Option UInt32}
  {takesPart : Bytes → Bool} {maxTopK : Nat}

/-- A word without white space is a token, whatever stands around it. -/
theorem token_of_isWord {w : Bytes} (hw : IsWord w) (hne : w ≠ []) :
    IsToken w ∧ Begins w ∧ Ends w := by
  have hspace : ∀ b : UInt8, b ∈ w → ∀ c : UInt8, isSpace c = true → b ≠ c := by
    rintro b hb c hc rfl
    rw [(hw b hb).1] at hc
    cases hc
  refine ⟨⟨hne, fun b hb => ⟨hspace b hb 32 rfl, (hw b hb).2, hspace b hb 13 rfl,
    hspace b hb 10 rfl⟩⟩, ?_, ?_⟩
  · obtain ⟨b, rest, rfl⟩ := List.exists_cons_of_ne_nil hne
    exact ⟨b, rest, rfl, (hw b List.mem_cons_self).1⟩
  · exact ⟨w.dropLast, w.getLast hne, (List.dropLast_append_getLast hne).symm,
      (hw _ (List.getLast_mem hne)).1⟩

/-- A line of tokens that begins with a keyword, and ends without white space. -/
theorem parseCommand_words {name : Bytes} (front back : List Bytes) (hname : IsWord name)
    (hne : name ≠ []) (hfront : ∀ u ∈ front, IsToken u) (hback : ∀ u ∈ back, IsToken u ∧ Ends u)
    (hlast : back ≠ []) :
    parseCommand stof takesPart (lineOf (name :: (front ++ back))) maxTopK =
      parseWords stof takesPart maxTopK (rawFirstLine (lineOf (name :: (front ++ back))))
        (toUpper name) (front ++ back) := by
  obtain ⟨htoken, hbegins, -⟩ := token_of_isWord hname hne
  have hsplit : name :: (front ++ back) =
      (name :: (front ++ back.dropLast)) ++ [back.getLast hlast] := by
    rw [List.cons_append, List.append_assoc, List.dropLast_append_getLast hlast]
  refine parseCommand_of_tokens (requestTokens_lineOf rfl hsplit ?_ hbegins
    (hback _ (List.getLast_mem hlast)).2)
  intro u hu
  rcases List.mem_cons.mp hu with rfl | hu
  · exact htoken
  · rcases List.mem_append.mp hu with hu | hu
    · exact hfront u hu
    · exact (hback u hu).1

theorem token_natText (n : Nat) : IsToken (natText n) ∧ Begins (natText n) ∧ Ends (natText n) :=
  token_of_isWord (isWord_natText n) (natText_ne_nil n)

theorem intText_of_nonneg {n : Int} (h : 0 ≤ n) : intText n = natText n.toNat := by
  rw [intText, if_neg (by omega)]
  congr 1
  omega

/-- A number has no sign. -/
theorem signOf_natText (n : Nat) : signOf (natText n) = (false, natText n) := by
  obtain ⟨-, ⟨b, rest, heq, hspace⟩, -⟩ := token_natText n
  have hdigit : isDigit b = true := isDigitByte_natText (n := n) (heq ▸ List.mem_cons_self)
  have hdrop : (natText n).dropWhile isSpace = natText n := by
    rw [heq, List.dropWhile_cons_of_neg (by simp [hspace])]
  unfold signOf
  rw [hdrop]
  split
  · rename_i rest' hcon
    rw [heq] at hcon
    cases hcon
    exact absurd hdigit (by decide)
  · rename_i rest' hcon
    rw [heq] at hcon
    cases hcon
    exact absurd hdigit (by decide)
  · rfl

/-- A timestamp is read back. -/
theorem parseTimestamp_natText (t : UInt64) :
    parseTimestamp (kTimestampText ++ natText t.toNat) = .ok t := by
  have hdigits : ∀ b ∈ natText t.toNat, isDigit b = true := fun b hb => isDigitByte_natText hb
  have hread : parseTimestamp (kTimestampText ++ natText t.toNat) =
      if (signOf (natText t.toNat)).2.takeWhile isDigit = [] ∨
          2 ^ 64 ≤ digitsValue ((signOf (natText t.toNat)).2.takeWhile isDigit) then
        .error (makeError .kCommandInvalidArgument
          ("Failed to parse timestamp: " ++ textOf (natText t.toNat)))
      else if (signOf (natText t.toNat)).2.dropWhile isDigit ≠ [] then
        .error (makeError .kCommandInvalidArgument
          ("Invalid timestamp value: " ++ textOf (natText t.toNat)))
      else .ok (if (signOf (natText t.toNat)).1 then
        -UInt64.ofNat (digitsValue ((signOf (natText t.toNat)).2.takeWhile isDigit))
        else UInt64.ofNat (digitsValue ((signOf (natText t.toNat)).2.takeWhile isDigit))) := by
    unfold parseTimestamp
    rw [afterText_append]
    rfl
  rw [hread, signOf_natText]
  dsimp only
  rw [List.takeWhile_eq_self_iff.mpr hdigits, List.dropWhile_eq_nil_iff.mpr hdigits,
    digitsValue_natText, if_neg, if_neg (by simp), if_neg (by decide), UInt64.ofNat_toNat]
  rintro (hcon | hcon)
  · exact natText_ne_nil _ hcon
  · exact absurd t.toNat_lt (by omega)

theorem optionalTimestamp_read (cmd : Command) (hnone : cmd.timestamp = none)
    (timestamp : Option UInt64) :
    optionalTimestamp cmd (timestampOption timestamp) =
      .ok { cmd with timestamp := timestamp } := by
  cases timestamp with
  | none =>
    show Except.ok cmd = _
    rw [← hnone]
  | some t =>
    show (parseTimestamp (kTimestampText ++ natText t.toNat) >>= _) = _
    rw [parseTimestamp_natText]
    rfl

theorem timestampOption_words (timestamp : Option UInt64) :
    ∀ u ∈ timestampOption timestamp, IsToken u ∧ Begins u ∧ Ends u := by
  intro u hu
  cases timestamp with
  | none => cases hu
  | some t =>
    obtain rfl := List.mem_singleton.mp hu
    exact token_of_isWord (isWord_append (isWord_of_all (by decide)) (isWord_natText _))
      (List.append_ne_nil_of_right_ne_nil _ (natText_ne_nil _))

/-- What is behind the last of the options is a part of one. -/
theorem lastOption_mem (text : Bytes) (options : List Bytes) (start : Bytes) :
    lastOption text options start = start ∨ text ++ lastOption text options start ∈ options := by
  induction options generalizing start with
  | nil => exact .inl rfl
  | cons token options ih =>
    have hcons : lastOption text (token :: options) start =
        lastOption text options ((afterText text token).getD start) := rfl
    rw [hcons]
    rcases ih ((afterText text token).getD start) with heq | hin
    · rw [heq]
      cases hafter : afterText text token with
      | none => exact .inl rfl
      | some rest =>
        unfold afterText at hafter
        split at hafter
        · rename_i hpre
          obtain ⟨t, rfl⟩ := List.isPrefixOf_iff_prefix.mp hpre
          cases hafter
          rw [List.drop_left]
          exact .inr List.mem_cons_self
        · cases hafter
    · exact .inr (List.mem_cons_of_mem token hin)

theorem parseScoredEvent_read (ctx id : Bytes) (t : EventType) (name : String) {s : Int}
    (hlo : 0 ≤ s) (hhi : s ≤ 100) (timestamp : Option UInt64) :
    parseScoredEvent ctx t name (id :: intText s :: timestampOption timestamp) =
      .ok { type := .kEvent, ctx := ctx, id := id, eventType := t, score := s
            timestamp := timestamp } := by
  have hlen : ¬ 1 < (timestampOption timestamp).length := by
    cases timestamp <;> simp [timestampOption]
  have hscore : parseEventScore (intText s) = .ok s := by
    rw [intText_of_nonneg hlo, parseEventScore_natText (by omega), Int.toNat_of_nonneg hlo]
  unfold parseScoredEvent
  dsimp only
  rw [if_neg hlen, hscore]
  exact optionalTimestamp_read _ rfl timestamp

/-- An event is read back. -/
theorem parseEvent_read (ctx id : Bytes) {t : EventType} {type : Bytes} {s : Int}
    (htype : typeText t = some type) (hlo : 0 ≤ s) (hhi : s ≤ 100) (hdel : t = .DEL → s = 0)
    (timestamp : Option UInt64) :
    parseEvent ([ctx, type, id] ++ (if t = .DEL then [] else [intText s]) ++
        timestampOption timestamp) =
      .ok { type := .kEvent, ctx := ctx, id := id, eventType := t, score := s
            timestamp := timestamp } := by
  cases t with
  | ADD =>
    cases htype
    exact parseScoredEvent_read ctx id .ADD "ADD" hlo hhi timestamp
  | SET =>
    cases htype
    exact parseScoredEvent_read ctx id .SET "SET" hlo hhi timestamp
  | DEL =>
    cases htype
    have hlen : ¬ 1 < (timestampOption timestamp).length := by
      cases timestamp <;> simp [timestampOption]
    show (if 1 < (timestampOption timestamp).length then _
      else optionalTimestamp { type := .kEvent, ctx := ctx, id := id, eventType := .DEL }
        (timestampOption timestamp)) = _
    rw [if_neg hlen, hdel rfl]
    exact optionalTimestamp_read _ rfl timestamp
  | unnamed raw hraw => cases htype

/-- The words of an event are tokens; the last is the id, its score or its timestamp. -/
theorem parseCommand_event_read {ctx id : Bytes} {t : EventType} {type : Bytes} {s : Int}
    (hctx : IsToken ctx) (hid : IsToken id) (htype : typeText t = some type) (hlo : 0 ≤ s)
    (hhi : s ≤ 100) (hdel : t = .DEL → s = 0) {timestamp : Option UInt64}
    (hends : t = .DEL → timestamp = none → Ends id) :
    parseCommand stof takesPart (canonicalLine formatFloat
      (.write { type := .kEvent, ctx := ctx, id := id, eventType := t, score := s
                timestamp := timestamp })) maxTopK =
      .ok (.write { type := .kEvent, ctx := ctx, id := id, eventType := t, score := s
                    timestamp := timestamp }) := by
  have hword : IsWord type ∧ type ≠ [] := by
    cases t with
    | ADD | SET | DEL =>
      cases htype
      exact ⟨isWord_of_all (by decide), by decide⟩
    | unnamed raw hraw => cases htype
  have hscore : ∀ u ∈ (if t = .DEL then [] else [intText s]), IsToken u ∧ Ends u := by
    intro u hu
    split at hu
    · cases hu
    · obtain rfl := List.mem_singleton.mp hu
      rw [intText_of_nonneg hlo]
      exact ⟨(token_natText _).1, (token_natText _).2.2⟩
  have htime : ∀ u ∈ timestampOption timestamp, IsToken u ∧ Ends u := by
    intro u hu
    obtain ⟨htoken, -, hends⟩ := timestampOption_words timestamp u hu
    exact ⟨htoken, hends⟩
  have hfront : ∀ u ∈ [ctx, type], IsToken u := by
    intro u hu
    simp only [List.mem_cons, List.not_mem_nil, or_false] at hu
    rcases hu with rfl | rfl
    · exact hctx
    · exact (token_of_isWord hword.1 hword.2).1
  have hparse : parseWords stof takesPart maxTopK (rawFirstLine (lineOf (ascii "EVENT" ::
      ([ctx, type, id] ++ (if t = .DEL then [] else [intText s]) ++ timestampOption timestamp))))
      (toUpper (ascii "EVENT"))
      ([ctx, type, id] ++ (if t = .DEL then [] else [intText s]) ++ timestampOption timestamp) =
      .ok (.write { type := .kEvent, ctx := ctx, id := id, eventType := t, score := s
                    timestamp := timestamp }) :=
    congrArg (Except.map Request.write) (parseEvent_read ctx id htype hlo hhi hdel timestamp)
  have hline : canonicalLine formatFloat (.write { type := .kEvent, ctx := ctx, id := id
                                                   eventType := t, score := s
                                                   timestamp := timestamp }) =
      lineOf (ascii "EVENT" :: ([ctx, type, id] ++ (if t = .DEL then [] else [intText s]) ++
        timestampOption timestamp)) := by
    show lineOf ([ascii "EVENT", ctx, (typeText t).getD [], id] ++ _ ++ _) = _
    rw [htype]
    rfl
  rw [hline, ← hparse]
  by_cases hrest : (if t = .DEL then [] else [intText s]) ++ timestampOption timestamp = []
  · -- the id is the last word
    have hid' : Ends id := by
      refine hends ?_ ?_
      · by_contra hne
        rw [if_neg hne] at hrest
        cases hrest
      · cases timestamp with
        | none => rfl
        | some t => exact absurd (List.append_eq_nil_iff.mp hrest).2 (List.cons_ne_nil _ _)
    rw [List.append_assoc, hrest]
    refine parseCommand_words [ctx, type] [id] (isWord_of_all (by decide)) (by decide) hfront
      (fun u hu => ?_) (List.cons_ne_nil _ _)
    obtain rfl := List.mem_singleton.mp hu
    exact ⟨hid, hid'⟩
  · rw [List.append_assoc]
    refine parseCommand_words [ctx, type, id] _ (isWord_of_all (by decide)) (by decide)
      (fun u hu => ?_) (fun u hu => ?_) hrest
    · rcases List.mem_append.mp (show u ∈ [ctx, type] ++ [id] from hu) with hu | hu
      · exact hfront u hu
      · obtain rfl := List.mem_singleton.mp hu
        exact hid
    · rcases List.mem_append.mp hu with hu | hu
      · exact hscore u hu
      · exact htime u hu

/-- The count of a query is read back. -/
theorem parseTopK_read {count : Bytes} {topK : Int} (h : parseTopK count maxTopK = .ok topK) :
    parseTopK (intText topK) maxTopK = .ok topK ∧ 0 ≤ topK := by
  obtain ⟨-, hlt, hpos, hmax⟩ := parseTopK_ok h
  refine ⟨?_, by omega⟩
  have hnat : (UInt32.ofNat topK.toNat).toNat = topK.toNat := by
    rw [UInt32.toNat_ofNat', Nat.mod_eq_of_lt (by omega)]
  rcases parseTopK_natText maxTopK (UInt32.ofNat topK.toNat) with ⟨-, hok⟩ | ⟨hcon, -⟩
  · rw [hnat, Int.toNat_of_nonneg (by omega)] at hok
    rw [intText_of_nonneg (by omega), hok]
  · refine absurd ?_ hcon
    unfold validTopK
    rw [hnat]
    omega

theorem token_intText {n : Int} (h : 0 ≤ n) : IsToken (intText n) ∧ Ends (intText n) := by
  rw [intText_of_nonneg h]
  exact ⟨(token_natText _).1, (token_natText _).2.2⟩

theorem token_floats (hf : RoundTrips formatFloat stof) (v : List UInt32) :
    ∀ u ∈ v.map formatFloat, IsToken u ∧ Ends u := by
  intro u hu
  obtain ⟨x, -, rfl⟩ := List.mem_map.mp hu
  have htoken := token_of_isWord (hf.isWord x) (hf.ne_nil x)
  exact ⟨htoken.1, htoken.2.2⟩

theorem floatsRead_finite (hfinite : ∀ word x, stof word = some x → isFiniteFloat x = true)
    {words : List Bytes} {v : List UInt32} (h : FloatsRead stof words v) :
    ∀ x ∈ v, isFiniteFloat x = true := by
  induction h with
  | nil => exact fun x hx => absurd hx List.not_mem_nil
  | cons hword _ ih => exact List.forall_mem_cons.mpr ⟨hfinite _ _ hword, ih⟩

/-- A filter is a part of a token. -/
theorem token_filter {options : List Bytes} (h : ∀ u ∈ options, IsToken u) :
    IsToken (kFilterText ++ lastOption kFilterText options []) := by
  rcases lastOption_mem kFilterText options [] with heq | hin
  · rw [heq]
    exact (token_of_isWord (isWord_of_all (by decide)) (by decide)).1
  · exact h _ hin

/-- The options of both queries are tokens, the last without white space at its end. -/
theorem token_searchOptions (hf : RoundTrips formatFloat stof) {filter : Bytes}
    (hfilter : IsToken (kFilterText ++ filter)) (x : UInt32) :
    ∃ front, searchOptions formatFloat { filter := filter, minScore := some x } =
        front ++ [kMinScoreText ++ formatFloat x] ∧ (∀ u ∈ front, IsToken u) ∧
      IsToken (kMinScoreText ++ formatFloat x) ∧ Ends (kMinScoreText ++ formatFloat x) := by
  obtain ⟨htoken, -, hends⟩ := token_of_isWord
    (isWord_append (show IsWord kMinScoreText from isWord_of_all (by decide)) (hf.isWord x))
    (List.append_ne_nil_of_right_ne_nil _ (hf.ne_nil x))
  refine ⟨_, rfl, fun u hu => ?_, htoken, hends⟩
  split at hu
  · obtain rfl := List.mem_singleton.mp hu
    exact hfilter
  · cases hu

/-- Behind those of both queries there may be one more. -/
theorem simOptions_split {mode : Bytes} (hmode : mode ≠ []) (options : SearchOptions) :
    ∃ words, simOptions formatFloat mode options =
        [kUsingText ++ mode] ++ searchOptions formatFloat options ++ words ∧
      ∀ u ∈ words, IsToken u ∧ Ends u := by
  unfold simOptions
  rw [if_pos hmode]
  refine ⟨_, rfl, fun u hu => ?_⟩
  cases hadaptive : options.adaptive with
  | none =>
    rw [hadaptive] at hu
    cases hu
  | some on =>
    rw [hadaptive] at hu
    obtain rfl := List.mem_singleton.mp hu
    have htoken := token_of_isWord
      (w := kAdaptiveText ++ if on then ascii "on" else ascii "off")
      (isWord_of_all (by cases on <;> decide)) (by simp [kAdaptiveText])
    exact ⟨htoken.1, htoken.2.2⟩

/-- The options of `SIM` are read back. -/
theorem simOptions_written (hf : RoundTrips formatFloat stof) (cmd : SimCommand)
    (hscore : isFiniteFloat cmd.minScore = true) :
    (simOptions formatFloat cmd.mode.text { filter := cmd.filterExpr, minScore := some cmd.minScore
                                            adaptive := cmd.adaptive }).foldlM
      (simOption stof takesPart) { id := cmd.id, topK := cmd.topK } = .ok cmd := by
  have hmode : ∀ cmd' : SimCommand, simOption stof takesPart cmd' (kUsingText ++ cmd.mode.text) =
      .ok { cmd' with mode := cmd.mode } := by
    intro cmd'
    unfold simOption
    rw [afterText_append]
    cases cmd.mode <;> rfl
  have hmin : ∀ cmd' : SimCommand,
      simOption stof takesPart cmd' (kMinScoreText ++ formatFloat cmd.minScore) =
        .ok { cmd' with minScore := cmd.minScore } := by
    intro cmd'
    unfold simOption
    rw [afterText_append]
    show (parseFloat stof takesPart (formatFloat cmd.minScore) >>= _) = _
    rw [parseFloat, hf.finite _ hscore]
    rfl
  have hne : cmd.mode.text ≠ [] := by
    cases cmd.mode <;> decide
  have hsearch : ∀ cmd' : SimCommand, cmd'.filterExpr = [] →
      (searchOptions formatFloat { filter := cmd.filterExpr, minScore := some cmd.minScore
                                   adaptive := cmd.adaptive }).foldlM
        (simOption stof takesPart) cmd' =
      .ok { cmd' with filterExpr := cmd.filterExpr, minScore := cmd.minScore } := by
    intro cmd' hnone
    unfold searchOptions minScoreOption
    rw [List.foldlM_append]
    by_cases hempty : cmd.filterExpr = []
    · rw [if_neg (not_not_intro hempty), List.foldlM_nil, hempty, ← hnone]
      show (simOption stof takesPart cmd' (kMinScoreText ++ formatFloat cmd.minScore) >>= _) = _
      rw [hmin]
      rfl
    · rw [if_pos hempty, List.foldlM_cons, simOption_filter]
      show (simOption stof takesPart { cmd' with filterExpr := cmd.filterExpr }
        (kMinScoreText ++ formatFloat cmd.minScore) >>= _) = _
      rw [hmin]
      rfl
  unfold simOptions
  rw [if_pos hne, List.foldlM_append, List.foldlM_append, List.foldlM_cons, hmode]
  show ((searchOptions formatFloat { filter := cmd.filterExpr, minScore := some cmd.minScore
                                     adaptive := cmd.adaptive }).foldlM
    (simOption stof takesPart) { id := cmd.id, topK := cmd.topK, mode := cmd.mode } >>= _) = _
  rw [hsearch _ rfl]
  obtain ⟨id, topK, mode, adaptive, filterExpr, minScore⟩ := cmd
  cases adaptive with
  | none => rfl
  | some on =>
    show List.foldlM (simOption stof takesPart) _ [kAdaptiveText ++ _] = _
    rw [List.foldlM_cons, simOption_adaptive]
    rfl

/-- A query by vector is read back. -/
theorem parseSimv_written (hf : RoundTrips formatFloat stof) {cmd : SimvCommand}
    (hk : parseTopK (intText cmd.topK) maxTopK = .ok cmd.topK)
    (hscore : isFiniteFloat cmd.minScore = true) (hne : cmd.vector ≠ [])
    (hall : ∀ x ∈ cmd.vector, isFiniteFloat x = true) :
    parseSimv stof takesPart maxTopK (intText cmd.topK ::
      (searchOptions formatFloat { filter := cmd.filterExpr, minScore := some cmd.minScore } ++
        cmd.vector.map formatFloat)) = .ok cmd := by
  have hoptions : simvOptions stof takesPart { topK := cmd.topK }
      (searchOptions formatFloat { filter := cmd.filterExpr, minScore := some cmd.minScore } ++
        cmd.vector.map formatFloat) =
      .ok ({ topK := cmd.topK, filterExpr := cmd.filterExpr, minScore := cmd.minScore },
        cmd.vector.map formatFloat) :=
    simvOptions_read hf hne fun x hx => by
      cases hx
      exact hscore
  obtain ⟨w, ws, hws⟩ := List.exists_cons_of_ne_nil
    (l := searchOptions formatFloat { filter := cmd.filterExpr, minScore := some cmd.minScore } ++
      cmd.vector.map formatFloat) (by simp [hne])
  have hread : parseSimv stof takesPart maxTopK (intText cmd.topK ::
      (searchOptions formatFloat { filter := cmd.filterExpr, minScore := some cmd.minScore } ++
        cmd.vector.map formatFloat)) =
      parseTopK (intText cmd.topK) maxTopK >>= fun k =>
        simvOptions stof takesPart { topK := k }
            (searchOptions formatFloat
                { filter := cmd.filterExpr, minScore := some cmd.minScore } ++
              cmd.vector.map formatFloat) >>= fun p =>
          p.2.mapM (parseFloat stof takesPart) >>= fun v =>
            if v = [] then .error (syntaxError "SIMV requires at least one vector float")
            else .ok { p.1 with vector := v } := by
    rw [hws]
    rfl
  rw [hread, hk, ok_bind, hoptions, ok_bind, mapM_parseFloat hf hall, ok_bind, if_neg hne]

/-- A line and its parse, for a command with a name and arguments. -/
theorem canonical_of_words (name : Bytes) (front back : List Bytes) {r : Request}
    (hline : canonicalLine formatFloat r = lineOf (name :: (front ++ back))) (hname : IsWord name)
    (hne : name ≠ []) (hfront : ∀ u ∈ front, IsToken u) (hback : ∀ u ∈ back, IsToken u ∧ Ends u)
    (hlast : back ≠ [])
    (hparse : ∀ line, parseWords stof takesPart maxTopK line (toUpper name) (front ++ back) =
      .ok r) :
    parseCommand stof takesPart (canonicalLine formatFloat r) maxTopK = .ok r := by
  rw [hline, parseCommand_words front back hname hne hfront hback hlast, hparse]

/-- **What has been read is read back** from its canonical form. -/
theorem canonical_of_grammar (hf : RoundTrips formatFloat stof)
    (hfinite : ∀ word x, stof word = some x → isFiniteFloat x = true) {tokens : List Bytes}
    {r : Request} (htokens : ∀ u ∈ tokens, IsToken u)
    (hends : ∀ init last, tokens = init ++ [last] → Ends last)
    (h : Grammar stof maxTopK tokens r) :
    parseCommand stof takesPart (canonicalLine formatFloat r) maxTopK = .ok r := by
  cases h with
  | @scored name ctx type id score options t s timestamp hname htype hdel hscore htime =>
    obtain ⟨-, hlo, hhi⟩ := parseEventScore_ok hscore
    exact parseCommand_event_read (htokens ctx (by simp)) (htokens id (by simp)) htype hlo hhi
      (fun hcon => absurd hcon hdel) fun hcon => absurd hcon hdel
  | @deletion name ctx type id options timestamp hname htype htime =>
    refine parseCommand_event_read (htokens ctx (by simp)) (htokens id (by simp)) (t := .DEL) rfl
      (by omega) (by omega) (fun _ => rfl) fun _ hnone => ?_
    cases htime with
    | none => exact hends [name, ctx, type] id rfl
    | some ht => cases hnone
  | @vecset name id floats vector hname hfloats hne =>
    refine canonical_of_words (ascii "VECSET") [id] (vector.map formatFloat) rfl
      (isWord_of_all (by decide)) (by decide) (fun u hu => ?_) (token_floats hf vector)
      (by simpa using hne) fun line => ?_
    · obtain rfl := List.mem_singleton.mp hu
      exact htokens u (by simp)
    · obtain ⟨x, xs, rfl⟩ := List.exists_cons_of_ne_nil hne
      rcases parseVecset_floats takesPart hf id x xs with ⟨-, hread⟩ | ⟨⟨z, hz, hcon⟩, -⟩
      · exact congrArg (Except.map Request.write) hread
      · rw [floatsRead_finite hfinite hfloats z hz] at hcon
        cases hcon
  | @vecdel name id hname =>
    refine canonical_of_words (ascii "VECDEL") [] [id] rfl (isWord_of_all (by decide))
      (by decide) (fun u hu => absurd hu List.not_mem_nil) (fun u hu => ?_) (List.cons_ne_nil _ _)
      fun line => rfl
    obtain rfl := List.mem_singleton.mp hu
    exact ⟨htokens u (by simp), hends [name] u rfl⟩
  | @metaset name id expr hname =>
    refine canonical_of_words (ascii "METASET") [id] [expr] rfl
      (isWord_of_all (by decide)) (by decide) (fun u hu => ?_) (fun u hu => ?_)
      (List.cons_ne_nil _ _) fun line => rfl
    · obtain rfl := List.mem_singleton.mp hu
      exact htokens u (by simp)
    · obtain rfl := List.mem_singleton.mp hu
      exact ⟨htokens u (by simp), hends [name, id] u rfl⟩
  | @sim name count options cmd hname hk hfilter hscore =>
    obtain ⟨hread, hpos⟩ := parseTopK_read hk
    have hoptions : IsToken (kFilterText ++ cmd.filterExpr) := by
      rw [hfilter]
      exact token_filter fun u hu => htokens u (by simp [hu])
    obtain ⟨front, hsearch, hfront, hmin⟩ := token_searchOptions hf hoptions cmd.minScore
    obtain ⟨adaptive, hall, hback⟩ := @simOptions_split formatFloat cmd.mode.text
      (by cases cmd.mode <;> decide)
      { filter := cmd.filterExpr, minScore := some cmd.minScore, adaptive := cmd.adaptive }
    have hmode : IsToken (kUsingText ++ cmd.mode.text) :=
      (token_of_isWord (isWord_of_all (by cases cmd.mode <;> decide)) (by simp [kUsingText])).1
    have hsplit : simOptions formatFloat cmd.mode.text
        { filter := cmd.filterExpr, minScore := some cmd.minScore, adaptive := cmd.adaptive } =
        ((kUsingText ++ cmd.mode.text) :: front) ++
          (kMinScoreText ++ formatFloat cmd.minScore) :: adaptive := by
      have hsearch' : searchOptions formatFloat { filter := cmd.filterExpr
                                                  minScore := some cmd.minScore
                                                  adaptive := cmd.adaptive } =
          front ++ [kMinScoreText ++ formatFloat cmd.minScore] := hsearch
      rw [hall, hsearch']
      simp only [List.append_assoc, List.cons_append, List.nil_append]
    refine canonical_of_words (ascii "SIM")
      ([cmd.id, intText cmd.topK] ++ ((kUsingText ++ cmd.mode.text) :: front))
      ((kMinScoreText ++ formatFloat cmd.minScore) :: adaptive) ?_
      (isWord_of_all (by decide)) (by decide) ?_ (List.forall_mem_cons.mpr ⟨hmin, hback⟩)
      (List.cons_ne_nil _ _) fun line => ?_
    · rw [List.append_assoc, ← hsplit]
      rfl
    · exact List.forall_mem_cons.mpr ⟨htokens _ (by simp), List.forall_mem_cons.mpr
        ⟨(token_intText hpos).1, List.forall_mem_cons.mpr ⟨hmode, hfront⟩⟩⟩
    · rw [List.append_assoc, ← hsplit]
      show Except.map Request.sim (parseTopK (intText cmd.topK) maxTopK >>= _) = _
      rw [hread, ok_bind]
      exact congrArg (Except.map Request.sim) (simOptions_written hf cmd hscore)
  | @simv name count options floats cmd hname hk hfilter hscore hfloats hne =>
    obtain ⟨hread, hpos⟩ := parseTopK_read hk
    have hoptions : IsToken (kFilterText ++ cmd.filterExpr) := by
      rw [hfilter]
      exact token_filter fun u hu => htokens u (by simp [hu])
    obtain ⟨front, hsearch, hfront, hmin⟩ := token_searchOptions hf hoptions cmd.minScore
    refine canonical_of_words (ascii "SIMV") (intText cmd.topK :: front)
      ((kMinScoreText ++ formatFloat cmd.minScore) :: cmd.vector.map formatFloat) ?_
      (isWord_of_all (by decide)) (by decide) ?_ ?_ (List.cons_ne_nil _ _) fun line => ?_
    · show lineOf (ascii "SIMV" :: intText cmd.topK :: (_ ++ _)) = _
      rw [hsearch, List.append_assoc]
      rfl
    · exact List.forall_mem_cons.mpr ⟨(token_intText hpos).1, hfront⟩
    · exact List.forall_mem_cons.mpr ⟨hmin, token_floats hf _⟩
    · have hsplit : front ++ (kMinScoreText ++ formatFloat cmd.minScore) ::
          cmd.vector.map formatFloat =
          searchOptions formatFloat { filter := cmd.filterExpr, minScore := some cmd.minScore } ++
            cmd.vector.map formatFloat := by
        rw [hsearch, List.append_assoc]
        rfl
      show Except.map Request.simv (parseSimv stof takesPart maxTopK (intText cmd.topK ::
        (front ++ (kMinScoreText ++ formatFloat cmd.minScore) :: cmd.vector.map formatFloat))) = _
      rw [hsplit, parseSimv_written hf hread hscore hne (floatsRead_finite hfinite hfloats)]
      rfl

end Written

/-! ## 5. `AUTH` -/

section Auth

variable {stof : Bytes → Option UInt32} {takesPart : Bytes → Bool} {maxTopK : Nat}

/-- What separates the command from the password. -/
def isBlank (b : UInt8) : Prop := b = 32 ∨ b = 9

/-- The password is what is behind the first blank, wherever that is. -/
theorem parseAuth_append {front password : Bytes} {b : UInt8} (hfront : ∀ x ∈ front, ¬ isBlank x)
    (hb : isBlank b) (hne : password ≠ []) :
    parseAuth (front ++ b :: password) = .ok (.auth password) := by
  obtain ⟨c, rest, rfl⟩ := List.exists_cons_of_ne_nil hne
  unfold parseAuth
  rw [List.dropWhile_append_of_pos fun x hx => by simpa [isBlank] using hfront x hx,
    List.dropWhile_cons_of_neg (by simpa [isBlank, or_iff_not_imp_left] using hb)]

theorem parseAuth_ok {line : Bytes} {r : Request} (h : parseAuth line = .ok r) :
    ∃ front b password, line = front ++ b :: password ∧ (∀ x ∈ front, ¬ isBlank x) ∧ isBlank b ∧
      password ≠ [] ∧ r = .auth password := by
  have hsplit : line = (line.takeWhile fun b => ¬(b = 32 ∨ b = 9)) ++
      line.dropWhile fun b => ¬(b = 32 ∨ b = 9) := List.takeWhile_append_dropWhile.symm
  unfold parseAuth at h
  split at h
  · rename_i b c password hdrop
    cases h
    rw [hdrop] at hsplit
    refine ⟨_, b, c :: password, hsplit, fun x hx => ?_, ?_, List.cons_ne_nil _ _, rfl⟩
    · simpa [isBlank] using List.mem_takeWhile_imp hx
    · have hhead := List.head?_dropWhile_not (fun b => decide ¬(b = 32 ∨ b = 9)) line
      rw [hdrop] at hhead
      simpa [isBlank, or_iff_not_imp_left] using hhead
  · cases h

/-- White space in front of a line that has words. -/
theorem requestTokens_white {request white : Bytes} {tokens : List Bytes}
    (h : requestTokens request = .ok tokens) (hwhite : ∀ b ∈ white, isSpace b = true)
    (hline : ∀ b ∈ white, b ≠ 13 ∧ b ≠ 10) :
    requestTokens (white ++ request) = .ok tokens ∧ OneLine (white ++ request) ∧
      rawFirstLine (white ++ request) = white ++ rawFirstLine request := by
  obtain ⟨hnul, hone, hwords, hne⟩ := requestTokens_ok_iff.1 h
  have hnonempty : rawFirstLine request ≠ [] := by
    intro hnil
    refine hne (hwords.symm.trans ?_)
    rw [wordsOf, ← trim_rawFirstLine, hnil]
    rfl
  have hraw : rawFirstLine (white ++ request) = white ++ rawFirstLine request := by
    unfold rawFirstLine at hnonempty ⊢
    rw [List.reverse_append, List.dropWhile_append, if_neg, List.reverse_append,
      List.reverse_reverse]
    simpa using hnonempty
  have hone' : OneLine (white ++ request) := by
    unfold OneLine
    rw [hraw, List.mem_append, List.mem_append]
    refine ⟨?_, ?_⟩
    · rintro (hin | hin)
      · exact (hline _ hin).1 rfl
      · exact hone.1 hin
    · rintro (hin | hin)
      · exact (hline _ hin).2 rfl
      · exact hone.2 hin
  refine ⟨requestTokens_ok_iff.2 ⟨?_, hone', ?_, hne⟩, hone', hraw⟩
  · intro hin
    rcases List.mem_append.mp hin with hin | hin
    · exact absurd (hwhite _ hin) (by decide)
    · exact hnul hin
  · rw [← hwords, wordsOf, ← trim_dropWhile, List.dropWhile_append_of_pos hwhite, trim_dropWhile,
      wordsOf]

/-- **The password is the same exactly as long as no blank or tab is in front of `AUTH`.** -/
theorem auth_white_iff {request name white : Bytes} {arguments : List Bytes} {r : Request}
    (htokens : requestTokens request = .ok (name :: arguments))
    (hauth : toUpper name = ascii "AUTH")
    (h : parseCommand stof takesPart request maxTopK = .ok r)
    (hwhite : ∀ b ∈ white, isSpace b = true) (hline : ∀ b ∈ white, b ≠ 13 ∧ b ≠ 10) :
    parseCommand stof takesPart (white ++ request) maxTopK = .ok r ↔ ∀ b ∈ white, ¬ isBlank b := by
  have hread : ∀ line, parseWords stof takesPart maxTopK line (toUpper name) arguments =
      parseAuth line := by
    intro line
    rw [hauth]
    rfl
  obtain ⟨htokens', -, hraw⟩ := requestTokens_white htokens hwhite hline
  rw [parseCommand_of_tokens htokens, hread] at h
  rw [parseCommand_of_tokens htokens', hread, hraw]
  obtain ⟨front, b, password, heq, hfront, hb, hne, rfl⟩ := parseAuth_ok h
  rw [heq]
  constructor
  · intro hsame c hc hblank
    -- the password would begin in the white space
    have hin : c ∈ white ++ (front ++ b :: password) := List.mem_append_left _ hc
    obtain ⟨front', b', password', heq', hfront', hb', hne', hr⟩ := parseAuth_ok hsame
    cases hr
    have hlen := congrArg List.length heq'
    simp only [List.length_append, List.length_cons] at hlen
    obtain ⟨w₁, w₂, rfl⟩ := List.append_of_mem hc
    have hshort : front'.length ≤ w₁.length := by
      by_contra hlong
      have hget : c ∈ front' := by
        have hc' : (front' ++ b' :: password)[w₁.length]? = some c := by
          rw [← heq']
          simp
        rw [List.getElem?_append_left (by omega)] at hc'
        exact List.mem_of_getElem? hc'
      exact hfront' c hget hblank
    simp only [List.length_append, List.length_cons] at hlen
    omega
  · intro hnone
    rw [← List.append_assoc]
    refine parseAuth_append (fun x hx => ?_) hb hne
    rcases List.mem_append.mp hx with hx | hx
    · exact hnone x hx
    · exact hfront x hx

/-- A password is read back. -/
theorem auth_canonical {formatFloat : UInt32 → Bytes} {request name : Bytes}
    {arguments : List Bytes} {r : Request}
    (htokens : requestTokens request = .ok (name :: arguments))
    (hauth : toUpper name = ascii "AUTH")
    (h : parseCommand stof takesPart request maxTopK = .ok r) :
    parseCommand stof takesPart (canonicalLine formatFloat r) maxTopK = .ok r := by
  rw [parseCommand_of_tokens htokens, hauth] at h
  obtain ⟨front, b, password, heq, hfront, hb, hne, rfl⟩ := parseAuth_ok h
  obtain ⟨hnul, hone, -, -⟩ := requestTokens_ok_iff.1 htokens
  have hbytes : ∀ x ∈ password, x ≠ 0 ∧ x ≠ 13 ∧ x ≠ 10 := by
    intro x hx
    have hraw : x ∈ rawFirstLine request := by
      rw [heq]
      simp [hx]
    obtain ⟨ending, hrequest, -⟩ := rawFirstLine_append request
    refine ⟨?_, ?_, ?_⟩
    · rintro rfl
      refine hnul ?_
      rw [hrequest]
      exact List.mem_append_left _ hraw
    · rintro rfl
      exact hone.1 hraw
    · rintro rfl
      exact hone.2 hraw
  have hline : canonicalLine formatFloat (.auth password) = ascii "AUTH" ++ 32 :: password := rfl
  have hall : ∀ x ∈ ascii "AUTH" ++ 32 :: password, x ≠ 0 ∧ x ≠ 13 ∧ x ≠ 10 := by
    intro x hx
    rcases List.mem_append.mp hx with hx | hx
    · exact (by decide +kernel : ∀ x ∈ ascii "AUTH", x ≠ 0 ∧ x ≠ 13 ∧ x ≠ 10) x hx
    · rcases List.mem_cons.mp hx with rfl | hx
      · decide
      · exact hbytes x hx
  have hraw : rawFirstLine (ascii "AUTH" ++ 32 :: password) = ascii "AUTH" ++ 32 :: password :=
    rawFirstLine_eq fun x hx => (hall x hx).2
  obtain ⟨rest, hwords⟩ : ∃ rest,
      wordsOf (ascii "AUTH" ++ 32 :: password) = ascii "AUTH" :: rest := by
    -- trimming cuts behind the keyword at most
    have htrim : trim (ascii "AUTH" ++ 32 :: password) =
        ascii "AUTH" ++ ((32 :: password).reverse.dropWhile isSpace).reverse := by
      unfold trim
      have hfront : (ascii "AUTH" ++ 32 :: password).dropWhile isSpace =
          ascii "AUTH" ++ 32 :: password := rfl
      rw [hfront, List.reverse_append, List.dropWhile_append]
      split
      · rename_i hempty
        rw [List.isEmpty_iff.mp hempty]
        decide
      · rw [List.reverse_append, List.reverse_reverse]
    rw [wordsOf, htrim]
    have hpre : ((32 :: password).reverse.dropWhile isSpace).reverse <+: 32 :: password := by
      conv_rhs => rw [← List.reverse_reverse (32 :: password)]
      exact List.reverse_prefix.mpr (List.dropWhile_suffix _)
    cases hcut : ((32 :: password).reverse.dropWhile isSpace).reverse with
    | nil => exact ⟨[], rfl⟩
    | cons c cut =>
      rw [hcut] at hpre
      obtain ⟨rfl, -⟩ := List.cons_prefix_cons.mp hpre
      refine ⟨split cut 32, ?_⟩
      rw [split, List.splitOn_append_cons_self, List.filter_append]
      rfl
  have htokens' : requestTokens (ascii "AUTH" ++ 32 :: password) = .ok (ascii "AUTH" :: rest) := by
    refine requestTokens_ok_iff.2 ⟨fun hin => (hall 0 hin).1 rfl, ?_, hwords,
      List.cons_ne_nil _ _⟩
    unfold OneLine
    rw [hraw]
    exact ⟨fun hin => (hall 13 hin).2.1 rfl, fun hin => (hall 10 hin).2.2 rfl⟩
  rw [hline, parseCommand_of_tokens htokens', hraw]
  exact @parseAuth_append (ascii "AUTH") password 32 (by simp [isBlank, ascii]) (.inl rfl) hne

end Auth

/-! ## 6. Faithful reading -/

section Faithful

variable {formatFloat : UInt32 → Bytes} {stof : Bytes → Option UInt32}
  {takesPart : Bytes → Bool} {maxTopK : Nat}

/-- **A request is read faithfully**: its fields are words of the line, its numbers those of their
    words, a variant of the line is read as the same, and so is the canonical form. -/
structure Faithful (formatFloat : UInt32 → Bytes) (stof : Bytes → Option UInt32)
    (takesPart : Bytes → Bool) (maxTopK : Nat) (request : Bytes) (r : Request) : Prop where
  words : ReadsWords stof (rawFirstLine request) (wordsOf request) r
  integers : ReadsIntegers (wordsOf request) r
  variants : ∀ request', Variant request request' →
    parseCommand stof takesPart request' maxTopK = .ok r
  canonical : parseCommand stof takesPart (canonicalLine formatFloat r) maxTopK = .ok r

/-- The command of a line, in upper case. -/
def commandName (request : Bytes) : Bytes := toUpper ((wordsOf request).headD [])

/-- **What is accepted is read faithfully** unless it is `AUTH` or has a negated timestamp. -/
theorem faithful_iff (hf : RoundTrips formatFloat stof)
    (hfinite : ∀ word x, stof word = some x → isFiniteFloat x = true) {request : Bytes}
    {r : Request} (h : parseCommand stof takesPart request maxTopK = .ok r)
    (hdata : DataRequest r) :
    Faithful formatFloat stof takesPart maxTopK request r ↔
      commandName request ≠ ascii "AUTH" ∧ ¬ NegatedTimestamp (wordsOf request) := by
  obtain ⟨name, arguments, htokens, hparse⟩ := parseCommand_ok h
  obtain ⟨hnul, hone, hwords, hne⟩ := requestTokens_ok_iff.1 htokens
  have hname : commandName request = toUpper name := by
    rw [commandName, hwords]
    rfl
  rw [hname, hwords]
  constructor
  · intro hfaithful
    have hauth : toUpper name ≠ ascii "AUTH" := by
      intro hauth
      -- a blank in front of the line
      obtain ⟨-, hone', -⟩ := @requestTokens_white _ [32] _ htokens (by decide +kernel)
        (by decide +kernel)
      have hvariant : Variant request ([32] ++ request) :=
        { letters := rfl
          arguments := by
            rw [wordsOf, ← trim_dropWhile]
            show argumentsOf (split (trim (request.dropWhile isSpace)) 32) = _
            rw [trim_dropWhile, wordsOf]
          oneLine := hone' }
      have hsame := hfaithful.variants _ hvariant
      rw [auth_white_iff htokens hauth h (by decide +kernel) (by decide +kernel)] at hsame
      exact hsame 32 List.mem_cons_self (.inl rfl)
    have hgrammar := grammar_of_parse hfinite htokens hauth h hdata
    refine ⟨hauth, (grammar_integers_iff hgrammar).mp ?_⟩
    rw [← hwords]
    exact hfaithful.integers
  · rintro ⟨hauth, hneg⟩
    have hgrammar := grammar_of_parse hfinite htokens hauth h hdata
    refine ⟨?_, ?_, fun request' hv => ?_, ?_⟩
    · rw [hwords]
      exact grammar_words _ hgrammar
    · rw [hwords]
      exact (grammar_integers_iff hgrammar).mpr hneg
    · rw [parseCommand_variant hv htokens hauth, h]
    · refine canonical_of_grammar hf hfinite (isToken_of_requestTokens htokens)
        (fun init last heq => ?_) hgrammar
      rw [heq] at htokens
      exact ends_of_requestTokens htokens

theorem exampleStof_finite (word : Bytes) (x : UInt32) (h : exampleStof word = some x) :
    isFiniteFloat x = true := by
  unfold exampleStof at h
  split at h
  · cases h
    decide
  · split at h
    · cases h
    · dsimp only at h
      split at h
      · rename_i hfin
        cases h
        exact hfin
      · cases h

/-- An item is deleted. -/
theorem faithful_iff_vecdel :
    parseCommand exampleStof (fun _ => false) (ascii " vecdel a\t") 1000 =
        .ok (.write { type := .kVecdel, id := ascii "a" }) ∧
      Faithful exampleFormat exampleStof (fun _ => false) 1000 (ascii " vecdel a\t")
        (.write { type := .kVecdel, id := ascii "a" }) := by
  have hparse : parseCommand exampleStof (fun _ => false) (ascii " vecdel a\t") 1000 =
      .ok (.write { type := .kVecdel, id := ascii "a" }) := rfl
  refine ⟨hparse, (faithful_iff example_roundTrips exampleStof_finite hparse trivial).mpr ⟨?_, ?_⟩⟩
  · decide
  · rintro ⟨hcon, -⟩
    exact absurd hcon (by decide)

/-- **The timestamp -1** is read as the last there is; and with a blank in front of `AUTH secret`
    the password is not `secret`. -/
theorem request_not_faithful :
    (∃ r, parseCommand exampleStof (fun _ => false) (ascii "EVENT c DEL x timestamp=-1") 1000 =
        .ok r ∧ DataRequest r ∧ ¬ Faithful exampleFormat exampleStof (fun _ => false) 1000
          (ascii "EVENT c DEL x timestamp=-1") r) ∧
      ∃ r, parseCommand exampleStof (fun _ => false) (ascii "AUTH secret") 1000 = .ok r ∧
        DataRequest r ∧ ¬ Faithful exampleFormat exampleStof (fun _ => false) 1000
          (ascii "AUTH secret") r := by
  constructor
  · refine ⟨.write { type := .kEvent, ctx := ascii "c", id := ascii "x", eventType := .DEL
                     timestamp := some 18446744073709551615 }, rfl, trivial, fun hfaithful => ?_⟩
    have hrel : Option.Rel (fun word t => ∃ value, afterText kTimestampText word = some value ∧
        Decimal value (UInt64.toNat t)) (some (ascii "timestamp=-1"))
        (some 18446744073709551615) := (hfaithful.integers rfl).2
    obtain ⟨value, hvalue, hdecimal⟩ | _ := hrel
    cases hvalue
    have hle := decimal_minus hdecimal (rfl : _ = 45 :: ascii "1")
    have hmax : UInt64.toNat 18446744073709551615 = 18446744073709551615 := rfl
    rw [hmax] at hle
    omega
  · refine ⟨.auth (ascii "secret"), rfl, trivial, fun hfaithful => ?_⟩
    have hread : parseCommand exampleStof (fun _ => false) (ascii " AUTH secret") 1000 =
        .ok (.auth (ascii "AUTH secret")) := rfl
    have hvariant : Variant (ascii "AUTH secret") (ascii " AUTH secret") :=
      { letters := rfl
        arguments := by decide
        oneLine := by
          unfold OneLine
          decide }
    have hsame := hread.symm.trans (hfaithful.variants _ hvariant)
    cases hsame

end Faithful

end Nvecd.Client
