/-
  File:      Nvecd/Configuration/SettingText.lean
  Subject:   The texts of settings, and how they are read
             (`config/runtime_variable_manager.cpp`).

  The settings at the start are written by `std::to_string`, those of `SET` by `std::to_chars`.
  How either library reads and writes a `double` otherwise is left open.

  * `textOfDouble`, `DoubleText` -- the two ways to write a number;
  * `parseBool`, `parseInt`, `parseDouble`, `logLevel?` -- the readers;
  * `parseBool_textOfBool`, `parseInt_textOfInt32`, `logLevel?_name` -- what is written is read
    back;
  * `stod_textOfDouble_iff` -- a number with more than six decimals is not;
  * `exactTexts` -- a library that writes all numbers exactly.
-/
import Mathlib.Algebra.Order.Field.Basic
import Mathlib.Data.Nat.Cast.Field
import Mathlib.Data.Rat.Encodable
import Nvecd.Server.ScoreFormat

namespace Nvecd.Configuration

open Nvecd.Lib Nvecd.Utils
open Nvecd.Storage (Bytes)
open Nvecd.Server
open Nvecd.Vectors (textOf isDigit digitsValue)

/-! ## 1. Texts of values -/

def textOfBool (b : Bool) : Bytes := if b then ascii "true" else ascii "false"

def textOfUInt32 (n : UInt32) : Bytes := natText n.toNat

def textOfUInt64 (n : UInt64) : Bytes := natText n.toNat

def textOfInt32 (n : Int32) : Bytes := intText n.toInt

/-- `std::to_string` of a `double`: six decimals, rounded half to even. -/
def textOfDouble (q : ℚ) : Bytes :=
  (if decide (q < 0) then [45] else []) ++
    fixedText 6 (roundHalfEven (q.num.natAbs * 10 ^ 6) q.den)

/-- How the standard library and the JSON library read and write a `double`, which is the number it
    stands for. -/
structure DoubleText where
  /-- `std::stod`, of a text that it takes whole, for a finite number. -/
  stod : Bytes → Option ℚ
  /-- `std::to_chars`. -/
  toChars : ℚ → Bytes
  /-- `dump()`. -/
  dump : ℚ → Bytes
  stod_decimal : ∀ {text v}, decimalValue text = some v → stod text = some v
  stod_toChars : ∀ q, stod (toChars q) = some q
  stod_dump : ∀ q, stod (dump q) = some q

/-! ## 2. Readers -/

def parseBool (value : Bytes) : Except Error Bool :=
  if value = ascii "true" ∨ value = ascii "on" ∨ value = ascii "1" ∨ value = ascii "yes" then
    .ok true
  else if value = ascii "false" ∨ value = ascii "off" ∨ value = ascii "0" ∨
      value = ascii "no" then
    .ok false
  else .error (makeError .kInvalidArgument
    ("Invalid boolean value (use true/false, on/off, 1/0): " ++ textOf value))

/-- The `-` before a number, and the rest. -/
def splitSign : Bytes → Bool × Bytes
  | 45 :: rest => (true, rest)
  | value => (false, value)

/-- `std::from_chars`: digits, one `-` before them, nothing else. -/
def parseInt (value : Bytes) : Except Error Int32 :=
  let (negative, digits) := splitSign value
  let number : Int := if negative then -(digitsValue digits) else digitsValue digits
  if digits = [] ∨ digits.all isDigit = false ∨ number < -(2 ^ 31) ∨ 2 ^ 31 ≤ number then
    .error (makeError .kInvalidArgument ("Invalid integer value: " ++ textOf value))
  else .ok (Int32.ofInt number)

def parseDouble (T : DoubleText) (value : Bytes) : Except Error ℚ :=
  match T.stod value with
  | none => .error (makeError .kInvalidArgument ("Invalid double value: " ++ textOf value))
  | some q => .ok q

inductive LogLevel where
  | trace
  | debug
  | info
  | warn
  | err
  deriving DecidableEq, Repr

def LogLevel.name : LogLevel → Bytes
  | trace => ascii "trace"
  | debug => ascii "debug"
  | info => ascii "info"
  | warn => ascii "warn"
  | err => ascii "error"

/-- `spdlog::level`, of a text that is one. -/
def logLevel? (value : Bytes) : Option LogLevel :=
  if value = ascii "trace" then some .trace
  else if value = ascii "debug" then some .debug
  else if value = ascii "info" then some .info
  else if value = ascii "warn" then some .warn
  else if value = ascii "error" then some .err
  else none

/-! ## 3. What is written is read back -/

theorem logLevel?_name (level : LogLevel) : logLevel? level.name = some level := by
  cases level <;> decide +kernel

/-- Only the name of a level is one. -/
theorem eq_name_of_logLevel? {value : Bytes} {level : LogLevel} (h : logLevel? value = some level) :
    value = level.name := by
  unfold logLevel? at h
  repeat' split at h
  all_goals first
    | cases h; assumption
    | cases h

theorem parseBool_textOfBool (b : Bool) : parseBool (textOfBool b) = .ok b := by
  cases b <;> decide +kernel

theorem splitSign_natText (n : Nat) : splitSign (natText n) = (false, natText n) := by
  unfold splitSign
  split
  · rename_i rest heq
    have hdigit : isDigitByte 45 = true := isDigitByte_natText (heq ▸ List.mem_cons_self)
    exact absurd hdigit (by decide)
  · rfl

theorem splitSign_intText (n : Int) : splitSign (intText n) = (decide (n < 0), natText n.natAbs) := by
  by_cases hneg : n < 0
  · rw [intText, if_pos hneg, decide_eq_true hneg]
    rfl
  · rw [intText, if_neg hneg, decide_eq_false hneg, splitSign_natText]

theorem all_isDigit_natText (n : Nat) : (natText n).all isDigit = true :=
  List.all_eq_true.mpr fun _ hb => isDigitByte_natText hb

theorem parseInt_textOfInt32 (n : Int32) : parseInt (textOfInt32 n) = .ok n := by
  have hlow := Int32.le_toInt n
  have hhigh := Int32.toInt_lt n
  have hnumber : (if decide (n.toInt < 0) = true then -(n.toInt.natAbs : Int)
      else n.toInt.natAbs) = n.toInt := by
    split <;> rename_i hneg <;> rw [decide_eq_true_eq] at hneg <;> omega
  rw [textOfInt32, parseInt, splitSign_intText]
  simp only [digitsValue_natText, hnumber, natText_ne_nil, all_isDigit_natText,
    Bool.true_eq_false, false_or]
  rw [if_neg (by omega), Int32.ofInt_toInt]

/-! ## 4. Numbers -/

/-- A number has at most this many digits behind the point. -/
def HasPlaces (places : Nat) (q : ℚ) : Prop := q.den ∣ 10 ^ places

instance (places : Nat) (q : ℚ) : Decidable (HasPlaces places q) :=
  inferInstanceAs (Decidable (_ ∣ _))

theorem natAbs_div_den (q : ℚ) : (q.num.natAbs : ℚ) / q.den = |q| := by
  rw [Rat.abs_def, Rat.divInt_eq_div, Int.cast_natCast, Int.cast_natCast]

theorem sign_mul_abs (q : ℚ) : (if decide (q < 0) = true then -1 else 1) * |q| = q := by
  by_cases hneg : q < 0
  · rw [decide_eq_true hneg, if_pos rfl, abs_of_neg hneg, neg_one_mul, neg_neg]
  · rw [decide_eq_false hneg, if_neg (by decide), abs_of_nonneg (not_lt.mp hneg), one_mul]

/-- The text of a number with this many digits behind the point, as `std::to_string` writes it. -/
def decimalText (places : Nat) (q : ℚ) : Bytes :=
  (if decide (q < 0) then [45] else []) ++ fixedText places (q.num.natAbs * 10 ^ places / q.den)

theorem decimalValue_decimalText {places : Nat} {q : ℚ} (h : HasPlaces places q) :
    decimalValue (decimalText places q) = some q := by
  have hscaled : ((q.num.natAbs * 10 ^ places / q.den : Nat) : ℚ) / 10 ^ places = |q| := by
    have hden : (q.den : ℚ) ≠ 0 := Nat.cast_ne_zero.mpr q.den_nz
    have hdvd : q.den ∣ q.num.natAbs * 10 ^ places := h.mul_left _
    rw [Nat.cast_div hdvd hden, Nat.cast_mul, Nat.cast_pow, Nat.cast_ofNat, div_right_comm,
      mul_div_cancel_right₀ _ (pow_ne_zero _ (by norm_num)), natAbs_div_den]
  rw [decimalText, decimalValue_fixedText, hscaled, sign_mul_abs]

/-- A decimal text of a number tells how many digits it has behind the point. -/
theorem hasPlaces_of_div {places : Nat} {q : ℚ} {n : Int} (h : q = n / 10 ^ places) :
    HasPlaces places q := by
  have hq : q = Rat.divInt n (10 ^ places : Nat) := by
    rw [Rat.divInt_eq_div, h]
    push_cast
    rfl
  have hdvd : (q.den : Int) ∣ ((10 ^ places : Nat) : Int) := hq ▸ Rat.den_dvd n _
  exact Int.natCast_dvd_natCast.mp hdvd

theorem textOfDouble_eq {q : ℚ} (h : HasPlaces 6 q) : textOfDouble q = decimalText 6 q := by
  rw [textOfDouble, decimalText, roundHalfEven_of_dvd (h.mul_left _)]

variable (T : DoubleText)

/-- **`std::to_string` keeps the numbers with at most six decimals**, and no others. -/
theorem stod_textOfDouble_iff (q : ℚ) : T.stod (textOfDouble q) = some q ↔ HasPlaces 6 q := by
  constructor
  · intro h
    have htext := @decimalValue_fixedText (decide (q < 0)) 6
      (roundHalfEven (q.num.natAbs * 10 ^ 6) q.den)
    rw [textOfDouble, T.stod_decimal htext, Option.some_inj] at h
    refine @hasPlaces_of_div 6 q ((if decide (q < 0) then -1 else 1) *
      (roundHalfEven (q.num.natAbs * 10 ^ 6) q.den : Int)) ?_
    conv_lhs => rw [← h]
    push_cast
    split <;> ring
  · intro h
    rw [textOfDouble_eq h]
    exact T.stod_decimal (decimalValue_decimalText h)

/-! ## 5. Exact texts -/

theorem decimalValue_intText (n : Int) : decimalValue (intText n) = some (n : ℚ) := by
  have hunsigned : ∀ m : Nat, unsignedValue (natText m) = some (m : ℚ) := by
    intro m
    have hdigits : ∀ b ∈ natText m, isDigit b = true := fun b hb => isDigitByte_natText hb
    rw [unsignedValue, List.takeWhile_eq_self_iff.mpr hdigits,
      List.dropWhile_eq_nil_iff.mpr hdigits, if_neg (natText_ne_nil m), digitsValue_natText]
  by_cases hneg : n < 0
  · have habs : (n.natAbs : ℚ) = -(n : ℚ) := by
      rw [Nat.cast_natAbs, abs_of_neg hneg, Int.cast_neg]
    rw [intText, if_pos hneg]
    show (unsignedValue (natText n.natAbs)).map _ = _
    rw [hunsigned, Option.map_some, habs, neg_one_mul, neg_neg]
  · have habs : (n.natAbs : ℚ) = n := by
      rw [Nat.cast_natAbs, abs_of_nonneg (not_lt.mp hneg)]
    have hread : decimalValue (natText n.natAbs) = unsignedValue (natText n.natAbs) := by
      unfold decimalValue
      split
      · rename_i text heq
        have hsplit := splitSign_natText n.natAbs
        rw [heq] at hsplit
        cases hsplit
      · rfl
    rw [intText, if_neg hneg, hread, hunsigned, habs]

/-- The digits that a number needs behind the point, if it has finitely many. -/
def decimalPlaces (q : ℚ) : Option Nat :=
  (List.range (q.den + 1)).find? fun places => decide (HasPlaces places q)

theorem hasPlaces_of_decimalPlaces {q : ℚ} {places : Nat} (h : decimalPlaces q = some places) :
    HasPlaces places q := by
  have hfound := List.find?_some h
  exact of_decide_eq_true hfound

/-- The shortest text of a number. No decimal text begins like that of a number that needs
    infinitely many digits. -/
def exactText (q : ℚ) : Bytes :=
  match decimalPlaces q with
  | some 0 => intText q.num
  | some places => decimalText places q
  | none => 47 :: natText (Encodable.encode q)

def readExact : Bytes → Option ℚ
  | 47 :: code => Encodable.decode (digitsValue code)
  | text => decimalValue text

theorem decimalValue_slash (text : Bytes) : decimalValue (47 :: text) = none := by
  have hslash : isDigit 47 = false := by decide
  show unsignedValue (47 :: text) = none
  rw [unsignedValue, List.takeWhile_cons_of_neg (by simp [hslash])]
  exact if_pos rfl

theorem readExact_decimal {text : Bytes} {v : ℚ} (h : decimalValue text = some v) :
    readExact text = some v := by
  unfold readExact
  split
  · rw [decimalValue_slash] at h
    cases h
  · exact h

theorem readExact_exactText (q : ℚ) : readExact (exactText q) = some q := by
  unfold exactText
  split
  · rename_i hplaces
    have hden : q.den = 1 := Nat.dvd_one.mp (hasPlaces_of_decimalPlaces hplaces)
    refine readExact_decimal ?_
    rw [decimalValue_intText, Rat.coe_int_num_of_den_eq_one hden]
  · rename_i places _ hplaces
    exact readExact_decimal (decimalValue_decimalText (hasPlaces_of_decimalPlaces hplaces))
  · rw [readExact, digitsValue_natText, Encodable.encodek]

/-- A whole number with a digit behind the point, any other as short as it is. -/
def exactDump (q : ℚ) : Bytes := if q.den = 1 then decimalText 1 q else exactText q

theorem readExact_exactDump (q : ℚ) : readExact (exactDump q) = some q := by
  unfold exactDump
  split
  · rename_i hden
    have hplaces : HasPlaces 1 q := by
      rw [HasPlaces, hden]
      exact one_dvd _
    exact readExact_decimal (decimalValue_decimalText hplaces)
  · exact readExact_exactText q

/-- A library that writes every number exactly. -/
def exactTexts : DoubleText where
  stod := readExact
  toChars := exactText
  dump := exactDump
  stod_decimal := readExact_decimal
  stod_toChars := readExact_exactText
  stod_dump := readExact_exactDump

end Nvecd.Configuration
