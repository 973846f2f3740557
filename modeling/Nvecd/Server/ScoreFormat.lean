/-
  File:      Nvecd/Server/ScoreFormat.lean
  Subject:   `server/score_format.h`: a score as the text of the TCP surface and as the number of
             the JSON surface.

  The text is what `printf` makes of the exact value, cut to the buffer it is written to. The
  number is rounded by `std::round` after a multiplication in double precision, which is exact.

  * `formatScore`, `roundScoreMultiple` -- the two renderings;
  * `decimalValue` -- the number that a decimal text denotes;
  * `RendersAlike` -- the text is whole and denotes the multiple;
  * `score_rendering_iff` -- so it does for scores that fit the buffer and are not half way above
    an even multiple.
-/
import Mathlib.Data.FinEnum
import Nvecd.Lib.BinaryFloat
import Nvecd.Lib.Rounding
import Nvecd.Server.CommandParser

namespace Nvecd.Server

open Nvecd.Lib Nvecd.Storage Nvecd.Vectors

/-! ## 1. The two renderings -/

def kScorePrecision : Nat := 4

/-- The size of the buffer that `FormatScore` writes to. -/
def kScoreBufferSize : Nat := 32

/-- The last `k` digits of a number. -/
def paddedDigits : Nat → Nat → Bytes
  | 0, _ => []
  | k + 1, n => UInt8.ofNat (48 + n / 10 ^ k % 10) :: paddedDigits k n

/-- `%.*f` of a number of ten-thousandths. -/
def fixedText (precision n : Nat) : Bytes :=
  natText (n / 10 ^ precision) ++ 46 :: paddedDigits precision n

/-- The sign that `printf` writes, also of zero. -/
def signText (score : UInt32) : Bytes := if signFloat score then [45] else []

/-- What `snprintf` would write without a bound: the exact value, rounded half to even. -/
def printfScore (score : UInt32) : Bytes :=
  signText score ++
    if isNaNFloat score then ascii "nan"
    else if isFiniteFloat score then
      fixedText kScorePrecision
        (roundHalfEven (floatMagnitude score * 10 ^ kScorePrecision) floatUnits)
    else ascii "inf"

/-- **`FormatScore`**: as much as fits the buffer, whose last byte ends the text. -/
def formatScore (score : UInt32) : Bytes := (printfScore score).take (kScoreBufferSize - 1)

/-- `static_cast<double>(score) * scale`, without its sign, in the units of a float. The double
    has 53 bits for it, and no exponent that is out of reach. -/
def scaledScore (score : UInt32) : Nat :=
  roundSignificand 52 (floatMagnitude score * 10 ^ kScorePrecision)

/-- **`RoundScore`** before it divides by the scale: `std::round` of the product. -/
def roundScoreMultiple (score : UInt32) : Int :=
  (if signFloat score then -1 else 1) * roundHalfAway (scaledScore score) floatUnits

/-! ## 2. What a text denotes -/

/-- The number of digits, and of digits behind a point. -/
def unsignedValue (text : Bytes) : Option ℚ :=
  let whole := text.takeWhile isDigit
  if whole = [] then none
  else
    match text.dropWhile isDigit with
    | [] => some (digitsValue whole : ℚ)
    | b :: fraction =>
      if b = 46 ∧ ∀ d ∈ fraction, isDigit d = true then
        some ((digitsValue (whole ++ fraction) : ℚ) / 10 ^ fraction.length)
      else none

/-- **The number of a decimal text.** -/
def decimalValue : Bytes → Option ℚ
  | 45 :: text => (unsignedValue text).map fun x => -1 * x
  | text => unsignedValue text

theorem toNat_digitByte (d : Nat) : (UInt8.ofNat (48 + d % 10)).toNat = 48 + d % 10 := by
  refine UInt8.toNat_ofNat_of_lt' ?_
  have hlt := Nat.mod_lt d (by decide : 0 < 10)
  have hsize : UInt8.size = 256 := rfl
  omega

theorem length_paddedDigits (k n : Nat) : (paddedDigits k n).length = k := by
  induction k with
  | zero => rfl
  | succ k ih => rw [paddedDigits, List.length_cons, ih]

theorem isDigit_paddedDigits {k n : Nat} : ∀ b ∈ paddedDigits k n, isDigit b = true := by
  induction k with
  | zero => exact fun b hb => absurd hb List.not_mem_nil
  | succ k ih =>
    intro b hb
    rcases List.mem_cons.mp hb with rfl | hb
    · have hval := toNat_digitByte (n / 10 ^ k)
      have hlt := Nat.mod_lt (n / 10 ^ k) (by decide : 0 < 10)
      simp only [isDigit, Bool.and_eq_true, decide_eq_true_eq, UInt8.le_iff_toNat_le, hval]
      have h48 : (48 : UInt8).toNat = 48 := rfl
      have h57 : (57 : UInt8).toNat = 57 := rfl
      omega
    · exact ih b hb

/-- Digits behind a number shift it. -/
theorem digitsValue_append_padded (whole : Bytes) (k n : Nat) :
    digitsValue (whole ++ paddedDigits k n) = digitsValue whole * 10 ^ k + n % 10 ^ k := by
  have hfold : ∀ k init, (paddedDigits k n).foldl (fun a b => 10 * a + (b.toNat - 48)) init =
      init * 10 ^ k + n % 10 ^ k := by
    intro k
    induction k with
    | zero => intro init; simp [paddedDigits, Nat.mod_one]
    | succ k ih =>
      intro init
      rw [paddedDigits, List.foldl_cons, ih, toNat_digitByte, Nat.mod_pow_succ]
      have hdigit : 48 + n / 10 ^ k % 10 - 48 = n / 10 ^ k % 10 := by omega
      rw [hdigit]
      ring
  rw [digitsValue, List.foldl_append, hfold]
  rfl

/-- **The text of a number of ten-thousandths** denotes that number. -/
theorem unsignedValue_fixedText (k n : Nat) :
    unsignedValue (fixedText k n) = some (n / 10 ^ k : ℚ) := by
  have hdigits : ∀ b ∈ natText (n / 10 ^ k), isDigit b = true :=
    fun b hb => isDigitByte_natText hb
  have hdot : isDigit 46 = false := by decide
  have htake : (fixedText k n).takeWhile isDigit = natText (n / 10 ^ k) := by
    rw [fixedText, List.takeWhile_append_of_pos hdigits,
      List.takeWhile_cons_of_neg (by simp [hdot]), List.append_nil]
  have hdrop : (fixedText k n).dropWhile isDigit = 46 :: paddedDigits k n := by
    rw [fixedText, List.dropWhile_append_of_pos hdigits,
      List.dropWhile_cons_of_neg (by simp [hdot])]
  unfold unsignedValue
  dsimp only
  rw [htake, hdrop, if_neg (natText_ne_nil _)]
  dsimp only
  rw [if_pos ⟨rfl, isDigit_paddedDigits⟩, length_paddedDigits, digitsValue_append_padded,
    digitsValue_natText, Nat.div_add_mod']

theorem decimalValue_fixedText (negative : Bool) (k n : Nat) :
    decimalValue ((if negative then [45] else []) ++ fixedText k n) =
      some ((if negative then -1 else 1) * (n / 10 ^ k : ℚ)) := by
  cases negative with
  | true =>
    show (unsignedValue (fixedText k n)).map _ = _
    rw [unsignedValue_fixedText]
    rfl
  | false =>
    have hsign : ∀ text, fixedText k n ≠ 45 :: text := by
      intro text heq
      obtain ⟨b, rest, hcons⟩ := List.exists_cons_of_ne_nil (natText_ne_nil (n / 10 ^ k))
      rw [fixedText, hcons, List.cons_append] at heq
      cases heq
      have hdigit : isDigitByte 45 = true := isDigitByte_natText (hcons ▸ List.mem_cons_self)
      exact absurd hdigit (by decide)
    have hread : decimalValue (fixedText k n) = unsignedValue (fixedText k n) := by
      unfold decimalValue
      split
      · rename_i text heq
        exact absurd heq (hsign text)
      · rfl
    show decimalValue (fixedText k n) = _
    rw [hread, unsignedValue_fixedText, if_neg (by decide), one_mul]

/-! ## 3. What fits -/

/-- The text fits if the whole part has at most 26 characters, with the sign. -/
theorem fixedText_length_le {negative : Bool} {n : Nat} :
    ((if negative then [45] else []) ++ fixedText kScorePrecision n : Bytes).length ≤
        kScoreBufferSize - 1 ↔
      n < 10 ^ (if negative then 29 else 30) := by
  have hwhole : ∀ m, 0 < m →
      ((natText (n / 10 ^ kScorePrecision)).length ≤ m ↔ n < 10 ^ (m + kScorePrecision)) := by
    intro m hm
    rw [natText, List.length_map, Nat.length_toDigits_le_iff (by decide) hm, pow_add,
      Nat.div_lt_iff_lt_mul (Nat.pow_pos (by decide))]
  rw [List.length_append, fixedText, List.length_append, List.length_cons, length_paddedDigits]
  cases negative with
  | true =>
    have hfit : _ ↔ n < 10 ^ 29 := hwhole 25 (by decide)
    rw [if_pos rfl, if_pos rfl, ← hfit]
    unfold kScorePrecision kScoreBufferSize
    simp only [List.length_cons, List.length_nil]
    omega
  | false =>
    have hfit : _ ↔ n < 10 ^ 30 := hwhole 26 (by decide)
    rw [if_neg (by decide), if_neg (by decide), ← hfit]
    unfold kScorePrecision kScoreBufferSize
    simp only [List.length_nil]
    omega

/-- **Rounding does not leave a range** that ends at a large whole number: only small floats have
    a fraction. -/
theorem rounded_lt_iff {score : UInt32} {b : Nat} (hb : 2 ^ 24 * 10 ^ 4 < b) :
    roundHalfEven (floatMagnitude score * 10 ^ 4) floatUnits < b ↔
      floatMagnitude score * 10 ^ 4 < b * floatUnits := by
  have hunits := floatUnits_pos
  constructor
  · intro h
    have hfloor : floatMagnitude score * 10 ^ 4 / floatUnits < b := le_roundHalfEven.trans_lt h
    exact (Nat.div_lt_iff_lt_mul hunits).mp hfloor
  · intro h
    obtain ⟨m, e, hmag, hm⟩ := magnitude_eq_mul 23 (score.toNat % 2 ^ 31)
    have hmag : floatMagnitude score = m * 2 ^ e := hmag
    by_cases he : 149 ≤ e
    · have hdvd : floatUnits ∣ floatMagnitude score * 10 ^ 4 := by
        rw [hmag]
        exact Nat.dvd_mul_right_of_dvd (Nat.dvd_mul_left_of_dvd (Nat.pow_dvd_pow 2 he) m) _
      rw [roundHalfEven_of_dvd hdvd]
      exact (Nat.div_lt_iff_lt_mul hunits).mpr h
    · have hsmall : floatMagnitude score * 10 ^ 4 < 2 ^ 24 * 10 ^ 4 * floatUnits := by
        have hpow : 2 ^ e ≤ floatUnits := Nat.pow_le_pow_right (by decide) (by omega)
        have hle : floatMagnitude score < 2 ^ 24 * floatUnits := by
          rw [hmag]
          exact Nat.mul_lt_mul_of_lt_of_le hm hpow hunits
        calc
          floatMagnitude score * 10 ^ 4 < 2 ^ 24 * floatUnits * 10 ^ 4 :=
            Nat.mul_lt_mul_of_pos_right hle (by decide)
          _ = 2 ^ 24 * 10 ^ 4 * floatUnits := Nat.mul_right_comm _ _ _
      have hfloor := (Nat.div_lt_iff_lt_mul hunits).mpr hsmall
      have hround := @roundHalfEven_le (floatMagnitude score * 10 ^ 4) floatUnits
      omega

/-- The product is exact: it has 38 bits at most. -/
theorem scaledScore_eq (score : UInt32) :
    scaledScore score = floatMagnitude score * 10 ^ kScorePrecision := by
  obtain ⟨m, e, hmag, hm⟩ := magnitude_eq_mul 23 (score.toNat % 2 ^ 31)
  have hprod : floatMagnitude score * 10 ^ kScorePrecision =
      m * 10 ^ kScorePrecision * 2 ^ e := by
    unfold floatMagnitude
    rw [hmag]
    exact Nat.mul_right_comm _ _ _
  unfold scaledScore
  rw [hprod]
  refine roundSignificand_exact ?_
  have hlt := Nat.mul_lt_mul_of_pos_right hm (Nat.pow_pos (n := kScorePrecision) (by decide : 0 < 10))
  exact hlt.trans (by decide)

/-! ## 4. Agreement -/

/-- **The text says what the number is**: it is whole, and denotes the multiple that `RoundScore`
    divides by the scale. -/
def RendersAlike (score : UInt32) : Prop :=
  formatScore score = printfScore score ∧
    decimalValue (formatScore score) = some ((roundScoreMultiple score : ℚ) / 10 ^ kScorePrecision)

/-- The values whose text fits the buffer. -/
theorem fits_iff (score : UInt32) :
    roundHalfEven (floatMagnitude score * 10 ^ 4) floatUnits <
        10 ^ (if signFloat score then 29 else 30) ↔
      -(10 ^ 25) < floatValue score ∧ floatValue score < 10 ^ 26 := by
  have hunits : (0 : ℚ) < floatUnits := Nat.cast_pos.mpr floatUnits_pos
  have hnonneg : (0 : ℚ) ≤ floatMagnitude score / floatUnits :=
    div_nonneg (Nat.cast_nonneg _) hunits.le
  have hbound : ∀ m, 12 ≤ m →
      (roundHalfEven (floatMagnitude score * 10 ^ 4) floatUnits < 10 ^ (m + 4) ↔
        (floatMagnitude score / floatUnits : ℚ) < 10 ^ m) := by
    intro m hm
    have hlarge : 2 ^ 24 * 10 ^ 4 < 10 ^ (m + 4) := by
      have hle : 10 ^ 16 ≤ 10 ^ (m + 4) := Nat.pow_le_pow_right (by decide) (by omega)
      omega
    rw [rounded_lt_iff hlarge, div_lt_iff₀ hunits, pow_add, Nat.mul_right_comm,
      Nat.mul_lt_mul_right (by decide)]
    norm_cast
  rw [floatValue_eq]
  cases signFloat score with
  | true =>
    rw [if_pos rfl, if_pos rfl, hbound 25 (by decide)]
    constructor
    · intro h
      constructor <;> linarith
    · rintro ⟨h, -⟩
      linarith
  | false =>
    rw [if_neg (by decide), if_neg (by decide), hbound 26 (by decide), one_mul]
    constructor
    · intro h
      exact ⟨by linarith, h⟩
    · exact fun h => h.2

/-- **The two surfaces render a score alike** unless it lies half way above an even multiple of
    the last digit, or its text does not fit the buffer. -/
theorem score_rendering_iff {score : UInt32} (hfin : isFiniteFloat score = true) :
    RendersAlike score ↔
      -(10 ^ 25) < floatValue score ∧ floatValue score < 10 ^ 26 ∧
        ¬ ∃ j : Nat, |floatValue score| * 10 ^ kScorePrecision = 2 * j + 1 / 2 := by
  have hprintf : printfScore score = (if signFloat score then [45] else []) ++
      fixedText kScorePrecision
        (roundHalfEven (floatMagnitude score * 10 ^ kScorePrecision) floatUnits) := by
    have hnan : isNaNFloat score = false := by
      rw [isNaNFloat, hfin]
      rfl
    rw [printfScore, hnan, hfin]
    rfl
  have hwhole : formatScore score = printfScore score ↔
      -(10 ^ 25) < floatValue score ∧ floatValue score < 10 ^ 26 := by
    rw [formatScore, List.take_eq_self_iff, hprintf, fixedText_length_le]
    exact fits_iff score
  have htie : (∃ j : Nat, |floatValue score| * 10 ^ kScorePrecision = 2 * j + 1 / 2) ↔
      EvenTie (floatMagnitude score * 10 ^ kScorePrecision) floatUnits := by
    rw [evenTie_iff floatUnits_pos, abs_floatValue]
    refine exists_congr fun j => ?_
    rw [Nat.cast_mul, Nat.cast_pow, Nat.cast_ofNat, mul_div_right_comm]
  have hscale : (10 : ℚ) ^ kScorePrecision ≠ 0 := pow_ne_zero _ (by norm_num)
  unfold RendersAlike
  rw [← and_assoc, ← hwhole, htie, ← roundHalfEven_eq_iff]
  refine and_congr_right fun heq => ?_
  rw [heq, hprintf, decimalValue_fixedText, Option.some_inj, roundScoreMultiple, scaledScore_eq,
    Int.cast_mul, Int.cast_natCast, mul_div_assoc]
  cases signFloat score with
  | true =>
    simp only [if_true, Int.cast_neg, Int.cast_one, neg_one_mul, neg_inj]
    rw [div_left_inj' hscale, Nat.cast_inj]
  | false =>
    simp only [Bool.false_eq_true, if_false, Int.cast_one, one_mul]
    rw [div_left_inj' hscale, Nat.cast_inj]

/-- One half. -/
theorem score_rendering_iff_half : isFiniteFloat 0x3F000000 = true ∧ RendersAlike 0x3F000000 := by
  have hfin : isFiniteFloat 0x3F000000 = true := by decide
  have hmag : 2 * floatMagnitude 0x3F000000 = floatUnits := by decide +kernel
  have hvalue : floatValue 0x3F000000 = 1 / 2 := by
    have hunits : (floatUnits : ℚ) = 2 * floatMagnitude 0x3F000000 := by exact_mod_cast hmag.symm
    have hpos : (floatMagnitude 0x3F000000 : ℚ) ≠ 0 := by
      intro hzero
      have hne : floatMagnitude 0x3F000000 ≠ 0 := by decide +kernel
      exact hne (by exact_mod_cast hzero)
    rw [floatValue_eq, hunits]
    have hsign : signFloat 0x3F000000 = false := by decide
    rw [hsign, if_neg (by decide), one_mul]
    field_simp
  refine ⟨hfin, (score_rendering_iff hfin).mpr ?_⟩
  rw [hvalue]
  refine ⟨by norm_num, by norm_num, ?_⟩
  rintro ⟨j, hj⟩
  have hmul : (4 * j + 1 : ℚ) = 10000 := by
    rw [kScorePrecision, abs_of_pos (by norm_num)] at hj
    linarith
  have hnat : 4 * j + 1 = 10000 := by exact_mod_cast hmul
  omega

/-- **A tie, and the largest score there is**: 1/32 is `0.0312` on one surface and 313
    ten-thousandths on the other; the text of the largest float ends within its whole part. -/
theorem score_rendered_twice :
    (isFiniteFloat 0x3D000000 = true ∧ formatScore 0x3D000000 = ascii "0.0312" ∧
        roundScoreMultiple 0x3D000000 = 313 ∧ ¬ RendersAlike 0x3D000000) ∧
      isFiniteFloat 0x7F7FFFFF = true ∧
        formatScore 0x7F7FFFFF = ascii "3402823466385288598117041834845" ∧
        ¬ RendersAlike 0x7F7FFFFF := by
  have htext : formatScore 0x3D000000 = ascii "0.0312" := by decide +kernel
  have hmultiple : roundScoreMultiple 0x3D000000 = 313 := by decide +kernel
  refine ⟨⟨by decide, htext, hmultiple, ?_⟩, by decide, by decide +kernel, ?_⟩
  · rintro ⟨-, hvalue⟩
    have hread : decimalValue (ascii "0.0312") = some ((312 : Nat) / 10 ^ 4 : ℚ) := by
      exact unsignedValue_fixedText 4 312
    rw [htext, hread, hmultiple, kScorePrecision, Option.some_inj] at hvalue
    norm_num at hvalue
  · rintro ⟨hwhole, -⟩
    have hlen := congrArg List.length hwhole
    revert hlen
    decide +kernel

end Nvecd.Server
