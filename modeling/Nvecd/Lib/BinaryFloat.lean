/-
  File:      Nvecd/Lib/BinaryFloat.lean
  Subject:   The numbers that IEEE-754 bit patterns denote, as exact rationals.

  The magnitude of a number, counted in its smallest positive unit, is a whole number that grows
  with the bits: a format with `p` bits of fraction is the function `unitMagnitude p`. Rounding a
  whole number to the nearest double ends at one of its two neighbours.

  * `unitMagnitude`, `magnitude_strictMono`;
  * `doubleValue`, `exactDouble`, `ltDouble_iff` -- doubles are compared as what they denote;
  * `doubleOfNat_brackets`, `doubleOfInt64_compare` -- an integer that is rounded to compare;
  * `floatMagnitude`, `floatValue` -- floats.
-/
import Mathlib.Algebra.Order.Field.Rat
import Mathlib.Data.Int.ConditionallyCompleteOrder
import Mathlib.Data.Nat.Log
import Mathlib.Order.WithBot
import Mathlib.Tactic.Linarith
import Mathlib.Tactic.Ring
import Nvecd.Lib.Ieee754

namespace Nvecd.Lib

/-! ## 1. Magnitudes -/

/-- What the bits behind the sign count, with `p` bits of fraction: the number of smallest units. -/
def unitMagnitude (p k : Nat) : Nat :=
  if k < 2 ^ p then k else (2 ^ p + k % 2 ^ p) * 2 ^ (k / 2 ^ p - 1)

variable {p k e f : Nat}

/-- A normal number, by its exponent and its fraction; a fraction that overflows goes into the
    exponent. -/
theorem magnitude_normal (he : 0 < e) (hf : f ≤ 2 ^ p) :
    unitMagnitude p (e * 2 ^ p + f) = (2 ^ p + f) * 2 ^ (e - 1) := by
  have hpos : 0 < 2 ^ p := Nat.two_pow_pos p
  have hge : ¬e * 2 ^ p + f < 2 ^ p := by
    have := Nat.le_mul_of_pos_left (2 ^ p) he
    omega
  unfold unitMagnitude
  rw [if_neg hge]
  rcases Nat.lt_or_eq_of_le hf with hlt | rfl
  · have hmod : (e * 2 ^ p + f) % 2 ^ p = f := by
      rw [Nat.mul_add_mod_self_right, Nat.mod_eq_of_lt hlt]
    have hdiv : (e * 2 ^ p + f) / 2 ^ p = e := by
      rw [Nat.mul_comm, Nat.mul_add_div hpos, Nat.div_eq_of_lt hlt, Nat.add_zero]
    rw [hmod, hdiv]
  · have hsum : e * 2 ^ p + 2 ^ p = (e + 1) * 2 ^ p := (Nat.succ_mul e (2 ^ p)).symm
    rw [hsum, Nat.mul_mod_left, Nat.mul_div_cancel _ hpos, Nat.add_sub_cancel, Nat.add_zero]
    obtain ⟨e, rfl⟩ := Nat.exists_eq_succ_of_ne_zero he.ne'
    rw [Nat.succ_sub_one, pow_succ]
    ring

theorem magnitude_subnormal (h : k ≤ 2 ^ p) : unitMagnitude p k = k := by
  unfold unitMagnitude
  split
  · rfl
  · obtain rfl : k = 2 ^ p := by omega
    rw [Nat.mod_self, Nat.div_self (Nat.two_pow_pos p)]
    ring

theorem magnitude_lt_succ (p k : Nat) : unitMagnitude p k < unitMagnitude p (k + 1) := by
  by_cases hk : k < 2 ^ p
  · rw [magnitude_subnormal hk.le, magnitude_subnormal hk]
    exact Nat.lt_succ_self k
  · have hpos : 0 < 2 ^ p := Nat.two_pow_pos p
    have he : 0 < k / 2 ^ p := Nat.div_pos (Nat.le_of_not_lt hk) hpos
    have hf : k % 2 ^ p < 2 ^ p := Nat.mod_lt k hpos
    have hsplit : k = k / 2 ^ p * 2 ^ p + k % 2 ^ p := (Nat.div_add_mod' k (2 ^ p)).symm
    have hhere := magnitude_normal he hf.le
    have hnext := magnitude_normal (f := k % 2 ^ p + 1) he hf
    rw [← Nat.add_assoc, ← hsplit] at hnext
    rw [← hsplit] at hhere
    rw [hhere, hnext]
    exact Nat.mul_lt_mul_of_pos_right (by omega) (Nat.two_pow_pos _)

/-- **The magnitude grows with the bits.** -/
theorem magnitude_strictMono (p : Nat) : StrictMono (unitMagnitude p) :=
  strictMono_nat_of_lt_succ (magnitude_lt_succ p)

/-! ## 2. Doubles -/

/-- The units of a double's rank, with its sign. -/
def signedUnits (p : Nat) (rank : Int) : Int :=
  if 0 ≤ rank then unitMagnitude p rank.toNat else -unitMagnitude p (-rank).toNat

theorem signedUnits_strictMono (p : Nat) : StrictMono (signedUnits p) := by
  intro a b hab
  have hzero : unitMagnitude p 0 = 0 := magnitude_subnormal (Nat.zero_le _)
  unfold signedUnits
  split
  · rw [if_pos (by omega)]
    exact_mod_cast magnitude_strictMono p (by omega)
  · have hneg : 0 < unitMagnitude p (-a).toNat := by
      rw [← hzero]
      exact magnitude_strictMono p (by omega)
    split
    · omega
    · have := magnitude_strictMono p (show (-b).toNat < (-a).toNat by omega)
      omega

/-- The smallest units that make one. -/
def doubleUnits : Nat := 2 ^ 1074

theorem doubleUnits_pos : 0 < doubleUnits := by
  unfold doubleUnits
  positivity

/-- The rank of infinity. -/
def infiniteRank : Int := 2047 * 2 ^ 52

/-- The number a finite double denotes. -/
def doubleValue (bits : UInt64) : ℚ := signedUnits 52 (doubleRank bits) / doubleUnits

/-- **What a double denotes**; a NaN denotes nothing. -/
def exactDouble (bits : UInt64) : Option (WithBot (WithTop ℚ)) :=
  if isNaNDouble bits then none
  else if doubleRank bits = infiniteRank then some ((⊤ : WithTop ℚ) : WithBot (WithTop ℚ))
  else if doubleRank bits = -infiniteRank then some ⊥
  else some ((doubleValue bits : WithTop ℚ) : WithBot (WithTop ℚ))

theorem natAbs_doubleRank (bits : UInt64) : (doubleRank bits).natAbs = bits.toNat % 2 ^ 63 := by
  unfold doubleRank
  split
  · rw [Int.natAbs_neg, Int.natAbs_natCast]
  · rw [Int.natAbs_natCast]

/-- Beyond infinity there are only NaNs. -/
theorem isNaNDouble_eq_false {bits : UInt64} :
    isNaNDouble bits = false ↔
      -infiniteRank ≤ doubleRank bits ∧ doubleRank bits ≤ infiniteRank := by
  have habs := natAbs_doubleRank bits
  have hrank : bits.toNat % 2 ^ 63 ≤ 2047 * 2 ^ 52 ↔
      -infiniteRank ≤ doubleRank bits ∧ doubleRank bits ≤ infiniteRank := by
    unfold infiniteRank
    omega
  rw [← hrank]
  unfold isNaNDouble isFiniteDouble
  simp only [Bool.and_eq_false_iff, Bool.not_eq_false', bne_iff_ne, ne_eq, bne_eq_false_iff_eq]
  omega

theorem doubleValue_lt_iff {x y : UInt64} :
    doubleValue x < doubleValue y ↔ doubleRank x < doubleRank y := by
  unfold doubleValue
  rw [div_lt_div_iff_of_pos_right (Nat.cast_pos.mpr doubleUnits_pos), Int.cast_lt,
    (signedUnits_strictMono 52).lt_iff_lt]

/-- **Doubles are compared as what they denote.** -/
theorem ltDouble_iff {x y : UInt64} {u v : WithBot (WithTop ℚ)} (hx : exactDouble x = some u)
    (hy : exactDouble y = some v) : ltDouble x y = true ↔ u < v := by
  unfold exactDouble at hx hy
  split at hx
  · cases hx
  · rename_i hnx
    split at hy
    · cases hy
    · rename_i hny
      rw [Bool.not_eq_true] at hnx hny
      have hrx := isNaNDouble_eq_false.1 hnx
      have hry := isNaNDouble_eq_false.1 hny
      have hpos : (0 : Int) < infiniteRank := by decide
      have hlt : ltDouble x y = true ↔ doubleRank x < doubleRank y := by
        simp [ltDouble, hnx, hny]
      rw [hlt]
      split at hx
      · cases hx
        have htop : ¬((⊤ : WithTop ℚ) : WithBot (WithTop ℚ)) < v := not_top_lt
        exact iff_of_false (by omega) htop
      · split at hx
        · cases hx
          rw [bot_lt_iff_ne_bot]
          split at hy
          · cases hy
            exact iff_of_true (by omega) nofun
          · split at hy
            · cases hy
              exact iff_of_false (by omega) (fun h => h rfl)
            · cases hy
              exact iff_of_true (by omega) (WithBot.coe_ne_bot)
        · cases hx
          split at hy
          · cases hy
            exact iff_of_true (by omega) (WithBot.coe_lt_coe.mpr (WithTop.coe_lt_top _))
          · split at hy
            · cases hy
              exact iff_of_false (by omega) not_lt_bot
            · cases hy
              rw [WithBot.coe_lt_coe, WithTop.coe_lt_coe, doubleValue_lt_iff]

/-! ## 3. Rounding a whole number -/

/-- **The two neighbours of a whole number**: the double is the one below, or the one above if the
    number is not a double itself. -/
theorem doubleOfNat_brackets {n : Nat} (hn : n ≠ 0) :
    ∃ lo, unitMagnitude 52 lo ≤ n * doubleUnits ∧ n * doubleUnits < unitMagnitude 52 (lo + 1) ∧
      (doubleOfNat n = lo ∨ doubleOfNat n = lo + 1 ∧ unitMagnitude 52 lo < n * doubleUnits) ∧
      (unitMagnitude 52 lo = n * doubleUnits → doubleOfNat n = lo) := by
  have hlow : 2 ^ n.log2 ≤ n := Nat.log2_self_le hn
  have hhigh : n < 2 ^ (n.log2 + 1) := Nat.lt_log2_self
  unfold doubleOfNat
  dsimp only
  split
  · rename_i he
    have hscale : 2 ^ n.log2 * 2 ^ (52 - n.log2) = 2 ^ 52 := by
      rw [← pow_add, Nat.add_sub_cancel' he]
    have hge : 2 ^ 52 ≤ n * 2 ^ (52 - n.log2) := hscale ▸ Nat.mul_le_mul_right _ hlow
    have hlt : n * 2 ^ (52 - n.log2) < 2 ^ 53 := by
      have := Nat.mul_lt_mul_of_pos_right hhigh (Nat.two_pow_pos (52 - n.log2))
      rw [pow_succ, Nat.mul_right_comm, hscale] at this
      exact this
    have hexact : unitMagnitude 52 ((n.log2 + 1023) * 2 ^ 52 + (n * 2 ^ (52 - n.log2) - 2 ^ 52)) =
        n * doubleUnits := by
      rw [magnitude_normal (by omega) (by omega), Nat.add_sub_cancel' hge, Nat.mul_assoc, ← pow_add,
        show 52 - n.log2 + (n.log2 + 1023 - 1) = 1074 by omega]
      rfl
    refine ⟨_, hexact.le, ?_, .inl rfl, fun _ => rfl⟩
    rw [← hexact]
    exact magnitude_lt_succ 52 _
  · rename_i he
    rw [Nat.not_le] at he
    have hunit : 0 < 2 ^ (n.log2 - 52) := Nat.two_pow_pos _
    have hscale : 2 ^ 52 * 2 ^ (n.log2 - 52) = 2 ^ n.log2 := by
      rw [← pow_add, Nat.add_sub_cancel' he.le]
    have hscale' : 2 ^ (n.log2 - 52) * doubleUnits = 2 ^ (n.log2 + 1023 - 1) := by
      rw [doubleUnits, ← pow_add, show n.log2 - 52 + 1074 = n.log2 + 1023 - 1 by omega]
    have hq : 2 ^ 52 ≤ n / 2 ^ (n.log2 - 52) := by
      rw [Nat.le_div_iff_mul_le hunit, hscale]
      exact hlow
    have hq' : n / 2 ^ (n.log2 - 52) < 2 ^ 53 := by
      rw [Nat.div_lt_iff_lt_mul hunit, pow_succ 2 52, Nat.mul_right_comm, hscale, ← pow_succ]
      exact hhigh
    have hsplit := Nat.div_add_mod' n (2 ^ (n.log2 - 52))
    have hmod := Nat.mod_lt n hunit
    generalize n / 2 ^ (n.log2 - 52) = q at *
    generalize n % 2 ^ (n.log2 - 52) = r at *
    have hhere : unitMagnitude 52 ((n.log2 + 1023) * 2 ^ 52 + (q - 2 ^ 52)) =
        q * 2 ^ (n.log2 - 52) * doubleUnits := by
      rw [magnitude_normal (by omega) (by omega), Nat.add_sub_cancel' hq, ← hscale', Nat.mul_assoc]
    have hnext : unitMagnitude 52 ((n.log2 + 1023) * 2 ^ 52 + (q - 2 ^ 52) + 1) =
        (q + 1) * 2 ^ (n.log2 - 52) * doubleUnits := by
      rw [Nat.add_assoc, magnitude_normal (by omega) (by omega), ← hscale', Nat.mul_assoc,
        show 2 ^ 52 + (q - 2 ^ 52 + 1) = q + 1 by omega]
    refine ⟨(n.log2 + 1023) * 2 ^ 52 + (q - 2 ^ 52), ?_, ?_, ?_, ?_⟩
    · rw [hhere]
      exact Nat.mul_le_mul_right _ (by omega)
    · rw [hnext]
      refine Nat.mul_lt_mul_of_pos_right ?_ doubleUnits_pos
      rw [Nat.succ_mul]
      omega
    · split
      · rename_i hup
        refine .inr ⟨by omega, ?_⟩
        rw [hhere]
        exact Nat.mul_lt_mul_of_pos_right (by omega) doubleUnits_pos
      · exact .inl rfl
    · intro heq
      rw [hhere] at heq
      have hzero := Nat.eq_of_mul_eq_mul_right doubleUnits_pos heq
      rw [if_neg (by omega)]

theorem signedUnits_neg (p : Nat) (rank : Int) : signedUnits p (-rank) = -signedUnits p rank := by
  have hzero : unitMagnitude p 0 = 0 := magnitude_subnormal (Nat.zero_le _)
  unfold signedUnits
  rcases Int.lt_trichotomy rank 0 with hneg | rfl | hpos
  · rw [if_pos (by omega), if_neg (by omega), Int.neg_neg]
  · simp [hzero]
  · rw [if_neg (by omega), if_pos (by omega), Int.neg_neg]

/-- **Another double lies on the same side** of the number as of the double it is rounded to. -/
theorem doubleOfNat_compare {n : Nat} (hn : n ≠ 0) (j : Int) :
    ((doubleOfNat n : Int) < j → (n * doubleUnits : Nat) < signedUnits 52 j) ∧
      (j < doubleOfNat n → signedUnits 52 j < (n * doubleUnits : Nat)) := by
  obtain ⟨lo, hlo, hhi, hcases, -⟩ := doubleOfNat_brackets hn
  have hmono := magnitude_strictMono 52
  constructor
  · intro hj
    have hnext : lo + 1 ≤ j.toNat := by omega
    rw [signedUnits, if_pos (by omega), Int.ofNat_lt]
    exact hhi.trans_le (hmono.monotone hnext)
  · intro hj
    unfold signedUnits
    split
    · rw [Int.ofNat_lt]
      rcases hcases with heq | ⟨heq, hlt⟩
      · exact (hmono (show j.toNat < lo by omega)).trans_le hlo
      · exact (hmono.monotone (show j.toNat ≤ lo by omega)).trans_lt hlt
    · have hpos : 0 < n * doubleUnits := Nat.mul_pos (Nat.pos_of_ne_zero hn) doubleUnits_pos
      omega

/-- A 64-bit integer is far from infinity. -/
theorem doubleOfNat_le {n : Nat} (hn : n ≠ 0) (hlt : n < 2 ^ 64) :
    doubleOfNat n ≤ 1087 * 2 ^ 52 := by
  obtain ⟨lo, hlo, -, hcases, -⟩ := doubleOfNat_brackets hn
  have htop : unitMagnitude 52 (1087 * 2 ^ 52) = 2 ^ 64 * doubleUnits := by
    have hnormal := magnitude_normal (p := 52) (e := 1087) (f := 0) (by decide) (Nat.zero_le _)
    rw [Nat.add_zero, Nat.add_zero] at hnormal
    rw [hnormal, doubleUnits, ← pow_add, ← pow_add]
  have hbelow : lo < 1087 * 2 ^ 52 := by
    rw [← (magnitude_strictMono 52).lt_iff_lt, htop]
    exact hlo.trans_lt (Nat.mul_lt_mul_of_pos_right hlt doubleUnits_pos)
  omega

theorem doubleRank_ofNat {k : Nat} (h : k < 2 ^ 63) : doubleRank (UInt64.ofNat k) = k := by
  have hk : (UInt64.ofNat k).toNat = k :=
    UInt64.toNat_ofNat_of_lt' (h.trans (by decide))
  unfold doubleRank signDouble
  rw [hk, if_neg (by simpa using h), Nat.mod_eq_of_lt h]

theorem doubleRank_ofNat_neg {k : Nat} (h : k < 2 ^ 63) :
    doubleRank (UInt64.ofNat (2 ^ 63 + k)) = -k := by
  have hk : (UInt64.ofNat (2 ^ 63 + k)).toNat = 2 ^ 63 + k := by
    refine UInt64.toNat_ofNat_of_lt' ?_
    have hsize : UInt64.size = 2 ^ 64 := rfl
    omega
  unfold doubleRank signDouble
  rw [hk, if_pos (by simp), Nat.add_mod_left, Nat.mod_eq_of_lt h]

/-- **An integer that is rounded to compare**: on the other side of no double. -/
theorem doubleOfInt64_compare (n : Int64) (j : Int) :
    (doubleRank (doubleOfInt64 n) < j → n.toInt * doubleUnits < signedUnits 52 j) ∧
      (j < doubleRank (doubleOfInt64 n) → signedUnits 52 j < n.toInt * doubleUnits) ∧
      (doubleRank (doubleOfInt64 n)).natAbs ≤ 1087 * 2 ^ 52 := by
  have hzero : signedUnits 52 0 = 0 := by
    simp [signedUnits, magnitude_subnormal (Nat.zero_le _)]
  have hlow := n.le_toInt
  have hhigh := n.toInt_lt
  unfold doubleOfInt64
  split
  · rename_i hn
    have hrank : doubleRank 0 = 0 := rfl
    rw [hrank, hn, Int.zero_mul]
    refine ⟨fun h => ?_, fun h => ?_, by simp⟩
    · rw [← hzero]
      exact signedUnits_strictMono 52 h
    · rw [← hzero]
      exact signedUnits_strictMono 52 h
  · rename_i hn
    have hne : n.toInt.natAbs ≠ 0 := by omega
    have hle := doubleOfNat_le hne (by omega)
    split
    · rename_i hneg
      have habs : n.toInt * doubleUnits = -((n.toInt.natAbs * doubleUnits : Nat) : Int) := by
        rw [Nat.cast_mul, ← Int.neg_mul]
        congr 1
        omega
      obtain ⟨hbelow, habove⟩ := doubleOfNat_compare hne (-j)
      rw [signedUnits_neg] at hbelow habove
      rw [doubleRank_ofNat_neg (by omega), habs]
      refine ⟨fun h => ?_, fun h => ?_, by omega⟩
      · have := habove (by omega)
        omega
      · have := hbelow (by omega)
        omega
    · rename_i hpos
      have habs : n.toInt * doubleUnits = ((n.toInt.natAbs * doubleUnits : Nat) : Int) := by
        rw [Nat.cast_mul]
        congr 1
        omega
      obtain ⟨hbelow, habove⟩ := doubleOfNat_compare hne j
      rw [doubleRank_ofNat (by omega), habs]
      exact ⟨hbelow, habove, by omega⟩

/-- An integer as an exact number. -/
def exactInt (n : Int) : WithBot (WithTop ℚ) := (((n : ℚ) : WithTop ℚ) : WithBot (WithTop ℚ))

theorem isNaNDouble_doubleOfInt64 (n : Int64) : isNaNDouble (doubleOfInt64 n) = false := by
  have hbound := (doubleOfInt64_compare n 0).2.2
  rw [isNaNDouble_eq_false]
  unfold infiniteRank
  omega

/-- **The comparison of a rounded integer** errs only when it finds no difference. -/
theorem ltDouble_doubleOfInt64 {n : Int64} {d : UInt64} {v : WithBot (WithTop ℚ)}
    (hv : exactDouble d = some v) :
    (ltDouble (doubleOfInt64 n) d = true → exactInt n.toInt < v) ∧
      (ltDouble d (doubleOfInt64 n) = true → v < exactInt n.toInt) := by
  obtain ⟨hbelow, habove, hbound⟩ := doubleOfInt64_compare n (doubleRank d)
  have hinf : infiniteRank = 2047 * 2 ^ 52 := rfl
  have hunits : (0 : ℚ) < doubleUnits := Nat.cast_pos.mpr doubleUnits_pos
  have hlt : ∀ {x y : UInt64}, ltDouble x y = true → doubleRank x < doubleRank y := by
    intro x y h
    simp only [ltDouble, Bool.and_eq_true, decide_eq_true_eq] at h
    exact h.2
  unfold exactDouble at hv
  split at hv
  · cases hv
  · split at hv
    · cases hv
      refine ⟨fun _ => WithBot.coe_lt_coe.mpr (WithTop.coe_lt_top _), fun h => ?_⟩
      have := hlt h
      omega
    · split at hv
      · cases hv
        refine ⟨fun h => ?_, fun _ => WithBot.bot_lt_coe _⟩
        have := hlt h
        omega
      · cases hv
        unfold exactInt
        rw [WithBot.coe_lt_coe, WithBot.coe_lt_coe, WithTop.coe_lt_coe, WithTop.coe_lt_coe,
          doubleValue, lt_div_iff₀ hunits, div_lt_iff₀ hunits]
        constructor
        · intro h
          exact_mod_cast hbelow (hlt h)
        · intro h
          exact_mod_cast habove (hlt h)

/-! ## 4. Floats -/

/-- The smallest units that make one, in single precision. -/
def floatUnits : Nat := 2 ^ 149

theorem floatUnits_pos : 0 < floatUnits := Nat.two_pow_pos 149

def signFloat (bits : UInt32) : Bool := decide (2 ^ 31 ≤ bits.toNat)

/-- The units of a float, without its sign. -/
def floatMagnitude (bits : UInt32) : Nat := unitMagnitude 23 (bits.toNat % 2 ^ 31)

/-- The number a finite float denotes. -/
def floatValue (bits : UInt32) : ℚ := signedUnits 23 (floatRank bits) / floatUnits

theorem signedUnits_natCast (p k : Nat) : signedUnits p k = unitMagnitude p k := by
  rw [signedUnits, if_pos (Int.natCast_nonneg k), Int.toNat_natCast]

/-- A float is its magnitude with its sign. -/
theorem floatValue_eq (bits : UInt32) :
    floatValue bits = (if signFloat bits then -1 else 1) * (floatMagnitude bits / floatUnits) := by
  unfold floatValue floatRank signFloat floatMagnitude
  split
  · rename_i hsign
    rw [if_pos (by simpa using hsign), signedUnits_neg, signedUnits_natCast, Int.cast_neg,
      Int.cast_natCast]
    ring
  · rename_i hsign
    rw [if_neg (by simpa using hsign), signedUnits_natCast, Int.cast_natCast, one_mul]

theorem abs_floatValue (bits : UInt32) : |floatValue bits| = floatMagnitude bits / floatUnits := by
  have hpos : (0 : ℚ) ≤ floatMagnitude bits / floatUnits :=
    div_nonneg (Nat.cast_nonneg _) (Nat.cast_nonneg _)
  rw [floatValue_eq]
  split
  · rw [neg_one_mul, abs_neg, abs_of_nonneg hpos]
  · rw [one_mul, abs_of_nonneg hpos]

/-- A magnitude is a significand and a power of two. -/
theorem magnitude_eq_mul (p k : Nat) : ∃ m e, unitMagnitude p k = m * 2 ^ e ∧ m < 2 ^ (p + 1) := by
  have hpos : 0 < 2 ^ p := Nat.two_pow_pos p
  unfold unitMagnitude
  split
  · exact ⟨k, 0, by rw [pow_zero, Nat.mul_one], by rw [pow_succ]; omega⟩
  · refine ⟨2 ^ p + k % 2 ^ p, _, rfl, ?_⟩
    have hlt := Nat.mod_lt k hpos
    rw [pow_succ]
    omega

end Nvecd.Lib
