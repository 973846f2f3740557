/-
  File:      Nvecd/Lib/Rounding.lean
  Subject:   A quotient of whole numbers as a whole number: the nearest, with two rules for a tie.

  * `roundHalfEven`, `roundHalfAway` -- they agree unless a tie has its even neighbour below
    (`roundHalfEven_eq_iff`), which is a matter of the quotient alone (`evenTie_iff`);
  * `roundSignificand` -- a whole number with as many leading bits as a format has; a number that
    has no more is left as it is (`roundSignificand_exact`).
-/
import Mathlib.Algebra.Order.Field.Rat
import Mathlib.Data.Nat.Log
import Mathlib.Tactic.FieldSimp
import Mathlib.Tactic.Linarith
import Mathlib.Tactic.Ring

namespace Nvecd.Lib

/-! ## 1. Ties -/

/-- `n / d` as the nearest whole number, of two equally near the even one. -/
def roundHalfEven (n d : Nat) : Nat :=
  if d < 2 * (n % d) ∨ 2 * (n % d) = d ∧ n / d % 2 = 1 then n / d + 1 else n / d

/-- `n / d` as the nearest whole number, of two equally near the larger one. -/
def roundHalfAway (n d : Nat) : Nat := if d ≤ 2 * (n % d) then n / d + 1 else n / d

/-- Half way between an even number and the next. -/
def EvenTie (n d : Nat) : Prop := 2 * (n % d) = d ∧ n / d % 2 = 0

variable {n d : Nat}

/-- **The two rules differ** exactly at a tie above an even number. -/
theorem roundHalfEven_eq_iff : roundHalfEven n d = roundHalfAway n d ↔ ¬ EvenTie n d := by
  unfold roundHalfEven roundHalfAway EvenTie
  split <;> split <;> omega

theorem evenTie_iff (hd : 0 < d) : EvenTie n d ↔ ∃ j : Nat, (n : ℚ) / d = 2 * j + 1 / 2 := by
  have hd' : (0 : ℚ) < d := Nat.cast_pos.mpr hd
  have htwice : ∀ j : Nat, (n : ℚ) / d = 2 * j + 1 / 2 ↔ 2 * n = (4 * j + 1) * d := by
    intro j
    rw [div_eq_iff hd'.ne']
    constructor
    · intro h
      have h2 : (2 * n : ℚ) = (4 * j + 1) * d := by linarith
      exact_mod_cast h2
    · intro h
      have h2 : (2 * n : ℚ) = (4 * j + 1) * d := by exact_mod_cast h
      linarith
  simp only [htwice]
  have hsplit := Nat.div_add_mod' n d
  constructor
  · rintro ⟨htie, heven⟩
    refine ⟨n / d / 2, ?_⟩
    have hhalf : n / d = 2 * (n / d / 2) := by omega
    calc
      2 * n = 2 * (n / d * d + n % d) := by rw [hsplit]
      _ = 2 * (2 * (n / d / 2) * d) + 2 * (n % d) := by rw [← hhalf, Nat.mul_add]
      _ = (4 * (n / d / 2) + 1) * d := by rw [htie]; ring
  · rintro ⟨j, hj⟩
    have hrest : 2 * (n - 2 * j * d) = d ∧ 2 * j * d ≤ n := by
      have hexp : (4 * j + 1) * d = 2 * (2 * j * d) + d := by ring
      omega
    have hpair : n / d = 2 * j ∧ n % d = n - 2 * j * d := by
      rw [Nat.div_mod_unique hd]
      have hcomm : d * (2 * j) = 2 * j * d := Nat.mul_comm _ _
      omega
    unfold EvenTie
    rw [hpair.1, hpair.2]
    omega

/-- A multiple is not rounded. -/
theorem roundHalfEven_of_dvd (h : d ∣ n) : roundHalfEven n d = n / d := by
  unfold roundHalfEven
  rw [Nat.mod_eq_zero_of_dvd h, if_neg]
  rintro (hcon | ⟨hcon, hodd⟩)
  · omega
  · rw [← hcon, Nat.mul_zero, Nat.div_zero] at hodd
    omega

theorem roundHalfEven_le : roundHalfEven n d ≤ n / d + 1 := by
  unfold roundHalfEven
  split <;> omega

theorem le_roundHalfEven : n / d ≤ roundHalfEven n d := by
  unfold roundHalfEven
  split <;> omega

/-! ## 2. Leading bits -/

/-- `n` with its `p + 1` leading bits, the last of them rounded. -/
def roundSignificand (p n : Nat) : Nat :=
  roundHalfEven n (2 ^ (Nat.log2 n - p)) * 2 ^ (Nat.log2 n - p)

/-- **A number that has no more bits is left as it is.** -/
theorem roundSignificand_exact {p m e : Nat} (hm : m < 2 ^ (p + 1)) :
    roundSignificand p (m * 2 ^ e) = m * 2 ^ e := by
  have hdvd : 2 ^ (Nat.log2 (m * 2 ^ e) - p) ∣ m * 2 ^ e := by
    rcases Nat.eq_zero_or_pos m with rfl | hpos
    · rw [Nat.zero_mul]
      exact Nat.dvd_zero _
    · refine Nat.dvd_mul_left_of_dvd (Nat.pow_dvd_pow 2 ?_) m
      have hne : m * 2 ^ e ≠ 0 := (Nat.mul_pos hpos (Nat.two_pow_pos e)).ne'
      have hlt : m * 2 ^ e < 2 ^ (p + 1 + e) := by
        rw [pow_add]
        exact Nat.mul_lt_mul_of_pos_right hm (Nat.two_pow_pos e)
      have hlog := (Nat.log2_lt hne).mpr hlt
      omega
  unfold roundSignificand
  rw [roundHalfEven_of_dvd hdvd, Nat.div_mul_cancel hdvd]

end Nvecd.Lib
