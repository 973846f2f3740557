/-
  File:      Nvecd/Lib/Ieee754.lean
  Subject:   Comparisons of IEEE-754 numbers, on their bit patterns.

  A `float` is its 32 bits, a `double` its 64. What can be decided without arithmetic is decided
  here: whether a number is finite, where it lies with respect to 0 and 1, and which of two is the
  smaller. The bits of non-negative doubles are ordered as the numbers are.
-/
import Mathlib.Algebra.Group.Nat.Defs
import Mathlib.Data.Nat.Basic

namespace Nvecd.Lib

/-- `std::isfinite(float)`. -/
def isFiniteFloat (bits : UInt32) : Bool := bits.toNat / 2 ^ 23 % 256 != 255

/-- `std::isfinite(double)`. -/
def isFiniteDouble (bits : UInt64) : Bool := bits.toNat / 2 ^ 52 % 2048 != 2047

def isNaNFloat (bits : UInt32) : Bool := !isFiniteFloat bits && bits.toNat % 2 ^ 23 != 0

/-- The place of a float among the others: its magnitude, with its sign. -/
def floatRank (bits : UInt32) : Int :=
  if 2 ^ 31 ≤ bits.toNat then -(bits.toNat % 2 ^ 31 : Nat) else (bits.toNat % 2 ^ 31 : Nat)

/-- What a float is compared by; a NaN compares with nothing. -/
def floatKey (bits : UInt32) : Option Int :=
  if isNaNFloat bits then none else some (floatRank bits)

/-- `x <= 0.0F`. -/
def leZeroFloat (bits : UInt32) : Bool := !isNaNFloat bits && decide (floatRank bits ≤ 0)

def isNaNDouble (bits : UInt64) : Bool := !isFiniteDouble bits && bits.toNat % 2 ^ 52 != 0

/-- `x == 0.0`: both zeros. -/
def isZeroDouble (bits : UInt64) : Bool := bits.toNat % 2 ^ 63 == 0

def signDouble (bits : UInt64) : Bool := decide (2 ^ 63 ≤ bits.toNat)

/-- `x < 0.0`. -/
def ltZeroDouble (bits : UInt64) : Bool :=
  !isNaNDouble bits && signDouble bits && !isZeroDouble bits

/-- `x <= 0.0`. -/
def leZeroDouble (bits : UInt64) : Bool :=
  !isNaNDouble bits && (signDouble bits || isZeroDouble bits)

/-- `x > 0.0`. -/
def gtZeroDouble (bits : UInt64) : Bool :=
  !isNaNDouble bits && !signDouble bits && !isZeroDouble bits

/-- `x > 1.0`. -/
def gtOneDouble (bits : UInt64) : Bool :=
  !isNaNDouble bits && !signDouble bits && decide (0x3FF0000000000000 < bits.toNat)

/-- The place of a double among the others: its magnitude, with its sign. -/
def doubleRank (bits : UInt64) : Int :=
  if signDouble bits then -(bits.toNat % 2 ^ 63 : Nat) else (bits.toNat % 2 ^ 63 : Nat)

/-- `x < y`. -/
def ltDouble (x y : UInt64) : Bool :=
  !isNaNDouble x && !isNaNDouble y && decide (doubleRank x < doubleRank y)

/-- The double nearest to a positive whole number below `2 ^ 64`, of two equally near the one with
    the even significand. A significand rounded up to `2 ^ 53` carries into the exponent. -/
def doubleOfNat (n : Nat) : Nat :=
  let e := Nat.log2 n
  if e ≤ 52 then (e + 1023) * 2 ^ 52 + (n * 2 ^ (52 - e) - 2 ^ 52)
  else
    let unit := 2 ^ (e - 52)
    let q := n / unit
    let r := n % unit
    let q := if unit < 2 * r ∨ 2 * r = unit ∧ q % 2 = 1 then q + 1 else q
    (e + 1023) * 2 ^ 52 + (q - 2 ^ 52)

/-- `static_cast<double>(int64_t)`. -/
def doubleOfInt64 (n : Int64) : UInt64 :=
  if n.toInt = 0 then 0
  else if n.toInt < 0 then UInt64.ofNat (2 ^ 63 + doubleOfNat n.toInt.natAbs)
  else UInt64.ofNat (doubleOfNat n.toInt.natAbs)

-- 1, -3, 2 ^ 53 + 1 (a tie, to even) and 2 ^ 53 + 3 (a tie, upwards to even)
example : (doubleOfInt64 1, doubleOfInt64 (-3), doubleOfInt64 9007199254740993,
      doubleOfInt64 9007199254740995) =
    (0x3FF0000000000000, 0xC008000000000000, 0x4340000000000000, 0x4340000000000002) := by
  decide +kernel

theorem isFiniteDouble_zero : isFiniteDouble 0 = true := by decide

theorem ltZeroDouble_zero : ltZeroDouble 0 = false := by decide

theorem gtOneDouble_zero : gtOneDouble 0 = false := by decide

/-- A number that is not below zero is zero or above it. -/
theorem leZeroDouble_eq_false {bits : UInt64} (hneg : ltZeroDouble bits = false)
    (hzero : isZeroDouble bits = false) : leZeroDouble bits = false := by
  simp only [ltZeroDouble, leZeroDouble, hzero] at hneg ⊢
  simpa using hneg

end Nvecd.Lib
