/-
  File:      Nvecd/Lib/LittleEndian.lean
  Subject:   Integers as little-endian bytes of a fixed width.

  * `leBytes w n` -- the `w` low bytes of `n`, least significant first;
  * `ofLeBytes bs` -- the number those bytes denote;
  * `ofLeBytes_leBytes` -- reading back what was written, for a number of that width;
  * `int32Bits`, `int32OfBits` -- an `int` as the number with the same bits.
-/
import Mathlib.Data.List.Basic
import Mathlib.Tactic.Ring

namespace Nvecd.Lib

/-- The `w` low bytes of `n`, least significant first. -/
def leBytes : Nat → Nat → List UInt8
  | 0, _ => []
  | w + 1, n => UInt8.ofNat (n % 256) :: leBytes w (n / 256)

/-- The number a little-endian byte string denotes. -/
def ofLeBytes : List UInt8 → Nat
  | [] => 0
  | b :: bs => b.toNat + 256 * ofLeBytes bs

@[simp] theorem length_leBytes (w n : Nat) : (leBytes w n).length = w := by
  induction w generalizing n with
  | zero => rfl
  | succ w ih => simp [leBytes, ih]

/-- **Reading back what was written**: a number below `256 ^ w` survives `w` bytes. -/
theorem ofLeBytes_leBytes {w n : Nat} (h : n < 256 ^ w) : ofLeBytes (leBytes w n) = n := by
  induction w generalizing n with
  | zero => simp only [pow_zero, Nat.lt_one_iff] at h; subst h; rfl
  | succ w ih =>
    have hq : n / 256 < 256 ^ w := by
      rw [pow_succ] at h
      exact Nat.div_lt_of_lt_mul (by rw [Nat.mul_comm]; exact h)
    have hb : (UInt8.ofNat (n % 256)).toNat = n % 256 := by
      simp
    simp only [leBytes, ofLeBytes, hb, ih hq]
    omega

theorem ofLeBytes_lt (bytes : List UInt8) : ofLeBytes bytes < 256 ^ bytes.length := by
  induction bytes with
  | nil => simp [ofLeBytes]
  | cons b bytes ih =>
    have hb := b.toNat_lt
    simp only [ofLeBytes, List.length_cons, pow_succ]
    omega

/-- Bytes are the number they denote, written with as many bytes. -/
theorem leBytes_ofLeBytes (bytes : List UInt8) :
    leBytes bytes.length (ofLeBytes bytes) = bytes := by
  induction bytes with
  | nil => rfl
  | cons b bytes ih =>
    have hb : b.toNat < 256 := b.toNat_lt
    have hlow : (b.toNat + 256 * ofLeBytes bytes) % 256 = b.toNat := by omega
    have hhigh : (b.toNat + 256 * ofLeBytes bytes) / 256 = ofLeBytes bytes := by omega
    simp only [List.length_cons, leBytes, ofLeBytes, hlow, hhigh, ih, UInt8.ofNat_toNat]

/-! ## Signed integers -/

/-- The bits of an `int`. -/
def int32Bits (n : Int) : Nat := (n % 2 ^ 32).toNat

def int32OfBits (bits : Nat) : Int := if bits < 2 ^ 31 then bits else (bits : Int) - 2 ^ 32

theorem int32Bits_lt (n : Int) : int32Bits n < 256 ^ 4 := by
  unfold int32Bits
  omega

theorem int32OfBits_int32Bits {n : Int} (hlo : -(2 ^ 31) ≤ n) (hhi : n < 2 ^ 31) :
    int32OfBits (int32Bits n) = n := by
  unfold int32OfBits int32Bits
  split <;> omega

theorem int32Bits_int32OfBits {bits : Nat} (h : bits < 2 ^ 32) :
    int32Bits (int32OfBits bits) = bits := by
  unfold int32Bits int32OfBits
  split <;> omega

theorem int32OfBits_range {bits : Nat} (h : bits < 256 ^ 4) :
    -(2 ^ 31) ≤ int32OfBits bits ∧ int32OfBits bits < 2 ^ 31 := by
  unfold int32OfBits
  split <;> omega

end Nvecd.Lib
