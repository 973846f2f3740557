/-
  File:      Nvecd/Lib/Base64.lean
  Subject:   Base64: bytes as digits of six bits, with the standard alphabet and padding.

  Three bytes are four digits; one or two bytes left over are two or three, filled up with zero
  bits. Reading the digits back, a byte is complete as soon as eight bits are there, and what is
  pending is less than a byte (`unpack`).

  * `sextets`, `padding`, `encode` -- the digits of a list of bytes, and its text;
  * `unpack_sextets` -- the digits give the bytes back;
  * `number_sextets` -- as numbers: the digits are the bytes, with the filling behind them.
-/
import Mathlib.Algebra.Group.Nat.Defs
import Mathlib.Data.List.Basic

namespace Nvecd.Lib.Base64

def alphabet : List UInt8 :=
  "ABCDEFGHIJKLMNOPQRSTUVWXYZabcdefghijklmnopqrstuvwxyz0123456789+/".toUTF8.toList

/-- `=`. -/
def pad : UInt8 := 61

/-- The character of a digit. -/
def digit (v : Nat) : UInt8 := alphabet.getD v pad

/-- The digits of bytes. -/
def sextets : List UInt8 → List Nat
  | [] => []
  | [a] => [a.toNat / 4, a.toNat % 4 * 16]
  | [a, b] => [a.toNat / 4, a.toNat % 4 * 16 + b.toNat / 16, b.toNat % 16 * 4]
  | a :: b :: c :: rest =>
    a.toNat / 4 :: (a.toNat % 4 * 16 + b.toNat / 16) :: (b.toNat % 16 * 4 + c.toNat / 64) ::
      c.toNat % 64 :: sextets rest

/-- How many digits the last group is short of. -/
def padding : List UInt8 → Nat
  | [] => 0
  | [_] => 2
  | [_, _] => 1
  | _ :: _ :: _ :: rest => padding rest

def encode (s : List UInt8) : List UInt8 :=
  (sextets s).map digit ++ List.replicate (padding s) pad

/-- The bytes of a list of digits, behind `bits` bits of the value `pending` that do not make a byte
    yet. -/
def unpack : Nat → Nat → List Nat → List UInt8
  | _, _, [] => []
  | pending, bits, v :: rest =>
    if 8 ≤ bits + 6 then
      UInt8.ofNat ((pending * 64 + v) / 2 ^ (bits + 6 - 8)) ::
        unpack ((pending * 64 + v) % 2 ^ (bits + 6 - 8)) (bits + 6 - 8) rest
    else unpack (pending * 64 + v) (bits + 6) rest

/-- The number that digits of a base are, behind a number. -/
def number (base n : Nat) (digits : List Nat) : Nat := digits.foldl (fun n v => n * base + v) n

theorem sextets_lt (s : List UInt8) : ∀ v ∈ sextets s, v < 64 := by
  induction s using sextets.induct with
  | case1 => simp [sextets]
  | case2 a =>
    have ha := a.toNat_lt
    simp only [sextets, List.mem_cons, List.not_mem_nil, or_false]
    omega
  | case3 a b =>
    have ha := a.toNat_lt
    have hb := b.toNat_lt
    simp only [sextets, List.mem_cons, List.not_mem_nil, or_false]
    omega
  | case4 a b c rest ih =>
    have ha := a.toNat_lt
    have hb := b.toNat_lt
    have hc := c.toNat_lt
    intro v hv
    simp only [sextets, List.mem_cons] at hv
    rcases hv with rfl | rfl | rfl | rfl | hv
    · omega
    · omega
    · omega
    · omega
    · exact ih v hv

/-- **The digits give the bytes back.** -/
theorem unpack_sextets (s : List UInt8) : unpack 0 0 (sextets s) = s := by
  induction s using sextets.induct with
  | case1 => rfl
  | case2 a =>
    have hfirst : (a.toNat / 4 * 64 + a.toNat % 4 * 16) / 16 = a.toNat := by omega
    simp [sextets, unpack, hfirst]
  | case3 a b =>
    have hb := b.toNat_lt
    have hfirst : (a.toNat / 4 * 64 + (a.toNat % 4 * 16 + b.toNat / 16)) / 16 = a.toNat := by omega
    have hpending : (a.toNat / 4 * 64 + (a.toNat % 4 * 16 + b.toNat / 16)) % 16 = b.toNat / 16 := by
      omega
    have hsecond : (b.toNat / 16 * 64 + b.toNat % 16 * 4) / 4 = b.toNat := by omega
    simp [sextets, unpack, hfirst, hpending, hsecond]
  | case4 a b c rest ih =>
    have hb := b.toNat_lt
    have hc := c.toNat_lt
    have hfirst : (a.toNat / 4 * 64 + (a.toNat % 4 * 16 + b.toNat / 16)) / 16 = a.toNat := by omega
    have hpending : (a.toNat / 4 * 64 + (a.toNat % 4 * 16 + b.toNat / 16)) % 16 = b.toNat / 16 := by
      omega
    have hsecond : (b.toNat / 16 * 64 + (b.toNat % 16 * 4 + c.toNat / 64)) / 4 = b.toNat := by omega
    have hpending' :
        (b.toNat / 16 * 64 + (b.toNat % 16 * 4 + c.toNat / 64)) % 4 = c.toNat / 64 := by
      omega
    have hthird : c.toNat / 64 * 64 + c.toNat % 64 = c.toNat := by omega
    simp [sextets, unpack, hfirst, hpending, hsecond, hpending', hthird, Nat.mod_one, ih]

theorem number_cons (base n v : Nat) (digits : List Nat) :
    number base n (v :: digits) = number base (n * base + v) digits := rfl

/-- More digits make no number less. -/
theorem le_number {base : Nat} (hbase : 0 < base) (n : Nat) (digits : List Nat) :
    n ≤ number base n digits := by
  induction digits generalizing n with
  | nil => exact Nat.le_refl n
  | cons v digits ih =>
    calc n ≤ n * base := Nat.le_mul_of_pos_right n hbase
      _ ≤ n * base + v := Nat.le_add_right _ _
      _ ≤ number base (n * base + v) digits := ih _

/-- **As numbers**: the bytes, and two zero bits for every digit that is missing at the end. -/
theorem number_sextets (n : Nat) (s : List UInt8) :
    number 64 n (sextets s) = number 256 n (s.map UInt8.toNat) * 4 ^ padding s := by
  induction s using sextets.induct generalizing n with
  | case1 => simp [sextets, number, padding]
  | case2 a =>
    simp only [sextets, number, padding, List.map_cons, List.map_nil, List.foldl_cons,
      List.foldl_nil]
    omega
  | case3 a b =>
    simp only [sextets, number, padding, List.map_cons, List.map_nil, List.foldl_cons,
      List.foldl_nil]
    omega
  | case4 a b c rest ih =>
    have hgroup : (((n * 64 + a.toNat / 4) * 64 + (a.toNat % 4 * 16 + b.toNat / 16)) * 64 +
        (b.toNat % 16 * 4 + c.toNat / 64)) * 64 + c.toNat % 64 =
        ((n * 256 + a.toNat) * 256 + b.toNat) * 256 + c.toNat := by omega
    simp only [sextets, padding, List.map_cons, number_cons, hgroup]
    exact ih _

end Nvecd.Lib.Base64
