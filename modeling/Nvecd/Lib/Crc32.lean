/-
  File:      Nvecd/Lib/Crc32.lean
  Subject:   The CRC-32 of zlib's `crc32(0, data, length)`: reflected polynomial 0xEDB88320,
             initial value and final xor 0xFFFFFFFF.

  The framing results hold for every checksum function and take it as a parameter; this is the
  function the program links, for the runs that are evaluated. A checksum that is computed chunk by
  chunk needs one law, which a `RunningChecksum` carries.
-/
import Mathlib.Data.List.Basic

namespace Nvecd.Lib

/-- One bit of the reflected division. -/
def crcBit (c : UInt32) : UInt32 :=
  if c &&& 1 = 1 then (c >>> 1) ^^^ 0xEDB88320 else c >>> 1

/-- One byte: the byte is xored into the low end, then eight bits are divided out. -/
def crcByte (c : UInt32) (b : UInt8) : UInt32 :=
  crcBit (crcBit (crcBit (crcBit (crcBit (crcBit (crcBit (crcBit (c ^^^ b.toUInt32))))))))

/-- `crc32(0, data, length)`. -/
def crc32 (data : List UInt8) : UInt32 :=
  data.foldl crcByte 0xFFFFFFFF ^^^ 0xFFFFFFFF

/-- The check value of the algorithm: the CRC-32 of the nine bytes `123456789`. -/
example : crc32 [0x31, 0x32, 0x33, 0x34, 0x35, 0x36, 0x37, 0x38, 0x39] = 0xCBF43926 := by
  decide +kernel

/-- A checksum that can be continued: the second part of some data over the checksum of the first
    is the checksum of the whole. -/
@[ext]
structure RunningChecksum where
  update : UInt32 → List UInt8 → UInt32
  update_append : ∀ c a b, update (update c a) b = update c (a ++ b)

/-- The checksum of the data as a whole. -/
def RunningChecksum.of (k : RunningChecksum) (data : List UInt8) : UInt32 := k.update 0 data

/-- The division byte by byte. The register is looked at in every step, so that an evaluation
    has a number there and no longer and longer term. -/
def crcBytes (c : UInt32) : List UInt8 → UInt32
  | [] => c
  | b :: data => if crcByte c b = 0 then crcBytes 0 data else crcBytes (crcByte c b) data

theorem crcBytes_eq_foldl (c : UInt32) (data : List UInt8) :
    crcBytes c data = data.foldl crcByte c := by
  induction data generalizing c with
  | nil => rfl
  | cons b data ih =>
    rw [crcBytes, List.foldl_cons, ih, ih]
    split
    · rw [‹crcByte c b = 0›]
    · rfl

/-- `crc32(crc, data, length)`. -/
def zlibCrc32 : RunningChecksum where
  update c data := crcBytes (c ^^^ 0xFFFFFFFF) data ^^^ 0xFFFFFFFF
  update_append c a b := by
    simp only [crcBytes_eq_foldl, List.foldl_append, UInt32.xor_assoc, UInt32.xor_self,
      UInt32.xor_zero]

/-! ## With numbers

    The same in `Nat`, which an evaluation is faster with. -/

def crcBitNat (c : Nat) : Nat := if c % 2 = 1 then c / 2 ^^^ 0xEDB88320 else c / 2

def crcByteNat (c b : Nat) : Nat :=
  crcBitNat (crcBitNat (crcBitNat (crcBitNat (crcBitNat (crcBitNat (crcBitNat (crcBitNat
    (c ^^^ b))))))))

def crcBytesNat (c : Nat) : List UInt8 → Nat
  | [] => c
  | b :: data =>
    if crcByteNat c b.toNat = 0 then crcBytesNat 0 data else crcBytesNat (crcByteNat c b.toNat) data

theorem toNat_crcBit (c : UInt32) : (crcBit c).toNat = crcBitNat c.toNat := by
  have hone : (c &&& 1).toNat = c.toNat % 2 := by
    rw [UInt32.toNat_and]
    exact Nat.and_one_is_mod _
  have hhalf : (c >>> 1).toNat = c.toNat / 2 := by
    rw [UInt32.toNat_shiftRight]
    exact Nat.shiftRight_eq_div_pow _ 1
  have hbit : c &&& 1 = 1 ↔ c.toNat % 2 = 1 := by
    rw [← UInt32.toNat_inj, hone]
    rfl
  rw [crcBit, crcBitNat]
  split
  · rw [if_pos (hbit.mp ‹_›), UInt32.toNat_xor, hhalf]
    rfl
  · rw [if_neg (mt hbit.mpr ‹_›), hhalf]

theorem toNat_crcByte (c : UInt32) (b : UInt8) :
    (crcByte c b).toNat = crcByteNat c.toNat b.toNat := by
  simp only [crcByte, crcByteNat, toNat_crcBit, UInt32.toNat_xor, UInt8.toNat_toUInt32]

theorem toNat_crcBytes (c : UInt32) (data : List UInt8) :
    (crcBytes c data).toNat = crcBytesNat c.toNat data := by
  induction data generalizing c with
  | nil => rfl
  | cons b data ih =>
    have hzero : crcByte c b = 0 ↔ crcByteNat c.toNat b.toNat = 0 := by
      rw [← UInt32.toNat_inj, toNat_crcByte]
      rfl
    rw [crcBytes, crcBytesNat]
    split
    · rw [if_pos (hzero.mp ‹_›), ih]
      rfl
    · rw [if_neg (mt hzero.mpr ‹_›), ih, toNat_crcByte]

theorem zlibCrc32_update (c : UInt32) (data : List UInt8) : zlibCrc32.update c data =
    UInt32.ofNat (crcBytesNat (c.toNat ^^^ 0xFFFFFFFF) data ^^^ 0xFFFFFFFF) := by
  rw [← UInt32.ofNat_toNat (x := zlibCrc32.update c data)]
  refine congrArg UInt32.ofNat ?_
  show (crcBytes (c ^^^ 0xFFFFFFFF) data ^^^ 0xFFFFFFFF).toNat = _
  rw [UInt32.toNat_xor, toNat_crcBytes, UInt32.toNat_xor]
  rfl

def zlibCrc32Nat : RunningChecksum where
  update c data := UInt32.ofNat (crcBytesNat (c.toNat ^^^ 0xFFFFFFFF) data ^^^ 0xFFFFFFFF)
  update_append c a b := by
    simp only [← zlibCrc32_update, zlibCrc32.update_append]

theorem zlibCrc32_eq : zlibCrc32 = zlibCrc32Nat :=
  RunningChecksum.ext (funext₂ zlibCrc32_update)

end Nvecd.Lib
