/-
  File:      Nvecd/Storage/WalFormat.lean
  Subject:   The on-disk format of the write-ahead log (`storage/wal.h`, `storage/wal.cpp`):
             file names, the 8-byte file header, and the record frames.

  A segment file is `[magic:u32] [version:u32]` and then frames
  `[length:u32] [crc32:u32] [sequence:u64] [timestamp_us:u64] [op:u8] [payload...]`.
  `ScanExistingFiles` and `ReplayValidated` walk the same frames and tell the same six cases
  apart; `readFrame` is that walk's one step, and the two loops differ in what they do with
  its answer.

  * `fileNumberOf_makeFileName` -- which numbers survive being printed with `%06u` and matched
    against `wal-NNNNNN.log` again: exactly those below one million;
  * `readFrame_encodeRecord` -- the frame of a record reads back as the record;
  * `readFrame_torn` -- a strict prefix of a frame reads as end of file or as a torn tail.
-/
import Mathlib.Data.List.Basic
import Mathlib.Data.List.TakeDrop
import Mathlib.Tactic.Ring
import Nvecd.Lib.LittleEndian

namespace Nvecd.Storage

open Nvecd.Lib

abbrev Bytes := List UInt8

instance instLawfulBEqBytes : LawfulBEq Bytes := List.instLawfulBEq

/-- WAL record header size: sequence(8) + timestamp_us(8) + op(1). -/
def kWalRecordHeaderSize : Nat := 17

/-- WAL file header: magic (4) + version (4). -/
def kWalFileHeaderSize : Nat := 8

/-- Hard cap for a single record body. -/
def kMaxWalRecordBodySize : Nat := 64 * 1024 * 1024

def kWalMagic : Nat := 0x4C41574E

def kWalVersion : Nat := 1

/-- `std::numeric_limits<uint64_t>::max()`. -/
def kMaxU64 : Nat := 2 ^ 64 - 1

/-- `std::numeric_limits<uint32_t>::max()`. -/
def kMaxU32 : Nat := 2 ^ 32 - 1

inductive WalOpType where
  | kVecSet
  | kVecDel
  | kEventAdd
  | kEventDel
  | kMetaSet
  | kMetaDel
  | kCoOccurrenceMaintenance
  deriving DecidableEq, Repr

/-- The enumerator's underlying byte. -/
def WalOpType.toByte : WalOpType → UInt8
  | .kVecSet => 1
  | .kVecDel => 2
  | .kEventAdd => 3
  | .kEventDel => 4
  | .kMetaSet => 5
  | .kMetaDel => 6
  | .kCoOccurrenceMaintenance => 7

/-- The enumerator a byte stands for. A `WalOpType` read from disk may hold any byte; the
    switches over it send every other value to their `default`. -/
def WalOpType.ofByte? : UInt8 → Option WalOpType
  | 1 => some .kVecSet
  | 2 => some .kVecDel
  | 3 => some .kEventAdd
  | 4 => some .kEventDel
  | 5 => some .kMetaSet
  | 6 => some .kMetaDel
  | 7 => some .kCoOccurrenceMaintenance
  | _ => none

@[simp] theorem WalOpType.ofByte?_toByte (op : WalOpType) : ofByte? op.toByte = some op := by
  cases op <;> rfl

/-- A deserialized record; `op` is the raw byte. -/
structure WalRecord where
  sequence : Nat
  timestampUs : Nat
  op : UInt8
  payload : Bytes
  deriving DecidableEq, Repr

/-- The record's fields are in the ranges of their C++ types and its body is within the cap
    `Append` enforces. -/
structure WalRecord.Fits (r : WalRecord) : Prop where
  sequence : r.sequence ≤ kMaxU64
  timestamp : r.timestampUs ≤ kMaxU64
  payload : kWalRecordHeaderSize + r.payload.length ≤ kMaxWalRecordBodySize

/-! ## 1. File names -/

/-- The name `MakeFilePath` prints: `wal-%06u.log`. -/
def makeFileName (fileNumber : Nat) : List Char :=
  let digits := Nat.toDigits 10 fileNumber
  "wal-".toList ++ (List.replicate (6 - digits.length) '0' ++ digits) ++ ".log".toList

/-- The number `ScanExistingFiles` reads off a directory entry: the name must have 14
    characters, start with `wal-`, end with `.log` and have six digits between. -/
def fileNumberOf (name : List Char) : Option Nat :=
  if name.length = 14 ∧ name.take 4 = "wal-".toList ∧ (name.drop 10).take 4 = ".log".toList then
    let numStr := (name.drop 4).take 6
    if numStr.all Char.isDigit then some (Nat.ofDigitChars 10 numStr 0) else none
  else none

theorem length_makeFileName (n : Nat) :
    (makeFileName n).length = 8 + max 6 (Nat.toDigits 10 n).length := by
  simp [makeFileName]
  omega

/-- **Six digits are read back, seven are not found**: a segment is recognised by the next
    scan exactly when its number is below one million. -/
theorem fileNumberOf_makeFileName (n : Nat) :
    fileNumberOf (makeFileName n) = if n < 1000000 then some n else none := by
  have hlen : (Nat.toDigits 10 n).length ≤ 6 ↔ n < 10 ^ 6 :=
    Nat.length_toDigits_le_iff (by decide) (by decide)
  by_cases hn : n < 1000000
  · have h6 : (Nat.toDigits 10 n).length ≤ 6 := hlen.mpr hn
    set digits := List.replicate (6 - (Nat.toDigits 10 n).length) '0' ++ Nat.toDigits 10 n
      with hdigits
    have hl : digits.length = 6 := by simp [hdigits]; omega
    have hname : makeFileName n = "wal-".toList ++ digits ++ ".log".toList := rfl
    have hdrop4 : (makeFileName n).drop 4 = digits ++ ".log".toList := by
      rw [hname, List.append_assoc]; rfl
    have hdrop10 : (makeFileName n).drop 10 = ".log".toList := by
      rw [hname]
      exact List.drop_left' (by simp [hl])
    have htake : ((makeFileName n).drop 4).take 6 = digits := by
      rw [hdrop4]
      exact List.take_left' hl
    have hall : digits.all Char.isDigit = true := by
      rw [List.all_eq_true]
      intro c hc
      rcases List.mem_append.mp hc with h | h
      · rw [(List.mem_replicate.mp h).2]; decide
      · exact Nat.isDigit_of_mem_toDigits (by decide) (by decide) h
    have hval : Nat.ofDigitChars 10 digits 0 = n := by
      rw [hdigits, Nat.ofDigitChars_append, Nat.ofDigitChars_replicate_zero, Nat.mul_zero]
      exact Nat.ofDigitChars_toDigits (by decide) (by decide)
    have hcond : (makeFileName n).length = 14 ∧ (makeFileName n).take 4 = "wal-".toList ∧
        ((makeFileName n).drop 10).take 4 = ".log".toList := by
      refine ⟨?_, ?_, ?_⟩
      · rw [length_makeFileName]; omega
      · rw [hname, List.append_assoc]; rfl
      · rw [hdrop10]; rfl
    rw [if_pos hn, fileNumberOf, if_pos hcond]
    simp only [htake, hall, if_true, hval]
  · have h6 : ¬ (Nat.toDigits 10 n).length ≤ 6 := fun h => hn (hlen.mp h)
    rw [if_neg hn, fileNumberOf, if_neg]
    rintro ⟨h14, -⟩
    rw [length_makeFileName] at h14
    omega

/-! ## 2. The file header -/

/-- The eight bytes `WriteFileHeader` writes. -/
def fileHeader : Bytes := leBytes 4 kWalMagic ++ leBytes 4 kWalVersion

@[simp] theorem length_fileHeader : fileHeader.length = 8 := by
  simp [fileHeader]

/-! ## 3. Record frames -/

section Frames

variable (crc32 : Bytes → UInt32)

/-- The record body: sequence, timestamp, op, payload. -/
def recordBody (r : WalRecord) : Bytes :=
  leBytes 8 r.sequence ++ leBytes 8 r.timestampUs ++ [r.op] ++ r.payload

/-- The frame `Append` writes: `[length:u32] [crc32:u32] [body...]`. -/
def encodeRecord (r : WalRecord) : Bytes :=
  leBytes 4 (recordBody r).length ++ leBytes 4 (crc32 (recordBody r)).toNat ++ recordBody r

/-- What stands at the read position of a segment. -/
inductive Frame where
  | eof
  | tornHeader
  | badLength
  | tornBody
  | badCrc
  | record (r : WalRecord) (rest : Bytes)
  deriving DecidableEq, Repr

/-- One step of the walk over a segment's frames, in the order the checks are made. -/
def readFrame (bytes : Bytes) : Frame :=
  if bytes.length = 0 then .eof
  else if bytes.length < 8 then .tornHeader
  else
    let bodyLength := ofLeBytes (bytes.take 4)
    let expectedCrc := ofLeBytes ((bytes.drop 4).take 4)
    let remaining := bytes.drop 8
    if bodyLength < kWalRecordHeaderSize ∨ bodyLength > kMaxWalRecordBodySize then .badLength
    else if remaining.length < bodyLength then .tornBody
    else
      let body := remaining.take bodyLength
      if (crc32 body).toNat ≠ expectedCrc then .badCrc
      else .record
        { sequence := ofLeBytes (body.take 8)
          timestampUs := ofLeBytes ((body.drop 8).take 8)
          op := body.getD 16 0
          payload := body.drop 17 }
        (remaining.drop bodyLength)

variable {crc32}

@[simp] theorem length_recordBody (r : WalRecord) :
    (recordBody r).length = kWalRecordHeaderSize + r.payload.length := by
  simp [recordBody, kWalRecordHeaderSize]
  omega

@[simp] theorem length_encodeRecord (r : WalRecord) :
    (encodeRecord crc32 r).length = 25 + r.payload.length := by
  simp [encodeRecord, kWalRecordHeaderSize]
  omega

theorem readFrame_sequence_le {bytes rest : Bytes} {r : WalRecord}
    (h : readFrame crc32 bytes = .record r rest) : r.sequence ≤ kMaxU64 := by
  unfold readFrame at h
  split at h
  · cases h
  split at h
  · cases h
  dsimp only at h
  split at h
  · cases h
  split at h
  · cases h
  split at h
  · cases h
  obtain ⟨rfl, -⟩ := Frame.record.inj h
  have hlt := ofLeBytes_lt (((bytes.drop 8).take (ofLeBytes (bytes.take 4))).take 8)
  have hpow : 256 ^ (((bytes.drop 8).take (ofLeBytes (bytes.take 4))).take 8).length ≤ 256 ^ 8 :=
    Nat.pow_le_pow_right (by decide) (List.length_take_le _ _)
  have : (256 ^ 8 : Nat) = kMaxU64 + 1 := by decide
  dsimp only
  omega

/-- The first four bytes of anything that starts with a frame are its length prefix. -/
theorem take_four_frame {r : WalRecord} (hr : r.Fits) (tail : Bytes) :
    ofLeBytes ((encodeRecord crc32 r ++ tail).take 4) = kWalRecordHeaderSize + r.payload.length := by
  have h4 : (encodeRecord crc32 r ++ tail).take 4 = leBytes 4 (recordBody r).length := by
    simp only [encodeRecord, List.append_assoc]
    exact List.take_left' (length_leBytes 4 _)
  have hlt : (recordBody r).length < 256 ^ 4 := by
    rw [length_recordBody]
    exact lt_of_le_of_lt hr.payload (by decide)
  rw [h4, ofLeBytes_leBytes hlt, length_recordBody]

/-- **The frame of a record reads back as the record**, whatever follows it. -/
theorem readFrame_encodeRecord {r : WalRecord} (hr : r.Fits) (tail : Bytes) :
    readFrame crc32 (encodeRecord crc32 r ++ tail) = .record r tail := by
  have hcrc : ofLeBytes (((encodeRecord crc32 r ++ tail).drop 4).take 4) =
      (crc32 (recordBody r)).toNat := by
    have h : (encodeRecord crc32 r ++ tail).drop 4 =
        leBytes 4 (crc32 (recordBody r)).toNat ++ (recordBody r ++ tail) := by
      simp only [encodeRecord, List.append_assoc]
      exact List.drop_left' (length_leBytes 4 _)
    rw [h, List.take_left' (length_leBytes 4 _)]
    exact ofLeBytes_leBytes (crc32 (recordBody r)).toNat_lt
  have hbody : (encodeRecord crc32 r ++ tail).drop 8 = recordBody r ++ tail := by
    simp only [encodeRecord, List.append_assoc]
    rw [← List.append_assoc]
    exact List.drop_left' (by simp)
  have hseq : ofLeBytes ((recordBody r).take 8) = r.sequence := by
    have h : (recordBody r).take 8 = leBytes 8 r.sequence := by
      simp only [recordBody, List.append_assoc]
      exact List.take_left' (length_leBytes 8 _)
    rw [h]
    exact ofLeBytes_leBytes (lt_of_le_of_lt hr.sequence (by decide))
  have hts : ofLeBytes (((recordBody r).drop 8).take 8) = r.timestampUs := by
    have h : (recordBody r).drop 8 = leBytes 8 r.timestampUs ++ ([r.op] ++ r.payload) := by
      simp only [recordBody, List.append_assoc]
      exact List.drop_left' (length_leBytes 8 _)
    rw [h, List.take_left' (length_leBytes 8 _)]
    exact ofLeBytes_leBytes (lt_of_le_of_lt hr.timestamp (by decide))
  have h16 : (recordBody r).drop 16 = r.op :: r.payload := by
    simp only [recordBody, List.append_assoc, List.singleton_append]
    rw [← List.append_assoc]
    exact List.drop_left' (by simp)
  have hop : (recordBody r).getD 16 0 = r.op := by
    have h := congrArg (fun l => l[0]?) h16
    simp only [List.getElem?_drop, Nat.add_zero, List.getElem?_cons_zero] at h
    simp [List.getD, h]
  have hpay : (recordBody r).drop 17 = r.payload := by
    have h := congrArg (List.drop 1) h16
    simpa [List.drop_drop] using h
  have hlen : ¬ ((encodeRecord crc32 r ++ tail).length = 0) := by simp
  have hlen8 : ¬ ((encodeRecord crc32 r ++ tail).length < 8) := by simp; omega
  have hrange : ¬ (kWalRecordHeaderSize + r.payload.length < kWalRecordHeaderSize ∨
      kWalRecordHeaderSize + r.payload.length > kMaxWalRecordBodySize) := by
    have := hr.payload
    omega
  have hrem : ¬ ((recordBody r ++ tail).length < kWalRecordHeaderSize + r.payload.length) := by
    rw [List.length_append, length_recordBody]
    omega
  have htake : (recordBody r ++ tail).take (kWalRecordHeaderSize + r.payload.length) =
      recordBody r := List.take_left' (length_recordBody r)
  have hdrop : (recordBody r ++ tail).drop (kWalRecordHeaderSize + r.payload.length) = tail :=
    List.drop_left' (length_recordBody r)
  unfold readFrame
  simp only [take_four_frame hr, hcrc, hbody, if_neg hlen, if_neg hlen8, if_neg hrange,
    if_neg hrem, htake, hdrop, hseq, hts, hop, hpay, ne_eq, not_true_eq_false, if_false]

/-- **A strict prefix of a frame** reads as the end of the file or as one of the two torn
    tails, never as a record and never as corruption. -/
theorem readFrame_torn {r : WalRecord} (hr : r.Fits) {k : Nat}
    (hk : k < (encodeRecord crc32 r).length) :
    readFrame crc32 ((encodeRecord crc32 r).take k) = .eof ∨
      readFrame crc32 ((encodeRecord crc32 r).take k) = .tornHeader ∨
      readFrame crc32 ((encodeRecord crc32 r).take k) = .tornBody := by
  have hlen : ((encodeRecord crc32 r).take k).length = k := by
    rw [List.length_take]; omega
  unfold readFrame
  rw [hlen]
  by_cases h0 : k = 0
  · left; rw [if_pos h0]
  right
  by_cases h8 : k < 8
  · left; rw [if_neg h0, if_pos h8]
  right
  -- the length prefix is entirely present, so the body is what is missing
  have h4 : ((encodeRecord crc32 r).take k).take 4 = (encodeRecord crc32 r ++ []).take 4 := by
    rw [List.take_take, List.append_nil, Nat.min_eq_left (by omega)]
  have hrange : ¬ (kWalRecordHeaderSize + r.payload.length < kWalRecordHeaderSize ∨
      kWalRecordHeaderSize + r.payload.length > kMaxWalRecordBodySize) := by
    have := hr.payload
    omega
  have hrem : (((encodeRecord crc32 r).take k).drop 8).length <
      kWalRecordHeaderSize + r.payload.length := by
    rw [List.length_drop, hlen]
    rw [length_encodeRecord] at hk
    simp only [kWalRecordHeaderSize]
    omega
  simp only [if_neg h0, if_neg h8, h4, take_four_frame hr, if_neg hrange, if_pos hrem]

end Frames

end Nvecd.Storage
