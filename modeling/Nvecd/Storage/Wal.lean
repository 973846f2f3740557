/-
  File:      Nvecd/Storage/Wal.lean
  Subject:   `WriteAheadLog` (`storage/wal.h`, `storage/wal.cpp`): the object, the directory it
             writes, and its operations, each a function of the state and of what the operating
             system answers.

  The state holds the directory beside the object's fields, since a crash keeps the one and
  loses the other. What the operating system may answer is an argument: a rotation can fail at
  each of its six system calls (`RotateIo`), a record write can stop after any byte or its
  fsync can fail (`WriteIo`), a directory can refuse to be listed (`OpenIo`), an unlink can
  fail (`TruncateIo`). Reads of files that exist succeed.

  A directory entry is kept under its file number; its name is `makeFileName number`, and
  `scanExistingFiles` recognises an entry by that name only. Of `WalFile` the fields the
  operations read are kept (`min_sequence` and `file_size` are written and never read).
-/
import Mathlib.Data.List.Sort
import Nvecd.Storage.WalFormat
import Nvecd.Utils.Error

namespace Nvecd.Storage

open Nvecd.Lib Nvecd.Utils

/-! ## 1. The directory -/

/-- One file of the WAL directory: its number and its bytes. -/
structure DirEntry where
  number : Nat
  bytes : Bytes
  deriving DecidableEq, Repr

abbrev Dir := List DirEntry

namespace Dir

/-- `open` for reading: the bytes of the file, if it exists. -/
def lookup (dir : Dir) (n : Nat) : Option Bytes :=
  (dir.find? fun e => e.number == n).map (·.bytes)

def contains (dir : Dir) (n : Nat) : Bool :=
  dir.any fun e => e.number == n

/-- `write` at the end of file `n`. -/
def append (dir : Dir) (n : Nat) (bytes : Bytes) : Dir :=
  dir.map fun e => if e.number = n then { e with bytes := e.bytes ++ bytes } else e

/-- `ftruncate` of file `n`. -/
def truncateTo (dir : Dir) (n length : Nat) : Dir :=
  dir.map fun e => if e.number = n then { e with bytes := e.bytes.take length } else e

/-- `unlink` of file `n`. -/
def unlink (dir : Dir) (n : Nat) : Dir :=
  dir.filter fun e => e.number != n

end Dir

/-! ## 2. The object -/

structure WalConfig where
  directory : String
  maxFileSize : Nat
  syncOnWrite : Bool
  deriving DecidableEq, Repr

/-- WAL file metadata. -/
structure WalFile where
  fileNumber : Nat
  maxSequence : Nat
  deriving DecidableEq, Repr

structure WriteAheadLog where
  dir : Dir
  currentFd : Option Nat := none
  currentSequence : Nat := 0
  currentFileSize : Nat := 0
  currentFileNumber : Nat := 0
  files : List WalFile := []
  isOpen : Bool := false
  deriving DecidableEq, Repr

/-- `MakeFilePath`. -/
def makeFilePath (cfg : WalConfig) (n : Nat) : String :=
  cfg.directory ++ "/" ++ String.ofList (makeFileName n)

/-- `files_.back().max_sequence = m`, skipped on an empty list. -/
def setBackMax : List WalFile → Nat → List WalFile
  | [], _ => []
  | [f], m => [{ f with maxSequence := m }]
  | f :: g :: fs, m => f :: setBackMax (g :: fs) m

/-- Which system call of a rotation fails, if any. `header k`: the header write stops after
    `k` (modulo the header size) bytes. -/
inductive RotateIo where
  | ok
  | fsyncOld
  | closeOld
  | create
  | header (k : Nat)
  | fsyncNew
  | fsyncDir
  deriving DecidableEq, Repr

/-- `write`/`fsync` of one record: `torn k` stops after `k` (modulo the frame size) bytes. -/
inductive WriteIo where
  | ok
  | torn (k : Nat)
  | fsyncFails
  deriving DecidableEq, Repr

structure AppendIo where
  rotate : RotateIo := .ok
  write : WriteIo := .ok
  deriving DecidableEq, Repr

structure OpenIo where
  /-- `mkdir`, the ownership check or `canonical` refuses the directory. -/
  directoryError : Option Error := none
  opendirFails : Bool := false
  ftruncateFails : Bool := false
  /-- The empty segment whose `unlink` fails, if one does. -/
  unlinkFails : Option Nat := none
  fsyncDirFails : Bool := false
  rotate : RotateIo := .ok
  deriving DecidableEq, Repr

structure TruncateIo where
  unlinkFails : Nat → Bool := fun _ => false
  fsyncDirFails : Bool := false

/-! ## 3. Rotation -/

/-- The `do … while (fd < 0 && errno == EEXIST)` loop: the first number above `n` no file has.
    Every turn but the last meets an existing file, so `dir.length + 1` turns are enough. -/
def nextFileNumber (dir : Dir) : Nat → Nat → Option Nat
  | 0, _ => none
  | turns + 1, n =>
    if n = kMaxU32 then none
    else if dir.contains (n + 1) then nextFileNumber dir turns (n + 1)
    else some (n + 1)

/-- The second half of `RotateFile`: a new segment with number `n`. -/
def createSegment (cfg : WalConfig) (io : RotateIo) (n : Nat) (w : WriteAheadLog) :
    WriteAheadLog × Except Error Unit :=
  let w := { w with currentFileNumber := n }
  match io with
  | .create =>
    (w, .error (makeError .kWalRotationFailed
      ("Failed to create WAL file: " ++ makeFilePath cfg n)))
  | .header k =>
    -- the half-written file stays in the directory
    ({ w with dir := w.dir ++ [⟨n, fileHeader.take (k % kWalFileHeaderSize)⟩], currentFileSize := 0 },
      .error (makeError .kWalWriteError "Failed to write WAL file header"))
  | .fsyncNew =>
    ({ w with currentFileSize := kWalFileHeaderSize },
      .error (makeError .kWalRotationFailed "Failed to fsync new WAL segment: "))
  | .fsyncDir =>
    ({ w with currentFileSize := kWalFileHeaderSize },
      .error (makeError .kWalRotationFailed "Failed to fsync WAL directory: "))
  | _ =>
    ({ w with
        dir := w.dir ++ [⟨n, fileHeader⟩]
        currentFd := some n
        currentFileSize := kWalFileHeaderSize
        files := w.files ++ [⟨n, 0⟩] }, .ok ())

/-- `RotateFile`. -/
def rotateFile (cfg : WalConfig) (io : RotateIo) (w : WriteAheadLog) :
    WriteAheadLog × Except Error Unit :=
  if w.currentFd.isSome ∧ io = .fsyncOld then
    (w, .error (makeError .kWalRotationFailed "Failed to fsync WAL segment before rotation: "))
  else if w.currentFd.isSome ∧ io = .closeOld then
    ({ w with currentFd := none },
      .error (makeError .kWalRotationFailed "Failed to close WAL segment before rotation: "))
  else
    let w := { w with currentFd := none }
    match nextFileNumber w.dir (w.dir.length + 1) w.currentFileNumber with
    | none =>
      ({ w with currentFileNumber := kMaxU32 },
        .error (makeError .kWalRotationFailed "WAL file number space exhausted"))
    | some n => createSegment cfg io n w

/-! ## 4. Append -/

section Operations

variable (crc32 : Bytes → UInt32)

/-- `poison_current_segment`. -/
def poison (w : WriteAheadLog) (message : String) : WriteAheadLog × Except Error Nat :=
  ({ w with currentFd := none, isOpen := false }, .error (makeError .kWalWriteError message))

/-- Whether `Append` rotates before writing a record of the given total size. -/
def needsRotation (cfg : WalConfig) (w : WriteAheadLog) (totalRecordSize : Nat) : Prop :=
  w.currentFileSize + totalRecordSize > cfg.maxFileSize ∧ w.currentFileSize > kWalFileHeaderSize

instance (cfg : WalConfig) (w : WriteAheadLog) (n : Nat) : Decidable (needsRotation cfg w n) :=
  inferInstanceAs (Decidable (_ ∧ _))

/-- The write half of `Append`: the record gets the next sequence number and is written to the
    current segment. -/
def writeRecord (cfg : WalConfig) (io : WriteIo) (now : Nat) (op : WalOpType) (payload : Bytes)
    (w : WriteAheadLog) : WriteAheadLog × Except Error Nat :=
  let seq := w.currentSequence + 1
  let frame := encodeRecord crc32 ⟨seq, now % 2 ^ 64, op.toByte, payload⟩
  let w := { w with currentSequence := seq }
  match w.currentFd with
  | none => poison w "Failed to write record header: "
  | some n =>
    match io with
    | .torn k =>
      poison { w with dir := w.dir.append n (frame.take (k % frame.length)) }
        (if k % frame.length < 8 then "Failed to write record header: "
         else "Failed to write record body: ")
    | io =>
      let w := { w with
        dir := w.dir.append n frame
        currentFileSize := w.currentFileSize + frame.length
        files := setBackMax w.files seq }
      if cfg.syncOnWrite ∧ io = .fsyncFails then poison w "Failed to fsync WAL record: "
      else (w, .ok seq)

/-- `Append`. -/
def append (cfg : WalConfig) (io : AppendIo) (now : Nat) (op : WalOpType) (payload : Bytes)
    (w : WriteAheadLog) : WriteAheadLog × Except Error Nat :=
  if ¬ w.isOpen ∨ w.currentFd = none then
    (w, .error (makeError .kWalNotOpen "WAL is not open"))
  else if w.currentSequence = kMaxU64 then
    (w, .error (makeError .kWalWriteError "WAL sequence number space exhausted"))
  else if payload.length > kMaxWalRecordBodySize - kWalRecordHeaderSize then
    (w, .error (makeError .kWalWriteError "WAL payload exceeds maximum record size"))
  else if needsRotation cfg w (8 + (kWalRecordHeaderSize + payload.length)) then
    -- finalize the current file's metadata, then rotate
    let (w, rotated) := rotateFile cfg io.rotate
      { w with files := setBackMax w.files w.currentSequence }
    match rotated with
    | .error e => (w, .error e)
    | .ok () => writeRecord crc32 cfg io.write now op payload w
  else writeRecord crc32 cfg io.write now op payload w

/-! ## 5. Truncate -/

/-- Whether `Truncate(upTo)` deletes the file: all its records are covered, it has some, and
    it is not the current file. -/
def truncatable (w : WriteAheadLog) (upTo : Nat) (f : WalFile) : Bool :=
  f.maxSequence ≤ upTo && 0 < f.maxSequence && f.fileNumber != w.currentFileNumber

/-- `Truncate`. -/
def truncate (cfg : WalConfig) (io : TruncateIo) (upTo : Nat) (w : WriteAheadLog) :
    WriteAheadLog × Except Error Unit :=
  let deleted := w.files.filter fun f => truncatable w upTo f && !io.unlinkFails f.fileNumber
  let failed := w.files.filter fun f => truncatable w upTo f && io.unlinkFails f.fileNumber
  let w' := { w with
    dir := deleted.foldl (fun dir f => dir.unlink f.fileNumber) w.dir
    files := w.files.filter fun f => !(truncatable w upTo f && !io.unlinkFails f.fileNumber) }
  if deleted ≠ [] ∧ io.fsyncDirFails then
    (w', .error (makeError .kWalTruncateFailed "Failed to fsync WAL directory after truncate: "))
  else
    match failed with
    | f :: _ =>
      (w', .error (makeError .kWalTruncateFailed
        ("Failed to unlink WAL segment '" ++ makeFilePath cfg f.fileNumber ++ "': ")))
    | [] => (w', .ok ())

/-! ## 6. ScanExistingFiles -/

/-- `ValidateFileHeader`. -/
def validateFileHeader (bytes : Bytes) : Except Error Unit :=
  if bytes.length < kWalFileHeaderSize then
    .error (makeError .kWalReadError "Failed to read WAL file header")
  else if ofLeBytes (bytes.take 4) ≠ kWalMagic then
    .error (makeError .kWalCorrupted "Invalid WAL magic number")
  else if ofLeBytes ((bytes.drop 4).take 4) ≠ kWalVersion then
    .error (makeError .kWalCorrupted
      ("Unsupported WAL version: " ++ toString (ofLeBytes ((bytes.drop 4).take 4))))
  else .ok ()

/-- The contiguity test both walks make: the record follows its predecessor directly. -/
def breaksSequence (previous : Option Nat) (seq : Nat) : Bool :=
  match previous with
  | none => false
  | some p => p == kMaxU64 || seq != p + 1

def contiguityError (code : ErrorCode) (previous : Option Nat) (seq : Nat) : Error :=
  makeError code ("WAL sequence is not contiguous: previous=" ++ toString (previous.getD 0) ++
    ", current=" ++ toString seq)

/-- What the scan of one segment leaves: the last sequence seen so far in any segment, the
    segment's `max_sequence`, and `last_valid_offset`. -/
structure SegmentScan where
  previousSequence : Option Nat
  maxSequence : Nat
  validLength : Nat
  deriving DecidableEq, Repr

/-- The record loop of `ScanExistingFiles` over one segment. -/
def scanRecords (path : String) (latest ftruncateFails : Bool) :
    Nat → SegmentScan → Bytes → Except Error SegmentScan
  | 0, _, _ => .error (makeError .kWalReadError ("Failed to read WAL record header: " ++ path))
  | turns + 1, sc, bytes =>
    match readFrame crc32 bytes with
    | .eof => .ok sc
    | .tornHeader =>
      if !latest || ftruncateFails then
        .error (makeError .kWalCorrupted ("Torn WAL header in segment: " ++ path))
      else .ok sc
    | .badLength => .error (makeError .kWalCorrupted ("Invalid WAL record length: " ++ path))
    | .tornBody =>
      if !latest || ftruncateFails then
        .error (makeError .kWalCorrupted ("Torn WAL body in segment: " ++ path))
      else .ok sc
    | .badCrc => .error (makeError .kWalCorrupted ("WAL record CRC mismatch: " ++ path))
    | .record r rest =>
      if breaksSequence sc.previousSequence r.sequence then
        .error (contiguityError .kWalCorrupted sc.previousSequence r.sequence)
      else
        scanRecords path latest ftruncateFails turns
          { previousSequence := some r.sequence
            maxSequence := max sc.maxSequence r.sequence
            validLength := sc.validLength + (bytes.length - rest.length) } rest

/-- The segment loop of `ScanExistingFiles`, over the sorted file numbers. -/
def scanSegments (cfg : WalConfig) (ftruncateFails : Bool) :
    List Nat → Option Nat → WriteAheadLog → WriteAheadLog × Except Error Unit
  | [], _, w => (w, .ok ())
  | n :: rest, previous, w =>
    match w.dir.lookup n with
    | none =>
      (w, .error (makeError .kWalReadError ("Failed to open WAL segment: " ++ makeFilePath cfg n)))
    | some bytes =>
      match validateFileHeader bytes with
      | .error e => (w, .error e)
      | .ok () =>
        match scanRecords crc32 (makeFilePath cfg n) rest.isEmpty ftruncateFails (bytes.length + 1)
            ⟨previous, 0, kWalFileHeaderSize⟩ (bytes.drop kWalFileHeaderSize) with
        | .error e => (w, .error e)
        | .ok sc =>
          -- a torn tail was cut off by `ftruncate`; without one this keeps every byte
          scanSegments cfg ftruncateFails rest sc.previousSequence
            { w with
              dir := w.dir.truncateTo n sc.validLength
              files := w.files ++ [⟨n, sc.maxSequence⟩]
              currentSequence := max w.currentSequence sc.maxSequence
              currentFileNumber := max w.currentFileNumber n }

/-- The file numbers a directory listing yields, sorted. -/
def listedNumbers (dir : Dir) : List Nat :=
  (dir.filterMap fun e => fileNumberOf (makeFileName e.number)).insertionSort (· ≤ ·)

/-- `std::adjacent_find` on the sorted numbers finds nothing. -/
def noAdjacentEqual : List Nat → Bool
  | a :: b :: l => a != b && noAdjacentEqual (b :: l)
  | _ => true

/-- `ScanExistingFiles`. A directory that cannot be listed counts as a fresh start. -/
def scanExistingFiles (cfg : WalConfig) (io : OpenIo) (w : WriteAheadLog) :
    WriteAheadLog × Except Error Unit :=
  let w := { w with files := [], currentSequence := 0, currentFileNumber := 0 }
  if io.opendirFails then (w, .ok ())
  else if noAdjacentEqual (listedNumbers w.dir) then
    scanSegments crc32 cfg io.ftruncateFails (listedNumbers w.dir) none w
  else (w, .error (makeError .kWalCorrupted "Duplicate WAL segment number"))

/-! ## 7. Open and Close -/

/-- `Close`. -/
def close (w : WriteAheadLog) : WriteAheadLog :=
  { w with currentFd := none, isOpen := false }

/-- Discarding the header-only segments after the scan. -/
def removeEmptySegments (io : OpenIo) (w : WriteAheadLog) : WriteAheadLog × Except Error Unit :=
  let empty := w.files.filter fun f => f.maxSequence == 0
  let removed := empty.takeWhile fun f => io.unlinkFails ≠ some f.fileNumber
  let w := { w with dir := removed.foldl (fun dir f => dir.unlink f.fileNumber) w.dir }
  if removed.length < empty.length then
    -- the loop stops at the first failure, with the earlier ones already gone
    (w, .error (makeError .kWalTruncateFailed "Failed to remove empty WAL segment '"))
  else
    let w := { w with files := w.files.filter fun f => f.maxSequence != 0 }
    if empty ≠ [] ∧ io.fsyncDirFails then
      (w, .error (makeError .kWalTruncateFailed
        "Failed to fsync WAL directory after removing empty segments: "))
    else (w, .ok ())

/-- `Open`. -/
def openWal (cfg : WalConfig) (io : OpenIo) (w : WriteAheadLog) :
    WriteAheadLog × Except Error Unit :=
  let w := close w
  match io.directoryError with
  | some e => (w, .error e)
  | none =>
    match scanExistingFiles crc32 cfg io w with
    | (w, .error e) => (w, .error e)
    | (w, .ok ()) =>
      match removeEmptySegments io w with
      | (w, .error e) => (w, .error e)
      | (w, .ok ()) =>
        match rotateFile cfg io.rotate w with
        | (w, .error e) => (w, .error e)
        | (w, .ok ()) => ({ w with isOpen := true }, .ok ())

/-! ## 8. Replay -/

/-- The state of a replay: contiguity, the floor, the count, and what the callback built. -/
structure ReplayState (τ : Type) where
  previousSequence : Option Nat
  floorSeen : Bool
  count : Nat
  acc : τ

/-- The record loop of `ReplayValidated` over one segment. The flag says that a torn tail of
    the newest segment ended the whole replay. -/
def replayRecords {τ : Type} (path : String) (latest : Bool) (fromSequence : Nat)
    (callback : τ → WalRecord → Except Error τ) :
    Nat → ReplayState τ → Bytes → Except Error (Bool × ReplayState τ)
  | 0, _, _ => .error (makeError .kWalReadError "Failed to read WAL record header")
  | turns + 1, st, bytes =>
    match readFrame crc32 bytes with
    | .eof => .ok (false, st)
    | .tornHeader =>
      if latest then .ok (true, st)
      else .error (makeError .kStorageCorrupted ("Torn WAL header in non-latest segment: " ++ path))
    | .badLength => .error (makeError .kStorageCorrupted ("Invalid WAL record length in " ++ path))
    | .tornBody =>
      if latest then .ok (true, st)
      else .error (makeError .kStorageCorrupted ("Torn WAL body in non-latest segment: " ++ path))
    | .badCrc => .error (makeError .kStorageCorrupted ("WAL record CRC mismatch in " ++ path))
    | .record r rest =>
      if breaksSequence st.previousSequence r.sequence then
        .error (contiguityError .kStorageCorrupted st.previousSequence r.sequence)
      else
        let st := { st with
          previousSequence := some r.sequence
          floorSeen := st.floorSeen || r.sequence == fromSequence }
        if r.sequence < fromSequence then
          replayRecords path latest fromSequence callback turns st rest
        else
          match callback st.acc r with
          | .error e => .error e
          | .ok acc =>
            replayRecords path latest fromSequence callback turns
              { st with count := st.count + 1, acc := acc } rest

/-- The segment loop of `ReplayValidated`. -/
def replaySegments {τ : Type} (cfg : WalConfig) (dir : Dir) (fromSequence : Nat)
    (callback : τ → WalRecord → Except Error τ) :
    List Nat → ReplayState τ → Except Error (Bool × ReplayState τ)
  | [], st => .ok (false, st)
  | n :: rest, st =>
    match dir.lookup n with
    | none => .error (makeError .kWalReadError ("Failed to open WAL segment: " ++ makeFilePath cfg n))
    | some bytes =>
      match validateFileHeader bytes with
      | .error e => .error e
      | .ok () =>
        match replayRecords crc32 (makeFilePath cfg n) rest.isEmpty fromSequence callback
            (bytes.length + 1) st (bytes.drop kWalFileHeaderSize) with
        | .error e => .error e
        | .ok (true, st) => .ok (true, st)
        | .ok (false, st) => replaySegments cfg dir fromSequence callback rest st

/-- The files `ReplayValidated` reads: those that may hold a record at or above the floor. -/
def replayPaths (w : WriteAheadLog) (fromSequence : Nat) : List Nat :=
  (w.files.filter fun f => fromSequence ≤ f.maxSequence || f.maxSequence == 0).map (·.fileNumber)

/-- `ReplayValidated`: the number of records replayed and what the callback built. -/
def replayValidated {τ : Type} (cfg : WalConfig) (fromSequence : Nat)
    (callback : τ → WalRecord → Except Error τ) (init : τ) (w : WriteAheadLog) :
    Except Error (Nat × τ) :=
  match replaySegments crc32 cfg w.dir fromSequence callback (replayPaths w fromSequence)
      ⟨none, fromSequence == 0, 0, init⟩ with
  | .error e => .error e
  | .ok (true, st) => .ok (st.count, st.acc)
  | .ok (false, st) =>
    if !st.floorSeen && fromSequence ≤ w.currentSequence then
      .error (makeError .kWalCorrupted
        ("WAL does not contain requested replay floor sequence " ++ toString fromSequence))
    else .ok (st.count, st.acc)

end Operations

end Nvecd.Storage
