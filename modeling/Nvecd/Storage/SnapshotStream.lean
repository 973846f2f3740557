/-
  File:      Nvecd/Storage/SnapshotStream.lean
  Subject:   How `storage/snapshot_format_v1.cpp` writes to and reads from a stream.

  Numbers are little-endian; a string is its length and its bytes. A stream that is read is the
  list of bytes still in front of the reader; a read that fails ends the reading.

  * `writeString`, `readString`, `readString_writeString`;
  * `checkedSizeToU32` -- counts;
  * `orError` -- the message of a failed read or write;
  * `FloatBits` -- `float`s as numbers.
-/
import Nvecd.Lib.Codec
import Nvecd.Storage.WalFormat
import Nvecd.Utils.Error

namespace Nvecd.Storage.Snapshot

open Nvecd.Lib Nvecd.Utils

/-! ## 1. Errors -/

def writeError (message : String) : Error := makeError .kStorageDumpWriteError message

def readError (message : String) : Error := makeError .kStorageDumpReadError message

/-- What succeeds, or the error to report. -/
def orError {ε α : Type} (e : ε) : Option α → Except ε α
  | none => .error e
  | some x => .ok x

@[simp] theorem orError_some {ε α : Type} (e : ε) (x : α) : orError e (some x) = .ok x := rfl

theorem orError_eq_ok {ε α : Type} {e : ε} {o : Option α} {x : α} :
    orError e o = .ok x ↔ o = some x := by
  cases o <;> simp [orError]

@[simp] theorem ok_bind {ε α β : Type} (x : α) (f : α → Except ε β) :
    ((.ok x : Except ε α) >>= f) = f x := rfl

theorem bind_eq_ok {ε α β : Type} {x : Except ε α} {f : α → Except ε β} {b : β} :
    (x >>= f) = .ok b ↔ ∃ a, x = .ok a ∧ f a = .ok b := by
  cases x with
  | error e => simp [bind, Except.bind]
  | ok a => simp

/-! ## 2. Strings and counts -/

def kMaxStringLength : Nat := 256 * 1024 * 1024

/-- `WriteString`. -/
def writeString (str : Bytes) : Option Bytes :=
  if str.length > kMaxStringLength then none else some (leBytes 4 str.length ++ str)

/-- `ReadString`. -/
def readString (stream : Bytes) : Option (Bytes × Bytes) :=
  match readNumber 4 stream with
  | none => none
  | some (len, rest) =>
    if len > kMaxStringLength then none
    else if rest.length < len then none
    else some (rest.take len, rest.drop len)

/-- What was read as a string stood at the front. -/
theorem readString_eq_some {str stream rest : Bytes} (h : readString stream = some (str, rest)) :
    ∃ b, writeString str = some b ∧ stream = b ++ rest := by
  unfold readString at h
  cases hn : readNumber 4 stream with
  | none =>
    rw [hn] at h
    cases h
  | some p =>
    obtain ⟨len, later⟩ := p
    obtain ⟨front, rfl, hfront, rfl⟩ := readNumber_eq_some hn
    rw [hn] at h
    simp only at h
    split at h
    · cases h
    · rename_i hmax
      split at h
      · cases h
      · rename_i hlen
        cases h
        have htake : (later.take (ofLeBytes front)).length = ofLeBytes front := by
          rw [List.length_take]
          omega
        refine ⟨leBytes 4 (ofLeBytes front) ++ later.take (ofLeBytes front), ?_, ?_⟩
        · rw [writeString, htake, if_neg hmax]
        · rw [← hfront, leBytes_ofLeBytes, List.append_assoc, List.take_append_drop]

theorem writeString_eq_some {str b : Bytes} (h : writeString str = some b) :
    str.length ≤ kMaxStringLength ∧ b = leBytes 4 str.length ++ str := by
  unfold writeString at h
  split at h
  · cases h
  · rename_i hlen
    cases h
    exact ⟨Nat.le_of_not_lt hlen, rfl⟩

theorem length_writeString {str b : Bytes} (h : writeString str = some b) :
    b.length = 4 + str.length := by
  obtain ⟨-, rfl⟩ := writeString_eq_some h
  simp

theorem readString_writeString {str b : Bytes} (h : writeString str = some b) (rest : Bytes) :
    readString (b ++ rest) = some (str, rest) := by
  obtain ⟨hlen, rfl⟩ := writeString_eq_some h
  have hsize : str.length < 256 ^ 4 := by
    simp only [kMaxStringLength] at hlen
    omega
  have hshort : ¬ str.length > kMaxStringLength := Nat.not_lt.mpr hlen
  simp [readString, readNumber_leBytes hsize, hshort]

/-- `CheckedSizeToU32`. -/
def checkedSizeToU32 (size limit : Nat) (label : String) : Except Error Nat :=
  if size > limit ∨ size > kMaxU32 then
    .error (writeError (label ++ " size exceeds maximum: " ++ toString size))
  else .ok size

theorem checkedSizeToU32_ok {size limit n : Nat} {label : String}
    (h : checkedSizeToU32 size limit label = .ok n) : n = size ∧ size ≤ limit ∧ size < 256 ^ 4 := by
  unfold checkedSizeToU32 at h
  split at h
  · cases h
  · rename_i hfit
    cases h
    simp only [kMaxU32] at hfit
    omega

/-- `HasRemainingBytes`. -/
def hasRemainingBytes (stream : Bytes) (required : Nat) : Bool := required ≤ stream.length

/-! ## 3. Floats -/

/-- The bits of a `float`, copied out and in. -/
class FloatBits (F : Type) where
  toBits : F → UInt32
  ofBits : UInt32 → F
  ofBits_toBits : ∀ x, ofBits (toBits x) = x

end Nvecd.Storage.Snapshot
