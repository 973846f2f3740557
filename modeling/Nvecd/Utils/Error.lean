/-
  File:      Nvecd/Utils/Error.lean
  Subject:   `utils/error.h`: error codes and errors, as far as the modelled functions return
             them. `Expected<T, Error>` is `Except Error T`.
-/

namespace Nvecd.Utils

inductive ErrorCode where
  | kInvalidArgument
  | kInternalError
  | kNotFound
  | kPermissionDenied
  | kCommandUnknown
  | kCommandSyntaxError
  | kCommandInvalidArgument
  | kCommandParseError
  | kCommandInvalidTopK
  | kEventStoreError
  | kEventInvalidScore
  | kEventDecayFailed
  | kVectorNotFound
  | kVectorInvalidDimension
  | kVectorDimensionMismatch
  | kSimilaritySearchFailed
  | kStorageCorrupted
  | kStorageInvalidFormat
  | kStorageWriteError
  | kStorageDumpReadError
  | kStorageDumpWriteError
  | kSnapshotAlreadyInProgress
  | kSnapshotForkFailed
  | kSnapshotLoadFailed
  | kWalWriteError
  | kWalReadError
  | kWalCorrupted
  | kWalNotOpen
  | kWalRotationFailed
  | kWalTruncateFailed
  | kClientInvalidArgument
  deriving DecidableEq, Repr

structure Error where
  code : ErrorCode
  message : String
  deriving DecidableEq, Repr

/-- `MakeError(code, message)`. -/
def makeError (code : ErrorCode) (message : String) : Error := ⟨code, message⟩

end Nvecd.Utils
