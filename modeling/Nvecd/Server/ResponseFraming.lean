/-
  File:      Nvecd/Server/ResponseFraming.lean
  Subject:   Responses on the wire: `NormalizeResponse`, the same on both transports.

  * `normalizeResponse` -- one CR LF at the end of every line, and nothing behind the last.
-/
import Nvecd.Lib.Lines
import Nvecd.Storage.WalFormat
import Mathlib.Data.List.DropRight

namespace Nvecd.Server

open Nvecd.Lib Nvecd.Storage

/-- A CR goes, an LF becomes a CR LF. -/
def normalizeByte (b : UInt8) : Bytes :=
  if b = cr then [] else if b = lf then [cr, lf] else [b]

/-- **`NormalizeResponse`**: trailing line ends go, then every line gets its CR LF. -/
def normalizeResponse (response : Bytes) : Bytes :=
  (response.rdropWhile fun b => decide (b = cr ∨ b = lf)).flatMap normalizeByte ++ [cr, lf]

end Nvecd.Server
