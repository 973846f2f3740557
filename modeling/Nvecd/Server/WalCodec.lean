/-
  File:      Nvecd/Server/WalCodec.lean
  Subject:   `server/wal_codec.cpp`: the payload of a WAL record as a command, and back.

  Strings carry their length in front, vectors their dimension, typed metadata a magic number
  and a count. The readers take bytes off the front and fail where the payload ends too early.

  * `Command`, `encodeCommand`, `walOpForCommand`, `decodeWalRecord`;
  * `readLe_leBytes`, `readString_appendString`, `readFloats_appendFloats`,
    `decodeTypedMetadata_encode` -- each reader takes back what its writer wrote;
  * `decode_event`, `decode_vecset`, `decode_vecdel`, `decode_metaset` -- so do the commands, for
    payloads of the size `Append` accepts.
-/
import Nvecd.Events.EventStore
import Nvecd.Vectors.Metadata

namespace Nvecd.Server

open Nvecd.Lib Nvecd.Utils Nvecd.Storage Nvecd.Events Nvecd.Vectors

/-! ## 1. Commands -/

/-- The commands that write; the others never reach the log. -/
inductive CommandType where
  | kUnknown
  | kEvent
  | kVecset
  | kVecdel
  | kMetaset
  deriving DecidableEq, Repr

/-- `Command`, as far as the commands that write use it. -/
structure Command where
  type : CommandType := .kUnknown
  ctx : Bytes := []
  id : Bytes := []
  score : Int := 0
  eventType : EventType := .ADD
  timestamp : Option UInt64 := none
  filterExpr : Bytes := []
  metadata : Option Metadata := none
  dimension : Nat := 0
  vector : List UInt32 := []

/-- The bytes `NVM1`. -/
def kTypedMetadataMagic : Nat := 0x314D564E

/-- `AppendString`: the length in four bytes, and the string. -/
def appendString (s : Bytes) : Bytes := leBytes 4 s.length ++ s

/-- The tag of a value and the value. -/
def encodeValue : MetadataValue → Bytes
  | .string s => 0 :: appendString s
  | .int64 n => 1 :: leBytes 8 n.toUInt64.toNat
  | .double d => 2 :: leBytes 8 d.toNat
  | .bool b => [3, if b then 1 else 0]

def encodeEntries : List (Bytes × MetadataValue) → Bytes
  | [] => []
  | e :: es => appendString e.1 ++ encodeValue e.2 ++ encodeEntries es

/-- `EncodeTypedMetadata`. -/
def encodeTypedMetadata (m : Metadata) : Bytes :=
  leBytes 4 kTypedMetadataMagic ++ leBytes 4 m.size ++ encodeEntries m.entries

def encodeFloats : List UInt32 → Bytes
  | [] => []
  | f :: fs => leBytes 4 f.toNat ++ encodeFloats fs

/-- `WalOpForCommand`. -/
def walOpForCommand (cmd : Command) : WalOpType :=
  match cmd.type with
  | .kEvent => if cmd.eventType = .DEL then .kEventDel else .kEventAdd
  | .kVecset => .kVecSet
  | .kVecdel => .kVecDel
  | .kMetaset => .kMetaSet
  | .kUnknown => .kVecSet

/-- `EncodeCommand`. -/
def encodeCommand (cmd : Command) : Bytes :=
  match cmd.type with
  | .kEvent =>
    cmd.eventType.toByte :: (appendString cmd.ctx ++ appendString cmd.id ++
      leBytes 4 (int32Bits cmd.score) ++ leBytes 8 (cmd.timestamp.getD 0).toNat)
  | .kVecset =>
    appendString cmd.id ++ leBytes 4 cmd.vector.length ++ encodeFloats cmd.vector ++
      (match cmd.metadata with
        | some m => encodeTypedMetadata m
        | none => [])
  | .kVecdel => appendString cmd.id
  | .kMetaset =>
    appendString cmd.id ++
      (match cmd.metadata with
        | some m => encodeTypedMetadata m
        | none => appendString cmd.filterExpr)
  | .kUnknown => []

/-! ## 2. Readers -/

/-- `TruncatedError`. -/
def truncatedError (what : String) : Error :=
  makeError .kStorageCorrupted ("WAL payload truncated while decoding " ++ what)

/-- `ReadLE` of `n` bytes: the number and what is left. -/
def readLe (n : Nat) (bytes : Bytes) : Option (Nat × Bytes) :=
  if n > bytes.length then none else some (ofLeBytes (bytes.take n), bytes.drop n)

/-- `ReadString`. -/
def readString (bytes : Bytes) : Option (Bytes × Bytes) :=
  match readLe 4 bytes with
  | none => none
  | some (len, rest) => if len > rest.length then none else some (rest.take len, rest.drop len)

/-- `n` times `ReadFloat`. -/
def readFloats : Nat → Bytes → Option (List UInt32 × Bytes)
  | 0, bytes => some ([], bytes)
  | n + 1, bytes =>
    match readLe 4 bytes with
    | none => none
    | some (bits, rest) =>
      match readFloats n rest with
      | none => none
      | some (fs, rest) => some (UInt32.ofNat bits :: fs, rest)

/-- One value behind its tag. -/
def decodeValue (tag : Nat) (bytes : Bytes) : Except Error (MetadataValue × Bytes) :=
  match tag with
  | 0 =>
    match readString bytes with
    | none => .error (truncatedError "METASET string value")
    | some (s, rest) => .ok (.string s, rest)
  | 1 =>
    match readLe 8 bytes with
    | none => .error (truncatedError "METASET integer value")
    | some (raw, rest) => .ok (.int64 ⟨UInt64.ofNat raw⟩, rest)
  | 2 =>
    match readLe 8 bytes with
    | none => .error (truncatedError "METASET double value")
    | some (raw, rest) => .ok (.double (UInt64.ofNat raw), rest)
  | 3 =>
    match readLe 1 bytes with
    | none => .error (truncatedError "METASET boolean value")
    | some (raw, rest) =>
      if raw > 1 then .error (truncatedError "METASET boolean value")
      else .ok (.bool (raw == 1), rest)
  | _ => .error (makeError .kStorageCorrupted "METASET metadata value tag is invalid")

/-- The entries of `DecodeTypedMetadata`: a key that comes again is ignored. -/
def decodeEntries : Nat → Metadata → Bytes → Except Error Metadata
  | 0, m, _ => .ok m
  | n + 1, m, bytes =>
    match readString bytes with
    | none => .error (truncatedError "METASET metadata entry")
    | some (key, rest) =>
      match readLe 1 rest with
      | none => .error (truncatedError "METASET metadata entry")
      | some (tag, rest) =>
        match decodeValue tag rest with
        | .error e => .error e
        | .ok (value, rest) => decodeEntries n (m.emplace key value) rest

/-- `DecodeTypedMetadata`. -/
def decodeTypedMetadata (bytes : Bytes) : Except Error Metadata :=
  match readLe 4 bytes with
  | none => .error (truncatedError "METASET metadata count")
  | some (count, rest) =>
    if count > rest.length then
      .error (makeError .kStorageCorrupted "METASET metadata entry count exceeds payload")
    else decodeEntries count .empty rest

def decodeEvent (bytes : Bytes) : Except Error Command :=
  match readLe 1 bytes with
  | none => .error (truncatedError "EVENT event_type")
  | some (type, rest) =>
    match readString rest with
    | none => .error (truncatedError "EVENT ctx")
    | some (ctx, rest) =>
      match readString rest with
      | none => .error (truncatedError "EVENT id")
      | some (id, rest) =>
        match readLe 4 rest with
        | none => .error (truncatedError "EVENT score")
        | some (score, rest) =>
          match readLe 8 rest with
          | none => .error (truncatedError "EVENT timestamp")
          | some (timestamp, _) =>
            .ok { type := .kEvent
                  eventType := .ofByte (UInt8.ofNat type)
                  ctx := ctx
                  id := id
                  score := int32OfBits score
                  timestamp := some (UInt64.ofNat timestamp) }

/-- The metadata behind a vector, if there is any. -/
def decodeExtension (cmd : Command) (bytes : Bytes) : Except Error Command :=
  if bytes = [] then .ok cmd
  else
    let invalid := makeError .kStorageCorrupted "VECSET metadata extension is invalid"
    match readLe 4 bytes with
    | none => .error invalid
    | some (magic, rest) =>
      if magic ≠ kTypedMetadataMagic then .error invalid
      else
        match decodeTypedMetadata rest with
        | .error e => .error e
        | .ok m => .ok { cmd with metadata := some m }

def decodeVecset (bytes : Bytes) : Except Error Command :=
  match readString bytes with
  | none => .error (truncatedError "VECSET id")
  | some (id, rest) =>
    match readLe 4 rest with
    | none => .error (truncatedError "VECSET dim")
    | some (dim, rest) =>
      if dim > 2 ^ 31 - 1 ∨ dim > rest.length / 4 then
        .error (makeError .kStorageCorrupted "VECSET dimension exceeds payload bounds")
      else
        match readFloats dim rest with
        | none => .error (truncatedError "VECSET vector element")
        | some (vector, rest) =>
          decodeExtension { type := .kVecset, id := id, dimension := dim, vector := vector } rest

def decodeVecdel (bytes : Bytes) : Except Error Command :=
  match readString bytes with
  | none => .error (truncatedError "VECDEL id")
  | some (id, _) => .ok { type := .kVecdel, id := id }

/-- Typed metadata is told from a text by its magic number. -/
def decodeMetaset (bytes : Bytes) : Except Error Command :=
  match readString bytes with
  | none => .error (truncatedError "METASET id")
  | some (id, rest) =>
    let text :=
      match readString rest with
      | none => .error (truncatedError "METASET filter_expr")
      | some (expr, _) => .ok { type := .kMetaset, id := id, filterExpr := expr }
    match readLe 4 rest with
    | none => text
    | some (magic, typed) =>
      if magic = kTypedMetadataMagic then
        match decodeTypedMetadata typed with
        | .error e => .error e
        | .ok m => .ok { type := .kMetaset, id := id, metadata := some m }
      else text

/-- `DecodeWalRecord`. -/
def decodeWalRecord (record : WalRecord) : Except Error Command :=
  match WalOpType.ofByte? record.op with
  | some .kEventAdd => decodeEvent record.payload
  | some .kEventDel => decodeEvent record.payload
  | some .kVecSet => decodeVecset record.payload
  | some .kVecDel => decodeVecdel record.payload
  | some .kMetaSet => decodeMetaset record.payload
  | _ => .error (makeError .kStorageInvalidFormat "Unsupported WAL op type for command decode")

/-! ## 3. What is written is read back -/

theorem readLe_leBytes {w n : Nat} (h : n < 256 ^ w) (rest : Bytes) :
    readLe w (leBytes w n ++ rest) = some (n, rest) := by
  simp [readLe, ofLeBytes_leBytes h]

theorem readString_appendString {s : Bytes} (h : s.length < 2 ^ 32) (rest : Bytes) :
    readString (appendString s ++ rest) = some (s, rest) := by
  have hlen : s.length < 256 ^ 4 := h
  simp [readString, appendString, readLe_leBytes hlen]

theorem readFloats_encodeFloats (fs : List UInt32) (rest : Bytes) :
    readFloats fs.length (encodeFloats fs ++ rest) = some (fs, rest) := by
  induction fs with
  | nil => rfl
  | cons f fs ih =>
    have hf : f.toNat < 256 ^ 4 := f.toNat_lt
    rw [List.length_cons, readFloats, encodeFloats, List.append_assoc, readLe_leBytes hf]
    simp [ih]

theorem length_encodeFloats (fs : List UInt32) : (encodeFloats fs).length = 4 * fs.length := by
  induction fs with
  | nil => rfl
  | cons f fs ih =>
    rw [encodeFloats, List.length_append, length_leBytes, ih, List.length_cons]
    omega

/-- The tag of `encodeValue`. -/
def valueTag : MetadataValue → Nat
  | .string _ => 0
  | .int64 _ => 1
  | .double _ => 2
  | .bool _ => 3

theorem readLe_tag (v : MetadataValue) (rest : Bytes) :
    readLe 1 (encodeValue v ++ rest) = some (valueTag v, (encodeValue v).tail ++ rest) := by
  cases v <;> simp [readLe, encodeValue, valueTag, ofLeBytes]

theorem decodeValue_encodeValue {v : MetadataValue} (h : (encodeValue v).length < 2 ^ 32)
    (rest : Bytes) : decodeValue (valueTag v) ((encodeValue v).tail ++ rest) = .ok (v, rest) := by
  cases v with
  | string s =>
    have hs : s.length < 2 ^ 32 := by
      simp only [encodeValue, appendString, List.length_cons, List.length_append,
        length_leBytes] at h
      omega
    simp [decodeValue, valueTag, encodeValue, readString_appendString hs]
  | int64 n =>
    have hn : n.toUInt64.toNat < 256 ^ 8 := n.toUInt64.toNat_lt
    simp [decodeValue, valueTag, encodeValue, readLe_leBytes hn]
  | double d =>
    have hd : d.toNat < 256 ^ 8 := d.toNat_lt
    simp [decodeValue, valueTag, encodeValue, readLe_leBytes hd]
  | bool b =>
    cases b <;> simp [decodeValue, valueTag, encodeValue, readLe, ofLeBytes]

theorem length_le_encodeEntries (es : List (Bytes × MetadataValue)) :
    es.length ≤ (encodeEntries es).length := by
  induction es with
  | nil => exact Nat.le_refl _
  | cons e es ih =>
    simp only [encodeEntries, appendString, List.length_cons, List.length_append, length_leBytes]
    omega

/-- The entries are read back behind those already there. -/
theorem decodeEntries_encodeEntries {es : List (Bytes × MetadataValue)} {m : Metadata}
    (hlen : (encodeEntries es).length < 2 ^ 32)
    (hnd : ((m.entries ++ es).map Prod.fst).Nodup) (rest : Bytes) :
    ∃ m', decodeEntries es.length m (encodeEntries es ++ rest) = .ok m' ∧
      m'.entries = m.entries ++ es := by
  induction es generalizing m with
  | nil => exact ⟨m, rfl, by simp⟩
  | cons e es ih =>
    obtain ⟨key, value⟩ := e
    simp only [encodeEntries, appendString, List.length_append, length_leBytes] at hlen
    have hkey : key.length < 2 ^ 32 := by omega
    have hvalue : (encodeValue value).length < 2 ^ 32 := by omega
    have hnew : key ∉ m.keys := by
      rw [List.map_append, List.nodup_append] at hnd
      exact fun hk => hnd.2.2 key hk key (by simp) rfl
    have hm : (m.emplace key value).entries = m.entries ++ [(key, value)] := by
      have hc : m.contains key = false := by
        rw [← Bool.not_eq_true, AssocMap.contains_iff]
        exact hnew
      rw [AssocMap.emplace, hc]
      exact AssocMap.entries_insert_of_not_mem hnew
    have hnd' : (((m.emplace key value).entries ++ es).map Prod.fst).Nodup := by
      rw [hm]
      simpa using hnd
    obtain ⟨m', hdec, hm'⟩ := ih (by omega) hnd'
    refine ⟨m', ?_, by rw [hm', hm]; simp⟩
    simp only [encodeEntries, List.length_cons, decodeEntries, List.append_assoc,
      readString_appendString hkey, readLe_tag, decodeValue_encodeValue hvalue]
    exact hdec

theorem decodeTypedMetadata_encode {m : Metadata} (h : (encodeTypedMetadata m).length < 2 ^ 32) :
    ∃ rest, encodeTypedMetadata m = leBytes 4 kTypedMetadataMagic ++ rest ∧
      decodeTypedMetadata rest = .ok m := by
  refine ⟨leBytes 4 m.size ++ encodeEntries m.entries, by simp [encodeTypedMetadata], ?_⟩
  simp only [encodeTypedMetadata, List.length_append, length_leBytes] at h
  have hle := length_le_encodeEntries m.entries
  have hsize : m.size < 256 ^ 4 := by
    simp only [AssocMap.size]
    omega
  obtain ⟨m', hdec, hm'⟩ := @decodeEntries_encodeEntries m.entries .empty
    (by omega) (by simpa [AssocMap.empty] using m.nodupKeys) []
  have heq : m' = m := AssocMap.ext_entries (by simpa [AssocMap.empty] using hm')
  rw [List.append_nil] at hdec
  have hcount : ¬ m.size > (encodeEntries m.entries).length := by
    simp only [AssocMap.size]
    omega
  simp only [decodeTypedMetadata, readLe_leBytes hsize, if_neg hcount]
  exact heq ▸ hdec

section Commands

variable {cmd : Command} {sequence timestampUs : Nat}

/-- The record `AppendToWal` writes for a command. -/
def recordOf (sequence timestampUs : Nat) (cmd : Command) : WalRecord :=
  ⟨sequence, timestampUs, (walOpForCommand cmd).toByte, encodeCommand cmd⟩

theorem decode_event (htype : cmd.type = .kEvent) (hlen : (encodeCommand cmd).length < 2 ^ 32)
    (hlo : -(2 ^ 31) ≤ cmd.score) (hhi : cmd.score < 2 ^ 31) :
    decodeWalRecord (recordOf sequence timestampUs cmd) =
      .ok { type := .kEvent, eventType := cmd.eventType, ctx := cmd.ctx, id := cmd.id,
            score := cmd.score, timestamp := some (cmd.timestamp.getD 0) } := by
  have hop : decodeWalRecord (recordOf sequence timestampUs cmd) =
      decodeEvent (encodeCommand cmd) := by
    simp only [decodeWalRecord, recordOf, WalOpType.ofByte?_toByte, walOpForCommand, htype]
    by_cases hdel : cmd.eventType = .DEL
    · rw [if_pos hdel]
    · rw [if_neg hdel]
  rw [hop]
  simp only [encodeCommand, htype, List.length_cons, List.length_append, appendString,
    length_leBytes] at hlen
  have hctx : cmd.ctx.length < 2 ^ 32 := by omega
  have hid : cmd.id.length < 2 ^ 32 := by omega
  have hscore := int32Bits_lt cmd.score
  have hts : (cmd.timestamp.getD 0).toNat < 256 ^ 8 := UInt64.toNat_lt _
  have htag : ∀ rest, readLe 1 (cmd.eventType.toByte :: rest) =
      some (cmd.eventType.toByte.toNat, rest) := by
    intro rest
    simp [readLe, ofLeBytes]
  have hnil := readLe_leBytes hts []
  rw [List.append_nil] at hnil
  simp only [encodeCommand, htype, decodeEvent, htag, List.append_assoc,
    readString_appendString hctx, readString_appendString hid, readLe_leBytes hscore, hnil,
    int32OfBits_int32Bits hlo hhi, UInt8.ofNat_toNat, EventType.ofByte_toByte, UInt64.ofNat_toNat]

theorem decode_vecset (htype : cmd.type = .kVecset) (hlen : (encodeCommand cmd).length < 2 ^ 31) :
    decodeWalRecord (recordOf sequence timestampUs cmd) =
      .ok { type := .kVecset, id := cmd.id, dimension := cmd.vector.length, vector := cmd.vector,
            metadata := cmd.metadata } := by
  have hop : decodeWalRecord (recordOf sequence timestampUs cmd) =
      decodeVecset (encodeCommand cmd) := by
    simp only [decodeWalRecord, recordOf, WalOpType.ofByte?_toByte, walOpForCommand, htype]
  rw [hop]
  simp only [encodeCommand, htype, List.length_append, appendString, length_leBytes,
    length_encodeFloats] at hlen
  have hid : cmd.id.length < 2 ^ 32 := by omega
  have hdim : cmd.vector.length < 256 ^ 4 := by omega
  have hbound : ∀ rest : Bytes, ¬ (cmd.vector.length > 2 ^ 31 - 1 ∨
      cmd.vector.length > (encodeFloats cmd.vector ++ rest).length / 4) := by
    intro rest
    rw [List.length_append, length_encodeFloats]
    omega
  simp only [encodeCommand, htype, decodeVecset, List.append_assoc, readString_appendString hid,
    readLe_leBytes hdim, if_neg (hbound _), readFloats_encodeFloats]
  cases hm : cmd.metadata with
  | none => rfl
  | some m =>
    simp only [hm] at hlen
    obtain ⟨rest, henc, hdec⟩ := decodeTypedMetadata_encode (m := m) (by omega)
    have hmagic : kTypedMetadataMagic < 256 ^ 4 := by decide
    have hne : leBytes 4 kTypedMetadataMagic ++ rest ≠ [] := by simp [leBytes]
    simp only [decodeExtension, henc, if_neg hne, readLe_leBytes hmagic, hdec]
    rfl

theorem decode_vecdel (htype : cmd.type = .kVecdel) (hlen : (encodeCommand cmd).length < 2 ^ 32) :
    decodeWalRecord (recordOf sequence timestampUs cmd) = .ok { type := .kVecdel, id := cmd.id } := by
  have hop : decodeWalRecord (recordOf sequence timestampUs cmd) =
      decodeVecdel (encodeCommand cmd) := by
    simp only [decodeWalRecord, recordOf, WalOpType.ofByte?_toByte, walOpForCommand, htype]
  rw [hop]
  simp only [encodeCommand, htype, List.length_append, appendString, length_leBytes] at hlen
  have hid : cmd.id.length < 2 ^ 32 := by omega
  have hread := readString_appendString hid []
  rw [List.append_nil] at hread
  simp only [encodeCommand, htype, decodeVecdel, hread]

/-- A text is never taken for typed metadata: its length would have to be the magic number. -/
theorem decode_metaset (htype : cmd.type = .kMetaset)
    (hlen : (encodeCommand cmd).length < kTypedMetadataMagic) :
    decodeWalRecord (recordOf sequence timestampUs cmd) =
      .ok { type := .kMetaset, id := cmd.id, metadata := cmd.metadata
            filterExpr := if cmd.metadata = none then cmd.filterExpr else [] } := by
  have hop : decodeWalRecord (recordOf sequence timestampUs cmd) =
      decodeMetaset (encodeCommand cmd) := by
    simp only [decodeWalRecord, recordOf, WalOpType.ofByte?_toByte, walOpForCommand, htype]
  rw [hop]
  have hmagic : kTypedMetadataMagic < 2 ^ 32 := by decide
  have hmagic' : kTypedMetadataMagic < 256 ^ 4 := by decide
  simp only [encodeCommand, htype, List.length_append, appendString, length_leBytes] at hlen
  have hid : cmd.id.length < 2 ^ 32 := by omega
  simp only [encodeCommand, htype, decodeMetaset, readString_appendString hid]
  cases hm : cmd.metadata with
  | none =>
    simp only [hm, List.length_append, length_leBytes] at hlen
    have hexpr : cmd.filterExpr.length < 2 ^ 32 := by omega
    have hexpr' : cmd.filterExpr.length < 256 ^ 4 := hexpr
    have hread := readString_appendString hexpr []
    rw [List.append_nil] at hread
    have hne : cmd.filterExpr.length ≠ kTypedMetadataMagic := by omega
    have hle : readLe 4 (appendString cmd.filterExpr) =
        some (cmd.filterExpr.length, cmd.filterExpr) := readLe_leBytes hexpr' _
    simp only [hle, if_neg hne, hread, if_true]
  | some m =>
    simp only [hm] at hlen
    obtain ⟨rest, henc, hdec⟩ := decodeTypedMetadata_encode (m := m) (by omega)
    simp [henc, readLe_leBytes hmagic', hdec]

end Commands

end Nvecd.Server
