/-
  File:      Nvecd/Storage/SnapshotContainer.lean
  Subject:   The writer of a snapshot and its three readers agree about the file.

  * `Layout`, `Layout.encode` -- a file as its headers and its sections, with nothing between them;
  * `readSnapshotV1_eq_ok` -- whatever `ReadSnapshotV1` accepts is one, with the right checksums;
  * `readSnapshotV1_layout` -- and such a file is accepted if its sections are;
  * `container_agreement` -- what `WriteSnapshotV1` publishes is accepted by all readers.
-/
import Nvecd.Storage.SnapshotFormat

namespace Nvecd.Storage.Snapshot

open Nvecd.Lib Nvecd.Utils Nvecd.Events Nvecd.Vectors

/-! ## 1. Fields -/

@[simp] theorem length_writeU32 (x : UInt32) : (writeU32 x).length = 4 := length_leBytes 4 _

@[simp] theorem length_writeU64 (x : UInt64) : (writeU64 x).length = 8 := length_leBytes 8 _

@[simp] theorem readU32_writeU32 (x : UInt32) (rest : Bytes) :
    readU32 (writeU32 x ++ rest) = some (x, rest) := by
  have hx : x.toNat < 256 ^ 4 := x.toNat_lt
  simp [readU32, writeU32, readNumber_leBytes hx]

@[simp] theorem readU64_writeU64 (x : UInt64) (rest : Bytes) :
    readU64 (writeU64 x ++ rest) = some (x, rest) := by
  have hx : x.toNat < 256 ^ 8 := x.toNat_lt
  simp [readU64, writeU64, readNumber_leBytes hx]

theorem readU32_eq_some {stream rest : Bytes} {x : UInt32} (h : readU32 stream = some (x, rest)) :
    stream = writeU32 x ++ rest := by
  obtain ⟨⟨n, later⟩, hn, he⟩ := Option.map_eq_some_iff.mp h
  cases he
  obtain ⟨front, rfl, hlen, rfl⟩ := readNumber_eq_some hn
  have hlt : ofLeBytes front < 2 ^ 32 := by
    have := ofLeBytes_lt front
    rwa [hlen] at this
  rw [writeU32, UInt32.toNat_ofNat_of_lt' hlt, ← hlen, leBytes_ofLeBytes]

theorem readU64_eq_some {stream rest : Bytes} {x : UInt64} (h : readU64 stream = some (x, rest)) :
    stream = writeU64 x ++ rest := by
  obtain ⟨⟨n, later⟩, hn, he⟩ := Option.map_eq_some_iff.mp h
  cases he
  obtain ⟨front, rfl, hlen, rfl⟩ := readNumber_eq_some hn
  have hlt : ofLeBytes front < 2 ^ 64 := by
    have := ofLeBytes_lt front
    rwa [hlen] at this
  rw [writeU64, UInt64.toNat_ofNat_of_lt' hlt, ← hlen, leBytes_ofLeBytes]

section Fields

variable {name : String} {stream rest : Bytes}

@[simp] theorem readField32_writeU32 (name : String) (x : UInt32) (rest : Bytes) :
    readField32 name (writeU32 x ++ rest) = .ok (x, rest) := by
  simp [readField32]

@[simp] theorem readField64_writeU64 (name : String) (x : UInt64) (rest : Bytes) :
    readField64 name (writeU64 x ++ rest) = .ok (x, rest) := by
  simp [readField64]

theorem readFieldString_writeString {str b : Bytes} (h : writeString str = some b) :
    readFieldString name (b ++ rest) = .ok (str, rest) := by
  simp [readFieldString, readString_writeString h]

theorem readField32_eq_ok {x : UInt32} (h : readField32 name stream = .ok (x, rest)) :
    stream = writeU32 x ++ rest :=
  readU32_eq_some (orError_eq_ok.1 h)

theorem readField64_eq_ok {x : UInt64} (h : readField64 name stream = .ok (x, rest)) :
    stream = writeU64 x ++ rest :=
  readU64_eq_some (orError_eq_ok.1 h)

theorem readFieldString_eq_ok {str : Bytes} (h : readFieldString name stream = .ok (str, rest)) :
    ∃ b, writeString str = some b ∧ stream = b ++ rest :=
  readString_eq_some (orError_eq_ok.1 h)

end Fields

theorem mapError_eq_ok {ε ε' α : Type} {f : ε → ε'} {x : Except ε α} {a : α} :
    x.mapError f = .ok a ↔ x = .ok a := by
  cases x <;> simp [Except.mapError]

@[simp] theorem mapError_ok {ε ε' α : Type} (f : ε → ε') (a : α) :
    (.ok a : Except ε α).mapError f = .ok a := rfl

/-- A field is not read past its end when a last one is. -/
theorem readField64_last (name : String) (x : UInt64) :
    readField64 name (writeU64 x) = .ok (x, []) := by
  have h := readField64_writeU64 name x []
  rwa [List.append_nil] at h

/-- The V1 header in the file. -/
def encodeHeader (header : HeaderV1) : Bytes :=
  writeU32 header.headerSize ++ (writeU32 header.flags ++
    (writeU64 header.snapshotTimestamp ++ (writeU64 header.totalFileSize ++
      (writeU32 header.fileCrc32 ++ (leBytes 4 header.reserved.length ++ header.reserved)))))

theorem writeHeaderV1_eq_ok {header : HeaderV1} {b : Bytes} :
    writeHeaderV1 header = .ok b ↔
      header.reserved.length ≤ kMaxStringLength ∧ b = encodeHeader header := by
  constructor
  · intro h
    obtain ⟨reserved, hr, h⟩ := bind_eq_ok.1 h
    cases h
    obtain ⟨hlen, rfl⟩ := writeString_eq_some (orError_eq_ok.1 hr)
    exact ⟨hlen, rfl⟩
  · rintro ⟨hlen, rfl⟩
    have hnot : ¬ header.reserved.length > kMaxStringLength := Nat.not_lt.mpr hlen
    simp only [writeHeaderV1, writeString, if_neg hnot]
    rfl

theorem readHeaderV1_encode {header : HeaderV1} (h : header.reserved.length ≤ kMaxStringLength)
    (rest : Bytes) : readHeaderV1 (encodeHeader header ++ rest) = .ok (header, rest) := by
  have hr : writeString header.reserved =
      some (leBytes 4 header.reserved.length ++ header.reserved) := if_neg (Nat.not_lt.mpr h)
  have hread : ∀ name, readFieldString name
      (leBytes 4 header.reserved.length ++ (header.reserved ++ rest)) =
        .ok (header.reserved, rest) := by
    intro name
    rw [← List.append_assoc]
    exact readFieldString_writeString hr
  simp only [readHeaderV1, encodeHeader, List.append_assoc, readField32_writeU32,
    readField64_writeU64, hread, ok_bind]
  rfl

theorem readHeaderV1_eq_ok {stream rest : Bytes} {header : HeaderV1}
    (h : readHeaderV1 stream = .ok (header, rest)) :
    stream = encodeHeader header ++ rest := by
  obtain ⟨⟨headerSize, s₁⟩, h₁, h⟩ := bind_eq_ok.1 h
  obtain ⟨⟨flags, s₂⟩, h₂, h⟩ := bind_eq_ok.1 h
  obtain ⟨⟨snapshotTimestamp, s₃⟩, h₃, h⟩ := bind_eq_ok.1 h
  obtain ⟨⟨totalFileSize, s₄⟩, h₄, h⟩ := bind_eq_ok.1 h
  obtain ⟨⟨fileCrc32, s₅⟩, h₅, h⟩ := bind_eq_ok.1 h
  obtain ⟨⟨reserved, s₆⟩, h₆, h⟩ := bind_eq_ok.1 h
  cases h
  obtain ⟨b, hb, rfl⟩ := readFieldString_eq_ok h₆
  obtain ⟨-, rfl⟩ := writeString_eq_some hb
  rw [readField32_eq_ok h₁, readField32_eq_ok h₂, readField64_eq_ok h₃, readField64_eq_ok h₄,
    readField32_eq_ok h₅, encodeHeader]
  simp only [List.append_assoc]

theorem deserializeConfig_serializeConfig {config : SnapshotConfig} {b : Bytes}
    (h : serializeConfig config = .ok b) : deserializeConfig b = .ok (config, []) := by
  obtain ⟨metric, hm, h⟩ := bind_eq_ok.1 h
  cases h
  simp only [deserializeConfig, readField32_writeU32, readField64_writeU64,
    readFieldString_writeString (orError_eq_ok.1 hm), ok_bind, readField64_last]
  rfl

theorem deserializeStatistics_serializeStatistics (stats : SnapshotStatistics) :
    deserializeStatistics (serializeStatistics stats) = .ok (stats, []) := by
  simp only [deserializeStatistics, serializeStatistics, readField64_writeU64, ok_bind,
    readField64_last]
  rfl

theorem deserializeStoreStatistics_serializeStoreStatistics (stats : StoreStatistics) :
    deserializeStoreStatistics (serializeStoreStatistics stats) = .ok (stats, []) := by
  simp only [deserializeStoreStatistics, serializeStoreStatistics, readField64_writeU64, ok_bind,
    readField64_last]
  rfl

/-! ## 2. The checksum of the file -/

/-- The bytes at `offset`, those of the checksum field read as zero. -/
def crcFieldAsZero (offset : Nat) (bytes : Bytes) : Bytes :=
  bytes.mapIdx fun i b =>
    if kFileCRC32Offset ≤ offset + i ∧ offset + i < kFileCRC32Offset + 4 then 0 else b

/-- The same byte by byte, for evaluation. -/
def zeroedField (offset : Nat) : Bytes → Bytes
  | [] => []
  | b :: bytes =>
    (if kFileCRC32Offset ≤ offset ∧ offset < kFileCRC32Offset + 4 then 0 else b) ::
      zeroedField (offset + 1) bytes

theorem crcFieldAsZero_eq (offset : Nat) (bytes : Bytes) :
    crcFieldAsZero offset bytes = zeroedField offset bytes := by
  induction bytes generalizing offset with
  | nil => rfl
  | cons b bytes ih =>
    rw [zeroedField, ← ih, crcFieldAsZero, List.mapIdx_cons, crcFieldAsZero]
    simp only [Nat.add_zero, Nat.add_assoc, Nat.add_comm 1]

theorem crcFieldAsZero_append (offset : Nat) (a b : Bytes) :
    crcFieldAsZero offset (a ++ b) =
      crcFieldAsZero offset a ++ crcFieldAsZero (offset + a.length) b := by
  unfold crcFieldAsZero
  rw [List.mapIdx_append]
  congr 1
  apply List.ext_getElem?
  intro i
  simp only [List.getElem?_mapIdx, Nat.add_assoc, Nat.add_comm i]

/-- A chunk is cleared where the field is, whatever part of the field it holds. -/
theorem zeroCrcField_eq (offset : Nat) (chunk : Bytes) :
    zeroCrcField offset chunk = crcFieldAsZero offset chunk := by
  apply List.ext_getElem?
  intro i
  rw [crcFieldAsZero, List.getElem?_mapIdx]
  by_cases hmeets : offset < kFileCRC32Offset + 4 ∧ offset + chunk.length > kFileCRC32Offset
  · have hzero : zeroCrcField offset chunk =
        chunk.take (max offset kFileCRC32Offset - offset) ++
          (List.replicate (min (offset + chunk.length) (kFileCRC32Offset + 4) - offset -
            (max offset kFileCRC32Offset - offset)) 0 ++
            chunk.drop (min (offset + chunk.length) (kFileCRC32Offset + 4) - offset)) :=
      if_pos hmeets
    rw [hzero]
    generalize hb : max offset kFileCRC32Offset - offset = zeroBegin
    generalize he : min (offset + chunk.length) (kFileCRC32Offset + 4) - offset = zeroEnd
    have hlen : zeroBegin ≤ zeroEnd ∧ zeroEnd ≤ chunk.length := by omega
    have htake : (chunk.take zeroBegin).length = zeroBegin := by
      rw [List.length_take]
      omega
    rcases Nat.lt_or_ge i zeroBegin with hi | hi
    · -- before the field
      have hout : ¬ (kFileCRC32Offset ≤ offset + i ∧ offset + i < kFileCRC32Offset + 4) := by omega
      rw [List.getElem?_append_left (by omega), List.getElem?_take_of_lt hi]
      simp only [if_neg hout, Option.map_id']
    · rw [List.getElem?_append_right (by omega), htake]
      rcases Nat.lt_or_ge i zeroEnd with hj | hj
      · -- in the field
        have hin : kFileCRC32Offset ≤ offset + i ∧ offset + i < kFileCRC32Offset + 4 := by omega
        have hsome : i < chunk.length := by omega
        rw [List.getElem?_append_left (by rw [List.length_replicate]; omega),
          List.getElem?_replicate_of_lt (by omega), List.getElem?_eq_getElem hsome]
        simp only [if_pos hin, Option.map_some]
      · -- behind it
        rw [List.getElem?_append_right (by rw [List.length_replicate]; omega),
          List.length_replicate, List.getElem?_drop,
          show zeroEnd + (i - zeroBegin - (zeroEnd - zeroBegin)) = i by omega]
        cases hc : chunk[i]? with
        | none => rfl
        | some b =>
          have hlt := (List.getElem?_eq_some_iff.mp hc).1
          have hout : ¬ (kFileCRC32Offset ≤ offset + i ∧ offset + i < kFileCRC32Offset + 4) := by
            omega
          rw [Option.map_some, if_neg hout]
  · have hsame : zeroCrcField offset chunk = chunk := if_neg hmeets
    rw [hsame]
    cases hc : chunk[i]? with
    | none => rfl
    | some b =>
      have hlt := (List.getElem?_eq_some_iff.mp hc).1
      have hout : ¬ (kFileCRC32Offset ≤ offset + i ∧ offset + i < kFileCRC32Offset + 4) := by
        omega
      rw [Option.map_some, if_neg hout]

section Checksum

variable {k : RunningChecksum}

/-- **Chunk by chunk** the checksum is that of the whole. -/
theorem streamCrc32_eq {fileSize offset : Nat} {input : Bytes} (crc : UInt32)
    (hlen : input.length = fileSize - offset) (hpos : offset < fileSize) :
    streamCrc32 k fileSize offset crc input = .ok (k.update crc (crcFieldAsZero offset input)) := by
  induction hn : fileSize - offset using Nat.strong_induction_on generalizing offset crc input with
  | _ n ih =>
    generalize hsize : min kCrcBufferSize (fileSize - offset) = size
    have hbuffer : 0 < kCrcBufferSize := by decide
    have htake : (input.take size).length = size := by
      rw [List.length_take]
      omega
    have hnot : ¬ input.length < size := by omega
    rw [streamCrc32, if_pos hpos]
    simp only [hsize, if_neg hnot, zeroCrcField_eq]
    by_cases hlast : offset + size < fileSize
    · rw [ih (fileSize - (offset + size)) (by omega) _ (by rw [List.length_drop]; omega) hlast rfl,
        k.update_append]
      conv_rhs => rw [← List.take_append_drop size input, crcFieldAsZero_append, htake]
    · have hall : input.take size = input := List.take_of_length_le (by omega)
      rw [streamCrc32, if_neg hlast, hall]

theorem calculateFileCRC32Streaming_eq {file : Bytes} (hpos : 0 < file.length)
    (hmax : file.length ≤ kMaxSnapshotFileSize) :
    calculateFileCRC32Streaming k file file.length = .ok (k.of (crcFieldAsZero 0 file)) := by
  have hnot : ¬ file.length > kMaxSnapshotFileSize := Nat.not_lt.mpr hmax
  rw [calculateFileCRC32Streaming, if_neg hnot, streamCrc32_eq _ (Nat.sub_zero _).symm hpos,
    k.update_append]
  rfl

/-- What `VerifyFileLevelIntegrity` accepts. -/
theorem verifyFileLevelIntegrity_eq_ok {file : Bytes} {header : HeaderV1} (hpos : 0 < file.length) :
    verifyFileLevelIntegrity k file header = .ok () ↔
      file.length ≤ kMaxSnapshotFileSize ∧ header.totalFileSize.toNat = file.length ∧
        header.flags &&& kWithCRC ≠ 0 ∧ header.fileCrc32 ≠ 0 ∧
        header.fileCrc32 = k.of (crcFieldAsZero 0 file) := by
  unfold verifyFileLevelIntegrity
  by_cases hmax : file.length > kMaxSnapshotFileSize ∨
      header.totalFileSize.toNat > kMaxSnapshotFileSize
  · rw [if_pos hmax]
    simp only [reduceCtorEq, false_iff]
    omega
  · rw [if_neg hmax]
    by_cases hsize : file.length = header.totalFileSize.toNat
    · rw [if_neg (not_not_intro hsize), calculateFileCRC32Streaming_eq hpos (by omega)]
      simp only [mapError_ok, ok_bind]
      by_cases hflag : header.flags &&& kWithCRC = 0
      · simp [hflag]
      · by_cases hzero : header.fileCrc32 = 0
        · simp [hflag, hzero]
        · by_cases hcrc : k.of (crcFieldAsZero 0 file) = header.fileCrc32
          · simp only [ne_eq, hflag, hzero, not_false_eq_true, hcrc, and_true]
            exact ⟨fun _ => ⟨by omega, hsize.symm⟩, fun _ => rfl⟩
          · simp [hflag, hzero, hcrc, Ne.symm hcrc]
    · rw [if_pos hsize]
      simp only [reduceCtorEq, false_iff, not_and]
      exact fun _ h => absurd h.symm hsize

/-! ## 3. Sections -/

variable (k) in
/-- A section in the file. -/
def encodePayload (data : Bytes) : Bytes :=
  leBytes 4 data.length ++ (writeU32 (k.of data) ++ data)

theorem writeSizedPayload_eq_ok {data b : Bytes} {limit : Nat} {label : String}
    (h : writeSizedPayload k data limit label = .ok b) :
    b = encodePayload k data ∧ data.length ≤ limit := by
  obtain ⟨size, hsize, h⟩ := bind_eq_ok.1 h
  cases h
  obtain ⟨rfl, hle, -⟩ := checkedSizeToU32_ok hsize
  exact ⟨rfl, hle⟩

/-- A length below `2 ^ 32` as the field it is written in. -/
theorem writeU32_length {data : Bytes} (h : data.length < 2 ^ 32) :
    writeU32 (UInt32.ofNat data.length) = leBytes 4 data.length := by
  rw [writeU32, UInt32.toNat_ofNat_of_lt' h]

section Payload

variable {texts : PayloadTexts} {data stream rest : Bytes}

theorem readPayload_encode (hmax : data.length ≤ texts.limit) (hfit : data.length < 2 ^ 32)
    (rest : Bytes) :
    readPayload k texts (UInt32.ofNat data.length) (writeU32 (k.of data) ++ (data ++ rest)) =
      .ok (data, rest) := by
  have hsize : (UInt32.ofNat data.length).toNat = data.length := UInt32.toNat_ofNat_of_lt' hfit
  have hrem : hasRemainingBytes (data ++ rest) data.length = true := by
    simp [hasRemainingBytes]
  have hnot : ¬ data.length > texts.limit := Nat.not_lt.mpr hmax
  simp only [readPayload, readU32_writeU32, orError_some, ok_bind, hsize, if_neg hnot, hrem,
    not_true_eq_false, if_false, List.take_left, List.drop_left, ne_eq]
  rfl

theorem readSizedPayload_encode (hmax : data.length ≤ texts.limit) (hfit : data.length < 2 ^ 32)
    (rest : Bytes) :
    readSizedPayload k texts (encodePayload k data ++ rest) = .ok (data, rest) := by
  simp only [readSizedPayload, encodePayload, ← writeU32_length hfit, List.append_assoc,
    readU32_writeU32, orError_some, ok_bind, readPayload_encode hmax hfit]

theorem readPayload_eq_ok {size : UInt32} (h : readPayload k texts size stream = .ok (data, rest)) :
    stream = writeU32 (k.of data) ++ (data ++ rest) ∧ size.toNat = data.length ∧
      data.length ≤ texts.limit := by
  obtain ⟨⟨crc, later⟩, hcrc, h⟩ := bind_eq_ok.1 h
  simp only at h
  split at h
  · cases h
  · rename_i hmax
    split at h
    · cases h
    · rename_i hrem
      split at h
      · cases h
      · rename_i hsame
        cases h
        rw [not_not] at hsame hrem
        have hlen : (later.take size.toNat).length = size.toNat := by
          rw [List.length_take]
          exact Nat.min_eq_left (of_decide_eq_true hrem)
        refine ⟨?_, hlen.symm, by omega⟩
        rw [readU32_eq_some (orError_eq_ok.1 hcrc), hsame, List.take_append_drop]

theorem readSizedPayload_eq_ok (h : readSizedPayload k texts stream = .ok (data, rest)) :
    stream = encodePayload k data ++ rest ∧ data.length ≤ texts.limit := by
  obtain ⟨⟨size, later⟩, hsize, h⟩ := bind_eq_ok.1 h
  obtain ⟨rfl, hlen, hmax⟩ := readPayload_eq_ok h
  refine ⟨?_, hmax⟩
  rw [readU32_eq_some (orError_eq_ok.1 hsize), encodePayload, writeU32, hlen]
  simp only [List.append_assoc]

end Payload

theorem consumeAll_eq_ok {α : Type} {trailing : String} {x : Except Error (α × Bytes)} {a : α} :
    consumeAll trailing x = .ok a ↔ x = .ok (a, []) := by
  unfold consumeAll
  split
  · simp
  · split
    · rename_i hne
      simp only [reduceCtorEq, Except.ok.injEq, Prod.mk.injEq, false_iff, not_and]
      exact fun _ => hne
    · rename_i hnil
      rw [not_not] at hnil
      simp [hnil]

theorem StoreKind.ofName_name (kind : StoreKind) : ofName kind.name = some kind := by
  cases kind <;> rfl

theorem StoreKind.ofName_eq_some {name : Bytes} {kind : StoreKind} (h : ofName name = some kind) :
    name = kind.name := by
  unfold ofName at h
  repeat' split at h
  all_goals cases h
  all_goals assumption

/-- The section of a store: its statistics, or none if the list is empty, and its data. -/
structure StoreSection where
  kind : StoreKind
  statistics : Bytes
  data : Bytes

variable (k) in
/-- The section in the file. -/
def StoreSection.encode (s : StoreSection) : Bytes :=
  leBytes 4 s.kind.name.length ++ (s.kind.name ++
    ((if s.statistics = [] then leBytes 4 0 else encodePayload k s.statistics) ++
      encodePayload k s.data))

/-- **A snapshot file**, section by section: nothing else is in it. -/
structure Layout where
  header : HeaderV1
  config : Bytes
  statistics : Option Bytes
  stores : List StoreSection

variable (k) in
/-- The file. -/
def Layout.encode (l : Layout) : Bytes :=
  kMagicNumber ++ (writeU32 kCurrentVersion ++ (encodeHeader l.header ++
    (encodePayload k l.config ++ (l.statistics.elim [] (encodePayload k) ++
      (leBytes 4 l.stores.length ++ l.stores.flatMap (StoreSection.encode k))))))

variable (k) in
/-- **A file as it should be**: size and checksum of the header are those of the file, the flags say
    what is there, no section is larger than allowed, and every store has its section. -/
structure Layout.Valid (l : Layout) : Prop where
  size : l.header.totalFileSize.toNat = (l.encode k).length
  crc : l.header.fileCrc32 = k.of (crcFieldAsZero 0 (l.encode k))
  hasCrc : l.header.flags &&& kWithCRC ≠ 0
  hasStatistics : l.statistics.isSome ↔ l.header.flags &&& kWithStatistics ≠ 0
  config : l.config.length ≤ kMaxConfigSize
  statistics : ∀ data ∈ l.statistics, data.length ≤ kMaxStatsSize
  stores : ∀ s ∈ l.stores, s.statistics.length ≤ kMaxStoreStatsSize ∧
    s.data.length ≤ kMaxStoreDataSize
  events : (l.stores.map StoreSection.kind).count .events = 1
  coOccurrence : (l.stores.map StoreSection.kind).count .coOccurrence = 1
  vectors : (l.stores.map StoreSection.kind).count .vectors = 1
  metadata : (l.stores.map StoreSection.kind).count .metadata ≤ 1

/-! ## 4. What is accepted -/

section Accepted

variable {F : Type}

theorem readStoreStatistics_eq_ok {kind : StoreKind} {targets targets' : SnapshotTargets F}
    {stream rest : Bytes}
    (h : readStoreStatistics k kind targets stream = .ok (targets', rest)) :
    ∃ data, stream = (if data = [] then leBytes 4 0 else encodePayload k data) ++ rest ∧
      data.length ≤ kMaxStoreStatsSize := by
  obtain ⟨⟨size, later⟩, hsize, h⟩ := bind_eq_ok.1 h
  have hstream := readU32_eq_some (orError_eq_ok.1 hsize)
  simp only at h
  split at h
  · rename_i hzero
    cases h
    refine ⟨[], ?_, Nat.zero_le _⟩
    rw [hstream, hzero, if_pos rfl]
    rfl
  · rename_i hzero
    obtain ⟨⟨data, after⟩, hpayload, h⟩ := bind_eq_ok.1 h
    obtain ⟨hlater, hlen, hmax⟩ := readPayload_eq_ok hpayload
    have hafter : after = rest := by
      simp only at h
      split at h
      · cases h
        rfl
      · obtain ⟨stats, -, h⟩ := bind_eq_ok.1 h
        cases h
        rfl
    have hne : data ≠ [] := by
      rintro rfl
      exact hzero (UInt32.toNat_inj.mp (hlen.trans rfl))
    refine ⟨data, ?_, hmax⟩
    rw [if_neg hne, hstream, hlater, hafter, encodePayload, writeU32, hlen]
    simp only [List.append_assoc]

/-- A section of a store that was not seen before, no larger than allowed. -/
def NextStore (r : Reading F) (s : StoreSection) (r' : Reading F) : Prop :=
  s.kind ∉ r.seen ∧ r'.seen = s.kind :: r.seen ∧ s.statistics.length ≤ kMaxStoreStatsSize ∧
    s.data.length ≤ kMaxStoreDataSize

/-- The stores seen after some sections. -/
theorem seen_of_chain {r r' : Reading F} {ss : List StoreSection} (h : Chain NextStore r ss r')
    (hnd : r.seen.Nodup) :
    r'.seen = (ss.map StoreSection.kind).reverse ++ r.seen ∧ r'.seen.Nodup ∧
      ∀ s ∈ ss, s.statistics.length ≤ kMaxStoreStatsSize ∧ s.data.length ≤ kMaxStoreDataSize := by
  induction h with
  | nil r => exact ⟨rfl, hnd, nofun⟩
  | cons hone _ ih =>
    obtain ⟨hnew, hseen, hsmax, hdmax⟩ := hone
    obtain ⟨hrest, hnodup, hall⟩ := ih (hseen ▸ List.nodup_cons.mpr ⟨hnew, hnd⟩)
    refine ⟨?_, hnodup, List.forall_mem_cons.mpr ⟨⟨hsmax, hdmax⟩, hall⟩⟩
    rw [hrest, hseen, List.map_cons, List.reverse_cons, List.append_assoc]
    rfl

/-- What passes the checks after the last store. -/
theorem finishReading_eq_ok {r : Reading F} {stream : Bytes} {targets : SnapshotTargets F} :
    finishReading r stream = .ok targets ↔
      (∀ kind ∈ [StoreKind.events, .coOccurrence, .vectors], kind ∈ r.seen) ∧
      (StoreKind.metadata ∈ r.seen → ∀ id ∈ r.metadata.ids, r.targets.vectors.hasVector id) ∧
      stream = [] ∧ r.targets = targets := by
  have hmissing : missingStore r.seen = none ↔
      ∀ kind ∈ [StoreKind.events, .coOccurrence, .vectors], kind ∈ r.seen := by
    simp [missingStore, List.find?_eq_none]
  have horphan : (if StoreKind.metadata ∈ r.seen then r.orphan else none) = none ↔
      (StoreKind.metadata ∈ r.seen → ∀ id ∈ r.metadata.ids, r.targets.vectors.hasVector id) := by
    split
    · rename_i hin
      simp [Reading.orphan, List.find?_eq_none, hin]
    · rename_i hout
      simp [hout]
  unfold finishReading
  rw [← hmissing, ← horphan]
  split
  · rename_i kind hkind
    simp [hkind]
  · rename_i hnone
    rw [hnone]
    split
    · rename_i id hid
      simp [hid]
    · rename_i hno
      rw [hno]
      split
      · rename_i hne
        simp [hne]
      · rename_i hnil
        rw [not_not] at hnil
        simp [hnil]

theorem readStatistics_eq_ok {header : HeaderV1} {targets targets' : SnapshotTargets F}
    {stream rest : Bytes} (hread : readStatistics k header targets stream = .ok (targets', rest)) :
    ∃ statistics : Option Bytes, stream = statistics.elim [] (encodePayload k) ++ rest ∧
      (statistics.isSome ↔ header.flags &&& kWithStatistics ≠ 0) ∧
      ∀ data ∈ statistics, data.length ≤ kMaxStatsSize := by
  unfold readStatistics at hread
  split at hread
  · rename_i hflag
    obtain ⟨⟨data, after⟩, hdata, h⟩ := bind_eq_ok.1 hread
    obtain ⟨rfl, hmax⟩ := readSizedPayload_eq_ok hdata
    have hafter : after = rest := by
      simp only at h
      split at h
      · cases h
        rfl
      · obtain ⟨stats, -, h⟩ := bind_eq_ok.1 h
        cases h
        rfl
    refine ⟨some data, by rw [hafter]; rfl, by simp [hflag], ?_⟩
    rintro d ⟨rfl⟩
    exact hmax
  · rename_i hflag
    cases hread
    exact ⟨none, rfl, by simpa using hflag, nofun⟩

variable [FloatOps F] [FloatBits F] {l2Norm : List UInt32 → UInt32}

theorem deserializeStore_seen {kind : StoreKind} {r r' : Reading F} {data : Bytes}
    (h : deserializeStore l2Norm kind r data = .ok r') : r'.seen = r.seen := by
  cases kind with
  | metadata =>
    obtain ⟨store, -, h⟩ := bind_eq_ok.1 h
    split at h <;> cases h <;> rfl
  | _ =>
    obtain ⟨store, -, h⟩ := bind_eq_ok.1 h
    cases h
    rfl

/-- A round of the loop takes one section of a store not seen before. -/
theorem readStore_eq_ok {r r' : Reading F} {stream rest : Bytes}
    (hread : readStore k l2Norm r stream = .ok (r', rest)) :
    ∃ s : StoreSection, stream = s.encode k ++ rest ∧ NextStore r s r' := by
  obtain ⟨⟨name, s₁⟩, hname, h⟩ := bind_eq_ok.1 hread
  obtain ⟨b, hb, rfl⟩ := readString_eq_some (orError_eq_ok.1 hname)
  obtain ⟨-, rfl⟩ := writeString_eq_some hb
  simp only at h
  split at h
  · cases h
  · rename_i kind hkind
    obtain rfl := StoreKind.ofName_eq_some hkind
    split at h
    · cases h
    · rename_i hnew
      obtain ⟨⟨targets, s₂⟩, hstats, h⟩ := bind_eq_ok.1 h
      obtain ⟨⟨data, s₃⟩, hdata, h⟩ := bind_eq_ok.1 h
      obtain ⟨r₁, hstore, h⟩ := bind_eq_ok.1 h
      cases h
      obtain ⟨statistics, rfl, hsmax⟩ := readStoreStatistics_eq_ok hstats
      obtain ⟨rfl, hdmax⟩ := readSizedPayload_eq_ok hdata
      refine ⟨⟨kind, statistics, data⟩, ?_, hnew, ?_, hsmax, hdmax⟩
      · simp only [StoreSection.encode, List.append_assoc]
      · show kind :: r₁.seen = kind :: r.seen
        rw [deserializeStore_seen hstore]

theorem readMagic_eq_ok {file rest : Bytes} (h : readMagic file = .ok rest) :
    file = kMagicNumber ++ rest := by
  unfold readMagic at h
  split at h
  · cases h
  · split at h
    · cases h
    · rename_i hmagic
      cases h
      rw [not_not] at hmagic
      conv_lhs => rw [← List.take_append_drop kMagicNumber.length file, hmagic]

theorem readHeaders_eq_ok {file rest : Bytes} {header : HeaderV1}
    (hread : readHeaders file = .ok (header, rest)) :
    file = kMagicNumber ++ (writeU32 kCurrentVersion ++ (encodeHeader header ++ rest)) := by
  obtain ⟨s₁, hmagic, h⟩ := bind_eq_ok.1 hread
  obtain ⟨⟨version, s₂⟩, hversion, h'⟩ := bind_eq_ok.1 h
  rw [readMagic_eq_ok hmagic, readField32_eq_ok hversion]
  simp only at h'
  split at h'
  · cases h'
  · rename_i hv
    rw [not_not] at hv
    rw [hv, readHeaderV1_eq_ok h']
    rfl

/-- Sections with different names, each required name among them. -/
theorem count_kinds {seen : List StoreKind} {kinds : List StoreKind} (hnd : seen.Nodup)
    (hseen : seen = kinds.reverse) {kind : StoreKind} (h : kind ∈ seen) : kinds.count kind = 1 := by
  rw [hseen, List.nodup_reverse] at hnd
  rw [hseen, List.mem_reverse] at h
  exact List.count_eq_one_of_mem hnd h

/-- **Whatever is accepted is a snapshot file**: the headers and the sections and nothing else, with
    the size and the checksums that are recorded, and with every store. -/
theorem readSnapshotV1_eq_ok {targets loaded : SnapshotTargets F} {file : Bytes}
    (h : readSnapshotV1 k l2Norm targets file = .ok loaded) :
    ∃ l : Layout, file = l.encode k ∧ l.Valid k := by
  obtain ⟨⟨header, stream⟩, hheaders, h⟩ := bind_eq_ok.1 h
  obtain ⟨u, hverify, h⟩ := bind_eq_ok.1 h
  have hfile := readHeaders_eq_ok (mapError_eq_ok.1 hheaders)
  have hpos : 0 < file.length := by
    rw [hfile, List.length_append]
    exact Nat.lt_of_lt_of_le (by decide : 0 < kMagicNumber.length) (Nat.le_add_right _ _)
  obtain ⟨-, hsize, hcrcFlag, -, hcrc⟩ := (verifyFileLevelIntegrity_eq_ok hpos).mp hverify
  -- the sections one after the other
  obtain ⟨⟨config, s₁⟩, hconfig, h⟩ := bind_eq_ok.1 h
  obtain ⟨parsed, -, h⟩ := bind_eq_ok.1 h
  obtain ⟨⟨targets₁, s₂⟩, hstats, h⟩ := bind_eq_ok.1 h
  obtain ⟨⟨count, s₃⟩, hcount, h⟩ := bind_eq_ok.1 h
  simp only at h
  split at h
  · cases h
  · obtain ⟨⟨r, s₄⟩, hstores, h⟩ := bind_eq_ok.1 h
    obtain ⟨hs₁, hcmax⟩ := readSizedPayload_eq_ok hconfig
    obtain ⟨statistics, hs₂, hflag, hsmax⟩ := readStatistics_eq_ok hstats
    have hs₃ := readU32_eq_some (orError_eq_ok.1 hcount)
    have hone : ∀ (r : Reading F) stream r' rest, readStore k l2Norm r stream = .ok (r', rest) →
        ∃ s : StoreSection, stream = s.encode k ++ rest ∧ NextStore r s r' :=
      fun _ _ _ _ hr => readStore_eq_ok hr
    obtain ⟨ss, hlen, hs₄, hchain⟩ := readMany_eq_ok hone hstores
    obtain ⟨hseen, hnd, hmax⟩ := seen_of_chain hchain List.nodup_nil
    obtain ⟨hrequired, -, hend : s₄ = [], -⟩ := finishReading_eq_ok.1 h
    rw [List.append_nil] at hseen
    have hencode : file = (Layout.mk header config statistics ss).encode k := by
      have hcount : writeU32 count = leBytes 4 ss.length := by rw [writeU32, hlen]
      rw [hfile, hs₁, hs₂, hs₃, hs₄, hend, List.append_nil, hcount]
      rfl
    have honce : ∀ kind ∈ [StoreKind.events, .coOccurrence, .vectors],
        (ss.map StoreSection.kind).count kind = 1 := fun kind hkind =>
      count_kinds hnd hseen (hrequired kind hkind)
    have hmeta : (ss.map StoreSection.kind).count .metadata ≤ 1 := by
      rw [hseen, List.nodup_reverse] at hnd
      exact List.nodup_iff_count_le_one.mp hnd _
    exact ⟨⟨header, config, statistics, ss⟩, hencode, hencode ▸ hsize, hencode ▸ hcrc, hcrcFlag,
      hflag, hcmax, hsmax, hmax, honce _ (by simp), honce _ (by simp), honce _ (by simp), hmeta⟩

end Accepted

/-! ## 5. What is written -/

/-- The checksum field does not count. -/
theorem crcFieldAsZero_field {front a b : Bytes} (hfront : front.length = kFileCRC32Offset)
    (ha : a.length = 4) (hb : b.length = 4) (rest : Bytes) :
    crcFieldAsZero 0 (front ++ (a ++ rest)) = crcFieldAsZero 0 (front ++ (b ++ rest)) := by
  have hzero : ∀ c : Bytes, c.length = 4 →
      crcFieldAsZero (0 + front.length) c = List.replicate 4 0 := by
    intro c hc
    apply List.ext_getElem?
    intro i
    rw [crcFieldAsZero, List.getElem?_mapIdx, hfront]
    rcases Nat.lt_or_ge i 4 with hi | hi
    · rw [List.getElem?_eq_getElem (by omega), List.getElem?_replicate_of_lt hi, Option.map_some,
        if_pos (by omega)]
    · rw [List.getElem?_eq_none (by omega), List.getElem?_eq_none (by simpa using hi)]
      rfl
  rw [crcFieldAsZero_append, crcFieldAsZero_append, crcFieldAsZero_append, crcFieldAsZero_append,
    hzero a ha, hzero b hb, ha, hb]

/-- The part of the V1 header before the checksum, and the part behind it. -/
theorem encodeHeader_split (header : HeaderV1) :
    ∃ front back, front.length = 24 ∧
      ∀ crc, encodeHeader { header with fileCrc32 := crc } = front ++ (writeU32 crc ++ back) := by
  refine ⟨writeU32 header.headerSize ++ (writeU32 header.flags ++
    (writeU64 header.snapshotTimestamp ++ writeU64 header.totalFileSize)),
    leBytes 4 header.reserved.length ++ header.reserved, by simp, fun crc => ?_⟩
  simp only [encodeHeader, List.append_assoc]

/-- **Size and checksum filled in**, and nothing else changed. -/
theorem fillHeader_eq_ok {header : HeaderV1} {sections file : Bytes} (hzero : header.fileCrc32 = 0)
    (h : fillHeader k header
      (kMagicNumber ++ (writeU32 kCurrentVersion ++ (encodeHeader header ++ sections))) = .ok file) :
    ∃ size crc, file = kMagicNumber ++ (writeU32 kCurrentVersion ++
        (encodeHeader { header with totalFileSize := size, fileCrc32 := crc } ++ sections)) ∧
      file.length ≤ kMaxSnapshotFileSize ∧ size.toNat = file.length ∧
      crc = k.of (crcFieldAsZero 0 file) := by
  generalize hbefore : kMagicNumber ++ (writeU32 kCurrentVersion ++ (encodeHeader header ++ sections))
    = before at h
  unfold fillHeader at h
  split at h
  · cases h
  · rename_i hmax
    obtain ⟨sized, hsized, h⟩ := bind_eq_ok.1 h
    obtain ⟨-, rfl⟩ := writeHeaderV1_eq_ok.1 hsized
    generalize hsize : UInt64.ofNat before.length = size at h
    have hsizeNat : size.toNat = before.length := by
      have hlt : before.length < 2 ^ 64 := by
        simp only [kMaxSnapshotFileSize] at hmax
        omega
      rw [← hsize, UInt64.toNat_ofNat_of_lt' hlt]
    obtain ⟨front, back, hfront, hsplit⟩ := encodeHeader_split { header with totalFileSize := size }
    -- the first patch: the header with the size is as long as the one without
    have hpatched : overwrite kFixedHeaderSize
        (encodeHeader { header with totalFileSize := size }) before =
        kMagicNumber ++ writeU32 kCurrentVersion ++ front ++
          (writeU32 0 ++ (back ++ sections)) := by
      have hfixed : (kMagicNumber ++ writeU32 kCurrentVersion).length = kFixedHeaderSize := rfl
      have hlen : (encodeHeader { header with totalFileSize := size }).length =
          (encodeHeader header).length := by simp [encodeHeader]
      have hsame : encodeHeader { header with totalFileSize := size } =
          front ++ (writeU32 0 ++ back) := by rw [← hsplit 0, ← hzero]
      rw [← hbefore, ← List.append_assoc, overwrite_append _ _ hfixed hlen, hsame]
      simp only [List.append_assoc]
    -- the second: the checksum field of that header
    have hfront' : (kMagicNumber ++ writeU32 kCurrentVersion ++ front).length =
        kFileCRC32Offset := by
      rw [List.length_append, hfront]
      rfl
    have hcrc : ∀ crc, overwrite kFileCRC32Offset (writeU32 crc)
        (kMagicNumber ++ writeU32 kCurrentVersion ++ front ++ (writeU32 0 ++ (back ++ sections))) =
        kMagicNumber ++ writeU32 kCurrentVersion ++ front ++
          (writeU32 crc ++ (back ++ sections)) := by
      intro crc
      have hlen : (writeU32 crc).length = (writeU32 0).length := by simp
      exact overwrite_append _ _ hfront' hlen
    have hlength : ∀ crc, (kMagicNumber ++ writeU32 kCurrentVersion ++ front ++
        (writeU32 crc ++ (back ++ sections))).length = before.length := by
      intro crc
      have hback : (encodeHeader header).length = 28 + back.length := by
        have hsame := congrArg List.length (hsplit 0)
        simp only [List.length_append, hfront, length_writeU32] at hsame
        simp only [encodeHeader, List.length_append, length_writeU32, length_writeU64] at hsame ⊢
        omega
      simp only [← hbefore, List.length_append, length_writeU32, hback, hfront]
      omega
    simp only [hpatched, hsizeNat, ← hlength 0] at h
    have hpos : 0 < before.length := by simp [← hbefore, kMagicNumber]
    rw [calculateFileCRC32Streaming_eq (by rwa [hlength]) (by rw [hlength]; omega)] at h
    generalize hvalue : k.of (crcFieldAsZero 0 (kMagicNumber ++ writeU32 kCurrentVersion ++ front ++
      (writeU32 0 ++ (back ++ sections)))) = crc at h
    simp only [hcrc] at h
    cases h
    refine ⟨size, crc, ?_, ?_, hsizeNat.trans (hlength crc).symm, ?_⟩
    · rw [hsplit]
      simp only [List.append_assoc]
    · rw [hlength]
      omega
    · rw [crcFieldAsZero_field hfront' (length_writeU32 crc) (length_writeU32 0), hvalue]

section Written

variable {F : Type} {limits : SnapshotWriteLimits}

/-- The statistics of a store touch nothing but the statistics. -/
theorem readStoreStatistics_write {stats : Option StoreStatistics} {label : String} {b : Bytes}
    (h : writeStoreStatistics k limits label stats = .ok b) (kind : StoreKind)
    (targets : SnapshotTargets F) (rest : Bytes) :
    ∃ known, readStoreStatistics k kind targets (b ++ rest) =
      .ok ({ targets with storeStats := known }, rest) := by
  cases stats with
  | none =>
    cases h
    have hzero : readU32 (leBytes 4 0 ++ rest) = some (0, rest) := readU32_writeU32 0 rest
    refine ⟨targets.storeStats, ?_⟩
    simp only [readStoreStatistics, hzero, orError_some, ok_bind, if_true]
    rfl
  | some stats =>
    obtain ⟨rfl, hmax⟩ := writeSizedPayload_eq_ok h
    have hlen : (serializeStoreStatistics stats).length = 24 := by simp [serializeStoreStatistics]
    have hsize : readU32 (encodePayload k (serializeStoreStatistics stats) ++ rest) =
        some (24, writeU32 (k.of (serializeStoreStatistics stats)) ++
          (serializeStoreStatistics stats ++ rest)) := by
      rw [encodePayload, hlen, List.append_assoc, List.append_assoc]
      exact readU32_writeU32 24 _
    have hlimit : 24 ≤ kMaxStoreStatsSize := by decide
    have hpayload : readPayload k (storeStatsTexts kind) 24
        (writeU32 (k.of (serializeStoreStatistics stats)) ++
          (serializeStoreStatistics stats ++ rest)) = .ok (serializeStoreStatistics stats, rest) := by
      have hread : readPayload k (storeStatsTexts kind)
          (UInt32.ofNat (serializeStoreStatistics stats).length) _ = _ :=
        readPayload_encode (by rw [hlen]; exact hlimit) (by rw [hlen]; decide) rest
      rwa [hlen] at hread
    have hparsed : ∀ trailing, consumeAll trailing
        (deserializeStoreStatistics (serializeStoreStatistics stats)) = .ok stats := fun trailing =>
      consumeAll_eq_ok.2 (deserializeStoreStatistics_serializeStoreStatistics stats)
    have hne : ¬ (24 : UInt32) = 0 := by decide
    simp only [readStoreStatistics, hsize, orError_some, ok_bind, if_neg hne, hpayload, hparsed]
    cases targets.storeStats with
    | none => exact ⟨targets.storeStats, rfl⟩
    | some known => exact ⟨_, rfl⟩

/-- The flags say whether there are statistics. -/
theorem flags_initialHeader (src : SnapshotSource F) (now : UInt64) :
    ((initialHeader src now).flags &&& kWithStatistics ≠ 0 ↔ src.stats.isSome = true) ∧
      (initialHeader src now).flags &&& kWithCRC ≠ 0 := by
  show ((if src.stats.isSome then kWithCRC ||| kWithStatistics else kWithCRC) &&& kWithStatistics
    ≠ 0 ↔ src.stats.isSome = true) ∧
      (if src.stats.isSome then kWithCRC ||| kWithStatistics else kWithCRC) &&& kWithCRC ≠ 0
  cases src.stats.isSome <;> decide

theorem readStatistics_write {src : SnapshotSource F} {now : UInt64} {b : Bytes}
    (h : writeStatistics k limits src.stats = .ok b)
    {header : HeaderV1} (hflags : header.flags = (initialHeader src now).flags)
    (targets : SnapshotTargets F) (rest : Bytes) :
    ∃ stats, readStatistics k header targets (b ++ rest) =
      .ok ({ targets with stats := stats }, rest) := by
  cases hs : src.stats with
  | none =>
    rw [hs] at h
    cases h
    have hflag : ¬ header.flags &&& kWithStatistics ≠ 0 := by
      rw [hflags, (flags_initialHeader src now).1, hs]
      decide
    exact ⟨targets.stats, by rw [readStatistics, if_neg hflag]; rfl⟩
  | some stats =>
    rw [hs] at h
    obtain ⟨rfl, -⟩ := writeSizedPayload_eq_ok h
    have hflag : header.flags &&& kWithStatistics ≠ 0 := by
      rw [hflags, (flags_initialHeader src now).1, hs]
      rfl
    have hlen : (serializeStatistics stats).length = 48 := by simp [serializeStatistics]
    have hlimit : 48 ≤ kMaxStatsSize := by decide
    have hread : readSizedPayload k statsTexts (encodePayload k (serializeStatistics stats) ++ rest) =
        .ok (serializeStatistics stats, rest) :=
      readSizedPayload_encode (by rw [hlen]; exact hlimit) (by rw [hlen]; decide) rest
    have hparsed : ∀ trailing, consumeAll trailing
        (deserializeStatistics (serializeStatistics stats)) = .ok stats := fun trailing =>
      consumeAll_eq_ok.2 (deserializeStatistics_serializeStatistics stats)
    rw [readStatistics, if_pos hflag]
    simp only [hread, ok_bind, hparsed]
    cases targets.stats with
    | none => exact ⟨targets.stats, rfl⟩
    | some _ => exact ⟨_, rfl⟩

variable [FloatBits F] {orders : WalkOrders F} {now : UInt64} {src : SnapshotSource F}
  {file : Bytes}

/-- **The published bytes**: the headers with size and checksum filled in, and the sections. -/
theorem writeSnapshotV1_eq_ok (h : writeSnapshotV1 k limits orders now src = .ok file) :
    ∃ header sections, writeSections k limits orders src = .ok sections ∧
      file = kMagicNumber ++ (writeU32 kCurrentVersion ++ (encodeHeader header ++ sections)) ∧
      file.length ≤ kMaxSnapshotFileSize ∧ header.reserved = [] ∧
      header.flags = (initialHeader src now).flags ∧
      header.totalFileSize.toNat = file.length ∧
      header.fileCrc32 = k.of (crcFieldAsZero 0 file) := by
  obtain ⟨measured, -, h⟩ := bind_eq_ok.1 h
  obtain ⟨headerSize, -, h⟩ := bind_eq_ok.1 h
  obtain ⟨placeholder, hplaceholder, h⟩ := bind_eq_ok.1 h
  obtain ⟨sections, hsections, h⟩ := bind_eq_ok.1 h
  rw [(writeHeaderV1_eq_ok.1 hplaceholder).2] at h
  obtain ⟨size, crc, hfile, hmax, hsize, hcrc⟩ := fillHeader_eq_ok rfl h
  exact ⟨_, sections, hsections, hfile, hmax, rfl, rfl, hsize, hcrc⟩

/-- Both headers, read back. -/
theorem readHeaders_encode {header : HeaderV1} (h : header.reserved = []) (rest : Bytes) :
    readHeaders (kMagicNumber ++ (writeU32 kCurrentVersion ++ (encodeHeader header ++ rest))) =
      .ok (header, rest) := by
  have hmagic : ∀ rest, readMagic (kMagicNumber ++ rest) = .ok rest := by
    intro rest
    simp [readMagic]
  have hlen : header.reserved.length ≤ kMaxStringLength := by
    rw [h]
    exact Nat.zero_le _
  have hone : ¬ kCurrentVersion ≠ 1 := by decide
  simp only [readHeaders, hmagic, ok_bind, readVersion, readField32_writeU32, if_neg hone,
    readHeaderV1_encode hlen]

theorem skipPayload_encode {data : Bytes} (h : data.length < 2 ^ 32) (name : String) (rest : Bytes) :
    skipPayload name (encodePayload k data ++ rest) = .ok rest := by
  have hsize : (UInt32.ofNat data.length).toNat = data.length := UInt32.toNat_ofNat_of_lt' h
  simp only [skipPayload, encodePayload, ← writeU32_length h, List.append_assoc, readU32_writeU32,
    Option.bind_eq_bind, Option.bind_some, hsize, List.drop_left]
  rfl

/-- What stands behind the headers, for a reader that only skips it. -/
theorem getSnapshotInfo_write {sections : Bytes} (h : writeSections k limits orders src = .ok sections)
    {header : HeaderV1} (hreserved : header.reserved = [])
    (hflags : header.flags = (initialHeader src now).flags) :
    ∃ info, getSnapshotInfo
      (kMagicNumber ++ (writeU32 kCurrentVersion ++ (encodeHeader header ++ sections))) =
        .ok info := by
  obtain ⟨config, -, h⟩ := bind_eq_ok.1 h
  obtain ⟨csection, hcsection, h⟩ := bind_eq_ok.1 h
  obtain ⟨ssection, hssection, h⟩ := bind_eq_ok.1 h
  obtain ⟨stores, -, h⟩ := bind_eq_ok.1 h
  cases h
  obtain ⟨rfl, hmax⟩ := writeSizedPayload_eq_ok hcsection
  have hfit : config.length < 2 ^ 32 := by
    have hle : config.length ≤ kMaxConfigSize := Nat.le_trans hmax (Nat.min_le_left _ _)
    simp only [kMaxConfigSize] at hle
    omega
  have hcount : ∀ name, ∃ count, readField32 name
      (leBytes 4 (if src.metadata.isSome then 4 else 3) ++ stores) = .ok (count, stores) := by
    intro name
    cases src.metadata
    · exact ⟨3, readField32_writeU32 name 3 stores⟩
    · exact ⟨4, readField32_writeU32 name 4 stores⟩
  obtain ⟨count, hcount⟩ := hcount "store count"
  cases hs : src.stats with
  | none =>
    rw [hs] at hssection
    cases hssection
    have hflag : decide (header.flags &&& kWithStatistics ≠ 0) = false := by
      rw [decide_eq_false_iff_not, hflags, (flags_initialHeader src now).1, hs]
      decide
    simp only [getSnapshotInfo, readHeaders_encode hreserved, ok_bind, hflag,
      skipPayload_encode hfit, Bool.false_eq_true, if_false, List.nil_append, pure_bind, hcount]
    exact ⟨_, rfl⟩
  | some stats =>
    rw [hs] at hssection
    obtain ⟨rfl, -⟩ := writeSizedPayload_eq_ok hssection
    have hlen : (serializeStatistics stats).length < 2 ^ 32 := by
      simp [serializeStatistics]
    have hflag : decide (header.flags &&& kWithStatistics ≠ 0) = true := by
      rw [decide_eq_true_eq, hflags, (flags_initialHeader src now).1, hs]
      rfl
    simp only [getSnapshotInfo, readHeaders_encode hreserved, ok_bind, hflag,
      skipPayload_encode hfit, skipPayload_encode hlen, if_true, hcount]
    exact ⟨_, rfl⟩

variable [FloatOps F] {l2Norm : List UInt32 → UInt32}

/-- **A store written and read**: what the store's own codec gives back. -/
theorem readStore_write {kind : StoreKind} {label : String} {stats : Option StoreStatistics}
    {store : Except Error Bytes} {b : Bytes}
    (h : writeStore k limits kind label stats store = .ok b)
    {r : Reading F} (hnew : kind ∉ r.seen) {P : Reading F → Prop}
    (hstore : ∀ data (r₀ : Reading F), store = .ok data →
      r₀.targets.vectors = r.targets.vectors →
        ∃ r', deserializeStore l2Norm kind r₀ data = .ok r' ∧ P r')
    (rest : Bytes) :
    ∃ r', readStore k l2Norm r (b ++ rest) = .ok ({ r' with seen := kind :: r.seen }, rest) ∧
      P r' := by
  obtain ⟨statistics, hstats, h⟩ := bind_eq_ok.1 h
  obtain ⟨data, hser, h⟩ := bind_eq_ok.1 h
  obtain ⟨payload, hpayload, h⟩ := bind_eq_ok.1 h
  cases h
  obtain ⟨rfl, hmax⟩ := writeSizedPayload_eq_ok hpayload
  obtain ⟨known, hread⟩ := readStoreStatistics_write hstats kind r.targets
    (encodePayload k data ++ rest)
  obtain ⟨r', hdes, hP⟩ :=
    hstore data { r with targets := { r.targets with storeStats := known } } hser rfl
  have hdata : readSizedPayload k (storeDataTexts kind) (encodePayload k data ++ rest) =
      .ok (data, rest) := by
    have hle : data.length ≤ kMaxStoreDataSize := Nat.le_trans hmax (Nat.min_le_left _ _)
    refine readSizedPayload_encode hle ?_ rest
    simp only [kMaxStoreDataSize] at hle
    omega
  have hname : ∀ rest, readString (leBytes 4 kind.name.length ++ (kind.name ++ rest)) =
      some (kind.name, rest) := by
    intro rest
    have hwrite : writeString kind.name = some (leBytes 4 kind.name.length ++ kind.name) := by
      cases kind <;> rfl
    rw [← List.append_assoc]
    exact readString_writeString hwrite rest
  refine ⟨r', ?_, hP⟩
  simp only [readStore, List.append_assoc, hname, orError_some, ok_bind, StoreKind.ofName_name,
    if_neg hnew, hread, hdata, hdes, deserializeStore_seen hdes]
  rfl

/-! ## 6. Stores at rest -/

/-- What holds of stores between two operations. -/
structure Quiescent (l2Norm : List UInt32 → UInt32) (events : EventStore) (vectors : VectorStore) :
    Prop where
  contexts : events.contexts.Sound events.config
  inv : vectors.Inv
  valid : vectors.Valid l2Norm

/-- Every item with metadata has a vector. -/
def Covered (src : SnapshotSource F) : Prop :=
  ∀ store ∈ src.metadata, ∀ id ∈ store.ids, id ∈ src.vectors.ids

section Deserialize

variable {data : Bytes} (r : Reading F)

theorem deserializeStore_events (hq : Quiescent l2Norm src.events src.vectors)
    (h : serializeEventStore orders.contexts src.events = .ok data) :
    ∃ r', deserializeStore l2Norm .events r data = .ok r' := by
  have hback := deserialize_serializeEventStore hq.contexts h r.targets.events []
  rw [List.append_nil] at hback
  exact ⟨_, by rw [deserializeStore, consumeAll_eq_ok.2 hback]; rfl⟩

theorem deserializeStore_coOccurrence
    (h : serializeCoOccurrenceIndex orders.items orders.neighbors src.index = .ok data) :
    ∃ r', deserializeStore l2Norm .coOccurrence r data = .ok r' := by
  obtain ⟨index, hback⟩ := deserializeCoOccurrenceIndex_accepts h r.targets.index []
  rw [List.append_nil] at hback
  exact ⟨_, by rw [deserializeStore, consumeAll_eq_ok.2 hback]; rfl⟩

theorem deserializeStore_vectors (hq : Quiescent l2Norm src.events src.vectors)
    (h : serializeVectorStore orders.ids src.vectors = .ok data) :
    ∃ r', deserializeStore l2Norm .vectors r data = .ok r' ∧ r'.targets.vectors.Inv ∧
      ∀ id, r'.targets.vectors.getVector id = src.vectors.getVector id := by
  obtain ⟨vectors, hback, hinv, hsame, -⟩ :=
    deserialize_serializeVectorStore hq.inv hq.valid h r.targets.vectors []
  rw [List.append_nil] at hback
  exact ⟨_, by rw [deserializeStore, consumeAll_eq_ok.2 hback]; rfl, hinv, hsame⟩

theorem deserializeStore_metadata {store : MetadataStore}
    (h : serializeMetadataStore orders.entries orders.fields store = .ok data) :
    ∃ r', deserializeStore l2Norm .metadata r data = .ok r' ∧
      r'.targets.vectors = r.targets.vectors ∧ ∀ id ∈ r'.metadata.ids, id ∈ store.ids := by
  obtain ⟨restored, hback, hsame⟩ := deserialize_serializeMetadataStore h []
  rw [List.append_nil] at hback
  have hids : ∀ id ∈ restored.ids, id ∈ store.ids := by
    intro id hid
    obtain ⟨fields, hfields⟩ := AssocMap.mem_keys.mp hid
    have hfield := hsame id []
    rw [MetadataStore.getField, MetadataStore.getField,
      show restored.get id = some fields from hfields] at hfield
    cases hc : (carried store).get id with
    | none =>
      rw [hc] at hfield
      cases hfield
    | some fs => exact AssocMap.mem_keys.mpr ⟨fs, (get_carried.1 hc).1⟩
  cases hm : r.targets.metadata with
  | none =>
    refine ⟨{ r with discarded := restored }, ?_, rfl, ?_⟩
    · simp only [deserializeStore, consumeAll_eq_ok.2 hback, hm]
      rfl
    · rw [Reading.metadata, hm]
      exact hids
  | some old =>
    refine ⟨{ r with targets := { r.targets with metadata := some restored } }, ?_, rfl, hids⟩
    simp only [deserializeStore, consumeAll_eq_ok.2 hback, hm]
    rfl

end Deserialize

/-- The first three sections, read back: the vectors are those that were written. -/
theorem readThree_write {ebytes ibytes vbytes : Bytes}
    (hq : Quiescent l2Norm src.events src.vectors)
    (he : writeStore k limits .events "events" (src.storeStats .events)
      (serializeEventStore orders.contexts src.events) = .ok ebytes)
    (hi : writeStore k limits .coOccurrence "co-occurrence" (src.storeStats .coOccurrence)
      (serializeCoOccurrenceIndex orders.items orders.neighbors src.index) = .ok ibytes)
    (hv : writeStore k limits .vectors "vectors" (src.storeStats .vectors)
      (serializeVectorStore orders.ids src.vectors) = .ok vbytes)
    (targets : SnapshotTargets F) (rest : Bytes) :
    ∃ r : Reading F, readMany (readStore k l2Norm) 3 { targets := targets }
        (ebytes ++ (ibytes ++ (vbytes ++ rest))) = .ok (r, rest) ∧
      r.seen = [.vectors, .coOccurrence, .events] ∧ r.targets.vectors.Inv ∧
      ∀ id, r.targets.vectors.getVector id = src.vectors.getVector id := by
  have hevents : ∀ data (r₀ : Reading F), serializeEventStore orders.contexts src.events = .ok data →
      r₀.targets.vectors = targets.vectors →
        ∃ r', deserializeStore l2Norm .events r₀ data = .ok r' ∧ True := by
    intro data r₀ hdata _
    obtain ⟨r', hr'⟩ := deserializeStore_events r₀ hq hdata
    exact ⟨r', hr', trivial⟩
  obtain ⟨r₁, hread₁, -⟩ := readStore_write he (r := { targets := targets }) List.not_mem_nil hevents
    (ibytes ++ (vbytes ++ rest))
  have hindex : ∀ data (r₀ : Reading F),
      serializeCoOccurrenceIndex orders.items orders.neighbors src.index = .ok data →
      r₀.targets.vectors = r₁.targets.vectors →
        ∃ r', deserializeStore l2Norm .coOccurrence r₀ data = .ok r' ∧ True := by
    intro data r₀ hdata _
    obtain ⟨r', hr'⟩ := deserializeStore_coOccurrence r₀ hdata
    exact ⟨r', hr', trivial⟩
  have hnew₂ : StoreKind.coOccurrence ∉ [StoreKind.events] := by decide
  obtain ⟨r₂, hread₂, -⟩ := readStore_write hi (r := { r₁ with seen := [.events] }) hnew₂ hindex
    (vbytes ++ rest)
  have hnew₃ : StoreKind.vectors ∉ [StoreKind.coOccurrence, .events] := by decide
  obtain ⟨r₃, hread₃, hinv, hsame⟩ := readStore_write hv
    (r := { r₂ with seen := [.coOccurrence, .events] }) hnew₃
    (fun data r₀ hdata _ => deserializeStore_vectors r₀ hq hdata) rest
  refine ⟨{ r₃ with seen := [.vectors, .coOccurrence, .events] }, ?_, rfl, hinv, hsame⟩
  simp only [readMany, hread₁, hread₂, hread₃]

/-- **The stores of a snapshot, read back**, with the checks behind the last. -/
theorem readStores_write {b : Bytes} (hq : Quiescent l2Norm src.events src.vectors)
    (hcovered : Covered src) (h : writeStores k limits orders src = .ok b)
    (targets : SnapshotTargets F) :
    ∃ r : Reading F, readMany (readStore k l2Norm) (if src.metadata.isSome then 4 else 3)
        { targets := targets } b = .ok (r, []) ∧ finishReading r [] = .ok r.targets := by
  obtain ⟨ebytes, he, h⟩ := bind_eq_ok.1 h
  obtain ⟨ibytes, hi, h⟩ := bind_eq_ok.1 h
  obtain ⟨vbytes, hv, h⟩ := bind_eq_ok.1 h
  obtain ⟨mbytes, hm, h⟩ := bind_eq_ok.1 h
  cases h
  obtain ⟨r, hread, hseen, hinv, hsame⟩ := readThree_write hq he hi hv targets mbytes
  cases hmeta : src.metadata with
  | none =>
    rw [hmeta] at hm
    cases hm
    refine ⟨r, hread, finishReading_eq_ok.2 ⟨by rw [hseen]; decide, ?_, rfl, rfl⟩⟩
    rw [hseen]
    exact fun hin => absurd hin (by decide)
  | some store =>
    rw [hmeta] at hm
    have hnew : StoreKind.metadata ∉ r.seen := by
      rw [hseen]
      decide
    have hstore : ∀ data (r₀ : Reading F),
        serializeMetadataStore orders.entries orders.fields store = .ok data →
        r₀.targets.vectors = r.targets.vectors →
          ∃ r', deserializeStore l2Norm .metadata r₀ data = .ok r' ∧
            (r'.targets.vectors = r.targets.vectors ∧ ∀ id ∈ r'.metadata.ids, id ∈ store.ids) := by
      intro data r₀ hdata hv
      obtain ⟨r', hr', hv', hids⟩ := deserializeStore_metadata r₀ hdata
      exact ⟨r', hr', hv'.trans hv, hids⟩
    obtain ⟨r₄, hread₄, hvectors, hids⟩ := readStore_write hm hnew hstore []
    rw [List.append_nil] at hread₄
    refine ⟨_, readMany_snoc hread hread₄, finishReading_eq_ok.2 ⟨?_, fun _ id hid => ?_, rfl, rfl⟩⟩
    · show ∀ kind ∈ [StoreKind.events, .coOccurrence, .vectors], kind ∈ StoreKind.metadata :: r.seen
      rw [hseen]
      decide
    · -- an item with metadata had a vector, and has it again
      have hin : id ∈ src.vectors.ids := hcovered store (by rw [hmeta]; rfl) id (hids id hid)
      obtain ⟨vec, hvec⟩ := hq.inv.mem_ids_iff_getVector.mp hin
      rw [← hsame] at hvec
      have hback : id ∈ r.targets.vectors.ids := hinv.mem_ids_iff_getVector.mpr ⟨vec, hvec⟩
      show r₄.targets.vectors.hasVector id = true
      rw [hvectors]
      exact AssocMap.contains_iff.mpr hback

/-- The sections of a snapshot, read back. -/
theorem readSections_write {sections : Bytes} (hq : Quiescent l2Norm src.events src.vectors)
    (hcovered : Covered src) (h : writeSections k limits orders src = .ok sections)
    {header : HeaderV1} (hflags : header.flags = (initialHeader src now).flags)
    (targets : SnapshotTargets F) :
    ∃ loaded, readSections k l2Norm header targets sections = .ok loaded := by
  obtain ⟨config, hconfig, h⟩ := bind_eq_ok.1 h
  obtain ⟨csection, hcsection, h⟩ := bind_eq_ok.1 h
  obtain ⟨ssection, hssection, h⟩ := bind_eq_ok.1 h
  obtain ⟨stores, hstores, h⟩ := bind_eq_ok.1 h
  cases h
  obtain ⟨rfl, hmax⟩ := writeSizedPayload_eq_ok hcsection
  have hread : ∀ rest, readSizedPayload k configTexts (encodePayload k config ++ rest) =
      .ok (config, rest) := by
    intro rest
    have hle : config.length ≤ kMaxConfigSize := Nat.le_trans hmax (Nat.min_le_left _ _)
    refine readSizedPayload_encode hle ?_ rest
    simp only [kMaxConfigSize] at hle
    omega
  have hparsed : ∀ trailing, consumeAll trailing (deserializeConfig config) = .ok src.config :=
    fun trailing => consumeAll_eq_ok.2 (deserializeConfig_serializeConfig hconfig)
  obtain ⟨stats, hstats⟩ := readStatistics_write hssection hflags
    { targets with config := src.config }
    (leBytes 4 (if src.metadata.isSome then 4 else 3) ++ stores)
  obtain ⟨r, hmany, hfinish⟩ := readStores_write hq hcovered hstores
    { targets with config := src.config, stats := stats }
  have hcount : readU32 (leBytes 4 (if src.metadata.isSome then 4 else 3) ++ stores) =
      some (UInt32.ofNat (if src.metadata.isSome then 4 else 3), stores) := by
    cases src.metadata
    · exact readU32_writeU32 3 stores
    · exact readU32_writeU32 4 stores
  have hrange : ¬ (UInt32.ofNat (if src.metadata.isSome then 4 else 3) < 3 ∨
      UInt32.ofNat (if src.metadata.isSome then 4 else 3) > 4) := by
    cases src.metadata.isSome <;> decide
  have htoNat : (UInt32.ofNat (if src.metadata.isSome then 4 else 3)).toNat =
      if src.metadata.isSome then 4 else 3 := by
    cases src.metadata <;> rfl
  refine ⟨r.targets, ?_⟩
  simp only [readSections, hread, ok_bind, hparsed, hstats, hcount, orError_some, if_neg hrange,
    htoNat, hmany, hfinish]

/-- **All readers accept what is published.** -/
theorem readers_accept (hq : Quiescent l2Norm src.events src.vectors) (hcovered : Covered src)
    (h : writeSnapshotV1 k limits orders now src = .ok file)
    (hcrc : k.of (crcFieldAsZero 0 file) ≠ 0) :
    verifySnapshotIntegrity k file = .ok () ∧ (∃ info, getSnapshotInfo file = .ok info) ∧
      ∀ targets : SnapshotTargets F, ∃ loaded, readSnapshotV1 k l2Norm targets file = .ok loaded := by
  obtain ⟨header, sections, hsections, hfile, hmax, hreserved, hflags, hsize, hvalue⟩ :=
    writeSnapshotV1_eq_ok h
  have hheaders := readHeaders_encode hreserved sections
  rw [← hfile] at hheaders
  have hpos : 0 < file.length := by simp [hfile, kMagicNumber]
  have hverify : verifyFileLevelIntegrity k file header = .ok () := by
    refine (verifyFileLevelIntegrity_eq_ok hpos).mpr ⟨hmax, hsize, ?_, hvalue ▸ hcrc, hvalue⟩
    rw [hflags]
    exact (flags_initialHeader src now).2
  refine ⟨?_, ?_, fun targets => ?_⟩
  · have hread : readMagic file =
        .ok (writeU32 kCurrentVersion ++ (encodeHeader header ++ sections)) := by
      rw [hfile]
      simp [readMagic]
    have hrange : ¬ (kCurrentVersion < kMinSupportedVersion ∨
        kCurrentVersion > kMaxSupportedVersion) := by decide
    have hlen : header.reserved.length ≤ kMaxStringLength := by
      rw [hreserved]
      exact Nat.zero_le _
    simp only [verifySnapshotIntegrity, hread, ok_bind, readVersion, readField32_writeU32,
      if_neg hrange, readHeaderV1_encode hlen, mapError_ok, hverify]
  · rw [hfile]
    exact getSnapshotInfo_write hsections hreserved hflags
  · obtain ⟨loaded, hloaded⟩ := readSections_write hq hcovered hsections hflags targets
    refine ⟨loaded, ?_⟩
    simp only [readSnapshotV1, hheaders, mapError_ok, ok_bind, hverify, hloaded]

end Written

/-! ## 7. The stores of a process -/

section Running

variable {F : Type}

theorem readStoreStatistics_stores {kind : StoreKind} {targets targets' : SnapshotTargets F}
    {stream rest : Bytes}
    (h : readStoreStatistics k kind targets stream = .ok (targets', rest)) :
    targets'.events = targets.events ∧ targets'.vectors = targets.vectors := by
  obtain ⟨⟨size, later⟩, -, h⟩ := bind_eq_ok.1 h
  simp only at h
  split at h
  · cases h
    exact ⟨rfl, rfl⟩
  · obtain ⟨⟨data, after⟩, -, h⟩ := bind_eq_ok.1 h
    simp only at h
    split at h
    · cases h
      exact ⟨rfl, rfl⟩
    · obtain ⟨stats, -, h⟩ := bind_eq_ok.1 h
      cases h
      exact ⟨rfl, rfl⟩

theorem readStatistics_stores {header : HeaderV1} {targets targets' : SnapshotTargets F}
    {stream rest : Bytes} (h : readStatistics k header targets stream = .ok (targets', rest)) :
    targets'.events = targets.events ∧ targets'.vectors = targets.vectors := by
  unfold readStatistics at h
  split at h
  · obtain ⟨⟨data, after⟩, -, h⟩ := bind_eq_ok.1 h
    simp only at h
    split at h
    · cases h
      exact ⟨rfl, rfl⟩
    · obtain ⟨stats, -, h⟩ := bind_eq_ok.1 h
      cases h
      exact ⟨rfl, rfl⟩
  · cases h
    exact ⟨rfl, rfl⟩

variable [FloatOps F] [FloatBits F] {l2Norm : List UInt32 → UInt32}

/-- Stores that can be there between two operations: new ones, those after ingestion, decay,
    pruning, and requests for vectors and metadata, and those of any snapshot that was loaded. -/
inductive AtRest (k : RunningChecksum) (l2Norm : List UInt32 → UInt32) :
    Ingestion F → ItemStores → Prop
  | new (cfg : EventsConfig) (coConfig : CoOccurrenceConfig F) :
      AtRest k l2Norm ⟨.new cfg, { config := coConfig }⟩ {}
  | ingest {s : Ingestion F} {t : ItemStores} (h : AtRest k l2Norm s t) (op : IngestOp) :
      AtRest k l2Norm (ingest s op) t
  | request {s : Ingestion F} {t : ItemStores} (h : AtRest k l2Norm s t) (r : Request) :
      AtRest k l2Norm s (respond l2Norm t r).1
  | load {config : SnapshotConfig} {cfg : EventsConfig} {coConfig : CoOccurrenceConfig F}
      {file : Bytes} {loaded : SnapshotTargets F}
      (h : readSnapshotV1 k l2Norm
        { config := config, events := .new cfg, index := { config := coConfig }, vectors := {},
          metadata := some {} } file = .ok loaded) :
      AtRest k l2Norm ⟨loaded.events, loaded.index⟩ ⟨loaded.vectors, loaded.metadata.getD {}⟩

/-- What a store's data may be put into stays well formed, whatever the data. -/
theorem deserializeStore_quiescent {kind : StoreKind} {r r' : Reading F} {data : Bytes}
    (hq : Quiescent l2Norm r.targets.events r.targets.vectors)
    (h : deserializeStore l2Norm kind r data = .ok r') :
    Quiescent l2Norm r'.targets.events r'.targets.vectors := by
  cases kind with
  | events =>
    obtain ⟨events, hevents, h⟩ := bind_eq_ok.1 h
    cases h
    obtain ⟨stored, hgood, rfl⟩ := deserializeEventStore_eq_ok (consumeAll_eq_ok.1 hevents)
    refine ⟨?_, hq.inv, hq.valid⟩
    rw [EventStore.config_restoreAll]
    exact EventStore.sound_restoreAll rfl (.empty _) hgood
  | coOccurrence =>
    obtain ⟨index, -, h⟩ := bind_eq_ok.1 h
    cases h
    exact hq
  | vectors =>
    obtain ⟨vectors, hvectors, h⟩ := bind_eq_ok.1 h
    cases h
    obtain ⟨hinv, hvalid⟩ := deserializeVectorStore_eq_ok (consumeAll_eq_ok.1 hvectors)
    exact ⟨hq.contexts, hinv, hvalid⟩
  | metadata =>
    obtain ⟨metadata, -, h⟩ := bind_eq_ok.1 h
    split at h <;> cases h <;> exact hq

theorem readStore_quiescent {r r' : Reading F} {stream rest : Bytes}
    (hq : Quiescent l2Norm r.targets.events r.targets.vectors)
    (h : readStore k l2Norm r stream = .ok (r', rest)) :
    Quiescent l2Norm r'.targets.events r'.targets.vectors := by
  obtain ⟨⟨name, s₁⟩, -, h⟩ := bind_eq_ok.1 h
  simp only at h
  split at h
  · cases h
  · split at h
    · cases h
    · obtain ⟨⟨targets, s₂⟩, hstats, h⟩ := bind_eq_ok.1 h
      obtain ⟨⟨data, s₃⟩, -, h⟩ := bind_eq_ok.1 h
      obtain ⟨r₁, hstore, h⟩ := bind_eq_ok.1 h
      cases h
      obtain ⟨hevents, hvectors⟩ := readStoreStatistics_stores hstats
      have hstart : Quiescent l2Norm targets.events targets.vectors := by
        rw [hevents, hvectors]
        exact hq
      have hend : Quiescent l2Norm r₁.targets.events r₁.targets.vectors :=
        deserializeStore_quiescent (r := { r with targets := targets }) hstart hstore
      exact hend

/-- **Whatever is loaded is well formed.** -/
theorem readSnapshotV1_quiescent {targets loaded : SnapshotTargets F} {file : Bytes}
    (hq : Quiescent l2Norm targets.events targets.vectors)
    (h : readSnapshotV1 k l2Norm targets file = .ok loaded) :
    Quiescent l2Norm loaded.events loaded.vectors := by
  obtain ⟨⟨header, stream⟩, -, h⟩ := bind_eq_ok.1 h
  obtain ⟨u, -, h⟩ := bind_eq_ok.1 h
  obtain ⟨⟨config, s₁⟩, -, h⟩ := bind_eq_ok.1 h
  obtain ⟨parsed, -, h⟩ := bind_eq_ok.1 h
  obtain ⟨⟨targets₁, s₂⟩, hstats, h⟩ := bind_eq_ok.1 h
  obtain ⟨⟨count, s₃⟩, -, h⟩ := bind_eq_ok.1 h
  simp only at h
  split at h
  · cases h
  · obtain ⟨⟨r, s₄⟩, hstores, h⟩ := bind_eq_ok.1 h
    obtain ⟨-, -, -, rfl⟩ := finishReading_eq_ok.1 h
    obtain ⟨hevents, hvectors⟩ := readStatistics_stores hstats
    refine readMany_inv (fun r : Reading F => Quiescent l2Norm r.targets.events r.targets.vectors)
      (fun r stream r' rest hr hone => readStore_quiescent hr hone) ?_ hstores
    show Quiescent l2Norm targets₁.events targets₁.vectors
    rw [hevents, hvectors]
    exact hq

theorem AtRest.quiescent {s : Ingestion F} {t : ItemStores} (h : AtRest k l2Norm s t) :
    Quiescent l2Norm s.events t.vectors := by
  induction h with
  | new cfg coConfig => exact ⟨.empty cfg, .empty, .empty⟩
  | ingest h op ih =>
    cases op with
    | event clock ctx id score type named timestamp options =>
      refine ⟨?_, ih.inv, ih.valid⟩
      have hsound :=
        EventStore.sound_addEventAndGetPrior ih.contexts named clock ctx id score timestamp
      rwa [← EventStore.config_addEventAndGetPrior] at hsound
    | decay alpha => exact ih
    | prune => exact ih
  | request h r ih =>
    obtain ⟨hinv, hvalid⟩ := Sound.respond (show Sound l2Norm _ from ⟨ih.inv, ih.valid⟩) r
    exact ⟨ih.contexts, hinv, hvalid⟩
  | load h => exact readSnapshotV1_quiescent ⟨.empty _, .empty, .empty⟩ h

/-- The stores of a run are at rest. -/
theorem AtRest.run (k : RunningChecksum) (l2Norm : List UInt32 → UInt32) (cfg : EventsConfig)
    (coConfig : CoOccurrenceConfig F) (ops : List IngestOp) (rs : List Request) :
    AtRest k l2Norm (ingested cfg coConfig ops) (after (respond l2Norm) {} rs) := by
  have hrequests : ∀ (rs : List Request) {s : Ingestion F} {t : ItemStores},
      AtRest k l2Norm s t → AtRest k l2Norm s (after (respond l2Norm) t rs) := by
    intro rs
    induction rs with
    | nil => exact fun h => h
    | cons r rs ih => exact fun h => ih (h.request r)
  have hops : ∀ (ops : List IngestOp) {s : Ingestion F} {t : ItemStores},
      AtRest k l2Norm s t → AtRest k l2Norm (ops.foldl Snapshot.ingest s) t := by
    intro ops
    induction ops with
    | nil => exact fun h => h
    | cons op ops ih => exact fun h => ih (h.ingest op)
  exact hrequests rs (hops ops (.new cfg coConfig))

/-- What is written of stores at rest. -/
def snapshotOf (s : Ingestion F) (t : ItemStores) (config : SnapshotConfig) (withMetadata : Bool)
    (stats : Option SnapshotStatistics) (storeStats : StoreKind → Option StoreStatistics) :
    SnapshotSource F where
  config := config
  events := s.events
  index := s.index
  vectors := t.vectors
  metadata := if withMetadata then some t.metadata else none
  stats := stats
  storeStats := storeStats

/-- **Writer and readers agree.** Whatever stores a process can have, if every item with metadata
    has a vector and the checksum of the file is not zero, the published bytes are accepted by
    `VerifySnapshotIntegrity`, `GetSnapshotInfo` and `ReadSnapshotV1`. And every file that
    `ReadSnapshotV1` accepts is made of the headers and sections alone, with the size and the
    checksums that are recorded, and has every store once, metadata at most once. -/
theorem container_agreement (k : RunningChecksum) (l2Norm : List UInt32 → UInt32) :
    (∀ (s : Ingestion F) (t : ItemStores) (config : SnapshotConfig) (withMetadata : Bool)
        (stats : Option SnapshotStatistics) (storeStats : StoreKind → Option StoreStatistics)
        (limits : SnapshotWriteLimits) (orders : WalkOrders F) (now : UInt64) (file : Bytes),
      AtRest k l2Norm s t → (∀ id ∈ t.metadata.ids, id ∈ t.vectors.ids) →
      writeSnapshotV1 k limits orders now
        (snapshotOf s t config withMetadata stats storeStats) = .ok file →
      k.of (crcFieldAsZero 0 file) ≠ 0 →
      verifySnapshotIntegrity k file = .ok () ∧ (∃ info, getSnapshotInfo file = .ok info) ∧
        ∀ targets : SnapshotTargets F,
          ∃ loaded, readSnapshotV1 k l2Norm targets file = .ok loaded) ∧
    ∀ (targets loaded : SnapshotTargets F) (file : Bytes),
      readSnapshotV1 k l2Norm targets file = .ok loaded →
        ∃ l : Layout, file = l.encode k ∧ l.Valid k := by
  constructor
  · intro s t config withMetadata stats storeStats limits orders now file hrest hids hwrite hcrc
    refine readers_accept hrest.quiescent ?_ hwrite hcrc
    intro store hstore id hid
    cases withMetadata with
    | false => cases hstore
    | true =>
      cases hstore
      exact hids id hid
  · intro targets loaded file h
    exact readSnapshotV1_eq_ok h

end Running

end Checksum

/-- Three dimensions, `cosine`, and the numbers of the default configuration. -/
def savedConfig : SnapshotConfig where
  ctxBufferSize := 50
  decayIntervalSec := 3600
  decayAlpha := 0x3FEFAE147AE147AE
  defaultDimension := 3
  distanceMetric := [99, 111, 115, 105, 110, 101]
  defaultTopK := 100
  maxTopK := 1000
  fusionAlpha := 0x3FE3333333333333
  fusionBeta := 0x3FD999999999999A

/-- A snapshot with statistics of four stores that hold something. -/
def savedSource : SnapshotSource UInt32 :=
  snapshotOf (ingested smallConfig { minSupport := (0 : UInt32) } overflowing)
    (after (respond absoluteValue) {} labelled) savedConfig true (some ⟨2, 2, 3, 1, 4, 5⟩)
    (fun kind => if kind = .events then some ⟨3, 4, 5⟩ else none)

/-- Its file is accepted by all readers and made of nothing but sections. -/
theorem container_agreement_saved :
    ∃ file, writeSnapshotV1 zlibCrc32 {} {} 7 savedSource = .ok file ∧
      verifySnapshotIntegrity zlibCrc32 file = .ok () ∧
      (∃ info, getSnapshotInfo file = .ok info) ∧
      (∃ loaded, readSnapshotV1 zlibCrc32 absoluteValue
        { config := savedConfig, events := .new smallConfig,
          index := { config := { minSupport := (0 : UInt32) } }, vectors := {},
          metadata := some {} } file = .ok loaded) ∧
      ∃ l : Layout, file = l.encode zlibCrc32 ∧ l.Valid zlibCrc32 := by
  obtain ⟨hwritten, haccepted⟩ := container_agreement (F := UInt32) zlibCrc32 absoluteValue
  have hok : (writeSnapshotV1 zlibCrc32 {} {} 7 savedSource).toOption.any
      (fun file => decide (zlibCrc32.of (crcFieldAsZero 0 file) ≠ 0)) = true := by
    simp only [crcFieldAsZero_eq, zlibCrc32_eq]
    decide +kernel
  cases hfile : writeSnapshotV1 zlibCrc32 {} {} 7 savedSource with
  | error e =>
    rw [hfile] at hok
    cases hok
  | ok file =>
    rw [hfile] at hok
    have hcrc : zlibCrc32.of (crcFieldAsZero 0 file) ≠ 0 := of_decide_eq_true hok
    obtain ⟨hverify, hinfo, hread⟩ := hwritten _ _ _ _ _ _ _ _ _ _ (.run _ _ _ _ _ _)
      (by decide +kernel) hfile hcrc
    obtain ⟨loaded, hloaded⟩ := hread
      { config := savedConfig, events := .new smallConfig,
        index := { config := { minSupport := (0 : UInt32) } }, vectors := {}, metadata := some {} }
    exact ⟨file, rfl, hverify, hinfo, ⟨loaded, hloaded⟩, haccepted _ _ _ hloaded⟩

end Nvecd.Storage.Snapshot
