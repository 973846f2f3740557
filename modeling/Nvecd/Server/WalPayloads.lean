/-
  File:      Nvecd/Server/WalPayloads.lean
  Subject:   The payloads `server/wal_codec.cpp` writes, and those it accepts.

  A payload is its fields one after the other. The readers accept such fields with bytes behind
  them, whatever the type byte of an event is and however often a metadata key comes; a writer
  puts no byte behind the fields and no key twice.

  * `Payload` -- the fields, their bytes, and the command they are read as;
  * `readLe_eq_some`, `readString_eq_some`, `decodeEntries_eq_ok` -- what each reader accepts;
  * `decodeWalRecord_eq_ok` -- what `DecodeWalRecord` accepts;
  * `decode_encodeCommand` -- every command comes back;
  * `reencodes_iff` -- which accepted payloads are those of the command they are read as.
-/
import Nvecd.Server.WalCodec

namespace Nvecd.Server

open Nvecd.Lib Nvecd.Utils Nvecd.Storage Nvecd.Events Nvecd.Vectors

/-! ## 1. What the readers accept -/

theorem readLe_eq_some {w n : Nat} {bytes rest : Bytes} :
    readLe w bytes = some (n, rest) ↔ n < 256 ^ w ∧ bytes = leBytes w n ++ rest := by
  constructor
  · intro h
    unfold readLe at h
    split at h
    · cases h
    · rename_i hlen
      have htake : (bytes.take w).length = w := by
        rw [List.length_take]
        omega
      cases h
      refine ⟨?_, ?_⟩
      · have hlt := ofLeBytes_lt (bytes.take w)
        rwa [htake] at hlt
      · have hsame := leBytes_ofLeBytes (bytes.take w)
        rw [htake] at hsame
        rw [hsame, List.take_append_drop]
  · rintro ⟨hlt, rfl⟩
    exact readLe_leBytes hlt rest

theorem readString_eq_some {s bytes rest : Bytes} :
    readString bytes = some (s, rest) ↔ s.length < 2 ^ 32 ∧ bytes = appendString s ++ rest := by
  constructor
  · intro h
    unfold readString at h
    split at h
    · cases h
    · rename_i len behind hlen
      obtain ⟨hlt, rfl⟩ := readLe_eq_some.1 hlen
      split at h
      · cases h
      · rename_i hle
        have htake : (behind.take len).length = len := by
          rw [List.length_take]
          omega
        cases h
        rw [appendString, htake, List.append_assoc, List.take_append_drop]
        exact ⟨hlt, rfl⟩
  · rintro ⟨hlt, rfl⟩
    exact readString_appendString hlt rest

theorem readFloats_eq_some {n : Nat} {fs : List UInt32} {bytes rest : Bytes} :
    readFloats n bytes = some (fs, rest) ↔ fs.length = n ∧ bytes = encodeFloats fs ++ rest := by
  constructor
  · intro h
    induction n generalizing fs bytes rest with
    | zero =>
      cases h
      exact ⟨rfl, rfl⟩
    | succ n ih =>
      unfold readFloats at h
      split at h
      · cases h
      · rename_i bits behind hbits
        obtain ⟨hlt, rfl⟩ := readLe_eq_some.1 hbits
        split at h
        · cases h
        · rename_i gs last hgs
          obtain ⟨hlen, rfl⟩ := ih hgs
          cases h
          have hsame : (UInt32.ofNat bits).toNat = bits := UInt32.toNat_ofNat_of_lt' hlt
          simp [encodeFloats, hlen, hsame]
  · rintro ⟨rfl, rfl⟩
    exact readFloats_encodeFloats fs rest

/-- The length of a string value fits the four bytes in front of it. -/
def ValueFits : MetadataValue → Prop
  | .string s => s.length < 2 ^ 32
  | .int64 _ | .double _ | .bool _ => True

theorem decodeValue_eq_ok {tag : Nat} {v : MetadataValue} {bytes rest : Bytes} :
    decodeValue tag bytes = .ok (v, rest) ↔
      tag = valueTag v ∧ ValueFits v ∧ bytes = (encodeValue v).tail ++ rest := by
  constructor
  · intro h
    unfold decodeValue at h
    split at h
    · -- a string
      split at h
      · cases h
      · rename_i s behind hs
        obtain ⟨hlt, rfl⟩ := readString_eq_some.1 hs
        cases h
        exact ⟨rfl, hlt, rfl⟩
    · -- an integer
      split at h
      · cases h
      · rename_i raw behind hraw
        obtain ⟨hlt, rfl⟩ := readLe_eq_some.1 hraw
        cases h
        have hsame : (UInt64.ofNat raw).toNat = raw := UInt64.toNat_ofNat_of_lt' hlt
        exact ⟨rfl, trivial, by simp [encodeValue, hsame]⟩
    · -- a double
      split at h
      · cases h
      · rename_i raw behind hraw
        obtain ⟨hlt, rfl⟩ := readLe_eq_some.1 hraw
        cases h
        have hsame : (UInt64.ofNat raw).toNat = raw := UInt64.toNat_ofNat_of_lt' hlt
        exact ⟨rfl, trivial, by simp [encodeValue, hsame]⟩
    · -- a truth value
      split at h
      · cases h
      · rename_i raw behind hraw
        obtain ⟨hlt, rfl⟩ := readLe_eq_some.1 hraw
        split at h
        · cases h
        · rename_i hbool
          cases h
          obtain rfl | rfl : raw = 0 ∨ raw = 1 := by omega
          · exact ⟨rfl, trivial, rfl⟩
          · exact ⟨rfl, trivial, rfl⟩
    · cases h
  · rintro ⟨rfl, hfits, rfl⟩
    cases v with
    | string s => simp [decodeValue, valueTag, encodeValue, readString_appendString hfits]
    | int64 n =>
      have hn : n.toUInt64.toNat < 256 ^ 8 := n.toUInt64.toNat_lt
      simp [decodeValue, valueTag, encodeValue, readLe_leBytes hn]
    | double d =>
      have hd : d.toNat < 256 ^ 8 := d.toNat_lt
      simp [decodeValue, valueTag, encodeValue, readLe_leBytes hd]
    | bool b => cases b <;> simp [decodeValue, valueTag, encodeValue, readLe, ofLeBytes]

/-! ## 2. Metadata -/

/-- Every length fits the four bytes in front of it. -/
def EntriesFit (es : List (Bytes × MetadataValue)) : Prop :=
  ∀ e ∈ es, e.1.length < 2 ^ 32 ∧ ValueFits e.2

/-- The entries go into the map one after the other; the first of a key stays. -/
def emplaceAll (m : Metadata) (es : List (Bytes × MetadataValue)) : Metadata :=
  es.foldl (fun m e => m.emplace e.1 e.2) m

theorem leBytes_valueTag (v : MetadataValue) (rest : Bytes) :
    leBytes 1 (valueTag v) ++ ((encodeValue v).tail ++ rest) = encodeValue v ++ rest := by
  cases v <;> rfl

theorem decodeEntries_eq_ok {n : Nat} {m m' : Metadata} {bytes : Bytes} :
    decodeEntries n m bytes = .ok m' ↔ ∃ es rest, es.length = n ∧ EntriesFit es ∧
      bytes = encodeEntries es ++ rest ∧ m' = emplaceAll m es := by
  induction n generalizing m bytes with
  | zero =>
    constructor
    · intro h
      cases h
      exact ⟨[], bytes, rfl, nofun, rfl, rfl⟩
    · rintro ⟨es, rest, hlen, -, -, rfl⟩
      rw [List.length_eq_zero_iff.mp hlen]
      rfl
  | succ n ih =>
    constructor
    · intro h
      unfold decodeEntries at h
      split at h
      · cases h
      · rename_i key behind hkey
        obtain ⟨hkeyFits, rfl⟩ := readString_eq_some.1 hkey
        split at h
        · cases h
        · rename_i tag value htag
          obtain ⟨-, rfl⟩ := readLe_eq_some.1 htag
          split at h
          · cases h
          · rename_i v others hv
            obtain ⟨rfl, hvFits, rfl⟩ := decodeValue_eq_ok.1 hv
            obtain ⟨es, rest, rfl, hes, rfl, rfl⟩ := ih.mp h
            refine ⟨(key, v) :: es, rest, rfl, ?_, ?_, rfl⟩
            · intro e he
              rcases List.mem_cons.mp he with rfl | he
              · exact ⟨hkeyFits, hvFits⟩
              · exact hes e he
            · rw [encodeEntries, List.append_assoc, List.append_assoc, leBytes_valueTag]
    · rintro ⟨es, rest, hlen, hes, rfl, rfl⟩
      cases es with
      | nil => cases hlen
      | cons e es =>
        obtain ⟨hkeyFits, hvFits⟩ := hes e List.mem_cons_self
        have hv := decodeValue_eq_ok.2 ⟨rfl, hvFits, (rfl :
          (encodeValue e.2).tail ++ (encodeEntries es ++ rest) = _)⟩
        simp only [encodeEntries, decodeEntries, List.append_assoc,
          readString_appendString hkeyFits, readLe_tag, hv]
        exact ih.mpr ⟨es, rest, Nat.succ.inj hlen,
          fun x hx => hes x (List.mem_cons_of_mem e hx), rfl, rfl⟩

/-- The bytes of typed metadata behind its magic number. -/
def entriesBytes (es : List (Bytes × MetadataValue)) : Bytes :=
  leBytes 4 es.length ++ encodeEntries es

theorem decodeTypedMetadata_eq_ok {m : Metadata} {bytes : Bytes} :
    decodeTypedMetadata bytes = .ok m ↔ ∃ es rest, es.length < 2 ^ 32 ∧ EntriesFit es ∧
      bytes = entriesBytes es ++ rest ∧ m = emplaceAll .empty es := by
  constructor
  · intro h
    unfold decodeTypedMetadata at h
    split at h
    · cases h
    · rename_i count behind hcount
      obtain ⟨hlt, rfl⟩ := readLe_eq_some.1 hcount
      split at h
      · cases h
      · obtain ⟨es, rest, rfl, hes, rfl, rfl⟩ := decodeEntries_eq_ok.1 h
        exact ⟨es, rest, hlt, hes, by rw [entriesBytes, List.append_assoc], rfl⟩
  · rintro ⟨es, rest, hlt, hes, rfl, rfl⟩
    have hlt' : es.length < 256 ^ 4 := hlt
    have hle := length_le_encodeEntries es
    have hcount : ¬ es.length > (encodeEntries es ++ rest).length := by
      rw [List.length_append]
      omega
    simp only [decodeTypedMetadata, entriesBytes, List.append_assoc, readLe_leBytes hlt',
      if_neg hcount]
    exact decodeEntries_eq_ok.2 ⟨es, rest, rfl, hes, rfl, rfl⟩

theorem encodeEntries_append (es es' : List (Bytes × MetadataValue)) :
    encodeEntries (es ++ es') = encodeEntries es ++ encodeEntries es' := by
  induction es with
  | nil => rfl
  | cons e es ih => simp only [List.cons_append, encodeEntries, ih, List.append_assoc]

/-- Without a repeated key, the map holds the entries as they came. -/
theorem entries_emplaceAll {m : Metadata} {es : List (Bytes × MetadataValue)}
    (h : ((m.entries ++ es).map Prod.fst).Nodup) : (emplaceAll m es).entries = m.entries ++ es := by
  induction es generalizing m with
  | nil => simp [emplaceAll]
  | cons e es ih =>
    have hnew : e.1 ∉ m.keys := by
      rw [List.map_append, List.nodup_append] at h
      exact fun hk => h.2.2 e.1 hk e.1 (by simp) rfl
    have hm : (m.emplace e.1 e.2).entries = m.entries ++ [e] := by
      have hc : m.contains e.1 = false := by
        rw [← Bool.not_eq_true, AssocMap.contains_iff]
        exact hnew
      rw [AssocMap.emplace, hc]
      exact AssocMap.entries_insert_of_not_mem hnew
    have hrest := @ih (m.emplace e.1 e.2) (by rw [hm]; simpa using h)
    rw [hm, List.append_assoc] at hrest
    exact hrest

/-- With a repeated key, the map is written in fewer bytes than were read. -/
theorem length_encode_emplaceAll (m : Metadata) (es : List (Bytes × MetadataValue)) :
    (encodeEntries (emplaceAll m es).entries).length ≤
        (encodeEntries m.entries).length + (encodeEntries es).length ∧
      ((encodeEntries (emplaceAll m es).entries).length =
          (encodeEntries m.entries).length + (encodeEntries es).length →
        ((m.entries ++ es).map Prod.fst).Nodup) := by
  induction es generalizing m with
  | nil => exact ⟨Nat.le_refl _, fun _ => by simpa using m.nodupKeys⟩
  | cons e es ih =>
    obtain ⟨hle, hnodup⟩ := ih (m.emplace e.1 e.2)
    have hcons : emplaceAll m (e :: es) = emplaceAll (m.emplace e.1 e.2) es := rfl
    have hlen : (encodeEntries (e :: es)).length =
        (encodeEntries [e]).length + (encodeEntries es).length := by
      rw [← List.length_append, ← encodeEntries_append]
      rfl
    have hpos : 0 < (encodeEntries [e]).length := length_le_encodeEntries [e]
    rw [hcons, hlen]
    cases hc : m.contains e.1 with
    | true =>
      have hm : m.emplace e.1 e.2 = m := by rw [AssocMap.emplace, hc]; rfl
      rw [hm] at hle ⊢
      exact ⟨by omega, fun h => by omega⟩
    | false =>
      have hnew : e.1 ∉ m.keys := by
        rw [← AssocMap.contains_iff, hc]
        exact Bool.false_ne_true
      have hm : (m.emplace e.1 e.2).entries = m.entries ++ [e] := by
        rw [AssocMap.emplace, hc]
        exact AssocMap.entries_insert_of_not_mem hnew
      rw [hm, encodeEntries_append, List.length_append] at hle hnodup
      refine ⟨by omega, fun h => ?_⟩
      simpa using hnodup (by omega)

/-! ## 3. Payloads -/

/-- The fields of a payload. -/
inductive Payload where
  | event (type : UInt8) (ctx id : Bytes) (score : UInt32) (timestamp : UInt64)
  | vecset (id : Bytes) (vector : List UInt32)
  | vecsetMetadata (id : Bytes) (vector : List UInt32) (es : List (Bytes × MetadataValue))
  | vecdel (id : Bytes)
  | metaset (id : Bytes) (es : List (Bytes × MetadataValue))
  | metasetText (id filterExpr : Bytes)

namespace Payload

/-- The fields one after the other. -/
def bytes : Payload → Bytes
  | .event type ctx id score timestamp =>
    type :: (appendString ctx ++ appendString id ++ leBytes 4 score.toNat ++
      leBytes 8 timestamp.toNat)
  | .vecset id vector => appendString id ++ leBytes 4 vector.length ++ encodeFloats vector
  | .vecsetMetadata id vector es =>
    appendString id ++ leBytes 4 vector.length ++ encodeFloats vector ++
      (leBytes 4 kTypedMetadataMagic ++ entriesBytes es)
  | .vecdel id => appendString id
  | .metaset id es => appendString id ++ (leBytes 4 kTypedMetadataMagic ++ entriesBytes es)
  | .metasetText id filterExpr => appendString id ++ appendString filterExpr

/-- The command the fields are read as. -/
def command : Payload → Command
  | .event type ctx id score timestamp =>
    { type := .kEvent, eventType := .ofByte type, ctx := ctx, id := id
      score := int32OfBits score.toNat, timestamp := some timestamp }
  | .vecset id vector =>
    { type := .kVecset, id := id, dimension := vector.length, vector := vector }
  | .vecsetMetadata id vector es =>
    { type := .kVecset, id := id, dimension := vector.length, vector := vector
      metadata := some (emplaceAll .empty es) }
  | .vecdel id => { type := .kVecdel, id := id }
  | .metaset id es => { type := .kMetaset, id := id, metadata := some (emplaceAll .empty es) }
  | .metasetText id filterExpr => { type := .kMetaset, id := id, filterExpr := filterExpr }

/-- The operations under which a record has such fields. -/
def ops : Payload → List WalOpType
  | .event .. => [.kEventAdd, .kEventDel]
  | .vecset .. | .vecsetMetadata .. => [.kVecSet]
  | .vecdel _ => [.kVecDel]
  | .metaset .. | .metasetText .. => [.kMetaSet]

/-- Every length fits the four bytes in front of it, that of a vector an `int`; a text is not as
    long as to be taken for typed metadata. -/
def Fits : Payload → Prop
  | .event _ ctx id _ _ => ctx.length < 2 ^ 32 ∧ id.length < 2 ^ 32
  | .vecset id vector => id.length < 2 ^ 32 ∧ vector.length < 2 ^ 31
  | .vecsetMetadata id vector es =>
    id.length < 2 ^ 32 ∧ vector.length < 2 ^ 31 ∧ es.length < 2 ^ 32 ∧ EntriesFit es
  | .vecdel id => id.length < 2 ^ 32
  | .metaset id es => id.length < 2 ^ 32 ∧ es.length < 2 ^ 32 ∧ EntriesFit es
  | .metasetText id filterExpr =>
    id.length < 2 ^ 32 ∧ filterExpr.length < 2 ^ 32 ∧ filterExpr.length ≠ kTypedMetadataMagic

/-- Which bytes are overlooked behind the fields: behind a vector none, elsewhere any. -/
def Overlooks (extra : Bytes) : Payload → Prop
  | .vecset .. => extra = []
  | .event .. | .vecsetMetadata .. | .vecdel _ | .metaset .. | .metasetText .. => True

/-- A record with these fields and `extra` behind them. -/
structure StandsIn (p : Payload) (extra : Bytes) (record : WalRecord) : Prop where
  op : ∃ op ∈ p.ops, record.op = op.toByte
  fits : p.Fits
  overlooks : p.Overlooks extra
  payload : record.payload = p.bytes ++ extra

end Payload

theorem toByte_of_ofByte? {raw : UInt8} {op : WalOpType} (h : WalOpType.ofByte? raw = some op) :
    raw = op.toByte := by
  unfold WalOpType.ofByte? at h
  split at h <;> cases h <;> rfl

section Accepted

variable {bytes : Bytes} {cmd : Command}

theorem decodeEvent_eq_ok : decodeEvent bytes = .ok cmd ↔ ∃ type ctx id score timestamp extra,
    (Payload.event type ctx id score timestamp).Fits ∧
      bytes = (Payload.event type ctx id score timestamp).bytes ++ extra ∧
      cmd = (Payload.event type ctx id score timestamp).command := by
  constructor
  · intro h
    unfold decodeEvent at h
    split at h
    · cases h
    rename_i type rest htype
    obtain ⟨htypeFits, rfl⟩ := readLe_eq_some.1 htype
    split at h
    · cases h
    rename_i ctx rest hctx
    obtain ⟨hctxFits, rfl⟩ := readString_eq_some.1 hctx
    split at h
    · cases h
    rename_i id rest hid
    obtain ⟨hidFits, rfl⟩ := readString_eq_some.1 hid
    split at h
    · cases h
    rename_i score rest hscore
    obtain ⟨hscoreFits, rfl⟩ := readLe_eq_some.1 hscore
    split at h
    · cases h
    rename_i timestamp extra htimestamp
    obtain ⟨htimestampFits, rfl⟩ := readLe_eq_some.1 htimestamp
    cases h
    have hscoreSame : (UInt32.ofNat score).toNat = score := UInt32.toNat_ofNat_of_lt' hscoreFits
    have htimestampSame : (UInt64.ofNat timestamp).toNat = timestamp :=
      UInt64.toNat_ofNat_of_lt' htimestampFits
    have htypeSame : leBytes 1 type = [UInt8.ofNat type] := by
      have hmod : type % 256 = type := Nat.mod_eq_of_lt (by simpa using htypeFits)
      simp [leBytes, hmod]
    refine ⟨UInt8.ofNat type, ctx, id, UInt32.ofNat score, UInt64.ofNat timestamp, extra,
      ⟨hctxFits, hidFits⟩, ?_, ?_⟩
    · rw [Payload.bytes, htypeSame, hscoreSame, htimestampSame]
      simp only [List.cons_append, List.nil_append, List.append_assoc]
    · rw [Payload.command, hscoreSame]
  · rintro ⟨type, ctx, id, score, timestamp, extra, ⟨hctx, hid⟩, rfl, rfl⟩
    have htype : ∀ rest, readLe 1 (type :: rest) = some (type.toNat, rest) := by
      intro rest
      simp [readLe, ofLeBytes]
    have hscore : score.toNat < 256 ^ 4 := score.toNat_lt
    have htimestamp : timestamp.toNat < 256 ^ 8 := timestamp.toNat_lt
    simp only [decodeEvent, Payload.bytes, Payload.command, List.cons_append, List.append_assoc,
      htype, readString_appendString hctx, readString_appendString hid, readLe_leBytes hscore,
      readLe_leBytes htimestamp, UInt8.ofNat_toNat, UInt64.ofNat_toNat]

theorem decodeVecset_eq_ok : decodeVecset bytes = .ok cmd ↔ ∃ p : Payload, ∃ extra,
    WalOpType.kVecSet ∈ p.ops ∧ p.Fits ∧ p.Overlooks extra ∧ bytes = p.bytes ++ extra ∧
      cmd = p.command := by
  constructor
  · intro h
    unfold decodeVecset at h
    split at h
    · cases h
    rename_i id rest hid
    obtain ⟨hidFits, rfl⟩ := readString_eq_some.1 hid
    split at h
    · cases h
    rename_i dim rest hdim
    obtain ⟨hdimFits, rfl⟩ := readLe_eq_some.1 hdim
    split at h
    · cases h
    rename_i hbound
    split at h
    · cases h
    rename_i vector rest hvector
    obtain ⟨rfl, rfl⟩ := readFloats_eq_some.1 hvector
    have hshort : vector.length < 2 ^ 31 := by omega
    unfold decodeExtension at h
    split at h
    · rename_i hnil
      cases h
      exact ⟨.vecset id vector, [], List.mem_singleton_self _, ⟨hidFits, hshort⟩, rfl,
        by simp [Payload.bytes, hnil], rfl⟩
    · dsimp only at h
      split at h
      · cases h
      rename_i magic typed hmagic
      obtain ⟨-, rfl⟩ := readLe_eq_some.1 hmagic
      split at h
      · cases h
      rename_i hsame
      obtain rfl := not_not.mp hsame
      split at h
      · cases h
      rename_i m hm
      obtain ⟨es, extra, hcount, hes, rfl, rfl⟩ := decodeTypedMetadata_eq_ok.1 hm
      cases h
      exact ⟨.vecsetMetadata id vector es, extra, List.mem_singleton_self _,
        ⟨hidFits, hshort, hcount, hes⟩, trivial, by simp [Payload.bytes], rfl⟩
  · rintro ⟨p, extra, hop, hfits, hover, rfl, rfl⟩
    have hdecode : ∀ id (vector : List UInt32) rest, id.length < 2 ^ 32 → vector.length < 2 ^ 31 →
        decodeVecset (appendString id ++ (leBytes 4 vector.length ++ (encodeFloats vector ++
          rest))) = decodeExtension { type := .kVecset, id := id, dimension := vector.length
                                      vector := vector } rest := by
      intro id vector rest hid hvector
      have hdim : vector.length < 256 ^ 4 := by omega
      have hbound : ¬ (vector.length > 2 ^ 31 - 1 ∨
          vector.length > (encodeFloats vector ++ rest).length / 4) := by
        rw [List.length_append, length_encodeFloats]
        omega
      simp only [decodeVecset, readString_appendString hid, readLe_leBytes hdim, if_neg hbound,
        readFloats_encodeFloats]
    cases p with
    | vecset id vector =>
      obtain rfl : extra = [] := hover
      have hread := hdecode id vector [] hfits.1 hfits.2
      simpa [Payload.bytes, Payload.command, decodeExtension] using hread
    | vecsetMetadata id vector es =>
      obtain ⟨hid, hvector, hcount, hes⟩ := hfits
      have hmagic : kTypedMetadataMagic < 256 ^ 4 := by decide
      have hread := hdecode id vector (leBytes 4 kTypedMetadataMagic ++ (entriesBytes es ++ extra))
        hid hvector
      have hne : leBytes 4 kTypedMetadataMagic ++ (entriesBytes es ++ extra) ≠ [] := by
        simp [leBytes]
      have htyped := decodeTypedMetadata_eq_ok.2 ⟨es, extra, hcount, hes, rfl, rfl⟩
      simp only [Payload.bytes, List.append_assoc, hread, decodeExtension, if_neg hne,
        readLe_leBytes hmagic, htyped]
      rfl
    | event _ _ _ _ _ => simp [Payload.ops] at hop
    | vecdel _ => simp [Payload.ops] at hop
    | metaset _ _ => simp [Payload.ops] at hop
    | metasetText _ _ => simp [Payload.ops] at hop

theorem decodeVecdel_eq_ok : decodeVecdel bytes = .ok cmd ↔ ∃ id extra,
    (Payload.vecdel id).Fits ∧ bytes = (Payload.vecdel id).bytes ++ extra ∧
      cmd = (Payload.vecdel id).command := by
  constructor
  · intro h
    unfold decodeVecdel at h
    split at h
    · cases h
    rename_i id extra hid
    obtain ⟨hfits, rfl⟩ := readString_eq_some.1 hid
    cases h
    exact ⟨id, extra, hfits, rfl, rfl⟩
  · rintro ⟨id, extra, hfits, rfl, rfl⟩
    have hid : id.length < 2 ^ 32 := hfits
    simp only [decodeVecdel, Payload.bytes, readString_appendString hid, Payload.command]

theorem decodeMetaset_eq_ok : decodeMetaset bytes = .ok cmd ↔ ∃ p : Payload, ∃ extra,
    WalOpType.kMetaSet ∈ p.ops ∧ p.Fits ∧ bytes = p.bytes ++ extra ∧ cmd = p.command := by
  have htext : ∀ id rest cmd, id.length < 2 ^ 32 → (∀ n typed, readLe 4 rest = some (n, typed) →
        n ≠ kTypedMetadataMagic) →
      (decodeMetaset (appendString id ++ rest) = .ok cmd ↔ ∃ expr extra,
        readString rest = some (expr, extra) ∧
          cmd = { type := .kMetaset, id := id, filterExpr := expr }) := by
    intro id rest cmd hid hno
    simp only [decodeMetaset, readString_appendString hid]
    cases hle : readLe 4 rest with
    | none => rcases hs : readString rest with _ | ⟨expr, extra⟩ <;> simp [eq_comm]
    | some r =>
      simp only [if_neg (hno r.1 r.2 hle)]
      rcases hs : readString rest with _ | ⟨expr, extra⟩ <;> simp [eq_comm]
  have htyped : ∀ id typed cmd, id.length < 2 ^ 32 →
      (decodeMetaset (appendString id ++ (leBytes 4 kTypedMetadataMagic ++ typed)) = .ok cmd ↔
        ∃ m, decodeTypedMetadata typed = .ok m ∧
          cmd = { type := .kMetaset, id := id, metadata := some m }) := by
    intro id typed cmd hid
    have hmagic : kTypedMetadataMagic < 256 ^ 4 := by decide
    simp only [decodeMetaset, readString_appendString hid, readLe_leBytes hmagic, if_true]
    cases hm : decodeTypedMetadata typed <;> simp [eq_comm]
  constructor
  · intro h
    have hread : ∃ id rest, readString bytes = some (id, rest) := by
      unfold decodeMetaset at h
      split at h
      · cases h
      · rename_i id rest hid
        exact ⟨id, rest, hid⟩
    obtain ⟨id, rest, hid⟩ := hread
    obtain ⟨hidFits, rfl⟩ := readString_eq_some.1 hid
    by_cases hno : ∀ n typed, readLe 4 rest = some (n, typed) → n ≠ kTypedMetadataMagic
    · obtain ⟨expr, extra, hexpr, rfl⟩ := (htext id rest cmd hidFits hno).mp h
      obtain ⟨hexprFits, rfl⟩ := readString_eq_some.1 hexpr
      have hlen : readLe 4 (appendString expr ++ extra) = some (expr.length, expr ++ extra) := by
        rw [appendString, List.append_assoc]
        exact readLe_leBytes hexprFits _
      exact ⟨.metasetText id expr, extra, List.mem_singleton_self _,
        ⟨hidFits, hexprFits, hno _ _ hlen⟩, by rw [Payload.bytes, List.append_assoc], rfl⟩
    · push Not at hno
      obtain ⟨n, typed, hle, rfl⟩ := hno
      obtain ⟨-, rfl⟩ := readLe_eq_some.1 hle
      obtain ⟨m, hm, rfl⟩ := (htyped id typed cmd hidFits).mp h
      obtain ⟨es, extra, hcount, hes, rfl, rfl⟩ := decodeTypedMetadata_eq_ok.1 hm
      exact ⟨.metaset id es, extra, List.mem_singleton_self _, ⟨hidFits, hcount, hes⟩,
        by simp only [Payload.bytes, List.append_assoc], rfl⟩
  · rintro ⟨p, extra, hop, hfits, rfl, rfl⟩
    cases p with
    | metaset id es =>
      obtain ⟨hid, hcount, hes⟩ := hfits
      have hm := decodeTypedMetadata_eq_ok.2 ⟨es, extra, hcount, hes, rfl, rfl⟩
      simp only [Payload.bytes, List.append_assoc]
      exact (htyped id _ _ hid).mpr ⟨_, hm, rfl⟩
    | metasetText id expr =>
      obtain ⟨hid, hexpr, hne⟩ := hfits
      have hlen : readLe 4 (appendString expr ++ extra) = some (expr.length, expr ++ extra) := by
        rw [appendString, List.append_assoc]
        exact readLe_leBytes hexpr _
      have hno : ∀ n typed, readLe 4 (appendString expr ++ extra) = some (n, typed) →
          n ≠ kTypedMetadataMagic := by
        intro n typed h
        rw [hlen] at h
        cases h
        exact hne
      simp only [Payload.bytes, List.append_assoc]
      exact (htext id _ _ hid hno).mpr ⟨expr, extra, readString_appendString hexpr extra, rfl⟩
    | event _ _ _ _ _ => simp [Payload.ops] at hop
    | vecset _ _ => simp [Payload.ops] at hop
    | vecsetMetadata _ _ _ => simp [Payload.ops] at hop
    | vecdel _ => simp [Payload.ops] at hop

end Accepted

/-- **What is accepted**: the fields of a payload of the record's operation, with the command they
    are read as. -/
theorem decodeWalRecord_eq_ok {record : WalRecord} {cmd : Command} :
    decodeWalRecord record = .ok cmd ↔
      ∃ (p : Payload) (extra : Bytes), p.StandsIn extra record ∧ cmd = p.command := by
  constructor
  · intro h
    unfold decodeWalRecord at h
    split at h
    · rename_i hop
      obtain ⟨type, ctx, id, score, timestamp, extra, hfits, hbytes, rfl⟩ :=
        decodeEvent_eq_ok.1 h
      exact ⟨.event type ctx id score timestamp, extra,
        ⟨⟨.kEventAdd, by simp [Payload.ops], toByte_of_ofByte? hop⟩, hfits, trivial,
          hbytes⟩, rfl⟩
    · rename_i hop
      obtain ⟨type, ctx, id, score, timestamp, extra, hfits, hbytes, rfl⟩ :=
        decodeEvent_eq_ok.1 h
      exact ⟨.event type ctx id score timestamp, extra,
        ⟨⟨.kEventDel, by simp [Payload.ops], toByte_of_ofByte? hop⟩, hfits, trivial,
          hbytes⟩, rfl⟩
    · rename_i hop
      obtain ⟨p, extra, hmem, hfits, hover, hbytes, rfl⟩ := decodeVecset_eq_ok.1 h
      exact ⟨p, extra, ⟨⟨.kVecSet, hmem, toByte_of_ofByte? hop⟩, hfits, hover, hbytes⟩,
        rfl⟩
    · rename_i hop
      obtain ⟨id, extra, hfits, hbytes, rfl⟩ := decodeVecdel_eq_ok.1 h
      exact ⟨.vecdel id, extra, ⟨⟨.kVecDel, by simp [Payload.ops],
        toByte_of_ofByte? hop⟩, hfits, trivial, hbytes⟩, rfl⟩
    · rename_i hop
      obtain ⟨p, extra, hmem, hfits, hbytes, rfl⟩ := decodeMetaset_eq_ok.1 h
      refine ⟨p, extra, ⟨⟨.kMetaSet, hmem, toByte_of_ofByte? hop⟩, hfits, ?_, hbytes⟩, rfl⟩
      cases p with
      | vecset _ _ => simp [Payload.ops] at hmem
      | _ => exact trivial
    · cases h
  · rintro ⟨p, extra, ⟨⟨op, hmem, hop⟩, hfits, hover, hbytes⟩, rfl⟩
    unfold decodeWalRecord
    rw [hop, WalOpType.ofByte?_toByte]
    cases p with
    | event type ctx id score timestamp =>
      have hread := decodeEvent_eq_ok.2
        ⟨type, ctx, id, score, timestamp, extra, hfits, hbytes, rfl⟩
      obtain rfl | rfl : op = .kEventAdd ∨ op = .kEventDel := by simpa [Payload.ops] using hmem
      · exact hread
      · exact hread
    | vecset id vector =>
      obtain rfl := List.mem_singleton.mp hmem
      exact decodeVecset_eq_ok.2 ⟨_, extra, hmem, hfits, hover, hbytes, rfl⟩
    | vecsetMetadata id vector es =>
      obtain rfl := List.mem_singleton.mp hmem
      exact decodeVecset_eq_ok.2 ⟨_, extra, hmem, hfits, hover, hbytes, rfl⟩
    | vecdel id =>
      obtain rfl := List.mem_singleton.mp hmem
      exact decodeVecdel_eq_ok.2 ⟨id, extra, hfits, hbytes, rfl⟩
    | metaset id es =>
      obtain rfl := List.mem_singleton.mp hmem
      exact decodeMetaset_eq_ok.2 ⟨_, extra, hmem, hfits, hbytes, rfl⟩
    | metasetText id expr =>
      obtain rfl := List.mem_singleton.mp hmem
      exact decodeMetaset_eq_ok.2 ⟨_, extra, hmem, hfits, hbytes, rfl⟩

/-! ## 4. Commands come back -/

/-- The fields the command's type uses are the same. Metadata is used in place of a filter text,
    and no time stamp counts as 0. -/
structure Command.SameAs (cmd cmd' : Command) : Prop where
  type : cmd'.type = cmd.type
  id : cmd'.id = cmd.id
  event : cmd.type = .kEvent → cmd'.ctx = cmd.ctx ∧ cmd'.score = cmd.score ∧
    cmd'.eventType = cmd.eventType ∧ cmd'.timestamp = some (cmd.timestamp.getD 0)
  vecset : cmd.type = .kVecset → cmd'.vector = cmd.vector ∧
    cmd'.dimension = cmd.vector.length ∧ cmd'.metadata = cmd.metadata
  metaset : cmd.type = .kMetaset → cmd'.metadata = cmd.metadata ∧
    (cmd.metadata = none → cmd'.filterExpr = cmd.filterExpr)

/-- **Every command comes back** that is encoded within the limit of a record. The score is an
    `int`. -/
theorem decode_encodeCommand {cmd : Command} (htype : cmd.type ≠ .kUnknown)
    (hlo : -(2 ^ 31) ≤ cmd.score) (hhi : cmd.score < 2 ^ 31)
    (hlen : kWalRecordHeaderSize + (encodeCommand cmd).length ≤ kMaxWalRecordBodySize)
    (sequence timestampUs : Nat) :
    ∃ cmd', decodeWalRecord (recordOf sequence timestampUs cmd) = .ok cmd' ∧ cmd.SameAs cmd' := by
  have hshort : (encodeCommand cmd).length < 2 ^ 26 := by
    unfold kWalRecordHeaderSize kMaxWalRecordBodySize at hlen
    omega
  cases hkind : cmd.type with
  | kUnknown => exact absurd hkind htype
  | kEvent =>
    refine ⟨_, decode_event hkind (by omega) hlo hhi, ⟨hkind.symm, rfl, fun _ => ?_, ?_, ?_⟩⟩
    · exact ⟨rfl, rfl, rfl, rfl⟩
    · rw [hkind]
      nofun
    · rw [hkind]
      nofun
  | kVecset =>
    refine ⟨_, decode_vecset hkind (by omega), ⟨hkind.symm, rfl, ?_, fun _ => ?_, ?_⟩⟩
    · rw [hkind]
      nofun
    · exact ⟨rfl, rfl, rfl⟩
    · rw [hkind]
      nofun
  | kVecdel =>
    refine ⟨_, decode_vecdel hkind (by omega), ⟨hkind.symm, rfl, ?_, ?_, ?_⟩⟩
    · rw [hkind]
      nofun
    · rw [hkind]
      nofun
    · rw [hkind]
      nofun
  | kMetaset =>
    have hmagic : 2 ^ 26 < kTypedMetadataMagic := by decide
    refine ⟨_, decode_metaset hkind (by omega), ⟨hkind.symm, rfl, ?_, ?_, fun _ => ⟨rfl, ?_⟩⟩⟩
    · rw [hkind]
      nofun
    · rw [hkind]
      nofun
    · intro hnone
      exact if_pos hnone

/-- A vector with all four kinds of metadata. -/
theorem decode_encodeCommand_vecset :
    let cmd : Command :=
      { type := .kVecset, id := [97], vector := [0, 0x3F800000]
        metadata := some (emplaceAll .empty [([98], .string [99]), ([100], .int64 (-1)),
          ([101], .double 0), ([102], .bool true)]) }
    ∃ cmd', decodeWalRecord (recordOf 1 0 cmd) = .ok cmd' ∧ cmd.SameAs cmd' :=
  decode_encodeCommand (by decide) (by decide) (by decide) (by decide) 1 0

/-! ## 5. Payloads that come back -/

namespace Payload

/-- What a writer keeps to: an event is of a type that has a name and of the record's operation, and
    no metadata key is repeated. -/
def Canonical (op : UInt8) : Payload → Prop
  | .event type .. => type ≤ 2 ∧ (type = 2 ↔ op = WalOpType.kEventDel.toByte)
  | .vecsetMetadata _ _ es | .metaset _ es => (es.map Prod.fst).Nodup
  | .vecset .. | .vecdel _ | .metasetText .. => True

theorem toByte_ofByte (raw : UInt8) : (EventType.ofByte raw).toByte = raw := by
  unfold EventType.ofByte
  split
  · rfl
  · rename_i hle
    split
    · rename_i h
      exact h.symm
    · split
      · rename_i h
        exact h.symm
      · rename_i h0 h1
        have hlt : ¬ (2 : UInt8).toNat < raw.toNat := fun h => hle (UInt8.lt_iff_toNat_lt.mpr h)
        have h0' : raw.toNat ≠ 0 := fun h => h0 (UInt8.toNat_inj.mp h)
        have h1' : raw.toNat ≠ 1 := fun h => h1 (UInt8.toNat_inj.mp h)
        have h2 : (2 : UInt8).toNat = 2 := rfl
        have heq : raw.toNat = 2 := by omega
        exact (UInt8.toNat_inj.mp heq).symm

/-- The metadata bytes of a map the entries were gathered in. -/
theorem encode_emplaceAll (es : List (Bytes × MetadataValue)) :
    (encodeTypedMetadata (emplaceAll .empty es)).length ≤ 8 + (encodeEntries es).length ∧
      ((encodeTypedMetadata (emplaceAll .empty es)).length = 8 + (encodeEntries es).length →
        (es.map Prod.fst).Nodup) ∧
      ((es.map Prod.fst).Nodup → encodeTypedMetadata (emplaceAll .empty es) =
        leBytes 4 kTypedMetadataMagic ++ entriesBytes es) := by
  obtain ⟨hle, hnodup⟩ := length_encode_emplaceAll .empty es
  have hnil : (encodeEntries (AssocMap.empty : Metadata).entries).length = 0 := rfl
  have hlen : (encodeTypedMetadata (emplaceAll .empty es)).length =
      8 + (encodeEntries (emplaceAll .empty es).entries).length := by
    simp only [encodeTypedMetadata, List.length_append, length_leBytes]
  rw [hnil, Nat.zero_add] at hle hnodup
  refine ⟨by omega, fun h => hnodup (by omega), fun h => ?_⟩
  have hentries : (emplaceAll .empty es).entries = es := entries_emplaceAll h
  simp only [encodeTypedMetadata, AssocMap.size, hentries, entriesBytes, List.append_assoc]

/-- The command is written in no more bytes than it was read from, and in as many only if no key
    was repeated. -/
theorem length_encode_command (p : Payload) :
    (encodeCommand p.command).length ≤ p.bytes.length ∧
      ((encodeCommand p.command).length = p.bytes.length → ∀ id vector es,
        p = .vecsetMetadata id vector es ∨ p = .metaset id es → (es.map Prod.fst).Nodup) := by
  cases p with
  | event type ctx id score timestamp =>
    simp [command, bytes, encodeCommand]
  | vecset id vector => simp [command, bytes, encodeCommand]
  | vecsetMetadata id vector es =>
    obtain ⟨hle, hnodup, -⟩ := encode_emplaceAll es
    simp only [command, bytes, encodeCommand, List.length_append, entriesBytes, length_leBytes]
    refine ⟨by omega, ?_⟩
    rintro hsame id' vector' es' (heq | heq)
    · cases heq
      exact hnodup (by omega)
    · cases heq
  | vecdel id => simp [command, bytes, encodeCommand]
  | metaset id es =>
    obtain ⟨hle, hnodup, -⟩ := encode_emplaceAll es
    simp only [command, bytes, encodeCommand, List.length_append, entriesBytes, length_leBytes]
    refine ⟨by omega, ?_⟩
    rintro hsame id' vector' es' (heq | heq)
    · cases heq
    · cases heq
      exact hnodup (by omega)
  | metasetText id expr => simp [command, bytes, encodeCommand]

/-- What a writer keeps to is what it writes. -/
theorem encode_command {p : Payload} {op : UInt8} (h : p.Canonical op) :
    encodeCommand p.command = p.bytes := by
  cases p with
  | event type ctx id score timestamp =>
    have hscore : score.toNat < 2 ^ 32 := score.toNat_lt
    simp only [command, bytes, encodeCommand, toByte_ofByte, int32Bits_int32OfBits hscore,
      Option.getD_some]
  | vecset id vector => simp [command, bytes, encodeCommand]
  | vecsetMetadata id vector es =>
    simp only [command, bytes, encodeCommand, (encode_emplaceAll es).2.2 h]
  | vecdel id => rfl
  | metaset id es => simp only [command, bytes, encodeCommand, (encode_emplaceAll es).2.2 h]
  | metasetText id expr => rfl

end Payload

/-- One of the types an event has by name. -/
def Named (type : EventType) : Prop := type = .ADD ∨ type = .SET ∨ type = .DEL

theorem named_ofByte {raw : UInt8} : Named (.ofByte raw) ↔ raw ≤ 2 := by
  unfold Named EventType.ofByte
  constructor
  · intro h
    split at h
    · rcases h with h | h | h <;> cases h
    · rename_i hle
      exact UInt8.not_lt.mp hle
  · intro hle
    rw [dif_neg (UInt8.not_lt.mpr hle)]
    split
    · exact .inl rfl
    · split
      · exact .inr (.inl rfl)
      · exact .inr (.inr rfl)

theorem ofByte_eq_DEL {raw : UInt8} : EventType.ofByte raw = .DEL ↔ raw = 2 := by
  constructor
  · intro h
    rw [← Payload.toByte_ofByte raw, h]
    rfl
  · rintro rfl
    rfl

theorem walOp_event (type : UInt8) (ctx id : Bytes) (score : UInt32) (timestamp : UInt64) :
    walOpForCommand (Payload.event type ctx id score timestamp).command =
      if type = 2 then .kEventDel else .kEventAdd := by
  show (if EventType.ofByte type = .DEL then WalOpType.kEventDel else .kEventAdd) = _
  by_cases h : type = 2
  · rw [if_pos (ofByte_eq_DEL.2 h), if_pos h]
  · rw [if_neg fun hdel => h (ofByte_eq_DEL.1 hdel), if_neg h]

/-- Whatever the record is read as is a command of its operation that is written as its payload. -/
def Reencodes (record : WalRecord) : Prop :=
  ∀ cmd, decodeWalRecord record = .ok cmd →
    Named cmd.eventType ∧ (walOpForCommand cmd).toByte = record.op ∧
      encodeCommand cmd = record.payload

/-- **Which records are read strictly**: those with no byte behind the fields, whose event type has
    a name and fits the operation, and whose metadata keys are distinct. -/
theorem reencodes_iff (record : WalRecord) :
    Reencodes record ↔ ∀ (p : Payload) (extra : Bytes), p.StandsIn extra record →
      extra = [] ∧ p.Canonical record.op := by
  constructor
  · intro h p extra hp
    obtain ⟨hnamed, hop, hbytes⟩ := h _ (decodeWalRecord_eq_ok.2 ⟨p, extra, hp, rfl⟩)
    obtain ⟨hle, hnodup⟩ := p.length_encode_command
    have hlen : (encodeCommand p.command).length = p.bytes.length + extra.length := by
      rw [hbytes, hp.payload, List.length_append]
    refine ⟨List.length_eq_zero_iff.mp (by omega), ?_⟩
    have hnodup' := hnodup (by omega)
    cases p with
    | event type ctx id score timestamp =>
      refine ⟨named_ofByte.1 hnamed, ?_⟩
      rw [walOp_event] at hop
      by_cases hdel : type = 2
      · rw [if_pos hdel] at hop
        exact ⟨fun _ => hop.symm, fun _ => hdel⟩
      · rw [if_neg hdel] at hop
        refine ⟨fun h2 => absurd h2 hdel, fun hop' => ?_⟩
        rw [hop'] at hop
        exact absurd hop (by decide)
    | vecsetMetadata id vector es => exact hnodup' id vector es (.inl rfl)
    | metaset id es => exact hnodup' id [] es (.inr rfl)
    | vecset _ _ => exact trivial
    | vecdel _ => exact trivial
    | metasetText _ _ => exact trivial
  · intro h cmd hcmd
    obtain ⟨p, extra, hp, rfl⟩ := decodeWalRecord_eq_ok.1 hcmd
    obtain ⟨rfl, hcanonical⟩ := h p extra hp
    have hbytes : encodeCommand p.command = record.payload := by
      rw [Payload.encode_command hcanonical, hp.payload, List.append_nil]
    obtain ⟨op, hmem, hop⟩ := hp.op
    refine ⟨?_, ?_, hbytes⟩
    · cases p with
      | event type ctx id score timestamp => exact named_ofByte.2 hcanonical.1
      | _ => exact .inl rfl
    · cases p with
      | event type ctx id score timestamp =>
        rw [walOp_event]
        by_cases hdel : type = 2
        · rw [if_pos hdel]
          exact (hcanonical.2.mp hdel).symm
        · rw [if_neg hdel]
          have hnot : record.op ≠ WalOpType.kEventDel.toByte := fun heq =>
            hdel (hcanonical.2.mpr heq)
          rcases List.mem_cons.mp hmem with rfl | hmem
          · exact hop.symm
          · rw [List.mem_singleton.mp hmem] at hop
            exact absurd hop hnot
      | _ =>
        obtain rfl := List.mem_singleton.mp hmem
        exact hop.symm

/-- `VECDEL` of the item `a`, with one byte more: it is accepted, and written without that byte. -/
theorem trailing_byte_accepted : ¬ ∀ record, Reencodes record := by
  intro h
  have hread : decodeWalRecord ⟨1, 0, WalOpType.kVecDel.toByte, [1, 0, 0, 0, 97, 0]⟩ =
      .ok { type := .kVecdel, id := [97] } := by
    refine decodeWalRecord_eq_ok.2
      ⟨.vecdel [97], [0], ⟨⟨.kVecDel, ?_, rfl⟩, ?_, trivial, rfl⟩, rfl⟩
    · exact List.mem_singleton_self _
    · exact Nat.one_lt_two_pow (by decide)
  obtain ⟨-, -, hbytes⟩ := h _ _ hread
  exact absurd hbytes (by decide)

end Nvecd.Server
