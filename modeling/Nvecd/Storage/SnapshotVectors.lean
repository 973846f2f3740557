/-
  File:      Nvecd/Storage/SnapshotVectors.lean
  Subject:   The vectors and metadata sections of `storage/snapshot_format_v1.cpp`
             (`SerializeVectorStore` … `DeserializeMetadataStore`).

  Both sections are rebuilt through the stores' own mutators. The vectors section carries the
  dimension, but reading only checks vectors against it; the metadata section carries the items
  that have fields.

  * `deserialize_serializeVectorStore` -- the vectors come back, and with them the dimension,
    unless there is no vector;
  * `deserialize_serializeMetadataStore` -- the fields come back, except that an item without
    fields is not there any more;
  * `respond`, `alike_restored_iff` -- so later requests are answered alike exactly if neither
    loss shows.
-/
import Nvecd.Lib.Machine
import Nvecd.Storage.SnapshotStream
import Nvecd.Vectors.MetadataFilter
import Nvecd.Vectors.VectorMap

namespace Nvecd.Storage.Snapshot

open Nvecd.Lib Nvecd.Utils Nvecd.Vectors

/-! ## 1. Vectors -/

/-- The components of a vector one after the other. -/
def writeComponents (vec : List UInt32) : Bytes := vec.flatMap fun c => leBytes 4 c.toNat

/-- One entry of the section. -/
def serializeVector (s : VectorStore) (id : Bytes) : Except Error Bytes := do
  let name ← orError (writeError ("Failed to write vector ID: " ++ textOf id)) (writeString id)
  let vec ← orError (writeError ("Vector not found during serialization: " ++ textOf id))
    (s.getVector id)
  return name ++ writeComponents vec

/-- `SerializeVectorStore`. -/
def serializeVectorStore (ids : Order Bytes) (s : VectorStore) : Except Error Bytes := do
  let all := ids.arrange s.ids
  let count ← checkedSizeToU32 all.length kMaxU32 "vector count"
  let vectors ← writeAll (serializeVector s) all
  return leBytes 8 s.dimension ++ (leBytes 4 count ++ vectors)

def readComponent (vec : List UInt32) (stream : Bytes) : Except Error (List UInt32 × Bytes) := do
  let (c, stream) ← orError (readError "Failed to read vector component") (readNumber 4 stream)
  return (vec ++ [UInt32.ofNat c], stream)

section Norm

variable (l2Norm : List UInt32 → UInt32)

/-- One entry read into the store, and its id into the ids seen. -/
def deserializeVector (dimension : Nat) (state : VectorStore × List Bytes) (stream : Bytes) :
    Except Error ((VectorStore × List Bytes) × Bytes) := do
  let (id, stream) ← orError (readError "Failed to read vector ID") (readString stream)
  if id ∈ state.2 then .error (readError ("Duplicate vector ID: " ++ textOf id))
  else if ¬ hasRemainingBytes stream (dimension * 4) then
    .error (readError "Vector exceeds remaining store data")
  else
    let (vec, stream) ← readMany readComponent dimension [] stream
    match state.1.setVector l2Norm id vec with
    | (_, .error e) => .error (readError ("Failed to add vector: " ++ e.message))
    | (s, .ok ()) => return ((s, id :: state.2), stream)

/-- `DeserializeVectorStore`. -/
def deserializeVectorStore (s : VectorStore) (stream : Bytes) :
    Except Error (VectorStore × Bytes) := do
  let s := s.clear
  let (dimension, stream) ← orError (readError "Failed to read dimension") (readNumber 8 stream)
  if dimension > kMaxVectorDimension then
    .error (readError ("Vector dimension exceeds maximum: " ++ toString dimension))
  else
    let (count, stream) ← orError (readError "Failed to read vector count") (readNumber 4 stream)
    if count > 0 ∧ dimension = 0 then
      .error (readError "Non-empty vector store has zero dimension")
    else if ¬ hasRemainingBytes stream (count * (4 + dimension * 4)) then
      .error (readError "Vector count exceeds remaining store data")
    else
      let (state, stream) ← readMany (deserializeVector l2Norm dimension) count (s, []) stream
      return (state.1, stream)

end Norm

theorem length_writeComponents (vec : List UInt32) :
    (writeComponents vec).length = vec.length * 4 := by
  induction vec with
  | nil => rfl
  | cons c vec ih =>
    show (leBytes 4 c.toNat ++ writeComponents vec).length = _
    rw [List.length_append, length_leBytes, ih, List.length_cons]
    omega

theorem readMany_readComponent (vec front : List UInt32) (rest : Bytes) :
    readMany readComponent vec.length front (writeComponents vec ++ rest) =
      .ok (front ++ vec, rest) := by
  induction vec generalizing front with
  | nil => simp [readMany, writeComponents]
  | cons c vec ih =>
    have hone : readComponent front (writeComponents (c :: vec) ++ rest) =
        .ok (front ++ [c], writeComponents vec ++ rest) := by
      show readComponent front ((leBytes 4 c.toNat ++ writeComponents vec) ++ rest) = _
      have hc : c.toNat < 256 ^ 4 := c.toNat_lt
      simp [readComponent, List.append_assoc, readNumber_leBytes hc, pure, Except.pure]
    simp [readMany, hone, ih]

section RoundTrip

variable {s : VectorStore} {l2Norm : List UInt32 → UInt32}

theorem serializeVector_eq_ok {id b : Bytes} (h : serializeVector s id = .ok b) :
    ∃ name vec, writeString id = some name ∧ s.getVector id = some vec ∧
      b = name ++ writeComponents vec := by
  obtain ⟨name, hname, h⟩ := bind_eq_ok.1 h
  obtain ⟨vec, hvec, h⟩ := bind_eq_ok.1 h
  cases h
  exact ⟨name, vec, orError_eq_ok.1 hname, orError_eq_ok.1 hvec, rfl⟩

/-- A store that holds the vectors of `s` except those still to come. -/
structure Restored (s : VectorStore) (state : VectorStore × List Bytes) (xs : List Bytes) :
    Prop where
  inv : state.1.Inv
  vectors : ∀ id, id ∉ xs → state.1.getVector id = s.getVector id
  nodup : xs.Nodup
  fresh : ∀ id ∈ xs, id ∉ state.2
  dimension : state.1.dimension = 0 ∨ state.1.dimension = s.dimension ∧ ∃ id, id ∈ state.1.ids

theorem deserializeVector_serializeVector (hs : s.Valid l2Norm) (hi : s.Inv)
    {state : VectorStore × List Bytes} {id : Bytes} {xs : List Bytes} {b : Bytes}
    (hr : Restored s state (id :: xs)) (h : serializeVector s id = .ok b) (rest : Bytes) :
    ∃ state', deserializeVector l2Norm s.dimension state (b ++ rest) = .ok (state', rest) ∧
      Restored s state' xs := by
  obtain ⟨name, vec, hname, hvec, rfl⟩ := serializeVector_eq_ok h
  have hlen := hs.length id vec hvec
  have hpos : vec.length ≠ 0 := by
    have hin : id ∈ s.ids := hi.mem_ids_iff_getVector.mpr ⟨vec, hvec⟩
    rw [hlen]
    intro h0
    rw [hi.ids_eq_nil (.inl h0)] at hin
    cases hin
  -- what the store held once is accepted by the store that is being rebuilt
  have hok : state.1.validateVector l2Norm id vec = .ok () := by
    refine VectorStore.validateVector_eq_ok (hs.id id vec hvec) hpos (hlen ▸ hs.bounded)
      (hs.finite id vec hvec) (hs.norm id vec hvec) ?_
    rcases hr.dimension with h0 | ⟨hd, -⟩
    · exact .inl h0
    · exact .inr (hlen.trans hd.symm)
  obtain ⟨hid, hnodup⟩ := List.nodup_cons.mp hr.nodup
  have hnew : id ∉ state.2 := hr.fresh id List.mem_cons_self
  have hrem : hasRemainingBytes (writeComponents vec ++ rest) (s.dimension * 4) = true := by
    simp [hasRemainingBytes, length_writeComponents, hlen]
  have hread : readMany readComponent s.dimension [] (writeComponents vec ++ rest) =
      .ok (vec, rest) := hlen ▸ readMany_readComponent vec [] rest
  refine ⟨((state.1.setVector l2Norm id vec).1, id :: state.2), ?_, ?_⟩
  · have hset : state.1.setVector l2Norm id vec =
        ((state.1.setVector l2Norm id vec).1, .ok ()) := by
      rw [VectorStore.setVector_eq hok]
    unfold deserializeVector
    rw [List.append_assoc, readString_writeString hname]
    simp only [orError_some, ok_bind, if_neg hnew, hrem, not_true_eq_false, if_false, hread]
    rw [hset]
    rfl
  · have hmem : id ∈ (state.1.setVector l2Norm id vec).1.ids :=
      (VectorStore.mem_ids_setVector hok).mpr (.inl rfl)
    refine ⟨hr.inv.setVector, fun id' hid' => ?_, hnodup, fun id' hid' => ?_, .inr ⟨?_, id, hmem⟩⟩
    · rw [hr.inv.getVector_setVector hok]
      split
      · rename_i he
        rw [he, hvec]
      · rename_i hne
        exact hr.vectors id' fun hin => (List.mem_cons.mp hin).elim hne hid'
    · rw [List.mem_cons, not_or]
      exact ⟨fun he => hid (he ▸ hid'), hr.fresh id' (List.mem_cons_of_mem _ hid')⟩
    · rw [VectorStore.dimension_setVector hok, hlen]

/-- **The vectors section read back**: the same vectors, and the same dimension unless there is no
    vector. -/
theorem deserialize_serializeVectorStore (hi : s.Inv) (hs : s.Valid l2Norm) {ids : Order Bytes}
    {bytes : Bytes} (h : serializeVectorStore ids s = .ok bytes) (fresh : VectorStore)
    (rest : Bytes) :
    ∃ t, deserializeVectorStore l2Norm fresh (bytes ++ rest) = .ok (t, rest) ∧ t.Inv ∧
      (∀ id, t.getVector id = s.getVector id) ∧
      t.dimension = if s.ids = [] then 0 else s.dimension := by
  obtain ⟨count, hcount, h⟩ := bind_eq_ok.1 h
  obtain ⟨vectors, hvectors, h⟩ := bind_eq_ok.1 h
  cases h
  obtain ⟨rfl, -, hfit⟩ := checkedSizeToU32_ok hcount
  have hperm := ids.perm s.ids
  have hmem : ∀ id, id ∈ ids.arrange s.ids ↔ id ∈ s.ids := fun id => hperm.mem_iff
  have hstart : Restored s (fresh.clear, []) (ids.arrange s.ids) := by
    refine ⟨.clear fresh, fun id hid => ?_,
      hperm.nodup_iff.mpr s.idToIdx.nodupKeys, nofun, .inl rfl⟩
    rw [hmem] at hid
    exact (hi.getVector_eq_none.mpr hid).symm
  obtain ⟨⟨t, seen⟩, hread, hdone⟩ := readMany_writeAll
    (fun state id xs b rest hr hb => deserializeVector_serializeVector hs hi hr hb rest)
    hstart hvectors rest
  have hvec : ∀ id, t.getVector id = s.getVector id := fun id =>
    hdone.vectors id List.not_mem_nil
  have hids : ∀ id, id ∈ t.ids ↔ id ∈ s.ids := fun id => by
    rw [hdone.inv.mem_ids_iff_getVector, hi.mem_ids_iff_getVector, hvec]
  refine ⟨t, ?_, hdone.inv, hvec, ?_⟩
  · have hdim : s.dimension < 256 ^ 8 := by
      have hle := hs.bounded
      simp only [kMaxVectorDimension] at hle
      omega
    have hzero : ¬ ((ids.arrange s.ids).length > 0 ∧ s.dimension = 0) := by
      rintro ⟨hpos, h0⟩
      rw [hperm.length_eq, hi.ids_eq_nil (.inl h0)] at hpos
      exact absurd hpos (Nat.lt_irrefl 0)
    have hsize : (ids.arrange s.ids).length * (4 + s.dimension * 4) ≤ vectors.length := by
      refine length_writeAll (fun id _ b hb => ?_) hvectors
      obtain ⟨name, vec, hname, hv, rfl⟩ := serializeVector_eq_ok hb
      rw [List.length_append, length_writeString hname, length_writeComponents,
        hs.length id vec hv]
      omega
    have hrem : hasRemainingBytes (vectors ++ rest)
        ((ids.arrange s.ids).length * (4 + s.dimension * 4)) = true := by
      simp only [hasRemainingBytes, List.length_append, decide_eq_true_eq]
      omega
    simp only [deserializeVectorStore, List.append_assoc, readNumber_leBytes hdim,
      readNumber_leBytes hfit, orError_some, ok_bind, Nat.not_lt.mpr hs.bounded, if_false,
      if_neg hzero, hrem, not_true_eq_false, hread, gt_iff_lt]
    rfl
  · show t.dimension = _
    rcases hdone.dimension with h0 | ⟨hd, id, hid⟩
    · have hnil : s.ids = [] := by
        rw [List.eq_nil_iff_forall_not_mem]
        intro id hid
        have ht := (hids id).mpr hid
        rw [hdone.inv.ids_eq_nil (.inl h0)] at ht
        cases ht
      rw [if_pos hnil]
      exact h0
    · have hne : s.ids ≠ [] := List.ne_nil_of_mem ((hids id).mp hid)
      rw [if_neg hne]
      exact hd

/-- **Whatever is read as a vectors section** was accepted by the store, vector by vector. -/
theorem deserializeVectorStore_eq_ok {t : VectorStore} {stream rest : Bytes}
    (h : deserializeVectorStore l2Norm s stream = .ok (t, rest)) : t.Inv ∧ t.Valid l2Norm := by
  obtain ⟨⟨dimension, s₁⟩, -, h⟩ := bind_eq_ok.1 h
  simp only at h
  split at h
  · cases h
  · obtain ⟨⟨count, s₂⟩, -, h⟩ := bind_eq_ok.1 h
    simp only at h
    split at h
    · cases h
    · split at h
      · cases h
      · obtain ⟨⟨⟨t', seen⟩, s₃⟩, hmany, h⟩ := bind_eq_ok.1 h
        cases h
        refine readMany_inv (fun state => state.1.Inv ∧ state.1.Valid l2Norm)
          (fun state stream state' rest hs hone => ?_) ⟨.clear s, .clear s⟩ hmany
        obtain ⟨⟨id, s₄⟩, -, hone⟩ := bind_eq_ok.1 hone
        simp only at hone
        split at hone
        · cases hone
        · split at hone
          · cases hone
          · obtain ⟨⟨vec, s₅⟩, -, hone⟩ := bind_eq_ok.1 hone
            simp only at hone
            split at hone
            · cases hone
            · rename_i u hset
              cases hone
              have hu : u = (state.1.setVector l2Norm id vec).1 := by rw [hset]
              rw [hu]
              exact ⟨hs.1.setVector, hs.2.setVector hs.1⟩

end RoundTrip

/-! ## 2. Metadata -/

/-- A value behind its `MetadataValueType`. -/
def serializeValue : MetadataValue → Except Error Bytes
  | .string value => do
    let str ← orError (writeError "Failed to write string metadata") (writeString value)
    return 1 :: str
  | .int64 value => .ok (2 :: leBytes 8 value.toUInt64.toNat)
  | .double bits => .ok (3 :: leBytes 8 bits.toNat)
  | .bool value => .ok [4, if value then 1 else 0]

def serializeField (e : Bytes × MetadataValue) : Except Error Bytes := do
  let key ← orError (writeError "Failed to write metadata key") (writeString e.1)
  let value ← serializeValue e.2
  return key ++ value

def serializeItem (fields : Bytes → Order (Bytes × MetadataValue)) (e : Bytes × Metadata) :
    Except Error Bytes := do
  let name ← orError (writeError ("Failed to write metadata item ID: " ++ textOf e.1))
    (writeString e.1)
  let all := (fields e.1).arrange e.2.entries
  let count ← checkedSizeToU32 all.length kMaxU32 "metadata field count"
  let values ← writeAll serializeField all
  return name ++ (leBytes 4 count ++ values)

/-- `SerializeMetadataStore`. -/
def serializeMetadataStore (items : Order (Bytes × Metadata))
    (fields : Bytes → Order (Bytes × MetadataValue)) (s : MetadataStore) : Except Error Bytes := do
  let entries := (items.arrange s.metadata.entries).filter fun e => e.2.entries ≠ []
  let count ← checkedSizeToU32 entries.length kMaxU32 "metadata item count"
  let values ← writeAll (serializeItem fields) entries
  return leBytes 4 count ++ values

def deserializeValue (type : Nat) (stream : Bytes) : Except Error (MetadataValue × Bytes) :=
  match type with
  | 1 => do
    let (value, stream) ← orError (readError "Failed to read string metadata") (readString stream)
    return (.string value, stream)
  | 2 => do
    let (value, stream) ← orError (readError "Failed to read integer metadata")
      (readNumber 8 stream)
    return (.int64 (UInt64.ofNat value).toInt64, stream)
  | 3 => do
    let (value, stream) ← orError (readError "Failed to read double metadata")
      (readNumber 8 stream)
    return (.double (UInt64.ofNat value), stream)
  | 4 => do
    let (value, stream) ← orError (readError "Failed to read bool metadata") (readNumber 1 stream)
    return (.bool (decide (value ≠ 0)), stream)
  | type => .error (readError ("Unknown metadata value type: " ++ toString type))

def deserializeField (fields : Metadata) (stream : Bytes) : Except Error (Metadata × Bytes) := do
  let (key, stream) ← orError (readError "Failed to read metadata key") (readString stream)
  let (type, stream) ← orError (readError "Failed to read metadata value type")
    (readNumber 1 stream)
  let (value, stream) ← deserializeValue type stream
  return (fields.insert key value, stream)

/-- The length of a key, a type and a truth value. -/
def kMinSerializedMetadataFieldSize : Nat := 6

def deserializeItem (s : MetadataStore) (stream : Bytes) : Except Error (MetadataStore × Bytes) := do
  let (id, stream) ← orError (readError "Failed to read metadata item ID") (readString stream)
  let (count, stream) ← orError (readError "Failed to read metadata field count")
    (readNumber 4 stream)
  if ¬ hasRemainingBytes stream (count * kMinSerializedMetadataFieldSize) then
    .error (readError ("Metadata field count exceeds remaining data for: " ++ textOf id))
  else
    let (fields, stream) ← readMany deserializeField count .empty stream
    return (if fields.entries ≠ [] then s.set id fields else s, stream)

/-- `DeserializeMetadataStore`, which clears the store first. -/
def deserializeMetadataStore (stream : Bytes) : Except Error (MetadataStore × Bytes) := do
  let (count, stream) ← orError (readError "Failed to read metadata item count")
    (readNumber 4 stream)
  if ¬ hasRemainingBytes stream (count * 8) then
    .error (readError "Metadata item count exceeds remaining data")
  else readMany deserializeItem count {} stream

theorem deserializeField_serializeField {fields : Metadata} {e : Bytes × MetadataValue}
    {b : Bytes} (h : serializeField e = .ok b) (rest : Bytes) :
    deserializeField fields (b ++ rest) = .ok (fields.insert e.1 e.2, rest) := by
  obtain ⟨key, value⟩ := e
  obtain ⟨k, hk, h⟩ := bind_eq_ok.1 h
  obtain ⟨v, hv, h⟩ := bind_eq_ok.1 h
  cases h
  have hkey := readString_writeString (orError_eq_ok.1 hk)
  cases value with
  | string value =>
    obtain ⟨str, hstr, hv⟩ := bind_eq_ok.1 hv
    cases hv
    simp [deserializeField, hkey, readNumber_one, deserializeValue,
      readString_writeString (orError_eq_ok.1 hstr), pure, Except.pure]
  | int64 value =>
    cases hv
    have hfit : value.toUInt64.toNat < 256 ^ 8 := value.toUInt64.toNat_lt
    have hback : (UInt64.ofNat value.toUInt64.toNat).toInt64 = value := by
      rw [UInt64.ofNat_toNat, Int64.toInt64_toUInt64]
    simp only [deserializeField, List.append_assoc, List.cons_append, hkey, orError_some, ok_bind,
      readNumber_one]
    show (do
      let (v, stream) ← deserializeValue 2 (leBytes 8 value.toUInt64.toNat ++ rest)
      return (fields.insert key v, stream)) = _
    simp only [deserializeValue, readNumber_leBytes hfit, orError_some, ok_bind, hback, pure,
      Except.pure]
  | double bits =>
    cases hv
    have hfit : bits.toNat < 256 ^ 8 := bits.toNat_lt
    simp [deserializeField, hkey, readNumber_one, deserializeValue, readNumber_leBytes hfit, pure,
      Except.pure]
  | bool value =>
    cases hv
    cases value <;>
      simp [deserializeField, hkey, readNumber_one, deserializeValue, pure, Except.pure]

theorem length_serializeField {e : Bytes × MetadataValue} {b : Bytes}
    (h : serializeField e = .ok b) : kMinSerializedMetadataFieldSize ≤ b.length := by
  obtain ⟨key, value⟩ := e
  obtain ⟨k, hk, h⟩ := bind_eq_ok.1 h
  obtain ⟨v, hv, h⟩ := bind_eq_ok.1 h
  cases h
  have hkey := length_writeString (orError_eq_ok.1 hk)
  have hvalue : 2 ≤ v.length := by
    cases value with
    | string value =>
      obtain ⟨str, hstr, hv⟩ := bind_eq_ok.1 hv
      cases hv
      have hlen := length_writeString (orError_eq_ok.1 hstr)
      rw [List.length_cons]
      omega
    | int64 value => cases hv; simp
    | double bits => cases hv; simp
    | bool value => cases hv; simp
  rw [List.length_append, kMinSerializedMetadataFieldSize]
  omega

theorem serializeItem_eq_ok {fields : Bytes → Order (Bytes × MetadataValue)}
    {e : Bytes × Metadata} {b : Bytes} (h : serializeItem fields e = .ok b) :
    ∃ name values, writeString e.1 = some name ∧
      writeAll serializeField ((fields e.1).arrange e.2.entries) = .ok values ∧
      e.2.entries.length < 256 ^ 4 ∧
      b = name ++ (leBytes 4 e.2.entries.length ++ values) := by
  obtain ⟨name, hname, h⟩ := bind_eq_ok.1 h
  obtain ⟨count, hcount, h⟩ := bind_eq_ok.1 h
  obtain ⟨values, hvalues, h⟩ := bind_eq_ok.1 h
  cases h
  obtain ⟨rfl, -, hfit⟩ := checkedSizeToU32_ok hcount
  rw [((fields e.1).perm e.2.entries).length_eq] at hfit ⊢
  exact ⟨name, values, orError_eq_ok.1 hname, hvalues, hfit, rfl⟩

/-- The fields that do not come any more are there. -/
def FieldsRead (fields : Metadata) (m : Metadata) (xs : List (Bytes × MetadataValue)) : Prop :=
  (∀ key, key ∉ xs.map Prod.fst → m.find? key = fields.find? key) ∧
    ∀ e ∈ xs, fields.find? e.1 = some e.2

theorem FieldsRead.next {fields m : Metadata} {e : Bytes × MetadataValue}
    {xs : List (Bytes × MetadataValue)} (h : FieldsRead fields m (e :: xs)) :
    FieldsRead fields (m.insert e.1 e.2) xs := by
  obtain ⟨hm, hxs⟩ := h
  refine ⟨fun key hkey => ?_, fun e' he' => hxs e' (List.mem_cons_of_mem e he')⟩
  rw [AssocMap.find?_insert]
  split
  · rename_i he
    rw [he]
    exact (hxs e List.mem_cons_self).symm
  · rename_i hne
    refine hm key ?_
    rw [List.map_cons, List.mem_cons, not_or]
    exact ⟨hne, hkey⟩

/-- The fields of one item come back. -/
theorem readMany_deserializeField {fields : Metadata} {order : Order (Bytes × MetadataValue)}
    {values : Bytes} (h : writeAll serializeField (order.arrange fields.entries) = .ok values)
    (rest : Bytes) :
    ∃ fields', readMany deserializeField fields.entries.length .empty (values ++ rest) =
        .ok (fields', rest) ∧ ∀ key, fields'.find? key = fields.find? key := by
  have hperm := order.perm fields.entries
  have hstart : FieldsRead fields .empty (order.arrange fields.entries) := by
    refine ⟨fun key hkey => ?_, fun e he => AssocMap.mem_entries.mp (hperm.mem_iff.mp he)⟩
    rw [(hperm.map Prod.fst).mem_iff] at hkey
    exact (AssocMap.find?_eq_none.mpr hkey).symm
  obtain ⟨fields', hread, hdone, -⟩ := readMany_writeAll
    (fun m e xs b rest (hr : FieldsRead fields m (e :: xs)) hb =>
      ⟨m.insert e.1 e.2, deserializeField_serializeField hb rest, hr.next⟩) hstart h rest
  rw [hperm.length_eq] at hread
  exact ⟨fields', hread, fun key => hdone key List.not_mem_nil⟩

/-- What the section carries: the items that have fields. -/
def carried (s : MetadataStore) : MetadataStore := ⟨s.metadata.filter fun e => e.2.entries ≠ []⟩

theorem entries_eq_nil_iff {fields : Metadata} :
    fields.entries = [] ↔ ∀ key, fields.find? key = none := by
  rw [← AssocMap.size_eq_zero]
  exact List.length_eq_zero_iff.symm

theorem get_carried {s : MetadataStore} {id : Bytes} {fields : Metadata} :
    (carried s).get id = some fields ↔ s.get id = some fields ∧ fields.entries ≠ [] := by
  show (s.metadata.filter fun e => e.2.entries ≠ []).find? id = _ ↔ _
  rw [AssocMap.find?_filter, Option.filter_eq_some_iff, decide_eq_true_eq]
  rfl

/-- The items that do not come any more are there, and those to come are carried. -/
def ItemsRead (s t : MetadataStore) (xs : List (Bytes × Metadata)) : Prop :=
  (∀ id field, id ∉ xs.map Prod.fst → t.getField id field = (carried s).getField id field) ∧
    ∀ e ∈ xs, (carried s).get e.1 = some e.2

theorem deserializeItem_serializeItem {s t : MetadataStore}
    {fields : Bytes → Order (Bytes × MetadataValue)} {e : Bytes × Metadata}
    {xs : List (Bytes × Metadata)} {b : Bytes} (hr : ItemsRead s t (e :: xs))
    (h : serializeItem fields e = .ok b) (rest : Bytes) :
    ∃ t', deserializeItem t (b ++ rest) = .ok (t', rest) ∧ ItemsRead s t' xs := by
  obtain ⟨name, values, hname, hvalues, hfit, rfl⟩ := serializeItem_eq_ok h
  obtain ⟨fs, hfs, hsame⟩ := readMany_deserializeField hvalues rest
  have he := hr.2 e List.mem_cons_self
  have hne : fs.entries ≠ [] := by
    rw [Ne, entries_eq_nil_iff]
    simp only [hsame]
    rw [← entries_eq_nil_iff]
    exact (get_carried.1 he).2
  have hrem : hasRemainingBytes (values ++ rest)
      (e.2.entries.length * kMinSerializedMetadataFieldSize) = true := by
    have hlen := length_writeAll (fun f _ b hb => length_serializeField hb) hvalues
    rw [((fields e.1).perm e.2.entries).length_eq] at hlen
    simp only [hasRemainingBytes, List.length_append, decide_eq_true_eq]
    omega
  refine ⟨t.set e.1 fs, ?_, fun id field hid => ?_,
    fun e' he' => hr.2 e' (List.mem_cons_of_mem e he')⟩
  · simp only [deserializeItem, List.append_assoc, readString_writeString hname,
      readNumber_leBytes hfit, orError_some, ok_bind, hrem, not_true_eq_false, if_false, hfs,
      if_pos hne, pure, Except.pure]
  · rw [MetadataStore.getField_set]
    split
    · rename_i hid
      rw [hid, hsame, MetadataStore.getField, he]
      rfl
    · rename_i hne
      refine hr.1 id field ?_
      rw [List.map_cons, List.mem_cons, not_or]
      exact ⟨hne, hid⟩

/-- **The metadata section read back**: the same fields for the items that have some. -/
theorem deserialize_serializeMetadataStore {s : MetadataStore}
    {items : Order (Bytes × Metadata)} {fields : Bytes → Order (Bytes × MetadataValue)}
    {bytes : Bytes} (h : serializeMetadataStore items fields s = .ok bytes) (rest : Bytes) :
    ∃ t, deserializeMetadataStore (bytes ++ rest) = .ok (t, rest) ∧
      MetadataStore.SameMetadata (carried s) t := by
  obtain ⟨count, hcount, h⟩ := bind_eq_ok.1 h
  obtain ⟨values, hvalues, h⟩ := bind_eq_ok.1 h
  cases h
  obtain ⟨rfl, -, hfit⟩ := checkedSizeToU32_ok hcount
  generalize hxs : ((items.arrange s.metadata.entries).filter fun e => e.2.entries ≠ []) = xs
    at hvalues hfit ⊢
  have hmem : ∀ e, e ∈ xs ↔ (carried s).get e.1 = some e.2 := by
    intro e
    rw [get_carried, ← hxs, List.mem_filter, (items.perm _).mem_iff, decide_eq_true_eq]
    exact and_congr_left' AssocMap.mem_entries
  have hstart : ItemsRead s {} xs := by
    refine ⟨fun id field hid => ?_, fun e he => (hmem e).mp he⟩
    have hnone : (carried s).get id = none := by
      by_contra hne
      obtain ⟨fs, hfs⟩ := Option.ne_none_iff_exists'.mp hne
      exact hid (List.mem_map.mpr ⟨(id, fs), (hmem (id, fs)).mpr hfs, rfl⟩)
    rw [MetadataStore.getField, MetadataStore.getField, hnone]
    rfl
  obtain ⟨t, hread, hdone, -⟩ := readMany_writeAll
    (fun t e ys b rest hr hb => deserializeItem_serializeItem hr hb rest) hstart hvalues rest
  refine ⟨t, ?_, fun id field => hdone id field List.not_mem_nil⟩
  have hsize : xs.length * 8 ≤ values.length := by
    refine length_writeAll (fun e _ b hb => ?_) hvalues
    obtain ⟨name, vs, hname, -, -, rfl⟩ := serializeItem_eq_ok hb
    simp only [List.length_append, length_writeString hname, length_leBytes]
    omega
  have hrem : hasRemainingBytes (values ++ rest) (xs.length * 8) = true := by
    simp only [hasRemainingBytes, List.length_append, decide_eq_true_eq]
    omega
  simp only [deserializeMetadataStore, List.append_assoc, readNumber_leBytes hfit, orError_some,
    ok_bind, hrem, not_true_eq_false, if_false, hread]

/-! ## 3. What is answered after a restore -/

/-- The two stores of an item's vector and metadata. -/
structure ItemStores where
  vectors : VectorStore := {}
  metadata : MetadataStore := {}

/-- What can be asked of the stores. -/
inductive Request where
  | setVector (id : Bytes) (vec : List UInt32)
  | deleteVector (id : Bytes)
  | defragment
  | setMetadata (id : Bytes) (fields : Metadata)
  | deleteMetadata (id : Bytes)
  | getVector (id : Bytes)
  | getVectorCount
  | getDimension
  | getField (id field : Bytes)
  /-- Is `id` among the items the filter selects? -/
  | filter (conditions : MetadataFilter) (candidates : List Bytes) (id : Bytes)
  | matchesFilter (id : Bytes) (conditions : MetadataFilter)

inductive Answer where
  | done
  | stored (result : Except Error Unit)
  | flag (value : Bool)
  | number (value : Nat)
  | vector (value : Option (List UInt32))
  | field (value : Option (Option MetadataValue))

/-- A request carried out, and its answer. -/
def respond (l2Norm : List UInt32 → UInt32) (s : ItemStores) : Request → ItemStores × Answer
  | .setVector id vec =>
    let (vectors, result) := s.vectors.setVector l2Norm id vec
    ({ s with vectors := vectors }, .stored result)
  | .deleteVector id =>
    let (vectors, removed) := s.vectors.deleteVector id
    ({ s with vectors := vectors }, .flag removed)
  | .defragment => ({ s with vectors := s.vectors.defragment }, .done)
  | .setMetadata id fields => ({ s with metadata := s.metadata.set id fields }, .done)
  | .deleteMetadata id => ({ s with metadata := s.metadata.delete id }, .done)
  | .getVector id => (s, .vector (s.vectors.getVector id))
  | .getVectorCount => (s, .number s.vectors.getVectorCount)
  | .getDimension => (s, .number s.vectors.dimension)
  | .getField id field => (s, .field (s.metadata.getField id field))
  | .filter conditions candidates id =>
    (s, .flag (decide (id ∈ s.metadata.filter conditions candidates)))
  | .matchesFilter id conditions => (s, .flag (s.metadata.matchesFilter id conditions))

variable {l2Norm : List UInt32 → UInt32}

/-- A vector store that is well formed and holds only what it accepts. -/
def Sound (l2Norm : List UInt32 → UInt32) (s : ItemStores) : Prop :=
  s.vectors.Inv ∧ s.vectors.Valid l2Norm

theorem Sound.respond {s : ItemStores} (h : Sound l2Norm s) (r : Request) :
    Sound l2Norm (Snapshot.respond l2Norm s r).1 := by
  cases r with
  | setVector id vec => exact ⟨h.1.setVector, h.2.setVector h.1⟩
  | deleteVector id => exact ⟨h.1.deleteVector, h.2.deleteVector h.1⟩
  | defragment => exact ⟨h.1.defragment, h.2.defragment h.1⟩
  | _ => exact h

theorem sound_after (rs : List Request) : Sound l2Norm (after (respond l2Norm) {} rs) :=
  after_inv (fun _ r h => h.respond r) ⟨.empty, .empty⟩ rs

/-- The stores hold the same. -/
def SameItems (s t : ItemStores) : Prop :=
  VectorStore.SameVectors s.vectors t.vectors ∧ MetadataStore.SameMetadata s.metadata t.metadata

/-- Stores that hold the same answer every request alike, and hold the same afterwards. -/
theorem SameItems.respond {s t : ItemStores} (h : SameItems s t) (r : Request) :
    (Snapshot.respond l2Norm s r).2 = (Snapshot.respond l2Norm t r).2 ∧
      SameItems (Snapshot.respond l2Norm s r).1 (Snapshot.respond l2Norm t r).1 := by
  obtain ⟨hv, hm⟩ := h
  cases r with
  | setVector id vec =>
    exact ⟨congrArg Answer.stored hv.setVector.1.symm, hv.setVector.2, hm⟩
  | deleteVector id =>
    exact ⟨congrArg Answer.flag hv.deleteVector.1.symm, hv.deleteVector.2, hm⟩
  | defragment => exact ⟨rfl, hv.defragment, hm⟩
  | setMetadata id fields => exact ⟨rfl, hv, hm.set id fields⟩
  | deleteMetadata id => exact ⟨rfl, hv, hm.delete id⟩
  | getVector id => exact ⟨congrArg Answer.vector (hv.vectors id).symm, hv, hm⟩
  | getVectorCount => exact ⟨congrArg Answer.number hv.getVectorCount.symm, hv, hm⟩
  | getDimension => exact ⟨congrArg Answer.number hv.dimension.symm, hv, hm⟩
  | getField id field => exact ⟨congrArg Answer.field (hm id field).symm, hv, hm⟩
  | filter conditions candidates id =>
    exact ⟨congrArg Answer.flag (decide_eq_decide.mpr hm.mem_filter.symm), hv, hm⟩
  | matchesFilter id conditions =>
    exact ⟨congrArg Answer.flag (hm.matchesFilter id conditions).symm, hv, hm⟩

/-- Neither loss shows: no emptied store with a dimension, no item set without fields. -/
def Restorable (s : ItemStores) : Prop :=
  (s.vectors.ids = [] → s.vectors.dimension = 0) ∧
    ∀ id fields, s.metadata.get id = some fields → fields.entries ≠ []

theorem carried_eq_self {s : MetadataStore}
    (h : ∀ id fields, s.get id = some fields → fields.entries ≠ []) (id : Bytes) :
    (carried s).get id = s.get id := by
  ext fields
  rw [get_carried]
  exact ⟨And.left, fun hf => ⟨hf, h id fields hf⟩⟩

/-- The sections are read back, and the restored stores answer alike if no loss shows. -/
theorem Sound.restored {s : ItemStores} (hs : Sound l2Norm s) {ids : Order Bytes}
    {items : Order (Bytes × Metadata)} {fields : Bytes → Order (Bytes × MetadataValue)}
    {vbytes mbytes : Bytes} (hv : serializeVectorStore ids s.vectors = .ok vbytes)
    (hm : serializeMetadataStore items fields s.metadata = .ok mbytes) (fresh : VectorStore) :
    ∃ t : ItemStores, deserializeVectorStore l2Norm fresh vbytes = .ok (t.vectors, []) ∧
      deserializeMetadataStore mbytes = .ok (t.metadata, []) ∧
      (Alike (Snapshot.respond l2Norm) s t ↔ Restorable s) := by
  obtain ⟨hinv, hvalid⟩ := hs
  obtain ⟨vectors, hvread, htinv, hvec, hdim⟩ :=
    deserialize_serializeVectorStore hinv hvalid hv fresh []
  obtain ⟨metadata, hmread, hsame⟩ := deserialize_serializeMetadataStore hm []
  rw [List.append_nil] at hvread hmread
  refine ⟨⟨vectors, metadata⟩, hvread, hmread, ?_, ?_⟩
  · intro halike
    constructor
    · intro hnil
      have hnumber := Answer.number.inj (halike.answer .getDimension)
      rw [if_pos hnil] at hdim
      exact hnumber.trans hdim
    · intro id fs hfs hempty
      have hfield := Answer.field.inj (halike.answer (.getField id []))
      -- the item is there before, and not among what the section carries
      have hnone : (carried s.metadata).get id = none := by
        rw [Option.eq_none_iff_forall_ne_some]
        intro fs' hfs'
        obtain ⟨hget, hne⟩ := get_carried.1 hfs'
        rw [hfs, Option.some.injEq] at hget
        exact hne (hget ▸ hempty)
      have hafter : metadata.getField id [] = none := by
        rw [hsame id [], MetadataStore.getField, hnone]
        rfl
      rw [show (ItemStores.mk vectors metadata).metadata = metadata from rfl, hafter,
        MetadataStore.getField, hfs] at hfield
      cases hfield
  · rintro ⟨hnil, hfull⟩
    refine Alike.of_simulation (fun s t r h => h.respond r)
      (show SameItems s ⟨vectors, metadata⟩ from ⟨⟨hinv, htinv, hvec, ?_⟩, fun id field => ?_⟩)
    · rw [hdim]
      split
      · exact (hnil ‹_›).symm
      · rfl
    · rw [hsame id field, MetadataStore.getField, MetadataStore.getField, carried_eq_self hfull]

/-- **Vectors and metadata after a restore.** For the stores of every run and every order in which
    their maps are walked, the sections are read back in full; and all later requests are answered
    as they would have been exactly if the store had not been emptied and no item had been set
    without fields. -/
theorem alike_restored_iff (rs : List Request) (ids : Order Bytes)
    (items : Order (Bytes × Metadata)) (fields : Bytes → Order (Bytes × MetadataValue))
    (fresh : VectorStore) (vbytes mbytes : Bytes)
    (hv : serializeVectorStore ids (after (respond l2Norm) {} rs).vectors = .ok vbytes)
    (hm : serializeMetadataStore items fields (after (respond l2Norm) {} rs).metadata =
      .ok mbytes) :
    ∃ t : ItemStores, deserializeVectorStore l2Norm fresh vbytes = .ok (t.vectors, []) ∧
      deserializeMetadataStore mbytes = .ok (t.metadata, []) ∧
      (Alike (respond l2Norm) (after (respond l2Norm) {} rs) t ↔
        Restorable (after (respond l2Norm) {} rs)) :=
  (sound_after rs).restored hv hm fresh

/-- The norm of a vector with one component. -/
def absoluteValue (vec : List UInt32) : UInt32 := UInt32.ofNat ((vec.headD 0).toNat % 2 ^ 31)

/-- One item with a vector and a field. -/
def labelled : List Request :=
  [.setVector [97] [0x3F800000], .setMetadata [97] (AssocMap.empty.insert [107] (.int64 5))]

/-- An item with a vector and a field is restored. -/
theorem alike_restored_labelled :
    ∃ vbytes mbytes, ∃ t : ItemStores,
      serializeVectorStore .listed (after (respond absoluteValue) {} labelled).vectors =
        .ok vbytes ∧
      serializeMetadataStore .listed (fun _ => .listed)
        (after (respond absoluteValue) {} labelled).metadata = .ok mbytes ∧
      deserializeVectorStore absoluteValue {} vbytes = .ok (t.vectors, []) ∧
      deserializeMetadataStore mbytes = .ok (t.metadata, []) ∧
      Alike (respond absoluteValue) (after (respond absoluteValue) {} labelled) t := by
  have hv : serializeVectorStore .listed (after (respond absoluteValue) {} labelled).vectors =
      .ok (leBytes 8 1 ++ (leBytes 4 1 ++ [1, 0, 0, 0, 97, 0, 0, 128, 63])) := rfl
  have hm : serializeMetadataStore .listed (fun _ => .listed)
      (after (respond absoluteValue) {} labelled).metadata =
      .ok (leBytes 4 1 ++ [1, 0, 0, 0, 97, 1, 0, 0, 0, 1, 0, 0, 0, 107, 2, 5, 0, 0, 0, 0, 0, 0, 0])
    := rfl
  obtain ⟨t, hvt, hmt, halike⟩ :=
    alike_restored_iff labelled .listed .listed (fun _ => .listed) {} _ _ hv hm
  have hheld : (after (respond absoluteValue) {} labelled).vectors.ids ≠ [] := by decide
  refine ⟨_, _, t, hv, hm, hvt, hmt, halike.mpr ⟨fun h => absurd h hheld, fun id fields hget => ?_⟩⟩
  have hone : ∀ e ∈ (after (respond absoluteValue) {} labelled).metadata.metadata.entries,
      e.2.entries ≠ [] := by decide
  exact hone (id, fields) (AssocMap.mem_entries.mpr hget)

/-- The only vector set and deleted again: the store keeps the dimension. -/
def emptied : List Request := [.setVector [97] [0x3F800000], .deleteVector [97]]

/-- An item with a vector, and with metadata that has no field. -/
def unlabelled : List Request := [.setVector [97] [0x3F800000], .setMetadata [97] .empty]

/-- Every item with metadata has a vector, the sections are written and read back, and some later
    request is answered differently. -/
def Lossy (rs : List Request) : Prop :=
  (∀ id ∈ (after (respond absoluteValue) {} rs).metadata.ids,
    id ∈ (after (respond absoluteValue) {} rs).vectors.ids) ∧
  ∃ vbytes mbytes, ∃ t : ItemStores,
    serializeVectorStore .listed (after (respond absoluteValue) {} rs).vectors = .ok vbytes ∧
    serializeMetadataStore .listed (fun _ => .listed)
      (after (respond absoluteValue) {} rs).metadata = .ok mbytes ∧
    deserializeVectorStore absoluteValue {} vbytes = .ok (t.vectors, []) ∧
    deserializeMetadataStore mbytes = .ok (t.metadata, []) ∧
    ¬ Alike (respond absoluteValue) (after (respond absoluteValue) {} rs) t

theorem Lossy.of_not_restorable {rs : List Request} {vbytes mbytes : Bytes}
    (hids : ∀ id ∈ (after (respond absoluteValue) {} rs).metadata.ids,
      id ∈ (after (respond absoluteValue) {} rs).vectors.ids)
    (hv : serializeVectorStore .listed (after (respond absoluteValue) {} rs).vectors = .ok vbytes)
    (hm : serializeMetadataStore .listed (fun _ => .listed)
      (after (respond absoluteValue) {} rs).metadata = .ok mbytes)
    (hlost : ¬ Restorable (after (respond absoluteValue) {} rs)) : Lossy rs := by
  obtain ⟨t, hvt, hmt, halike⟩ := (sound_after rs).restored hv hm {}
  exact ⟨hids, vbytes, mbytes, t, hv, hm, hvt, hmt, fun h => hlost (halike.mp h)⟩

/-- **Both losses show.** -/
theorem emptied_unlabelled_lossy : Lossy emptied ∧ Lossy unlabelled := by
  constructor
  · have hv : serializeVectorStore .listed (after (respond absoluteValue) {} emptied).vectors =
        .ok (leBytes 8 1 ++ leBytes 4 0) := rfl
    have hm : serializeMetadataStore .listed (fun _ => .listed)
        (after (respond absoluteValue) {} emptied).metadata = .ok (leBytes 4 0) := rfl
    refine .of_not_restorable (by decide) hv hm ?_
    rintro ⟨hdim, -⟩
    exact absurd (hdim rfl) (by decide)
  · have hv : serializeVectorStore .listed (after (respond absoluteValue) {} unlabelled).vectors =
        .ok (leBytes 8 1 ++ (leBytes 4 1 ++ [1, 0, 0, 0, 97, 0, 0, 128, 63])) := rfl
    have hm : serializeMetadataStore .listed (fun _ => .listed)
        (after (respond absoluteValue) {} unlabelled).metadata = .ok (leBytes 4 0) := rfl
    refine .of_not_restorable (by decide) hv hm ?_
    rintro ⟨-, hfields⟩
    exact hfields [97] .empty rfl rfl

end Nvecd.Storage.Snapshot
