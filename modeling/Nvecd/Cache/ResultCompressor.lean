/-
  File:      Nvecd/Cache/ResultCompressor.lean
  Subject:   `cache/result_compressor.cpp`: results as bytes, of a fixed length each, and the bytes
             compressed.

  A result takes 260 bytes: its id, filled up with zeros to 256, and the bits of its score. An id
  that does not fit with a zero behind it, or has a zero in it, is refused.

  * `serializeSimilarityResults`, `deserializeSimilarityResults` -- the fixed layout;
  * `Lz4` -- what is asked of the library;
  * `compressSimilarityResults`, `decompressSimilarityResults` -- with it;
  * `deserialize_serialize`, `decompress_compress` -- what is packed comes out again.
-/
import Nvecd.Cache.SimilarityCache
import Nvecd.Lib.LittleEndian

namespace Nvecd.Cache

open Nvecd.Lib Nvecd.Storage

/-! ## 1. The layout -/

/-- `sizeof(SerializedSimilarityResult::id)`. -/
def kIdBytes : Nat := 256

/-- `sizeof(SerializedSimilarityResult)`. -/
def kSerializedResultSize : Nat := 260

/-- `INT_MAX`. -/
def kIntMax : Nat := 2147483647

/-- One result, if its id has its place. -/
def serializeResult (result : SimilarityResult) : Option Bytes :=
  if kIdBytes ≤ result.itemId.length ∨ 0 ∈ result.itemId then none
  else
    some (result.itemId ++ List.replicate (kIdBytes - result.itemId.length) 0 ++
      leBytes 4 result.score.toNat)

/-- `SerializeSimilarityResults`. -/
def serializeSimilarityResults (results : List SimilarityResult) : Option Bytes :=
  if kIntMax / kSerializedResultSize < results.length then none
  else (results.mapM serializeResult).map List.flatten

/-- One result: the id up to the first zero. -/
def deserializeResult (value : Bytes) : Option SimilarityResult :=
  let id := value.take kIdBytes
  if 0 ∈ id then
    some ⟨id.takeWhile fun b => b ≠ 0, UInt32.ofNat (ofLeBytes (value.drop kIdBytes))⟩
  else none

/-- So many results one after the other. -/
def deserializeResults : Nat → Bytes → Option (List SimilarityResult)
  | 0, _ => some []
  | count + 1, serialized =>
    match deserializeResult (serialized.take kSerializedResultSize) with
    | none => none
    | some result =>
      (deserializeResults count (serialized.drop kSerializedResultSize)).map (result :: ·)

/-- `DeserializeSimilarityResults`. -/
def deserializeSimilarityResults (serialized : Bytes) : Option (List SimilarityResult) :=
  if serialized.length % kSerializedResultSize ≠ 0 ∨ kIntMax < serialized.length then none
  else deserializeResults (serialized.length / kSerializedResultSize) serialized

/-! ## 2. Compression -/

/-- `LZ4_compress_default`, into a buffer of `LZ4_compressBound` bytes, and `LZ4_decompress_safe`,
    into one of the given size: it is lossless, and compresses to between one and `INT_MAX`
    bytes. -/
structure Lz4 where
  compress : Bytes → Option Bytes
  decompress : Bytes → Nat → Option Bytes
  lossless : ∀ source data, compress source = some data →
    decompress data source.length = some source
  nonempty : ∀ source data, compress source = some data → data ≠ []
  bounded : ∀ source data, compress source = some data → data.length ≤ kIntMax

/-- `CompressSimilarityResults`. -/
def compressSimilarityResults (lz4 : Lz4) (results : List SimilarityResult) : Option Bytes :=
  match serializeSimilarityResults results with
  | none => none
  | some serialized => if serialized = [] then some [] else lz4.compress serialized

/-- `DecompressSimilarityResults`. -/
def decompressSimilarityResults (lz4 : Lz4) (compressed : Bytes) (originalSize : Nat) :
    Option (List SimilarityResult) :=
  if compressed = [] ∨ originalSize = 0 then some []
  else if originalSize % kSerializedResultSize ≠ 0 ∨ kIntMax < originalSize ∨
      kIntMax < compressed.length then none
  else
    match lz4.decompress compressed originalSize with
    | none => none
    | some serialized =>
      if serialized.length ≠ originalSize then none else deserializeSimilarityResults serialized

/-! ## 3. What is packed comes out again -/

theorem serializeResult_some {result : SimilarityResult} {value : Bytes}
    (h : serializeResult result = some value) :
    value.length = kSerializedResultSize ∧ deserializeResult value = some result := by
  unfold serializeResult at h
  split at h
  · cases h
  · rename_i hid
    rw [not_or, not_le] at hid
    obtain ⟨hlen, hzero⟩ := hid
    cases h
    set id := result.itemId with hid
    have hfield : (id ++ List.replicate (kIdBytes - id.length) 0).length = kIdBytes := by
      rw [List.length_append, List.length_replicate]
      omega
    have htake : (id ++ List.replicate (kIdBytes - id.length) 0 ++
        leBytes 4 result.score.toNat).take kIdBytes =
          id ++ List.replicate (kIdBytes - id.length) 0 := List.take_left' hfield
    have hdrop : (id ++ List.replicate (kIdBytes - id.length) 0 ++
        leBytes 4 result.score.toNat).drop kIdBytes = leBytes 4 result.score.toNat :=
      List.drop_left' hfield
    have hin : (0 : UInt8) ∈ id ++ List.replicate (kIdBytes - id.length) 0 := by
      refine List.mem_append_right _ (List.mem_replicate.mpr ⟨?_, rfl⟩)
      omega
    have hread : (id ++ List.replicate (kIdBytes - id.length) 0).takeWhile (fun b => b ≠ 0) =
        id := by
      obtain ⟨n, hn⟩ : ∃ n, kIdBytes - id.length = n + 1 := ⟨kIdBytes - id.length - 1, by omega⟩
      rw [hn, List.replicate_succ, List.takeWhile_append_of_pos]
      · simp
      · intro b hb
        rw [decide_eq_true_eq]
        rintro rfl
        exact hzero hb
    refine ⟨?_, ?_⟩
    · rw [List.length_append, hfield, length_leBytes]
      rfl
    · unfold deserializeResult
      dsimp only
      rw [htake, hdrop, if_pos hin, hread, ofLeBytes_leBytes result.score.toNat_lt,
        UInt32.ofNat_toNat]

/-- Results one after the other are read one after the other. -/
theorem deserializeResults_flatten {results : List SimilarityResult} {values : List Bytes}
    (h : results.mapM serializeResult = some values) :
    values.flatten.length = results.length * kSerializedResultSize ∧
      deserializeResults results.length values.flatten = some results := by
  induction results generalizing values with
  | nil =>
    cases h
    exact ⟨rfl, rfl⟩
  | cons result results ih =>
    rw [List.mapM_cons] at h
    obtain ⟨value, hvalue, h⟩ := Option.bind_eq_some_iff.mp h
    obtain ⟨rest, hrest, h⟩ := Option.bind_eq_some_iff.mp h
    cases h
    obtain ⟨hlen, hread⟩ := serializeResult_some hvalue
    obtain ⟨hlens, hreads⟩ := ih hrest
    refine ⟨?_, ?_⟩
    · rw [List.flatten_cons, List.length_append, hlen, hlens, List.length_cons, Nat.succ_mul,
        Nat.add_comm]
    · rw [List.flatten_cons, List.length_cons, deserializeResults, List.take_left' hlen,
        List.drop_left' hlen, hread, hreads]
      rfl

theorem length_serialize {results : List SimilarityResult} {serialized : Bytes}
    (h : serializeSimilarityResults results = some serialized) :
    serialized.length = results.length * kSerializedResultSize ∧ serialized.length ≤ kIntMax := by
  unfold serializeSimilarityResults at h
  split at h
  · cases h
  · rename_i hcount
    obtain ⟨values, hvalues, rfl⟩ := Option.map_eq_some_iff.mp h
    obtain ⟨hlen, -⟩ := deserializeResults_flatten hvalues
    refine ⟨hlen, ?_⟩
    unfold kIntMax kSerializedResultSize at hcount
    unfold kSerializedResultSize at hlen
    unfold kIntMax
    omega

/-- **Serialized results are read back.** -/
theorem deserialize_serialize {results : List SimilarityResult} {serialized : Bytes}
    (h : serializeSimilarityResults results = some serialized) :
    deserializeSimilarityResults serialized = some results := by
  obtain ⟨hlen, hmax⟩ := length_serialize h
  unfold serializeSimilarityResults at h
  split at h
  · cases h
  · obtain ⟨values, hvalues, rfl⟩ := Option.map_eq_some_iff.mp h
    obtain ⟨-, hread⟩ := deserializeResults_flatten hvalues
    unfold deserializeSimilarityResults
    rw [if_neg, hlen, Nat.mul_div_cancel _ (by decide), hread]
    rw [hlen, Nat.mul_mod_left, not_or]
    exact ⟨fun hcon => hcon rfl, by rw [← hlen]; exact not_lt.mpr hmax⟩

/-- **Compressed results are read back**, with the size they had. -/
theorem decompress_compress {lz4 : Lz4} {results : List SimilarityResult} {compressed : Bytes}
    (h : compressSimilarityResults lz4 results = some compressed) :
    decompressSimilarityResults lz4 compressed (results.length * kSerializedResultSize) =
      some results := by
  unfold compressSimilarityResults at h
  split at h
  · cases h
  · rename_i serialized hserialized
    obtain ⟨hlen, hmax⟩ := length_serialize hserialized
    unfold decompressSimilarityResults
    split at h
    · rename_i hempty
      cases h
      rw [hempty] at hlen
      have hnil : results = [] := by
        rw [← List.length_eq_zero_iff]
        have := hlen.symm
        rw [List.length_nil, Nat.mul_eq_zero] at this
        exact this.resolve_right (by decide)
      rw [hnil]
      rfl
    · rename_i hne
      have hpos : results.length * kSerializedResultSize ≠ 0 := by
        rw [← hlen]
        exact fun hcon => hne (List.length_eq_zero_iff.mp hcon)
      rw [if_neg (by rintro (hcon | hcon); exacts [lz4.nonempty _ _ h hcon, hpos hcon]), if_neg,
        ← hlen, lz4.lossless _ _ h]
      · simp only [ne_eq, not_true_eq_false, if_false]
        exact deserialize_serialize hserialized
      · rw [Nat.mul_mod_left, ← hlen]
        rintro (hcon | hcon | hcon)
        · exact hcon rfl
        · omega
        · exact absurd (lz4.bounded _ _ h) (not_le.mpr hcon)

end Nvecd.Cache
