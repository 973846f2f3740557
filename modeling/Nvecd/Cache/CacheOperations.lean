/-
  File:      Nvecd/Cache/CacheOperations.lean
  Subject:   The rest of the cache (`cache/similarity_cache.cpp`): the two halves of a lookup, the
             operations that erase many entries, the estimate of the memory, and the packing.

  A lookup takes the lock twice: it reads under a shared lock, and erases or touches the entry
  under an exclusive one, where it may find another entry.

  * `lookupRead`, `lookupTail`, `lookupWithTtl_eq` -- the halves of `LookupWithTtl`;
  * `registerResultItems`, `markInvalidated`, `clearIf`, `purgeExpired`;
  * `ContainerSizes`, `estimateMemoryLocked` -- the estimate, for any capacities and bucket counts;
  * `Packing`, `Packing.unpack_pack` -- what is packed is unpacked.
-/
import Nvecd.Cache.ResultCompressor

namespace Nvecd.Cache

open Nvecd.Lib Nvecd.Storage

/-! ## 1. The other operations -/

/-- What a lookup still has to do when it has left the shared lock. -/
structure LookupTail (κ : Type) where
  key : κ
  createdAt : Nat
  /-- The entry goes; otherwise it is touched. -/
  erases : Bool

namespace SimilarityCache

variable {κ : Type} [DecidableEq κ]

section Env

variable (env : CacheEnv κ)

/-- The part of `LookupWithTtl` under the shared lock. -/
def lookupRead (c : SimilarityCache κ) (now : Nat) (key : κ) (ttlSeconds : Nat) :
    SimilarityCache κ × Option (List SimilarityResult) × Option (LookupTail κ) :=
  if ¬ c.enabled then (c, none, none)
  else
    match c.tables.cacheMap.find? key with
    | none => (c.countMiss, none, none)
    | some entry =>
      if entry.invalidated then (c.countMiss, none, none)
      else if entry.expired now ttlSeconds then
        (c.countMiss, none, some ⟨key, entry.createdAt, true⟩)
      else
        match env.decompress entry.compressedData with
        | none => (c.countMiss, none, some ⟨key, entry.createdAt, true⟩)
        | some results => (c.countHit, some results, some ⟨key, entry.createdAt, false⟩)

/-- The part under the exclusive lock, unless another entry has taken the place. -/
def lookupTail (c : SimilarityCache κ) (tail : LookupTail κ) : SimilarityCache κ :=
  match c.tables.cacheMap.find? tail.key with
  | none => c
  | some entry =>
    if entry.createdAt ≠ tail.createdAt then c
    else if tail.erases then (c.eraseLocked env tail.key).1
    else c.touch tail.key

/-- With nothing in between the halves make `LookupWithTtl`. -/
theorem lookupWithTtl_eq (c : SimilarityCache κ) (now : Nat) (key : κ) (ttlSeconds : Nat) :
    c.lookupWithTtl env now key ttlSeconds =
      match c.lookupRead env now key ttlSeconds with
      | (c, found, none) => (c, found)
      | (c, found, some tail) => (c.lookupTail env tail, found) := by
  unfold lookupWithTtl lookupRead
  split
  · rfl
  · cases hfind : c.tables.cacheMap.find? key with
    | none => rfl
    | some entry =>
      have hfind' : c.countMiss.tables.cacheMap.find? key = some entry := hfind
      have hfind'' : c.countHit.tables.cacheMap.find? key = some entry := hfind
      dsimp only
      split
      · rfl
      · split
        · simp [lookupTail, hfind']
        · cases env.decompress entry.compressedData with
          | none => simp [lookupTail, hfind']
          | some results => simp [lookupTail, hfind'']

/-- `RegisterResultItems`. -/
def registerResultItems (c : SimilarityCache κ) (key : κ) (itemIds : List Bytes) :
    SimilarityCache κ :=
  match c.tables.cacheMap.find? key with
  | none => c
  | some entry =>
    let (entry, index) := registerItems key itemIds (entry, c.tables.itemToCacheKeys)
    let tables := { c.tables with
      cacheMap := c.tables.cacheMap.insert key entry
      itemToCacheKeys := index }
    (({ c with tables := tables }.refreshMemory env).evictForSpace env 0).1

/-- The keys one after the other. -/
def eraseAll (c : SimilarityCache κ) (keys : List κ) : SimilarityCache κ :=
  keys.foldl (fun c key => (c.eraseLocked env key).1) c

/-- `ClearIf`. -/
def clearIf (c : SimilarityCache κ) (predicate : κ → Bool) : SimilarityCache κ :=
  c.eraseAll env (c.tables.cacheMap.keys.filter predicate)

/-- `PurgeExpired`. -/
def purgeExpired (c : SimilarityCache κ) (now : Nat) : SimilarityCache κ :=
  c.eraseAll env ((c.tables.cacheMap.filter fun e =>
    e.2.expired now c.ttlSeconds || e.2.invalidated).keys)

end Env

/-- `MarkInvalidated`. -/
def markInvalidated (c : SimilarityCache κ) (key : κ) : SimilarityCache κ :=
  match c.tables.cacheMap.find? key with
  | none => c
  | some entry =>
    { c with tables := { c.tables with
        cacheMap := c.tables.cacheMap.insert key { entry with invalidated := true } } }

end SimilarityCache

/-! ## 2. Memory -/

/-- Capacities and bucket counts: of the two tables, and in bytes of what belongs to an entry and
    to a row of the reverse index. -/
structure ContainerSizes (κ : Type) where
  mapBuckets : Nat := 0
  indexBuckets : Nat := 0
  entryBytes : κ → Nat := fun _ => 0
  rowBytes : Bytes → Nat := fun _ => 0

/-- `sizeof(void*)`. -/
def kPointerBytes : Nat := 8

/-- `sizeof(CacheKey)`. -/
def kCacheKeyBytes : Nat := 16

section Estimate

variable {κ : Type} [DecidableEq κ]

/-- What one row adds. -/
def rowMemory (sizes : ContainerSizes κ) (row : Bytes × List κ) : Nat :=
  sizes.rowBytes row.1 + row.2.length * (kCacheKeyBytes + 2 * kPointerBytes)

/-- `EstimateMemoryLocked`. -/
def estimateMemoryLocked (sizes : ContainerSizes κ) (t : CacheTables κ) : Nat :=
  if t.cacheMap.size = 0 ∧ t.itemToCacheKeys.size = 0 then 0
  else
    sizes.mapBuckets * kPointerBytes + sizes.indexBuckets * kPointerBytes +
      t.lruList.length * (kCacheKeyBytes + 2 * kPointerBytes) +
      (t.cacheMap.entries.map fun e => sizes.entryBytes e.1).sum +
      (t.itemToCacheKeys.entries.map (rowMemory sizes)).sum

end Estimate

/-! ## 3. Packing -/

/-- What a cache is made with: whether it compresses, and what an entry asks for. -/
structure Packing where
  lz4 : Lz4
  compressionEnabled : Bool := true
  /-- `sizeof(CachedEntry) + compressed.capacity() + sizeof(CacheKey)`. -/
  entryMemory : Bytes → Nat

/-- The data of an entry. The size it had before, which an entry keeps beside it, stands in
    front. -/
def Packing.pack (p : Packing) (results : List SimilarityResult) : Option Bytes :=
  (if p.compressionEnabled then compressSimilarityResults p.lz4 results
    else serializeSimilarityResults results).map fun data =>
      leBytes 8 (results.length * kSerializedResultSize) ++ data

def Packing.unpack (p : Packing) (packed : Bytes) : Option (List SimilarityResult) :=
  if p.compressionEnabled then
    decompressSimilarityResults p.lz4 (packed.drop 8) (ofLeBytes (packed.take 8))
  else deserializeSimilarityResults (packed.drop 8)

/-- **What is packed is unpacked.** -/
theorem Packing.unpack_pack {p : Packing} {results : List SimilarityResult} {packed : Bytes}
    (h : p.pack results = some packed) : p.unpack packed = some results := by
  unfold Packing.pack at h
  obtain ⟨data, hdata, rfl⟩ := Option.map_eq_some_iff.mp h
  have hlen : (leBytes 8 (results.length * kSerializedResultSize)).length = 8 := length_leBytes 8 _
  unfold Packing.unpack
  rw [List.take_left' hlen, List.drop_left' hlen]
  split at hdata
  · rename_i henabled
    rw [if_pos henabled, ofLeBytes_leBytes, decompress_compress hdata]
    have hsize : results.length * kSerializedResultSize ≤ kIntMax := by
      unfold compressSimilarityResults at hdata
      split at hdata
      · cases hdata
      · rename_i serialized hserialized
        obtain ⟨hlen, hmax⟩ := length_serialize hserialized
        exact hlen ▸ hmax
    unfold kIntMax at hsize
    omega
  · rename_i henabled
    rw [if_neg henabled, deserialize_serialize hdata]

/-- What the cache takes from outside, with an estimate. -/
def Packing.env {κ : Type} [DecidableEq κ] (p : Packing) (estimate : CacheTables κ → Nat) :
    CacheEnv κ where
  compress := p.pack
  decompress := p.unpack
  entryMemory := p.entryMemory
  estimateMemory := estimate

end Nvecd.Cache
