/-
  File:      Nvecd/Cache/SimilarityCache.lean
  Subject:   `cache/similarity_cache.cpp`: results of searches by key, with an order of use, a
             memory limit, an expiry, and an index from the items of a result back to its key.

  * `SimilarityCache` -- the map, the LRU list (front = most recent), the reverse index;
  * `lookup`, `insertWithTtl`, `registerResultItems`;
  * `eraseLocked`, `invalidateByItemId`, `clear`;
  * `lookup_clear` -- after `Clear` nothing is found;
  * `Fewer`, `lookup_some`, `dataOf_insertWithTtl` -- only an insertion puts data under a key.

  Keys are taken from a type of their own. How results are packed, and what the containers'
  capacities add up to, is taken from outside (`CacheEnv`); of the statistics only those stand
  here that count queries and entries.
-/
import Nvecd.Lib.AssocMap
import Nvecd.Storage.WalFormat

namespace Nvecd.Cache

open Nvecd.Lib Nvecd.Storage

/-! ## 1. The cache -/

/-- A result of a search; the score is the bits of a `float`. -/
structure SimilarityResult where
  itemId : Bytes
  score : UInt32
  deriving DecidableEq, Repr

/-- `CachedEntry`. Times are nanoseconds of the steady clock; no expiry is `time_point::max()`. -/
structure CachedEntry where
  compressedData : Bytes
  createdAt : Nat
  expiresAt : Option Nat := none
  invalidated : Bool := false
  referencedItemIds : List Bytes := []
  deriving DecidableEq, Repr

/-- What `mutex_` protects. The position of a key in the list stands for the iterator beside its
    entry. -/
structure CacheTables (κ : Type) [DecidableEq κ] where
  lruList : List κ := []
  cacheMap : AssocMap κ CachedEntry := .empty
  itemToCacheKeys : AssocMap Bytes (List κ) := .empty

structure CacheStatistics where
  totalQueries : Nat := 0
  cacheHits : Nat := 0
  cacheMisses : Nat := 0
  currentEntries : Nat := 0

/-- `SearchType`. -/
inductive SearchType where
  | kItemSearch
  | kVectorSearch
  | kFilteredSearch
  deriving DecidableEq, Repr

/-- `CachePolicy`; no time to live of its own is 0. -/
structure CachePolicy where
  enabled : Bool := true
  ttlSeconds : Nat := 0

/-- The policies a cache starts with. -/
def defaultPolicies : SearchType → CachePolicy
  | .kItemSearch => { enabled := true, ttlSeconds := 0 }
  | .kVectorSearch => { enabled := false, ttlSeconds := 0 }
  | .kFilteredSearch => { enabled := true, ttlSeconds := 60 }

structure SimilarityCache (κ : Type) [DecidableEq κ] where
  tables : CacheTables κ := {}
  totalMemoryBytes : Nat := 0
  maxMemoryBytes : Nat
  evictionBatchSize : Nat := 1
  ttlSeconds : Nat := 0
  enabled : Bool := true
  policies : SearchType → CachePolicy := defaultPolicies
  stats : CacheStatistics := {}

/-- What the cache takes from its libraries: the packing of results (`ResultCompressor`, LZ4 or
    not), the bytes an entry asks for, and `EstimateMemoryLocked`, which adds up capacities and
    bucket counts. -/
structure CacheEnv (κ : Type) [DecidableEq κ] where
  compress : List SimilarityResult → Option Bytes
  decompress : Bytes → Option (List SimilarityResult)
  entryMemory : Bytes → Nat
  estimateMemory : CacheTables κ → Nat

/-- `kMaxTrackedItemsPerEntry`. -/
def kMaxTrackedItemsPerEntry : Nat := 50

def kNanosPerSecond : Nat := 1000000000

/-- Whether an entry has expired: by its own expiry, or by the time to live asked for now. -/
def CachedEntry.expired (entry : CachedEntry) (now ttlSeconds : Nat) : Bool :=
  (entry.expiresAt.any fun t => t ≤ now) ||
    (0 < ttlSeconds && ttlSeconds ≤ (now - entry.createdAt) / kNanosPerSecond)

/-- `ComputeExpiry`. -/
def computeExpiry (now ttlSeconds : Nat) : Option Nat :=
  if ttlSeconds = 0 then none else some (now + ttlSeconds * kNanosPerSecond)

namespace SimilarityCache

variable {κ : Type} [DecidableEq κ]

/-! ## 2. Erasing -/

/-- One item no longer leads to the key; a set that becomes empty goes. -/
def unregister (key : κ) (index : AssocMap Bytes (List κ)) (itemId : Bytes) :
    AssocMap Bytes (List κ) :=
  match index.find? itemId with
  | none => index
  | some keys =>
    if keys.filter (· ≠ key) = [] then index.erase itemId
    else index.insert itemId (keys.filter (· ≠ key))

section Memory

variable (env : CacheEnv κ)

/-- `RefreshMemoryLocked`. -/
def refreshMemory (c : SimilarityCache κ) : SimilarityCache κ :=
  { c with totalMemoryBytes := env.estimateMemory c.tables }

/-- `EraseLocked`. -/
def eraseLocked (c : SimilarityCache κ) (key : κ) : SimilarityCache κ × Bool :=
  match c.tables.cacheMap.find? key with
  | none => (c, false)
  | some entry =>
    let tables : CacheTables κ := {
      lruList := c.tables.lruList.erase key
      cacheMap := c.tables.cacheMap.erase key
      itemToCacheKeys := entry.referencedItemIds.foldl (unregister key) c.tables.itemToCacheKeys }
    let stats := { c.stats with currentEntries := c.stats.currentEntries - 1 }
    ({ c with tables := tables, stats := stats }.refreshMemory env, true)

/-- `InvalidateByItemId`: every entry with the item in its result goes. -/
def invalidateByItemId (c : SimilarityCache κ) (itemId : Bytes) : SimilarityCache κ :=
  match c.tables.itemToCacheKeys.find? itemId with
  | none => c
  | some keys =>
    let tables := { c.tables with itemToCacheKeys := c.tables.itemToCacheKeys.erase itemId }
    keys.foldl (fun c key => (c.eraseLocked env key).1) { c with tables := tables }

/-- The loop of `EvictForSpace`, with a turn for every key of the list. -/
def evictLoop (requiredBytes : Nat) : Nat → Nat → SimilarityCache κ → SimilarityCache κ
  | 0, _, c => c
  | turns + 1, evicted, c =>
    if c.totalMemoryBytes + requiredBytes > c.maxMemoryBytes ∨ evicted < c.evictionBatchSize then
      match c.tables.lruList.getLast? with
      | none => c
      | some key =>
        match c.tables.cacheMap.find? key with
        | none =>
          evictLoop requiredBytes turns evicted
            { c with tables := { c.tables with lruList := c.tables.lruList.dropLast } }
        | some _ => evictLoop requiredBytes turns (evicted + 1) (c.eraseLocked env key).1
    else c

/-- `EvictForSpace`. -/
def evictForSpace (c : SimilarityCache κ) (requiredBytes : Nat) : SimilarityCache κ × Bool :=
  if c.totalMemoryBytes + requiredBytes ≤ c.maxMemoryBytes then (c, true)
  else
    let c := evictLoop env requiredBytes c.tables.lruList.length 0 c
    (c, c.totalMemoryBytes + requiredBytes ≤ c.maxMemoryBytes)

end Memory

/-- `Clear`. -/
def clear (c : SimilarityCache κ) : SimilarityCache κ :=
  { c with tables := {}, totalMemoryBytes := 0, stats := { c.stats with currentEntries := 0 } }

/-! ## 3. Inserting and looking up -/

/-- `RegisterResultItemsLocked`. -/
def registerItems (key : κ) : List Bytes → CachedEntry × AssocMap Bytes (List κ) →
    CachedEntry × AssocMap Bytes (List κ)
  | [], r => r
  | itemId :: rest, (entry, index) =>
    if kMaxTrackedItemsPerEntry ≤ entry.referencedItemIds.length then (entry, index)
    else if itemId ∈ entry.referencedItemIds then registerItems key rest (entry, index)
    else
      let keys := (index.find? itemId).getD []
      registerItems key rest
        ({ entry with referencedItemIds := entry.referencedItemIds ++ [itemId] },
          index.insert itemId (if key ∈ keys then keys else key :: keys))

section Env

variable (env : CacheEnv κ)

/-- `InsertWithTtl`. `cheap` says that the query cost less than `min_query_cost_ms_`; the clock is
    read for `created_at`, and again for the expiry. -/
def insertWithTtl (c : SimilarityCache κ) (now later : Nat) (key : κ)
    (results : List SimilarityResult) (cheap : Bool) (ttlSeconds : Nat)
    (itemIds : Option (List Bytes)) : SimilarityCache κ × Bool :=
  if ¬ c.enabled ∨ cheap then (c, false)
  else
    match env.compress results with
    | none => (c, false)
    | some data =>
      if env.entryMemory data > c.maxMemoryBytes then (c, false)
      else if c.tables.cacheMap.contains key then (c, false)
      else
        let (c, fits) := c.evictForSpace env (env.entryMemory data)
        if ¬ fits then (c, false)
        else
          let entry : CachedEntry := {
            compressedData := data, createdAt := now, expiresAt := computeExpiry later ttlSeconds }
          let (entry, index) :=
            registerItems key (itemIds.getD []) (entry, c.tables.itemToCacheKeys)
          let tables : CacheTables κ := {
            lruList := key :: c.tables.lruList
            cacheMap := c.tables.cacheMap.insert key entry
            itemToCacheKeys := index }
          let stats := { c.stats with currentEntries := c.stats.currentEntries + 1 }
          let c := { c with tables := tables, stats := stats }.refreshMemory env
          let c := (c.evictForSpace env 0).1
          (c, c.tables.cacheMap.contains key)

def countMiss (c : SimilarityCache κ) : SimilarityCache κ :=
  { c with stats := { c.stats with
      totalQueries := c.stats.totalQueries + 1
      cacheMisses := c.stats.cacheMisses + 1 } }

def countHit (c : SimilarityCache κ) : SimilarityCache κ :=
  { c with stats := { c.stats with
      totalQueries := c.stats.totalQueries + 1
      cacheHits := c.stats.cacheHits + 1 } }

/-- `Touch`. -/
def touch (c : SimilarityCache κ) (key : κ) : SimilarityCache κ :=
  if c.tables.cacheMap.contains key then
    { c with tables := { c.tables with lruList := key :: c.tables.lruList.erase key } }
  else c

/-- `LookupWithTtl`. -/
def lookupWithTtl (c : SimilarityCache κ) (now : Nat) (key : κ) (ttlSeconds : Nat) :
    SimilarityCache κ × Option (List SimilarityResult) :=
  if ¬ c.enabled then (c, none)
  else
    match c.tables.cacheMap.find? key with
    | none => (c.countMiss, none)
    | some entry =>
      if entry.invalidated then (c.countMiss, none)
      else if entry.expired now ttlSeconds then ((c.countMiss.eraseLocked env key).1, none)
      else
        match env.decompress entry.compressedData with
        | none => ((c.countMiss.eraseLocked env key).1, none)
        | some results => (c.countHit.touch key, some results)

/-! ### By the type of the search -/

/-- The time to live of a type: its own, else that of the cache; `none` if its results are not
    cached. -/
def effectiveTtl (c : SimilarityCache κ) (type : SearchType) : Option Nat :=
  let policy := c.policies type
  if ¬ policy.enabled then none
  else some (if 0 < policy.ttlSeconds then policy.ttlSeconds else c.ttlSeconds)

/-- `Lookup`, of a type. -/
def lookup (c : SimilarityCache κ) (now : Nat) (key : κ) (type : SearchType) :
    SimilarityCache κ × Option (List SimilarityResult) :=
  match c.effectiveTtl type with
  | none => (c, none)
  | some ttlSeconds => c.lookupWithTtl env now key ttlSeconds

/-- `Insert`, of a type, and `InsertAndRegister`. -/
def insertOfType (c : SimilarityCache κ) (now later : Nat) (key : κ)
    (results : List SimilarityResult) (cheap : Bool) (type : SearchType)
    (itemIds : Option (List Bytes)) : SimilarityCache κ × Bool :=
  match c.effectiveTtl type with
  | none => (c, false)
  | some ttlSeconds => c.insertWithTtl env now later key results cheap ttlSeconds itemIds

/-- `InsertAndRegister`. -/
def insertAndRegister (c : SimilarityCache κ) (now later : Nat) (key : κ)
    (results : List SimilarityResult) (itemIds : List Bytes) (cheap : Bool) (type : SearchType) :
    SimilarityCache κ × Bool :=
  c.insertOfType env now later key results cheap type (some itemIds)

/-- After `Clear` nothing is found. -/
theorem lookup_clear (c : SimilarityCache κ) (now : Nat) (key : κ) (ttlSeconds : Nat) :
    (c.clear.lookupWithTtl env now key ttlSeconds).2 = none := by
  unfold lookupWithTtl
  split
  · rfl
  · simp [clear]

end Env

/-! ## 4. What is under a key -/

/-- The packed result under a key. -/
def dataOf (c : SimilarityCache κ) (key : κ) : Option Bytes :=
  (c.tables.cacheMap.find? key).map (·.compressedData)

/-- The second cache has nothing the first one has not. -/
def Fewer (c c' : SimilarityCache κ) : Prop :=
  ∀ key data, c'.dataOf key = some data → c.dataOf key = some data

section Contents

variable {env : CacheEnv κ} {c c' c'' : SimilarityCache κ} {key : κ}

theorem Fewer.refl (c : SimilarityCache κ) : c.Fewer c := fun _ _ h => h

theorem Fewer.trans (h : c.Fewer c') (h' : c'.Fewer c'') : c.Fewer c'' :=
  fun key data hd => h key data (h' key data hd)

theorem Fewer.of_cacheMap (h : c'.tables.cacheMap = c.tables.cacheMap) : c.Fewer c' := by
  intro key data hd
  rwa [dataOf, h] at hd

theorem fewer_eraseLocked (c : SimilarityCache κ) (key : κ) : c.Fewer (c.eraseLocked env key).1 := by
  unfold eraseLocked
  split
  · exact .refl c
  · intro k data hd
    simp only [dataOf, refreshMemory, AssocMap.find?_erase] at hd
    split at hd
    · cases hd
    · exact hd

theorem fewer_invalidateByItemId (c : SimilarityCache κ) (itemId : Bytes) :
    c.Fewer (c.invalidateByItemId env itemId) := by
  unfold invalidateByItemId
  split
  · exact .refl c
  · rename_i keys hkeys
    refine List.foldlRecOn (motive := fun c' => c.Fewer c') keys _ (.of_cacheMap rfl) ?_
    intro c' h key _
    exact h.trans (fewer_eraseLocked c' key)

theorem fewer_clear (c : SimilarityCache κ) : c.Fewer c.clear := by
  intro key data hd
  simp [dataOf, clear] at hd

theorem fewer_evictLoop (requiredBytes turns evicted : Nat) (c : SimilarityCache κ) :
    c.Fewer (evictLoop env requiredBytes turns evicted c) := by
  induction turns generalizing evicted c with
  | zero => exact .refl c
  | succ turns ih =>
    unfold evictLoop
    split
    · split
      · exact .refl c
      · split
        · exact Fewer.trans (.of_cacheMap rfl) (ih _ _)
        · exact (fewer_eraseLocked c _).trans (ih _ _)
    · exact .refl c

theorem fewer_evictForSpace (c : SimilarityCache κ) (requiredBytes : Nat) :
    c.Fewer (c.evictForSpace env requiredBytes).1 := by
  unfold evictForSpace
  split
  · exact .refl c
  · exact fewer_evictLoop requiredBytes _ _ c

theorem cacheMap_touch (c : SimilarityCache κ) (key : κ) :
    (c.touch key).tables.cacheMap = c.tables.cacheMap := by
  unfold touch
  split <;> rfl

theorem fewer_lookupWithTtl (c : SimilarityCache κ) (now : Nat) (key : κ) (ttlSeconds : Nat) :
    c.Fewer (c.lookupWithTtl env now key ttlSeconds).1 := by
  have hmiss : c.Fewer c.countMiss := .of_cacheMap rfl
  unfold lookupWithTtl
  split
  · exact .refl c
  · split
    · exact hmiss
    · split
      · exact hmiss
      · split
        · exact hmiss.trans (fewer_eraseLocked _ key)
        · split
          · exact hmiss.trans (fewer_eraseLocked _ key)
          · exact .of_cacheMap (cacheMap_touch c.countHit key)

/-- **What a lookup returns** is the result packed under the key. -/
theorem lookup_some {now ttlSeconds : Nat} {results : List SimilarityResult}
    (h : (c.lookupWithTtl env now key ttlSeconds).2 = some results) :
    ∃ data, c.dataOf key = some data ∧ env.decompress data = some results := by
  unfold lookupWithTtl at h
  split at h
  · cases h
  · split at h
    · cases h
    · rename_i entry hfind
      split at h
      · cases h
      · split at h
        · cases h
        · split at h
          · cases h
          · rename_i results' hdata
            cases h
            exact ⟨entry.compressedData, by rw [dataOf, hfind]; rfl, hdata⟩

theorem compressedData_registerItems (key : κ) (itemIds : List Bytes)
    (r : CachedEntry × AssocMap Bytes (List κ)) :
    (registerItems key itemIds r).1.compressedData = r.1.compressedData := by
  induction itemIds generalizing r with
  | nil => rfl
  | cons itemId rest ih =>
    obtain ⟨entry, index⟩ := r
    unfold registerItems
    split
    · rfl
    · split
      · exact ih _
      · exact ih _

/-- **Only an insertion** puts data under a key, the packed results under a key with none. -/
theorem dataOf_insertWithTtl {now later ttlSeconds : Nat} {results : List SimilarityResult}
    {cheap : Bool} {itemIds : Option (List Bytes)} {k : κ} {data : Bytes}
    (h : (c.insertWithTtl env now later key results cheap ttlSeconds itemIds).1.dataOf k = some data) :
    c.dataOf k = some data ∨
      k = key ∧ env.compress results = some data ∧ c.dataOf key = none := by
  unfold insertWithTtl at h
  split at h
  · exact .inl h
  · split at h
    · exact .inl h
    · rename_i packed hpacked
      split at h
      · exact .inl h
      · split at h
        · exact .inl h
        · rename_i hnew
          have hnone : c.dataOf key = none := by
            rw [AssocMap.contains, Option.not_isSome_iff_eq_none] at hnew
            rw [dataOf, hnew]
            rfl
          have hevict : c.Fewer (c.evictForSpace env (env.entryMemory packed)).1 :=
            fewer_evictForSpace c _
          cases hspace : c.evictForSpace env (env.entryMemory packed) with
          | mk room fits =>
            rw [hspace] at hevict
            simp only [hspace] at h
            split at h
            · exact .inl (hevict k data h)
            · have hfinal := fewer_evictForSpace _ 0 k data h
              simp only [dataOf, refreshMemory, AssocMap.find?_insert] at hfinal
              split at hfinal
              · rename_i hk
                rw [Option.map_some, compressedData_registerItems] at hfinal
                cases hfinal
                exact .inr ⟨hk, hpacked, hnone⟩
              · exact .inl (hevict k data hfinal)

end Contents

end SimilarityCache

end Nvecd.Cache
