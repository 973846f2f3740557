/-
  File:      Nvecd/Cache/CacheTables.lean
  Subject:   What the tables of the cache have in common, operation by operation.

  * `rowOf_unregisterAll`, `registerItems_spec` -- the reverse index, item by item;
  * `CacheTables.Inv` -- list and map have the same keys, and the index is exact; the row of one
    item may be detached, while `InvalidateByItemId` erases through it;
  * `estimate_without_le`, `estimate_detach_le` -- what goes does not add to the estimate;
  * `Core`, `eraseLocked_cases`, `evictForSpace_spec` -- erasing, and room that is made;
  * `insertWithTtl_spec`, `registerResultItems_spec`, `find?_invalidateByItemId`.
-/
import Nvecd.Cache.CacheOperations

namespace Nvecd.Cache

open Nvecd.Lib Nvecd.Storage

/-! ## 1. The reverse index -/

/-- The first items, each once, as many as an entry keeps. -/
def trackItems : List Bytes → List Bytes → List Bytes
  | tracked, [] => tracked
  | tracked, itemId :: rest =>
    if kMaxTrackedItemsPerEntry ≤ tracked.length then tracked
    else if itemId ∈ tracked then trackItems tracked rest
    else trackItems (tracked ++ [itemId]) rest

section Index

variable {κ : Type} [DecidableEq κ]

/-- The keys an item leads to. -/
def rowOf (index : AssocMap Bytes (List κ)) (itemId : Bytes) : List κ :=
  (index.find? itemId).getD []

/-- No row is empty. -/
def NoEmptyRow (index : AssocMap Bytes (List κ)) : Prop :=
  ∀ itemId keys, index.find? itemId = some keys → keys ≠ []

variable {index : AssocMap Bytes (List κ)} {key : κ}

theorem rowOf_unregister (key : κ) (index : AssocMap Bytes (List κ)) (itemId i : Bytes) :
    rowOf (SimilarityCache.unregister key index itemId) i =
      if i = itemId then (rowOf index itemId).filter (· ≠ key) else rowOf index i := by
  unfold SimilarityCache.unregister
  cases hfind : index.find? itemId with
  | none =>
    by_cases hi : i = itemId
    · simp [rowOf, hi, hfind]
    · simp [hi]
  | some keys =>
    dsimp only
    split
    · rename_i hempty
      by_cases hi : i = itemId
      · rw [if_pos hi, hi]
        simp only [rowOf, AssocMap.find?_erase, if_true, Option.getD_none, hfind, Option.getD_some]
        exact hempty.symm
      · simp [rowOf, AssocMap.find?_erase, hi]
    · by_cases hi : i = itemId
      · simp [rowOf, hi, hfind]
      · simp [rowOf, AssocMap.find?_insert, hi]

theorem noEmptyRow_unregister (h : NoEmptyRow index) (itemId : Bytes) :
    NoEmptyRow (SimilarityCache.unregister key index itemId) := by
  unfold SimilarityCache.unregister
  split
  · exact h
  · split
    · intro i keys hi
      rw [AssocMap.find?_erase] at hi
      split at hi
      · cases hi
      · exact h i keys hi
    · rename_i hne
      intro i keys hi
      rw [AssocMap.find?_insert] at hi
      split at hi
      · cases hi
        exact hne
      · exact h i keys hi

/-- **A key is taken out of the rows** of its items. -/
theorem rowOf_unregisterAll (key : κ) (items : List Bytes) (index : AssocMap Bytes (List κ))
    (i : Bytes) :
    rowOf (items.foldl (SimilarityCache.unregister key) index) i =
      if i ∈ items then (rowOf index i).filter (· ≠ key) else rowOf index i := by
  induction items generalizing index with
  | nil => simp
  | cons item items ih =>
    rw [List.foldl_cons, ih, rowOf_unregister]
    by_cases hi : i = item
    · by_cases hin : i ∈ items
      · simp [hi, hi ▸ hin]
      · simp [hi, hi ▸ hin]
    · simp [hi]

theorem noEmptyRow_unregisterAll (h : NoEmptyRow index) (items : List Bytes) :
    NoEmptyRow (items.foldl (SimilarityCache.unregister key) index) := by
  induction items generalizing index with
  | nil => exact h
  | cons item items ih => exact ih (noEmptyRow_unregister h item)

theorem subset_trackItems (tracked items : List Bytes) : tracked ⊆ trackItems tracked items := by
  induction items generalizing tracked with
  | nil => exact List.Subset.refl _
  | cons item items ih =>
    unfold trackItems
    split
    · exact List.Subset.refl _
    · split
      · exact ih tracked
      · exact fun i hi => ih _ (List.mem_append_left _ hi)

/-- **Registering**: the entry keeps the first items, and each new one leads to the key. -/
theorem registerItems_spec (key : κ) (items : List Bytes) (entry : CachedEntry)
    (index : AssocMap Bytes (List κ)) (hrows : NoEmptyRow index) :
    (SimilarityCache.registerItems key items (entry, index)).1 =
        { entry with referencedItemIds := trackItems entry.referencedItemIds items } ∧
      NoEmptyRow (SimilarityCache.registerItems key items (entry, index)).2 ∧
      ∀ i k, k ∈ rowOf (SimilarityCache.registerItems key items (entry, index)).2 i ↔
        k ∈ rowOf index i ∨ (k = key ∧ i ∈ trackItems entry.referencedItemIds items ∧
          i ∉ entry.referencedItemIds) := by
  induction items generalizing entry index with
  | nil =>
    refine ⟨rfl, hrows, fun i k => ?_⟩
    simp only [SimilarityCache.registerItems, trackItems]
    exact ⟨.inl, fun h => h.elim id fun h => absurd h.2.1 h.2.2⟩
  | cons item items ih =>
    unfold SimilarityCache.registerItems trackItems
    split
    · refine ⟨rfl, hrows, fun i k => ?_⟩
      exact ⟨.inl, fun h => h.elim id fun h => absurd h.2.1 h.2.2⟩
    · split
      · exact ih entry index hrows
      · rename_i hnew
        set keys := (index.find? item).getD [] with hkeys
        have hrow : ∀ i, rowOf (index.insert item (if key ∈ keys then keys else key :: keys)) i =
            if i = item then (if key ∈ keys then keys else key :: keys) else rowOf index i := by
          intro i
          unfold rowOf
          rw [AssocMap.find?_insert]
          split <;> rfl
        have hrows' :
            NoEmptyRow (index.insert item (if key ∈ keys then keys else key :: keys)) := by
          intro i row hi
          rw [AssocMap.find?_insert] at hi
          split at hi
          · cases hi
            split
            · rename_i hin
              exact List.ne_nil_of_mem hin
            · exact List.cons_ne_nil _ _
          · exact hrows i row hi
        obtain ⟨hentry, hrest, hmem⟩ := ih
          { entry with referencedItemIds := entry.referencedItemIds ++ [item] } _ hrows'
        refine ⟨hentry, hrest, fun i k => ?_⟩
        rw [hmem, hrow]
        have htracked : item ∈ trackItems (entry.referencedItemIds ++ [item]) items :=
          subset_trackItems _ _ (by simp)
        by_cases hi : i = item
        · subst hi
          rw [if_pos rfl]
          have hrowi : rowOf index i = keys := rfl
          rw [hrowi]
          by_cases hin : key ∈ keys
          · rw [if_pos hin]
            constructor
            · rintro (h | ⟨rfl, -, hnot⟩)
              · exact .inl h
              · exact .inl hin
            · rintro (h | ⟨rfl, -, -⟩)
              · exact .inl h
              · exact .inl hin
          · rw [if_neg hin, List.mem_cons]
            constructor
            · rintro ((rfl | h) | ⟨rfl, -, hnot⟩)
              · exact .inr ⟨rfl, htracked, hnew⟩
              · exact .inl h
              · exact absurd (List.mem_append_right _ List.mem_cons_self) hnot
            · rintro (h | ⟨rfl, -, -⟩)
              · exact .inl (.inr h)
              · exact .inl (.inl rfl)
        · rw [if_neg hi]
          simp [List.mem_append, hi]

end Index

/-! ## 2. The tables -/

section Tables

variable {κ : Type} [DecidableEq κ]

/-- **The tables fit together**: list and map have the same keys, and a key is in the row of an
    item exactly if the item is among those its entry refers to. The row of an item may be
    detached, while the entries it led to are erased. -/
structure CacheTables.Inv (t : CacheTables κ) (detached : Option Bytes) : Prop where
  nodup : t.lruList.Nodup
  keys : ∀ key, key ∈ t.lruList ↔ key ∈ t.cacheMap.keys
  rows : NoEmptyRow t.itemToCacheKeys
  index : ∀ itemId key, detached ≠ some itemId → (key ∈ rowOf t.itemToCacheKeys itemId ↔
    ∃ entry, t.cacheMap.find? key = some entry ∧ itemId ∈ entry.referencedItemIds)
  absent : ∀ itemId, detached = some itemId → t.itemToCacheKeys.find? itemId = none

/-- The tables without a key. -/
def CacheTables.without (t : CacheTables κ) (key : κ) (entry : CachedEntry) : CacheTables κ where
  lruList := t.lruList.erase key
  cacheMap := t.cacheMap.erase key
  itemToCacheKeys :=
    entry.referencedItemIds.foldl (SimilarityCache.unregister key) t.itemToCacheKeys

variable {t : CacheTables κ} {detached : Option Bytes} {key : κ} {entry : CachedEntry}

theorem CacheTables.Inv.empty : ({} : CacheTables κ).Inv none where
  nodup := List.nodup_nil
  keys key := by simp
  rows itemId keys h := by simp at h
  index itemId key _ := by simp [rowOf]
  absent itemId h := by cases h

theorem CacheTables.Inv.without (h : t.Inv detached) (hfind : t.cacheMap.find? key = some entry) :
    (t.without key entry).Inv detached where
  nodup := h.nodup.erase key
  keys k := by
    show k ∈ t.lruList.erase key ↔ k ∈ (t.cacheMap.erase key).keys
    rw [h.nodup.mem_erase_iff, AssocMap.mem_keys_erase, h.keys]
  rows := noEmptyRow_unregisterAll h.rows _
  index itemId k hd := by
    show k ∈ rowOf (entry.referencedItemIds.foldl (SimilarityCache.unregister key)
      t.itemToCacheKeys) itemId ↔ ∃ e, (t.cacheMap.erase key).find? k = some e ∧ _
    rw [rowOf_unregisterAll, AssocMap.find?_erase]
    have hk := h.index itemId k hd
    by_cases hkey : k = key
    · subst hkey
      rw [if_pos rfl]
      simp only [reduceCtorEq, false_and, exists_false, iff_false]
      split
      · simp
      · rename_i hnot
        rw [hk, hfind]
        rintro ⟨e, he, hin⟩
        cases he
        exact hnot hin
    · rw [if_neg hkey]
      split
      · rw [List.mem_filter, hk]
        simp [hkey]
      · exact hk
  absent itemId hd := by
    have hnone := h.absent itemId hd
    have hrow : rowOf (t.without key entry).itemToCacheKeys itemId = [] := by
      show rowOf (entry.referencedItemIds.foldl (SimilarityCache.unregister key)
        t.itemToCacheKeys) itemId = []
      rw [rowOf_unregisterAll]
      simp [rowOf, hnone]
    cases hf : (t.without key entry).itemToCacheKeys.find? itemId with
    | none => rfl
    | some keys =>
      rw [rowOf, hf] at hrow
      exact absurd hrow (noEmptyRow_unregisterAll h.rows _ itemId keys hf)

/-- With no key in the list the tables are empty. -/
theorem CacheTables.Inv.empty_of_lruList (h : t.Inv none) (hlru : t.lruList = []) :
    t.cacheMap.size = 0 ∧ t.itemToCacheKeys.size = 0 := by
  have hmap : ∀ key, t.cacheMap.find? key = none := by
    intro key
    rw [AssocMap.find?_eq_none, ← h.keys, hlru]
    exact List.not_mem_nil
  refine ⟨AssocMap.size_eq_zero.mpr hmap, AssocMap.size_eq_zero.mpr fun itemId => ?_⟩
  cases hf : t.itemToCacheKeys.find? itemId with
  | none => rfl
  | some keys =>
    obtain ⟨k, hk⟩ := List.exists_mem_of_ne_nil keys (h.rows itemId keys hf)
    have hrow : k ∈ rowOf t.itemToCacheKeys itemId := by rw [rowOf, hf]; exact hk
    obtain ⟨e, he, -⟩ := (h.index itemId k (by simp)).mp hrow
    rw [hmap] at he
    cases he

/-! ### The estimate -/

/-- Of the entries only the keys count. -/
theorem estimate_congr_keys (sizes : ContainerSizes κ) {t : CacheTables κ}
    {cacheMap : AssocMap κ CachedEntry} (hkeys : t.cacheMap.keys = cacheMap.keys) :
    estimateMemoryLocked sizes t = estimateMemoryLocked sizes { t with cacheMap := cacheMap } := by
  have hsize : t.cacheMap.size = cacheMap.size := by
    rw [← AssocMap.length_keys, ← AssocMap.length_keys, hkeys]
  have hbytes : (t.cacheMap.entries.map fun e => sizes.entryBytes e.1) =
      cacheMap.entries.map fun e => sizes.entryBytes e.1 := by
    have := congrArg (List.map sizes.entryBytes) hkeys
    simpa [AssocMap.keys, Function.comp_def] using this
  simp only [estimateMemoryLocked, hsize, hbytes]

theorem sum_map_assign_le {α β : Type} [DecidableEq α] (f : α × β → Nat) {l : List (α × β)} {a : α}
    {b b' : β} (hin : (a, b) ∈ l) (hle : f (a, b') ≤ f (a, b)) (hnd : (l.map Prod.fst).Nodup) :
    ((assign a b' l).map f).sum ≤ (l.map f).sum := by
  induction l with
  | nil => cases hin
  | cons e l ih =>
    rw [List.map_cons, List.nodup_cons] at hnd
    unfold assign
    split
    · rename_i he
      have : e = (a, b) := by
        rcases List.mem_cons.mp hin with rfl | hin
        · rfl
        · exact absurd (he ▸ List.mem_map.mpr ⟨_, hin, rfl⟩) hnd.1
      subst this
      simp only [List.map_cons, List.sum_cons]
      omega
    · rename_i he
      have hin' : (a, b) ∈ l := by
        rcases List.mem_cons.mp hin with rfl | hin
        · exact absurd rfl he
        · exact hin
      simp only [List.map_cons, List.sum_cons]
      have := ih hin' hnd.2
      omega

theorem sum_map_filter_le {α : Type} (f : α → Nat) (q : α → Bool) (l : List α) :
    ((l.filter q).map f).sum ≤ (l.map f).sum := by
  induction l with
  | nil => exact Nat.le_refl _
  | cons a l ih =>
    rw [List.filter_cons]
    split
    · simp only [List.map_cons, List.sum_cons]
      omega
    · simp only [List.map_cons, List.sum_cons]
      omega

/-- Rows only become shorter. -/
theorem rowsMemory_unregister_le (sizes : ContainerSizes κ) (key : κ)
    (index : AssocMap Bytes (List κ)) (itemId : Bytes) :
    ((SimilarityCache.unregister key index itemId).entries.map (rowMemory sizes)).sum ≤
      (index.entries.map (rowMemory sizes)).sum := by
  unfold SimilarityCache.unregister
  cases hfind : index.find? itemId with
  | none => exact Nat.le_refl _
  | some keys =>
    dsimp only
    split
    · exact sum_map_filter_le _ _ _
    · refine sum_map_assign_le (rowMemory sizes) (AssocMap.mem_entries.mpr hfind) ?_ index.nodupKeys
      unfold rowMemory
      have := List.length_filter_le (fun k => decide (k ≠ key)) keys
      gcongr

theorem rowsMemory_unregisterAll_le (sizes : ContainerSizes κ) (key : κ) (items : List Bytes)
    (index : AssocMap Bytes (List κ)) :
    ((items.foldl (SimilarityCache.unregister key) index).entries.map (rowMemory sizes)).sum ≤
      (index.entries.map (rowMemory sizes)).sum := by
  induction items generalizing index with
  | nil => exact Nat.le_refl _
  | cons item items ih => exact (ih _).trans (rowsMemory_unregister_le sizes key index item)

/-- **Without a key the estimate is not more**, nor without the row of an item. -/
theorem estimate_without_le (sizes : ContainerSizes κ) (t : CacheTables κ) (key : κ)
    (hfind : t.cacheMap.find? key = some entry) :
    estimateMemoryLocked sizes (t.without key entry) ≤ estimateMemoryLocked sizes t := by
  have hsize : t.cacheMap.size ≠ 0 := by
    rw [Ne, AssocMap.size_eq_zero]
    intro hcon
    rw [hcon] at hfind
    cases hfind
  have hrows := rowsMemory_unregisterAll_le sizes key entry.referencedItemIds t.itemToCacheKeys
  have hentries := sum_map_filter_le (fun e : κ × CachedEntry => sizes.entryBytes e.1)
    (fun e => decide (e.1 ≠ key)) t.cacheMap.entries
  have hlru : (t.lruList.erase key).length ≤ t.lruList.length := List.length_erase_le
  unfold estimateMemoryLocked
  rw [if_neg (fun h : t.cacheMap.size = 0 ∧ _ => hsize h.1)]
  split
  · exact Nat.zero_le _
  · show sizes.mapBuckets * kPointerBytes + sizes.indexBuckets * kPointerBytes +
      (t.lruList.erase key).length * (kCacheKeyBytes + 2 * kPointerBytes) +
      (((t.cacheMap.entries.filter fun e => decide (e.1 ≠ key)).map
        fun e => sizes.entryBytes e.1).sum) +
      ((entry.referencedItemIds.foldl (SimilarityCache.unregister key)
        t.itemToCacheKeys).entries.map (rowMemory sizes)).sum ≤ _
    have hlru' := Nat.mul_le_mul_right (kCacheKeyBytes + 2 * kPointerBytes) hlru
    omega

theorem estimate_detach_le (sizes : ContainerSizes κ) (t : CacheTables κ) (itemId : Bytes) :
    estimateMemoryLocked sizes
        { t with itemToCacheKeys := t.itemToCacheKeys.erase itemId } ≤
      estimateMemoryLocked sizes t := by
  have hrows := sum_map_filter_le (rowMemory sizes) (fun e => decide (e.1 ≠ itemId))
    t.itemToCacheKeys.entries
  have hlen := List.length_filter_le (fun e : Bytes × List κ => decide (e.1 ≠ itemId))
    t.itemToCacheKeys.entries
  unfold estimateMemoryLocked
  split
  · exact Nat.zero_le _
  · rename_i hne
    rw [if_neg]
    · exact Nat.add_le_add_left hrows _
    · rintro ⟨hmap, hindex⟩
      refine hne ⟨hmap, ?_⟩
      show (t.itemToCacheKeys.entries.filter fun e => decide (e.1 ≠ itemId)).length = 0
      have : t.itemToCacheKeys.entries.length = 0 := hindex
      omega

end Tables

/-! ## 3. Erasing and eviction -/

namespace SimilarityCache

variable {κ : Type} [DecidableEq κ]

/-- The tables fit together, and the counters are right. -/
structure Core (detached : Option Bytes) (c : SimilarityCache κ) : Prop where
  tables : c.tables.Inv detached
  entries : c.stats.currentEntries = c.tables.cacheMap.size
  counted : c.stats.cacheHits + c.stats.cacheMisses = c.stats.totalQueries

/-- The second cache has entries of the first only. -/
def Within (c c' : SimilarityCache κ) : Prop :=
  ∀ key entry, c'.tables.cacheMap.find? key = some entry →
    c.tables.cacheMap.find? key = some entry

/-- The estimate has just been made. -/
def Estimated (env : CacheEnv κ) (c : SimilarityCache κ) : Prop :=
  c.totalMemoryBytes = env.estimateMemory c.tables

variable {env : CacheEnv κ} {detached : Option Bytes} {c c' c'' : SimilarityCache κ} {key : κ}
  {entry : CachedEntry}

theorem Within.refl (c : SimilarityCache κ) : c.Within c := fun _ _ h => h

theorem Within.trans (h : c.Within c') (h' : c'.Within c'') : c.Within c'' :=
  fun key entry he => h key entry (h' key entry he)

/-- **Erasing**, said once: nothing happens, or the key goes and the estimate is made. -/
theorem eraseLocked_cases (env : CacheEnv κ) (c : SimilarityCache κ) (key : κ) :
    (c.tables.cacheMap.find? key = none ∧ (c.eraseLocked env key).1 = c) ∨
      ∃ entry, c.tables.cacheMap.find? key = some entry ∧
        (c.eraseLocked env key).1 = { c with
          tables := c.tables.without key entry,
          totalMemoryBytes := env.estimateMemory (c.tables.without key entry),
          stats := { c.stats with currentEntries := c.stats.currentEntries - 1 } } := by
  unfold eraseLocked
  cases hfind : c.tables.cacheMap.find? key with
  | none => exact .inl ⟨rfl, rfl⟩
  | some entry => exact .inr ⟨entry, rfl, rfl⟩

theorem Core.eraseLocked (h : c.Core detached) (env : CacheEnv κ) (key : κ) :
    (c.eraseLocked env key).1.Core detached := by
  obtain ⟨-, heq⟩ | ⟨entry, hfind, heq⟩ := eraseLocked_cases env c key
  · rw [heq]
    exact h
  · rw [heq]
    refine ⟨h.tables.without hfind, ?_, h.counted⟩
    show c.stats.currentEntries - 1 = (c.tables.cacheMap.erase key).size
    rw [AssocMap.size_erase_of_mem (AssocMap.mem_keys.mpr ⟨entry, hfind⟩), h.entries]

theorem find?_eraseLocked (env : CacheEnv κ) (c : SimilarityCache κ) (key k : κ) :
    (c.eraseLocked env key).1.tables.cacheMap.find? k =
      if k = key then none else c.tables.cacheMap.find? k := by
  obtain ⟨hnone, heq⟩ | ⟨entry, hfind, heq⟩ := eraseLocked_cases env c key
  · rw [heq]
    split
    · rename_i hk
      rw [hk, hnone]
    · rfl
  · rw [heq]
    exact AssocMap.find?_erase _ _ _

theorem Estimated.eraseLocked (h : c.Estimated env) (key : κ) :
    (c.eraseLocked env key).1.Estimated env := by
  obtain ⟨-, heq⟩ | ⟨entry, hfind, heq⟩ := eraseLocked_cases env c key
  · rw [heq]
    exact h
  · rw [heq]
    rfl

theorem maxMemoryBytes_eraseLocked (env : CacheEnv κ) (c : SimilarityCache κ) (key : κ) :
    (c.eraseLocked env key).1.maxMemoryBytes = c.maxMemoryBytes := by
  obtain ⟨-, heq⟩ | ⟨entry, hfind, heq⟩ := eraseLocked_cases env c key <;> rw [heq]

/-- Erasing does not add to the estimate. -/
theorem estimate_eraseLocked_le (sizes : ContainerSizes κ) (env : CacheEnv κ)
    (c : SimilarityCache κ) (key : κ) :
    estimateMemoryLocked sizes (c.eraseLocked env key).1.tables ≤
      estimateMemoryLocked sizes c.tables := by
  obtain ⟨-, heq⟩ | ⟨entry, hfind, heq⟩ := eraseLocked_cases env c key
  · rw [heq]
  · rw [heq]
    exact estimate_without_le sizes c.tables key hfind

/-! ### Many keys -/

theorem Core.eraseAll (h : c.Core detached) (keys : List κ) :
    (c.eraseAll env keys).Core detached := by
  induction keys generalizing c with
  | nil => exact h
  | cons key keys ih => exact ih (h.eraseLocked env key)

theorem find?_eraseAll (c : SimilarityCache κ) (keys : List κ) (k : κ) :
    (c.eraseAll env keys).tables.cacheMap.find? k =
      if k ∈ keys then none else c.tables.cacheMap.find? k := by
  induction keys generalizing c with
  | nil => simp [eraseAll]
  | cons key keys ih =>
    show ((c.eraseLocked env key).1.eraseAll env keys).tables.cacheMap.find? k = _
    rw [ih, find?_eraseLocked]
    by_cases hk : k = key
    · simp [hk]
    · simp [hk]

theorem Estimated.eraseAll (h : c.Estimated env) (keys : List κ) :
    (c.eraseAll env keys).Estimated env := by
  induction keys generalizing c with
  | nil => exact h
  | cons key keys ih => exact ih (h.eraseLocked key)

theorem maxMemoryBytes_eraseAll (env : CacheEnv κ) (c : SimilarityCache κ) (keys : List κ) :
    (c.eraseAll env keys).maxMemoryBytes = c.maxMemoryBytes := by
  induction keys generalizing c with
  | nil => rfl
  | cons key keys ih => exact (ih _).trans (maxMemoryBytes_eraseLocked env c key)

theorem estimate_eraseAll_le (sizes : ContainerSizes κ) (env : CacheEnv κ) (c : SimilarityCache κ)
    (keys : List κ) :
    estimateMemoryLocked sizes (c.eraseAll env keys).tables ≤
      estimateMemoryLocked sizes c.tables := by
  induction keys generalizing c with
  | nil => exact Nat.le_refl _
  | cons key keys ih => exact (ih _).trans (estimate_eraseLocked_le sizes env c key)

theorem within_eraseAll (c : SimilarityCache κ) (keys : List κ) :
    c.Within (c.eraseAll env keys) := by
  intro k entry hk
  rw [find?_eraseAll] at hk
  split at hk
  · cases hk
  · exact hk

/-! ### Eviction -/

/-- **The loop of the eviction** keeps the tables and comes to room enough, or to no key. -/
theorem evictLoop_spec (requiredBytes turns evicted : Nat) {c : SimilarityCache κ}
    (h : c.Core none) (hest : c.Estimated env) (hturns : c.tables.lruList.length ≤ turns) :
    (evictLoop env requiredBytes turns evicted c).Core none ∧
      (evictLoop env requiredBytes turns evicted c).Estimated env ∧
      c.Within (evictLoop env requiredBytes turns evicted c) ∧
      (evictLoop env requiredBytes turns evicted c).maxMemoryBytes = c.maxMemoryBytes ∧
      ((evictLoop env requiredBytes turns evicted c).tables.lruList = [] ∨
        (evictLoop env requiredBytes turns evicted c).totalMemoryBytes + requiredBytes ≤
          c.maxMemoryBytes) := by
  induction turns generalizing evicted c with
  | zero =>
    have hnil : c.tables.lruList = [] := List.eq_nil_of_length_eq_zero (Nat.le_zero.mp hturns)
    exact ⟨h, hest, .refl c, rfl, .inl hnil⟩
  | succ turns ih =>
    unfold evictLoop
    split
    · cases hlast : c.tables.lruList.getLast? with
      | none => exact ⟨h, hest, .refl c, rfl, .inl (List.getLast?_eq_none_iff.mp hlast)⟩
      | some key =>
        have hmem : key ∈ c.tables.lruList := List.mem_of_getLast? hlast
        obtain ⟨entry, hentry⟩ := AssocMap.mem_keys.mp ((h.tables.keys key).mp hmem)
        simp only [hentry]
        have hlen : (c.eraseLocked env key).1.tables.lruList.length ≤ turns := by
          obtain ⟨hnone, -⟩ | ⟨e, hfind, heq⟩ := eraseLocked_cases env c key
          · rw [hentry] at hnone
            cases hnone
          · rw [heq]
            show (c.tables.lruList.erase key).length ≤ turns
            rw [List.length_erase_of_mem hmem]
            omega
        obtain ⟨hcore, hest', hwithin, hmax, hdone⟩ :=
          ih (evicted + 1) (h.eraseLocked env key) (hest.eraseLocked key) hlen
        refine ⟨hcore, hest', ?_, hmax.trans (maxMemoryBytes_eraseLocked env c key), ?_⟩
        · exact Within.trans (within_eraseAll c [key]) hwithin
        · rwa [maxMemoryBytes_eraseLocked] at hdone
    · rename_i hdone
      rw [not_or, not_lt] at hdone
      exact ⟨h, hest, .refl c, rfl, .inr hdone.1⟩

/-- An estimate of nothing is 0. -/
def EstimatesEmpty (env : CacheEnv κ) : Prop :=
  ∀ t : CacheTables κ, t.cacheMap.size = 0 → t.itemToCacheKeys.size = 0 → env.estimateMemory t = 0

/-- **`EvictForSpace`** makes room for what is not more than the limit. -/
theorem evictForSpace_spec {requiredBytes : Nat} {c : SimilarityCache κ} (h : c.Core none)
    (hest : c.Estimated env) (hempty : EstimatesEmpty env)
    (hle : requiredBytes ≤ c.maxMemoryBytes) :
    (c.evictForSpace env requiredBytes).1.Core none ∧
      (c.evictForSpace env requiredBytes).1.Estimated env ∧
      c.Within (c.evictForSpace env requiredBytes).1 ∧
      (c.evictForSpace env requiredBytes).1.maxMemoryBytes = c.maxMemoryBytes ∧
      (c.evictForSpace env requiredBytes).1.totalMemoryBytes + requiredBytes ≤
        c.maxMemoryBytes := by
  unfold evictForSpace
  split
  · rename_i hroom
    exact ⟨h, hest, .refl c, rfl, hroom⟩
  · obtain ⟨hcore, hest', hwithin, hmax, hdone⟩ :=
      evictLoop_spec requiredBytes c.tables.lruList.length 0 h hest (Nat.le_refl _)
    refine ⟨hcore, hest', hwithin, hmax, ?_⟩
    rcases hdone with hnil | hroom
    · obtain ⟨hmap, hindex⟩ := hcore.tables.empty_of_lruList hnil
      have hzero := hest'
      rw [Estimated, hempty _ hmap hindex] at hzero
      dsimp only
      rw [hzero]
      omega
    · exact hroom

end SimilarityCache

/-! ## 4. Insertion and registration -/

namespace SimilarityCache

variable {κ : Type} [DecidableEq κ] {env : CacheEnv κ} {c : SimilarityCache κ} {key : κ}
  {entry : CachedEntry}

/-- Items registered under the key of an entry: a new one, which refers to nothing yet, or one that
    is there. -/
theorem CacheTables.Inv.register {t : CacheTables κ} (h : t.Inv none) (lruList : List κ) (key : κ)
    (entry : CachedEntry) (items : List Bytes) (hnodup : lruList.Nodup)
    (hkeys : ∀ k, k ∈ lruList ↔ k = key ∨ k ∈ t.cacheMap.keys)
    (hentry : t.cacheMap.find? key = some entry ∨
      t.cacheMap.find? key = none ∧ entry.referencedItemIds = []) :
    CacheTables.Inv {
        lruList := lruList,
        cacheMap := t.cacheMap.insert key
          (registerItems key items (entry, t.itemToCacheKeys)).1,
        itemToCacheKeys := (registerItems key items (entry, t.itemToCacheKeys)).2 } none := by
  obtain ⟨hnew, hrows, hmem⟩ := registerItems_spec key items entry t.itemToCacheKeys h.rows
  refine ⟨hnodup, fun k => ?_, hrows, fun itemId k hd => ?_, fun itemId hd => by cases hd⟩
  · rw [AssocMap.mem_keys_insert]
    exact hkeys k
  · rw [hmem, AssocMap.find?_insert, hnew]
    have hbefore := h.index itemId k hd
    by_cases hk : k = key
    · subst hk
      rw [if_pos rfl]
      have hrefers : k ∈ rowOf t.itemToCacheKeys itemId ↔ itemId ∈ entry.referencedItemIds := by
        rw [hbefore]
        rcases hentry with hfind | ⟨hfind, hnil⟩
        · rw [hfind]
          simp
        · rw [hfind, hnil]
          simp
      rw [hrefers]
      simp only [Option.some.injEq, exists_eq_left', true_and]
      constructor
      · rintro (hin | ⟨hin, -⟩)
        · exact subset_trackItems _ _ hin
        · exact hin
      · intro hin
        by_cases hold : itemId ∈ entry.referencedItemIds
        · exact .inl hold
        · exact .inr ⟨hin, hold⟩
    · rw [if_neg hk, hbefore]
      simp [hk]

/-- `EvictForSpace` says whether there is room. -/
theorem evictForSpace_room (env : CacheEnv κ) (c : SimilarityCache κ) (requiredBytes : Nat) :
    (c.evictForSpace env requiredBytes).2 =
      decide ((c.evictForSpace env requiredBytes).1.totalMemoryBytes + requiredBytes ≤
        (c.evictForSpace env requiredBytes).1.maxMemoryBytes) := by
  unfold evictForSpace
  split
  · rename_i hroom
    exact (decide_eq_true hroom).symm
  · rfl

/-- **An insertion**: it changes nothing; or makes room, and the key is not there; or the entry is
    there, and others may have gone. -/
theorem insertWithTtl_spec (now later : Nat) (key : κ) (results : List SimilarityResult)
    (cheap : Bool) (ttlSeconds : Nat) (itemIds : Option (List Bytes)) (h : c.Core none)
    (hest : c.tables.cacheMap.find? key = none → c.Estimated env) (hempty : EstimatesEmpty env) :
    c.insertWithTtl env now later key results cheap ttlSeconds itemIds = (c, false) ∨
    ∃ c' ok, c.insertWithTtl env now later key results cheap ttlSeconds itemIds = (c', ok) ∧
      c'.Core none ∧ c'.Estimated env ∧ c'.maxMemoryBytes = c.maxMemoryBytes ∧
      c'.totalMemoryBytes ≤ c.maxMemoryBytes ∧
      (∀ k entry, k ≠ key → c'.tables.cacheMap.find? k = some entry →
        c.tables.cacheMap.find? k = some entry) ∧
      ((ok = false ∧ c'.tables.cacheMap.find? key = none) ∨
        ok = true ∧ ∃ data, env.compress results = some data ∧
          c'.tables.cacheMap.find? key = some {
            compressedData := data, createdAt := now, expiresAt := computeExpiry later ttlSeconds,
            referencedItemIds := trackItems [] (itemIds.getD []) }) := by
  unfold insertWithTtl
  split
  · exact .inl rfl
  cases hpack : env.compress results with
  | none => exact .inl rfl
  | some data =>
    dsimp only
    split
    · exact .inl rfl
    rename_i hsmall
    split
    · exact .inl rfl
    rename_i hnew
    have hnone : c.tables.cacheMap.find? key = none := by
      rwa [AssocMap.contains, Option.not_isSome_iff_eq_none] at hnew
    obtain ⟨hcore, hest₁, hwithin, hmax, hroom⟩ :=
      evictForSpace_spec h (hest hnone) hempty (not_lt.mp hsmall)
    have hfits := evictForSpace_room env c (env.entryMemory data)
    rw [hmax, decide_eq_true hroom] at hfits
    cases hspace : c.evictForSpace env (env.entryMemory data) with
    | mk c₁ fits =>
      rw [hspace] at hcore hest₁ hwithin hmax hfits
      dsimp only at hcore hest₁ hwithin hmax hfits
      subst hfits
      rw [if_neg (by simp)]
      have hnone₁ : c₁.tables.cacheMap.find? key = none := by
        cases hf : c₁.tables.cacheMap.find? key with
        | none => rfl
        | some e => exact absurd (hwithin key e hf) (by rw [hnone]; simp)
      have hnotin : key ∉ c₁.tables.cacheMap.keys := AssocMap.find?_eq_none.mp hnone₁
      -- the tables with the new entry
      let fresh : CachedEntry :=
        { compressedData := data, createdAt := now, expiresAt := computeExpiry later ttlSeconds }
      have hadmit := CacheTables.Inv.register hcore.tables (key :: c₁.tables.lruList) key fresh
        (itemIds.getD [])
        (List.nodup_cons.mpr ⟨fun hin => hnotin ((hcore.tables.keys key).mp hin),
          hcore.tables.nodup⟩)
        (fun k => by rw [List.mem_cons, hcore.tables.keys])
        (.inr ⟨hnone₁, rfl⟩)
      obtain ⟨hentry, -, -⟩ :=
        registerItems_spec key (itemIds.getD []) fresh c₁.tables.itemToCacheKeys hcore.tables.rows
      generalize hc₂ : SimilarityCache.refreshMemory env _ = c₂
      have hcore₂ : c₂.Core none := by
        refine ⟨?_, ?_, ?_⟩
        · rw [← hc₂]
          exact hadmit
        · rw [← hc₂]
          show c₁.stats.currentEntries + 1 = AssocMap.size (AssocMap.insert _ _ _)
          rw [AssocMap.size_insert_of_not_mem hnotin, hcore.entries]
        · rw [← hc₂]
          exact hcore.counted
      have hest₂ : c₂.Estimated env := by rw [← hc₂]; rfl
      have hmax₂ : c₂.maxMemoryBytes = c.maxMemoryBytes := by rw [← hc₂]; exact hmax
      have hfind₂ : ∀ k, c₂.tables.cacheMap.find? k = if k = key then some {
          compressedData := data, createdAt := now, expiresAt := computeExpiry later ttlSeconds,
          referencedItemIds := trackItems [] (itemIds.getD []) }
          else c₁.tables.cacheMap.find? k := by
        intro k
        rw [← hc₂]
        show AssocMap.find? (AssocMap.insert _ _ _) k = _
        rw [AssocMap.find?_insert, hentry]
      obtain ⟨hcore₃, hest₃, hwithin₃, hmax₃, hroom₃⟩ :=
        evictForSpace_spec hcore₂ hest₂ hempty (Nat.zero_le _)
      rw [hmax₂] at hmax₃ hroom₃
      refine .inr ⟨_, _, rfl, hcore₃, hest₃, hmax₃, hroom₃, ?_, ?_⟩
      · intro k e hk he
        have := hwithin₃ k e he
        rw [hfind₂, if_neg hk] at this
        exact hwithin k e this
      · cases hlast : (c₂.evictForSpace env 0).1.tables.cacheMap.find? key with
        | none => exact .inl ⟨by simp [AssocMap.contains, hlast], rfl⟩
        | some e =>
          have := hwithin₃ key e hlast
          rw [hfind₂, if_pos rfl] at this
          cases this
          exact .inr ⟨by simp [AssocMap.contains, hlast], data, rfl, rfl⟩

end SimilarityCache

/-! ### The other operations -/

namespace SimilarityCache

variable {κ : Type} [DecidableEq κ] {env : CacheEnv κ} {c : SimilarityCache κ} {key : κ}

/-- What changes neither the tables' keys and items nor the counts keeps the core. -/
theorem Core.replace (h : c.Core none) {entry entry' : CachedEntry}
    (hfind : c.tables.cacheMap.find? key = some entry)
    (hitems : entry'.referencedItemIds = entry.referencedItemIds) :
    Core none { c with tables := { c.tables with
      cacheMap := c.tables.cacheMap.insert key entry' } } := by
  have hmem : key ∈ c.tables.cacheMap.keys := AssocMap.mem_keys.mpr ⟨entry, hfind⟩
  refine ⟨⟨h.tables.nodup, fun k => ?_, h.tables.rows, fun itemId k hd => ?_, h.tables.absent⟩,
    ?_, h.counted⟩
  · show k ∈ c.tables.lruList ↔ k ∈ (c.tables.cacheMap.insert key entry').keys
    rw [AssocMap.keys_insert_of_mem hmem]
    exact h.tables.keys k
  · show k ∈ rowOf c.tables.itemToCacheKeys itemId ↔
      ∃ e, (c.tables.cacheMap.insert key entry').find? k = some e ∧ _
    rw [h.tables.index itemId k hd, AssocMap.find?_insert]
    split
    · rename_i hk
      rw [hk, hfind]
      simp [hitems]
    · rfl
  · show c.stats.currentEntries = (c.tables.cacheMap.insert key entry').size
    rw [AssocMap.size_insert_of_mem hmem, h.entries]

theorem Core.touch (h : c.Core none) (key : κ) : (c.touch key).Core none := by
  unfold SimilarityCache.touch
  split
  · rename_i hin
    have hmem : key ∈ c.tables.lruList := (h.tables.keys key).mpr (AssocMap.contains_iff.mp hin)
    refine ⟨⟨?_, fun k => ?_, h.tables.rows, h.tables.index, h.tables.absent⟩, h.entries, h.counted⟩
    · show (key :: c.tables.lruList.erase key).Nodup
      exact List.nodup_cons.mpr ⟨h.tables.nodup.not_mem_erase, h.tables.nodup.erase key⟩
    · show k ∈ key :: c.tables.lruList.erase key ↔ k ∈ c.tables.cacheMap.keys
      rw [← h.tables.keys k, List.mem_cons, h.tables.nodup.mem_erase_iff]
      constructor
      · rintro (rfl | ⟨-, hk⟩)
        · exact hmem
        · exact hk
      · intro hk
        by_cases heq : k = key
        · exact .inl heq
        · exact .inr ⟨heq, hk⟩
  · exact h

/-- Moving a key to the front leaves the list as long as it was. -/
theorem Estimated.touch {sizes : ContainerSizes κ} {p : Packing} (h : c.Core none)
    (hest : c.Estimated (p.env (estimateMemoryLocked sizes))) (key : κ) :
    (c.touch key).Estimated (p.env (estimateMemoryLocked sizes)) := by
  unfold SimilarityCache.touch
  split
  · rename_i hin
    have hmem : key ∈ c.tables.lruList := (h.tables.keys key).mpr (AssocMap.contains_iff.mp hin)
    have hlen : (key :: c.tables.lruList.erase key).length = c.tables.lruList.length := by
      rw [List.length_cons, List.length_erase_of_mem hmem]
      have := List.length_pos_of_mem hmem
      omega
    show c.totalMemoryBytes = estimateMemoryLocked sizes { c.tables with
      lruList := key :: c.tables.lruList.erase key }
    rw [show c.totalMemoryBytes = estimateMemoryLocked sizes c.tables from hest]
    simp only [estimateMemoryLocked, hlen]
  · exact hest

/-- **Registering the items** of an entry that is there. -/
theorem registerResultItems_spec {entry : CachedEntry} (h : c.Core none)
    (hfind : c.tables.cacheMap.find? key = some entry) (hempty : EstimatesEmpty env)
    (itemIds : List Bytes) :
    (c.registerResultItems env key itemIds).Core none ∧
      (c.registerResultItems env key itemIds).Estimated env ∧
      (c.registerResultItems env key itemIds).maxMemoryBytes = c.maxMemoryBytes ∧
      (c.registerResultItems env key itemIds).totalMemoryBytes ≤ c.maxMemoryBytes ∧
      ∀ k e, (c.registerResultItems env key itemIds).tables.cacheMap.find? k = some e →
        if k = key then
          e = { entry with referencedItemIds := trackItems entry.referencedItemIds itemIds }
        else c.tables.cacheMap.find? k = some e := by
  have hmem : key ∈ c.tables.cacheMap.keys := AssocMap.mem_keys.mpr ⟨entry, hfind⟩
  have hadmit := CacheTables.Inv.register h.tables c.tables.lruList key entry itemIds
    h.tables.nodup (fun k => by
      rw [h.tables.keys]
      exact ⟨.inr, fun hk => hk.elim (fun hk => hk ▸ hmem) id⟩) (.inl hfind)
  obtain ⟨hentry, -, -⟩ :=
    registerItems_spec key itemIds entry c.tables.itemToCacheKeys h.tables.rows
  simp only [registerResultItems, hfind]
  generalize hc₂ : SimilarityCache.refreshMemory env _ = c₂
  have hcore₂ : c₂.Core none := by
    refine ⟨?_, ?_, ?_⟩
    · rw [← hc₂]
      exact hadmit
    · rw [← hc₂]
      show c.stats.currentEntries = AssocMap.size (AssocMap.insert _ _ _)
      rw [AssocMap.size_insert_of_mem hmem, h.entries]
    · rw [← hc₂]
      exact h.counted
  have hest₂ : c₂.Estimated env := by rw [← hc₂]; rfl
  have hmax₂ : c₂.maxMemoryBytes = c.maxMemoryBytes := by rw [← hc₂]; rfl
  have hfind₂ : ∀ k, c₂.tables.cacheMap.find? k = if k = key then
      some { entry with referencedItemIds := trackItems entry.referencedItemIds itemIds }
      else c.tables.cacheMap.find? k := by
    intro k
    rw [← hc₂]
    show AssocMap.find? (AssocMap.insert _ _ _) k = _
    rw [AssocMap.find?_insert, hentry]
  obtain ⟨hcore₃, hest₃, hwithin₃, hmax₃, hroom₃⟩ :=
    evictForSpace_spec hcore₂ hest₂ hempty (Nat.zero_le _)
  rw [hmax₂] at hmax₃ hroom₃
  refine ⟨hcore₃, hest₃, hmax₃, hroom₃, fun k e he => ?_⟩
  have hbefore := hwithin₃ k e he
  rw [hfind₂] at hbefore
  split
  · rename_i hk
    rw [if_pos hk] at hbefore
    exact (Option.some.inj hbefore).symm
  · rename_i hk
    rwa [if_neg hk] at hbefore

/-! ### Invalidation -/

/-- A row is detached. -/
theorem Core.detach (h : c.Core none) (itemId : Bytes) :
    Core (some itemId) { c with tables := { c.tables with
      itemToCacheKeys := c.tables.itemToCacheKeys.erase itemId } } := by
  refine ⟨⟨h.tables.nodup, h.tables.keys, ?_, ?_, ?_⟩, h.entries, h.counted⟩
  · intro i keys hi
    rw [AssocMap.find?_erase] at hi
    split at hi
    · cases hi
    · exact h.tables.rows i keys hi
  · intro i k hd
    have hi : i ≠ itemId := fun hi => hd (congrArg some hi.symm)
    rw [rowOf, AssocMap.find?_erase, if_neg hi]
    exact h.tables.index i k (by simp)
  · intro i hi
    cases hi
    rw [AssocMap.find?_erase, if_pos rfl]

/-- When no entry refers to the item its row is missing rightly. -/
theorem Core.attach {itemId : Bytes} (h : c.Core (some itemId))
    (hnone : ∀ k entry, c.tables.cacheMap.find? k = some entry →
      itemId ∉ entry.referencedItemIds) : c.Core none := by
  refine ⟨⟨h.tables.nodup, h.tables.keys, h.tables.rows, ?_, fun i hi => by cases hi⟩, h.entries,
    h.counted⟩
  intro i k _
  by_cases hi : i = itemId
  · rw [hi, rowOf, h.tables.absent itemId rfl]
    constructor
    · intro hk
      cases hk
    · rintro ⟨e, he, hin⟩
      exact absurd hin (hnone k e he)
  · exact h.tables.index i k (fun hd => hi (Option.some.inj hd).symm)

/-- **Invalidation**: the entries that refer to the item go, and no others. -/
theorem find?_invalidateByItemId (h : c.Core none) (itemId : Bytes) (k : κ) :
    (c.invalidateByItemId env itemId).tables.cacheMap.find? k =
      (c.tables.cacheMap.find? k).filter fun entry => itemId ∉ entry.referencedItemIds := by
  have hindex := h.tables.index itemId k (by simp)
  unfold invalidateByItemId
  cases hrow : c.tables.itemToCacheKeys.find? itemId with
  | none =>
    rw [rowOf, hrow] at hindex
    cases hfind : c.tables.cacheMap.find? k with
    | none => simp
    | some entry =>
      have hnot : itemId ∉ entry.referencedItemIds := by
        intro hin
        exact List.not_mem_nil (hindex.mpr ⟨entry, hfind, hin⟩)
      simp [Option.filter, hnot]
  | some keys =>
    rw [rowOf, hrow, Option.getD_some] at hindex
    show (eraseAll env _ keys).tables.cacheMap.find? k = _
    rw [find?_eraseAll]
    show (if k ∈ keys then none else c.tables.cacheMap.find? k) = _
    cases hfind : c.tables.cacheMap.find? k with
    | none => simp
    | some entry =>
      rw [hfind] at hindex
      by_cases hin : itemId ∈ entry.referencedItemIds
      · simp [Option.filter, hindex.mpr ⟨entry, rfl, hin⟩, hin]
      · have : k ∉ keys := by
          intro hk
          obtain ⟨e, he, hin'⟩ := hindex.mp hk
          cases he
          exact hin hin'
        simp [Option.filter, this, hin]

theorem Core.invalidateByItemId (h : c.Core none) (itemId : Bytes) :
    (c.invalidateByItemId env itemId).Core none := by
  have hnone : ∀ k entry, (c.invalidateByItemId env itemId).tables.cacheMap.find? k = some entry →
      itemId ∉ entry.referencedItemIds := by
    intro k entry hk
    rw [find?_invalidateByItemId h, Option.filter_eq_some_iff] at hk
    simpa using hk.2
  unfold SimilarityCache.invalidateByItemId at hnone ⊢
  cases hrow : c.tables.itemToCacheKeys.find? itemId with
  | none => exact h
  | some keys =>
    rw [hrow] at hnone
    exact ((h.detach itemId).eraseAll keys).attach hnone

/-- At least one key of a row is erased, and then the estimate is made. -/
theorem Estimated.eraseAll_of_mem (keys : List κ)
    (hmem : ∃ k ∈ keys, k ∈ c.tables.cacheMap.keys) : (c.eraseAll env keys).Estimated env := by
  induction keys generalizing c with
  | nil => simp at hmem
  | cons key keys ih =>
    show ((c.eraseLocked env key).1.eraseAll env keys).Estimated env
    obtain ⟨hnone, heq⟩ | ⟨entry, hfind, heq⟩ := eraseLocked_cases env c key
    · rw [heq]
      obtain ⟨k, hk, hin⟩ := hmem
      rcases List.mem_cons.mp hk with rfl | hk
      · exact absurd hin (AssocMap.find?_eq_none.mp hnone)
      · exact ih ⟨k, hk, hin⟩
    · refine Estimated.eraseAll ?_ keys
      rw [heq]
      rfl

theorem Estimated.invalidateByItemId (h : c.Core none) (hest : c.Estimated env) (itemId : Bytes) :
    (c.invalidateByItemId env itemId).Estimated env := by
  unfold SimilarityCache.invalidateByItemId
  cases hrow : c.tables.itemToCacheKeys.find? itemId with
  | none => exact hest
  | some keys =>
    obtain ⟨k, hk⟩ := List.exists_mem_of_ne_nil keys (h.tables.rows itemId keys hrow)
    have hrowk : k ∈ rowOf c.tables.itemToCacheKeys itemId := by rw [rowOf, hrow]; exact hk
    obtain ⟨entry, hfind, -⟩ := (h.tables.index itemId k (by simp)).mp hrowk
    exact Estimated.eraseAll_of_mem keys ⟨k, hk, AssocMap.mem_keys.mpr ⟨entry, hfind⟩⟩

theorem estimate_invalidateByItemId_le (sizes : ContainerSizes κ) (env : CacheEnv κ)
    (c : SimilarityCache κ) (itemId : Bytes) :
    estimateMemoryLocked sizes (c.invalidateByItemId env itemId).tables ≤
      estimateMemoryLocked sizes c.tables := by
  unfold SimilarityCache.invalidateByItemId
  split
  · exact Nat.le_refl _
  · exact (estimate_eraseAll_le sizes env _ _).trans (estimate_detach_le sizes c.tables itemId)

theorem maxMemoryBytes_invalidateByItemId (env : CacheEnv κ) (c : SimilarityCache κ)
    (itemId : Bytes) :
    (c.invalidateByItemId env itemId).maxMemoryBytes = c.maxMemoryBytes := by
  unfold SimilarityCache.invalidateByItemId
  split
  · rfl
  · exact maxMemoryBytes_eraseAll env _ _

end SimilarityCache

end Nvecd.Cache
