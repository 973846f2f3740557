/-
  File:      Nvecd/Cache/CacheInvariant.lean
  Subject:   The cache over whole runs: what its tables have in common, what it has room for, and
             what it answers.

  The operations come in any order, with any readings of the clock, and other operations may come
  between the halves of a lookup. Beside the cache runs a ledger of the results that were inserted
  under each key and not taken back since.

  * `Stored`, `CacheLedger` -- what was inserted;
  * `CacheMachine`, `CacheMachine.step` -- the operations in any order;
  * `CacheMachine.Inv`, `inv_step` -- the invariant;
  * `cache_sound` -- in every state that is reached, whatever is found is what was inserted last.
-/
import Nvecd.Cache.CacheTables
import Nvecd.Lib.Machine

namespace Nvecd.Cache

open Nvecd.Lib Nvecd.Storage

/-! ## 1. The machine -/

/-- **A result that was inserted**, with the items it is registered under. -/
structure Stored where
  results : List SimilarityResult
  createdAt : Nat
  expiresAt : Option Nat
  items : List Bytes

/-- Past its own expiry, or past the time to live asked for. -/
def Stored.expired (s : Stored) (now ttlSeconds : Nat) : Bool :=
  (s.expiresAt.any fun t => t ≤ now) ||
    (0 < ttlSeconds && ttlSeconds ≤ (now - s.createdAt) / kNanosPerSecond)

/-- **What was inserted last** under each key, and not erased, invalidated, cleared or purged. -/
abbrev CacheLedger (κ : Type) := κ → Option Stored

/-- The operations, with the readings of the clock, and with the sizes the containers have
    afterwards where they grow. -/
inductive CacheOp (κ : Type) where
  /-- `Lookup`, its first half; without a type the time to live is that of the cache. -/
  | lookup (key : κ) (type : Option SearchType) (now : Nat)
  /-- The second half of a lookup. -/
  | finish (i : Nat)
  /-- `Insert` and `InsertAndRegister`. -/
  | insert (key : κ) (results : List SimilarityResult) (cheap : Bool) (type : Option SearchType)
      (itemIds : Option (List Bytes)) (now later : Nat) (sizes : ContainerSizes κ)
  | registerResultItems (key : κ) (itemIds : List Bytes) (sizes : ContainerSizes κ)
  | invalidateByItemId (itemId : Bytes)
  | markInvalidated (key : κ)
  | erase (key : κ)
  | clearIf (predicate : κ → Bool)
  | purgeExpired (now : Nat)
  | clear
  | setTtl (ttlSeconds : Nat)
  | setSearchTypePolicy (type : SearchType) (policy : CachePolicy)
  | setEnabled (enabled : Bool)

/-- The cache, with the lookups between their halves. The ledger is not of the program. -/
structure CacheMachine (κ : Type) [DecidableEq κ] where
  cache : SimilarityCache κ
  sizes : ContainerSizes κ := {}
  pending : List (LookupTail κ) := []
  ledger : CacheLedger κ := fun _ => none

namespace CacheMachine

variable {κ : Type} [DecidableEq κ] (p : Packing)

/-- The sizes are the new ones as long as the key is there: a new key goes last, when the rest has
    gone. -/
def growing (key : κ) (sizes sizes' : ContainerSizes κ) : CacheEnv κ :=
  p.env fun t =>
    if t.cacheMap.contains key then estimateMemoryLocked sizes' t else estimateMemoryLocked sizes t

/-- The time to live of a lookup or an insertion. -/
def ttlOf (c : SimilarityCache κ) : Option SearchType → Option Nat
  | none => some c.ttlSeconds
  | some type => c.effectiveTtl type

/-- An insertion, and the ledger if it succeeds. -/
def insert (m : CacheMachine κ) (key : κ) (results : List SimilarityResult) (cheap : Bool)
    (ttlSeconds : Nat) (itemIds : Option (List Bytes)) (now later : Nat)
    (sizes : ContainerSizes κ) : CacheMachine κ :=
  match m.cache.insertWithTtl (growing p key m.sizes sizes) now later key results cheap ttlSeconds
      itemIds with
  | (cache, false) => { m with cache := cache }
  | (cache, true) =>
    { m with
      cache := cache
      sizes := sizes
      ledger := Function.update m.ledger key
        (some ⟨results, now, computeExpiry later ttlSeconds, trackItems [] (itemIds.getD [])⟩) }

/-- The estimate as it stands. -/
def env (m : CacheMachine κ) : CacheEnv κ := p.env (estimateMemoryLocked m.sizes)

/-- **One operation.** -/
def step (m : CacheMachine κ) : CacheOp κ → Option (CacheMachine κ)
  | .lookup key type now =>
    match ttlOf m.cache type with
    | none => some m
    | some ttlSeconds =>
      let (cache, _, tail) := m.cache.lookupRead (m.env p) now key ttlSeconds
      some { m with cache := cache, pending := m.pending ++ tail.toList }
  | .finish i =>
    match m.pending[i]? with
    | none => none
    | some tail =>
      some { m with
        cache := m.cache.lookupTail (m.env p) tail
        pending := m.pending.eraseIdx i
        ledger := fun key =>
          (m.ledger key).filter fun s =>
            !(tail.erases && key = tail.key && s.createdAt = tail.createdAt) }
  | .insert key results cheap type itemIds now later sizes =>
    match ttlOf m.cache type with
    | none => some m
    | some ttlSeconds => some (m.insert p key results cheap ttlSeconds itemIds now later sizes)
  | .registerResultItems key itemIds sizes =>
    some { m with
      cache := m.cache.registerResultItems (p.env (estimateMemoryLocked sizes)) key itemIds
      sizes := if m.cache.tables.cacheMap.contains key then sizes else m.sizes
      ledger := Function.update m.ledger key
        ((m.ledger key).map fun s => { s with items := trackItems s.items itemIds }) }
  | .invalidateByItemId itemId =>
    some { m with
      cache := m.cache.invalidateByItemId (m.env p) itemId
      ledger := fun key => (m.ledger key).filter fun s => itemId ∉ s.items }
  | .markInvalidated key =>
    some { m with
      cache := m.cache.markInvalidated key
      ledger := Function.update m.ledger key none }
  | .erase key =>
    some { m with
      cache := (m.cache.eraseLocked (m.env p) key).1
      ledger := Function.update m.ledger key none }
  | .clearIf predicate =>
    some { m with
      cache := m.cache.clearIf (m.env p) predicate
      ledger := fun key => if predicate key then none else m.ledger key }
  | .purgeExpired now =>
    some { m with
      cache := m.cache.purgeExpired (m.env p) now
      ledger := fun key => (m.ledger key).filter fun s => !s.expired now m.cache.ttlSeconds }
  | .clear => some { m with cache := m.cache.clear, ledger := fun _ => none }
  | .setTtl ttlSeconds => some { m with cache := { m.cache with ttlSeconds := ttlSeconds } }
  | .setSearchTypePolicy type policy =>
    some { m with
      cache := { m.cache with policies := Function.update m.cache.policies type policy } }
  | .setEnabled enabled => some { m with cache := { m.cache with enabled := enabled } }

/-- A new cache. -/
def start (maxMemoryBytes evictionBatchSize ttlSeconds : Nat) : CacheMachine κ where
  cache := {
    maxMemoryBytes := maxMemoryBytes
    evictionBatchSize := max 1 evictionBatchSize
    ttlSeconds := ttlSeconds }

end CacheMachine

/-! ## 2. Every run -/

namespace CacheMachine

variable {κ : Type} [DecidableEq κ] {p : Packing}

/-- An entry and what stands in the ledger are one. -/
def Records (p : Packing) (entry : CachedEntry) (s : Stored) : Prop :=
  p.pack s.results = some entry.compressedData ∧ entry.createdAt = s.createdAt ∧
    entry.expiresAt = s.expiresAt ∧ entry.referencedItemIds = s.items

/-- Every entry that is not marked stands in the ledger. -/
def Kept (p : Packing) (c : SimilarityCache κ) (ledger : CacheLedger κ) : Prop :=
  ∀ key entry, c.tables.cacheMap.find? key = some entry → entry.invalidated = false →
    ∃ s, ledger key = some s ∧ Records p entry s

/-- **The invariant.** -/
structure Inv (p : Packing) (m : CacheMachine κ) : Prop where
  core : m.cache.Core none
  estimated : m.cache.Estimated (m.env p)
  room : m.cache.totalMemoryBytes ≤ m.cache.maxMemoryBytes
  kept : Kept p m.cache m.ledger

theorem Records.expired {entry : CachedEntry} {s : Stored} (h : Records p entry s)
    (now ttlSeconds : Nat) : entry.expired now ttlSeconds = s.expired now ttlSeconds := by
  obtain ⟨-, hcreated, hexpires, -⟩ := h
  rw [CachedEntry.expired, Stored.expired, hcreated, hexpires]

theorem estimatesEmpty (sizes : ContainerSizes κ) :
    SimilarityCache.EstimatesEmpty (p.env (estimateMemoryLocked sizes)) :=
  fun _ hmap hindex => if_pos ⟨hmap, hindex⟩

theorem inv_start (maxMemoryBytes evictionBatchSize ttlSeconds : Nat) :
    (start (κ := κ) maxMemoryBytes evictionBatchSize ttlSeconds).Inv p where
  core := ⟨.empty, rfl, rfl⟩
  estimated := rfl
  room := Nat.zero_le _
  kept key entry h := by cases h

section Steps

variable {m : CacheMachine κ}

/-- Erasing keys keeps the invariant, if the ledger forgets no more than these keys. -/
theorem Inv.eraseAll (h : m.Inv p) (keys : List κ) {ledger : CacheLedger κ}
    (hledger : ∀ key entry s, m.cache.tables.cacheMap.find? key = some entry → key ∉ keys →
      m.ledger key = some s → Records p entry s → ledger key = some s)
    (pending : List (LookupTail κ)) :
    Inv p { m with
      cache := m.cache.eraseAll (m.env p) keys, pending := pending, ledger := ledger } := by
  have hest : (m.cache.eraseAll (m.env p) keys).Estimated (m.env p) := h.estimated.eraseAll keys
  refine ⟨h.core.eraseAll keys, hest, ?_, ?_⟩
  · have hle := SimilarityCache.estimate_eraseAll_le m.sizes (m.env p) m.cache keys
    have htotal : m.cache.totalMemoryBytes = estimateMemoryLocked m.sizes m.cache.tables :=
      h.estimated
    have htotal' : (m.cache.eraseAll (m.env p) keys).totalMemoryBytes =
        estimateMemoryLocked m.sizes (m.cache.eraseAll (m.env p) keys).tables := hest
    have hroom := h.room
    have hmax := SimilarityCache.maxMemoryBytes_eraseAll (m.env p) m.cache keys
    dsimp only
    omega
  · intro key entry hfind hvalid
    dsimp only at hfind
    rw [SimilarityCache.find?_eraseAll] at hfind
    split at hfind
    · cases hfind
    · rename_i hkey
      obtain ⟨s, hs, hrec⟩ := h.kept key entry hfind hvalid
      exact ⟨s, hledger key entry s hfind hkey hs hrec, hrec⟩

/-- The first half of a lookup only counts. -/
theorem Inv.lookupRead (h : m.Inv p) (now : Nat) (key : κ) (ttlSeconds : Nat)
    (pending : List (LookupTail κ)) :
    Inv p { m with
      cache := (m.cache.lookupRead (m.env p) now key ttlSeconds).1, pending := pending } := by
  have hmiss : Inv p { m with cache := m.cache.countMiss, pending := pending } := by
    refine ⟨⟨h.core.tables, h.core.entries, ?_⟩, h.estimated, h.room, h.kept⟩
    show m.cache.stats.cacheHits + (m.cache.stats.cacheMisses + 1) = m.cache.stats.totalQueries + 1
    rw [← h.core.counted]
    omega
  have hhit : Inv p { m with cache := m.cache.countHit, pending := pending } := by
    refine ⟨⟨h.core.tables, h.core.entries, ?_⟩, h.estimated, h.room, h.kept⟩
    show m.cache.stats.cacheHits + 1 + m.cache.stats.cacheMisses = m.cache.stats.totalQueries + 1
    rw [← h.core.counted]
    omega
  unfold SimilarityCache.lookupRead
  split
  · exact ⟨h.core, h.estimated, h.room, h.kept⟩
  · split
    · exact hmiss
    · split
      · exact hmiss
      · split
        · exact hmiss
        · split
          · exact hmiss
          · exact hhit

/-- The second half erases the entry that was found, or touches it. -/
theorem Inv.lookupTail (h : m.Inv p) (tail : LookupTail κ) (pending : List (LookupTail κ)) :
    Inv p { m with
      cache := m.cache.lookupTail (m.env p) tail, pending := pending,
      ledger := fun key => (m.ledger key).filter fun s =>
        !(tail.erases && key = tail.key && s.createdAt = tail.createdAt) } := by
  -- an entry of another key, or of another time, stays in the ledger
  have hstays : ∀ key s, m.ledger key = some s →
      (tail.erases = false ∨ key ≠ tail.key ∨ s.createdAt ≠ tail.createdAt) →
      ((m.ledger key).filter fun s =>
        !(tail.erases && key = tail.key && s.createdAt = tail.createdAt)) = some s := by
    intro key s hs hne
    rw [hs, Option.filter_some, if_pos]
    rcases hne with hne | hne | hne <;> simp [hne]
  unfold SimilarityCache.lookupTail
  cases hfind : m.cache.tables.cacheMap.find? tail.key with
  | none =>
    refine ⟨h.core, h.estimated, h.room, fun key entry hkey hvalid => ?_⟩
    obtain ⟨s, hs, hrec⟩ := h.kept key entry hkey hvalid
    refine ⟨s, hstays key s hs (.inr (.inl ?_)), hrec⟩
    rintro rfl
    dsimp only at hkey
    rw [hfind] at hkey
    cases hkey
  | some found =>
    dsimp only
    split
    · rename_i hother
      refine ⟨h.core, h.estimated, h.room, fun key entry hkey hvalid => ?_⟩
      obtain ⟨s, hs, hrec⟩ := h.kept key entry hkey hvalid
      refine ⟨s, hstays key s hs (.inr ?_), hrec⟩
      by_cases hk : key = tail.key
      · subst hk
        dsimp only at hkey
        rw [hfind] at hkey
        cases hkey
        exact .inr (hrec.2.1 ▸ hother)
      · exact .inl hk
    · split
      · refine h.eraseAll [tail.key] (fun key entry s hkey hnot hs hrec => ?_) pending
        exact hstays key s hs (.inr (.inl (by simpa using hnot)))
      · rename_i herases
        refine ⟨h.core.touch tail.key, h.estimated.touch h.core tail.key, ?_, ?_⟩
        · show (m.cache.touch tail.key).totalMemoryBytes ≤ (m.cache.touch tail.key).maxMemoryBytes
          unfold SimilarityCache.touch
          split
          · exact h.room
          · exact h.room
        · intro key entry hkey hvalid
          dsimp only at hkey
          rw [SimilarityCache.cacheMap_touch] at hkey
          obtain ⟨s, hs, hrec⟩ := h.kept key entry hkey hvalid
          exact ⟨s, hstays key s hs (.inl (by simpa using herases)), hrec⟩

/-- An insertion. -/
theorem Inv.insert (h : m.Inv p) (key : κ) (results : List SimilarityResult) (cheap : Bool)
    (ttlSeconds : Nat) (itemIds : Option (List Bytes)) (now later : Nat)
    (sizes : ContainerSizes κ) :
    (m.insert p key results cheap ttlSeconds itemIds now later sizes).Inv p := by
  have hempty : SimilarityCache.EstimatesEmpty (growing p key m.sizes sizes) := by
    intro t hmap hindex
    show (if _ then _ else _) = 0
    split
    · exact estimatesEmpty (p := p) sizes t hmap hindex
    · exact estimatesEmpty (p := p) m.sizes t hmap hindex
  have hold : ∀ c : SimilarityCache κ, c.tables.cacheMap.find? key = none →
      (c.Estimated (growing p key m.sizes sizes) ↔ c.Estimated (m.env p)) := by
    intro c hnone
    unfold SimilarityCache.Estimated
    show _ = (if _ then _ else _) ↔ _
    rw [if_neg (by simp [AssocMap.contains, hnone])]
    rfl
  unfold CacheMachine.insert
  obtain heq | ⟨c', ok, heq, hcore, hest, hmax, hroom, hothers, hkey⟩ :=
    SimilarityCache.insertWithTtl_spec now later key results cheap ttlSeconds itemIds h.core
      (fun hnone => (hold _ hnone).mpr h.estimated) hempty
  · rw [heq]
    exact ⟨h.core, h.estimated, h.room, h.kept⟩
  · rw [heq]
    rcases hkey with ⟨rfl, hnone⟩ | ⟨rfl, data, hdata, hfind⟩
    · refine ⟨hcore, (hold c' hnone).mp hest, hmax ▸ hroom, fun k entry hk hvalid => ?_⟩
      refine h.kept k entry (hothers k entry ?_ hk) hvalid
      rintro rfl
      dsimp only at hk
      rw [hnone] at hk
      cases hk
    · refine ⟨hcore, ?_, hmax ▸ hroom, fun k entry hk hvalid => ?_⟩
      · have hnew := hest
        unfold SimilarityCache.Estimated at hnew ⊢
        rw [hnew]
        show (if _ then _ else _) = _
        rw [if_pos (by simp [AssocMap.contains, hfind])]
        rfl
      · dsimp only at hk ⊢
        by_cases hk' : k = key
        · subst hk'
          rw [hfind] at hk
          cases hk
          exact ⟨_, Function.update_self .., hdata, rfl, rfl, rfl⟩
        · rw [Function.update_of_ne hk']
          exact h.kept k entry (hothers k entry hk' hk) hvalid

/-- A registration. -/
theorem Inv.registerResultItems (h : m.Inv p) (key : κ) (itemIds : List Bytes)
    (sizes : ContainerSizes κ) :
    Inv p { m with
      cache := m.cache.registerResultItems (p.env (estimateMemoryLocked sizes)) key itemIds,
      sizes := if m.cache.tables.cacheMap.contains key then sizes else m.sizes,
      ledger := Function.update m.ledger key
        ((m.ledger key).map fun s => { s with items := trackItems s.items itemIds }) } := by
  cases hfind : m.cache.tables.cacheMap.find? key with
  | none =>
    have hsame : m.cache.registerResultItems (p.env (estimateMemoryLocked sizes)) key itemIds =
        m.cache := by
      rw [SimilarityCache.registerResultItems, hfind]
    rw [hsame, if_neg (by simp [AssocMap.contains, hfind])]
    refine ⟨h.core, h.estimated, h.room, fun k entry hk hvalid => ?_⟩
    have hne : k ≠ key := by
      rintro rfl
      dsimp only at hk
      rw [hfind] at hk
      cases hk
    dsimp only
    rw [Function.update_of_ne hne]
    exact h.kept k entry hk hvalid
  | some entry =>
    obtain ⟨hcore, hest, hmax, hroom, hentries⟩ :=
      SimilarityCache.registerResultItems_spec h.core hfind (estimatesEmpty (p := p) sizes) itemIds
    rw [if_pos (by simp [AssocMap.contains, hfind])]
    refine ⟨hcore, hest, hmax ▸ hroom, fun k e hk hvalid => ?_⟩
    have hbefore := hentries k e hk
    dsimp only
    by_cases hk' : k = key
    · subst hk'
      rw [if_pos rfl] at hbefore
      subst hbefore
      obtain ⟨s, hs, hpack, hcreated, hexpires, hitems⟩ := h.kept k entry hfind hvalid
      rw [Function.update_self, hs]
      exact ⟨_, rfl, hpack, hcreated, hexpires, by rw [hitems]⟩
    · rw [if_neg hk'] at hbefore
      rw [Function.update_of_ne hk']
      exact h.kept k e hbefore hvalid

theorem Inv.markInvalidated (h : m.Inv p) (key : κ) :
    Inv p { m with
      cache := m.cache.markInvalidated key, ledger := Function.update m.ledger key none } := by
  unfold SimilarityCache.markInvalidated
  cases hfind : m.cache.tables.cacheMap.find? key with
  | none =>
    refine ⟨h.core, h.estimated, h.room, fun k entry hk hvalid => ?_⟩
    have hne : k ≠ key := by
      rintro rfl
      dsimp only at hk
      rw [hfind] at hk
      cases hk
    dsimp only
    rw [Function.update_of_ne hne]
    exact h.kept k entry hk hvalid
  | some entry =>
    have hmem : key ∈ m.cache.tables.cacheMap.keys := AssocMap.mem_keys.mpr ⟨entry, hfind⟩
    refine ⟨h.core.replace hfind rfl, ?_, h.room, fun k e hk hvalid => ?_⟩
    · refine h.estimated.trans (estimate_congr_keys m.sizes ?_)
      exact (AssocMap.keys_insert_of_mem hmem).symm
    · dsimp only at hk ⊢
      rw [AssocMap.find?_insert] at hk
      split at hk
      · cases hk
        cases hvalid
      · rename_i hne
        rw [Function.update_of_ne hne]
        exact h.kept k e hk hvalid

theorem Inv.invalidateByItemId (h : m.Inv p) (itemId : Bytes) :
    Inv p { m with
      cache := m.cache.invalidateByItemId (m.env p) itemId,
      ledger := fun key => (m.ledger key).filter fun s => itemId ∉ s.items } := by
  have hest := h.estimated.invalidateByItemId h.core itemId
  refine ⟨h.core.invalidateByItemId itemId, hest, ?_, fun k entry hk hvalid => ?_⟩
  · have hle := SimilarityCache.estimate_invalidateByItemId_le m.sizes (m.env p) m.cache itemId
    have htotal : m.cache.totalMemoryBytes = estimateMemoryLocked m.sizes m.cache.tables :=
      h.estimated
    have htotal' : (m.cache.invalidateByItemId (m.env p) itemId).totalMemoryBytes =
        estimateMemoryLocked m.sizes (m.cache.invalidateByItemId (m.env p) itemId).tables := hest
    have hroom := h.room
    have hmax := SimilarityCache.maxMemoryBytes_invalidateByItemId (m.env p) m.cache itemId
    dsimp only
    omega
  · dsimp only at hk ⊢
    rw [SimilarityCache.find?_invalidateByItemId h.core, Option.filter_eq_some_iff] at hk
    obtain ⟨s, hs, hrec⟩ := h.kept k entry hk.1 hvalid
    refine ⟨s, ?_, hrec⟩
    rw [hs, Option.filter_some, if_pos]
    rw [← hrec.2.2.2]
    exact hk.2

/-- **Every operation keeps the invariant.** -/
theorem inv_step {m' : CacheMachine κ} {op : CacheOp κ} (h : m.Inv p)
    (hstep : m.step p op = some m') : m'.Inv p := by
  cases op with
  | lookup key type now =>
    simp only [step] at hstep
    split at hstep
    · cases hstep
      exact h
    · cases hstep
      exact h.lookupRead now key _ _
  | finish i =>
    simp only [step] at hstep
    split at hstep
    · cases hstep
    · cases hstep
      exact h.lookupTail _ _
  | insert key results cheap type itemIds now later sizes =>
    simp only [step] at hstep
    split at hstep
    · cases hstep
      exact h
    · cases hstep
      exact h.insert key results cheap _ itemIds now later sizes
  | registerResultItems key itemIds sizes =>
    cases hstep
    exact h.registerResultItems key itemIds sizes
  | invalidateByItemId itemId =>
    cases hstep
    exact h.invalidateByItemId itemId
  | markInvalidated key =>
    cases hstep
    exact h.markInvalidated key
  | erase key =>
    cases hstep
    refine h.eraseAll [key] (fun k entry s _ hnot hs _ => ?_) m.pending
    rw [Function.update_of_ne (by simpa using hnot)]
    exact hs
  | clearIf predicate =>
    cases hstep
    refine h.eraseAll _ (fun k entry s hfind hnot hs _ => ?_) m.pending
    rw [if_neg]
    · exact hs
    · intro hpred
      exact hnot (List.mem_filter.mpr ⟨AssocMap.mem_keys.mpr ⟨entry, hfind⟩, hpred⟩)
  | purgeExpired now =>
    cases hstep
    refine h.eraseAll _ (fun k entry s hfind hnot hs hrec => ?_) m.pending
    rw [hs, Option.filter_some, if_pos]
    rw [← hrec.expired]
    by_contra hexp
    refine hnot (AssocMap.mem_keys.mpr ⟨entry, ?_⟩)
    rw [AssocMap.find?_filter, hfind]
    simp only [Bool.not_eq_true', Bool.not_eq_false] at hexp
    simp [Option.filter, hexp]
  | clear =>
    cases hstep
    exact ⟨⟨.empty, rfl, h.core.counted⟩, rfl, Nat.zero_le _, fun key entry hk => by cases hk⟩
  | setTtl ttlSeconds =>
    cases hstep
    exact ⟨⟨h.core.tables, h.core.entries, h.core.counted⟩, h.estimated, h.room, h.kept⟩
  | setSearchTypePolicy type policy =>
    cases hstep
    exact ⟨⟨h.core.tables, h.core.entries, h.core.counted⟩, h.estimated, h.room, h.kept⟩
  | setEnabled enabled =>
    cases hstep
    exact ⟨⟨h.core.tables, h.core.entries, h.core.counted⟩, h.estimated, h.room, h.kept⟩

/-- **A hit** is what the ledger has. -/
theorem Inv.hit (h : m.Inv p) {now ttlSeconds : Nat} {key : κ} {results : List SimilarityResult}
    (hhit : (m.cache.lookupRead (m.env p) now key ttlSeconds).2.1 = some results) :
    ∃ s, m.ledger key = some s ∧ s.results = results ∧ s.expired now ttlSeconds = false := by
  unfold SimilarityCache.lookupRead at hhit
  split at hhit
  · cases hhit
  · split at hhit
    · cases hhit
    · rename_i entry hfind
      split at hhit
      · cases hhit
      · rename_i hvalid
        split at hhit
        · cases hhit
        · rename_i hfresh
          obtain ⟨s, hs, hrec⟩ := h.kept key entry hfind (by simpa using hvalid)
          have hunpack : (m.env p).decompress entry.compressedData = some s.results :=
            Packing.unpack_pack hrec.1
          rw [hunpack] at hhit
          cases hhit
          exact ⟨s, hs, rfl, by rw [← hrec.expired]; simpa using hfresh⟩

end Steps

/-- **The cache over every run**: list and map have the same keys, none twice; a key is in the row
    of an item exactly if its entry refers to the item; the entries and the queries are counted; the
    memory is the estimate and within the limit; and what a lookup finds is what was inserted last
    under the key, not taken back and not expired. -/
theorem cache_sound (p : Packing) (maxMemoryBytes evictionBatchSize ttlSeconds : Nat)
    (ops : List (CacheOp κ)) (m : CacheMachine κ)
    (hrun : run (step p) (start maxMemoryBytes evictionBatchSize ttlSeconds) ops = some m) :
    m.cache.tables.lruList.Nodup ∧
      (∀ key, key ∈ m.cache.tables.lruList ↔ key ∈ m.cache.tables.cacheMap.keys) ∧
      (∀ itemId key, key ∈ rowOf m.cache.tables.itemToCacheKeys itemId ↔
        ∃ entry, m.cache.tables.cacheMap.find? key = some entry ∧
          itemId ∈ entry.referencedItemIds) ∧
      m.cache.stats.currentEntries = m.cache.tables.cacheMap.size ∧
      m.cache.stats.cacheHits + m.cache.stats.cacheMisses = m.cache.stats.totalQueries ∧
      m.cache.totalMemoryBytes = estimateMemoryLocked m.sizes m.cache.tables ∧
      m.cache.totalMemoryBytes ≤ m.cache.maxMemoryBytes ∧
      ∀ now key ttlSeconds results,
        (m.cache.lookupRead (m.env p) now key ttlSeconds).2.1 = some results →
        ∃ s, m.ledger key = some s ∧ s.results = results ∧ s.expired now ttlSeconds = false := by
  have hstep : ∀ s op s', Inv p s → step (κ := κ) p s op = some s' → Inv p s' :=
    fun _ _ _ hs hop => inv_step hs hop
  have h : Inv p m := run_inv hstep (inv_start _ _ _) hrun
  refine ⟨h.core.tables.nodup, h.core.tables.keys, fun itemId key => ?_, h.core.entries,
    h.core.counted, h.estimated, h.room, fun now key ttlSeconds results hhit => h.hit hhit⟩
  exact h.core.tables.index itemId key (by simp)

/-- A packing that keeps the bytes as they are. -/
def plainPacking : Packing where
  lz4 := {
    compress := fun source => if source = [] ∨ kIntMax < source.length then none else some source
    decompress := fun data _ => some data
    lossless := fun source data h => by
      split at h
      · cases h
      · cases h; rfl
    nonempty := fun source data h => by
      split at h
      · cases h
      · rename_i hne; cases h; exact fun hnil => hne (.inl hnil)
    bounded := fun source data h => by
      split at h
      · cases h
      · rename_i hne; cases h; exact not_lt.mp fun hlt => hne (.inr hlt) }
  entryMemory := fun data => 64 + data.length

/-- Two results come in, the second makes the first one go, its item is invalidated between the
    halves of a lookup, and another result comes in. -/
def replacedBetween : List (CacheOp Nat) :=
  let sizes : ContainerSizes Nat := { entryBytes := fun _ => 400, rowBytes := fun _ => 40 }
  [.insert 1 [⟨[97], 7⟩] false none (some [[97]]) 10 10 sizes,
    .insert 2 [⟨[98], 8⟩] false none (some [[98]]) 20 20 sizes,
    .lookup 2 none 25, .invalidateByItemId [98], .finish 0,
    .insert 2 [⟨[99], 9⟩] false none (some [[99]]) 30 30 sizes]

theorem cache_sound_replacedBetween :
    ∃ m : CacheMachine Nat, run (step plainPacking) (start 600 1 0) replacedBetween = some m ∧
      m.cache.tables.lruList = [2] ∧ ∃ s, m.ledger 2 = some s ∧ s.results = [⟨[99], 9⟩] := by
  have hkeys : (run (step plainPacking) (start 600 1 0) replacedBetween).map
      (·.cache.tables.lruList) = some [2] := by decide +kernel
  have hfound : (run (step plainPacking) (start 600 1 0) replacedBetween).map
      (fun m => (m.cache.lookupRead (m.env plainPacking) 40 2 0).2.1) =
        some (some [⟨[99], 9⟩]) := by decide +kernel
  obtain ⟨m, hm, hlru⟩ := Option.map_eq_some_iff.mp hkeys
  rw [hm, Option.map_some, Option.some.injEq] at hfound
  obtain ⟨-, -, -, -, -, -, -, hhit⟩ := cache_sound plainPacking 600 1 0 replacedBetween m hm
  obtain ⟨s, hs, hresults, -⟩ := hhit 40 2 0 _ hfound
  exact ⟨m, hm, hlru, s, hs, hresults⟩

end CacheMachine

end Nvecd.Cache
