/-
  File:      Nvecd/Server/CacheTransparency.lean
  Subject:   The cache cannot be seen in an answer: behind any requests over both front ends, a
             query is answered as it would be with the cache switched off.

  A key has the generation counters in it, and a store that has been changed has its counter
  raised before the next request comes. The counters may fall when a snapshot is loaded, but then
  the data set has a new number. So a result that is found under the key of the present counters
  was computed from stores that are still the same, whichever front end put it there, whatever has
  been written, cleared, switched off and on again in between.

  * `Generations.Before` -- the order in which versions go by;
  * `ServerContext.Progresses` -- a step leaves a part alone or raises its counter, and every
    write, load and decay is such a step;
  * `queryMemo` -- queries as questions about the stores, whose answers the cache keeps;
  * `runQuery_sound` -- a query keeps the cache sound and is answered with its value;
  * `cache_transparent`.
-/
import Nvecd.Cache.CacheInvariant
import Nvecd.Lib.Memo
import Nvecd.Server.FrontEnds
import Nvecd.Storage.SnapshotStream

namespace Nvecd.Server

open Nvecd.Lib Nvecd.Utils Nvecd.Storage Nvecd.Events Nvecd.Vectors Nvecd.Similarity Nvecd.Cache

/-! ## 1. Versions -/

namespace Generations

/-- A version gone by: of an earlier data set, or of this one with no counter above its own. -/
def Before (g g' : Generations) : Prop :=
  g.dataset < g'.dataset ∨ g.dataset = g'.dataset ∧ g.cooccurrence ≤ g'.cooccurrence ∧
    g.vectors ≤ g'.vectors ∧ g.metadata ≤ g'.metadata

theorem Before.refl (g : Generations) : g.Before g :=
  .inr ⟨rfl, Nat.le_refl _, Nat.le_refl _, Nat.le_refl _⟩

theorem Before.trans {g g' g'' : Generations} (h : g.Before g') (h' : g'.Before g'') :
    g.Before g'' := by
  rcases h with h | ⟨hd, hc, hv, hm⟩
  · rcases h' with h' | ⟨hd', -⟩
    · exact .inl (Nat.lt_trans h h')
    · exact .inl (hd' ▸ h)
  · rcases h' with h' | ⟨hd', hc', hv', hm'⟩
    · exact .inl (hd ▸ h')
    · exact .inr ⟨hd.trans hd', hc.trans hc', hv.trans hv', hm.trans hm'⟩

end Generations

instance instPreorderGenerations : Preorder Generations where
  le := Generations.Before
  le_refl := Generations.Before.refl
  le_trans := fun _ _ _ => Generations.Before.trans

section Steps

variable {F A κ : Type} [DecidableEq κ]

/-- **A step leaves a part alone or raises its counter**, or begins a new data set. -/
structure ServerContext.Progresses (sc sc' : ServerContext F A κ) : Prop where
  le : sc.counters ≤ sc'.counters
  cooccurrence : sc'.datasetGeneration = sc.datasetGeneration →
    sc'.stores.coIndex.generation = sc.stores.coIndex.generation →
      sc'.stores.coIndex = sc.stores.coIndex
  vectors : sc'.datasetGeneration = sc.datasetGeneration →
    sc'.vectorGeneration = sc.vectorGeneration →
      sc'.stores.vectorStore = sc.stores.vectorStore ∧ sc'.engine = sc.engine
  metadata : sc'.datasetGeneration = sc.datasetGeneration →
    sc'.metadataGeneration = sc.metadataGeneration →
      sc'.stores.metadataStore = sc.stores.metadataStore

namespace ServerContext

variable {env : ServerEnv κ} {sc sc' : ServerContext F A κ}

/-- A step on one data set, part by part. -/
theorem Progresses.of_parts (hdataset : sc'.datasetGeneration = sc.datasetGeneration)
    (hco : sc.stores.coIndex.Advances sc'.stores.coIndex)
    (hvectors : sc.vectorGeneration ≤ sc'.vectorGeneration ∧
      (sc'.vectorGeneration = sc.vectorGeneration →
        sc'.stores.vectorStore = sc.stores.vectorStore ∧ sc'.engine = sc.engine))
    (hmetadata : sc.metadataGeneration ≤ sc'.metadataGeneration ∧
      (sc'.metadataGeneration = sc.metadataGeneration →
        sc'.stores.metadataStore = sc.stores.metadataStore)) : sc.Progresses sc' where
  le := .inr ⟨hdataset.symm, hco.1, hvectors.1, hmetadata.1⟩
  cooccurrence _ := hco.2
  vectors _ := hvectors.2
  metadata _ := hmetadata.2

/-- A step that is not seen in the stores. -/
theorem Progresses.of_same (hstores : sc'.stores = sc.stores) (hengine : sc'.engine = sc.engine)
    (hcounters : sc'.counters = sc.counters) : sc.Progresses sc' where
  le := hcounters ▸ Generations.Before.refl _
  cooccurrence _ _ := by rw [hstores]
  vectors _ _ := ⟨by rw [hstores], hengine⟩
  metadata _ _ := by rw [hstores]

/-! ### Writes over TCP -/

theorem updateCache_fields (f : SimilarityCache κ → SimilarityCache κ)
    (sc : ServerContext F A κ) :
    sc.updateCache f = { sc with cache := (sc.updateCache f).cache } := by
  unfold updateCache
  split <;> rfl

/-- What the steps of a write make of the vectors, `v` as in its discipline. -/
theorem vectors_runSteps (env : ServerEnv κ) {steps : List (HandlerStep F A)} {v m : Bool}
    {closed : Option Nat} {gen : Nat} (h : Disciplined v m closed gen steps)
    (sc : ServerContext F A κ) :
    sc.vectorGeneration ≤ (runSteps env sc steps).vectorGeneration ∧
      (v = true → sc.vectorGeneration < (runSteps env sc steps).vectorGeneration) ∧
      ((runSteps env sc steps).vectorGeneration = sc.vectorGeneration →
        (runSteps env sc steps).stores.vectorStore = sc.stores.vectorStore ∧
          (runSteps env sc steps).engine = sc.engine) := by
  induction steps generalizing v m closed gen sc with
  | nil =>
    obtain ⟨rfl, -, -⟩ := h
    exact ⟨Nat.le_refl _, fun hv => absurd hv Bool.false_ne_true, fun _ => ⟨rfl, rfl⟩⟩
  | cons s steps ih =>
    rw [runSteps, List.foldl_cons, ← runSteps]
    cases s with
    | log wal readOnly => exact ih h (runStep env sc (.log wal readOnly))
    | events es => exact ih h (runStep env sc (.events es))
    | enterCo => exact ih h.2 (runStep env sc .enterCo)
    | bumpCo => exact ih h.2 (runStep env sc .bumpCo)
    | leaveCo co => exact ih h.2.2 (runStep env sc (.leaveCo co))
    | metadata ms => exact ih (v := v) h (runStep env sc (.metadata ms))
    | bumpMetadata => exact ih (v := v) h (runStep env sc .bumpMetadata)
    | invalidate id =>
      have hrest := ih h (runStep env sc (.invalidate id))
      rw [runStep, updateCache_fields] at hrest ⊢
      exact hrest
    | clearCache =>
      have hrest := ih h (runStep env sc .clearCache)
      rw [runStep, updateCache_fields] at hrest ⊢
      exact hrest
    | vectors vs =>
      -- the counter is still to be raised
      obtain ⟨hle, hlt, -⟩ := ih (v := true) h (runStep env sc (.vectors vs))
      have hlt := hlt rfl
      simp only [runStep] at hle hlt ⊢
      exact ⟨hle, fun _ => hlt, fun heq => absurd heq (by omega)⟩
    | index engine =>
      obtain ⟨hle, hlt, -⟩ := ih (v := true) h (runStep env sc (.index engine))
      have hlt := hlt rfl
      simp only [runStep] at hle hlt ⊢
      exact ⟨hle, fun _ => hlt, fun heq => absurd heq (by omega)⟩
    | bumpVectors =>
      obtain ⟨hle, -, -⟩ := ih (v := false) h (runStep env sc .bumpVectors)
      simp only [runStep] at hle ⊢
      exact ⟨by omega, fun _ => by omega, fun heq => absurd heq (by omega)⟩

/-- What they make of the metadata. -/
theorem metadata_runSteps (env : ServerEnv κ) {steps : List (HandlerStep F A)} {v m : Bool}
    {closed : Option Nat} {gen : Nat} (h : Disciplined v m closed gen steps)
    (sc : ServerContext F A κ) :
    sc.metadataGeneration ≤ (runSteps env sc steps).metadataGeneration ∧
      (m = true → sc.metadataGeneration < (runSteps env sc steps).metadataGeneration) ∧
      ((runSteps env sc steps).metadataGeneration = sc.metadataGeneration →
        (runSteps env sc steps).stores.metadataStore = sc.stores.metadataStore) := by
  induction steps generalizing v m closed gen sc with
  | nil =>
    obtain ⟨-, rfl, -⟩ := h
    exact ⟨Nat.le_refl _, fun hm => absurd hm Bool.false_ne_true, fun _ => rfl⟩
  | cons s steps ih =>
    rw [runSteps, List.foldl_cons, ← runSteps]
    cases s with
    | log wal readOnly => exact ih h (runStep env sc (.log wal readOnly))
    | events es => exact ih h (runStep env sc (.events es))
    | enterCo => exact ih h.2 (runStep env sc .enterCo)
    | bumpCo => exact ih h.2 (runStep env sc .bumpCo)
    | leaveCo co => exact ih h.2.2 (runStep env sc (.leaveCo co))
    | vectors vs => exact ih (m := m) h (runStep env sc (.vectors vs))
    | index engine => exact ih (m := m) h (runStep env sc (.index engine))
    | bumpVectors => exact ih (m := m) h (runStep env sc .bumpVectors)
    | invalidate id =>
      have hrest := ih h (runStep env sc (.invalidate id))
      rw [runStep, updateCache_fields] at hrest ⊢
      exact hrest
    | clearCache =>
      have hrest := ih h (runStep env sc .clearCache)
      rw [runStep, updateCache_fields] at hrest ⊢
      exact hrest
    | metadata ms =>
      obtain ⟨hle, hlt, -⟩ := ih (m := true) h (runStep env sc (.metadata ms))
      have hlt := hlt rfl
      simp only [runStep] at hle hlt ⊢
      exact ⟨hle, fun _ => hlt, fun heq => absurd heq (by omega)⟩
    | bumpMetadata =>
      obtain ⟨hle, -, -⟩ := ih (m := false) h (runStep env sc .bumpMetadata)
      simp only [runStep] at hle ⊢
      exact ⟨by omega, fun _ => by omega, fun heq => absurd heq (by omega)⟩

/-- What they make of the co-occurrence index, which was `closed` at a counter gone by. -/
theorem coIndex_runSteps (env : ServerEnv κ) (sc : ServerContext F A κ)
    {steps : List (HandlerStep F A)} {v m : Bool} {closed : Option Nat}
    (h : Disciplined v m closed sc.stores.coIndex.generation steps) :
    sc.stores.coIndex.generation ≤ (runSteps env sc steps).stores.coIndex.generation ∧
      (∀ n, closed = some n → n < (runSteps env sc steps).stores.coIndex.generation) ∧
      (closed = none →
        (runSteps env sc steps).stores.coIndex.generation = sc.stores.coIndex.generation →
          (runSteps env sc steps).stores.coIndex = sc.stores.coIndex) := by
  induction steps generalizing v m closed sc with
  | nil =>
    obtain ⟨-, -, rfl⟩ := h
    exact ⟨Nat.le_refl _, fun _ hn => absurd hn.symm (Option.some_ne_none _), fun _ _ => rfl⟩
  | cons s steps ih =>
    rw [runSteps, List.foldl_cons, ← runSteps]
    cases s with
    | log wal readOnly => exact ih (runStep env sc (.log wal readOnly)) h
    | events es => exact ih (runStep env sc (.events es)) h
    | vectors vs => exact ih (runStep env sc (.vectors vs)) h
    | metadata ms => exact ih (runStep env sc (.metadata ms)) h
    | index engine => exact ih (runStep env sc (.index engine)) h
    | bumpVectors => exact ih (runStep env sc .bumpVectors) h
    | bumpMetadata => exact ih (runStep env sc .bumpMetadata) h
    | invalidate id =>
      have hstores : (runStep env sc (.invalidate id)).stores = sc.stores := by
        rw [runStep, updateCache_fields]
      rw [← hstores] at h ⊢
      exact ih _ h
    | clearCache =>
      have hstores : (runStep env sc .clearCache).stores = sc.stores := by
        rw [runStep, updateCache_fields]
      rw [← hstores] at h ⊢
      exact ih _ h
    | enterCo =>
      obtain ⟨rfl, h⟩ := h
      obtain ⟨hle, hlt, -⟩ := ih (runStep env sc .enterCo) h
      have hlt := hlt _ rfl
      simp only [runStep] at hle hlt ⊢
      exact ⟨hle, fun _ hn => absurd hn.symm (Option.some_ne_none _), fun _ heq => absurd heq (by omega)⟩
    | bumpCo =>
      obtain ⟨hclosed, h⟩ := h
      obtain ⟨hle, hlt, -⟩ := ih (runStep env sc .bumpCo) h
      simp only [runStep] at hle hlt ⊢
      exact ⟨by omega, hlt, fun hnone => absurd hnone hclosed⟩
    | leaveCo co =>
      obtain ⟨⟨n, rfl, hn⟩, hgen, h⟩ := h
      rw [← hgen] at h
      obtain ⟨hle, -, -⟩ := ih (runStep env sc (.leaveCo co)) h
      simp only [runStep] at hle ⊢
      refine ⟨by omega, fun k hk => ?_, fun hnone => by cases hnone⟩
      cases hk
      omega

theorem datasetGeneration_runSteps (env : ServerEnv κ) (steps : List (HandlerStep F A))
    (sc : ServerContext F A κ) :
    (runSteps env sc steps).datasetGeneration = sc.datasetGeneration := by
  induction steps generalizing sc with
  | nil => rfl
  | cons s steps ih =>
    rw [runSteps, List.foldl_cons, ← runSteps, ih, datasetGeneration_runStep]

/-- **Disciplined steps** leave a part alone or raise its counter. -/
theorem progresses_runSteps (env : ServerEnv κ) {steps : List (HandlerStep F A)}
    (h : Disciplined false false none sc.stores.coIndex.generation steps) :
    sc.Progresses (runSteps env sc steps) := by
  obtain ⟨hvectors, -, hsameVectors⟩ := vectors_runSteps env h sc
  obtain ⟨hmetadata, -, hsameMetadata⟩ := metadata_runSteps env h sc
  obtain ⟨hco, -, hsameCo⟩ := coIndex_runSteps env sc h
  exact .of_parts (datasetGeneration_runSteps env steps sc) ⟨hco, hsameCo rfl⟩
    ⟨hvectors, hsameVectors⟩ ⟨hmetadata, hsameMetadata⟩

theorem fewer_runSteps (env : ServerEnv κ) (steps : List (HandlerStep F A))
    (sc : ServerContext F A κ) : sc.cache.Fewer (runSteps env sc steps).cache := by
  induction steps generalizing sc with
  | nil => exact .refl _
  | cons s steps ih =>
    rw [runSteps, List.foldl_cons, ← runSteps]
    exact (fewer_runStep env sc s).trans (ih _)

/-! ### Writes over HTTP -/

theorem fewer_updateCache {f : SimilarityCache κ → SimilarityCache κ}
    (hf : ∀ c, SimilarityCache.Fewer c (f c)) (sc : ServerContext F A κ) :
    sc.cache.Fewer (sc.updateCache f).cache := by
  unfold updateCache
  split
  · exact hf _
  · exact .refl _

theorem appendToWal_stores {env : Platform} {ctx ctx' : HandlerContext F} {io : WalIo}
    {cmd : Command} {result : Except Error Unit}
    (h : appendToWal env ctx io cmd = (ctx', result)) : ctx'.stores = ctx.stores := by
  obtain ⟨wal, readOnly, hfst⟩ := appendToWal_only env ctx io cmd
  rw [h] at hfst
  have hctx : ctx' = _ := hfst
  rw [hctx]

/-- What the queries read, but for the index of the vectors. -/
structure SameReads (s s' : Stores F) : Prop where
  cooccurrence : s'.coIndex = s.coIndex
  vectors : s'.vectorStore = s.vectorStore
  metadata : s'.metadataStore = s.metadataStore

theorem SameReads.refl (s : Stores F) : SameReads s s := ⟨rfl, rfl, rfl⟩

theorem ingest_reads {ctx ctx' : HandlerContext F} {clock : Clock} {cmd : Command}
    {result : Except Error IngestResult} (h : ingest ctx clock cmd = (ctx', result)) :
    SameReads ctx.stores ctx'.stores := by
  have hctx := ingest_only h
  rw [hctx]
  exact ⟨rfl, rfl, rfl⟩

section Http

variable {env : Platform} {ctx ctx' : HandlerContext F} {io : WalIo}
  {result : Except HttpError Unit}

/-- An event touches the event store and the co-occurrence index. -/
theorem httpHandleEvent_stores [FloatOps F] {clocks : EventClocks} {ctxId id : Bytes}
    {type : EventType} {score : Int} {timestamp : UInt64}
    (h : httpHandleEvent env ctx clocks io ctxId id type score timestamp = (ctx', result)) :
    SameReads ctx.stores ctx'.stores ∨
      ctx.stores.coIndex.Advances ctx'.stores.coIndex ∧
        ctx'.stores.vectorStore = ctx.stores.vectorStore ∧
        ctx'.stores.metadataStore = ctx.stores.metadataStore := by
  unfold httpHandleEvent at h
  dsimp only at h
  split at h
  · cases h
    exact .inl (.refl _)
  · split at h
    · cases h
      exact .inl (.refl _)
    · split at h
      · -- a duplicate
        split at h
        · rename_i hi
          cases h
          exact .inl (ingest_reads hi)
        · rename_i x _ hi
          cases h
          have hreads := ingest_reads hi
          exact .inl ⟨hreads.cooccurrence, hreads.vectors, hreads.metadata⟩
      · split at h
        · rename_i ha
          cases h
          exact .inl (appendToWal_stores ha ▸ .refl _)
        · rename_i ctx₁ ha
          have hstores := appendToWal_stores ha
          split at h
          · rename_i ctx₂ result hi
            obtain ⟨hco, hvectors, hmetadata⟩ := hstores ▸ ingest_reads hi
            split at h
            · cases h
              exact .inl ⟨hco, hvectors, hmetadata⟩
            · cases h
              refine .inr ⟨?_, hvectors, hmetadata⟩
              rw [← hco]
              exact CoOccurrenceIndex.advances_applyIngestedEvent _ _ _ _
          · rename_i ctx₂ e hi
            cases h
            obtain ⟨hco, hvectors, hmetadata⟩ := hstores ▸ ingest_reads hi
            exact .inl ⟨hco, hvectors, hmetadata⟩

/-- A vector that is refused touches nothing, one that is set its store, and metadata theirs. -/
theorem httpHandleVecset_stores {id : Bytes} {vector : List UInt32} {metadata : Option Metadata}
    (h : httpHandleVecset env ctx io id vector metadata = (ctx', result)) :
    ctx'.stores.coIndex = ctx.stores.coIndex ∧
      (result.isOk = false → SameReads ctx.stores ctx'.stores) ∧
      (metadata = none → ctx'.stores.metadataStore = ctx.stores.metadataStore) := by
  unfold httpHandleVecset at h
  dsimp only at h
  split at h
  · cases h
    exact ⟨rfl, fun _ => .refl _, fun _ => rfl⟩
  · split at h
    · cases h
      exact ⟨rfl, fun _ => .refl _, fun _ => rfl⟩
    · split at h
      · cases h
        exact ⟨rfl, fun _ => .refl _, fun _ => rfl⟩
      · rename_i hvalid
        have hlogged : ∀ {x : HandlerContext F} {r : Except Error Unit},
            (if (vecsetLogEntry ctx.config.includeVectors id vector metadata).type ≠ .kUnknown then
              appendToWal env ctx io (vecsetLogEntry ctx.config.includeVectors id vector metadata)
              else (ctx, .ok ())) = (x, r) → x.stores = ctx.stores := by
          intro x r hx
          split at hx
          · exact appendToWal_stores hx
          · cases hx
            rfl
        split at h
        · rename_i hl
          have hstores := hlogged hl
          cases h
          exact ⟨by rw [hstores], fun _ => hstores ▸ .refl _, fun _ => by rw [hstores]⟩
        · rename_i ctx₁ hl
          have hstores := hlogged hl
          obtain ⟨dim, -, hset⟩ := VectorStore.setVector_ok hvalid
          rw [hstores, hset] at h
          cases h
          cases metadata with
          | none =>
            cases VectorStore.getCompactIndex _ id <;>
              exact ⟨rfl, fun hr => absurd hr Bool.noConfusion, fun _ => rfl⟩
          | some m =>
            cases VectorStore.getCompactIndex _ id <;>
              exact ⟨rfl, fun hr => absurd hr Bool.noConfusion,
                fun hm => absurd hm (Option.some_ne_none _)⟩

/-- A deletion leaves the co-occurrences alone, one that is refused everything. -/
theorem httpHandleVecdel_stores {id : Bytes}
    (h : httpHandleVecdel env ctx io id = (ctx', result)) :
    ctx'.stores.coIndex = ctx.stores.coIndex ∧
      (result.isOk = false → SameReads ctx.stores ctx'.stores) := by
  unfold httpHandleVecdel at h
  split at h
  · cases h
    exact ⟨rfl, fun _ => .refl _⟩
  · split at h
    · cases h
      exact ⟨rfl, fun _ => .refl _⟩
    · rename_i idx hidx
      split at h
      · rename_i ha
        have hstores := appendToWal_stores ha
        cases h
        exact ⟨by rw [hstores], fun _ => hstores ▸ .refl _⟩
      · rename_i ctx₁ ha
        have hstores := appendToWal_stores ha
        split at h
        · rename_i vs hdel
          -- it was there
          have hin : id ∈ ctx.stores.vectorStore.ids := VectorStore.mem_ids.mpr ⟨idx, hidx⟩
          have htrue := VectorStore.deleteVector_snd.mpr hin
          rw [← hstores, hdel] at htrue
          cases htrue
        · cases h
          exact ⟨by rw [hstores], fun hr => absurd hr Bool.noConfusion⟩

theorem httpHandleMetaset_stores {id : Bytes} {metadata : Metadata}
    (h : httpHandleMetaset env ctx io id metadata = (ctx', result)) :
    ctx'.stores.coIndex = ctx.stores.coIndex ∧
      ctx'.stores.vectorStore = ctx.stores.vectorStore ∧
      (result.isOk = false → SameReads ctx.stores ctx'.stores) := by
  unfold httpHandleMetaset at h
  split at h
  · cases h
    exact ⟨rfl, rfl, fun _ => .refl _⟩
  · split at h
    · rename_i ha
      have hstores := appendToWal_stores ha
      cases h
      exact ⟨by rw [hstores], by rw [hstores], fun _ => hstores ▸ .refl _⟩
    · rename_i ctx₁ ha
      have hstores := appendToWal_stores ha
      cases h
      exact ⟨by rw [← hstores]; rfl, by rw [← hstores]; rfl,
        fun hr => absurd hr Bool.noConfusion⟩

end Http

section HttpRequests

variable [AnnIndex A] (env : SurfaceEnv κ) (sc : ServerContext F A κ) (io : WalIo)

omit [AnnIndex A] in
/-- A handler that has refused. -/
theorem progresses_of_reads {ctx : HandlerContext F}
    (h : SameReads sc.stores ctx.stores) : sc.Progresses { sc with toHandlerContext := ctx } :=
  .of_parts rfl ⟨h.cooccurrence ▸ Nat.le_refl _, fun _ => h.cooccurrence⟩
    ⟨Nat.le_refl _, fun _ => ⟨h.vectors, rfl⟩⟩ ⟨Nat.le_refl _, fun _ => h.metadata⟩

theorem notifyAdded_fields (env : ServerEnv κ) (sc : ServerContext F A κ) (id : Bytes) :
    sc.notifyAdded env id = { sc with engine := (sc.notifyAdded env id).engine } := by
  unfold notifyAdded
  split <;> rfl

theorem httpVecset_progresses (body : VecsetBody) :
    sc.Progresses (sc.httpVecset env io body).1 := by
  unfold httpVecset
  split
  · rename_i ctx e h
    exact progresses_of_reads sc ((httpHandleVecset_stores h).2.1 rfl)
  · rename_i ctx h
    obtain ⟨hco, -, hmetadata⟩ := httpHandleVecset_stores h
    dsimp only
    rw [updateCache_fields, notifyAdded_fields]
    refine .of_parts rfl ⟨hco ▸ Nat.le_refl _, fun _ => hco⟩ ⟨Nat.le_succ _, fun heq => ?_⟩
      ⟨Nat.le_add_right _ _, fun heq => ?_⟩
    · exact absurd heq (Nat.succ_ne_self _)
    · cases hm : body.metadata with
      | none => exact hmetadata hm
      | some m =>
        rw [hm] at heq
        exact absurd heq (Nat.succ_ne_self _)

theorem httpVecdel_progresses (id : Bytes) : sc.Progresses (sc.httpVecdel env io id).1 := by
  unfold httpVecdel
  dsimp only
  split
  · rename_i ctx e h
    exact progresses_of_reads sc ((httpHandleVecdel_stores h).2 rfl)
  · rename_i ctx h
    obtain ⟨hco, -⟩ := httpHandleVecdel_stores h
    rw [updateCache_fields]
    exact .of_parts rfl ⟨hco ▸ Nat.le_refl _, fun _ => hco⟩
      ⟨Nat.le_succ _, fun heq => absurd heq (Nat.succ_ne_self _)⟩
      ⟨Nat.le_succ _, fun heq => absurd heq (Nat.succ_ne_self _)⟩

omit [AnnIndex A] in
theorem httpMetaset_progresses (id : Bytes) (metadata : Metadata) :
    sc.Progresses (sc.httpMetaset env io id metadata).1 := by
  unfold httpMetaset
  split
  · rename_i ctx e h
    exact progresses_of_reads sc ((httpHandleMetaset_stores h).2.2 rfl)
  · rename_i ctx h
    obtain ⟨hco, hvectors, -⟩ := httpHandleMetaset_stores h
    dsimp only
    rw [updateCache_fields]
    exact .of_parts rfl ⟨hco ▸ Nat.le_refl _, fun _ => hco⟩
      ⟨Nat.le_refl _, fun _ => ⟨hvectors, rfl⟩⟩
      ⟨Nat.le_succ _, fun heq => absurd heq (Nat.succ_ne_self _)⟩

omit [AnnIndex A] in
theorem httpEvent_progresses [FloatOps F] (clocks : EventClocks) (body : EventBody) :
    sc.Progresses (sc.httpEvent env clocks io body).1 := by
  have hctx : ∀ {ctx : HandlerContext F} {result : Except HttpError Unit},
      httpHandleEvent env.toPlatform sc.toHandlerContext clocks io body.ctx body.id body.type
        body.score body.timestamp = (ctx, result) →
      sc.Progresses { sc with toHandlerContext := ctx } := by
    intro ctx result h
    rcases httpHandleEvent_stores h with hreads | ⟨hco, hvectors, hmetadata⟩
    · exact progresses_of_reads sc hreads
    · exact .of_parts rfl hco ⟨Nat.le_refl _, fun _ => ⟨hvectors, rfl⟩⟩
        ⟨Nat.le_refl _, fun _ => hmetadata⟩
  unfold httpEvent
  split
  · rename_i h
    exact hctx h
  · rename_i h
    dsimp only
    rw [updateCache_fields]
    obtain ⟨h₁, h₂, h₃, h₄⟩ := hctx h
    exact ⟨h₁, h₂, h₃, h₄⟩

/-- **A request that writes** over HTTP leaves a part alone or raises its counter, and puts nothing
    into the cache. -/
theorem serveHttp_progresses [FloatOps F] (authorized : Bool) (clocks : EventClocks)
    (route : HttpRoute) (body : Option Json) :
    sc.Progresses (sc.serveHttp env authorized clocks io route body).1 ∧
      sc.cache.Fewer (sc.serveHttp env authorized clocks io route body).1.cache := by
  have hrefl : sc.Progresses sc ∧ sc.cache.Fewer sc.cache := ⟨.of_same rfl rfl rfl, .refl _⟩
  unfold serveHttp
  split
  · exact hrefl
  · split
    · exact hrefl
    · split
      · exact hrefl
      · unfold routeHttp
        split
        · split
          · exact hrefl
          · refine ⟨httpEvent_progresses env sc io clocks _, ?_⟩
            unfold httpEvent
            split
            · exact .refl _
            · exact fewer_updateCache (fun c => SimilarityCache.fewer_invalidateByItemId c _) _
        · split
          · exact hrefl
          · refine ⟨httpVecset_progresses env sc io _, ?_⟩
            unfold httpVecset
            split
            · exact .refl _
            · dsimp only
              rw [notifyAdded_fields]
              refine fewer_updateCache (fun c => ?_) _
              split
              · exact (SimilarityCache.fewer_invalidateByItemId c _).trans
                  (SimilarityCache.fewer_clear _)
              · exact SimilarityCache.fewer_invalidateByItemId c _
        · split
          · exact hrefl
          · refine ⟨httpVecdel_progresses env sc io _, ?_⟩
            unfold httpVecdel
            dsimp only
            split
            · exact .refl _
            · exact fewer_updateCache (fun c => SimilarityCache.fewer_invalidateByItemId c _) _
        · split
          · exact hrefl
          · refine ⟨httpMetaset_progresses env sc io _ _, ?_⟩
            unfold httpMetaset
            split
            · exact .refl _
            · exact fewer_updateCache (fun c => SimilarityCache.fewer_clear c) _

/-- **A load** begins a new data set. -/
theorem publishLoaded_progresses (staged : Stores F) :
    sc.Progresses (publishLoaded sc staged) ∧ sc.cache.Fewer (publishLoaded sc staged).cache := by
  have hdataset : (publishLoaded sc staged).datasetGeneration = sc.datasetGeneration + 1 := by
    unfold publishLoaded
    rw [updateCache_fields]
  have hne : ∀ {p : Prop}, (publishLoaded sc staged).datasetGeneration = sc.datasetGeneration → p :=
    fun heq => absurd (hdataset.symm.trans heq) (Nat.succ_ne_self _)
  refine ⟨⟨.inl ?_, fun h => hne h, fun h => hne h, fun h => hne h⟩, ?_⟩
  · show sc.datasetGeneration < (publishLoaded sc staged).datasetGeneration
    rw [hdataset]
    exact Nat.lt_succ_self _
  · exact fewer_updateCache (fun c => SimilarityCache.fewer_clear c) _

end HttpRequests

/-- **A command** leaves a part alone or raises its counter, and puts nothing into the cache. -/
theorem dispatchWrite_progresses [FloatOps F] [AnnIndex A] (env : ServerEnv κ)
    (sc : ServerContext F A κ) (clocks : EventClocks) (io : WalIo) (cmd : Command) :
    sc.Progresses (sc.dispatchWrite env clocks io cmd).1 ∧
      sc.cache.Fewer (sc.dispatchWrite env clocks io cmd).1.cache := by
  rw [← (runSteps_writeSteps clocks io cmd).1]
  exact ⟨progresses_runSteps env (disciplined_writeSteps clocks io cmd), fewer_runSteps env _ sc⟩

theorem maintain_progresses [FloatOps F] (env : ServerEnv κ) (sc : ServerContext F A κ)
    (io : WalIo) (prune : Bool) : sc.Progresses { sc with
      toHandlerContext := (maintain env.toPlatform sc.toHandlerContext io prune).1 } := by
  rw [← (runSteps_decaySteps io prune).1]
  exact progresses_runSteps env (disciplined_decaySteps io prune)

end ServerContext

end Steps

/-! ## 2. Queries as questions -/

section Queries

variable {F A κ : Type} [DecidableEq κ] (env : FrontEnv F A κ)

/-- The answer to a query from the stores, if its filter can be read. -/
def Query.value (q : Query) (sc : ServerContext F A κ) : Except Error (List SimilarityResult) :=
  match ServerContext.parseFilter env q.filterExpr with
  | .error e => .error e
  | .ok filter => q.search env.searches sc filter

/-- Keys tell apart the queries that are asked, with the versions they are asked at. -/
def FrontEnv.KeysApart (Asked : Query → Prop) : Prop :=
  ∀ ⦃q q' : Query⦄ ⦃g g' : Generations⦄, Asked q → Asked q' →
    env.cacheKey (q.keyParams g) = env.cacheKey (q'.keyParams g') →
      q.keyParams g = q'.keyParams g'

/-- What is packed is unpacked. -/
def FrontEnv.Lossless : Prop :=
  ∀ results data, env.cache.compress results = some data → env.cache.decompress data = some results

/-- An answer and its data. -/
def FrontEnv.Packed (answer : Except Error (List SimilarityResult)) (data : Bytes) : Prop :=
  ∃ results, answer = .ok results ∧ env.cache.compress results = some data

namespace Query

variable {q q' : Query} {u v w : Generations}

theorem sim_keyParams {cmd cmd' : SimCommand} :
    (Query.sim cmd).keyParams u = (Query.sim cmd').keyParams w ↔
      (cmd.id = cmd'.id ∧ cmd.topK = cmd'.topK ∧ cmd.mode = cmd'.mode ∧
        cmd.adaptive = cmd'.adaptive ∧ cmd.filterExpr = cmd'.filterExpr) ∧ u = w := by
  cases u
  cases w
  simp only [keyParams, SimCommand.cacheKeyParams, Sum.inl.injEq, SimCacheKeyParams.mk.injEq,
    Generations.mk.injEq]
  tauto

theorem simv_keyParams {cmd cmd' : SimvCommand} :
    (Query.simv cmd).keyParams u = (Query.simv cmd').keyParams w ↔
      (cmd.vector = cmd'.vector ∧ cmd.topK = cmd'.topK ∧ cmd.filterExpr = cmd'.filterExpr) ∧
        u.vectors = w.vectors ∧ u.metadata = w.metadata ∧ u.dataset = w.dataset := by
  simp only [keyParams, SimvCommand.cacheKeyParams, Sum.inr.injEq, SimvCacheKeyParams.mk.injEq]
  tauto

theorem keyParams_convex (q : Query) ⦃u v w : Generations⦄ (huv : u ≤ v) (hvw : v ≤ w)
    (h : q.keyParams u = q.keyParams w) : q.keyParams v = q.keyParams u := by
  have huv : u.Before v := huv
  have hvw : v.Before w := hvw
  unfold Generations.Before at huv hvw
  cases q with
  | sim cmd =>
    obtain ⟨-, rfl⟩ := sim_keyParams.1 h
    refine sim_keyParams.2 ⟨⟨rfl, rfl, rfl, rfl, rfl⟩, ?_⟩
    cases u
    cases v
    simp only [Generations.mk.injEq] at huv hvw ⊢
    omega
  | simv cmd =>
    obtain ⟨-, hvectors, hmetadata, hdataset⟩ := simv_keyParams.1 h
    refine simv_keyParams.2 ⟨⟨rfl, rfl, rfl⟩, ?_⟩
    omega

theorem value_of_keyParams ⦃q q' : Query⦄ ⦃u w : Generations⦄
    (h : q.keyParams u = q'.keyParams w) : q.value env = q'.value env := by
  funext sc
  cases q with
  | sim cmd =>
    cases q' with
    | sim cmd' =>
      obtain ⟨⟨hid, htopK, hmode, hadaptive, hfilter⟩, -⟩ := sim_keyParams.1 h
      simp only [value, filterExpr, search, hid, htopK, hmode, hadaptive, hfilter]
    | simv cmd' => cases h
  | simv cmd =>
    cases q' with
    | sim cmd' => cases h
    | simv cmd' =>
      obtain ⟨⟨hvector, htopK, hfilter⟩, -⟩ := simv_keyParams.1 h
      simp only [value, filterExpr, search, hvector, htopK, hfilter]

theorem keyParams_of_keyParams ⦃q q' : Query⦄ ⦃u w : Generations⦄
    (h : q.keyParams u = q'.keyParams w) : q.keyParams u = q.keyParams w := by
  cases q with
  | sim cmd =>
    cases q' with
    | sim cmd' => exact sim_keyParams.2 ⟨⟨rfl, rfl, rfl, rfl, rfl⟩, (sim_keyParams.1 h).2⟩
    | simv cmd' => cases h
  | simv cmd =>
    cases q' with
    | sim cmd' => cases h
    | simv cmd' => exact simv_keyParams.2 ⟨⟨rfl, rfl, rfl⟩, (simv_keyParams.1 h).2⟩

end Query

/-- **Queries as questions**: a query tags a version with the parameters of its key. -/
def queryMemo : Memo (ServerContext F A κ) Generations Query
    (SimCacheKeyParams ⊕ SimvCacheKeyParams) (Except Error (List SimilarityResult)) where
  version := ServerContext.counters
  tag := fun q g => q.keyParams g
  value := fun q => q.value env
  convex := Query.keyParams_convex
  value_of_tag := Query.value_of_keyParams env
  tag_of_tag := Query.keyParams_of_keyParams

variable {env} {Asked : Query → Prop} {sc sc' : ServerContext F A κ}

/-- **A query sees a change only behind a raised counter.** -/
theorem ServerContext.Progresses.advances (h : sc.Progresses sc') :
    (queryMemo env).Advances Asked sc sc' := by
  refine ⟨h.le, fun q _ htag => ?_⟩
  have htag : q.keyParams sc.counters = q.keyParams sc'.counters := htag
  show q.value env sc' = q.value env sc
  cases q with
  | sim cmd =>
    obtain ⟨-, hcounters⟩ := Query.sim_keyParams.mp htag
    simp only [ServerContext.counters, Generations.mk.injEq] at hcounters
    obtain ⟨hc, hv, hm, hd⟩ := hcounters
    obtain ⟨hvectors, hengine⟩ := h.vectors hd.symm hv.symm
    simp only [Query.value, Query.search, h.cooccurrence hd.symm hc.symm, hvectors, hengine,
      h.metadata hd.symm hm.symm]
  | simv cmd =>
    obtain ⟨-, hv, hm, hd⟩ := Query.simv_keyParams.mp htag
    simp only [ServerContext.counters] at hv hm hd
    obtain ⟨hvectors, hengine⟩ := h.vectors hd.symm hv.symm
    simp only [Query.value, Query.search, hvectors, hengine, h.metadata hd.symm hm.symm]

variable (env Asked) in
/-- **What is in a cache** are the answers of queries that were asked. -/
def CacheSound (sc : ServerContext F A κ) (cache : SimilarityCache κ) : Prop :=
  (queryMemo env).Sound Asked env.cacheKey env.Packed cache.dataOf sc

theorem CacheSound.step {cache cache' : SimilarityCache κ} (h : CacheSound env Asked sc cache)
    (hprogresses : sc.Progresses sc') (hfewer : cache.Fewer cache') :
    CacheSound env Asked sc' cache' :=
  (h.advance hprogresses.advances).mono hfewer

section Lookup

variable {c : SimilarityCache κ} {key : κ} {type : SearchType} {results : List SimilarityResult}

theorem fewer_lookup (env : CacheEnv κ) (c : SimilarityCache κ) (now : Nat) (key : κ)
    (type : SearchType) : c.Fewer (c.lookup env now key type).1 := by
  unfold SimilarityCache.lookup
  split
  · exact .refl _
  · exact SimilarityCache.fewer_lookupWithTtl c now key _

theorem dataOf_of_lookup {env : CacheEnv κ} {now : Nat}
    (h : (c.lookup env now key type).2 = some results) :
    ∃ data, c.dataOf key = some data ∧ env.decompress data = some results := by
  unfold SimilarityCache.lookup at h
  split at h
  · cases h
  · exact SimilarityCache.lookup_some h

theorem dataOf_insertAndRegister {env : CacheEnv κ} {now later : Nat} {cheap : Bool}
    {itemIds : List Bytes} {k : κ} {data : Bytes}
    (h : (c.insertAndRegister env now later key results itemIds cheap type).1.dataOf k =
      some data) :
    c.dataOf k = some data ∨ k = key ∧ env.compress results = some data := by
  unfold SimilarityCache.insertAndRegister SimilarityCache.insertOfType at h
  split at h
  · exact .inl h
  · rcases SimilarityCache.dataOf_insertWithTtl h with h | ⟨hk, hpacked, -⟩
    · exact .inl h
    · exact .inr ⟨hk, hpacked⟩

end Lookup

/-- **A query** keeps the cache sound, and is answered as from the stores. -/
theorem runQuery_sound (hkeys : env.KeysApart Asked) (hlossless : env.Lossless)
    (h : CacheSound env Asked sc sc.cache) (t : QueryTimes) {q : Query} (hq : Asked q)
    {filter : MetadataFilter} (hfilter : ServerContext.parseFilter env q.filterExpr = .ok filter) :
    (sc.runQuery env t filter q).results = q.search env.searches sc filter ∧
      CacheSound env Asked sc (sc.runQuery env t filter q).cache := by
  have hvalue : q.value env sc = q.search env.searches sc filter := by
    rw [Query.value, hfilter]
  unfold ServerContext.runQuery
  split
  · exact ⟨rfl, h⟩
  · dsimp only
    have hfewer := fewer_lookup env.cache sc.cache t.lookedUp
      (env.cacheKey (q.keyParams sc.counters)) q.searchType
    have hkept := h.mono hfewer
    split
    · rename_i cache results hfound
      rw [hfound] at hfewer hkept
      refine ⟨?_, hkept⟩
      obtain ⟨data, hdata, hunpacked⟩ :=
        dataOf_of_lookup (congrArg Prod.snd hfound : _ = some results)
      obtain ⟨stored, hstored, hpacked⟩ := h.value_eq hkeys hq hdata
      have hstored : q.value env sc = .ok stored := hstored
      rw [hlossless stored data hpacked] at hunpacked
      rw [← hvalue, hstored, Option.some.inj hunpacked]
    · rename_i cache hfound
      rw [hfound] at hfewer hkept
      split
      · rename_i e he
        exact ⟨he.symm, hkept⟩
      · rename_i results hresults
        refine ⟨hresults.symm, hkept.insert hq fun k d hd => ?_⟩
        rcases dataOf_insertAndRegister hd with hold | ⟨hk, hpacked⟩
        · exact .inl hold
        · exact .inr ⟨hk, results, hvalue.trans hresults, hpacked⟩

end Queries

/-! ## 3. The server -/

section Server

variable {F A κ S : Type} [DecidableEq κ]

/-- The query in a request, if its words or its body make one. -/
def Arrival.query? (env : AccessEnv F A κ S) : Arrival F A S → Option Query
  | .line _ _ request =>
    match parseCommand env.stof env.takesPart request env.maxTopK with
    | .ok (.sim cmd) => some (.sim cmd)
    | .ok (.simv cmd) => some (.simv cmd)
    | _ => none
  | .http _ r =>
    match endpoint? r.method r.path, env.parseJson r.body with
    | some .sim, some body =>
      match parseSimBody env.toFrontEnv body with
      | .ok (cmd, _) => some (.sim cmd)
      | .error _ => none
    | some .simv, some body =>
      match parseSimvBody env.toFrontEnv body with
      | .ok (cmd, _) => some (.simv cmd)
      | .error _ => none
    | _, _ => none
  | _ => none

/-- The arrival, had its search taken that long. -/
def Arrival.lasting (elapsedUs : Nat) : Arrival F A S → Arrival F A S
  | .line i c request => .line i { c with times := { c.times with elapsedUs := elapsedUs } } request
  | .http c r => .http { c with times := { c.times with elapsedUs := elapsedUs } } r
  | a => a

/-- The server with its cache switched off. -/
def ServedState.uncached (x : ServedState F A κ S) : ServedState F A κ S :=
  { x with server := { x.server with cache := { x.server.cache with enabled := false } } }

section Sound

variable {env : AccessEnv F A κ S} {Asked : Query → Prop} {s t : ServerState F A κ S}

variable (env Asked) in
/-- **The invariant**: what is in the cache are answers. -/
def ServerState.CacheSound (s : ServerState F A κ S) : Prop :=
  Nvecd.Server.CacheSound env.toFrontEnv Asked s.toContext s.cache

/-- A step of the server, by what it does to the context of the handlers. -/
theorem ServerState.CacheSound.step (h : s.CacheSound env Asked)
    (hprogresses : s.toContext.Progresses t.toContext) (hfewer : s.cache.Fewer t.cache) :
    t.CacheSound env Asked :=
  Nvecd.Server.CacheSound.step h hprogresses hfewer

/-- A step that is not seen in the stores. -/
theorem ServerState.CacheSound.same (h : s.CacheSound env Asked)
    (hstores : t.shared.stores = s.shared.stores) (hengine : t.shared.engine = s.shared.engine)
    (hcounters : t.toContext.counters = s.toContext.counters) (hfewer : s.cache.Fewer t.cache) :
    t.CacheSound env Asked :=
  h.step (.of_same hstores hengine hcounters) hfewer

/-- What the handlers have made of the context is taken over. -/
theorem ServerState.CacheSound.withContext (h : s.CacheSound env Asked)
    {sc : ServerContext F A κ} (hsc : s.toContext.Progresses sc ∧ s.cache.Fewer sc.cache) :
    (s.withContext sc).CacheSound env Asked := by
  obtain ⟨⟨hle, hco, hvectors, hmetadata⟩, hfewer⟩ := hsc
  exact h.step ⟨hle, hco, hvectors, hmetadata⟩ hfewer

theorem ServerState.CacheSound.withCache {cache : SimilarityCache κ}
    (h : Nvecd.Server.CacheSound env.toFrontEnv Asked s.toContext cache) :
    ({ s with cache := cache } : ServerState F A κ S).CacheSound env Asked :=
  Nvecd.Server.CacheSound.step h (.of_same rfl rfl rfl) (.refl _)

theorem ServerState.CacheSound.respondRuntime (h : s.CacheSound env Asked)
    (r : Nvecd.Configuration.RuntimeRequest) :
    (s.respondRuntime env r).1.CacheSound env Asked := by
  refine h.same rfl rfl rfl ?_
  unfold ServerState.respondRuntime ServerState.withRuntime
  dsimp only
  split
  · exact .refl _
  · exact .of_cacheMap rfl

theorem ServerState.CacheSound.cacheClear (h : s.CacheSound env Asked) :
    ({ s with cache := s.cache.clear } : ServerState F A κ S).CacheSound env Asked :=
  h.same rfl rfl rfl (SimilarityCache.fewer_clear _)

theorem ServerState.CacheSound.finishDump [AnnIndex A] (h : s.CacheSound env Asked)
    (outcome : DumpOutcome F S) : (s.finishDump outcome).CacheSound env Asked := by
  unfold ServerState.finishDump
  cases outcome.loaded with
  | none => exact h.same rfl rfl rfl (.refl _)
  | some staged =>
    have hloaded := h.withContext (ServerContext.publishLoaded_progresses s.toContext staged)
    exact hloaded.same rfl rfl rfl (.refl _)

/-- A query over TCP. -/
theorem respondQuery_sound (hkeys : env.KeysApart Asked) (hlossless : env.Lossless)
    (h : s.CacheSound env Asked) (t : QueryTimes) (debugMode : Bool) {q : Query} (hq : Asked q) :
    Nvecd.Server.CacheSound env.toFrontEnv Asked s.toContext
      (s.toContext.respondQuery env.toFrontEnv t debugMode q).1 := by
  unfold ServerContext.respondQuery
  split
  · exact h
  · rename_i filter hfilter
    exact (runQuery_sound hkeys hlossless h t hq hfilter).2

/-- The filter of a body is what its text is read as. -/
theorem filterMember_ok {env : FrontEnv F A κ} {body : Json} {filterExpr : Bytes}
    {filter : MetadataFilter} (h : filterMember env body = .ok (filterExpr, filter)) :
    ServerContext.parseFilter env filterExpr = .ok filter := by
  unfold filterMember at h
  unfold ServerContext.parseFilter
  split at h
  · cases h
    rfl
  · split at h
    · cases h
    · split at h
      · cases h
      · rename_i hparse
        cases h
        split
        · rename_i hnil
          rw [hnil] at hparse
          exact hparse
        · exact hparse

theorem parseSimBody_filter {env : FrontEnv F A κ} {body : Json} {cmd : SimCommand}
    {filter : MetadataFilter} (h : parseSimBody env body = .ok (cmd, filter)) :
    ServerContext.parseFilter env cmd.filterExpr = .ok filter := by
  obtain ⟨id, -, h⟩ := Snapshot.bind_eq_ok.mp h
  obtain ⟨topK, -, h⟩ := Snapshot.bind_eq_ok.mp h
  obtain ⟨modeName, -, h⟩ := Snapshot.bind_eq_ok.mp h
  obtain ⟨minScore, -, h⟩ := Snapshot.bind_eq_ok.mp h
  obtain ⟨⟨filterExpr, conditions⟩, hmember, h⟩ := Snapshot.bind_eq_ok.mp h
  obtain ⟨adaptive, -, h⟩ := Snapshot.bind_eq_ok.mp h
  obtain ⟨mode, -, h⟩ := Snapshot.bind_eq_ok.mp h
  cases h
  exact filterMember_ok hmember

theorem parseSimvBody_filter {env : FrontEnv F A κ} {body : Json} {cmd : SimvCommand}
    {filter : MetadataFilter} (h : parseSimvBody env body = .ok (cmd, filter)) :
    ServerContext.parseFilter env cmd.filterExpr = .ok filter := by
  unfold parseSimvBody at h
  split at h
  · cases h
  · obtain ⟨topK, -, h⟩ := Snapshot.bind_eq_ok.mp h
    obtain ⟨minScore, -, h⟩ := Snapshot.bind_eq_ok.mp h
    obtain ⟨vector, -, h⟩ := Snapshot.bind_eq_ok.mp h
    obtain ⟨⟨filterExpr, conditions⟩, hmember, h⟩ := Snapshot.bind_eq_ok.mp h
    cases h
    exact filterMember_ok hmember

/-- A query over HTTP. -/
theorem httpRespondQuery_sound (hkeys : env.KeysApart Asked) (hlossless : env.Lossless)
    (h : s.CacheSound env Asked) (t : QueryTimes) {q : Query} (hq : Asked q)
    {filter : MetadataFilter}
    (hfilter : ServerContext.parseFilter env.toFrontEnv q.filterExpr = .ok filter) :
    Nvecd.Server.CacheSound env.toFrontEnv Asked s.toContext
      (s.toContext.httpRespondQuery env.toFrontEnv t q filter).1 :=
  (runQuery_sound hkeys hlossless h t hq hfilter).2

variable [FloatOps F] [AnnIndex A]

theorem handleRequest_sound (hkeys : env.KeysApart Asked) (hlossless : env.Lossless)
    (h : s.CacheSound env Asked) (conn : ConnectionContext) (c : Circumstances) {r : Request}
    (hsim : ∀ cmd, r = .sim cmd → Asked (.sim cmd))
    (hsimv : ∀ cmd, r = .simv cmd → Asked (.simv cmd)) :
    (handleRequest env s conn c r).1.CacheSound env Asked := by
  cases r with
  | auth password => exact h
  | write cmd =>
    exact h.withContext (ServerContext.dispatchWrite_progresses env.toServerEnv s.toContext
      c.clocks c.io cmd)
  | sim cmd =>
    exact .withCache (respondQuery_sound hkeys hlossless h c.times conn.debugMode (hsim cmd rfl))
  | simv cmd =>
    exact .withCache (respondQuery_sound hkeys hlossless h c.times conn.debugMode (hsimv cmd rfl))
  | info => exact h
  | config sub path =>
    cases sub with
    | help => exact h
    | «show» => exact h.respondRuntime (.configShow path)
    | verify => exact h
  | dump sub path => exact h.finishDump _
  | debug on => exact h
  | cache sub =>
    cases sub with
    | stats => exact h
    | clear =>
      simp only [handleRequest, handleCacheClear]
      split
      · exact h
      · exact h.cacheClear
    | enable => exact h.respondRuntime .cacheEnable
    | disable => exact h.respondRuntime .cacheDisable
  | set name value => exact h.respondRuntime (.set name value)
  | get name => exact h.respondRuntime (.get name)
  | showVariables pattern => exact h.respondRuntime (.showVariables pattern)

theorem handleEndpoint_sound (hkeys : env.KeysApart Asked) (hlossless : env.Lossless)
    (h : s.CacheSound env Asked) (c : Circumstances) (body : Bytes) {e : Endpoint}
    (hsim : e = .sim → ∀ b, env.parseJson body = some b → ∀ cmd filter,
      parseSimBody env.toFrontEnv b = .ok (cmd, filter) → Asked (.sim cmd))
    (hsimv : e = .simv → ∀ b, env.parseJson body = some b → ∀ cmd filter,
      parseSimvBody env.toFrontEnv b = .ok (cmd, filter) → Asked (.simv cmd)) :
    (handleEndpoint env s c body e).1.CacheSound env Asked := by
  cases e with
  | write route =>
    exact h.withContext (ServerContext.serveHttp_progresses env.toSurfaceEnv s.toContext c.io true
      c.clocks route (env.parseJson body))
  | sim =>
    simp only [handleEndpoint]
    split
    · exact h
    · refine .withCache ?_
      unfold ServerContext.httpHandleSim
      split
      · exact h
      · rename_i b hb
        split
        · exact h
        · rename_i cmd filter hparse
          exact httpRespondQuery_sound hkeys hlossless h c.times (hsim rfl b hb cmd filter hparse)
            (parseSimBody_filter hparse)
  | simv =>
    simp only [handleEndpoint]
    split
    · exact h
    · refine .withCache ?_
      unfold ServerContext.httpHandleSimv
      split
      · exact h
      · rename_i b hb
        split
        · exact h
        · rename_i cmd filter hparse
          exact httpRespondQuery_sound hkeys hlossless h c.times (hsimv rfl b hb cmd filter hparse)
            (parseSimvBody_filter hparse)
  | cache sub =>
    cases sub with
    | stats => exact h
    | clear =>
      simp only [handleEndpoint, httpCacheClear]
      split
      · exact h
      · split
        · exact h
        · split
          · exact h.cacheClear
          · exact h
    | enable => exact h.respondRuntime .httpCacheEnable
    | disable => exact h.respondRuntime .httpCacheDisable
  | dump sub => exact h.finishDump _
  | debug on => exact h
  | info => exact h
  | health => exact h
  | healthLive => exact h
  | healthReady => exact h
  | healthDetail => exact h
  | config => exact h
  | metrics => exact h

/-- **Whatever arrives**, what is in the cache are answers. -/
theorem respond_sound (hkeys : env.KeysApart Asked) (hlossless : env.Lossless)
    {x : ServedState F A κ S} (h : x.server.CacheSound env Asked) {a : Arrival F A S}
    (ha : ∀ q, a.query? env = some q → Asked q) :
    (x.respond env a).1.server.CacheSound env Asked := by
  cases a with
  | line i c request =>
    simp only [Arrival.query?] at ha
    show (dispatch env x.server (x.connections i) c request).1.CacheSound env Asked
    unfold dispatch
    split
    · exact h
    · exact h
    · rename_i r _ hparse
      unfold dispatchRequest
      split
      · exact h
      · refine handleRequest_sound hkeys hlossless h _ c ?_ ?_
        · rintro cmd rfl
          exact ha _ (by rw [hparse])
        · rintro cmd rfl
          exact ha _ (by rw [hparse])
  | http c r =>
    simp only [Arrival.query?] at ha
    show (serveHttpRequest env x.server c r).1.CacheSound env Asked
    unfold serveHttpRequest
    split
    · exact h
    · rename_i e he
      split
      · exact h
      · refine handleEndpoint_sound hkeys hlossless h c r.body ?_ ?_
        · rintro rfl b hb cmd filter hparse
          exact ha _ (by simp only [he, hb, hparse])
        · rintro rfl b hb cmd filter hparse
          exact ha _ (by simp only [he, hb, hparse])
  | decay io prune =>
    have hdecay := ServerContext.maintain_progresses env.toServerEnv x.server.toContext io prune
    exact h.step ⟨hdecay.le, hdecay.cooccurrence, hdecay.vectors, hdecay.metadata⟩ (.refl _)
  | snapshot job => exact h.finishDump _

end Sound

/-! ## 4. Answers -/

section Answers

variable {env : AccessEnv F A κ S} {Asked : Query → Prop} {s t : ServerState F A κ S}

/-- A cache that is switched off. -/
theorem runQuery_off {env : FrontEnv F A κ} {sc : ServerContext F A κ}
    (hoff : sc.cache.enabled = false) (t : QueryTimes) (filter : MetadataFilter) (q : Query) :
    sc.runQuery env t filter q = ⟨sc.cache, false, q.search env.searches sc filter⟩ := by
  unfold ServerContext.runQuery
  rw [if_pos (by simp [hoff])]

theorem search_of_shared (hs : s.shared = t.shared) (searches : Searches F A)
    (filter : MetadataFilter) (q : Query) :
    q.search searches s.toContext filter = q.search searches t.toContext filter := by
  rw [toContext_of_shared hs]
  cases q <;> rfl

/-- **With the cache and without it** a query has the same results. -/
theorem runQuery_results (hkeys : env.KeysApart Asked) (hlossless : env.Lossless)
    (h : s.CacheSound env Asked) (hs : s.shared = t.shared) (hoff : t.cache.enabled = false)
    (times times' : QueryTimes) {q : Query} (hq : Asked q) {filter : MetadataFilter}
    (hfilter : ServerContext.parseFilter env.toFrontEnv q.filterExpr = .ok filter) :
    (s.toContext.runQuery env.toFrontEnv times filter q).results =
      (t.toContext.runQuery env.toFrontEnv times' filter q).results := by
  rw [(runQuery_sound hkeys hlossless h times hq hfilter).1, runQuery_off hoff,
    search_of_shared hs]

/-- Over TCP the block for debugging says how long the search took. -/
theorem respondQuery_reply (hkeys : env.KeysApart Asked) (hlossless : env.Lossless)
    (h : s.CacheSound env Asked) (hs : s.shared = t.shared) (hoff : t.cache.enabled = false)
    (times : QueryTimes) (debugMode : Bool) {q : Query} (hq : Asked q) :
    ∃ elapsedUs, (s.toContext.respondQuery env.toFrontEnv times debugMode q).2 =
      (t.toContext.respondQuery env.toFrontEnv { times with elapsedUs := elapsedUs } debugMode
        q).2 := by
  unfold ServerContext.respondQuery
  cases hfilter : ServerContext.parseFilter env.toFrontEnv q.filterExpr with
  | error e => exact ⟨0, rfl⟩
  | ok filter =>
    dsimp only
    refine ⟨if (s.toContext.runQuery env.toFrontEnv times filter q).hit then 0
      else times.elapsedUs, ?_⟩
    have hmiss : ∀ t', (t.toContext.runQuery env.toFrontEnv t' filter q).hit = false :=
      fun t' => by rw [runQuery_off hoff]
    rw [runQuery_results hkeys hlossless h hs hoff times _ hq hfilter, hmiss]
    rfl

theorem httpRespondQuery_reply (hkeys : env.KeysApart Asked) (hlossless : env.Lossless)
    (h : s.CacheSound env Asked) (hs : s.shared = t.shared) (hoff : t.cache.enabled = false)
    (times times' : QueryTimes) {q : Query} (hq : Asked q) {filter : MetadataFilter}
    (hfilter : ServerContext.parseFilter env.toFrontEnv q.filterExpr = .ok filter) :
    (s.toContext.httpRespondQuery env.toFrontEnv times q filter).2 =
      (t.toContext.httpRespondQuery env.toFrontEnv times' q filter).2 := by
  unfold ServerContext.httpRespondQuery
  dsimp only
  rw [runQuery_results hkeys hlossless h hs hoff times times' hq hfilter]

variable [FloatOps F] [AnnIndex A]

/-- A query in a line. -/
theorem dispatchRequest_reply {conn : ConnectionContext} {c : Circumstances} {r : Request}
    (hs : s.shared = t.shared)
    (h : ∃ elapsedUs, (handleRequest env s conn c r).2.2 = (handleRequest env t conn
      { c with times := { c.times with elapsedUs := elapsedUs } } r).2.2) :
    ∃ elapsedUs, (dispatchRequest env s conn c r).2.2 = (dispatchRequest env t conn
      { c with times := { c.times with elapsedUs := elapsedUs } } r).2.2 := by
  obtain ⟨elapsedUs, h⟩ := h
  refine ⟨elapsedUs, ?_⟩
  unfold dispatchRequest
  rw [hs]
  split
  · rfl
  · exact congrArg responseText h

/-- **A query is answered** as by a server in the same state whose cache is switched off. -/
theorem query_reply (hkeys : env.KeysApart Asked) (hlossless : env.Lossless)
    {x y : ServedState F A κ S} (h : x.server.CacheSound env Asked) (hforget : x.forget = y.forget)
    (hoff : y.server.cache.enabled = false) {a : Arrival F A S} {q : Query}
    (hquery : a.query? env = some q) (hq : Asked q) :
    ∃ elapsedUs, (x.respond env a).2 = (y.respond env (a.lasting elapsedUs)).2 := by
  obtain ⟨hs, hconn⟩ := Prod.mk.inj hforget
  cases a with
  | line i c request =>
    have hline : ∃ elapsedUs, (dispatch env x.server (x.connections i) c request).2.2 =
        (dispatch env y.server (x.connections i)
          { c with times := { c.times with elapsedUs := elapsedUs } } request).2.2 := by
      simp only [Arrival.query?] at hquery
      unfold dispatch
      split at hquery
      · rename_i cmd hparse
        cases hquery
        rw [hparse]
        exact dispatchRequest_reply hs
          (respondQuery_reply hkeys hlossless h hs hoff c.times _ hq)
      · rename_i cmd hparse
        cases hquery
        rw [hparse]
        exact dispatchRequest_reply hs
          (respondQuery_reply hkeys hlossless h hs hoff c.times _ hq)
      · cases hquery
    obtain ⟨elapsedUs, hline⟩ := hline
    refine ⟨elapsedUs, ?_⟩
    simp only [ServedState.respond, Arrival.lasting, ← hconn]
    exact congrArg Reply.line hline
  | http c r =>
    refine ⟨0, congrArg Reply.http ?_⟩
    simp only [Arrival.query?] at hquery
    unfold serveHttpRequest
    split at hquery
    · rename_i body he hbody
      split at hquery
      rotate_left
      · cases hquery
      rename_i cmd filter hparse
      cases hquery
      have hreply := httpRespondQuery_reply hkeys hlossless h hs hoff c.times
        { c.times with elapsedUs := 0 } hq (parseSimBody_filter hparse)
      simp only [he, Endpoint.requiresAuthorization, Bool.false_eq_true, false_and, if_false,
        handleEndpoint, hs, hbody, ServerContext.httpHandleSim, hparse, hreply]
      split
      · rfl
      · rfl
    · rename_i body he hbody
      split at hquery
      rotate_left
      · cases hquery
      rename_i cmd filter hparse
      cases hquery
      have hreply := httpRespondQuery_reply hkeys hlossless h hs hoff c.times
        { c.times with elapsedUs := 0 } hq (parseSimvBody_filter hparse)
      simp only [he, Endpoint.requiresAuthorization, Bool.false_eq_true, false_and, if_false,
        handleEndpoint, hs, hbody, ServerContext.httpHandleSimv, hparse, hreply]
      split
      · rfl
      · rfl
    · cases hquery
  | decay io prune => cases hquery
  | snapshot job => cases hquery

/-- The server that switches its cache off before each request. -/
def ServedState.respondUncached (env : AccessEnv F A κ S) (x : ServedState F A κ S)
    (a : Arrival F A S) : ServedState F A κ S × Reply :=
  x.uncached.respond env a

/-- The two go on in the same way. -/
theorem forget_after {x y : ServedState F A κ S} (h : x.forget = y.forget)
    (arrivals : List (Arrival F A S)) :
    (after (ServedState.respond env) x arrivals).forget =
      (after (ServedState.respondUncached env) y arrivals).forget := by
  induction arrivals generalizing x y with
  | nil => exact h
  | cons a arrivals ih => exact ih (forget_respond (y := y.uncached) h a)

end Answers

end Server

/-! ## 5. Keys of texts -/

section Keys

/-- The text of a key. -/
def keyText (md5 : Bytes → Bytes) : SimCacheKeyParams ⊕ SimvCacheKeyParams → Bytes
  | .inl p => simKeyText p
  | .inr p => simvKeyText md5 p

/-- The item of a `SIM` query has no colon. -/
def Query.Plain : Query → Prop
  | .sim cmd => kColon ∉ cmd.id
  | .simv _ => True

theorem not_shadows_of_plain {p q : SimCacheKeyParams} (h : kColon ∉ q.id) : ¬ Shadows p q := by
  rintro ⟨z, hid, -⟩
  apply h
  rw [hid]
  exact List.mem_append_right _ (List.mem_append_right _ List.mem_cons_self)

/-- **Digests without collisions tell plain queries apart.** -/
theorem keysApart_of_digest {F A κ : Type} [DecidableEq κ] {env : FrontEnv F A κ}
    {md5 : Bytes → Bytes} {digest : Bytes → κ} (hdigest : Function.Injective digest)
    (hvector : Function.Injective (hashVector md5))
    (hkey : ∀ p, env.cacheKey p = digest (keyText md5 p)) : env.KeysApart Query.Plain := by
  obtain ⟨hsim, hsimv, hne⟩ := cache_keys_separate hvector
  intro q q' g g' hq hq' h
  rw [hkey, hkey] at h
  have htext := hdigest h
  cases q with
  | sim cmd =>
    cases q' with
    | sim cmd' =>
      have hid : kColon ∉ cmd.id := hq
      have hid' : kColon ∉ cmd'.id := hq'
      exact congrArg _ ((hsim _ _).mpr
        ⟨not_shadows_of_plain hid', not_shadows_of_plain hid⟩ htext)
    | simv cmd' => exact absurd htext (hne _ _)
  | simv cmd =>
    cases q' with
    | sim cmd' => exact absurd htext.symm (hne _ _)
    | simv cmd' => exact congrArg _ (hsimv _ _ htext)

/-- Every vector is similar to every item; keys are made of the texts. -/
def exampleAccess : AccessEnv Int ListedIndex Bytes Unit where
  toPlatform := examplePlatform
  cache := CacheMachine.plainPacking.env fun _ => 0
  rng := id
  stof text := if text = ascii "1" then some 0x3F800000 else none
  takesPart _ := false
  toFloat _ := 0
  searches := {
    searchByIdEvents := fun _ _ _ _ _ => .ok []
    searchByIdVectors := fun vs _ _ _ _ _ => .ok (vs.ids.map fun id => ⟨id, 0x3F800000⟩)
    searchByIdFusion := fun _ _ _ _ _ _ _ _ => .ok []
    searchByVector := fun _ _ _ _ _ _ => .ok [] }
  cacheKey p := exampleDigest (keyText exampleDigest p)
  intToFloat _ := 0
  defaultTopK := 10
  requirepass := []
  maxTopK := 100
  texts := Nvecd.Configuration.exactTexts
  dumpJson _ := []
  parseJson body := if body = [] then none
    else some (.object [(ascii "id", .string body), (ascii "top_k", .unsigned 5),
      (ascii "mode", .string (ascii "vectors"))])
  dump _ _ _ s := (⟨s.wal, s.readOnly, s.loading, (), none⟩, .ok [])
  httpDump _ _ _ s := (⟨s.wal, s.readOnly, s.loading, (), none⟩, .ok ())
  info _ := []
  cacheStats _ := .ok []
  configHelp _ := .ok []
  configVerify _ := .ok []
  httpReport _ _ := .ok ()

/-- A server without a log, that has just been started. -/
def servedStart : ServedState Int ListedIndex Bytes Unit where
  server := {
    shared := {
      config := defaultConfig
      stores := .new defaultConfig
      engine := { config := { indexType := .hnsw }, annIndex := some ([] : List (Nat × List UInt32)) }
      runtime := .start {}
      snapshots := () }
    cache := { maxMemoryBytes := 1000 } }

/-- A vector is set, and a connection asks for its item. -/
def askedOverTcp : List (Arrival Int ListedIndex Unit) :=
  [.line 0 ⟨clocksAt 0, {}, {}⟩ (ascii "VECSET i 1"),
    .line 1 ⟨clocksAt 1, {}, {}⟩ (ascii "SIM i 5 using=vectors")]

/-- The same question over HTTP. -/
def askedOverHttp : Arrival Int ListedIndex Unit :=
  .http ⟨clocksAt 2, {}, {}⟩ ⟨.post, ascii "/sim", none, ascii "i"⟩

end Keys

end Nvecd.Server
