/-
  File:      Nvecd/Server/WriteSteps.lean
  Subject:   The write handlers as the steps other threads can see between.

  A write holds the serialization gate from its first step to its last, so no other write comes
  in between; a query does. What it can see is one store after the other, and the generation
  counters, which are raised behind the stores. The co-occurrence index is changed under its own
  lock and raises its counter there, before it has done pruning.

  * `HandlerStep`, `runStep` -- one step on the server;
  * `eventSteps`, `vecsetSteps`, `vecdelSteps`, `metasetSteps`, `decaySteps` -- what the handlers
    do, in order, and what they answer; `publishLoaded` -- what `DUMP LOAD` publishes;
  * `runSteps_writeSteps`, `runSteps_decaySteps` -- taken alone they are the handlers;
  * `Disciplined` -- every change of a store has its counter raised behind it.
-/
import Nvecd.Server.Dispatcher

namespace Nvecd.Server

open Nvecd.Lib Nvecd.Utils Nvecd.Storage Nvecd.Events Nvecd.Vectors Nvecd.Similarity Nvecd.Cache

/-! ## 1. Steps -/

/-- A step of a write. Stores come with the value they are given. -/
inductive HandlerStep (F A : Type) where
  /-- The log and `read_only`. -/
  | log (wal : Option WalRun) (readOnly : Bool)
  | events (es : EventStore)
  /-- The lock of the co-occurrence index is taken. -/
  | enterCo
  | bumpCo
  /-- The index is as the operation leaves it, and the lock is free. -/
  | leaveCo (co : CoOccurrenceIndex F)
  | vectors (vs : VectorStore)
  | metadata (ms : MetadataStore)
  | index (engine : SimilarityEngine A)
  | bumpVectors
  | bumpMetadata
  | invalidate (id : Bytes)
  | clearCache

section Steps

variable {F A κ : Type} [DecidableEq κ] (env : ServerEnv κ)

/-- The step, on the server. -/
def runStep (sc : ServerContext F A κ) : HandlerStep F A → ServerContext F A κ
  | .log wal readOnly => { sc with wal := wal, readOnly := readOnly }
  | .events es => { sc with stores := { sc.stores with eventStore := es } }
  | .enterCo => sc
  | .bumpCo =>
    let co := { sc.stores.coIndex with generation := sc.stores.coIndex.generation + 1 }
    { sc with stores := { sc.stores with coIndex := co } }
  | .leaveCo co => { sc with stores := { sc.stores with coIndex := co } }
  | .vectors vs => { sc with stores := { sc.stores with vectorStore := vs } }
  | .metadata ms => { sc with stores := { sc.stores with metadataStore := ms } }
  | .index engine => { sc with engine := engine }
  | .bumpVectors => { sc with vectorGeneration := sc.vectorGeneration + 1 }
  | .bumpMetadata => { sc with metadataGeneration := sc.metadataGeneration + 1 }
  | .invalidate id => sc.updateCache fun c => c.invalidateByItemId env.cache id
  | .clearCache => sc.updateCache fun c => c.clear

def runSteps (sc : ServerContext F A κ) (steps : List (HandlerStep F A)) : ServerContext F A κ :=
  steps.foldl (runStep env) sc

/-- An operation of the co-occurrence index: under its lock the counter is raised as often as
    the operation does, and the rest is seen when the lock is free. One that raises no counter
    changes nothing. -/
def coSteps (x y : CoOccurrenceIndex F) : List (HandlerStep F A) :=
  if y.generation = x.generation then []
  else .enterCo :: (List.replicate (y.generation - x.generation) .bumpCo ++ [.leaveCo y])

/-! ## 2. The handlers -/

variable [FloatOps F] [AnnIndex A]

/-- `HandleEvent`. -/
def eventSteps (sc : ServerContext F A κ) (clocks : EventClocks) (io : WalIo) (cmd : Command) :
    List (HandlerStep F A) × Except Error String :=
  match sc.stores.eventStore.prepareEvent clocks.prepare cmd.ctx cmd.id cmd.score cmd.eventType
      (cmd.timestamp.getD 0) with
  | .error e => ([], .error e)
  | .ok prepared =>
    if prepared.deduped then
      match ingest sc.toHandlerContext clocks.apply
          { cmd with timestamp := some prepared.event.timestamp } with
      | (ctx, .ok { deduped := true, .. }) =>
        ([.events ctx.stores.eventStore], .ok (formatOk "EVENT"))
      | (ctx, _) => ([.events ctx.stores.eventStore, .log ctx.wal true],
          .error (makeError .kInternalError "Event dedup state changed during acceptance"))
    else
      match appendToWal env.toPlatform sc.toHandlerContext io (eventCommand cmd prepared) with
      | (ctx, .error e) => ([.log ctx.wal ctx.readOnly], .error e)
      | (ctx, .ok ()) =>
        match ingest ctx clocks.apply (eventCommand cmd prepared) with
        | (ctx, .ok result) =>
          if result.deduped then
            ([.log ctx.wal ctx.readOnly, .events ctx.stores.eventStore, .log ctx.wal true],
              .error (makeError .kInternalError "Event apply diverged after WAL acceptance"))
          else
            ([.log ctx.wal ctx.readOnly, .events ctx.stores.eventStore] ++
                coSteps ctx.stores.coIndex (updateCoIndex ctx result).stores.coIndex ++
                [.invalidate cmd.id],
              .ok (formatOk "EVENT"))
        | (ctx, .error _) =>
          ([.log ctx.wal ctx.readOnly, .events ctx.stores.eventStore, .log ctx.wal true],
            .error (makeError .kInternalError "Event apply diverged after WAL acceptance"))

/-- `HandleVecset`. -/
def vecsetSteps (sc : ServerContext F A κ) (io : WalIo) (cmd : Command) :
    List (HandlerStep F A) × Except Error String :=
  match sc.stores.vectorStore.validateVector env.l2Norm cmd.id cmd.vector with
  | .error e => ([], .error e)
  | .ok () =>
    match appendToWal env.toPlatform sc.toHandlerContext io cmd with
    | (ctx, .error e) => ([.log ctx.wal ctx.readOnly], .error e)
    | (ctx, .ok ()) =>
      match ctx.stores.vectorStore.setVector env.l2Norm cmd.id cmd.vector with
      | (vs, .error e) =>
        ([.log ctx.wal ctx.readOnly, .vectors vs, .log ctx.wal true], .error e)
      | (vs, .ok ()) =>
        let stored : List (HandlerStep F A) :=
          match cmd.metadata with
          | some m => [.metadata (ctx.stores.metadataStore.set cmd.id m)]
          | none => []
        let indexed : List (HandlerStep F A) :=
          match vs.getCompactIndex cmd.id with
          | some idx => [.index (sc.engine.notifyVectorAdded env.rng vs idx)]
          | none => []
        let cleared : List (HandlerStep F A) :=
          if cmd.metadata.isSome then [.bumpMetadata, .invalidate cmd.id, .clearCache]
          else [.invalidate cmd.id]
        ([.log ctx.wal ctx.readOnly, .vectors vs] ++ stored ++ indexed ++ [.bumpVectors] ++ cleared,
          .ok (formatOk "VECSET"))

/-- `HandleVecdel`. -/
def vecdelSteps (sc : ServerContext F A κ) (io : WalIo) (cmd : Command) :
    List (HandlerStep F A) × Except Error String :=
  match sc.stores.vectorStore.getCompactIndex cmd.id with
  | none => ([], .error (vectorNotFound cmd.id))
  | some idx =>
    match appendToWal env.toPlatform sc.toHandlerContext io cmd with
    | (ctx, .error e) => ([.log ctx.wal ctx.readOnly], .error e)
    | (ctx, .ok ()) =>
      match ctx.stores.vectorStore.deleteVector cmd.id with
      | (_, false) =>
        ([.log ctx.wal ctx.readOnly, .log ctx.wal true], .error (vectorNotFound cmd.id))
      | (vs, true) =>
        let removed := sc.engine.notifyVectorRemoved idx
        ([.log ctx.wal ctx.readOnly, .vectors vs, .vectors vs.defragment,
            .metadata (ctx.stores.metadataStore.delete cmd.id), .index removed,
            .index (removed.rebuildAnnFromStore vs.defragment), .bumpVectors, .bumpMetadata,
            .invalidate cmd.id],
          .ok (formatOk "VECDEL"))

/-- `HandleMetaset`. -/
def metasetSteps (sc : ServerContext F A κ) (io : WalIo) (cmd : Command) :
    List (HandlerStep F A) × Except Error String :=
  match sc.stores.vectorStore.getCompactIndex cmd.id with
  | none => ([], .error (makeError .kVectorNotFound
      ("Vector not found for metadata: " ++ textOf cmd.id)))
  | some _ =>
    match parseMetadata env.toPlatform cmd with
    | .error e => ([], .error e)
    | .ok m =>
      match appendToWal env.toPlatform sc.toHandlerContext io cmd with
      | (ctx, .error e) => ([.log ctx.wal ctx.readOnly], .error e)
      | (ctx, .ok ()) =>
        ([.log ctx.wal ctx.readOnly, .metadata (ctx.stores.metadataStore.set cmd.id m),
            .bumpMetadata, .clearCache],
          .ok (formatOk "METASET"))

/-- The handler a command is routed to. -/
def writeSteps (sc : ServerContext F A κ) (clocks : EventClocks) (io : WalIo) (cmd : Command) :
    List (HandlerStep F A) × Except Error String :=
  match cmd.type with
  | .kEvent => eventSteps env sc clocks io cmd
  | .kVecset => vecsetSteps env sc io cmd
  | .kVecdel => vecdelSteps env sc io cmd
  | .kMetaset => metasetSteps env sc io cmd
  | .kUnknown => ([], .error (makeError .kCommandUnknown "Unknown command type"))

/-- The callback of the decay scheduler: two operations of the index, one after the other. -/
def decaySteps (sc : ServerContext F A κ) (io : WalIo) (prune : Bool) :
    List (HandlerStep F A) × Except Error Unit :=
  let alpha := sc.config.events.decayAlpha
  if sc.readOnly then
    ([], .error (makeError .kEventDecayFailed "Server is read-only; decay maintenance skipped"))
  else
    let logged : HandlerContext F × Except Error Unit :=
      match sc.wal with
      | none => (sc.toHandlerContext, .ok ())
      | some w => appendRecord env.toPlatform sc.toHandlerContext w io .kCoOccurrenceMaintenance
          (maintenancePayload alpha prune)
    match logged with
    | (ctx, .error e) => ([.log ctx.wal ctx.readOnly], .error e)
    | (ctx, .ok ()) =>
      let decayed := ctx.stores.coIndex.applyDecay alpha
      (.log ctx.wal ctx.readOnly :: coSteps ctx.stores.coIndex decayed ++
          (if prune then coSteps decayed decayed.prune else []),
        .ok ())

/-- What `HandleDumpLoad` publishes, with both gates held: the staged stores, an index made of
    them, three counters raised and the cache empty. -/
def publishLoaded (sc : ServerContext F A κ) (staged : Stores F) : ServerContext F A κ :=
  let stores : Stores F := {
    eventStore := (sc.stores.eventStore.swapState staged.eventStore).1
    coIndex := (sc.stores.coIndex.swapState staged.coIndex).1
    vectorStore := (sc.stores.vectorStore.swapState staged.vectorStore).1
    metadataStore := staged.metadataStore }
  let sc := { sc with
    stores := stores
    engine := sc.engine.rebuildAnnFromStore stores.vectorStore
    vectorGeneration := sc.vectorGeneration + 1
    metadataGeneration := sc.metadataGeneration + 1
    datasetGeneration := sc.datasetGeneration + 1 }
  sc.updateCache fun c => c.clear

end Steps

/-! ## 3. Taken alone they are the handlers -/

section Alone

variable {F A κ : Type} [DecidableEq κ] {env : ServerEnv κ} {sc : ServerContext F A κ}

theorem runSteps_append (steps steps' : List (HandlerStep F A)) :
    runSteps env sc (steps ++ steps') = runSteps env (runSteps env sc steps) steps' :=
  List.foldl_append

/-- The counter of the index, and nothing else, moves. -/
theorem runSteps_bumpCo (k : Nat) :
    runSteps env sc (List.replicate k .bumpCo) =
      { sc with stores := { sc.stores with
          coIndex := { sc.stores.coIndex with
            generation := sc.stores.coIndex.generation + k } } } := by
  induction k generalizing sc with
  | zero => rfl
  | succ k ih =>
    rw [List.replicate_succ, runSteps, List.foldl_cons, ← runSteps, ih]
    simp only [runStep, Nat.add_assoc, Nat.add_comm 1 k]

theorem runSteps_coSteps (env : ServerEnv κ) (sc : ServerContext F A κ)
    {y : CoOccurrenceIndex F} (h : sc.stores.coIndex.Advances y) :
    runSteps env sc (coSteps sc.stores.coIndex y) =
      { sc with stores := { sc.stores with coIndex := y } } := by
  unfold coSteps
  split
  · rename_i heq
    rw [h.2 heq]
    rfl
  · rw [runSteps, List.foldl_cons, ← runSteps, runSteps_append]
    show runSteps env (runSteps env sc (List.replicate _ .bumpCo)) [.leaveCo y] = _
    rw [runSteps_bumpCo]
    rfl

variable [FloatOps F]

omit [FloatOps F] in
/-- Ingestion is seen in the event store only. -/
theorem ingest_only {ctx ctx' : HandlerContext F} {clock : Clock} {cmd : Command}
    {result : Except Error IngestResult} (h : ingest ctx clock cmd = (ctx', result)) :
    ctx' = { ctx with stores := { ctx.stores with eventStore := ctx'.stores.eventStore } } := by
  unfold ingest at h
  cases h
  rfl

omit [FloatOps F] in
theorem appendToWal_fst {ctx ctx' : HandlerContext F} {io : WalIo} {cmd : Command}
    {result : Except Error Unit} (h : appendToWal env.toPlatform ctx io cmd = (ctx', result)) :
    ctx' = { ctx with wal := ctx'.wal, readOnly := ctx'.readOnly } := by
  obtain ⟨wal, readOnly, hfst⟩ := appendToWal_only env.toPlatform ctx io cmd
  rw [h] at hfst
  subst hfst
  rfl

omit [FloatOps F] in
theorem appendRecord_fst {ctx ctx' : HandlerContext F} {w : WalRun} {io : WalIo} {op : WalOpType}
    {payload : Bytes} {result : Except Error Unit}
    (h : appendRecord env.toPlatform ctx w io op payload = (ctx', result)) :
    ctx' = { ctx with wal := ctx'.wal, readOnly := ctx'.readOnly } := by
  unfold appendRecord at h
  dsimp only at h
  split at h <;> cases h <;> rfl

theorem runSteps_eventSteps (clocks : EventClocks) (io : WalIo) (cmd : Command) :
    runSteps env sc (eventSteps env sc clocks io cmd).1 = (sc.dispatchEvent env clocks io cmd).1 ∧
      (eventSteps env sc clocks io cmd).2 = (sc.dispatchEvent env clocks io cmd).2 := by
  unfold eventSteps ServerContext.dispatchEvent
  cases hp : sc.stores.eventStore.prepareEvent clocks.prepare cmd.ctx cmd.id cmd.score
      cmd.eventType (cmd.timestamp.getD 0) with
  | error e => exact ⟨rfl, rfl⟩
  | ok prepared =>
    simp only [handleEvent, hp]
    cases hd : prepared.deduped with
    | true =>
      simp only [if_true]
      cases hi : ingest sc.toHandlerContext clocks.apply
          { cmd with timestamp := some prepared.event.timestamp } with
      | mk ctx result =>
        obtain ⟨es, rfl⟩ : ∃ es, ctx = { sc.toHandlerContext with
            stores := { sc.stores with eventStore := es } } := ⟨_, ingest_only hi⟩
        rcases result with e | ⟨deduped, stored, prior⟩
        · exact ⟨rfl, rfl⟩
        · cases deduped <;> exact ⟨rfl, rfl⟩
    | false =>
      simp only [Bool.false_eq_true, if_false, eventCommand]
      cases ha : appendToWal env.toPlatform sc.toHandlerContext io
          { cmd with
            score := prepared.event.score
            eventType := prepared.event.type
            timestamp := some prepared.event.timestamp } with
      | mk ctx logged =>
        obtain ⟨wal, readOnly, rfl⟩ : ∃ wal readOnly, ctx = { sc.toHandlerContext with
            wal := wal, readOnly := readOnly } := ⟨_, _, appendToWal_fst ha⟩
        cases logged with
        | error e => exact ⟨rfl, rfl⟩
        | ok u =>
          simp only
          cases hi : ingest { sc.toHandlerContext with wal := wal, readOnly := readOnly }
              clocks.apply { cmd with
                score := prepared.event.score
                eventType := prepared.event.type
                timestamp := some prepared.event.timestamp } with
          | mk ctx result =>
            obtain ⟨es, rfl⟩ : ∃ es, ctx = { sc.toHandlerContext with
                wal := wal, readOnly := readOnly
                stores := { sc.stores with eventStore := es } } := ⟨_, ingest_only hi⟩
            rcases result with e | ⟨deduped, stored, prior⟩
            · exact ⟨rfl, rfl⟩
            · cases deduped with
              | true => exact ⟨rfl, rfl⟩
              | false =>
                refine ⟨?_, rfl⟩
                simp only [Bool.false_eq_true, if_false, updateCoIndex]
                rw [runSteps_append, runSteps_append]
                have hco := runSteps_coSteps env
                  (runSteps env sc [.log wal readOnly, .events es])
                  (CoOccurrenceIndex.advances_applyIngestedEvent sc.stores.coIndex prior stored
                    (.ofConfig sc.config.events))
                exact congrArg (fun sc => runSteps env sc [.invalidate cmd.id]) hco

omit [FloatOps F] in
theorem updateCache_updateCache (f g : SimilarityCache κ → SimilarityCache κ) :
    (sc.updateCache f).updateCache g = sc.updateCache fun c => g (f c) := by
  unfold ServerContext.updateCache
  cases hp : sc.cachePublished with
  | true => simp
  | false => simp [hp]

omit [FloatOps F] in
theorem runSteps_vecsetSteps [AnnIndex A] (io : WalIo) (cmd : Command) :
    runSteps env sc (vecsetSteps env sc io cmd).1 = (sc.dispatchVecset env io cmd).1 ∧
      (vecsetSteps env sc io cmd).2 = (sc.dispatchVecset env io cmd).2 := by
  unfold vecsetSteps ServerContext.dispatchVecset handleVecset
  cases hv : sc.stores.vectorStore.validateVector env.l2Norm cmd.id cmd.vector with
  | error e => exact ⟨rfl, rfl⟩
  | ok u =>
    simp only
    cases ha : appendToWal env.toPlatform sc.toHandlerContext io cmd with
    | mk ctx logged =>
      obtain ⟨wal, readOnly, rfl⟩ : ∃ wal readOnly, ctx = { sc.toHandlerContext with
          wal := wal, readOnly := readOnly } := ⟨_, _, appendToWal_fst ha⟩
      cases logged with
      | error e => exact ⟨rfl, rfl⟩
      | ok u =>
        simp only
        cases hs : sc.stores.vectorStore.setVector env.l2Norm cmd.id cmd.vector with
        | mk vs result =>
          cases result with
          | error e => exact ⟨rfl, rfl⟩
          | ok u =>
            refine ⟨?_, rfl⟩
            cases hm : cmd.metadata with
            | none =>
              simp only [ServerContext.notifyAdded]
              cases vs.getCompactIndex cmd.id with
              | none => rfl
              | some idx => rfl
            | some m =>
              simp only [ServerContext.notifyAdded, setMetadata]
              cases vs.getCompactIndex cmd.id with
              | none => exact updateCache_updateCache _ _
              | some idx => exact updateCache_updateCache _ _

omit [FloatOps F] in
theorem runSteps_vecdelSteps [AnnIndex A] (io : WalIo) (cmd : Command) :
    runSteps env sc (vecdelSteps env sc io cmd).1 = (sc.dispatchVecdel env io cmd).1 ∧
      (vecdelSteps env sc io cmd).2 = (sc.dispatchVecdel env io cmd).2 := by
  unfold vecdelSteps ServerContext.dispatchVecdel handleVecdel
  cases hidx : sc.stores.vectorStore.getCompactIndex cmd.id with
  | none => exact ⟨rfl, rfl⟩
  | some idx =>
    simp only
    cases ha : appendToWal env.toPlatform sc.toHandlerContext io cmd with
    | mk ctx logged =>
      obtain ⟨wal, readOnly, rfl⟩ : ∃ wal readOnly, ctx = { sc.toHandlerContext with
          wal := wal, readOnly := readOnly } := ⟨_, _, appendToWal_fst ha⟩
      cases logged with
      | error e => exact ⟨rfl, rfl⟩
      | ok u =>
        simp only
        cases hdel : sc.stores.vectorStore.deleteVector cmd.id with
        | mk vs deleted =>
          cases deleted with
          | true => exact ⟨rfl, rfl⟩
          | false =>
            have hin : cmd.id ∈ sc.stores.vectorStore.ids := VectorStore.mem_ids.mpr ⟨idx, hidx⟩
            have htrue := VectorStore.deleteVector_snd.mpr hin
            rw [hdel] at htrue
            cases htrue

omit [FloatOps F] in
theorem runSteps_metasetSteps (io : WalIo) (cmd : Command) :
    runSteps env sc (metasetSteps env sc io cmd).1 = (sc.dispatchMetaset env io cmd).1 ∧
      (metasetSteps env sc io cmd).2 = (sc.dispatchMetaset env io cmd).2 := by
  unfold metasetSteps ServerContext.dispatchMetaset handleMetaset
  cases hidx : sc.stores.vectorStore.getCompactIndex cmd.id with
  | none => exact ⟨rfl, rfl⟩
  | some idx =>
    simp only
    cases hm : parseMetadata env.toPlatform cmd with
    | error e => exact ⟨rfl, rfl⟩
    | ok m =>
      simp only
      cases ha : appendToWal env.toPlatform sc.toHandlerContext io cmd with
      | mk ctx logged =>
        obtain ⟨wal, readOnly, rfl⟩ : ∃ wal readOnly, ctx = { sc.toHandlerContext with
            wal := wal, readOnly := readOnly } := ⟨_, _, appendToWal_fst ha⟩
        cases logged with
        | error e => exact ⟨rfl, rfl⟩
        | ok u => exact ⟨rfl, rfl⟩

/-- **The steps of a command** are its handler. -/
theorem runSteps_writeSteps [AnnIndex A] (clocks : EventClocks) (io : WalIo) (cmd : Command) :
    runSteps env sc (writeSteps env sc clocks io cmd).1 = (sc.dispatchWrite env clocks io cmd).1 ∧
      (writeSteps env sc clocks io cmd).2 = (sc.dispatchWrite env clocks io cmd).2 := by
  unfold writeSteps ServerContext.dispatchWrite
  cases cmd.type with
  | kEvent => exact runSteps_eventSteps clocks io cmd
  | kVecset => exact runSteps_vecsetSteps io cmd
  | kVecdel => exact runSteps_vecdelSteps io cmd
  | kMetaset => exact runSteps_metasetSteps io cmd
  | kUnknown => exact ⟨rfl, rfl⟩

/-- `ApplyDecay` and `Prune`, behind the log. -/
theorem runSteps_decayed (wal : Option WalRun) (readOnly : Bool) (alpha : UInt64) (prune : Bool) :
    runSteps env sc (.log wal readOnly ::
        coSteps sc.stores.coIndex (sc.stores.coIndex.applyDecay alpha) ++
        if prune then coSteps (sc.stores.coIndex.applyDecay alpha)
          (sc.stores.coIndex.applyDecay alpha).prune else []) =
      { sc with
        wal := wal
        readOnly := readOnly
        stores := { sc.stores with coIndex := decayIndex sc.stores.coIndex alpha prune } } := by
  have hdecay := runSteps_coSteps env (runStep env sc (.log wal readOnly))
    (CoOccurrenceIndex.advances_applyDecay sc.stores.coIndex alpha)
  rw [runSteps_append]
  refine (congrArg (fun sc => runSteps env sc _) hdecay).trans ?_
  cases prune with
  | false => rfl
  | true =>
    exact runSteps_coSteps env _
      (CoOccurrenceIndex.advances_prune (sc.stores.coIndex.applyDecay alpha))

/-- The steps of the decay callback are the callback. -/
theorem runSteps_decaySteps (io : WalIo) (prune : Bool) :
    runSteps env sc (decaySteps env sc io prune).1 =
        { sc with
          toHandlerContext := (maintain env.toPlatform sc.toHandlerContext io prune).1 } ∧
      (decaySteps env sc io prune).2 =
        (maintain env.toPlatform sc.toHandlerContext io prune).2 := by
  unfold decaySteps maintain
  dsimp only
  split
  · exact ⟨rfl, rfl⟩
  · cases hw : sc.wal with
    | none => exact ⟨runSteps_decayed sc.wal sc.readOnly _ prune, rfl⟩
    | some w =>
      simp only
      cases ha : appendRecord env.toPlatform sc.toHandlerContext w io .kCoOccurrenceMaintenance
          (maintenancePayload sc.config.events.decayAlpha prune) with
      | mk ctx result =>
        obtain ⟨wal, readOnly, rfl⟩ : ∃ wal readOnly, ctx = { sc.toHandlerContext with
            wal := wal, readOnly := readOnly } := ⟨_, _, appendRecord_fst ha⟩
        cases result with
        | error e => exact ⟨rfl, rfl⟩
        | ok u => exact ⟨runSteps_decayed wal readOnly _ prune, rfl⟩

end Alone

/-! ## 4. Counters behind the stores -/

/-- **The discipline of a write**, from any of its steps on: a store that has been changed (`v`
    the vectors or their index, `m` the metadata) has its counter raised before the end; the
    co-occurrence index is changed under its lock, which is held since its counter was `closed`,
    and the counter, now `gen`, is raised there. -/
def Disciplined {F A : Type} (v m : Bool) (closed : Option Nat) (gen : Nat) :
    List (HandlerStep F A) → Prop
  | [] => v = false ∧ m = false ∧ closed = none
  | .log .. :: l => Disciplined v m closed gen l
  | .events _ :: l => Disciplined v m closed gen l
  | .enterCo :: l => closed = none ∧ Disciplined v m (some gen) gen l
  | .bumpCo :: l => closed ≠ none ∧ Disciplined v m closed (gen + 1) l
  | .leaveCo co :: l =>
    (∃ n, closed = some n ∧ n < gen) ∧ co.generation = gen ∧ Disciplined v m none gen l
  | .vectors _ :: l => Disciplined true m closed gen l
  | .metadata _ :: l => Disciplined v true closed gen l
  | .index _ :: l => Disciplined true m closed gen l
  | .bumpVectors :: l => Disciplined false m closed gen l
  | .bumpMetadata :: l => Disciplined v false closed gen l
  | .invalidate _ :: l => Disciplined v m closed gen l
  | .clearCache :: l => Disciplined v m closed gen l

section Discipline

variable {F A κ : Type} [DecidableEq κ] {env : ServerEnv κ} {sc : ServerContext F A κ}
  {v m : Bool}

theorem disciplined_bumpCo {l : List (HandlerStep F A)} {n gen : Nat} (k : Nat)
    (h : Disciplined v m (some n) (gen + k) l) :
    Disciplined v m (some n) gen (List.replicate k .bumpCo ++ l) := by
  induction k generalizing gen with
  | zero => exact h
  | succ k ih =>
    refine ⟨by simp, ih ?_⟩
    rwa [show gen + 1 + k = gen + (k + 1) by omega]

theorem disciplined_coSteps {x y : CoOccurrenceIndex F} {l : List (HandlerStep F A)}
    (h : x.Advances y) (hl : Disciplined v m none y.generation l) :
    Disciplined v m none x.generation (coSteps x y ++ l) := by
  unfold coSteps
  split
  · rename_i heq
    rwa [heq] at hl
  · rename_i hne
    have hle := h.1
    rw [List.cons_append, List.append_assoc]
    refine ⟨rfl, disciplined_bumpCo _ ⟨⟨_, rfl, by omega⟩, by omega, ?_⟩⟩
    rwa [show x.generation + (y.generation - x.generation) = y.generation by omega]

variable [FloatOps F] [AnnIndex A]

omit [FloatOps F] in
theorem disciplined_vecsetSteps (io : WalIo) (cmd : Command) (gen : Nat) :
    Disciplined false false none gen (vecsetSteps env sc io cmd).1 := by
  unfold vecsetSteps
  split
  · exact ⟨rfl, rfl, rfl⟩
  · rename_i hv
    split
    · exact ⟨rfl, rfl, rfl⟩
    · rename_i ctx ha
      have hstores : ctx.stores = sc.stores := by rw [appendToWal_fst ha]
      obtain ⟨dim, -, hset⟩ := VectorStore.setVector_ok hv
      rw [hstores, hset]
      dsimp only
      cases cmd.metadata <;> cases VectorStore.getCompactIndex _ cmd.id <;> exact ⟨rfl, rfl, rfl⟩

omit [AnnIndex A] in
theorem disciplined_eventSteps (clocks : EventClocks) (io : WalIo) (cmd : Command) :
    Disciplined false false none sc.stores.coIndex.generation (eventSteps env sc clocks io cmd).1 := by
  unfold eventSteps
  split
  · exact ⟨rfl, rfl, rfl⟩
  · split
    · split <;> exact ⟨rfl, rfl, rfl⟩
    · split
      · exact ⟨rfl, rfl, rfl⟩
      · rename_i ctx ha
        have hstores : ctx.stores = sc.stores := by rw [appendToWal_fst ha]
        split
        · rename_i ctx' result hi
          have hco : ctx'.stores.coIndex = sc.stores.coIndex := by rw [ingest_only hi, hstores]
          split
          · exact ⟨rfl, rfl, rfl⟩
          · rw [List.append_assoc, ← hco]
            refine disciplined_coSteps ?_ ⟨rfl, rfl, rfl⟩
            exact CoOccurrenceIndex.advances_applyIngestedEvent _ _ _ _
        · exact ⟨rfl, rfl, rfl⟩

/-- **Every command is disciplined.** -/
theorem disciplined_writeSteps (clocks : EventClocks) (io : WalIo) (cmd : Command) :
    Disciplined false false none sc.stores.coIndex.generation (writeSteps env sc clocks io cmd).1 := by
  unfold writeSteps
  split
  · exact disciplined_eventSteps clocks io cmd
  · exact disciplined_vecsetSteps io cmd _
  · unfold vecdelSteps
    split
    · exact ⟨rfl, rfl, rfl⟩
    · split
      · exact ⟨rfl, rfl, rfl⟩
      · split <;> exact ⟨rfl, rfl, rfl⟩
  · unfold metasetSteps
    split
    · exact ⟨rfl, rfl, rfl⟩
    · split
      · exact ⟨rfl, rfl, rfl⟩
      · split <;> exact ⟨rfl, rfl, rfl⟩
  · exact ⟨rfl, rfl, rfl⟩

omit [AnnIndex A] in
theorem disciplined_decaySteps (io : WalIo) (prune : Bool) :
    Disciplined false false none sc.stores.coIndex.generation (decaySteps env sc io prune).1 := by
  have htail : ∀ (wal : Option WalRun) (readOnly : Bool) (x : CoOccurrenceIndex F) (alpha : UInt64),
      Disciplined (A := A) false false none x.generation
        (.log wal readOnly :: coSteps x (x.applyDecay alpha) ++
          if prune then coSteps (x.applyDecay alpha) (x.applyDecay alpha).prune else []) := by
    intro wal readOnly x alpha
    refine disciplined_coSteps (CoOccurrenceIndex.advances_applyDecay x alpha) ?_
    cases prune with
    | false => exact ⟨rfl, rfl, rfl⟩
    | true =>
      rw [if_pos rfl, ← List.append_nil (coSteps _ _)]
      exact disciplined_coSteps (CoOccurrenceIndex.advances_prune _) ⟨rfl, rfl, rfl⟩
  unfold decaySteps
  dsimp only
  split
  · exact ⟨rfl, rfl, rfl⟩
  · split
    · exact ⟨rfl, rfl, rfl⟩
    · rename_i ctx hl
      have hstores : ctx.stores = sc.stores := by
        split at hl
        · cases hl
          rfl
        · rw [appendRecord_fst hl]
      rw [hstores]
      exact htail _ _ _ _

end Discipline

end Nvecd.Server
