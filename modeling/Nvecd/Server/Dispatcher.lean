/-
  File:      Nvecd/Server/Dispatcher.lean
  Subject:   The four write handlers of `server/request_dispatcher.cpp` with all they touch: the
             stores and the log (`Nvecd/Server/Handlers.lean`), the ANN index, the cache, and the
             generation counters that are part of cache keys.

  Every handler checks its command, appends it to the WAL, applies it, and then brings index,
  counters and cache after the stores. What a query computes it computes from these.

  * `ServerContext`, `dispatchEvent`, `dispatchVecset`, `dispatchVecdel`, `dispatchMetaset`;
  * `refusal` -- the checks and the append, as one function: why a handler refuses a command;
  * `appliedCommand`, `applyCommand` -- what a handler hands to the stores, and what they do;
  * `wal_before_apply` -- a refused command leaves everything but the log as it was, an accepted
    one has appended one record to one file, and that record decodes to what was applied;
  * `dispatchWrite_reached` -- what the handlers do to the log is a step of its own machine.
-/
import Nvecd.Cache.SimilarityCache
import Nvecd.Server.Replay
import Nvecd.Similarity.SimilarityEngine
import Nvecd.Storage.WalNames

namespace Nvecd.Server

open Nvecd.Lib Nvecd.Utils Nvecd.Storage Nvecd.Events Nvecd.Vectors Nvecd.Similarity Nvecd.Cache

/-! ## 1. The context -/

/-- `HandlerContext`, whole. -/
structure ServerContext (F A κ : Type) [DecidableEq κ] extends HandlerContext F where
  engine : SimilarityEngine A
  cache : SimilarityCache κ
  /-- `cache` is published: the pointer the handlers load is not null. -/
  cachePublished : Bool := true
  vectorGeneration : Nat := 0
  metadataGeneration : Nat := 0
  datasetGeneration : Nat := 0
  loading : Bool := false

/-- What is taken from outside. -/
structure ServerEnv (κ : Type) [DecidableEq κ] extends Platform where
  cache : CacheEnv κ
  /-- The random numbers of the training sample. -/
  rng : Nat → Nat

section Handlers

variable {F A κ : Type} [FloatOps F] [AnnIndex A] [DecidableEq κ]

namespace ServerContext

/-- What is done to the cache is done if it is published. -/
def updateCache (f : SimilarityCache κ → SimilarityCache κ) (sc : ServerContext F A κ) :
    ServerContext F A κ :=
  if sc.cachePublished then { sc with cache := f sc.cache } else sc

/-! ## 2. The handlers -/

variable (env : ServerEnv κ)

/-- `HandleEvent`. A duplicate leaves the cache alone. -/
def dispatchEvent (sc : ServerContext F A κ) (clocks : EventClocks) (io : WalIo) (cmd : Command) :
    ServerContext F A κ × Except Error String :=
  match sc.stores.eventStore.prepareEvent clocks.prepare cmd.ctx cmd.id cmd.score cmd.eventType
      (cmd.timestamp.getD 0) with
  | .error e => (sc, .error e)
  | .ok prepared =>
    match handleEvent env.toPlatform sc.toHandlerContext clocks io cmd with
    | (ctx, .error e) => ({ sc with toHandlerContext := ctx }, .error e)
    | (ctx, .ok answer) =>
      let sc := { sc with toHandlerContext := ctx }
      if prepared.deduped then (sc, .ok answer)
      else (sc.updateCache fun c => c.invalidateByItemId env.cache cmd.id, .ok answer)

/-- The new vector goes to the index under its slot. -/
def notifyAdded (sc : ServerContext F A κ) (id : Bytes) : ServerContext F A κ :=
  match sc.stores.vectorStore.getCompactIndex id with
  | none => sc
  | some idx =>
    { sc with engine := sc.engine.notifyVectorAdded env.rng sc.stores.vectorStore idx }

/-- `HandleVecset`. -/
def dispatchVecset (sc : ServerContext F A κ) (io : WalIo) (cmd : Command) :
    ServerContext F A κ × Except Error String :=
  match handleVecset env.toPlatform sc.toHandlerContext io cmd with
  | (ctx, .error e) => ({ sc with toHandlerContext := ctx }, .error e)
  | (ctx, .ok answer) =>
    let sc := { sc with toHandlerContext := ctx }.notifyAdded env cmd.id
    let sc := { sc with
      vectorGeneration := sc.vectorGeneration + 1
      metadataGeneration := sc.metadataGeneration + if cmd.metadata.isSome then 1 else 0 }
    let sc := sc.updateCache fun c =>
      let c := c.invalidateByItemId env.cache cmd.id
      if cmd.metadata.isSome then c.clear else c
    (sc, .ok answer)

/-- `HandleVecdel`. The slot is looked up before the deletion; the index is then built anew. -/
def dispatchVecdel (sc : ServerContext F A κ) (io : WalIo) (cmd : Command) :
    ServerContext F A κ × Except Error String :=
  let compactIndex := sc.stores.vectorStore.getCompactIndex cmd.id
  match handleVecdel env.toPlatform sc.toHandlerContext io cmd with
  | (ctx, .error e) => ({ sc with toHandlerContext := ctx }, .error e)
  | (ctx, .ok answer) =>
    let engine := sc.engine.notifyVectorRemoved (compactIndex.getD 0)
    let sc := { sc with
      toHandlerContext := ctx
      engine := engine.rebuildAnnFromStore ctx.stores.vectorStore
      vectorGeneration := sc.vectorGeneration + 1
      metadataGeneration := sc.metadataGeneration + 1 }
    (sc.updateCache fun c => c.invalidateByItemId env.cache cmd.id, .ok answer)

/-- `HandleMetaset`. -/
def dispatchMetaset (sc : ServerContext F A κ) (io : WalIo) (cmd : Command) :
    ServerContext F A κ × Except Error String :=
  match handleMetaset env.toPlatform sc.toHandlerContext io cmd with
  | (ctx, .error e) => ({ sc with toHandlerContext := ctx }, .error e)
  | (ctx, .ok answer) =>
    let sc := { sc with
      toHandlerContext := ctx
      metadataGeneration := sc.metadataGeneration + 1 }
    (sc.updateCache fun c => c.clear, .ok answer)

/-- The handler a command is routed to. -/
def dispatchWrite (sc : ServerContext F A κ) (clocks : EventClocks) (io : WalIo) (cmd : Command) :
    ServerContext F A κ × Except Error String :=
  match cmd.type with
  | .kEvent => sc.dispatchEvent env clocks io cmd
  | .kVecset => sc.dispatchVecset env io cmd
  | .kVecdel => sc.dispatchVecdel env io cmd
  | .kMetaset => sc.dispatchMetaset env io cmd
  | .kUnknown => (sc, .error (makeError .kCommandUnknown "Unknown command type"))

end ServerContext

end Handlers

/-! ## 3. Refusals -/

section Refusal

variable {F A κ : Type} [DecidableEq κ]

/-- The error of the append, if it fails. -/
def appendError (env : Platform) (ctx : HandlerContext F) (io : WalIo) (cmd : Command) :
    Option Error :=
  match (appendToWal env ctx io cmd).2 with
  | .error e => some e
  | .ok () => none

/-- The command that is logged for an event. -/
def eventCommand (cmd : Command) (prepared : PreparedEvent) : Command :=
  { cmd with
    score := prepared.event.score
    eventType := prepared.event.type
    timestamp := some prepared.event.timestamp }

/-- **Why a command is refused**: it is not valid, its vector does not exist, its filter does not
    parse, or the append fails. -/
def refusal (env : Platform) (ctx : HandlerContext F) (clocks : EventClocks) (io : WalIo)
    (cmd : Command) : Option Error :=
  match cmd.type with
  | .kEvent =>
    match ctx.stores.eventStore.prepareEvent clocks.prepare cmd.ctx cmd.id cmd.score cmd.eventType
        (cmd.timestamp.getD 0) with
    | .error e => some e
    | .ok prepared =>
      if prepared.deduped then none else appendError env ctx io (eventCommand cmd prepared)
  | .kVecset =>
    match ctx.stores.vectorStore.validateVector env.l2Norm cmd.id cmd.vector with
    | .error e => some e
    | .ok () => appendError env ctx io cmd
  | .kVecdel =>
    match ctx.stores.vectorStore.getCompactIndex cmd.id with
    | none => some (vectorNotFound cmd.id)
    | some _ => appendError env ctx io cmd
  | .kMetaset =>
    match ctx.stores.vectorStore.getCompactIndex cmd.id with
    | none => some (makeError .kVectorNotFound
        ("Vector not found for metadata: " ++ textOf cmd.id))
    | some _ =>
      match parseMetadata env cmd with
      | .error e => some e
      | .ok _ => appendError env ctx io cmd
  | .kUnknown => some (makeError .kCommandUnknown "Unknown command type")

/-- The preview takes the event for a duplicate. -/
def isDuplicate (ctx : HandlerContext F) (clocks : EventClocks) (cmd : Command) : Bool :=
  cmd.type = .kEvent &&
    match ctx.stores.eventStore.prepareEvent clocks.prepare cmd.ctx cmd.id cmd.score cmd.eventType
        (cmd.timestamp.getD 0) with
    | .error _ => false
    | .ok prepared => prepared.deduped

/-- Everything but the log and `read_only` is as it was. -/
def OnlyLogged (sc sc' : ServerContext F A κ) : Prop :=
  ∃ wal readOnly, sc' = { sc with wal := wal, readOnly := readOnly }

/-- **One record has been appended**: it stands whole at the end of one file, which was there or is
    new, no other file has changed, and it is acknowledged. -/
def AppendedOne (crc32 : Bytes → UInt32) (w w' : WalRun) (record : WalRecord) : Prop :=
  w'.acked = record :: w.acked ∧ w.wal.dir.Extended w'.wal.dir (encodeRecord crc32 record)

variable {env : Platform} {ctx ctx' : HandlerContext F} {clocks : EventClocks} {io : WalIo}
  {cmd : Command}

theorem appendToWal_only (env : Platform) (ctx : HandlerContext F) (io : WalIo) (cmd : Command) :
    ∃ wal readOnly, (appendToWal env ctx io cmd).1 =
      { ctx with wal := wal, readOnly := readOnly } := by
  unfold appendToWal
  split
  · exact ⟨_, _, rfl⟩
  · split
    · exact ⟨_, _, rfl⟩
    · unfold appendRecord
      dsimp only
      split
      · exact ⟨_, _, rfl⟩
      · exact ⟨_, _, rfl⟩

/-- The append of a command that succeeds, with the WAL enabled and vectors in it. -/
theorem appendToWal_ok {w : WalRun} (hw : ctx.wal = some w) (hreached : w.Reached env.crc32)
    (hinc : ctx.config.includeVectors = true)
    (h : appendToWal env ctx io cmd = (ctx', .ok ())) :
    ∃ w' sequence, ctx' = { ctx with wal := some w' } ∧
      AppendedOne env.crc32 w w' (recordOf sequence (io.nowUs % 2 ^ 64) cmd) ∧
      fitsRecord (encodeCommand cmd) := by
  unfold appendToWal at h
  rw [hw] at h
  simp only [hinc, not_true_eq_false, and_false, if_false] at h
  unfold appendRecord at h
  cases happ : append env.crc32 w.cfg io.io io.nowUs (walOpForCommand cmd) (encodeCommand cmd)
      w.wal with
  | mk v res =>
    cases res with
    | error e =>
      simp only [happ] at h
      cases h
    | ok q =>
      simp only [happ] at h
      cases h
      refine ⟨_, q, rfl, ⟨by simp [WalRun.append, happ, recordOf], ?_⟩, ?_⟩
      · simp only [WalRun.append, happ]
        obtain ⟨cfg, acts, hrun⟩ := hreached
        exact append_writes (numbered_run hrun) (openThere_run hrun) happ
      · have hok : (append env.crc32 w.cfg io.io io.nowUs (walOpForCommand cmd)
            (encodeCommand cmd) w.wal).2 = .ok q := by rw [happ]
        obtain ⟨-, -, -, hfits⟩ := appended_of_append env hok
        exact hfits

/-- An append that fails has touched nothing but the log and `read_only`. -/
theorem appendToWal_error {e : Error} (h : appendError env ctx io cmd = some e) :
    ∃ wal readOnly, appendToWal env ctx io cmd =
      ({ ctx with wal := wal, readOnly := readOnly }, .error e) := by
  obtain ⟨wal, readOnly, hfst⟩ := appendToWal_only env ctx io cmd
  refine ⟨wal, readOnly, Prod.ext hfst ?_⟩
  unfold appendError at h
  split at h
  · rename_i e' he
    rw [he, Option.some.inj h]
  · cases h

theorem appendToWal_reached (h : ∀ w, ctx.wal = some w → w.Reached env.crc32) :
    ∀ w, (appendToWal env ctx io cmd).1.wal = some w → w.Reached env.crc32 := by
  unfold appendToWal
  split
  · exact h
  · rename_i v hv
    split
    · exact h
    · intro w hw
      have hstep : walStep env.crc32 v (.append io.io io.nowUs (walOpForCommand cmd)
          (encodeCommand cmd)) = some w := by
        unfold appendRecord at hw
        dsimp only at hw
        split at hw
        · exact hw
        · exact hw
      exact (h v hv).step hstep

variable [FloatOps F]

/-- A handler has appended to the log, or has left it alone. -/
theorem handleCommand_wal (env : Platform) (ctx : HandlerContext F) (clocks : EventClocks)
    (io : WalIo) (cmd : Command) : (handleCommand env ctx clocks io cmd).1.wal = ctx.wal ∨
      ∃ c, (handleCommand env ctx clocks io cmd).1.wal = (appendToWal env ctx io c).1.wal := by
  have hingest : ∀ (ctx : HandlerContext F) (clock : Clock) (c : Command),
      (ingest ctx clock c).1.wal = ctx.wal := fun _ _ _ => rfl
  unfold handleCommand
  split
  · unfold handleEvent
    split
    · exact .inl rfl
    · split
      · split
        · rename_i ctx' _ hi
          exact .inl ((congrArg (·.1.wal) hi).symm.trans (hingest _ _ _))
        · rename_i ctx' _ _ hi
          exact .inl ((congrArg (·.1.wal) hi).symm.trans (hingest _ _ _))
      · dsimp only
        split
        · rename_i ctx' e happ
          exact .inr ⟨_, (congrArg (·.1.wal) happ).symm⟩
        · rename_i ctx' happ
          refine .inr ⟨_, Eq.trans ?_ (congrArg (·.1.wal) happ).symm⟩
          split
          · rename_i ctx'' result hi
            have hwal := (congrArg (·.1.wal) hi).symm.trans (hingest _ _ _)
            split
            · exact hwal
            · exact hwal
          · rename_i ctx'' e hi
            exact (congrArg (·.1.wal) hi).symm.trans (hingest _ _ _)
  · unfold handleVecset
    split
    · exact .inl rfl
    · split
      · rename_i ctx' e happ
        exact .inr ⟨_, (congrArg (·.1.wal) happ).symm⟩
      · rename_i ctx' happ
        refine .inr ⟨_, Eq.trans ?_ (congrArg (·.1.wal) happ).symm⟩
        split
        · rfl
        · dsimp only
          split <;> rfl
  · unfold handleVecdel
    split
    · exact .inl rfl
    · split
      · rename_i ctx' e happ
        exact .inr ⟨_, (congrArg (·.1.wal) happ).symm⟩
      · rename_i ctx' happ
        refine .inr ⟨_, Eq.trans ?_ (congrArg (·.1.wal) happ).symm⟩
        split
        · rfl
        · rfl
  · unfold handleMetaset
    split
    · exact .inl rfl
    · split
      · exact .inl rfl
      · split
        · rename_i ctx' e happ
          exact .inr ⟨_, (congrArg (·.1.wal) happ).symm⟩
        · rename_i ctx' happ
          exact .inr ⟨_, (congrArg (·.1.wal) happ).symm⟩
  · exact .inl rfl

/-- **A refused command**: the handler answers with the reason, and only the log and `read_only`
    may have changed. -/
theorem handleCommand_refused {e : Error} (h : refusal env ctx clocks io cmd = some e) :
    ∃ wal readOnly, handleCommand env ctx clocks io cmd =
      ({ ctx with wal := wal, readOnly := readOnly }, .error e) := by
  unfold refusal at h
  unfold handleCommand
  cases htype : cmd.type with
  | kUnknown =>
    simp only [htype, Option.some.injEq] at h ⊢
    exact ⟨ctx.wal, ctx.readOnly, by rw [h]⟩
  | kEvent =>
    simp only [htype] at h ⊢
    split at h
    · rename_i e' hp
      unfold handleEvent
      rw [hp]
      obtain rfl := Option.some.inj h
      exact ⟨ctx.wal, ctx.readOnly, rfl⟩
    · rename_i prepared hp
      unfold handleEvent
      rw [hp]
      split at h
      · cases h
      · rename_i hnew
        obtain ⟨wal, readOnly, happ⟩ := appendToWal_error h
        simp only [eventCommand] at happ
        simp only [hnew, happ]
        exact ⟨wal, readOnly, rfl⟩
  | kVecset =>
    simp only [htype] at h ⊢
    split at h
    · rename_i e' hv
      unfold handleVecset
      rw [hv]
      obtain rfl := Option.some.inj h
      exact ⟨ctx.wal, ctx.readOnly, rfl⟩
    · rename_i hv
      unfold handleVecset
      obtain ⟨wal, readOnly, happ⟩ := appendToWal_error h
      simp only [hv, happ]
      exact ⟨wal, readOnly, rfl⟩
  | kVecdel =>
    simp only [htype] at h ⊢
    split at h
    · rename_i hi
      unfold handleVecdel
      rw [hi]
      obtain rfl := Option.some.inj h
      exact ⟨ctx.wal, ctx.readOnly, rfl⟩
    · rename_i idx hi
      unfold handleVecdel
      obtain ⟨wal, readOnly, happ⟩ := appendToWal_error h
      simp only [hi, happ]
      exact ⟨wal, readOnly, rfl⟩
  | kMetaset =>
    simp only [htype] at h ⊢
    split at h
    · rename_i hi
      unfold handleMetaset
      rw [hi]
      obtain rfl := Option.some.inj h
      exact ⟨ctx.wal, ctx.readOnly, rfl⟩
    · rename_i idx hi
      split at h
      · rename_i e' hm
        unfold handleMetaset
        simp only [hi, hm]
        obtain rfl := Option.some.inj h
        exact ⟨ctx.wal, ctx.readOnly, rfl⟩
      · rename_i m hm
        unfold handleMetaset
        obtain ⟨wal, readOnly, happ⟩ := appendToWal_error h
        simp only [hi, hm, happ]
        exact ⟨wal, readOnly, rfl⟩

end Refusal

/-! ## 4. Acceptance -/

section Acceptance

variable {F : Type}

/-- The command as it is logged. -/
def loggedCommand (ctx : HandlerContext F) (clocks : EventClocks) (cmd : Command) : Command :=
  match cmd.type with
  | .kEvent =>
    match ctx.stores.eventStore.prepareEvent clocks.prepare cmd.ctx cmd.id cmd.score cmd.eventType
        (cmd.timestamp.getD 0) with
    | .error _ => cmd
    | .ok prepared => eventCommand cmd prepared
  | _ => cmd

/-- **What a handler hands to the stores**: the fields its type has, an event as it was
    prepared. -/
def appliedCommand (ctx : HandlerContext F) (clocks : EventClocks) (cmd : Command) : Command :=
  let c := loggedCommand ctx clocks cmd
  match cmd.type with
  | .kEvent => { type := .kEvent, eventType := c.eventType, ctx := c.ctx, id := c.id
                 score := c.score, timestamp := some (c.timestamp.getD 0) }
  | .kVecset => { type := .kVecset, id := c.id, dimension := c.vector.length, vector := c.vector
                  metadata := c.metadata }
  | .kVecdel => { type := .kVecdel, id := c.id }
  | .kMetaset => { type := .kMetaset, id := c.id, metadata := c.metadata
                   filterExpr := if c.metadata = none then c.filterExpr else [] }
  | .kUnknown => {}

/-- **What the stores do with it.** -/
def applyCommand [FloatOps F] (env : Platform) (cfg : EventsConfig) (clock : Clock)
    (cmd : Command) (s : Stores F) : Stores F :=
  match cmd.type with
  | .kEvent =>
    let (eventStore, result) := s.eventStore.addEventAndGetPrior clock cmd.ctx cmd.id cmd.score
      cmd.eventType (cmd.timestamp.getD 0)
    match result with
    | .error _ => { s with eventStore := eventStore }
    | .ok result =>
      { s with
        eventStore := eventStore
        coIndex := s.coIndex.applyIngestedEvent result.priorEvents result.storedEvent
          (.ofConfig cfg) }
  | .kVecset =>
    { s with
      vectorStore := (s.vectorStore.setVector env.l2Norm cmd.id cmd.vector).1
      metadataStore :=
        match cmd.metadata with
        | some m => s.metadataStore.set cmd.id m
        | none => s.metadataStore }
  | .kVecdel =>
    { s with
      vectorStore := (s.vectorStore.deleteVector cmd.id).1.defragment
      metadataStore := s.metadataStore.delete cmd.id }
  | .kMetaset =>
    match parseMetadata env cmd with
    | .error _ => s
    | .ok m => { s with metadataStore := s.metadataStore.set cmd.id m }
  | .kUnknown => s

variable {env : Platform} {ctx ctx' : HandlerContext F} {clocks : EventClocks} {io : WalIo}
  {cmd : Command}

theorem storedScore_of_ne {score : Int} {type : EventType} (h : type ≠ .DEL) :
    storedScore score type = score := by
  unfold storedScore
  split
  · exact absurd rfl h
  · rfl

/-- The score of a prepared event is an `int`. -/
theorem prepareEvent_score {prepared : PreparedEvent} {timestamp : UInt64} {clock : Clock}
    (h : ctx.stores.eventStore.prepareEvent clock cmd.ctx cmd.id cmd.score cmd.eventType timestamp =
      .ok prepared) : -(2 ^ 31) ≤ prepared.event.score ∧ prepared.event.score < 2 ^ 31 := by
  unfold EventStore.prepareEvent at h
  split at h
  · cases h
  · rename_i hv
    cases h
    by_cases hdel : cmd.eventType = .DEL
    · simp [hdel, storedScore]
    · have hb := (validateEvent_ok hv).2.2 hdel
      simp only [storedScore_of_ne hdel]
      omega

/-- **The record decodes to what is applied.** -/
theorem decode_logged {sequence timestampUs : Nat} (htype : cmd.type ≠ .kUnknown)
    (hvalid : cmd.type = .kEvent → ∃ prepared, ctx.stores.eventStore.prepareEvent clocks.prepare
      cmd.ctx cmd.id cmd.score cmd.eventType (cmd.timestamp.getD 0) = .ok prepared)
    (hfits : fitsRecord (encodeCommand (loggedCommand ctx clocks cmd))) :
    decodeWalRecord (recordOf sequence timestampUs (loggedCommand ctx clocks cmd)) =
      .ok (appliedCommand ctx clocks cmd) := by
  obtain ⟨hlen, hmagic⟩ := fitsRecord_lt hfits
  unfold appliedCommand
  cases hc : cmd.type with
  | kUnknown => exact absurd hc htype
  | kEvent =>
    obtain ⟨prepared, hp⟩ := hvalid hc
    have hlog : loggedCommand ctx clocks cmd = eventCommand cmd prepared := by
      simp only [loggedCommand, hc, hp]
    obtain ⟨hlo, hhi⟩ := prepareEvent_score hp
    rw [hlog] at hlen ⊢
    exact decode_event hc (lt_trans hlen (by decide)) hlo hhi
  | kVecset =>
    have hlog : loggedCommand ctx clocks cmd = cmd := by simp only [loggedCommand, hc]
    rw [hlog] at hlen ⊢
    exact decode_vecset hc hlen
  | kVecdel =>
    have hlog : loggedCommand ctx clocks cmd = cmd := by simp only [loggedCommand, hc]
    rw [hlog] at hlen ⊢
    exact decode_vecdel hc (lt_trans hlen (by decide))
  | kMetaset =>
    have hlog : loggedCommand ctx clocks cmd = cmd := by simp only [loggedCommand, hc]
    rw [hlog] at hmagic ⊢
    exact decode_metaset hc hmagic

/-- A text and the typed metadata beside it give the same metadata as the logged command. -/
theorem parseMetadata_applied (hc : cmd.type = .kMetaset) :
    parseMetadata env (appliedCommand ctx clocks cmd) = parseMetadata env cmd := by
  simp only [appliedCommand, loggedCommand, hc, parseMetadata]
  cases cmd.metadata with
  | none => rfl
  | some m => rfl

variable [FloatOps F]

/-- **An accepted command**: it has been appended as it is logged, and then applied. -/
theorem handleCommand_accepted {r : String} (hnew : isDuplicate ctx clocks cmd = false)
    (h : handleCommand env ctx clocks io cmd = (ctx', .ok r)) :
    ∃ ctx₁, appendToWal env ctx io (loggedCommand ctx clocks cmd) = (ctx₁, .ok ()) ∧
      ctx' = { ctx₁ with
        stores := applyCommand env ctx₁.config.events clocks.apply
          (appliedCommand ctx clocks cmd) ctx₁.stores } ∧
      cmd.type ≠ .kUnknown ∧
      (cmd.type = .kEvent → ∃ prepared, ctx.stores.eventStore.prepareEvent clocks.prepare
        cmd.ctx cmd.id cmd.score cmd.eventType (cmd.timestamp.getD 0) = .ok prepared) := by
  unfold handleCommand at h
  cases hc : cmd.type with
  | kUnknown =>
    rw [hc] at h
    cases h
  | kEvent =>
    simp only [hc] at h
    unfold handleEvent at h
    cases hp : ctx.stores.eventStore.prepareEvent clocks.prepare cmd.ctx cmd.id cmd.score
        cmd.eventType (cmd.timestamp.getD 0) with
    | error e =>
      rw [hp] at h
      cases h
    | ok prepared =>
      have hd : prepared.deduped = false := by simpa [isDuplicate, hc, hp] using hnew
      have hlog : loggedCommand ctx clocks cmd = eventCommand cmd prepared := by
        simp only [loggedCommand, hc, hp]
      simp only [hp, hd, Bool.false_eq_true, if_false] at h
      split at h
      · cases h
      · rename_i ctx₁ happ
        refine ⟨ctx₁, hlog ▸ happ, ?_, by simp, fun _ => ⟨prepared, rfl⟩⟩
        simp only [appliedCommand, hlog, hc, applyCommand, eventCommand, Option.getD_some]
        split at h
        · rename_i ctx₂ result hi
          obtain ⟨es, rfl, hadd⟩ := ingest_ok hi
          simp only [Option.getD_some] at hadd
          split at h
          · cases h
          · cases h
            simp only [hadd]
            rfl
        · cases h
  | kVecset =>
    have hlog : loggedCommand ctx clocks cmd = cmd := by simp only [loggedCommand, hc]
    simp only [hc] at h
    unfold handleVecset at h
    split at h
    · cases h
    · split at h
      · cases h
      · rename_i ctx₁ happ
        refine ⟨ctx₁, hlog.symm ▸ happ, ?_, by simp, by simp⟩
        simp only [appliedCommand, hlog, hc, applyCommand]
        split at h
        · cases h
        · rename_i vs hset
          simp only [hset]
          cases h
          cases cmd.metadata with
          | none => rfl
          | some m => rfl
  | kVecdel =>
    have hlog : loggedCommand ctx clocks cmd = cmd := by simp only [loggedCommand, hc]
    simp only [hc] at h
    unfold handleVecdel at h
    split at h
    · cases h
    · split at h
      · cases h
      · rename_i ctx₁ happ
        refine ⟨ctx₁, hlog.symm ▸ happ, ?_, by simp, by simp⟩
        simp only [appliedCommand, hlog, hc, applyCommand]
        split at h
        · cases h
        · rename_i vs hdel
          simp only [hdel]
          cases h
          rfl
  | kMetaset =>
    have hlog : loggedCommand ctx clocks cmd = cmd := by simp only [loggedCommand, hc]
    have hparse := @parseMetadata_applied F env ctx clocks cmd hc
    simp only [hc] at h
    unfold handleMetaset at h
    split at h
    · cases h
    · split at h
      · cases h
      · rename_i m hm
        split at h
        · cases h
        · rename_i ctx₁ happ
          refine ⟨ctx₁, hlog.symm ▸ happ, ?_, by simp, by simp⟩
          have hkind : (appliedCommand ctx clocks cmd).type = .kMetaset := by
            simp only [appliedCommand, hc]
          have hid : (appliedCommand ctx clocks cmd).id = cmd.id := by
            simp only [appliedCommand, hc, hlog]
          simp only [applyCommand, hkind, hparse, hm, hid]
          cases h
          rfl

end Acceptance

/-! ## 5. The log before the stores -/

section Atomicity

variable {F A κ : Type} [DecidableEq κ] {env : ServerEnv κ} {sc sc' : ServerContext F A κ}

@[simp] theorem updateCache_context (f : SimilarityCache κ → SimilarityCache κ)
    (sc : ServerContext F A κ) :
    (sc.updateCache f).toHandlerContext = sc.toHandlerContext := by
  unfold ServerContext.updateCache
  split <;> rfl

variable [AnnIndex A]

@[simp] theorem notifyAdded_context (sc : ServerContext F A κ) (id : Bytes) :
    (sc.notifyAdded env id).toHandlerContext = sc.toHandlerContext := by
  unfold ServerContext.notifyAdded
  split <;> rfl

variable [FloatOps F] {clocks : EventClocks} {io : WalIo} {cmd : Command}
  {result : Except Error String}

/-- Index, cache and counters do not feed back: stores, log and answer are those of the handler
    without them; and they follow only if the handler accepts. -/
theorem dispatchWrite_handleCommand
    (h : sc.dispatchWrite env clocks io cmd = (sc', result)) :
    handleCommand env.toPlatform sc.toHandlerContext clocks io cmd =
        (sc'.toHandlerContext, result) ∧
      ∀ e, result = .error e → sc' = { sc with toHandlerContext := sc'.toHandlerContext } := by
  unfold ServerContext.dispatchWrite at h
  unfold handleCommand
  cases hc : cmd.type with
  | kUnknown =>
    simp only [hc] at h ⊢
    cases h
    exact ⟨rfl, fun e _ => rfl⟩
  | kEvent =>
    simp only [hc] at h ⊢
    unfold ServerContext.dispatchEvent at h
    split at h
    · rename_i e hp
      cases h
      exact ⟨by unfold handleEvent; rw [hp], fun e' _ => rfl⟩
    · split at h
      · rename_i ctx e hh
        cases h
        exact ⟨hh, fun e' _ => rfl⟩
      · rename_i ctx answer hh
        dsimp only at h
        split at h
        · cases h
          exact ⟨hh, by simp⟩
        · cases h
          exact ⟨by rw [updateCache_context]; exact hh, by simp⟩
  | kVecset =>
    simp only [hc] at h ⊢
    unfold ServerContext.dispatchVecset at h
    split at h
    · rename_i ctx e hh
      cases h
      exact ⟨hh, fun e' _ => rfl⟩
    · rename_i ctx answer hh
      cases h
      refine ⟨?_, by simp⟩
      rw [updateCache_context]
      exact hh.trans (by rw [notifyAdded_context])
  | kVecdel =>
    simp only [hc] at h ⊢
    unfold ServerContext.dispatchVecdel at h
    split at h
    · rename_i ctx e hh
      cases h
      exact ⟨hh, fun e' _ => rfl⟩
    · rename_i ctx answer hh
      cases h
      exact ⟨by rw [updateCache_context]; exact hh, by simp⟩
  | kMetaset =>
    simp only [hc] at h ⊢
    unfold ServerContext.dispatchMetaset at h
    split at h
    · rename_i ctx e hh
      cases h
      exact ⟨hh, fun e' _ => rfl⟩
    · rename_i ctx answer hh
      cases h
      exact ⟨by rw [updateCache_context]; exact hh, by simp⟩

/-- **WAL before apply.** In every state whose log a run reaches, and for every `EVENT`, `VECSET`,
    `VECDEL` and `METASET`: if validation, existence, the filter or the append fails, the handler
    answers with that error, and stores, index, cache and counters are exactly as before; if it
    accepts with the WAL enabled, vectors in it, and no duplicate, then exactly one record has
    been appended, to one file, and what it decodes to is what was applied to the stores. -/
theorem wal_before_apply (hreached : ∀ w, sc.wal = some w → w.Reached env.crc32)
    (h : sc.dispatchWrite env clocks io cmd = (sc', result)) :
    (∀ e, refusal env.toPlatform sc.toHandlerContext clocks io cmd = some e →
      result = .error e ∧ OnlyLogged sc sc') ∧
    ∀ answer w, result = .ok answer → sc.wal = some w → sc.config.includeVectors = true →
      isDuplicate sc.toHandlerContext clocks cmd = false →
      ∃ w' record, sc'.wal = some w' ∧ AppendedOne env.crc32 w w' record ∧
        decodeWalRecord record = .ok (appliedCommand sc.toHandlerContext clocks cmd) ∧
        sc'.stores = applyCommand env.toPlatform sc.config.events clocks.apply
          (appliedCommand sc.toHandlerContext clocks cmd) sc.stores := by
  obtain ⟨hh, herr⟩ := dispatchWrite_handleCommand h
  constructor
  · intro e he
    obtain ⟨wal, readOnly, hr⟩ := handleCommand_refused he
    obtain ⟨hctx, rfl⟩ := Prod.mk.inj (hh.symm.trans hr)
    refine ⟨rfl, wal, readOnly, ?_⟩
    rw [herr e rfl, hctx]
  · rintro answer w rfl hw hinc hnew
    obtain ⟨ctx₁, happ, hctx, htype, hvalid⟩ := handleCommand_accepted hnew hh
    obtain ⟨w', sequence, rfl, hone, hfits⟩ := appendToWal_ok hw (hreached w hw) hinc happ
    refine ⟨w', _, ?_, hone, decode_logged htype hvalid hfits, ?_⟩
    · rw [hctx]
    · rw [hctx]

/-- **Every state that handlers reach** has a log that a run reaches. -/
theorem dispatchWrite_reached (hreached : ∀ w, sc.wal = some w → w.Reached env.crc32)
    (h : sc.dispatchWrite env clocks io cmd = (sc', result)) :
    ∀ w, sc'.wal = some w → w.Reached env.crc32 := by
  obtain ⟨hh, -⟩ := dispatchWrite_handleCommand h
  have hwal : (handleCommand env.toPlatform sc.toHandlerContext clocks io cmd).1.wal = sc'.wal := by
    rw [hh]
  rcases handleCommand_wal env.toPlatform sc.toHandlerContext clocks io cmd with hkept | ⟨c, hc⟩
  · rw [← hwal, hkept]
    exact hreached
  · rw [← hwal, hc]
    exact appendToWal_reached hreached

end Atomicity

/-! ## 6. A first vector -/

/-- An index that lists what it holds. -/
def ListedIndex : Type := List (Nat × List UInt32)

instance : AnnIndex ListedIndex where
  add := fun (index : List _) idx row => (idx, row) :: index.filter fun e => e.1 ≠ idx
  markDeleted := fun (index : List _) idx => index.filter fun e => e.1 ≠ idx
  rebuild := fun _ rows _ => rows.zipIdx.map fun e => (e.2, e.1)
  isTrained := fun _ => true
  needsSeal := fun _ => false
  setNlist := fun index _ => index
  finish := fun index _ => index

/-- Results one after the other. -/
def packResults (results : List SimilarityResult) : Bytes :=
  results.flatMap fun r => appendString r.itemId ++ leBytes 4 r.score.toNat

def unpackResults : Nat → Bytes → Option (List SimilarityResult)
  | 0, _ => none
  | turns + 1, bytes =>
    if bytes = [] then some []
    else do
      let (itemId, rest) ← readString bytes
      let (score, rest) ← readLe 4 rest
      let results ← unpackResults turns rest
      pure (⟨itemId, UInt32.ofNat score⟩ :: results)

def exampleEnv : ServerEnv Nat where
  toPlatform := examplePlatform
  cache := {
    compress := fun results => some (packResults results)
    decompress := fun bytes => unpackResults (bytes.length + 1) bytes
    entryMemory := fun data => data.length
    estimateMemory := fun tables => tables.cacheMap.entries.foldl
      (fun n e => n + e.2.compressedData.length) 0 }
  rng := id

/-- A server that has just been started, with its log open. -/
def startedServer : ServerContext Int ListedIndex Nat where
  toHandlerContext := .start defaultConfig openedWal
  engine := { config := { indexType := .hnsw }, annIndex := some ([] : List (Nat × List UInt32)) }
  cache := { maxMemoryBytes := 1000 }

/-- `VECSET i 1.0`. -/
def firstVector : Command := { type := .kVecset, id := [105], dimension := 1, vector := [0x3f800000] }

/-- The record of a first vector decodes to the command, and so does what the stores have done. -/
theorem wal_before_apply_firstVector :
    let after := startedServer.dispatchWrite exampleEnv (clocksAt 0) {} firstVector
    after.2 = .ok (formatOk "VECSET") ∧ ∃ w' record, after.1.wal = some w' ∧
      AppendedOne exampleEnv.crc32 openedWal w' record ∧
      decodeWalRecord record = .ok firstVector ∧
      after.1.stores = applyCommand exampleEnv.toPlatform startedServer.config.events
        (clocksAt 0).apply firstVector startedServer.stores := by
  have hok : (startedServer.dispatchWrite exampleEnv (clocksAt 0) {} firstVector).2 =
      .ok (formatOk "VECSET") := by decide +kernel
  have hcall : startedServer.dispatchWrite exampleEnv (clocksAt 0) {} firstVector =
      ((startedServer.dispatchWrite exampleEnv (clocksAt 0) {} firstVector).1,
        (startedServer.dispatchWrite exampleEnv (clocksAt 0) {} firstVector).2) := rfl
  have hreached : ∀ w, startedServer.wal = some w → w.Reached exampleEnv.crc32 := by
    intro w hw
    obtain rfl := Option.some.inj hw
    exact ⟨defaultWalConfig, [.open defaultWalConfig {}], rfl⟩
  exact ⟨hok, (wal_before_apply hreached hcall).2 _ _ hok rfl rfl (by decide +kernel)⟩

end Nvecd.Server
