/-
  File:      Nvecd/Server/Effects.lean
  Subject:   What an accepted write does to the stores, and what it leaves in the log.

  The handlers differ in how they answer; what they do once they accept is one of a few things,
  an `Effect`. The live server and a replay run the same handlers on stores that may differ in
  their caches; they agree as long as they run the same effects on the same `View`.

  * `View` -- the stores without the caches and counters of the event store;
  * `Effect`, `Effect.apply` -- the change of the view; `Effect.LoggedAs` -- the record for it;
  * `Accepted` -- what an acknowledged write has done; `perform_accepted` -- every one has;
  * `replay_event`, `replay_vecset`, `replay_vecdel`, `replay_metaset`, `replay_decay` -- when
    the record of an effect is accepted by `ReplayRecord`, and that it has that effect.
-/
import Nvecd.Server.Handlers

namespace Nvecd.Server

open Nvecd.Lib Nvecd.Utils Nvecd.Storage Nvecd.Events Nvecd.Vectors

/-! ## 1. The log -/

/-- A payload `Append` does not refuse for its size. -/
def fitsRecord (payload : Bytes) : Prop :=
  payload.length ≤ kMaxWalRecordBodySize - kWalRecordHeaderSize

/-- The log has one acknowledged record more. -/
def Appended (w w' : WalRun) (op : WalOpType) (payload : Bytes) : Prop :=
  ∃ sequence timestampUs,
    w'.acked = ⟨sequence, timestampUs, op.toByte, payload⟩ :: w.acked ∧ fitsRecord payload

section Log

variable (env : Platform)

theorem appended_of_append {w : WalRun} {io : WalIo} {op : WalOpType} {payload : Bytes} {n : Nat}
    (h : (append env.crc32 w.cfg io.io io.nowUs op payload w.wal).2 = .ok n) :
    Appended w (w.append env.crc32 io.io io.nowUs op payload) op payload := by
  cases hw : append env.crc32 w.cfg io.io io.nowUs op payload w.wal with
  | mk w' result =>
    rw [hw] at h
    subst h
    refine ⟨n, io.nowUs % 2 ^ 64, by simp [WalRun.append, hw], ?_⟩
    unfold fitsRecord
    by_contra hlong
    unfold append at hw
    split at hw
    · cases hw
    · split at hw
      · cases hw
      · rw [if_pos (by omega)] at hw
        cases hw

variable {F : Type} {env} {ctx ctx' : HandlerContext F} {io : WalIo} {cmd : Command}

theorem appendRecord_ok {w : WalRun} {op : WalOpType} {payload : Bytes}
    (h : appendRecord env ctx w io op payload = (ctx', .ok ())) :
    ∃ w', ctx' = { ctx with wal := some w' } ∧ Appended w w' op payload := by
  unfold appendRecord at h
  cases hr : (append env.crc32 w.cfg io.io io.nowUs op payload w.wal).2 with
  | error e =>
    rw [hr] at h
    cases h
  | ok n =>
    rw [hr] at h
    cases h
    exact ⟨_, rfl, appended_of_append env hr⟩

/-- Nothing but the log and `read_only` is touched by an append. -/
theorem appendToWal_none (h : ctx.wal = none) : appendToWal env ctx io cmd = (ctx, .ok ()) := by
  unfold appendToWal
  rw [h]

end Log

/-! ## 2. Effects -/

/-- What a query can see of the stores. -/
structure View (F : Type) where
  contexts : Contexts
  coIndex : CoOccurrenceIndex F
  vectorStore : VectorStore
  metadataStore : MetadataStore

inductive Effect where
  /-- A duplicate event: only caches and counters change. -/
  | duplicate
  /-- An event, and the time stamp it was logged with. -/
  | event (ctxId : Bytes) (ev : Event) (logged : UInt64)
  | vecset (id : Bytes) (vector : List UInt32) (metadata : Option Metadata)
  | vecdel (id : Bytes)
  | metaset (id : Bytes) (metadata : Metadata)
  | decay (prune : Bool)

section Effects

variable {F : Type}

def Stores.view (s : Stores F) : View F :=
  ⟨s.eventStore.contexts, s.coIndex, s.vectorStore, s.metadataStore⟩

section Env

variable [FloatOps F] (env : Platform)

/-- What the effect does to the view. -/
def Effect.apply (cfg : EventsConfig) : Effect → View F → View F
  | .duplicate, v => v
  | .event ctxId ev _, v =>
    let (contexts, prior) := v.contexts.pushEvent cfg ctxId ev
    { v with
      contexts := contexts
      coIndex := v.coIndex.applyIngestedEvent prior ev (.ofConfig cfg) }
  | .vecset id vector metadata, v =>
    { v with
      vectorStore := (v.vectorStore.setVector env.l2Norm id vector).1
      metadataStore :=
        match metadata with
        | some m => v.metadataStore.set id m
        | none => v.metadataStore }
  | .vecdel id, v =>
    { v with
      vectorStore := (v.vectorStore.deleteVector id).1.defragment
      metadataStore := v.metadataStore.delete id }
  | .metaset id m, v => { v with metadataStore := v.metadataStore.set id m }
  | .decay prune, v => { v with coIndex := decayIndex v.coIndex cfg.decayAlpha prune }

/-- What the handlers check before they accept. -/
def Effect.Enabled (v : View F) : Effect → Prop
  | .duplicate => True
  | .event ctxId ev logged =>
    validateEvent ctxId ev.itemId ev.score ev.type = .ok () ∧
      storedScore ev.score ev.type = ev.score ∧ (logged ≠ 0 → logged = ev.timestamp)
  | .vecset id vector _ => v.vectorStore.validateVector env.l2Norm id vector = .ok ()
  | .vecdel id => id ∈ v.vectorStore.ids
  | .metaset id _ => id ∈ v.vectorStore.ids
  | .decay _ => True

/-- The command stands for the effect. -/
def Effect.IsCommand (cmd : Command) : Effect → Prop
  | .duplicate => False
  | .event ctxId ev logged =>
    cmd.type = .kEvent ∧ cmd.ctx = ctxId ∧ cmd.id = ev.itemId ∧ cmd.score = ev.score ∧
      cmd.eventType = ev.type ∧ cmd.timestamp = some logged
  | .vecset id vector metadata =>
    cmd.type = .kVecset ∧ cmd.id = id ∧ cmd.vector = vector ∧ cmd.metadata = metadata
  | .vecdel id => cmd.type = .kVecdel ∧ cmd.id = id
  | .metaset id m => cmd.type = .kMetaset ∧ cmd.id = id ∧ parseMetadata env cmd = .ok m
  | .decay _ => False

/-- The record that is written for the effect. -/
def Effect.LoggedAs (cfg : EventsConfig) (op : WalOpType) (payload : Bytes) (e : Effect) : Prop :=
  match e with
  | .decay prune =>
    op = .kCoOccurrenceMaintenance ∧ payload = maintenancePayload cfg.decayAlpha prune
  | e => ∃ cmd, e.IsCommand env cmd ∧ op = walOpForCommand cmd ∧ payload = encodeCommand cmd

end Env

/-! ## 3. Accepted writes -/

/-- The event a call would store, by its preview. -/
def previewEvent (es : EventStore) (clock : Clock) (ctxId id : Bytes) (score : Int)
    (type : EventType) (timestamp : UInt64) : Option (Bytes × Event) :=
  match es.prepareEvent clock ctxId id score type timestamp with
  | .error _ => none
  | .ok prepared => if prepared.deduped then none else some (ctxId, prepared.event)

/-- The event a write is going to log. -/
def newEvent (ctx : HandlerContext F) : Write → Option (Bytes × Event)
  | .command clocks _ cmd =>
    if cmd.type = .kEvent then
      previewEvent ctx.stores.eventStore clocks.prepare cmd.ctx cmd.id cmd.score cmd.eventType
        (cmd.timestamp.getD 0)
    else none
  | .httpEvent clocks _ ctxId id type score timestamp =>
    previewEvent ctx.stores.eventStore clocks.prepare ctxId id (if type = .DEL then 0 else score)
      type timestamp
  | _ => none

/-- The id whose vector the record of a write asks for, where vectors are not logged. -/
def Write.vectorId : Write → Option Bytes
  | .command _ _ cmd =>
    match cmd.type with
    | .kVecdel => some cmd.id
    | .kMetaset => some cmd.id
    | _ => none
  | .httpVecset _ id _ metadata => metadata.map fun _ => id
  | .httpVecdel _ id => some id
  | .httpMetaset _ id _ => some id
  | _ => none

def Write.isDecay : Write → Bool
  | .decay .. => true
  | _ => false

def Write.isHttpVecset : Write → Bool
  | .httpVecset .. => true
  | _ => false

/-- **The effect a record is written for**: a duplicate has none; without vectors in the log a
    vector has none, but over HTTP its metadata has. -/
def Effect.logged (includeVectors : Bool) (write : Write) : Effect → Option Effect
  | .duplicate => none
  | .vecset id vector metadata =>
    if includeVectors then some (.vecset id vector metadata)
    else if write.isHttpVecset then metadata.map fun m => .metaset id m
    else none
  | e => some e

/-- What the write says about its effect. -/
def Effect.From (ctx : HandlerContext F) (write : Write) : Effect → Prop
  | .duplicate => True
  | .event ctxId ev logged => newEvent ctx write = some (ctxId, { ev with timestamp := logged })
  | .vecset id _ metadata => write.isHttpVecset = true → metadata.isSome → write.vectorId = some id
  | .vecdel id => write.vectorId = some id
  | .metaset id _ => write.vectorId = some id
  | .decay _ => write.isDecay = true

section Log

variable (env : Platform)

/-- **What it has done to the log**: no record, or that of one effect. -/
def Logs (cfg : Config) (w w' : WalRun) : Option Effect → Prop
  | none => w' = w
  | some e => ∃ op payload, e.LoggedAs env cfg.events op payload ∧ Appended w w' op payload

variable {env}
variable {ctx ctx' : HandlerContext F} {io : WalIo} {cmd : Command}

/-- The append of an accepted command, and what it logs. -/
theorem logs_of_appendToWal {ctx₁ : HandlerContext F} {e : Effect} {w : WalRun}
    (h : appendToWal env ctx io cmd = (ctx₁, .ok ())) (hw : ctx.wal = some w)
    (he : e.IsCommand env cmd) :
    ∃ w', ctx₁ = { ctx with wal := some w' } ∧ Logs env ctx.config w w'
      (if cmd.type = .kVecset ∧ ctx.config.includeVectors = false then none else some e) := by
  have hlogged : e.LoggedAs env ctx.config.events (walOpForCommand cmd) (encodeCommand cmd) := by
    cases e with
    | duplicate => exact he.elim
    | decay prune => exact he.elim
    | event c ev ts => exact ⟨cmd, he, rfl, rfl⟩
    | vecset id v m => exact ⟨cmd, he, rfl, rfl⟩
    | vecdel id => exact ⟨cmd, he, rfl, rfl⟩
    | metaset id m => exact ⟨cmd, he, rfl, rfl⟩
  unfold appendToWal at h
  rw [hw] at h
  simp only at h
  split at h
  · rename_i hv
    cases h
    rw [if_pos ⟨hv.1, by simpa using hv.2⟩]
    exact ⟨w, by rw [← hw], rfl⟩
  · rename_i hv
    obtain ⟨w', hctx, happ⟩ := appendRecord_ok h
    rw [if_neg (by simpa using hv)]
    exact ⟨w', hctx, _, _, hlogged, happ⟩

theorem ingest_ok {clock : Clock} {r : IngestResult}
    (h : ingest ctx clock cmd = (ctx', .ok r)) :
    ∃ es, ctx' = { ctx with stores := { ctx.stores with eventStore := es } } ∧
      ctx.stores.eventStore.addEventAndGetPrior clock cmd.ctx cmd.id cmd.score cmd.eventType
        (cmd.timestamp.getD 0) = (es, .ok r) := by
  unfold ingest at h
  cases hadd : ctx.stores.eventStore.addEventAndGetPrior clock cmd.ctx cmd.id cmd.score
      cmd.eventType (cmd.timestamp.getD 0) with
  | mk es result =>
    rw [hadd] at h
    cases h
    exact ⟨es, rfl, rfl⟩

/-- Over HTTP a deletion is accepted only as the dispatcher would accept it. -/
theorem httpHandleVecdel_ok {id : Bytes} (h : httpHandleVecdel env ctx io id = (ctx', .ok ())) :
    handleVecdel env ctx io { type := .kVecdel, id := id } = (ctx', .ok (formatOk "VECDEL")) := by
  unfold httpHandleVecdel at h
  split at h
  · cases h
  · unfold handleVecdel
    split at h
    · cases h
    · rename_i idx hi
      simp only [hi]
      split at h
      · cases h
      · rename_i ctx₁ happ
        split at h
        · cases h
        · rename_i vs hdel
          cases h
          rfl

theorem httpHandleMetaset_ok {id : Bytes} {m : Metadata}
    (h : httpHandleMetaset env ctx io id m = (ctx', .ok ())) :
    handleMetaset env ctx io { type := .kMetaset, id := id, metadata := some m } =
      (ctx', .ok (formatOk "METASET")) := by
  unfold httpHandleMetaset at h
  unfold handleMetaset
  split at h
  · cases h
  · rename_i idx hi
    simp only [hi, parseMetadata]
    split at h
    · cases h
    · rename_i ctx₁ happ
      cases h
      rfl

/-- The score of an event that was let through is an `int`. -/
theorem Effect.Enabled.score_bounds {ctxId : Bytes} {ev : Event} {logged : UInt64} {v : View F}
    (h : (Effect.event ctxId ev logged).Enabled env v) :
    -(2 ^ 31) ≤ ev.score ∧ ev.score < 2 ^ 31 := by
  obtain ⟨hv, hstored, -⟩ := h
  by_cases hdel : ev.type = .DEL
  · rw [hdel] at hstored
    have h0 : ev.score = 0 := hstored.symm
    omega
  · have := (validateEvent_ok hv).2.2 hdel
    omega

end Log

section Accepted

variable [FloatOps F] (env : Platform)

/-- **What an acknowledged write has done to the stores.** -/
structure Accepted (ctx ctx' : HandlerContext F) (e : Effect) : Prop where
  enabled : e.Enabled env ctx.stores.view
  view : ctx'.stores.view = e.apply env ctx.config.events ctx.stores.view
  config : ctx'.config = ctx.config
  eventsConfig : ctx'.stores.eventStore.config = ctx.stores.eventStore.config

variable {env}
variable {ctx ctx' : HandlerContext F} {clocks : EventClocks} {io : WalIo} {cmd : Command}

/-- **`HandleEvent`.** -/
theorem handleEvent_ok {w : WalRun} {r : String} (htype : cmd.type = .kEvent)
    (hw : ctx.wal = some w) (hcfg : ctx.stores.eventStore.config = ctx.config.events)
    (h : handleEvent env ctx clocks io cmd = (ctx', .ok r)) :
    ∃ e w', Accepted env ctx ctx' e ∧ ctx'.wal = some w' ∧
      (e = .duplicate ∧ Logs env ctx.config w w' none ∨
        ∃ ctxId ev ts, e = .event ctxId ev ts ∧ Logs env ctx.config w w' (some e) ∧
          newEvent ctx (.command clocks io cmd) = some (ctxId, { ev with timestamp := ts })) := by
  unfold handleEvent at h
  cases hp : ctx.stores.eventStore.prepareEvent clocks.prepare cmd.ctx cmd.id cmd.score
      cmd.eventType (cmd.timestamp.getD 0) with
  | error e =>
    rw [hp] at h
    cases h
  | ok prepared =>
    rw [hp] at h
    simp only at h
    split at h
    · -- a duplicate
      split at h
      · rename_i ctx₁ st pr hi
        cases h
        obtain ⟨es, rfl, hadd⟩ := ingest_ok hi
        obtain ⟨-, hcfg', hout⟩ := EventStore.addEventAndGetPrior_ok hadd
        rcases hout with ⟨-, hctxs⟩ | ⟨hd, -⟩
        · refine ⟨.duplicate, w, ⟨trivial, ?_, rfl, hcfg'⟩, hw, .inl ⟨rfl, rfl⟩⟩
          simp only [Stores.view, Effect.apply, hctxs]
        · cases hd
      · cases h
    · -- a new event
      rename_i hnew
      have hprep := hp
      unfold EventStore.prepareEvent at hp
      cases hv : validateEvent cmd.ctx cmd.id cmd.score cmd.eventType with
      | error e =>
        rw [hv] at hp
        cases hp
      | ok u =>
        rw [hv] at hp
        simp only [Except.ok.injEq] at hp
        have hev : prepared.event = ⟨cmd.id, storedScore cmd.score cmd.eventType,
            resolveTimestamp (cmd.timestamp.getD 0) clocks.prepare, cmd.eventType⟩ := by
          rw [← hp]
        split at h
        · cases h
        · rename_i ctx₁ happ
          split at h
          · rename_i ctx₂ result hi
            split at h
            · cases h
            · rename_i hnd
              cases h
              obtain ⟨es, rfl, hadd⟩ := ingest_ok hi
              obtain ⟨hvalid, hcfg', hout⟩ := EventStore.addEventAndGetPrior_ok hadd
              rcases hout with ⟨hd, -⟩ | ⟨-, hst, hctxs, hprior⟩
              · exact absurd hd hnd
              have hscore : storedScore prepared.event.score prepared.event.type =
                  prepared.event.score := by
                rw [hev]
                exact storedScore_storedScore _ _
              simp only [Option.getD_some, hscore] at hst hvalid
              have hcmd : (Effect.event cmd.ctx result.storedEvent
                  prepared.event.timestamp).IsCommand env
                  { cmd with
                    score := prepared.event.score
                    eventType := prepared.event.type
                    timestamp := some prepared.event.timestamp } :=
                ⟨htype, rfl, by rw [hst], by rw [hst], by rw [hst], rfl⟩
              obtain ⟨w', rfl, hlogs⟩ := logs_of_appendToWal happ hw hcmd
              rw [if_neg (by simp [htype])] at hlogs
              refine ⟨_, w', ⟨?_, ?_, rfl, hcfg'⟩, rfl, .inr ⟨_, _, _, rfl, hlogs, ?_⟩⟩
              · show validateEvent cmd.ctx result.storedEvent.itemId _ _ = _ ∧ _ ∧ _
                rw [hst]
                exact ⟨hvalid, hscore, fun hts => (if_pos hts).symm⟩
              · have hstore : ({ ctx with wal := some w' } : HandlerContext F).stores.eventStore =
                    ctx.stores.eventStore := rfl
                rw [hstore, hcfg] at hctxs hprior
                simp only [updateCoIndex, Stores.view, Effect.apply, hctxs, hprior]
              · simp only [newEvent, htype, if_true, previewEvent, hprep]
                rw [if_neg hnew, hst, hev]
          · cases h

/-- **`HandleVecset`.** -/
theorem handleVecset_ok {w : WalRun} {r : String} (htype : cmd.type = .kVecset)
    (hw : ctx.wal = some w) (h : handleVecset env ctx io cmd = (ctx', .ok r)) :
    ∃ w', Accepted env ctx ctx' (.vecset cmd.id cmd.vector cmd.metadata) ∧ ctx'.wal = some w' ∧
      Logs env ctx.config w w' (if ctx.config.includeVectors = false then none
        else some (.vecset cmd.id cmd.vector cmd.metadata)) := by
  unfold handleVecset at h
  cases hv : ctx.stores.vectorStore.validateVector env.l2Norm cmd.id cmd.vector with
  | error e =>
    rw [hv] at h
    cases h
  | ok u =>
    rw [hv] at h
    simp only at h
    split at h
    · cases h
    · rename_i ctx₁ happ
      obtain ⟨w', rfl, hlogs⟩ := logs_of_appendToWal
        (e := .vecset cmd.id cmd.vector cmd.metadata) happ hw ⟨htype, rfl, rfl, rfl⟩
      simp only [htype, true_and] at hlogs
      obtain ⟨dim, -, hset⟩ := VectorStore.setVector_ok hv
      simp only [hset] at h
      cases h
      cases hm : cmd.metadata with
      | none => exact ⟨w', ⟨hv, by simp [Stores.view, Effect.apply, hset], rfl, rfl⟩, rfl, hm ▸ hlogs⟩
      | some m =>
        exact ⟨w', ⟨hv, by simp [Stores.view, Effect.apply, hset, setMetadata], rfl, rfl⟩, rfl,
          hm ▸ hlogs⟩

/-- **`HandleVecdel`.** -/
theorem handleVecdel_ok {w : WalRun} {r : String} (htype : cmd.type = .kVecdel)
    (hw : ctx.wal = some w) (h : handleVecdel env ctx io cmd = (ctx', .ok r)) :
    ∃ w', Accepted env ctx ctx' (.vecdel cmd.id) ∧ ctx'.wal = some w' ∧
      Logs env ctx.config w w' (some (.vecdel cmd.id)) := by
  unfold handleVecdel at h
  cases hi : ctx.stores.vectorStore.getCompactIndex cmd.id with
  | none =>
    rw [hi] at h
    cases h
  | some idx =>
    rw [hi] at h
    simp only at h
    have hmem : cmd.id ∈ ctx.stores.vectorStore.ids := VectorStore.mem_ids.mpr ⟨idx, hi⟩
    split at h
    · cases h
    · rename_i ctx₁ happ
      obtain ⟨w', rfl, hlogs⟩ := logs_of_appendToWal (e := .vecdel cmd.id) happ hw ⟨htype, rfl⟩
      rw [if_neg (by simp [htype])] at hlogs
      split at h
      · cases h
      · rename_i vs hdel
        simp only at hdel
        cases h
        exact ⟨w', ⟨hmem, by simp [Stores.view, Effect.apply, hdel], rfl, rfl⟩, rfl, hlogs⟩

/-- **`HandleMetaset`.** -/
theorem handleMetaset_ok {w : WalRun} {r : String} (htype : cmd.type = .kMetaset)
    (hw : ctx.wal = some w) (h : handleMetaset env ctx io cmd = (ctx', .ok r)) :
    ∃ m w', Accepted env ctx ctx' (.metaset cmd.id m) ∧ ctx'.wal = some w' ∧
      Logs env ctx.config w w' (some (.metaset cmd.id m)) := by
  unfold handleMetaset at h
  cases hi : ctx.stores.vectorStore.getCompactIndex cmd.id with
  | none =>
    rw [hi] at h
    cases h
  | some idx =>
    rw [hi] at h
    simp only at h
    have hmem : cmd.id ∈ ctx.stores.vectorStore.ids := VectorStore.mem_ids.mpr ⟨idx, hi⟩
    cases hm : parseMetadata env cmd with
    | error e =>
      rw [hm] at h
      cases h
    | ok m =>
      rw [hm] at h
      simp only at h
      split at h
      · cases h
      · rename_i ctx₁ happ
        obtain ⟨w', rfl, hlogs⟩ := logs_of_appendToWal (e := .metaset cmd.id m) happ hw
          ⟨htype, rfl, hm⟩
        rw [if_neg (by simp [htype])] at hlogs
        cases h
        exact ⟨m, w', ⟨hmem, rfl, rfl, rfl⟩, rfl, hlogs⟩

/-- **The decay callback.** -/
theorem maintain_ok {w : WalRun} {prune : Bool} (hw : ctx.wal = some w)
    (h : maintain env ctx io prune = (ctx', .ok ())) :
    ∃ w', Accepted env ctx ctx' (.decay prune) ∧ ctx'.wal = some w' ∧
      Logs env ctx.config w w' (some (.decay prune)) := by
  unfold maintain at h
  simp only at h
  split at h
  · cases h
  · rw [hw] at h
    simp only at h
    split at h
    · cases h
    · rename_i ctx₁ happ
      obtain ⟨w', rfl, happ'⟩ := appendRecord_ok happ
      cases h
      exact ⟨w', ⟨trivial, rfl, rfl, rfl⟩, rfl, _, _, ⟨rfl, rfl⟩, happ'⟩

/-- The HTTP handler accepts an event only as the dispatcher would. -/
theorem httpHandleEvent_ok {ctxId id : Bytes} {type : EventType} {score : Int}
    {timestamp : UInt64}
    (h : httpHandleEvent env ctx clocks io ctxId id type score timestamp = (ctx', .ok ())) :
    handleEvent env ctx clocks io
      { type := .kEvent, ctx := ctxId, id := id, eventType := type
        score := if type = .DEL then 0 else score, timestamp := some timestamp } =
      (ctx', .ok (formatOk "EVENT")) := by
  unfold httpHandleEvent at h
  split at h
  · cases h
  · unfold handleEvent
    simp only [Option.getD_some] at h ⊢
    split at h
    · cases h
    · rename_i prepared hp
      split at h
      · rename_i hd
        rw [if_pos hd]
        split at h
        · rename_i hi
          cases h
          rfl
        · cases h
      · rename_i hd
        rw [if_neg hd]
        split at h
        · cases h
        · rename_i ctx₁ happ
          split at h
          · rename_i ctx₂ result hi
            split at h
            · cases h
            · rename_i hnd
              cases h
              rw [if_neg hnd]
          · cases h

/-- **`HttpServer::HandleVecset`.** -/
theorem httpHandleVecset_ok {w : WalRun} {id : Bytes} {vector : List UInt32}
    {metadata : Option Metadata} (hw : ctx.wal = some w)
    (h : httpHandleVecset env ctx io id vector metadata = (ctx', .ok ())) :
    ∃ w', Accepted env ctx ctx' (.vecset id vector metadata) ∧ ctx'.wal = some w' ∧
      Logs env ctx.config w w' (if ctx.config.includeVectors then
        some (.vecset id vector metadata) else metadata.map fun m => .metaset id m) := by
  unfold httpHandleVecset at h
  simp only at h
  split at h
  · cases h
  split at h
  · cases h
  split at h
  · cases h
  rename_i hv
  split at h
  · cases h
  rename_i ctx₁ hlog
  -- what has been logged by now
  have hlogs : ∃ w', ctx₁ = { ctx with wal := some w' } ∧
      Logs env ctx.config w w' (if ctx.config.includeVectors then
        some (.vecset id vector metadata) else metadata.map fun m => .metaset id m) := by
    unfold vecsetLogEntry at hlog
    cases hinc : ctx.config.includeVectors with
    | true =>
      simp only [hinc, if_true, ne_eq, reduceCtorEq, not_false_eq_true] at hlog
      obtain ⟨w', hctx, hlogs⟩ := logs_of_appendToWal (e := .vecset id vector metadata) hlog hw
        ⟨rfl, rfl, rfl, rfl⟩
      rw [if_neg (by simp [hinc])] at hlogs
      exact ⟨w', hctx, hlogs⟩
    | false =>
      cases metadata with
      | none =>
        simp only [hinc, Bool.false_eq_true, if_false, ne_eq, not_true_eq_false] at hlog
        cases hlog
        exact ⟨w, by rw [← hw], rfl⟩
      | some m =>
        simp only [hinc, Bool.false_eq_true, if_false, ne_eq, reduceCtorEq, not_false_eq_true,
          if_true] at hlog
        obtain ⟨w', hctx, hlogs⟩ := logs_of_appendToWal (e := .metaset id m) hlog hw
          ⟨rfl, rfl, rfl⟩
        rw [if_neg (by simp)] at hlogs
        exact ⟨w', hctx, hlogs⟩
  obtain ⟨w', rfl, hlogs⟩ := hlogs
  obtain ⟨dim, -, hset⟩ := VectorStore.setVector_ok hv
  have hidx : ∃ idx, (VectorStore.writeVector env.l2Norm
      { ctx.stores.vectorStore with dimension := dim } id vector).getCompactIndex id = some idx :=
    VectorStore.mem_ids.mp (VectorStore.ids_writeVector id |>.mpr (.inl rfl))
  obtain ⟨idx, hidx⟩ := hidx
  simp only [hset, hidx] at h
  cases h
  cases metadata with
  | none => exact ⟨w', ⟨hv, by simp [Stores.view, Effect.apply, hset], rfl, rfl⟩, rfl, hlogs⟩
  | some m =>
    exact ⟨w', ⟨hv, by simp [Stores.view, Effect.apply, hset, setMetadata], rfl, rfl⟩, rfl, hlogs⟩

theorem isOk_eq_true {ε α : Type} {x : Except ε α} (h : x.isOk = true) : ∃ a, x = .ok a := by
  cases x with
  | error e => cases h
  | ok a => exact ⟨a, rfl⟩

/-- **Every acknowledged write** has an effect, and has logged what is logged of it. -/
theorem perform_accepted {w : WalRun} {write : Write} (hw : ctx.wal = some w)
    (hcfg : ctx.stores.eventStore.config = ctx.config.events)
    (h : perform env ctx write = (ctx', true)) :
    ∃ e w', Accepted env ctx ctx' e ∧ ctx'.wal = some w' ∧
      Logs env ctx.config w w' (e.logged ctx.config.includeVectors write) ∧ e.From ctx write := by
  have hevent : ∀ {clocks io cmd r}, cmd.type = .kEvent →
      handleEvent env ctx clocks io cmd = (ctx', .ok r) →
      (newEvent ctx (.command clocks io cmd) = newEvent ctx write) →
      ∃ e w', Accepted env ctx ctx' e ∧ ctx'.wal = some w' ∧
        Logs env ctx.config w w' (e.logged ctx.config.includeVectors write) ∧
        e.From ctx write := by
    intro clocks io cmd r htype hh hsame
    obtain ⟨e, w', hacc, hw', ⟨rfl, hlogs⟩ | ⟨c, ev, ts, rfl, hlogs, hnew⟩⟩ :=
      handleEvent_ok htype hw hcfg hh
    · exact ⟨_, w', hacc, hw', hlogs, trivial⟩
    · exact ⟨_, w', hacc, hw', hlogs, hsame.symm.trans hnew⟩
  unfold perform at h
  split at h
  · cases h
  cases write with
  | command clocks io cmd =>
    simp only [Prod.mk.injEq] at h
    obtain ⟨hctx, hok⟩ := h
    obtain ⟨r, hr⟩ := isOk_eq_true hok
    have hh : handleCommand env ctx clocks io cmd = (ctx', .ok r) := Prod.ext hctx hr
    unfold handleCommand at hh
    split at hh
    · rename_i htype
      exact hevent htype hh rfl
    · rename_i htype
      obtain ⟨w', hacc, hw', hlogs⟩ := handleVecset_ok htype hw hh
      refine ⟨_, w', hacc, hw', ?_, nofun⟩
      cases hinc : ctx.config.includeVectors <;> rw [hinc] at hlogs <;> exact hlogs
    · rename_i htype
      obtain ⟨w', hacc, hw', hlogs⟩ := handleVecdel_ok htype hw hh
      exact ⟨_, w', hacc, hw', hlogs, by simp [Effect.From, Write.vectorId, htype]⟩
    · rename_i htype
      obtain ⟨m, w', hacc, hw', hlogs⟩ := handleMetaset_ok htype hw hh
      exact ⟨_, w', hacc, hw', hlogs, by simp [Effect.From, Write.vectorId, htype]⟩
    · cases hh
  | httpEvent clocks io ctxId id type score timestamp =>
    simp only [Prod.mk.injEq] at h
    obtain ⟨hctx, hok⟩ := h
    obtain ⟨r, hr⟩ := isOk_eq_true hok
    exact hevent rfl (httpHandleEvent_ok (Prod.ext hctx hr)) rfl
  | httpVecset io id vector metadata =>
    simp only [Prod.mk.injEq] at h
    obtain ⟨hctx, hok⟩ := h
    obtain ⟨r, hr⟩ := isOk_eq_true hok
    obtain ⟨w', hacc, hw', hlogs⟩ := httpHandleVecset_ok hw (Prod.ext hctx hr)
    refine ⟨_, w', hacc, hw', hlogs, fun _ hsome => ?_⟩
    obtain ⟨m, rfl⟩ := Option.isSome_iff_exists.mp hsome
    rfl
  | httpVecdel io id =>
    simp only [Prod.mk.injEq] at h
    obtain ⟨hctx, hok⟩ := h
    obtain ⟨r, hr⟩ := isOk_eq_true hok
    obtain ⟨w', hacc, hw', hlogs⟩ := handleVecdel_ok rfl hw
      (httpHandleVecdel_ok (Prod.ext hctx hr))
    exact ⟨_, w', hacc, hw', hlogs, rfl⟩
  | httpMetaset io id metadata =>
    simp only [Prod.mk.injEq] at h
    obtain ⟨hctx, hok⟩ := h
    obtain ⟨r, hr⟩ := isOk_eq_true hok
    obtain ⟨m, w', hacc, hw', hlogs⟩ := handleMetaset_ok rfl hw
      (httpHandleMetaset_ok (Prod.ext hctx hr))
    exact ⟨_, w', hacc, hw', hlogs, rfl⟩
  | decay io prune =>
    simp only [Prod.mk.injEq] at h
    obtain ⟨hctx, hok⟩ := h
    obtain ⟨r, hr⟩ := isOk_eq_true hok
    obtain ⟨w', hacc, hw', hlogs⟩ := maintain_ok hw (Prod.ext hctx hr)
    exact ⟨_, w', hacc, hw', hlogs, rfl⟩

end Accepted

/-! ## 4. Replay -/

/-- What every replayed record leaves as it is. -/
structure Replayed (r r' : HandlerContext F) : Prop where
  wal : r'.wal = none
  config : r'.config = r.config
  eventsConfig : r'.stores.eventStore.config = r.stores.eventStore.config

theorem Replayed.trans {r₁ r₂ r₃ : HandlerContext F} (h : Replayed r₁ r₂) (h' : Replayed r₂ r₃) :
    Replayed r₁ r₃ :=
  ⟨h'.wal, h'.config.trans h.config, h'.eventsConfig.trans h.eventsConfig⟩

section Replay

variable [FloatOps F] {env : Platform} {r : HandlerContext F} {clocks : EventClocks}
  {sequence timestampUs : Nat}

/-- The two looks `HandleEvent` takes at the caches, with the time stamps and clocks of each,
    agree. -/
def readingsAgree (caches : EventCaches) (clocks : EventClocks) (cmd : Command) : Prop :=
  let ts := resolveTimestamp (cmd.timestamp.getD 0) clocks.prepare
  caches.wouldDeduplicate cmd.ctx cmd.id cmd.score cmd.eventType ts clocks.prepare.steadyNow =
    caches.wouldDeduplicate cmd.ctx cmd.id cmd.score cmd.eventType
      (resolveTimestamp ts clocks.apply) clocks.apply.steadyNow

instance (caches : EventCaches) (clocks : EventClocks) (cmd : Command) :
    Decidable (readingsAgree caches clocks cmd) :=
  inferInstanceAs (Decidable (_ = _))

/-- An event without a log to append to: accepted if the two looks agree. -/
theorem handleEvent_replayed (cmd : Command) (hwal : r.wal = none)
    (hcfg : r.stores.eventStore.config = r.config.events)
    (hv : validateEvent cmd.ctx cmd.id cmd.score cmd.eventType = .ok ())
    (hscore : storedScore cmd.score cmd.eventType = cmd.score)
    (hagree : readingsAgree r.stores.eventStore.caches clocks cmd) :
    ∃ r', handleEvent env r clocks {} cmd = (r', .ok (formatOk "EVENT")) ∧ Replayed r r' ∧
      r'.stores.vectorStore = r.stores.vectorStore ∧
      r'.stores.metadataStore = r.stores.metadataStore ∧
      (r.stores.eventStore.caches.wouldDeduplicate cmd.ctx cmd.id cmd.score cmd.eventType
          (resolveTimestamp (cmd.timestamp.getD 0) clocks.prepare) clocks.prepare.steadyNow =
          false →
        let ts := resolveTimestamp (resolveTimestamp (cmd.timestamp.getD 0) clocks.prepare)
          clocks.apply
        r'.stores.view = (Effect.event cmd.ctx ⟨cmd.id, cmd.score, ts, cmd.eventType⟩ ts).apply env
            r.config.events r.stores.view ∧
          r'.stores.eventStore.caches = (r.stores.eventStore.caches.deduplicate cmd.ctx cmd.id
            cmd.score cmd.eventType ts clocks.apply.steadyNow).1) := by
  unfold readingsAgree at hagree
  simp only at hagree
  unfold handleEvent
  simp only [EventStore.prepareEvent, hv, hscore]
  cases hd : r.stores.eventStore.caches.wouldDeduplicate cmd.ctx cmd.id cmd.score cmd.eventType
      (resolveTimestamp (cmd.timestamp.getD 0) clocks.prepare) clocks.prepare.steadyNow with
  | true =>
    rw [hd] at hagree
    have hadd := EventStore.addEventAndGetPrior_duplicate hv hagree.symm
    simp only [if_true, ingest, Option.getD_some, hadd]
    exact ⟨_, rfl, ⟨hwal, rfl, rfl⟩, rfl, rfl, by simp⟩
  | false =>
    rw [hd] at hagree
    have hadd := EventStore.addEventAndGetPrior_new hv hagree.symm
    simp only [Bool.false_eq_true, if_false, appendToWal_none hwal, ingest, Option.getD_some, hadd]
    refine ⟨_, rfl, ⟨hwal, rfl, rfl⟩, rfl, rfl, fun _ => ⟨?_, rfl⟩⟩
    simp only [updateCoIndex, Stores.view, Effect.apply, hcfg, hscore]

theorem op_ne_maintenance (cmd : Command) :
    (walOpForCommand cmd).toByte ≠ WalOpType.kCoOccurrenceMaintenance.toByte := by
  unfold walOpForCommand
  split
  · split <;> decide
  all_goals decide

/-- A record that is a command is replayed by its handler. -/
theorem replayRecord_command {cmd cmd' : Command} {r' : HandlerContext F} {msg : String}
    (hdec : decodeWalRecord (recordOf sequence timestampUs cmd) = .ok cmd')
    (h : handleCommand env r clocks {} cmd' = (r', .ok msg)) :
    replayRecord env r clocks (recordOf sequence timestampUs cmd) = (r', .ok ()) := by
  have hop : (recordOf sequence timestampUs cmd).op ≠
      WalOpType.kCoOccurrenceMaintenance.toByte := op_ne_maintenance cmd
  unfold replayRecord
  rw [if_neg hop, hdec]
  simp only [h]

theorem fitsRecord_lt {payload : Bytes} (h : fitsRecord payload) :
    payload.length < 2 ^ 31 ∧ payload.length < kTypedMetadataMagic := by
  unfold fitsRecord kMaxWalRecordBodySize kWalRecordHeaderSize at h
  unfold kTypedMetadataMagic
  omega

/-- **The record of an event** is accepted if the two looks agree, and then has its effect unless
    it is taken for a duplicate. -/
theorem replay_event {ctxId : Bytes} {ev : Event} {logged : UInt64} {cmd : Command}
    (hwal : r.wal = none) (hcfg : r.stores.eventStore.config = r.config.events)
    (hcmd : (Effect.event ctxId ev logged).IsCommand env cmd)
    (hfit : fitsRecord (encodeCommand cmd))
    (hen : (Effect.event ctxId ev logged).Enabled env r.stores.view)
    (hagree : readingsAgree r.stores.eventStore.caches clocks cmd) :
    ∃ r', replayRecord env r clocks (recordOf sequence timestampUs cmd) = (r', .ok ()) ∧
      Replayed r r' ∧ r'.stores.vectorStore = r.stores.vectorStore ∧
      r'.stores.metadataStore = r.stores.metadataStore ∧
      (logged ≠ 0 →
        r.stores.eventStore.caches.wouldDeduplicate ctxId ev.itemId ev.score ev.type ev.timestamp
          clocks.prepare.steadyNow = false →
        r'.stores.view = (Effect.event ctxId ev logged).apply env r.config.events r.stores.view ∧
          r'.stores.eventStore.caches = (r.stores.eventStore.caches.deduplicate ctxId ev.itemId
            ev.score ev.type ev.timestamp clocks.apply.steadyNow).1) := by
  obtain ⟨htype, rfl, hid, hsc, hty, hts⟩ := hcmd
  have hbounds := hen.score_bounds
  rw [← hsc] at hbounds
  obtain ⟨hv, hstored, htsev⟩ := hen
  have hlen := (fitsRecord_lt hfit).1
  have hdec := @decode_event cmd sequence timestampUs htype (by omega) hbounds.1 hbounds.2
  rw [← hid, ← hsc, ← hty] at hv
  rw [← hsc, ← hty] at hstored
  obtain ⟨r', hrun, hrep, hvs, hms, hnew⟩ := handleEvent_replayed
    { type := .kEvent, eventType := cmd.eventType, ctx := cmd.ctx, id := cmd.id
      score := cmd.score, timestamp := some (cmd.timestamp.getD 0) } hwal hcfg hv hstored hagree
  refine ⟨r', replayRecord_command hdec hrun, hrep, hvs, hms, fun hnz hnd => ?_⟩
  have hres : ∀ clock, resolveTimestamp logged clock = logged := fun clock => if_pos hnz
  simp only [Option.getD_some, hts, hres] at hnew
  rw [← hid, ← hsc, ← hty, ← htsev hnz] at hnd
  obtain ⟨hview, hcaches⟩ := hnew hnd
  rw [hid, hsc, hty] at hview hcaches
  rw [hview, hcaches]
  constructor
  · simp only [Effect.apply, htsev hnz]
  · rw [htsev hnz]

theorem handleVecset_replayed (cmd : Command) (hwal : r.wal = none)
    (hv : r.stores.vectorStore.validateVector env.l2Norm cmd.id cmd.vector = .ok ()) :
    ∃ r', handleVecset env r {} cmd = (r', .ok (formatOk "VECSET")) ∧ Replayed r r' ∧
      r'.stores.view = (Effect.vecset cmd.id cmd.vector cmd.metadata).apply env r.config.events
        r.stores.view ∧ r'.stores.eventStore = r.stores.eventStore := by
  obtain ⟨dim, -, hset⟩ := VectorStore.setVector_ok hv
  simp only [handleVecset, hv, appendToWal_none hwal, hset]
  cases hm : cmd.metadata with
  | none =>
    exact ⟨_, rfl, ⟨hwal, rfl, rfl⟩, by simp [Stores.view, Effect.apply, hset], rfl⟩
  | some m =>
    exact ⟨_, rfl, ⟨hwal, rfl, rfl⟩, by simp [Stores.view, Effect.apply, hset, setMetadata], rfl⟩

theorem handleVecdel_replayed (cmd : Command) (hwal : r.wal = none)
    (hmem : cmd.id ∈ r.stores.vectorStore.ids) :
    ∃ r', handleVecdel env r {} cmd = (r', .ok (formatOk "VECDEL")) ∧ Replayed r r' ∧
      r'.stores.view = (Effect.vecdel cmd.id).apply env r.config.events r.stores.view ∧
      r'.stores.eventStore = r.stores.eventStore := by
  obtain ⟨idx, hidx⟩ := VectorStore.mem_ids.mp hmem
  have hdel := VectorStore.deleteVector_snd.mpr hmem
  cases hd : r.stores.vectorStore.deleteVector cmd.id with
  | mk vs deleted =>
    rw [hd] at hdel
    cases hdel
    simp only [handleVecdel, hidx, appendToWal_none hwal, hd]
    exact ⟨_, rfl, ⟨hwal, rfl, rfl⟩, by simp [Stores.view, Effect.apply, hd], rfl⟩

theorem handleMetaset_replayed (cmd : Command) {m : Metadata} (hwal : r.wal = none)
    (hmem : cmd.id ∈ r.stores.vectorStore.ids) (hm : parseMetadata env cmd = .ok m) :
    ∃ r', handleMetaset env r {} cmd = (r', .ok (formatOk "METASET")) ∧ Replayed r r' ∧
      r'.stores.view = (Effect.metaset cmd.id m).apply env r.config.events r.stores.view ∧
      r'.stores.eventStore = r.stores.eventStore := by
  obtain ⟨idx, hidx⟩ := VectorStore.mem_ids.mp hmem
  simp only [handleMetaset, hidx, hm, appendToWal_none hwal]
  exact ⟨_, rfl, ⟨hwal, rfl, rfl⟩, rfl, rfl⟩

theorem ofLeBytes_flag (prune : Bool) : ofLeBytes [if prune then 1 else 0] = prune.toNat := by
  cases prune <;> rfl

theorem replayMaintenance_payload {alpha : UInt64} (prune : Bool)
    (hfin : isFiniteDouble alpha = true) (hpos : leZeroDouble alpha = false)
    (hle : gtOneDouble alpha = false) :
    replayMaintenance r (maintenancePayload alpha prune) =
      ({ r with stores := { r.stores with
          coIndex := decayIndex r.stores.coIndex alpha prune } }, .ok ()) := by
  have hlen : (leBytes 8 alpha.toNat).length = 8 := length_leBytes 8 _
  have halpha : UInt64.ofNat (ofLeBytes ((maintenancePayload alpha prune).take 8)) = alpha := by
    rw [maintenancePayload, List.take_left' hlen, ofLeBytes_leBytes alpha.toNat_lt,
      UInt64.ofNat_toNat]
  have hprune : ofLeBytes ((maintenancePayload alpha prune).drop 8) = prune.toNat := by
    rw [maintenancePayload, List.drop_left' hlen, ofLeBytes_flag]
  have hsize : ¬ (maintenancePayload alpha prune).length ≠ 9 := by
    simp [maintenancePayload]
  have hok : ¬ (¬ isFiniteDouble alpha = true ∨ leZeroDouble alpha = true ∨
      gtOneDouble alpha = true ∨ prune.toNat > 1) := by
    simp [hfin, hpos, hle, Bool.toNat_le]
  have hflag : (prune.toNat != 0) = prune := by
    cases prune <;> rfl
  simp only [replayMaintenance, if_neg hsize, halpha, hprune, if_neg hok, hflag]

/-- **The record of any other effect** is accepted if the effect was, and has that effect; a
    maintenance record also needs a factor other than zero. -/
theorem replay_other {e : Effect} {op : WalOpType} {payload : Bytes} (hwal : r.wal = none)
    (hlog : e.LoggedAs env r.config.events op payload) (hfit : fitsRecord payload)
    (hen : e.Enabled env r.stores.view) (hev : ∀ ctxId ev ts, e ≠ .event ctxId ev ts)
    (halpha : ∀ prune, e = .decay prune → isZeroDouble r.config.events.decayAlpha = false) :
    ∃ r', replayRecord env r clocks ⟨sequence, timestampUs, op.toByte, payload⟩ = (r', .ok ()) ∧
      Replayed r r' ∧ r'.stores.view = e.apply env r.config.events r.stores.view ∧
      r'.stores.eventStore = r.stores.eventStore := by
  cases e with
  | duplicate =>
    obtain ⟨cmd, hcmd, -⟩ := hlog
    exact hcmd.elim
  | event ctxId ev ts => exact absurd rfl (hev ctxId ev ts)
  | vecset id vector metadata =>
    obtain ⟨cmd, ⟨htype, rfl, rfl, rfl⟩, rfl, rfl⟩ := hlog
    obtain ⟨r', hrun, hrest⟩ := handleVecset_replayed
      { type := .kVecset, id := cmd.id, dimension := cmd.vector.length, vector := cmd.vector
        metadata := cmd.metadata } hwal hen
    exact ⟨r', replayRecord_command (decode_vecset htype (fitsRecord_lt hfit).1) hrun, hrest⟩
  | vecdel id =>
    obtain ⟨cmd, ⟨htype, rfl⟩, rfl, rfl⟩ := hlog
    have hlen := (fitsRecord_lt hfit).1
    obtain ⟨r', hrun, hrest⟩ := handleVecdel_replayed { type := .kVecdel, id := cmd.id } hwal hen
    exact ⟨r', replayRecord_command (decode_vecdel htype (by omega)) hrun, hrest⟩
  | metaset id m =>
    obtain ⟨cmd, ⟨htype, rfl, hm⟩, rfl, rfl⟩ := hlog
    have hm' : parseMetadata env { type := .kMetaset, id := cmd.id, metadata := cmd.metadata
                                   filterExpr := if cmd.metadata = none then cmd.filterExpr
                                     else [] } = .ok m := by
      rw [← hm]
      cases hmd : cmd.metadata <;> simp [parseMetadata, hmd]
    obtain ⟨r', hrun, hrest⟩ := handleMetaset_replayed
      { type := .kMetaset, id := cmd.id, metadata := cmd.metadata
        filterExpr := if cmd.metadata = none then cmd.filterExpr else [] } hwal hen hm'
    exact ⟨r', replayRecord_command (decode_metaset htype (fitsRecord_lt hfit).2) hrun, hrest⟩
  | decay prune =>
    obtain ⟨rfl, rfl⟩ := hlog
    have hpos := leZeroDouble_eq_false r.config.events.decayAlpha_nonneg (halpha prune rfl)
    have hrun := replayMaintenance_payload (r := r) prune r.config.events.decayAlpha_finite hpos
      r.config.events.decayAlpha_le_one
    refine ⟨{ r with stores := { r.stores with
      coIndex := decayIndex r.stores.coIndex r.config.events.decayAlpha prune } }, ?_,
      ⟨hwal, rfl, rfl⟩, rfl, rfl⟩
    unfold replayRecord
    rw [if_pos rfl]
    exact hrun

end Replay

end Effects

end Nvecd.Server
