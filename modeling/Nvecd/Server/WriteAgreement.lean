/-
  File:      Nvecd/Server/WriteAgreement.lean
  Subject:   The same write over TCP and over HTTP (`server/request_dispatcher.cpp` and
             `server/http_server.cpp`, which each have the whole sequence of their own).

  Where a request line and a body denote the same operation, both servers should do the same.

  * `Agree` -- accepted or refused alike, the same stores, counters and replay;
  * `LogTakes`, `EventTaken`, `VectorTaken` -- what a write needs to be taken, in the state before it;
  * `SameOnBoth` -- what an operation needs to be the same on both;
  * `writes_agree_iff` -- the surfaces agree on exactly these.
-/
import Nvecd.Server.EventPreview
import Nvecd.Server.Operations
import Nvecd.Vectors.VectorMap

namespace Nvecd.Server

open Nvecd.Lib Nvecd.Utils Nvecd.Storage Nvecd.Events Nvecd.Vectors Nvecd.Similarity Nvecd.Cache

/-! ## 1. The dispatcher -/

section Dispatch

variable {F A κ : Type} [FloatOps F] [AnnIndex A] [DecidableEq κ] (env : SurfaceEnv κ)

/-- `Dispatch` of a request that writes: parsed, and with its gates. Other requests are not
    answered here. -/
def ServerContext.serveTcp (sc : ServerContext F A κ) (authorized : Bool) (maxTopK : Nat)
    (clocks : EventClocks) (io : WalIo) (request : Bytes) :
    Option (ServerContext F A κ × Except String String) :=
  match parseCommand env.stof env.takesPart request maxTopK with
  | .error e => some (sc, .error e.message)
  | .ok (.write cmd) =>
    if ¬ authorized then some (sc, .error "NOAUTH Authentication required")
    else if sc.loading then some (sc, .error "LOADING Snapshot load in progress")
    else if sc.readOnly then some (sc, .error "READONLY Snapshot in progress")
    else
      match sc.dispatchWrite env.toServerEnv clocks io cmd with
      | (sc, .error e) => some (sc, .error e.message)
      | (sc, .ok answer) => some (sc, .ok answer)
  | .ok _ => none

end Dispatch

/-! ## 2. Agreement -/

/-- The same stores, in any order of the metadata. -/
structure SameStores {F : Type} (s s' : Stores F) : Prop where
  events : s.eventStore = s'.eventStore
  coIndex : s.coIndex = s'.coIndex
  vectors : s.vectorStore = s'.vectorStore
  metadata : ∀ id, Option.Rel SameMetadata (s.metadataStore.get id) (s'.metadataStore.get id)

/-- Replayed on the same stores, two records have the same effect. -/
def SameReplay (F : Type) [FloatOps F] (env : Platform) (r r' : WalRecord) : Prop :=
  ∀ (ctx : HandlerContext F) (clocks : EventClocks), ctx.wal = none →
    SameStores (replayRecord env ctx clocks r).1.stores (replayRecord env ctx clocks r').1.stores ∧
      ((replayRecord env ctx clocks r).2.isOk = (replayRecord env ctx clocks r').2.isOk)

/-- The two logs are the same, or have one record more each, with the same replay. -/
def SameLogs (F : Type) [FloatOps F] (env : Platform) (w w₁ w₂ : Option WalRun) : Prop :=
  w₁ = w₂ ∨ ∃ v v₁ v₂ r₁ r₂, w = some v ∧ w₁ = some v₁ ∧ w₂ = some v₂ ∧
    v₁.acked = r₁ :: v.acked ∧ v₂.acked = r₂ :: v.acked ∧ SameReplay F env r₁ r₂

section Agree

variable {F A κ : Type} [DecidableEq κ]

/-- The counters of the cache. -/
def ServerContext.generations (sc : ServerContext F A κ) : Nat × Nat × Nat :=
  (sc.vectorGeneration, sc.metadataGeneration, sc.datasetGeneration)

variable [FloatOps F]

/-- **Two surfaces agree** on a write to `sc`: they accept or refuse it alike, and an accepted one
    leaves the same stores, the same counters, and logs that replay alike. -/
structure Agree (env : Platform) (sc : ServerContext F A κ)
    (tcp : ServerContext F A κ × Except String String)
    (http : ServerContext F A κ × Except HttpError Unit) : Prop where
  alike : tcp.2.isOk = http.2.isOk
  stores : tcp.2.isOk = true → SameStores tcp.1.stores http.1.stores
  generations : tcp.2.isOk = true → tcp.1.generations = http.1.generations
  logs : tcp.2.isOk = true → SameLogs F env sc.wal tcp.1.wal http.1.wal

end Agree

/-! ## 3. The log -/

section Log

/-- **What `Append` needs** for a payload of a size: a segment to write to, a sequence number, a
    rotation that succeeds if there is one, and a write that does. -/
structure Takes (cfg : WalConfig) (io : AppendIo) (size : Nat) (w : WriteAheadLog) : Prop where
  isOpen : w.isOpen = true
  current : w.currentFd ≠ none
  sequence : w.currentSequence ≠ kMaxU64
  fits : size ≤ kMaxWalRecordBodySize - kWalRecordHeaderSize
  rotates : needsRotation cfg w (8 + (kWalRecordHeaderSize + size)) →
    io.rotate = .ok ∧ nextFileNumber w.dir (w.dir.length + 1) w.currentFileNumber ≠ none
  written : ∀ k, io.write ≠ .torn k
  synced : cfg.syncOnWrite = true → io.write ≠ .fsyncFails

variable {crc32 : Bytes → UInt32} {cfg : WalConfig} {w : WriteAheadLog} {now : Nat} {op : WalOpType}
  {payload : Bytes}

theorem writeRecord_isOk {io : WriteIo} :
    (writeRecord crc32 cfg io now op payload w).2.isOk = true ↔
      w.currentFd ≠ none ∧ (∀ k, io ≠ .torn k) ∧ (cfg.syncOnWrite = true → io ≠ .fsyncFails) := by
  unfold writeRecord
  cases w.currentFd with
  | none => exact ⟨fun h => (by cases h), fun h => absurd rfl h.1⟩
  | some n =>
    cases io with
    | torn k => exact ⟨fun h => (by cases h), fun h => absurd rfl (h.2.1 k)⟩
    | ok =>
      dsimp only
      rw [if_neg fun hcon => by cases hcon.2]
      exact ⟨fun _ => ⟨by simp, fun k h => (by cases h), fun _ h => (by cases h)⟩, fun _ => rfl⟩
    | fsyncFails =>
      dsimp only
      by_cases hsync : cfg.syncOnWrite = true
      · rw [if_pos ⟨hsync, rfl⟩]
        exact ⟨fun h => (by cases h), fun h => absurd rfl (h.2.2 hsync)⟩
      · rw [if_neg fun hcon => hsync hcon.1]
        exact ⟨fun _ => ⟨by simp, fun k h => (by cases h), fun h => absurd h hsync⟩, fun _ => rfl⟩

/-- A rotation succeeds, and there is a segment to write to, or it fails. -/
theorem rotateFile_isOk {io : RotateIo} (hcurrent : w.currentFd ≠ none) :
    (io = .ok ∧ nextFileNumber w.dir (w.dir.length + 1) w.currentFileNumber ≠ none ∧
        ∃ w', rotateFile cfg io w = (w', .ok ()) ∧ w'.currentFd ≠ none) ∨
      ¬ (io = .ok ∧ nextFileNumber w.dir (w.dir.length + 1) w.currentFileNumber ≠ none) ∧
        ∃ w' e, rotateFile cfg io w = (w', .error e) := by
  have hsome : w.currentFd.isSome = true := Option.isSome_iff_ne_none.mpr hcurrent
  unfold rotateFile
  dsimp only
  cases nextFileNumber w.dir (w.dir.length + 1) w.currentFileNumber with
  | none =>
    refine .inr ⟨fun h => h.2 rfl, ?_⟩
    cases io <;> simp [hsome]
  | some n =>
    cases io with
    | ok => exact .inl ⟨rfl, by simp, by simp [createSegment]⟩
    | fsyncOld => exact .inr ⟨fun h => (by cases h.1), by simp [hsome]⟩
    | closeOld => exact .inr ⟨fun h => (by cases h.1), by simp [hsome]⟩
    | create => exact .inr ⟨fun h => (by cases h.1), by simp [createSegment]⟩
    | header k => exact .inr ⟨fun h => (by cases h.1), by simp [createSegment]⟩
    | fsyncNew => exact .inr ⟨fun h => (by cases h.1), by simp [createSegment]⟩
    | fsyncDir => exact .inr ⟨fun h => (by cases h.1), by simp [createSegment]⟩

theorem append_isOk {io : AppendIo} :
    (append crc32 cfg io now op payload w).2.isOk = true ↔ Takes cfg io payload.length w := by
  unfold append
  split
  · rename_i hclosed
    refine ⟨fun h => (by cases h), fun h => ?_⟩
    rcases hclosed with hclosed | hclosed
    · exact absurd h.isOpen hclosed
    · exact absurd hclosed h.current
  rename_i hopen
  rw [not_or, not_not] at hopen
  split
  · rename_i hlast
    exact ⟨fun h => (by cases h), fun h => absurd hlast h.sequence⟩
  rename_i hsequence
  split
  · rename_i hlong
    exact ⟨fun h => (by cases h), fun h => absurd h.fits (by omega)⟩
  rename_i hfits
  split
  · rename_i hrotates
    rcases @rotateFile_isOk cfg { w with files := setBackMax w.files w.currentSequence } io.rotate
      hopen.2 with
      ⟨hio, hnext, w', hrotated, hcurrent⟩ | ⟨hfails, w', e, hrotated⟩
    · rw [hrotated]
      refine writeRecord_isOk.trans ⟨fun h => ?_, fun h => ⟨hcurrent, h.written, h.synced⟩⟩
      exact ⟨hopen.1, hopen.2, hsequence, by omega, fun _ => ⟨hio, hnext⟩, h.2.1, h.2.2⟩
    · rw [hrotated]
      exact ⟨fun h => (by cases h), fun h => absurd (h.rotates hrotates) hfails⟩
  · rename_i hstays
    refine writeRecord_isOk.trans ⟨fun h => ?_, fun h => ⟨h.current, h.written, h.synced⟩⟩
    exact ⟨hopen.1, hopen.2, hsequence, by omega, fun hcon => absurd hcon hstays, h.2.1, h.2.2⟩

variable {F : Type}

/-- **The log takes a command**: there is none, it leaves the command out, or it has what `Append`
    needs. -/
def LogTakes (ctx : HandlerContext F) (io : WalIo) (cmd : Command) : Prop :=
  ∀ w, ctx.wal = some w → (cmd.type = .kVecset ∧ ctx.config.includeVectors = false) ∨
    Takes w.cfg io.io (encodeCommand cmd).length w.wal

theorem appendError_none_iff (env : Platform) {ctx : HandlerContext F} {io : WalIo}
    {cmd : Command} : appendError env ctx io cmd = none ↔ LogTakes ctx io cmd := by
  unfold appendError appendToWal LogTakes
  cases ctx.wal with
  | none => exact ⟨fun _ w hw => by (cases hw), fun _ => rfl⟩
  | some w =>
    dsimp only
    by_cases hout : cmd.type = .kVecset ∧ ¬ ctx.config.includeVectors = true
    · rw [if_pos hout]
      exact ⟨fun _ _ _ => .inl ⟨hout.1, Bool.not_eq_true _ ▸ hout.2⟩, fun _ => rfl⟩
    · rw [if_neg hout]
      have hiff : (append env.crc32 w.cfg io.io io.nowUs (walOpForCommand cmd) (encodeCommand cmd)
          w.wal).2.isOk = true ↔ _ := append_isOk
      unfold appendRecord
      cases happ : (append env.crc32 w.cfg io.io io.nowUs (walOpForCommand cmd)
          (encodeCommand cmd) w.wal).2 with
      | error e =>
        rw [happ] at hiff
        refine ⟨fun h => (by cases h), fun h => ?_⟩
        rcases h w rfl with hleft | htakes
        · exact absurd ⟨hleft.1, by simp [hleft.2]⟩ hout
        · cases hiff.2 htakes
      | ok q =>
        rw [happ] at hiff
        refine ⟨fun _ w' hw' => ?_, fun _ => rfl⟩
        cases hw'
        exact .inr (hiff.1 rfl)

end Log

/-! ## 4. The handlers -/

section Handlers

variable {F : Type} {env : Platform} {ctx : HandlerContext F} {clocks : EventClocks}
  {io : WalIo} {cmd : Command}

/-- The same context, and accepted or refused alike. -/
def Alike {ε α ε' α' : Type} (x : HandlerContext F × Except ε α)
    (y : HandlerContext F × Except ε' α') : Prop :=
  x.1 = y.1 ∧ x.2.isOk = y.2.isOk

/-- The log sees of a command its type, its operation and its encoding. -/
theorem appendToWal_congr {cmd' : Command} (htype : cmd.type = cmd'.type)
    (hop : walOpForCommand cmd = walOpForCommand cmd')
    (hpayload : encodeCommand cmd = encodeCommand cmd') :
    appendToWal env ctx io cmd = appendToWal env ctx io cmd' := by
  unfold appendToWal
  rw [htype, hop, hpayload]

/-- What a vector of another dimension meets in the store. -/
theorem validateVector_dimension {s : VectorStore} (l2Norm : List UInt32 → UInt32) (id : Bytes)
    {vec : List UInt32} (h : 0 < s.dimension ∧ vec.length ≠ s.dimension) :
    ∃ e, s.validateVector l2Norm id vec = .error e := by
  unfold VectorStore.validateVector
  simp only [gt_iff_lt, if_pos h]
  split
  · exact ⟨_, rfl⟩
  split
  · exact ⟨_, rfl⟩
  split
  · exact ⟨_, rfl⟩
  split
  · exact ⟨_, rfl⟩
  split
  · exact ⟨_, rfl⟩
  · exact ⟨_, rfl⟩

/-- The two handlers of a vector without metadata. -/
theorem httpHandleVecset_alike {id : Bytes} {vector : List UInt32} (htype : cmd.type = .kVecset)
    (hid : cmd.id = id) (hvector : cmd.vector = vector) (hmeta : cmd.metadata = none)
    (hne : vector ≠ []) :
    Alike (handleVecset env ctx io cmd) (httpHandleVecset env ctx io id vector none) := by
  have happend : appendToWal env ctx io cmd =
      if (vecsetLogEntry ctx.config.includeVectors id vector none).type ≠ .kUnknown then
        appendToWal env ctx io (vecsetLogEntry ctx.config.includeVectors id vector none)
      else (ctx, .ok ()) := by
    cases hinc : ctx.config.includeVectors with
    | true =>
      rw [if_pos (by simp [vecsetLogEntry])]
      refine appendToWal_congr htype ?_ ?_
      · simp [walOpForCommand, htype, vecsetLogEntry]
      · simp [encodeCommand, htype, vecsetLogEntry, hid, hvector, hmeta]
    | false =>
      rw [if_neg (by simp [vecsetLogEntry])]
      unfold appendToWal
      split
      · rfl
      · rw [if_pos ⟨htype, by simp [hinc]⟩]
  unfold handleVecset httpHandleVecset
  dsimp only
  rw [if_neg hne, hid, hvector, hmeta, happend]
  by_cases hdim : 0 < ctx.stores.vectorStore.dimension ∧
      vector.length ≠ ctx.stores.vectorStore.dimension
  · obtain ⟨e, he⟩ := validateVector_dimension env.l2Norm id hdim
    rw [if_pos hdim, he]
    exact ⟨rfl, rfl⟩
  · rw [if_neg hdim]
    split
    · exact ⟨rfl, rfl⟩
    · split
      · exact ⟨rfl, rfl⟩
      · split
        · exact ⟨rfl, rfl⟩
        · dsimp only
          split
          · rename_i heq
            cases heq
          · exact ⟨rfl, rfl⟩

/-- The two handlers of a deletion. -/
theorem httpHandleVecdel_alike {id : Bytes} (htype : cmd.type = .kVecdel) (hid : cmd.id = id)
    (hne : id ≠ []) :
    Alike (handleVecdel env ctx io cmd) (httpHandleVecdel env ctx io id) := by
  have happend : appendToWal env ctx io cmd =
      appendToWal env ctx io { type := .kVecdel, id := id } := by
    refine appendToWal_congr htype ?_ ?_
    · simp [walOpForCommand, htype]
    · simp [encodeCommand, htype, hid]
  unfold handleVecdel httpHandleVecdel
  rw [if_neg hne, hid, happend]
  split
  · exact ⟨rfl, rfl⟩
  · split
    · exact ⟨rfl, rfl⟩
    · split
      · exact ⟨rfl, rfl⟩
      · exact ⟨rfl, rfl⟩

/-- A command that the log does not leave out: there is no log, or it is in it. -/
theorem appendToWal_logged {ctx' : HandlerContext F} (htype : cmd.type ≠ .kVecset)
    (h : appendToWal env ctx io cmd = (ctx', .ok ())) :
    (ctx.wal = none ∧ ctx' = ctx) ∨ ∃ w w' sequence, ctx.wal = some w ∧
      ctx' = { ctx with wal := some w' } ∧
      w'.acked = recordOf sequence (io.nowUs % 2 ^ 64) cmd :: w.acked ∧
      fitsRecord (encodeCommand cmd) := by
  unfold appendToWal at h
  split at h
  · rename_i hw
    cases h
    exact .inl ⟨hw, rfl⟩
  · rename_i w hw
    rw [if_neg fun hcon => htype hcon.1] at h
    unfold appendRecord at h
    cases happ : append env.crc32 w.cfg io.io io.nowUs (walOpForCommand cmd) (encodeCommand cmd)
        w.wal with
    | mk v res =>
      cases res with
      | error e =>
        simp only [happ] at h
        cases h
      | ok q =>
        simp only [happ] at h
        cases h
        have hok : (append env.crc32 w.cfg io.io io.nowUs (walOpForCommand cmd)
            (encodeCommand cmd) w.wal).2 = .ok q := by rw [happ]
        obtain ⟨-, -, -, hfits⟩ := appended_of_append env hok
        exact .inr ⟨w, _, q, hw, rfl, by simp [WalRun.append, happ, recordOf], hfits⟩

variable [FloatOps F]

/-- The record of either command, replayed. -/
theorem replay_metaset {cmd : Command} {id : Bytes} {m : Metadata} {sequence timestampUs : Nat}
    (hctx : ctx.wal = none) (htype : cmd.type = .kMetaset) (hid : cmd.id = id)
    (hparse : parseMetadata env cmd = .ok m) (hfits : fitsRecord (encodeCommand cmd)) :
    replayRecord env ctx clocks (recordOf sequence timestampUs cmd) =
      match ctx.stores.vectorStore.getCompactIndex id with
      | none => (ctx, .error (makeError .kVectorNotFound
          ("Vector not found for metadata: " ++ textOf id)))
      | some _ => (setMetadata ctx id m, .ok ()) := by
  subst hid
  have hop : (recordOf sequence timestampUs cmd).op ≠
      WalOpType.kCoOccurrenceMaintenance.toByte := by
    simp only [recordOf, walOpForCommand, htype]
    decide
  have hread : parseMetadata env
      { type := .kMetaset, id := cmd.id, metadata := cmd.metadata,
        filterExpr := if cmd.metadata = none then cmd.filterExpr else [] } = .ok m := by
    rw [← hparse]
    simp only [parseMetadata]
    cases cmd.metadata with
    | none => rfl
    | some m => rfl
  unfold replayRecord
  rw [if_neg hop, decode_metaset htype (fitsRecord_lt hfits).2]
  simp only [handleCommand, handleMetaset, hread]
  cases ctx.stores.vectorStore.getCompactIndex cmd.id with
  | none => rfl
  | some idx => simp only [appendToWal, hctx]

/-- The command that the body of an event amounts to. -/
def EventBody.command (body : EventBody) : Command :=
  { type := .kEvent, ctx := body.ctx, id := body.id, eventType := body.type
    score := if body.type = .DEL then 0 else body.score, timestamp := some body.timestamp }

/-- The two handlers of an event. -/
theorem httpHandleEvent_alike (body : EventBody)
    (hscore : body.type ≠ .DEL → kMinEventScore ≤ body.score ∧ body.score ≤ kMaxEventScore) :
    Alike (handleEvent env ctx clocks io body.command)
      (httpHandleEvent env ctx clocks io body.ctx body.id body.type body.score body.timestamp) := by
  have hrange : ¬(body.type ≠ .DEL ∧
      (body.score < kMinEventScore ∨ body.score > kMaxEventScore)) := by
    rintro ⟨hdel, hout⟩
    have := hscore hdel
    omega
  unfold handleEvent httpHandleEvent
  rw [if_neg hrange]
  simp only [EventBody.command, Option.getD_some]
  split
  · exact ⟨rfl, rfl⟩
  · rename_i prepared hp
    split
    · split
      · exact ⟨rfl, rfl⟩
      · exact ⟨rfl, rfl⟩
    · split
      · exact ⟨rfl, rfl⟩
      · split
        · split
          · exact ⟨rfl, rfl⟩
          · exact ⟨rfl, rfl⟩
        · exact ⟨rfl, rfl⟩

/-- An event is handled by its context, id, type, score and time. -/
theorem handleEvent_command {body : EventBody} (htype : cmd.type = .kEvent)
    (hctx : cmd.ctx = body.ctx) (hid : cmd.id = body.id) (hevent : cmd.eventType = body.type)
    (hscore : cmd.score = if body.type = .DEL then 0 else body.score)
    (htime : cmd.timestamp.getD 0 = body.timestamp) :
    handleEvent env ctx clocks io cmd = handleEvent env ctx clocks io body.command := by
  have happend : ∀ (ctx : HandlerContext F) (p : Event),
      appendToWal env ctx io { cmd with
        score := p.score, eventType := p.type, timestamp := some p.timestamp } =
      appendToWal env ctx io { body.command with
        score := p.score, eventType := p.type, timestamp := some p.timestamp } := by
    intro ctx p
    refine appendToWal_congr ?_ ?_ ?_
    · exact htype
    · simp only [walOpForCommand, htype, EventBody.command]
    · simp only [encodeCommand, htype, EventBody.command, hctx, hid]
  unfold handleEvent ingest
  simp only [happend]
  simp only [EventBody.command, hctx, hid, hevent, hscore, htime, Option.getD_some]

end Handlers

/-! ## 5. The surfaces -/

section Surfaces

variable {F A κ : Type} [DecidableEq κ]

@[simp] theorem generations_updateCache (f : SimilarityCache κ → SimilarityCache κ)
    (sc : ServerContext F A κ) : (sc.updateCache f).generations = sc.generations := by
  unfold ServerContext.updateCache
  split <;> rfl

theorem SameMetadata.refl (m : Metadata) : SameMetadata m m := fun _ => rfl

theorem SameStores.refl (s : Stores F) : SameStores s s :=
  ⟨rfl, rfl, rfl, fun id => by cases s.metadataStore.get id <;> constructor; exact SameMetadata.refl _⟩

section

variable {env : Platform} {sc : ServerContext F A κ} [FloatOps F]

/-- Refused on both surfaces. -/
theorem agree_of_refused {tcp : ServerContext F A κ × Except String String}
    {http : ServerContext F A κ × Except HttpError Unit} (htcp : tcp.2.isOk = false)
    (hhttp : http.2.isOk = false) : Agree env sc tcp http where
  alike := by rw [htcp, hhttp]
  stores h := by rw [htcp] at h; cases h
  generations h := by rw [htcp] at h; cases h
  logs h := by rw [htcp] at h; cases h

/-- The same context and counters. -/
theorem agree_of_same {tcp : ServerContext F A κ × Except String String}
    {http : ServerContext F A κ × Except HttpError Unit}
    (hctx : tcp.1.toHandlerContext = http.1.toHandlerContext) (hok : tcp.2.isOk = http.2.isOk)
    (hgen : tcp.2.isOk = true → tcp.1.generations = http.1.generations) :
    Agree env sc tcp http where
  alike := hok
  stores _ := by rw [hctx]; exact SameStores.refl _
  generations := hgen
  logs _ := .inl (by rw [hctx])

end

variable {env : SurfaceEnv κ} {sc : ServerContext F A κ} {clocks : EventClocks} {io : WalIo}
  {cmd : Command}

/-- The answer of the dispatcher as it goes out. -/
def answered (r : ServerContext F A κ × Except Error String) :
    ServerContext F A κ × Except String String :=
  match r with
  | (sc, .error e) => (sc, .error e.message)
  | (sc, .ok answer) => (sc, .ok answer)

theorem answered_fst (r : ServerContext F A κ × Except Error String) :
    (answered r).1 = r.1 ∧ (answered r).2.isOk = r.2.isOk := by
  obtain ⟨sc, _ | _⟩ := r <;> exact ⟨rfl, rfl⟩

/-- What a request does is what its handler does, and then moves the counters. -/
def Follows {ε α ε' α' : Type} (r : ServerContext F A κ × Except ε α)
    (h : HandlerContext F × Except ε' α') (generations : Nat × Nat × Nat) : Prop :=
  r.1.toHandlerContext = h.1 ∧ r.2.isOk = h.2.isOk ∧
    (r.2.isOk = true → r.1.generations = generations)

/-- The counters, moved. -/
def ServerContext.moved (sc : ServerContext F A κ) (vector metadata : Nat) : Nat × Nat × Nat :=
  (sc.vectorGeneration + vector, sc.metadataGeneration + metadata, sc.datasetGeneration)

theorem dispatchMetaset_follows (env : SurfaceEnv κ) (sc : ServerContext F A κ) (io : WalIo) (cmd : Command) :
    Follows (sc.dispatchMetaset env.toServerEnv io cmd)
      (handleMetaset env.toPlatform sc.toHandlerContext io cmd) (sc.moved 0 1) := by
  unfold ServerContext.dispatchMetaset
  split
  · rename_i ctx e hh
    rw [hh]
    exact ⟨rfl, rfl, fun hcon => (by cases hcon)⟩
  · rename_i ctx answer hh
    rw [hh]
    exact ⟨updateCache_context _ _, rfl, fun _ => generations_updateCache _ _⟩

theorem httpMetaset_follows (env : SurfaceEnv κ) (sc : ServerContext F A κ) (io : WalIo) (id : Bytes) (m : Metadata) :
    Follows (sc.httpMetaset env io id m)
      (httpHandleMetaset env.toPlatform sc.toHandlerContext io id m) (sc.moved 0 1) := by
  unfold ServerContext.httpMetaset
  split
  · rename_i ctx e hh
    rw [hh]
    exact ⟨rfl, rfl, fun hcon => (by cases hcon)⟩
  · rename_i ctx hh
    rw [hh]
    exact ⟨updateCache_context _ _, rfl, fun _ => generations_updateCache _ _⟩

section

variable [FloatOps F]

theorem dispatchEvent_follows (env : SurfaceEnv κ) (sc : ServerContext F A κ) (clocks : EventClocks) (io : WalIo)
    (cmd : Command) :
    Follows (sc.dispatchEvent env.toServerEnv clocks io cmd)
      (handleEvent env.toPlatform sc.toHandlerContext clocks io cmd) (sc.moved 0 0) := by
  unfold ServerContext.dispatchEvent
  split
  · rename_i e hp
    unfold handleEvent
    rw [hp]
    exact ⟨rfl, rfl, fun _ => rfl⟩
  · split
    · rename_i ctx e hh
      rw [hh]
      exact ⟨rfl, rfl, fun _ => rfl⟩
    · rename_i ctx answer hh
      rw [hh]
      dsimp only
      split
      · exact ⟨rfl, rfl, fun _ => rfl⟩
      · exact ⟨updateCache_context _ _, rfl, fun _ => generations_updateCache _ _⟩

theorem httpEvent_follows (env : SurfaceEnv κ) (sc : ServerContext F A κ) (clocks : EventClocks) (io : WalIo)
    (body : EventBody) :
    Follows (sc.httpEvent env clocks io body)
      (httpHandleEvent env.toPlatform sc.toHandlerContext clocks io body.ctx body.id body.type
        body.score body.timestamp) (sc.moved 0 0) := by
  unfold ServerContext.httpEvent
  split
  · rename_i ctx e hh
    rw [hh]
    exact ⟨rfl, rfl, fun _ => rfl⟩
  · rename_i ctx hh
    rw [hh]
    exact ⟨updateCache_context _ _, rfl, fun _ => generations_updateCache _ _⟩

/-- Requests that follow handlers which do the same agree. -/
theorem agree_of_alike {env : Platform} {tcp : ServerContext F A κ × Except Error String}
    {http : ServerContext F A κ × Except HttpError Unit} {ε α ε' α' : Type}
    {x : HandlerContext F × Except ε α} {y : HandlerContext F × Except ε' α'}
    {generations : Nat × Nat × Nat} (htcp : Follows tcp x generations)
    (hhttp : Follows http y generations) (h : Alike x y) :
    Agree env sc (answered tcp) http := by
  obtain ⟨hfst, hsnd⟩ := answered_fst tcp
  have hok : (answered tcp).2.isOk = http.2.isOk := by
    rw [hsnd, htcp.2.1, hhttp.2.1, h.2]
  refine agree_of_same ?_ hok fun hacc => ?_
  · rw [hfst, htcp.1, hhttp.1, h.1]
  · rw [hfst, htcp.2.2 (hsnd ▸ hacc), hhttp.2.2 (hok ▸ hacc)]

end

section

variable [AnnIndex A]

@[simp] theorem generations_notifyAdded (env : ServerEnv κ) (sc : ServerContext F A κ) (id : Bytes) :
    (sc.notifyAdded env id).generations = sc.generations := by
  unfold ServerContext.notifyAdded
  split <;> rfl

theorem dispatchVecset_follows (env : SurfaceEnv κ) (sc : ServerContext F A κ) (io : WalIo) (hmeta : cmd.metadata = none) :
    Follows (sc.dispatchVecset env.toServerEnv io cmd)
      (handleVecset env.toPlatform sc.toHandlerContext io cmd) (sc.moved 1 0) := by
  unfold ServerContext.dispatchVecset
  split
  · rename_i ctx e hh
    rw [hh]
    exact ⟨rfl, rfl, fun hcon => (by cases hcon)⟩
  · rename_i ctx answer hh
    rw [hh]
    refine ⟨?_, rfl, fun _ => ?_⟩
    · rw [updateCache_context]
      exact notifyAdded_context _ _
    · rw [generations_updateCache, hmeta]
      have hgen := generations_notifyAdded env.toServerEnv
        { sc with toHandlerContext := ctx } cmd.id
      simp only [ServerContext.generations, Prod.mk.injEq] at hgen
      simp only [ServerContext.generations, ServerContext.moved, hgen.1, hgen.2.1, hgen.2.2]
      rfl

theorem httpVecset_follows (env : SurfaceEnv κ) (sc : ServerContext F A κ) (io : WalIo) {body : VecsetBody}
    (hmeta : body.metadata = none) :
    Follows (sc.httpVecset env io body)
      (httpHandleVecset env.toPlatform sc.toHandlerContext io body.id body.vector body.metadata)
      (sc.moved 1 0) := by
  unfold ServerContext.httpVecset
  split
  · rename_i ctx e hh
    rw [hh]
    exact ⟨rfl, rfl, fun hcon => (by cases hcon)⟩
  · rename_i ctx hh
    rw [hh]
    refine ⟨?_, rfl, fun _ => ?_⟩
    · rw [updateCache_context]
      exact notifyAdded_context _ _
    · rw [generations_updateCache, hmeta]
      have hgen := generations_notifyAdded env.toServerEnv
        { sc with toHandlerContext := ctx } body.id
      simp only [ServerContext.generations, Prod.mk.injEq] at hgen
      simp only [ServerContext.generations, ServerContext.moved, hgen.1, hgen.2.1, hgen.2.2]
      rfl

theorem dispatchVecdel_follows (env : SurfaceEnv κ) (sc : ServerContext F A κ) (io : WalIo) (cmd : Command) :
    Follows (sc.dispatchVecdel env.toServerEnv io cmd)
      (handleVecdel env.toPlatform sc.toHandlerContext io cmd) (sc.moved 1 1) := by
  unfold ServerContext.dispatchVecdel
  dsimp only
  split
  · rename_i ctx e hh
    rw [hh]
    exact ⟨rfl, rfl, fun hcon => (by cases hcon)⟩
  · rename_i ctx answer hh
    rw [hh]
    exact ⟨updateCache_context _ _, rfl, fun _ => generations_updateCache _ _⟩

theorem httpVecdel_follows (env : SurfaceEnv κ) (sc : ServerContext F A κ) (io : WalIo) (id : Bytes) :
    Follows (sc.httpVecdel env io id)
      (httpHandleVecdel env.toPlatform sc.toHandlerContext io id) (sc.moved 1 1) := by
  unfold ServerContext.httpVecdel
  dsimp only
  split
  · rename_i ctx e hh
    rw [hh]
    exact ⟨rfl, rfl, fun hcon => (by cases hcon)⟩
  · rename_i ctx hh
    rw [hh]
    exact ⟨updateCache_context _ _, rfl, fun _ => generations_updateCache _ _⟩

end

theorem appendError_none {env : Platform} {ctx : HandlerContext F}
    (h : appendError env ctx io cmd = none) :
    appendToWal env ctx io cmd = ((appendToWal env ctx io cmd).1, .ok ()) := by
  unfold appendError at h
  split at h
  · cases h
  · rename_i hok
    exact Prod.ext rfl hok

theorem setMetadata_same {ctx₁ ctx₂ : HandlerContext F} {id : Bytes} {m m' : Metadata}
    (hstores : ctx₁.stores = ctx₂.stores) :
    SameStores (setMetadata ctx₁ id m).stores (setMetadata ctx₂ id m').stores ↔
      SameMetadata m m' := by
  unfold setMetadata
  rw [hstores]
  constructor
  · intro h
    have hid := h.metadata id
    simp only [MetadataStore.get, MetadataStore.set, AssocMap.find?_insert_self] at hid
    cases hid with
    | some hsame => exact hsame
  · intro h
    refine ⟨rfl, rfl, rfl, fun i => ?_⟩
    simp only [MetadataStore.get, MetadataStore.set, AssocMap.find?_insert]
    split
    · exact .some h
    · exact (SameStores.refl ctx₂.stores).metadata i

/-- An assignment of metadata, after the text is read: refused, or applied. -/
theorem handleMetaset_cases {env : Platform} {ctx : HandlerContext F} {id : Bytes} {m : Metadata}
    (hid : cmd.id = id) (hparse : parseMetadata env cmd = .ok m) :
    ((ctx.stores.vectorStore.getCompactIndex id = none ∨
        (appendError env ctx io cmd).isSome = true) ∧
      (handleMetaset env ctx io cmd).2.isOk = false) ∨
    ctx.stores.vectorStore.getCompactIndex id ≠ none ∧ appendError env ctx io cmd = none ∧
      ∃ answer, handleMetaset env ctx io cmd =
        (setMetadata (appendToWal env ctx io cmd).1 id m, .ok answer) := by
  subst hid
  unfold handleMetaset
  rw [hparse]
  cases ctx.stores.vectorStore.getCompactIndex cmd.id with
  | none => exact .inl ⟨.inl rfl, rfl⟩
  | some idx =>
    cases happ : appendToWal env ctx io cmd with
    | mk ctx₁ r =>
      cases r with
      | error e =>
        refine .inl ⟨.inr ?_, rfl⟩
        simp only [appendError, happ]
        rfl
      | ok u =>
        refine .inr ⟨by simp, ?_, _, rfl⟩
        simp only [appendError, happ]

theorem httpHandleMetaset_cases {env : Platform} {ctx : HandlerContext F} (id : Bytes)
    (m : Metadata) :
    ((ctx.stores.vectorStore.getCompactIndex id = none ∨
        (appendError env ctx io (typedMetaset id m)).isSome = true) ∧
      (httpHandleMetaset env ctx io id m).2.isOk = false) ∨
    ctx.stores.vectorStore.getCompactIndex id ≠ none ∧
      appendError env ctx io (typedMetaset id m) = none ∧
      httpHandleMetaset env ctx io id m =
        (setMetadata (appendToWal env ctx io (typedMetaset id m)).1 id m, .ok ()) := by
  unfold httpHandleMetaset
  cases ctx.stores.vectorStore.getCompactIndex id with
  | none => exact .inl ⟨.inl rfl, rfl⟩
  | some idx =>
    cases happ : appendToWal env ctx io (typedMetaset id m) with
    | mk ctx₁ r =>
      have happ' := happ
      simp only [typedMetaset] at happ'
      cases r with
      | error e =>
        refine .inl ⟨.inr ?_, ?_⟩
        · simp only [appendError, happ]
          rfl
        · simp only [happ']
          rfl
      | ok u =>
        refine .inr ⟨by simp, ?_, ?_⟩
        · simp only [appendError, happ]
        · simp only [happ']

/-- The records of the two commands, replayed. -/
theorem metaset_sameReplay [FloatOps F] {env : Platform} {id expr : Bytes} {m m' : Metadata}
    {sequence sequence' us us' : Nat} (hsame : SameMetadata m m')
    (hparse : parseMetadata env (textMetaset id expr) = .ok m)
    (hfits : fitsRecord (encodeCommand (textMetaset id expr)))
    (hfits' : fitsRecord (encodeCommand (typedMetaset id m'))) :
    SameReplay F env (recordOf sequence us (textMetaset id expr))
      (recordOf sequence' us' (typedMetaset id m')) := by
  intro ctx clocks hctx
  have htyped : parseMetadata env (typedMetaset id m') = .ok m' := rfl
  rw [replay_metaset hctx rfl rfl hparse hfits, replay_metaset hctx rfl rfl htyped hfits']
  cases hi : ctx.stores.vectorStore.getCompactIndex id with
  | none =>
    simp only [textMetaset, typedMetaset, hi]
    exact ⟨SameStores.refl _, trivial⟩
  | some idx =>
    simp only [textMetaset, typedMetaset, hi]
    exact ⟨(setMetadata_same rfl).mpr hsame, trivial⟩

/-- The logs the two commands are appended to. -/
theorem metaset_sameLogs [FloatOps F] {env : Platform} {ctx : HandlerContext F} {id expr : Bytes}
    {m m' : Metadata} (hsame : SameMetadata m m')
    (hparse : parseMetadata env (textMetaset id expr) = .ok m)
    (htext : appendError env ctx io (textMetaset id expr) = none)
    (htyped : appendError env ctx io (typedMetaset id m') = none) :
    SameLogs F env ctx.wal (appendToWal env ctx io (textMetaset id expr)).1.wal
      (appendToWal env ctx io (typedMetaset id m')).1.wal := by
  have hlogged := appendToWal_logged (by simp [textMetaset]) (appendError_none htext)
  have hlogged' := appendToWal_logged (by simp [typedMetaset]) (appendError_none htyped)
  rcases hlogged with ⟨hnone, heq⟩ | ⟨w, w₁, q, hw, heq, hacked, hfits⟩
  · rcases hlogged' with ⟨-, heq'⟩ | ⟨w', w₂, q', hw', -⟩
    · exact .inl (by rw [heq, heq'])
    · rw [hnone] at hw'
      cases hw'
  · rcases hlogged' with ⟨hnone, -⟩ | ⟨w', w₂, q', hw', heq', hacked', hfits'⟩
    · rw [hnone] at hw
      cases hw
    · obtain rfl := Option.some.inj (hw.symm.trans hw')
      refine .inr ⟨w, w₁, w₂, _, _, hw, by rw [heq], by rw [heq'], hacked, hacked', ?_⟩
      exact metaset_sameReplay hsame hparse hfits hfits'

/-- **Metadata**: refused on both surfaces, or read as the same map. -/
theorem metaset_agrees [FloatOps F] {id expr : Bytes} {m m' : Metadata} (io : WalIo)
    (hparse : parseMetadata env.toPlatform (textMetaset id expr) = .ok m) :
    Agree env.toPlatform sc
        (answered (sc.dispatchMetaset env.toServerEnv io (textMetaset id expr)))
        (sc.httpMetaset env io id m') ↔
      sc.stores.vectorStore.getCompactIndex id = none ∨
      (LogTakes sc.toHandlerContext io (textMetaset id expr) ↔
          LogTakes sc.toHandlerContext io (typedMetaset id m')) ∧
        (LogTakes sc.toHandlerContext io (textMetaset id expr) → SameMetadata m m') := by
  rw [← appendError_none_iff env.toPlatform, ← appendError_none_iff env.toPlatform]
  obtain ⟨hctx, hok, hgen⟩ := dispatchMetaset_follows env sc io (textMetaset id expr)
  obtain ⟨hctx', hok', hgen'⟩ := httpMetaset_follows env sc io id m'
  obtain ⟨hfst, hsnd⟩ :=
    answered_fst (sc.dispatchMetaset env.toServerEnv io (textMetaset id expr))
  have htcp := @handleMetaset_cases F io (textMetaset id expr) env.toPlatform sc.toHandlerContext
    id m rfl hparse
  have hhttp := @httpHandleMetaset_cases F io env.toPlatform sc.toHandlerContext id m'
  generalize htext : appendError env.toPlatform sc.toHandlerContext io (textMetaset id expr) = text
    at htcp ⊢
  generalize htyped : appendError env.toPlatform sc.toHandlerContext io (typedMetaset id m') = typed
    at hhttp ⊢
  rcases htcp with ⟨hwhy, hno⟩ | ⟨hidx, rfl, answer, hyes⟩
  · have hrefused : (answered (sc.dispatchMetaset env.toServerEnv io
        (textMetaset id expr))).2.isOk = false := by rw [hsnd, hok, hno]
    rcases hhttp with ⟨hwhy', hno'⟩ | ⟨hidx', rfl, hyes'⟩
    · refine ⟨fun _ => ?_, fun _ => agree_of_refused hrefused (by rw [hok', hno'])⟩
      rcases hwhy with hnone | hfails
      · exact .inl hnone
      · rcases hwhy' with hnone | hfails'
        · exact .inl hnone
        · have htext' : text ≠ none := Option.isSome_iff_ne_none.mp hfails
          have htyped' : typed ≠ none := Option.isSome_iff_ne_none.mp hfails'
          exact .inr ⟨iff_of_false htext' htyped', fun hcon => absurd hcon htext'⟩
    · constructor
      · intro h
        have halike := h.alike
        rw [hrefused, hok', hyes'] at halike
        cases halike
      · rintro (hnone | ⟨hiff, -⟩)
        · exact absurd hnone hidx'
        · rcases hwhy with hnone | hfails
          · exact absurd hnone hidx'
          · rw [hiff.2 rfl] at hfails
            cases hfails
  · have haccepted : (answered (sc.dispatchMetaset env.toServerEnv io
        (textMetaset id expr))).2.isOk = true := by
      rw [hsnd, hok, hyes]
      rfl
    rcases hhttp with ⟨hwhy', hno'⟩ | ⟨hidx', rfl, hyes'⟩
    · constructor
      · intro h
        have halike := h.alike
        rw [haccepted, hok', hno'] at halike
        cases halike
      · rintro (hnone | ⟨hiff, -⟩)
        · exact absurd hnone hidx
        · rcases hwhy' with hnone | hfails
          · exact absurd hnone hidx
          · rw [hiff.1 rfl] at hfails
            cases hfails
    · have hstores : SameStores
          (answered (sc.dispatchMetaset env.toServerEnv io (textMetaset id expr))).1.stores
          (sc.httpMetaset env io id m').1.stores ↔ SameMetadata m m' := by
        rw [hfst, hctx, hctx', hyes, hyes']
        refine setMetadata_same ?_
        obtain ⟨wal, readOnly, happ⟩ :=
          appendToWal_only env.toPlatform sc.toHandlerContext io (textMetaset id expr)
        obtain ⟨wal', readOnly', happ'⟩ :=
          appendToWal_only env.toPlatform sc.toHandlerContext io (typedMetaset id m')
        rw [happ, happ']
      have hok'' : (sc.httpMetaset env io id m').2.isOk = true := by
        rw [hok', hyes']
        rfl
      constructor
      · intro h
        exact .inr ⟨Iff.rfl, fun _ => hstores.mp (h.stores haccepted)⟩
      · rintro (hnone | ⟨-, hsame⟩)
        · exact absurd hnone hidx
        replace hsame := hsame rfl
        refine ⟨by rw [haccepted, hok''], fun _ => hstores.mpr hsame, fun _ => ?_, fun _ => ?_⟩
        · rw [hfst, hgen (hsnd ▸ haccepted), hgen' hok'']
        · rw [hfst, hctx, hctx', hyes, hyes']
          exact metaset_sameLogs hsame hparse htext htyped

end Surfaces

/-! ## 6. Requests -/

section Requests

variable {F A κ : Type} [FloatOps F]

/-- **An event is taken**: it is valid, the caches answer alike before and behind the log whether
    it is a duplicate, and the log takes its record if it is none. -/
def EventTaken (ctx : HandlerContext F) (clocks : EventClocks) (io : WalIo) (cmd : Command) : Prop :=
  let resolved := resolveTimestamp (cmd.timestamp.getD 0) clocks.prepare
  let duplicate := ctx.stores.eventStore.caches.wouldDeduplicate cmd.ctx cmd.id cmd.score
    cmd.eventType resolved clocks.prepare.steadyNow
  validateEvent cmd.ctx cmd.id cmd.score cmd.eventType = .ok () ∧
    ctx.stores.eventStore.caches.wouldDeduplicate cmd.ctx cmd.id cmd.score cmd.eventType
      (resolveTimestamp resolved clocks.apply) clocks.apply.steadyNow = duplicate ∧
    (duplicate = false → LogTakes ctx io { cmd with
      score := storedScore cmd.score cmd.eventType, timestamp := some resolved })

/-- The command of a vector is taken: it is read, the store has no objection, and the log takes
    it. -/
def VectorTaken (env : Platform) (ctx : HandlerContext F) (io : WalIo) (id : Bytes)
    (vector : Option (List UInt32)) : Prop :=
  ∃ v, vector = some v ∧ ctx.stores.vectorStore.validateVector env.l2Norm id v = .ok () ∧
    LogTakes ctx io (vectorCommand id v)

/-- **What an operation needs to be the same on both surfaces**, in the state before it.
    * `ParseTimestamp` takes a minus sign, the HTTP server does not;
    * the two readers of numbers may make different floats of a text, or one of them none;
    * the records of metadata are of different sizes, and a large whole number is read otherwise. -/
def SameOnBoth [DecidableEq κ] (env : SurfaceEnv κ) (ctx : HandlerContext F) (clocks : EventClocks)
    (io : WalIo) (maxTopK : Nat) (request : Bytes) (body : Json) (op : Operation) : Prop :=
  match op with
  | .event ctxId id type score timestamp =>
    ¬ SignedTimestamp body ∨
      ¬ EventTaken ctx clocks io (eventBody ctxId id type score timestamp).command
  | .vecset id components =>
    components.mapM env.stof = components.mapM (httpFloat env.strtod env.toFloat) ∨
      ¬ VectorTaken env.toPlatform ctx io id (components.mapM env.stof) ∧
        ¬ VectorTaken env.toPlatform ctx io id
          (components.mapM (httpFloat env.strtod env.toFloat))
  | .vecdel _ => True
  | .metaset id fields =>
    ctx.stores.vectorStore.getCompactIndex id = none ∨
      ∀ cmd m, parseCommand env.stof env.takesPart request maxTopK = .ok (.write cmd) →
        parseMetasetBody body = .ok (id, m) →
          (LogTakes ctx io cmd ↔ LogTakes ctx io (typedMetaset id m)) ∧
            (LogTakes ctx io cmd → PlainFields fields)

section Taken

variable {env : Platform} {ctx : HandlerContext F} {clocks : EventClocks} {io : WalIo}
  {cmd : Command}

omit [FloatOps F] in
/-- The store takes a valid event for a duplicate if its caches do. -/
theorem ingest_deduped (ctx : HandlerContext F) (clock : Clock) (cmd : Command)
    (h : validateEvent cmd.ctx cmd.id cmd.score cmd.eventType = .ok ()) :
    ∃ result, (ingest ctx clock cmd).2 = .ok result ∧
      result.deduped = ctx.stores.eventStore.caches.wouldDeduplicate cmd.ctx cmd.id cmd.score
        cmd.eventType (resolveTimestamp (cmd.timestamp.getD 0) clock) clock.steadyNow := by
  unfold ingest
  cases hdup : ctx.stores.eventStore.caches.wouldDeduplicate cmd.ctx cmd.id cmd.score
      cmd.eventType (resolveTimestamp (cmd.timestamp.getD 0) clock) clock.steadyNow with
  | true =>
    rw [EventStore.addEventAndGetPrior_duplicate h hdup]
    exact ⟨_, rfl, rfl⟩
  | false =>
    rw [EventStore.addEventAndGetPrior_new h hdup]
    exact ⟨_, rfl, rfl⟩

theorem handleEvent_isOk :
    (handleEvent env ctx clocks io cmd).2.isOk = true ↔ EventTaken ctx clocks io cmd := by
  unfold handleEvent EventTaken
  dsimp only
  cases hv : validateEvent cmd.ctx cmd.id cmd.score cmd.eventType with
  | error e =>
    have hp : ctx.stores.eventStore.prepareEvent clocks.prepare cmd.ctx cmd.id cmd.score
        cmd.eventType (cmd.timestamp.getD 0) = .error e := by
      simp [EventStore.prepareEvent, hv]
    rw [hp]
    exact ⟨fun h => (by cases h), fun h => (by cases h.1)⟩
  | ok u =>
    rw [prepareEvent_valid hv]
    dsimp only
    generalize hresolved : resolveTimestamp (cmd.timestamp.getD 0) clocks.prepare = resolved
    generalize ctx.stores.eventStore.caches.wouldDeduplicate cmd.ctx cmd.id cmd.score
      cmd.eventType resolved clocks.prepare.steadyNow = duplicate
    cases duplicate with
    | true =>
      -- the duplicate is counted, not logged
      obtain ⟨result, hresult, hdup⟩ := ingest_deduped ctx clocks.apply
        { cmd with timestamp := some resolved } hv
      rw [if_pos rfl]
      simp only [Option.getD_some] at hdup
      rw [← hdup]
      cases hi : ingest ctx clocks.apply { cmd with timestamp := some resolved } with
      | mk ctx' r =>
        rw [hi] at hresult
        subst hresult
        obtain ⟨deduped, stored, prior⟩ := result
        cases deduped with
        | true => exact ⟨fun _ => ⟨rfl, rfl, fun hcon => (by cases hcon)⟩, fun _ => rfl⟩
        | false => exact ⟨fun h => (by cases h), fun h => (by cases h.2.1)⟩
    | false =>
      rw [if_neg Bool.false_ne_true]
      have hlog : appendError env ctx io { cmd with
          score := storedScore cmd.score cmd.eventType, timestamp := some resolved } = none ↔ _ :=
        appendError_none_iff env
      obtain ⟨wal, readOnly, honly⟩ := appendToWal_only env ctx io { cmd with
        score := storedScore cmd.score cmd.eventType, timestamp := some resolved }
      unfold appendError at hlog
      cases happ : appendToWal env ctx io { cmd with
          score := storedScore cmd.score cmd.eventType, timestamp := some resolved } with
      | mk ctx₁ r =>
        rw [happ] at honly hlog
        cases r with
        | error e =>
          exact ⟨fun h => (by cases h), fun h => (by cases hlog.2 (h.2.2 rfl))⟩
        | ok u =>
          have htakes := hlog.1 rfl
          obtain ⟨result, hresult, hdup⟩ := ingest_deduped ctx₁ clocks.apply
            { cmd with score := storedScore cmd.score cmd.eventType, timestamp := some resolved }
            (validateEvent_storedScore.trans hv)
          have hcaches : ctx₁.stores.eventStore.caches = ctx.stores.eventStore.caches := by
            simp only at honly
            rw [honly]
          simp only [Option.getD_some, hcaches] at hdup
          rw [EventCaches.wouldDeduplicate_storedScore] at hdup
          rw [← hdup]
          dsimp only
          cases hi : ingest ctx₁ clocks.apply { cmd with
              score := storedScore cmd.score cmd.eventType, timestamp := some resolved } with
          | mk ctx₂ r =>
            rw [hi] at hresult
            subst hresult
            cases hd : result.deduped with
            | true =>
              dsimp only
              rw [if_pos hd]
              exact ⟨fun h => (by cases h), fun h => (by cases h.2.1)⟩
            | false =>
              dsimp only
              rw [if_neg (by rw [hd]; exact Bool.false_ne_true)]
              exact ⟨fun _ => ⟨rfl, rfl, fun _ => htakes⟩, fun _ => rfl⟩

omit [FloatOps F] in
/-- A vector goes to the store if it is taken. -/
theorem handleVecset_cases (env : Platform) (ctx : HandlerContext F) (io : WalIo) (id : Bytes)
    (v : List UInt32) :
    (VectorTaken env ctx io id (some v) ∧ (handleVecset env ctx io (vectorCommand id v)).2.isOk = true ∧
      (handleVecset env ctx io (vectorCommand id v)).1.stores.vectorStore =
        (ctx.stores.vectorStore.setVector env.l2Norm id v).1) ∨
    ¬ VectorTaken env ctx io id (some v) ∧
      (handleVecset env ctx io (vectorCommand id v)).2.isOk = false := by
  unfold handleVecset
  cases hv : ctx.stores.vectorStore.validateVector env.l2Norm (vectorCommand id v).id
      (vectorCommand id v).vector with
  | error e =>
    refine .inr ⟨?_, rfl⟩
    intro ⟨v', hv', hok, _⟩
    cases hv'
    cases hv.symm.trans hok
  | ok u =>
    have hlog : appendError env ctx io (vectorCommand id v) = none ↔ _ :=
      appendError_none_iff env
    obtain ⟨wal, readOnly, honly⟩ := appendToWal_only env ctx io (vectorCommand id v)
    unfold appendError at hlog
    cases happ : appendToWal env ctx io (vectorCommand id v) with
    | mk ctx₁ r =>
      rw [happ] at honly hlog
      cases r with
      | error e =>
        refine .inr ⟨?_, rfl⟩
        intro ⟨v', hv', _, htakes⟩
        cases hv'
        cases hlog.2 htakes
      | ok u =>
        have hstores : ctx₁.stores = ctx.stores := by
          simp only at honly
          rw [honly]
        obtain ⟨dim, -, hset⟩ := VectorStore.setVector_ok hv
        have hset' : ctx.stores.vectorStore.setVector env.l2Norm id v = _ := hset
        refine .inl ⟨⟨v, rfl, hv, hlog.1 rfl⟩, ?_⟩
        dsimp only
        rw [hstores, hset, hset']
        exact ⟨rfl, rfl⟩

end Taken

variable [AnnIndex A] [DecidableEq κ] {env : SurfaceEnv κ} {sc : ServerContext F A κ}
  {authorized : Bool} {maxTopK : Nat} {clocks : EventClocks} {io : WalIo} {request : Bytes}
  {route : HttpRoute} {body : Json} {cmd : Command} {op : Operation}

/-- The gates are passed. -/
def ServerContext.Open (sc : ServerContext F A κ) (authorized : Bool) : Prop :=
  authorized = true ∧ sc.loading = false ∧ sc.readOnly = false

theorem serveHttp_open (h : sc.Open authorized) :
    sc.serveHttp env authorized clocks io route (some body) =
      sc.routeHttp env clocks io route body := by
  obtain ⟨hauth, hload, hread⟩ := h
  simp [ServerContext.serveHttp, hauth, hload, hread]

theorem serveHttp_refused (h : ¬ sc.Open authorized) :
    (sc.serveHttp env authorized clocks io route (some body)).2.isOk = false := by
  unfold ServerContext.serveHttp
  cases authorized with
  | false => rfl
  | true =>
    rw [if_neg (by simp)]
    have hgate : sc.readOnly = true ∨ sc.loading = true := by
      by_contra hcon
      rw [not_or, Bool.not_eq_true, Bool.not_eq_true] at hcon
      exact h ⟨rfl, hcon.2, hcon.1⟩
    rw [if_pos hgate]
    rfl

/-- A request line that is read. -/
theorem serveTcp_write (sc : ServerContext F A κ) (authorized : Bool) (clocks : EventClocks)
    (io : WalIo)
    (hparse : parseCommand env.stof env.takesPart request maxTopK = .ok (.write cmd)) :
    ∃ tcp, sc.serveTcp env authorized maxTopK clocks io request = some tcp ∧
      (sc.Open authorized → tcp = answered (sc.dispatchWrite env.toServerEnv clocks io cmd)) ∧
      (¬ sc.Open authorized → tcp.2.isOk = false) := by
  unfold ServerContext.serveTcp
  rw [hparse]
  dsimp only
  by_cases hopen : sc.Open authorized
  · obtain ⟨hauth, hload, hread⟩ := hopen
    simp only [hauth, hload, hread, not_true_eq_false, Bool.false_eq_true, if_false]
    refine ⟨answered (sc.dispatchWrite env.toServerEnv clocks io cmd), ?_, fun _ => rfl,
      fun hcon => absurd ⟨rfl, hload, hread⟩ hcon⟩
    unfold answered
    cases sc.dispatchWrite env.toServerEnv clocks io cmd with
    | mk sc' r => cases r <;> rfl
  · have hrefuse : ∀ message, ∃ tcp : ServerContext F A κ × Except String String,
        some (sc, Except.error message) = some tcp ∧
          (sc.Open authorized → tcp = answered (sc.dispatchWrite env.toServerEnv clocks io cmd)) ∧
          (¬ sc.Open authorized → tcp.2.isOk = false) :=
      fun message => ⟨_, rfl, fun hcon => absurd hcon hopen, fun _ => rfl⟩
    split
    · exact hrefuse _
    · rename_i hauth
      split
      · exact hrefuse _
      · rename_i hload
        split
        · exact hrefuse _
        · rename_i hread
          exact absurd ⟨not_not.mp hauth, by simpa using hload, by simpa using hread⟩ hopen

/-- Where the handlers agree exactly if `P`, so do the servers if they let the request pass. -/
theorem agree_of_read {P : Prop} (authorized : Bool)
    (hparse : parseCommand env.stof env.takesPart request maxTopK = .ok (.write cmd))
    (h : sc.Open authorized → (Agree env.toPlatform sc
      (answered (sc.dispatchWrite env.toServerEnv clocks io cmd))
      (sc.routeHttp env clocks io route body) ↔ P)) :
    ∃ tcp, sc.serveTcp env authorized maxTopK clocks io request = some tcp ∧
      (Agree env.toPlatform sc tcp (sc.serveHttp env authorized clocks io route (some body)) ↔
        (sc.Open authorized → P)) := by
  obtain ⟨tcp, htcp, hyes, hno⟩ := serveTcp_write sc authorized clocks io hparse
  refine ⟨tcp, htcp, ?_⟩
  by_cases hopen : sc.Open authorized
  · rw [hyes hopen, serveHttp_open hopen, h hopen]
    exact ⟨fun hp _ => hp, fun hp => hp hopen⟩
  · exact ⟨fun _ hcon => absurd hcon hopen,
      fun _ => agree_of_refused (hno hopen) (serveHttp_refused hopen)⟩

/-- Where the dispatcher does not read it, they agree if the HTTP server refuses it. -/
theorem agree_of_unread {e : Error} {P : Prop} (authorized : Bool)
    (hparse : parseCommand env.stof env.takesPart request maxTopK = .error e)
    (h : (sc.routeHttp env clocks io route body).2.isOk = false ↔ P) :
    ∃ tcp, sc.serveTcp env authorized maxTopK clocks io request = some tcp ∧
      (Agree env.toPlatform sc tcp (sc.serveHttp env authorized clocks io route (some body)) ↔
        (sc.Open authorized → P)) := by
  refine ⟨(sc, .error e.message), ?_, ?_⟩
  · unfold ServerContext.serveTcp
    rw [hparse]
  · by_cases hopen : sc.Open authorized
    · rw [serveHttp_open hopen]
      refine ⟨fun hagree _ => h.mp hagree.alike.symm, fun hp => ?_⟩
      exact agree_of_refused rfl (h.mpr (hp hopen))
    · exact ⟨fun _ hcon => absurd hcon hopen,
        fun _ => agree_of_refused rfl (serveHttp_refused hopen)⟩

/-- The surfaces agree exactly where the operation is the same on both. -/
def AgreeWhereSame (env : SurfaceEnv κ) (sc : ServerContext F A κ) (authorized : Bool) (maxTopK : Nat)
    (clocks : EventClocks) (io : WalIo) (request : Bytes) (route : HttpRoute) (body : Json)
    (op : Operation) : Prop :=
  ∃ tcp, sc.serveTcp env authorized maxTopK clocks io request = some tcp ∧
    (Agree env.toPlatform sc tcp (sc.serveHttp env authorized clocks io route (some body)) ↔
      (sc.Open authorized →
        SameOnBoth env sc.toHandlerContext clocks io maxTopK request body op))

omit [FloatOps F] in
/-- An event with a score out of range is not valid. -/
theorem not_eventTaken_of_score {ctx : HandlerContext F} {ctxId id : Bytes} {type : EventType}
    {score : Int} {timestamp : Option Int} (h : ¬ ScoreInRange type score) :
    ¬ EventTaken ctx clocks io (eventBody ctxId id type score timestamp).command := by
  intro htaken
  refine h fun hdel => ?_
  have hscored : (eventBody ctxId id type score timestamp).command.score = score := if_neg hdel
  have hbounds := (validateEvent_ok htaken.1).2.2 hdel
  rw [hscored] at hbounds
  exact hbounds

theorem event_case {arguments : List Bytes}
    (hparse : parseCommand env.stof env.takesPart request maxTopK =
      (parseEvent arguments).map .write)
    (htcp : eventOperation arguments = some op) (hhttp : HttpDenotes env.strtod route body op) :
    AgreeWhereSame env sc authorized maxTopK clocks io request route body op := by
  obtain ⟨ctx, id, type, score, timestamp, rfl⟩ := eventOperation_event htcp
  obtain rfl : route = .event := hhttp.route_eq
  obtain ⟨_, _, _, _, _, hop, hreach, -, hok, herr⟩ := parseEventBody_reads hhttp
  cases hop
  obtain ⟨hread, hrefuse⟩ := parseEvent_reads htcp hreach
  by_cases hscore : ScoreInRange type score
  · obtain ⟨cmd, hcmd, hreads⟩ := hread hscore
    rw [hcmd] at hparse
    refine agree_of_read authorized hparse fun _ => ?_
    have hdispatch : sc.dispatchWrite env.toServerEnv clocks io cmd =
        sc.dispatchEvent env.toServerEnv clocks io cmd := by
      simp only [ServerContext.dispatchWrite, hreads.isEvent]
    have hfollows := dispatchEvent_follows env sc clocks io cmd
    have hsame : handleEvent env.toPlatform sc.toHandlerContext clocks io cmd =
        handleEvent env.toPlatform sc.toHandlerContext clocks io
          (eventBody ctx id type score timestamp).command :=
      handleEvent_command hreads.isEvent hreads.sameCtx hreads.sameId hreads.sameType
        hreads.sameScore hreads.sameTime
    rw [hdispatch]
    by_cases hsigned : SignedTimestamp body
    · obtain ⟨e, he⟩ := herr fun hcon => hcon.2 hsigned
      have hroute : sc.routeHttp env clocks io .event body = (sc, .error e) := by
        simp only [ServerContext.routeHttp, he]
      obtain ⟨-, hsnd⟩ := answered_fst (sc.dispatchEvent env.toServerEnv clocks io cmd)
      rw [hfollows.2.1, hsame] at hsnd
      rw [hroute]
      constructor
      · intro h
        refine .inr fun htaken => ?_
        have halike := h.alike
        rw [hsnd, handleEvent_isOk.2 htaken] at halike
        cases halike
      · rintro (hcon | hno)
        · exact absurd hsigned hcon
        · refine agree_of_refused ?_ rfl
          rw [hsnd, Bool.eq_false_iff]
          exact fun hyes => hno (handleEvent_isOk.1 hyes)
    · refine ⟨fun _ => .inl hsigned, fun _ => ?_⟩
      have hroute : sc.routeHttp env clocks io .event body =
          sc.httpEvent env clocks io (eventBody ctx id type score timestamp) := by
        simp only [ServerContext.routeHttp, hok ⟨hscore, hsigned⟩]
      rw [hroute]
      refine agree_of_alike hfollows (httpEvent_follows env sc clocks io _) ?_
      rw [hsame]
      exact httpHandleEvent_alike _ hscore
  · obtain ⟨e, he⟩ := hrefuse hscore
    rw [he] at hparse
    obtain ⟨e', he'⟩ := herr fun hcon => hscore hcon.1
    have hroute : sc.routeHttp env clocks io .event body = (sc, .error e') := by
      simp only [ServerContext.routeHttp, he']
    refine agree_of_unread authorized hparse ?_
    rw [hroute]
    exact ⟨fun _ => .inr (not_eventTaken_of_score hscore), fun _ => rfl⟩

/-- **What the HTTP server does to a vector**: it handles it as the dispatcher would the same
    floats, or it refuses it. -/
theorem httpVecset_cases (sc : ServerContext F A κ) (clocks : EventClocks) (io : WalIo) {id : Bytes}
    {components : List Bytes} (hne : components ≠ [])
    (hhttp : HttpDenotes env.strtod .vecset body (.vecset id components)) :
    (∃ v, components.mapM (httpFloat env.strtod env.toFloat) = some v ∧
      Follows (sc.routeHttp env clocks io .vecset body)
        (handleVecset env.toPlatform sc.toHandlerContext io (vectorCommand id v)) (sc.moved 1 0)) ∨
    (sc.routeHttp env clocks io .vecset body).2.isOk = false ∧
      ¬ VectorTaken env.toPlatform sc.toHandlerContext io id
        (components.mapM (httpFloat env.strtod env.toFloat)) := by
  have hbody := parseVecsetBody_reads env.toFloat hne hhttp
    sc.stores.vectorStore.dimension
  cases hfloats : components.mapM (httpFloat env.strtod env.toFloat) with
  | none =>
    rw [hfloats] at hbody
    obtain ⟨e, he⟩ := hbody
    refine .inr ⟨by simp only [ServerContext.routeHttp, he]; rfl, ?_⟩
    intro ⟨v, hv, _⟩
    cases hv
  | some v =>
    rw [hfloats] at hbody
    obtain ⟨hv, hok | ⟨hdim, e, he⟩⟩ := hbody
    · refine .inl ⟨v, rfl, ?_⟩
      have hroute : sc.routeHttp env clocks io .vecset body = sc.httpVecset env io ⟨id, v, none⟩ := by
        simp only [ServerContext.routeHttp, hok]
      have hfollows : Follows (sc.httpVecset env io ⟨id, v, none⟩)
          (httpHandleVecset env.toPlatform sc.toHandlerContext io id v none) (sc.moved 1 0) :=
        httpVecset_follows env sc io rfl
      have halike : Alike (handleVecset env.toPlatform sc.toHandlerContext io (vectorCommand id v))
          (httpHandleVecset env.toPlatform sc.toHandlerContext io id v none) :=
        httpHandleVecset_alike rfl rfl rfl rfl hv
      obtain ⟨hctx, hisOk, hgen⟩ := hfollows
      rw [hroute]
      exact ⟨hctx.trans halike.1.symm, hisOk.trans halike.2.symm, hgen⟩
    · refine .inr ⟨by simp only [ServerContext.routeHttp, he]; rfl, ?_⟩
      intro ⟨v', hv', hvalid, _⟩
      cases hv'
      obtain ⟨e', he'⟩ := validateVector_dimension env.l2Norm id hdim
      cases hvalid.symm.trans he'

/-- Different vectors leave different stores. -/
theorem setVector_inj {store : VectorStore} {l2Norm : List UInt32 → UInt32} {id : Bytes}
    {v v' : List UInt32} (hinv : store.Inv) (hv : store.validateVector l2Norm id v = .ok ())
    (hv' : store.validateVector l2Norm id v' = .ok ())
    (h : (store.setVector l2Norm id v).1 = (store.setVector l2Norm id v').1) : v = v' := by
  have hget := hinv.getVector_setVector hv id
  rw [h, hinv.getVector_setVector hv' id, if_pos rfl, if_pos rfl] at hget
  exact (Option.some.inj hget).symm

theorem vecset_case {arguments : List Bytes} (hinv : sc.stores.vectorStore.Inv)
    (hparse : parseCommand env.stof env.takesPart request maxTopK =
      (parseVecset env.stof env.takesPart arguments).map .write)
    (htcp : vecsetOperation arguments = some op) (hhttp : HttpDenotes env.strtod route body op) :
    AgreeWhereSame env sc authorized maxTopK clocks io request route body op := by
  obtain ⟨id, components, rfl, hne, hread⟩ := parseVecset_reads env.stof env.takesPart htcp
  obtain rfl : route = .vecset := hhttp.route_eq
  have hcases := httpVecset_cases sc clocks io hne hhttp
  cases hfloats : components.mapM env.stof with
  | none =>
    -- the dispatcher does not read it
    rw [hfloats] at hread
    obtain ⟨e, he⟩ := hread
    rw [he] at hparse
    refine agree_of_unread authorized hparse ?_
    simp only [SameOnBoth, hfloats]
    have hnone : ¬ VectorTaken env.toPlatform sc.toHandlerContext io id none :=
      fun ⟨v, hv, _⟩ => by cases hv
    rcases hcases with ⟨v, hv, hfollows⟩ | ⟨hrefused, hno⟩
    · rw [hv, hfollows.2.1]
      rcases handleVecset_cases env.toPlatform sc.toHandlerContext io id v with ⟨htaken, hok, -⟩ | ⟨hno, hfails⟩
      · rw [hok]
        refine ⟨fun h => (by cases h), ?_⟩
        rintro (hcon | ⟨-, hcon⟩)
        · cases hcon
        · exact absurd htaken hcon
      · exact ⟨fun _ => .inr ⟨hnone, hno⟩, fun _ => hfails⟩
    · exact ⟨fun _ => .inr ⟨hnone, hno⟩, fun _ => hrefused⟩
  | some v =>
    rw [hfloats] at hread
    have hread' : parseVecset env.stof env.takesPart arguments = .ok (vectorCommand id v) := hread
    rw [hread'] at hparse
    refine agree_of_read authorized hparse fun _ => ?_
    have hdispatch : sc.dispatchWrite env.toServerEnv clocks io (vectorCommand id v) =
        sc.dispatchVecset env.toServerEnv io (vectorCommand id v) := rfl
    have hfollows : Follows (sc.dispatchVecset env.toServerEnv io (vectorCommand id v)) _ _ :=
      dispatchVecset_follows env sc io rfl
    obtain ⟨hfst, hsnd⟩ := answered_fst (sc.dispatchVecset env.toServerEnv io (vectorCommand id v))
    have hstore := handleVecset_cases env.toPlatform sc.toHandlerContext io id v
    rw [hdispatch]
    simp only [SameOnBoth, hfloats]
    rcases hcases with ⟨v', hv', hfollows'⟩ | ⟨hrefused, hno⟩
    · rw [hv']
      have hstore' := handleVecset_cases env.toPlatform sc.toHandlerContext io id v'
      by_cases hsame : v = v'
      · subst hsame
        exact ⟨fun _ => .inl rfl, fun _ => agree_of_alike hfollows hfollows' ⟨rfl, rfl⟩⟩
      rw [hfollows.2.1] at hsnd
      rcases hstore with ⟨htaken, hok, hset⟩ | ⟨hno, hfails⟩
      · refine ⟨fun h => ?_, ?_⟩
        · -- both are taken, with different floats
          have hok' := h.alike
          rw [hsnd, hok, hfollows'.2.1] at hok'
          rcases hstore' with ⟨htaken', -, hset'⟩ | ⟨-, hfails'⟩
          · have hstores := (h.stores (hsnd.trans hok)).vectors
            rw [hfst, hfollows.1, hfollows'.1, hset, hset'] at hstores
            obtain ⟨_, heq, hvalid, -⟩ := htaken
            cases heq
            obtain ⟨_, heq, hvalid', -⟩ := htaken'
            cases heq
            exact absurd (setVector_inj hinv hvalid hvalid' hstores) hsame
          · rw [hfails'] at hok'
            cases hok'
        · rintro (hcon | ⟨hcon, -⟩)
          · exact absurd (Option.some.inj hcon) hsame
          · exact absurd htaken hcon
      · rcases hstore' with ⟨htaken', hok', -⟩ | ⟨hno', hfails'⟩
        · refine ⟨fun h => ?_, ?_⟩
          · have halike := h.alike
            rw [hsnd, hfails, hfollows'.2.1, hok'] at halike
            cases halike
          · rintro (hcon | ⟨-, hcon⟩)
            · exact absurd (Option.some.inj hcon) hsame
            · exact absurd htaken' hcon
        · exact ⟨fun _ => .inr ⟨hno, hno'⟩,
            fun _ => agree_of_refused (hsnd.trans hfails) (hfollows'.2.1.trans hfails')⟩
    · rw [hfollows.2.1] at hsnd
      rcases hstore with ⟨htaken, hok, -⟩ | ⟨hno', hfails⟩
      · refine ⟨fun h => ?_, ?_⟩
        · have halike := h.alike
          rw [hsnd, hok, hrefused] at halike
          cases halike
        · rintro (hcon | ⟨hcon, -⟩)
          · rw [← hcon] at hno
            exact absurd htaken hno
          · exact absurd htaken hcon
      · exact ⟨fun _ => .inr ⟨hno', hno⟩, fun _ => agree_of_refused (hsnd.trans hfails) hrefused⟩

theorem vecdel_case {arguments : List Bytes}
    (hparse : parseCommand env.stof env.takesPart request maxTopK =
      (parseVecdel arguments).map .write)
    (hwords : ∀ word ∈ arguments, word ≠ [])
    (htcp : vecdelOperation arguments = some op) (hhttp : HttpDenotes env.strtod route body op) :
    AgreeWhereSame env sc authorized maxTopK clocks io request route body op := by
  match arguments with
  | [] => cases htcp
  | [id] =>
    cases htcp
    obtain rfl : route = .vecdel := hhttp.route_eq
    refine agree_of_read authorized hparse fun _ => ⟨fun _ => trivial, fun _ => ?_⟩
    obtain ⟨_, hid, hop⟩ := Option.map_eq_some_iff.mp hhttp
    cases hop
    have hroute : sc.routeHttp env clocks io .vecdel body = sc.httpVecdel env io id := by
      simp only [ServerContext.routeHttp, parseVecdelBody, stringMember, jsonString_some hid,
        Json.string?]
    rw [hroute]
    exact agree_of_alike (dispatchVecdel_follows env sc io _) (httpVecdel_follows env sc io id)
      (httpHandleVecdel_alike rfl rfl (hwords id List.mem_cons_self))
  | _ :: _ :: _ => cases htcp

theorem metaset_case {arguments : List Bytes}
    (hparse : parseCommand env.stof env.takesPart request maxTopK =
      (parseMetaset arguments).map .write)
    (hwords : ∀ word ∈ arguments, 0 ∉ word)
    (htcp : metasetOperation env.strtod arguments = some op)
    (hhttp : HttpDenotes env.strtod route body op) :
    AgreeWhereSame env sc authorized maxTopK clocks io request route body op := by
  match arguments with
  | [] => cases htcp
  | [_] => cases htcp
  | [id, expr] =>
    obtain ⟨fields, hfields, rfl⟩ := Option.map_eq_some_iff.mp htcp
    obtain rfl : route = .metaset := hhttp.route_eq
    refine agree_of_read authorized hparse fun _ => ?_
    obtain ⟨_, _, m', hop, hbody, hfind'⟩ := parseMetasetBody_reads hhttp
    cases hop
    obtain ⟨m, hm, hfind⟩ := parseMetadata_text id hfields (hwords expr (by simp))
    have hroute : sc.routeHttp env clocks io .metaset body = sc.httpMetaset env io id m' := by
      simp only [ServerContext.routeHttp, hbody]
    have hplain : SameMetadata m m' ↔ PlainFields (lastOf fields) := by
      rw [sameMetadata_iff hfind hfind']
      exact ⟨fun h k n hn => h k _ hn n rfl, fun h k v hv n hn => h k n (hn ▸ hv)⟩
    rw [hroute]
    refine (metaset_agrees io hm).trans ?_
    rw [hplain]
    simp only [SameOnBoth, hparse, hbody]
    constructor
    · rintro (hnone | h)
      · exact .inl hnone
      · refine .inr fun cmd m'' hcmd hm'' => ?_
        cases hcmd
        cases hm''
        exact h
    · rintro (hnone | h)
      · exact .inl hnone
      · exact .inr (h _ m' rfl rfl)
  | _ :: _ :: _ :: _ => cases htcp

end Requests

/-! ## 7. Two events -/

/-- Floats are not read here. -/
def exampleSurface : SurfaceEnv Nat where
  toServerEnv := exampleEnv
  stof := fun _ => none
  takesPart := fun _ => false
  toFloat := fun _ => 0

/-- The body of `EVENT u ADD i 5`, at a time. -/
def addedEvent (timestamp : Json) : Json :=
  .object [(ascii "ctx", .string (ascii "u")), (ascii "id", .string (ascii "i")),
    (ascii "type", .string (ascii "add")), (ascii "score", .unsigned 5),
    (ascii "timestamp", timestamp)]

end Nvecd.Server
