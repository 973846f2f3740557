/-
  File:      Nvecd/Server/LogReplays.lean
  Subject:   Whether `ReplayRecord` accepts every record the server has logged.

  A write is accepted against the live stores; its record is accepted against stores that are
  rebuilt from the snapshot and the records before it. With the vectors in the log the two vector
  stores are the same. Without them the replay knows only the vectors of the snapshot, less those
  whose deletion was logged, and rejects a `VECDEL` or `METASET` of any other; then the server
  does not start.

  * `deletions`, `vectorReplayed` -- the vectors a replay knows;
  * `logOk` -- the condition on a write; `readingsOk` -- that on the clocks of a replayed event;
  * `Tracks` -- how the vector store of the replay follows the live one;
  * `log_replays` -- under the conditions every record is accepted at its position.
-/
import Nvecd.Server.Replay

namespace Nvecd.Server

open Nvecd.Lib Nvecd.Utils Nvecd.Storage Nvecd.Events Nvecd.Vectors

/-! ## 1. The conditions -/

/-- The id whose vector a record deletes. -/
def loggedDelete (record : WalRecord) : Option Bytes :=
  if record.op = WalOpType.kVecDel.toByte then
    match decodeWalRecord record with
    | .error _ => none
    | .ok cmd => some cmd.id
  else none

def deletions (log : List WalRecord) : List Bytes := log.filterMap loggedDelete

/-- Without vectors in the log: those of the snapshot that were not deleted since. -/
def vectorReplayed (base : VectorStore) (log : List WalRecord) (id : Bytes) : Bool :=
  decide (id ∈ base.ids) && decide (id ∉ deletions log)

section Conditions

variable {F : Type}

/-- **The condition on a write**: the replay knows the vector its record asks for, and
    maintenance has a factor other than zero. -/
def logOk (base : VectorStore) (ctx : HandlerContext F) (write : Write) : Bool :=
  (ctx.config.includeVectors || write.vectorId.all (vectorReplayed base ctx.log)) &&
    (!write.isDecay || !isZeroDouble ctx.config.events.decayAlpha)

/-- **The condition on a replayed event**: no window ends between the two looks at the caches. -/
def readingsOk (r : HandlerContext F) (record : EventClocks × WalRecord) : Bool :=
  match decodeWalRecord record.2 with
  | .error _ => true
  | .ok cmd => decide (cmd.type = .kEvent →
      readingsAgree r.stores.eventStore.caches record.1 cmd)

variable {base : VectorStore} {ctx : HandlerContext F} {write : Write}

theorem logOk_decay (h : logOk base ctx write = true) (hdecay : write.isDecay = true) :
    isZeroDouble ctx.config.events.decayAlpha = false := by
  rw [logOk, Bool.and_eq_true, hdecay] at h
  simpa using h.2

theorem logOk_vectorId (h : logOk base ctx write = true) (hinc : ctx.config.includeVectors = false)
    {id : Bytes} (hid : write.vectorId = some id) : vectorReplayed base ctx.log id = true := by
  rw [logOk, Bool.and_eq_true, hinc, hid] at h
  simpa using h.1

/-- A replay of the log of a server starts from the vectors the server started from. -/
structure Restored (ctx r : HandlerContext F) : Prop where
  wal : r.wal = none
  config : r.config = ctx.config
  eventsConfig : r.stores.eventStore.config = ctx.config.events
  vectorStore : r.stores.vectorStore = ctx.stores.vectorStore

end Conditions

/-! ## 2. The vector store of a replay -/

/-- **How the replay's vectors follow the live ones.** -/
def Tracks (includeVectors : Bool) (base : VectorStore) (log : List WalRecord)
    (live replayed : VectorStore) : Prop :=
  match includeVectors with
  | true => replayed = live
  | false => replayed.Inv ∧ ∀ id, id ∈ replayed.ids ↔ vectorReplayed base log id = true

section Tracks

variable (env : Platform)

/-- The id whose vector the effect deletes. -/
def Effect.deletes : Effect → Option Bytes
  | .vecdel id => some id
  | _ => none

/-- What the effect does to the vectors. -/
def Effect.onVectors : Effect → VectorStore → VectorStore
  | .vecset id vector _, vs => (vs.setVector env.l2Norm id vector).1
  | .vecdel id, vs => (vs.deleteVector id).1.defragment
  | _, vs => vs

variable {env} {F : Type} {cfg : Config} {base : VectorStore} {log : List WalRecord}
  {live replayed : VectorStore} {e e' : Effect} {write : Write} {includeVectors : Bool}

/-- The deletion in a record. -/
theorem loggedDelete_eq {op : WalOpType} {payload : Bytes} {sequence timestampUs : Nat}
    (hlog : e.LoggedAs env cfg.events op payload) (hfit : fitsRecord payload) :
    loggedDelete ⟨sequence, timestampUs, op.toByte, payload⟩ = e.deletes := by
  have hother : op ≠ .kVecDel → loggedDelete ⟨sequence, timestampUs, op.toByte, payload⟩ = none := by
    intro hop
    refine if_neg fun hbyte => hop ?_
    cases op <;> simp_all [WalOpType.toByte]
  cases e with
  | vecdel id =>
    obtain ⟨cmd, ⟨htype, rfl⟩, rfl, rfl⟩ := hlog
    have hlen := (fitsRecord_lt hfit).1
    have hdec := @decode_vecdel cmd sequence timestampUs htype (by omega)
    have hop : walOpForCommand cmd = .kVecDel := by
      simp only [walOpForCommand, htype]
    unfold loggedDelete
    rw [if_pos (congrArg WalOpType.toByte hop)]
    unfold recordOf at hdec
    rw [hdec]
    rfl
  | duplicate =>
    obtain ⟨cmd, hcmd, -⟩ := hlog
    exact hcmd.elim
  | event ctxId ev ts =>
    obtain ⟨cmd, ⟨htype, -⟩, rfl, -⟩ := hlog
    refine hother ?_
    simp only [walOpForCommand, htype]
    split <;> decide
  | vecset id vector metadata =>
    obtain ⟨cmd, ⟨htype, -⟩, rfl, -⟩ := hlog
    exact hother (by simp [walOpForCommand, htype])
  | metaset id m =>
    obtain ⟨cmd, ⟨htype, -⟩, rfl, -⟩ := hlog
    exact hother (by simp [walOpForCommand, htype])
  | decay prune =>
    obtain ⟨rfl, -⟩ := hlog
    exact hother (by decide)

theorem vectorReplayed_cons {record : WalRecord} {id : Bytes} :
    vectorReplayed base (record :: log) id = true ↔
      loggedDelete record ≠ some id ∧ vectorReplayed base log id = true := by
  unfold vectorReplayed deletions
  cases hdel : loggedDelete record with
  | none => simp [List.filterMap_cons_none hdel]
  | some id' =>
    simp only [List.filterMap_cons_some hdel, List.mem_cons, not_or, Bool.and_eq_true,
      decide_eq_true_eq, ne_eq, Option.some.injEq, @eq_comm _ id' id]
    exact and_left_comm

theorem logged_eq_some (h : e.logged includeVectors write = some e') :
    (e' = e ∧ (includeVectors = false → ∀ id vector metadata, e ≠ .vecset id vector metadata)) ∨
      includeVectors = false ∧ write.isHttpVecset = true ∧
        ∃ id vector m, e = .vecset id vector (some m) ∧ e' = .metaset id m := by
  cases e with
  | duplicate => cases h
  | vecset id vector metadata =>
    cases hinc : includeVectors with
    | true =>
      rw [hinc, Effect.logged, if_pos rfl] at h
      cases h
      exact .inl ⟨rfl, fun hno => by cases hno⟩
    | false =>
      rw [hinc, Effect.logged, if_neg (by decide)] at h
      split at h
      · rename_i hhttp
        obtain ⟨m, rfl, rfl⟩ := Option.map_eq_some_iff.mp h
        exact .inr ⟨rfl, hhttp, id, vector, m, rfl, rfl⟩
      · cases h
  | event ctxId ev ts =>
    cases h
    exact .inl ⟨rfl, fun _ _ _ _ heq => by cases heq⟩
  | vecdel id =>
    cases h
    exact .inl ⟨rfl, fun _ _ _ _ heq => by cases heq⟩
  | metaset id m =>
    cases h
    exact .inl ⟨rfl, fun _ _ _ _ heq => by cases heq⟩
  | decay prune =>
    cases h
    exact .inl ⟨rfl, fun _ _ _ _ heq => by cases heq⟩

/-- What is not logged does not change what a replay knows. -/
theorem Tracks.skip (h : Tracks includeVectors base log live replayed)
    (hl : e.logged includeVectors write = none) :
    Tracks includeVectors base log (e.onVectors env live) replayed := by
  cases includeVectors with
  | false => exact h
  | true =>
    cases e with
    | duplicate => exact h
    | vecset id vector metadata => simp [Effect.logged] at hl
    | _ => cases hl

/-- What was accepted live and logged is accepted by the replay. -/
theorem Tracks.enabled {v v' : View F} {ctx : HandlerContext F}
    (h : Tracks includeVectors base log v.vectorStore v'.vectorStore) (hen : e.Enabled env v)
    (hl : e.logged includeVectors write = some e') (hfrom : e.From ctx write)
    (hok : includeVectors = false → ∀ id, write.vectorId = some id →
      vectorReplayed base log id = true) : e'.Enabled env v' := by
  cases includeVectors with
  | true =>
    have hsame : v'.vectorStore = v.vectorStore := h
    rcases logged_eq_some hl with ⟨rfl, -⟩ | ⟨hfalse, -⟩
    · unfold Effect.Enabled at hen ⊢
      rw [hsame]
      exact hen
    · cases hfalse
  | false =>
    have hknown : ∀ id, write.vectorId = some id → id ∈ v'.vectorStore.ids :=
      fun id hid => (h.2 id).mpr (hok rfl id hid)
    rcases logged_eq_some hl with ⟨rfl, hvec⟩ | ⟨-, hhttp, id, vector, m, rfl, rfl⟩
    · cases e' with
      | duplicate => trivial
      | event ctxId ev ts => exact hen
      | vecset id vector metadata => exact absurd rfl (hvec rfl id vector metadata)
      | vecdel id => exact hknown id hfrom
      | metaset id m => exact hknown id hfrom
      | decay prune => trivial
    · exact hknown id (hfrom hhttp rfl)

/-- **One more record.** -/
theorem Tracks.record {op : WalOpType} {payload : Bytes} {sequence timestampUs : Nat}
    (h : Tracks includeVectors base log live replayed)
    (hl : e.logged includeVectors write = some e')
    (hlog : e'.LoggedAs env cfg.events op payload) (hfit : fitsRecord payload) :
    Tracks includeVectors base (⟨sequence, timestampUs, op.toByte, payload⟩ :: log)
      (e.onVectors env live) (e'.onVectors env replayed) := by
  have hdel := @loggedDelete_eq env cfg e' op payload sequence timestampUs hlog hfit
  cases includeVectors with
  | true =>
    rcases logged_eq_some hl with ⟨rfl, -⟩ | ⟨hfalse, -⟩
    · exact congrArg _ h
    · cases hfalse
  | false =>
    obtain ⟨hinv, hids⟩ := h
    have hsame : e'.deletes = none →
        Tracks false base (⟨sequence, timestampUs, op.toByte, payload⟩ :: log)
          (e.onVectors env live) replayed := by
      intro hnone
      refine ⟨hinv, fun id => ?_⟩
      rw [hids, vectorReplayed_cons, hdel, hnone]
      simp
    cases e' with
    | vecset id vector metadata =>
      rcases logged_eq_some hl with ⟨rfl, hvec⟩ | ⟨-, -, _, _, _, -, hne⟩
      · exact absurd rfl (hvec rfl id vector metadata)
      · cases hne
    | vecdel id =>
      have hinv' : (replayed.deleteVector id).1.Inv := hinv.deleteVector
      refine ⟨hinv'.defragment, fun id' => ?_⟩
      show id' ∈ (replayed.deleteVector id).1.defragment.ids ↔ _
      rw [hinv'.mem_ids_defragment, hinv.mem_ids_deleteVector, hids, vectorReplayed_cons, hdel]
      simp only [Effect.deletes, ne_eq, Option.some.injEq, @eq_comm _ id id']
    | duplicate => exact hsame rfl
    | event ctxId ev ts => exact hsame rfl
    | metaset id m => exact hsame rfl
    | decay prune => exact hsame rfl

end Tracks

/-! ## 3. The log of a run -/

section Runs

variable {F : Type} [FloatOps F] {env : Platform} {cfg : Config} {ctx ctx' r₀ r : HandlerContext F}
  {base : VectorStore} {clocks : EventClocks} {sequence timestampUs : Nat}

theorem vectorStore_apply (e : Effect) (v : View F) :
    (e.apply env cfg.events v).vectorStore = e.onVectors env v.vectorStore := by
  cases e <;> rfl

/-- **The record of any effect** the replay can have is accepted. -/
theorem replay_accepts {e : Effect} {op : WalOpType} {payload : Bytes} (hwal : r.wal = none)
    (hcfg : r.stores.eventStore.config = r.config.events)
    (hlog : e.LoggedAs env r.config.events op payload) (hfit : fitsRecord payload)
    (hen : e.Enabled env r.stores.view)
    (halpha : ∀ prune, e = .decay prune → isZeroDouble r.config.events.decayAlpha = false)
    (hread : readingsOk r (clocks, ⟨sequence, timestampUs, op.toByte, payload⟩) = true) :
    ∃ r', replayStep env r (clocks, ⟨sequence, timestampUs, op.toByte, payload⟩) = some r' ∧
      Replayed r r' ∧ r'.stores.vectorStore = e.onVectors env r.stores.vectorStore := by
  have hother : (∀ ctxId ev ts, e ≠ .event ctxId ev ts) →
      ∃ r', replayStep env r (clocks, ⟨sequence, timestampUs, op.toByte, payload⟩) = some r' ∧
        Replayed r r' ∧ r'.stores.vectorStore = e.onVectors env r.stores.vectorStore := by
    intro hne
    obtain ⟨r', hrun, hrep, hview, -⟩ := replay_other hwal hlog hfit hen hne halpha
    refine ⟨r', replayStep_eq_some hrun, hrep, ?_⟩
    exact (congrArg View.vectorStore hview).trans (vectorStore_apply e _)
  cases e with
  | event ctxId ev logged =>
    obtain ⟨cmd, hcmd, rfl, rfl⟩ := hlog
    have hbounds := hen.score_bounds
    rw [← hcmd.2.2.2.1] at hbounds
    have hlen := (fitsRecord_lt hfit).1
    have hdec := @decode_event cmd sequence timestampUs hcmd.1 (by omega) hbounds.1 hbounds.2
    unfold recordOf at hdec
    rw [readingsOk, hdec] at hread
    obtain ⟨r', hrun, hrep, hvs, -⟩ := replay_event hwal hcfg hcmd hfit hen
      (of_decide_eq_true hread rfl)
    exact ⟨r', replayStep_eq_some hrun, hrep, hvs⟩
  | duplicate => exact hother nofun
  | vecset id vector metadata => exact hother nofun
  | vecdel id => exact hother nofun
  | metaset id m => exact hother nofun
  | decay prune => exact hother nofun

variable (env) in
/-- **The log is accepted**: at clocks that meet `readingsOk` a replay of it gets to its end, and
    its vectors follow the live ones. -/
structure Accepts (r₀ ctx : HandlerContext F) : Prop where
  config : ctx.config = r₀.config
  eventsConfig : ctx.stores.eventStore.config = r₀.config.events
  log : ∃ w, ctx.wal = some w ∧
    ∀ records : List (EventClocks × WalRecord), records.map Prod.snd = w.acked.reverse →
      Meets (replayStep env) (fun r record => readingsOk r record = true) r₀ records →
      ∃ r, run (replayStep env) r₀ records = some r ∧ Replayed r₀ r ∧
        Tracks ctx.config.includeVectors r₀.stores.vectorStore w.acked ctx.stores.vectorStore
          r.stores.vectorStore

theorem accepts_start {w : WalRun} (hrest : Restored ctx r₀) (hinv : ctx.stores.vectorStore.Inv)
    (hcfg : ctx.stores.eventStore.config = ctx.config.events) (hw : ctx.wal = some w)
    (hnew : w.acked = []) : Accepts env r₀ ctx := by
  refine ⟨hrest.config.symm, hrest.config ▸ hcfg, w, hw, fun records hrec _ => ?_⟩
  rw [hnew, List.reverse_nil, List.map_eq_nil_iff] at hrec
  subst hrec
  refine ⟨r₀, rfl, ⟨hrest.wal, rfl, rfl⟩, ?_⟩
  rw [hrest.vectorStore, hnew]
  cases ctx.config.includeVectors with
  | true => rfl
  | false => exact ⟨hinv, fun id => by simp [vectorReplayed, deletions]⟩

/-- **One accepted write.** -/
theorem Accepts.step (hr₀ : r₀.stores.eventStore.config = r₀.config.events) {write : Write}
    (h : Accepts env r₀ ctx) (hok : logOk r₀.stores.vectorStore ctx write = true)
    (hs : liveStep env ctx write = some ctx') : Accepts env r₀ ctx' := by
  obtain ⟨hcfg, hecfg, w, hw, hacc⟩ := h
  obtain ⟨e, w', hdone, hw', hlogs, hfrom⟩ := perform_accepted hw (hcfg ▸ hecfg)
    (liveStep_eq_some hs)
  have hlive : ctx'.stores.vectorStore = e.onVectors env ctx.stores.vectorStore :=
    (congrArg View.vectorStore hdone.view).trans (vectorStore_apply e _)
  refine ⟨hdone.config.trans hcfg, hdone.eventsConfig.trans hecfg, w', hw', ?_⟩
  rw [hdone.config, hlive]
  cases hl : e.logged ctx.config.includeVectors write with
  | none =>
    rw [hl] at hlogs
    obtain rfl : w' = w := hlogs
    intro records hrec hmeets
    obtain ⟨r, hrun, hrep, htr⟩ := hacc records hrec hmeets
    exact ⟨r, hrun, hrep, htr.skip hl⟩
  | some e' =>
    rw [hl] at hlogs
    obtain ⟨op, payload, hlog, sequence, timestampUs, hack, hfit⟩ := hlogs
    rw [hack]
    intro records hrec hmeets
    obtain ⟨older, clocks, rfl, hold⟩ := replays_snoc hrec
    have hmeets' : Meets (replayStep env) (fun r record => readingsOk r record = true) r₀ older :=
      hmeets.of_append
    obtain ⟨r, hrun, hrep, htr⟩ := hacc older hold hmeets'
    have hrcfg : r.config = ctx.config := hrep.config.trans hcfg.symm
    have hlogged : ctx.log = w.acked := by
      rw [HandlerContext.log, hw]
    have hen : e'.Enabled env r.stores.view :=
      htr.enabled hdone.enabled hl hfrom fun hinc id hid =>
        hlogged ▸ logOk_vectorId hok hinc hid
    have halpha : ∀ prune, e' = .decay prune →
        isZeroDouble ctx.config.events.decayAlpha = false := by
      rintro prune rfl
      rcases logged_eq_some hl with ⟨rfl, -⟩ | ⟨-, -, _, _, _, -, hne⟩
      · exact logOk_decay hok hfrom
      · cases hne
    obtain ⟨r', hstep, hrep', hvs⟩ := replay_accepts hrep.wal
      (hrep.eventsConfig.trans (hr₀.trans (congrArg Config.events hrep.config).symm))
      (hrcfg ▸ hlog) hfit hen (hrcfg ▸ halpha) ((meets_snoc hrun).mp hmeets).2
    refine ⟨r', run_snoc.2 ⟨r, hrun, hstep⟩, hrep.trans hrep', ?_⟩
    rw [hvs]
    exact htr.record hl hlog hfit

/-- **The server's own log replays.** -/
theorem log_replays {ctx₀ : HandlerContext F} {w : WalRun} {writes : List Write}
    (hrest : Restored ctx₀ r₀) (hinv : ctx₀.stores.vectorStore.Inv)
    (hcfg : ctx₀.stores.eventStore.config = ctx₀.config.events) (hw : ctx₀.wal = some w)
    (hnew : w.acked = []) (hrun : run (liveStep env) ctx₀ writes = some ctx)
    (hmeets : Meets (liveStep env)
      (fun s write => logOk r₀.stores.vectorStore s write = true) ctx₀ writes)
    {records : List (EventClocks × WalRecord)} (hrec : records.map Prod.snd = ctx.log.reverse)
    (hread : Meets (replayStep env) (fun r record => readingsOk r record = true) r₀ records) :
    ∃ r, run (replayStep env) r₀ records = some r := by
  have hr₀ : r₀.stores.eventStore.config = r₀.config.events :=
    hrest.eventsConfig.trans (congrArg Config.events hrest.config).symm
  have hacc : Accepts env r₀ ctx := run_inv_of_meets (fun s a s' h hok hs => h.step hr₀ hok hs)
    (accepts_start hrest hinv hcfg hw hnew) hmeets hrun
  obtain ⟨w', hw', hlog⟩ := hacc.log
  rw [HandlerContext.log, hw'] at hrec
  obtain ⟨r, hr, -⟩ := hlog records hrec hread
  exact ⟨r, hr⟩

end Runs

/-! ## 4. A run on each side of the condition -/

/-- The defaults, but without vectors in the log. -/
def withoutVectors : Config := { defaultConfig with includeVectors := false }

/-- `VECSET` of a vector whose one entry is 1. -/
def vecsetOf (id : Bytes) : Write :=
  .command (clocksAt 0) {} { type := .kVecset, id := id, dimension := 1, vector := [0x3F800000] }

def vecdelOf (id : Bytes) : Write := .command (clocksAt 0) {} { type := .kVecdel, id := id }

def metasetOf (id : Bytes) : Write := .httpMetaset {} id (AssocMap.empty.insert [107] (.bool true))

/-- **The server does not start any more**: it has acknowledged a vector and its deletion, and
    only the deletion is in the log. -/
theorem vecdel_not_replayed :
    ∃ ctx : HandlerContext Int, run (liveStep examplePlatform) (.start withoutVectors openedWal)
        [vecsetOf [97], vecdelOf [97]] = some ctx ∧
      ∃ record, ctx.log = [record] ∧
        Restored (.start withoutVectors openedWal) (HandlerContext.fresh (F := Int) withoutVectors) ∧
        (∀ clocks, (replayRecord examplePlatform (HandlerContext.fresh (F := Int) withoutVectors)
          clocks record).2 = .error (vectorNotFound [97])) := by
  have hlive : (run (liveStep examplePlatform) (HandlerContext.start (F := Int) withoutVectors
      openedWal) [vecsetOf [97], vecdelOf [97]]).map HandlerContext.log =
        some [⟨1, 0, WalOpType.kVecDel.toByte, [1, 0, 0, 0, 97]⟩] := by
    decide +kernel
  obtain ⟨ctx, hctx, hlog⟩ := Option.map_eq_some_iff.mp hlive
  exact ⟨ctx, hctx, _, hlog, ⟨rfl, rfl, rfl, rfl⟩, fun clocks => rfl⟩

/-- A server restored from a snapshot with one vector. -/
def restoredServer : HandlerContext Int :=
  let stores : Stores Int := .new withoutVectors
  { config := withoutVectors
    stores := { stores with
      vectorStore := (stores.vectorStore.setVector examplePlatform.l2Norm [97] [0x3F800000]).1 } }

/-- The same server, live with an empty log. -/
def liveServer : HandlerContext Int := { restoredServer with wal := some openedWal }

/-- A vector that is not logged, metadata for the one of the snapshot, its deletion, an event. -/
def snapshotVectorRun : List Write :=
  [vecsetOf [98], metasetOf [97], vecdelOf [97], addAt 1 1000]

/-- `snapshotVectorRun` meets the condition; three of the four are logged. -/
theorem log_replays_snapshotVectorRun :
    ∃ ctx r : HandlerContext Int,
      run (liveStep examplePlatform) liveServer snapshotVectorRun = some ctx ∧
      ctx.log.length = 3 ∧
      run (replayStep examplePlatform) restoredServer (recordsAt 100 ctx) = some r := by
  have hlive : (run (liveStep examplePlatform) liveServer snapshotVectorRun).map (fun ctx => (ctx.log.length,
        decide (Meets (replayStep examplePlatform) (fun r record => readingsOk r record = true)
          restoredServer (recordsAt 100 ctx)))) = some (3, true) := by
    decide +kernel
  have hok : Meets (liveStep examplePlatform)
      (fun s write => logOk restoredServer.stores.vectorStore s write = true)
      liveServer snapshotVectorRun := by
    decide +kernel
  have hrest : Restored liveServer restoredServer := ⟨rfl, rfl, rfl, rfl⟩
  have hinv : liveServer.stores.vectorStore.Inv := VectorStore.Inv.empty.setVector
  have hnew : openedWal.acked = [] := by
    decide +kernel
  obtain ⟨ctx, hctx, he⟩ := Option.map_eq_some_iff.mp hlive
  rw [Prod.mk.injEq, decide_eq_true_eq] at he
  obtain ⟨r, hr⟩ := log_replays hrest hinv rfl rfl hnew hctx hok
    (map_snd_recordsAt 100 ctx) he.2
  exact ⟨ctx, r, hctx, he.1, hr⟩

end Nvecd.Server
