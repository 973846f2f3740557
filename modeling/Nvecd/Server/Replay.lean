/-
  File:      Nvecd/Server/Replay.lean
  Subject:   Replaying the log of a run into fresh stores.

  The live server logs the events its caches let through; a replay asks its own caches about
  them again. Those caches have seen the logged events only, at the clocks of the replay, so what
  they hold is a function of the log (`replayDrops`), while the live caches also remember
  duplicates and arrival times. Where the log alone speaks against an event, the replay drops
  it without a word.

  * `loggedEvent` -- the event in a record; `replayDrops` -- what the log says about an event;
  * `CachesFollow` -- the caches of a replay are what the log makes of them;
  * `liveStep` -- the machine of accepted writes; `ReplaysTo` -- the log leads to the same view;
  * `replay_reproduces` -- it does after every run none of whose events the replay would drop.
-/
import Nvecd.Lib.Machine
import Nvecd.Server.Effects

namespace Nvecd.Server

open Nvecd.Lib Nvecd.Utils Nvecd.Storage Nvecd.Events Nvecd.Vectors

/-! ## 1. What the log says about an event -/

/-- The event a record asks for. -/
def loggedEvent (record : WalRecord) : Option (Bytes × Event) :=
  if record.op = WalOpType.kEventAdd.toByte ∨ record.op = WalOpType.kEventDel.toByte then
    match decodeWalRecord record with
    | .error _ => none
    | .ok cmd => some (cmd.ctx, ⟨cmd.id, cmd.score, cmd.timestamp.getD 0, cmd.eventType⟩)
  else none

/-- The history of the time-window cache; logs have the newest record first. -/
def adds (log : List WalRecord) : List (EventKey × UInt64) :=
  (log.filterMap loggedEvent).filterMap fun e => addEntry e.1 e.2

/-- The history of the state cache. -/
def states (log : List WalRecord) : List (StateKey × Int) :=
  (log.filterMap loggedEvent).filterMap fun e => stateEntry e.1 e.2

/-- **Whether a replay behind this log may drop the event**: an `ADD` whose key is still held with
    a time stamp not more than the window before it, a `SET` or `DEL` of a state still held. -/
def replayDrops (cfg : EventsConfig) (log : List WalRecord) (ctxId : Bytes) (ev : Event) : Bool :=
  match ev.type with
  | .ADD =>
    decide (0 < cfg.dedupWindowSec) &&
      (LruCache.held cfg.dedupCacheSize (adds log) ⟨ctxId, ev.itemId, ev.score⟩).any fun ts =>
        decide (ev.timestamp.toNat ≤ ts.toNat + cfg.dedupWindowSec)
  | .SET =>
    decide (LruCache.held cfg.dedupCacheSize (states log) ⟨ctxId, ev.itemId⟩ = some ev.score)
  | .DEL =>
    decide (LruCache.held cfg.dedupCacheSize (states log) ⟨ctxId, ev.itemId⟩ = some kDeletedScore)
  | .unnamed .. => false

/-! ## 2. The caches of a replay -/

/-- The time-window cache is what the log makes of it, up to the arrival times. -/
structure DedupFollows (cfg : EventsConfig) (log : List WalRecord) (d : DedupCache) : Prop where
  size : d.maxSize = cfg.dedupCacheSize ∧ 0 < d.maxSize
  window : d.windowSec = cfg.dedupWindowSec ∧ 0 < d.windowSec
  lru : ∃ h, d.lru = .storeAll d.maxSize h ∧ h.map (fun e => (e.1, e.2.timestamp)) = adds log

structure StateFollows (cfg : EventsConfig) (log : List WalRecord) (t : StateCache) : Prop where
  size : t.maxSize = cfg.dedupCacheSize ∧ 0 < t.maxSize
  lru : t.lru = .storeAll t.maxSize (states log)

/-- **The caches of a replay behind `log`.** -/
structure CachesFollow (cfg : EventsConfig) (log : List WalRecord) (c : EventCaches) : Prop where
  dedup : ∀ d, c.dedupCache = some d → DedupFollows cfg log d
  state : ∀ t, c.stateCache = some t → StateFollows cfg log t

section Caches

variable {cfg : EventsConfig} {log : List WalRecord} {c : EventCaches} {record : WalRecord}
  {ctxId : Bytes} {ev : Event}

theorem cachesFollow_new (cfg : EventsConfig) : CachesFollow cfg [] (.new cfg) := by
  constructor
  · intro d hd
    simp only [EventCaches.new, Option.ite_none_right_eq_some, Option.some.injEq] at hd
    obtain ⟨⟨hw, hn⟩, rfl⟩ := hd
    exact ⟨⟨rfl, hn⟩, ⟨rfl, hw⟩, [], rfl, rfl⟩
  · intro t ht
    simp only [EventCaches.new, Option.ite_none_right_eq_some, Option.some.injEq] at ht
    obtain ⟨hn, rfl⟩ := ht
    exact ⟨⟨rfl, hn⟩, rfl⟩

/-- The answer of the time-window cache, up to the arrival time. -/
theorem DedupFollows.find? {d : DedupCache} (h : DedupFollows cfg log d) (key : EventKey) :
    (d.lru.find? key).map CacheEntry.timestamp =
      LruCache.held cfg.dedupCacheSize (adds log) key := by
  obtain ⟨hist, hlru, hmap⟩ := h.lru
  rw [hlru, LruCache.find?_storeAll h.size.2, ← hmap, LruCache.held_map, h.size.1]

theorem StateFollows.find? {t : StateCache} (h : StateFollows cfg log t) (key : StateKey) :
    t.lru.find? key = LruCache.held cfg.dedupCacheSize (states log) key := by
  rw [h.lru, LruCache.find?_storeAll h.size.2, h.size.1]

theorem StateFollows.wouldRepeat {t : StateCache} (h : StateFollows cfg log t) {key : StateKey}
    {score : Int}
    (hne : LruCache.held cfg.dedupCacheSize (states log) key ≠ some score) :
    t.wouldRepeat key score = false := by
  unfold StateCache.wouldRepeat
  split
  · rfl
  · rename_i last hf
    rw [h.find?] at hf
    exact decide_eq_false fun he => hne (he ▸ hf)

/-- An event the log does not speak against is new to the replay, at any time. -/
theorem CachesFollow.not_wouldDeduplicate (h : CachesFollow cfg log c)
    (hkeep : replayDrops cfg log ctxId ev = false) (now : Nat) :
    c.wouldDeduplicate ctxId ev.itemId ev.score ev.type ev.timestamp now = false := by
  unfold replayDrops at hkeep
  unfold EventCaches.wouldDeduplicate
  cases htype : ev.type with
  | ADD =>
    rw [htype] at hkeep
    simp only at hkeep ⊢
    rw [Option.any_eq_false]
    intro d hd
    have hf := h.dedup d hd
    simp only [← hf.window.1, hf.window.2, decide_true, Bool.true_and, ← hf.find?] at hkeep
    apply DedupCache.not_wouldDeduplicate_of_after
    intro entry hentry
    rw [hentry] at hkeep
    simpa using hkeep
  | SET =>
    rw [htype] at hkeep
    simp only [decide_eq_false_iff_not] at hkeep ⊢
    rw [Option.any_eq_false]
    intro t ht
    exact (h.state t ht).wouldRepeat hkeep
  | DEL =>
    rw [htype] at hkeep
    simp only [decide_eq_false_iff_not] at hkeep ⊢
    rw [Option.any_eq_false]
    intro t ht
    exact (h.state t ht).wouldRepeat hkeep
  | unnamed raw hraw => rfl

/-- The histories with one more record. -/
theorem adds_cons (hrec : loggedEvent record = some (ctxId, ev)) :
    adds (record :: log) = (addEntry ctxId ev).toList ++ adds log := by
  rw [adds, List.filterMap_cons_some hrec, List.filterMap_cons]
  cases addEntry ctxId ev <;> rfl

theorem states_cons (hrec : loggedEvent record = some (ctxId, ev)) :
    states (record :: log) = (stateEntry ctxId ev).toList ++ states log := by
  rw [states, List.filterMap_cons_some hrec, List.filterMap_cons]
  cases stateEntry ctxId ev <;> rfl

theorem DedupFollows.other {d : DedupCache} (h : DedupFollows cfg log d)
    (hadds : adds (record :: log) = adds log) : DedupFollows cfg (record :: log) d :=
  ⟨h.size, h.window, hadds ▸ h.lru⟩

theorem StateFollows.other {t : StateCache} (h : StateFollows cfg log t)
    (hstates : states (record :: log) = states log) : StateFollows cfg (record :: log) t :=
  ⟨h.size, hstates ▸ h.lru⟩

theorem DedupFollows.insert {d : DedupCache} (h : DedupFollows cfg log d) {key : EventKey}
    {timestamp : UInt64} {now : Nat} (hnew : d.wouldDeduplicate key timestamp now = false)
    (hadds : adds (record :: log) = (key, timestamp) :: adds log) :
    DedupFollows cfg (record :: log) (d.checkAndInsert key timestamp now).1 := by
  rw [DedupCache.checkAndInsert_miss (Nat.ne_of_gt h.window.2) hnew]
  obtain ⟨hist, hlru, hmap⟩ := h.lru
  refine ⟨h.size, h.window, (key, ⟨timestamp, now⟩) :: hist, ?_, ?_⟩
  · simp only [LruCache.storeAll, hlru]
  · rw [hadds, List.map_cons, hmap]

theorem StateFollows.store {t : StateCache} (h : StateFollows cfg log t) {key : StateKey}
    {score : Int} (hnew : t.wouldRepeat key score = false)
    (hstates : states (record :: log) = (key, score) :: states log) :
    StateFollows cfg (record :: log) (t.checkAndStore key score).1 := by
  rw [StateCache.checkAndStore_miss hnew]
  refine ⟨h.size, ?_⟩
  rw [hstates]
  simp only [LruCache.storeAll, h.lru]

/-- **One more event**: what it leaves in the caches is what its record adds to the histories. -/
theorem CachesFollow.deduplicate (h : CachesFollow cfg log c)
    (hrec : loggedEvent record = some (ctxId, ev))
    (hkeep : replayDrops cfg log ctxId ev = false) (now : Nat) :
    CachesFollow cfg (record :: log)
      (c.deduplicate ctxId ev.itemId ev.score ev.type ev.timestamp now).1 := by
  have hnew := h.not_wouldDeduplicate hkeep now
  have hadds := @adds_cons log record ctxId ev hrec
  have hstates := @states_cons log record ctxId ev hrec
  unfold EventCaches.wouldDeduplicate at hnew
  unfold EventCaches.deduplicate
  unfold addEntry at hadds
  unfold stateEntry at hstates
  cases htype : ev.type with
  | ADD =>
    rw [htype] at hnew hadds hstates
    have hstate : ∀ t, c.stateCache = some t → StateFollows cfg (record :: log) t :=
      fun t ht => (h.state t ht).other hstates
    cases hd : c.dedupCache with
    | none => exact ⟨fun d hd' => by simp [hd] at hd', hstate⟩
    | some d =>
      refine ⟨fun d' hd' => ?_, hstate⟩
      cases hd'
      rw [hd] at hnew
      exact (h.dedup d hd).insert hnew hadds
  | SET =>
    rw [htype] at hnew hadds hstates
    have hdedup : ∀ d, c.dedupCache = some d → DedupFollows cfg (record :: log) d :=
      fun d hd => (h.dedup d hd).other hadds
    cases ht : c.stateCache with
    | none => exact ⟨hdedup, fun t ht' => by simp [ht] at ht'⟩
    | some t =>
      refine ⟨hdedup, fun t' ht' => ?_⟩
      cases ht'
      rw [ht] at hnew
      exact (h.state t ht).store hnew hstates
  | DEL =>
    rw [htype] at hnew hadds hstates
    have hdedup : ∀ d, c.dedupCache = some d → DedupFollows cfg (record :: log) d :=
      fun d hd => (h.dedup d hd).other hadds
    cases ht : c.stateCache with
    | none => exact ⟨hdedup, fun t ht' => by simp [ht] at ht'⟩
    | some t =>
      refine ⟨hdedup, fun t' ht' => ?_⟩
      cases ht'
      rw [ht] at hnew
      exact (h.state t ht).store hnew hstates
  | unnamed raw hraw =>
    rw [htype] at hadds hstates
    exact ⟨fun d hd => (h.dedup d hd).other hadds, fun t ht => (h.state t ht).other hstates⟩

/-- A record without an event leaves the caches as the log makes them. -/
theorem CachesFollow.other (h : CachesFollow cfg log c) (hrec : loggedEvent record = none) :
    CachesFollow cfg (record :: log) c := by
  have hadds : adds (record :: log) = adds log := by
    rw [adds, List.filterMap_cons_none hrec]
    rfl
  have hstates : states (record :: log) = states log := by
    rw [states, List.filterMap_cons_none hrec]
    rfl
  exact ⟨fun d hd => (h.dedup d hd).other hadds, fun t ht => (h.state t ht).other hstates⟩

end Caches

section Records

variable {env : Platform} {cfg : Config}

/-- The event of a record that was written for one. -/
theorem loggedEvent_event {cmd : Command} {ctxId : Bytes} {ev : Event} {logged : UInt64}
    {sequence timestampUs : Nat} {F : Type} {v : View F}
    (hcmd : (Effect.event ctxId ev logged).IsCommand env cmd)
    (hfit : fitsRecord (encodeCommand cmd))
    (hen : (Effect.event ctxId ev logged).Enabled env v) :
    loggedEvent (recordOf sequence timestampUs cmd) =
      some (ctxId, { ev with timestamp := logged }) := by
  obtain ⟨htype, rfl, hid, hsc, hty, hts⟩ := hcmd
  have hbounds := hen.score_bounds
  rw [← hsc] at hbounds
  have hlen := (fitsRecord_lt hfit).1
  have hdec := @decode_event cmd sequence timestampUs htype (by omega) hbounds.1 hbounds.2
  have hop : (recordOf sequence timestampUs cmd).op = WalOpType.kEventAdd.toByte ∨
      (recordOf sequence timestampUs cmd).op = WalOpType.kEventDel.toByte := by
    simp only [recordOf, walOpForCommand, htype]
    split
    · exact .inr rfl
    · exact .inl rfl
  unfold loggedEvent
  rw [if_pos hop, hdec]
  simp only [hid, hsc, hty, hts, Option.getD_some]

/-- The record of another effect holds no event. -/
theorem loggedEvent_other {e : Effect} {op : WalOpType} {payload : Bytes}
    {sequence timestampUs : Nat} (hlog : e.LoggedAs env cfg.events op payload)
    (hev : ∀ ctxId ev ts, e ≠ .event ctxId ev ts) :
    loggedEvent ⟨sequence, timestampUs, op.toByte, payload⟩ = none := by
  have hop : op ≠ .kEventAdd ∧ op ≠ .kEventDel := by
    cases e with
    | duplicate =>
      obtain ⟨cmd, hcmd, -⟩ := hlog
      exact hcmd.elim
    | event ctxId ev ts => exact absurd rfl (hev ctxId ev ts)
    | vecset id vector metadata =>
      obtain ⟨cmd, ⟨htype, -⟩, rfl, -⟩ := hlog
      simp [walOpForCommand, htype]
    | vecdel id =>
      obtain ⟨cmd, ⟨htype, -⟩, rfl, -⟩ := hlog
      simp [walOpForCommand, htype]
    | metaset id m =>
      obtain ⟨cmd, ⟨htype, -⟩, rfl, -⟩ := hlog
      simp [walOpForCommand, htype]
    | decay prune =>
      obtain ⟨rfl, -⟩ := hlog
      simp
  unfold loggedEvent
  rw [if_neg]
  cases op <;> simp_all [WalOpType.toByte]

end Records

/-! ## 3. The live run and its replay -/

section Condition

variable {F : Type} {ctx : HandlerContext F}

/-- The records of the log, the newest first. -/
def HandlerContext.log (ctx : HandlerContext F) : List WalRecord :=
  match ctx.wal with
  | none => []
  | some w => w.acked

/-- **The condition on a write**: an event has a time stamp (the clock may read zero) and is not
    one the replay may drop; maintenance has a factor other than zero. -/
def replayOk (ctx : HandlerContext F) (write : Write) : Bool :=
  ((newEvent ctx write).all fun e =>
    e.2.timestamp != 0 && !replayDrops ctx.config.events ctx.log e.1 e.2) &&
  (!write.isDecay || !isZeroDouble ctx.config.events.decayAlpha)

theorem replayOk_event {write : Write} (h : replayOk ctx write = true) {ctxId : Bytes} {ev : Event}
    (hnew : newEvent ctx write = some (ctxId, ev)) :
    ev.timestamp ≠ 0 ∧ replayDrops ctx.config.events ctx.log ctxId ev = false := by
  rw [replayOk, hnew, Bool.and_eq_true] at h
  simpa using h.1

theorem replayOk_decay {write : Write} (h : replayOk ctx write = true)
    (hdecay : write.isDecay = true) : isZeroDouble ctx.config.events.decayAlpha = false := by
  rw [replayOk, Bool.and_eq_true, hdecay] at h
  simpa using h.2

end Condition

section Runs

variable {F : Type} [FloatOps F] (env : Platform)

/-- The machine of accepted writes. -/
def liveStep (ctx : HandlerContext F) (write : Write) : Option (HandlerContext F) :=
  match perform env ctx write with
  | (ctx, true) => some ctx
  | (_, false) => none

/-- The server with empty stores and this log. -/
def HandlerContext.start (cfg : Config) (w : WalRun) : HandlerContext F :=
  { config := cfg, stores := .new cfg, wal := some w }

/-- The server that replays: empty stores, and no log to append to. -/
def HandlerContext.fresh (cfg : Config) : HandlerContext F := { config := cfg, stores := .new cfg }

/-- **The log leads to a view**: at any clocks its records are accepted from fresh stores on, and
    the stores they leave look like that. -/
def LeadsTo (cfg : Config) (acked : List WalRecord) (v : View F) : Prop :=
  ∀ records : List (EventClocks × WalRecord), records.map Prod.snd = acked.reverse →
    ∃ r : HandlerContext F, run (replayStep env) (.fresh cfg) records = some r ∧
      Replayed (.fresh cfg) r ∧ r.stores.view = v ∧
      CachesFollow cfg.events acked r.stores.eventStore.caches

/-- The log of the server leads to its view. -/
structure ReplaysTo (cfg : Config) (ctx : HandlerContext F) : Prop where
  config : ctx.config = cfg
  eventsConfig : ctx.stores.eventStore.config = cfg.events
  log : ∃ w, ctx.wal = some w ∧ LeadsTo env cfg w.acked ctx.stores.view

theorem replaysTo_start {cfg : Config} {w : WalRun} (hw : w.acked = []) :
    ReplaysTo (F := F) env cfg (.start cfg w) := by
  refine ⟨rfl, rfl, w, rfl, fun records hrec => ?_⟩
  rw [hw, List.reverse_nil, List.map_eq_nil_iff] at hrec
  subst hrec
  exact ⟨_, rfl, ⟨rfl, rfl, rfl⟩, rfl, hw ▸ cachesFollow_new cfg.events⟩

variable {env} {ctx ctx' : HandlerContext F} {cfg : Config}

theorem liveStep_eq_some {write : Write} (h : liveStep env ctx write = some ctx') :
    perform env ctx write = (ctx', true) := by
  unfold liveStep at h
  split at h
  · rename_i hp
    cases h
    exact hp
  · cases h

theorem replayStep_eq_some {clocks : EventClocks} {record : WalRecord}
    (h : replayRecord env ctx clocks record = (ctx', .ok ())) :
    replayStep env ctx (clocks, record) = some ctx' := by
  simp only [replayStep, h]

/-- A replay of one more record. -/
theorem replays_snoc {records : List (EventClocks × WalRecord)} {acked : List WalRecord}
    {record : WalRecord} (h : records.map Prod.snd = (record :: acked).reverse) :
    ∃ older clocks, records = older ++ [(clocks, record)] ∧
      older.map Prod.snd = acked.reverse := by
  rw [List.reverse_cons, List.map_eq_append_iff] at h
  obtain ⟨older, last, rfl, hold, hlast⟩ := h
  obtain ⟨x, rfl, rfl⟩ := List.map_eq_singleton_iff.mp hlast
  exact ⟨older, x.1, rfl, hold⟩

/-- One more event the log does not speak against. -/
theorem LeadsTo.event {acked : List WalRecord} {v : View F} (h : LeadsTo env cfg acked v)
    {ctxId : Bytes} {ev : Event} {cmd : Command} {sequence timestampUs : Nat}
    (hcmd : (Effect.event ctxId ev ev.timestamp).IsCommand env cmd)
    (hfit : fitsRecord (encodeCommand cmd))
    (hen : (Effect.event ctxId ev ev.timestamp).Enabled env v) (hnz : ev.timestamp ≠ 0)
    (hkeep : replayDrops cfg.events acked ctxId ev = false) :
    LeadsTo env cfg (recordOf sequence timestampUs cmd :: acked)
      ((Effect.event ctxId ev ev.timestamp).apply env cfg.events v) := by
  intro records hrec
  obtain ⟨older, clocks, rfl, hold⟩ := replays_snoc hrec
  obtain ⟨r, hrun, hrep, rfl, hcaches⟩ := h older hold
  have hnew := hcaches.not_wouldDeduplicate hkeep
  have hagree : readingsAgree r.stores.eventStore.caches clocks cmd := by
    obtain ⟨-, rfl, hid, hsc, hty, hts⟩ := hcmd
    have hres : ∀ clock, resolveTimestamp ev.timestamp clock = ev.timestamp :=
      fun clock => if_pos hnz
    unfold readingsAgree
    simp only [hid, hsc, hty, hts, Option.getD_some, hres, hnew]
  obtain ⟨r', hstep, hrep', -, -, heffect⟩ := replay_event hrep.wal
    (hrep.eventsConfig.trans (congrArg Config.events hrep.config).symm) hcmd hfit hen hagree
  obtain ⟨hview, hcaches'⟩ := heffect hnz (hnew _)
  refine ⟨r', run_snoc.2 ⟨r, hrun, replayStep_eq_some hstep⟩, hrep.trans hrep', ?_, ?_⟩
  · rw [hview, hrep.config]
    rfl
  · rw [hcaches']
    exact hcaches.deduplicate (loggedEvent_event hcmd hfit hen) hkeep _

/-- One more record of another effect. -/
theorem LeadsTo.other {acked : List WalRecord} {v : View F} (h : LeadsTo env cfg acked v)
    {e : Effect} {op : WalOpType} {payload : Bytes} {sequence timestampUs : Nat}
    (hlog : e.LoggedAs env cfg.events op payload) (hfit : fitsRecord payload)
    (hen : e.Enabled env v) (hev : ∀ ctxId ev ts, e ≠ .event ctxId ev ts)
    (halpha : ∀ prune, e = .decay prune → isZeroDouble cfg.events.decayAlpha = false) :
    LeadsTo env cfg (⟨sequence, timestampUs, op.toByte, payload⟩ :: acked)
      (e.apply env cfg.events v) := by
  intro records hrec
  obtain ⟨older, clocks, rfl, hold⟩ := replays_snoc hrec
  obtain ⟨r, hrun, hrep, rfl, hcaches⟩ := h older hold
  have hcfg : r.config = cfg := hrep.config
  obtain ⟨r', hstep, hrep', hview, hstore⟩ := replay_other hrep.wal (hcfg ▸ hlog) hfit hen hev
    (hcfg ▸ halpha)
  refine ⟨r', run_snoc.2 ⟨r, hrun, replayStep_eq_some hstep⟩, hrep.trans hrep', ?_, ?_⟩
  · rw [hview, hcfg]
  · rw [hstore]
    exact hcaches.other (loggedEvent_other hlog hev)

/-- **One accepted write.** -/
theorem ReplaysTo.step (h : ReplaysTo env cfg ctx) (hinc : cfg.includeVectors = true)
    {write : Write} (hok : replayOk ctx write = true) (hs : liveStep env ctx write = some ctx') :
    ReplaysTo env cfg ctx' := by
  obtain ⟨rfl, hecfg, w, hw, hlead⟩ := h
  obtain ⟨e, w', hacc, hw', hlogs, hfrom⟩ := perform_accepted hw hecfg (liveStep_eq_some hs)
  refine ⟨hacc.config, hacc.eventsConfig.trans hecfg, w', hw', ?_⟩
  rw [hacc.view]
  -- with vectors in the log, every effect but a duplicate has its record
  have hother : Logs env ctx.config w w' (some e) → (∀ ctxId ev ts, e ≠ .event ctxId ev ts) →
      (∀ prune, e = .decay prune → isZeroDouble ctx.config.events.decayAlpha = false) →
      LeadsTo env ctx.config w'.acked (e.apply env ctx.config.events ctx.stores.view) := by
    rintro ⟨op, payload, hlog, sequence, timestampUs, hack, hfit⟩ hne halpha
    rw [hack]
    exact hlead.other hlog hfit hacc.enabled hne halpha
  cases e with
  | duplicate =>
    obtain rfl : w' = w := hlogs
    exact hlead
  | event ctxId ev logged =>
    obtain ⟨hnz, hkeep⟩ := replayOk_event hok hfrom
    obtain rfl : logged = ev.timestamp := hacc.enabled.2.2 hnz
    obtain ⟨op, payload, ⟨cmd, hcmd, rfl, rfl⟩, sequence, timestampUs, hack, hfit⟩ := hlogs
    have hlogged : ctx.log = w.acked := by
      rw [HandlerContext.log, hw]
    rw [hack]
    exact hlead.event hcmd hfit hacc.enabled hnz (hlogged ▸ hkeep)
  | vecset id vector metadata =>
    rw [Effect.logged, if_pos hinc] at hlogs
    exact hother hlogs nofun nofun
  | vecdel id => exact hother hlogs nofun nofun
  | metaset id m => exact hother hlogs nofun nofun
  | decay prune => exact hother hlogs nofun fun _ _ => replayOk_decay hok hfrom

/-- **Replay reproduces the live state.** -/
theorem replay_reproduces {w : WalRun} {writes : List Write}
    (hinc : cfg.includeVectors = true) (hw : w.acked = [])
    (hrun : run (liveStep env) (.start cfg w) writes = some ctx)
    (hmeets : Meets (liveStep env) (fun (s : HandlerContext F) write => replayOk s write = true)
      (.start cfg w) writes)
    {records : List (EventClocks × WalRecord)} (hrec : records.map Prod.snd = ctx.log.reverse) :
    ∃ r : HandlerContext F, run (replayStep env) (.fresh cfg) records = some r ∧
      r.stores.view = ctx.stores.view := by
  have hinv : ReplaysTo env cfg ctx := run_inv_of_meets
    (fun s a s' h hok hs => h.step hinc hok hs) (replaysTo_start env hw) hmeets hrun
  obtain ⟨w', hw', hlead⟩ := hinv.log
  rw [HandlerContext.log, hw'] at hrec
  obtain ⟨r, hr, -, hview, -⟩ := hlead records hrec
  exact ⟨r, hr, hview⟩

end Runs

/-! ## 4. A run on each side of the condition -/

/-- The platform of the runs below: their vectors have one entry, which is positive, and they
    parse no number. -/
def examplePlatform : Platform := ⟨crc32, fun vector => vector.headD 0, fun _ => none⟩

/-- The defaults of `config/config.h`. -/
def defaultConfig : Config where
  events :=
    { ctxBufferSize := 50
      decayAlpha := 0x3FEFAE147AE147AE
      dedupWindowSec := 60
      dedupCacheSize := 10000
      ctxBufferSize_pos := by decide
      decayAlpha_finite := by decide
      decayAlpha_nonneg := by decide
      decayAlpha_le_one := by decide }

/-- A log that was just opened. -/
def openedWal : WalRun := (WalRun.initial defaultWalConfig).open crc32 defaultWalConfig {}

/-- Both clocks of a call at one reading, the steady clock in seconds. -/
def clocksAt (seconds : Nat) : EventClocks :=
  ⟨⟨1000, seconds * 1000000000⟩, ⟨1000, seconds * 1000000000⟩⟩

/-- `EVENT c ADD i 5` with a time stamp. -/
def addAt (seconds : Nat) (timestamp : UInt64) : Write :=
  .command (clocksAt seconds) {}
    { type := .kEvent, ctx := [99], id := [105], score := 5, timestamp := some timestamp }

def itemAt (timestamp : UInt64) : Event := ⟨[105], 5, timestamp, .ADD⟩

/-- What a query sees of the context. -/
def eventsOf (ctx : HandlerContext Int) : List Event := ctx.stores.eventStore.getEvents [99]

/-- The log of a server, each record at the same clocks. -/
def recordsAt (seconds : Nat) (ctx : HandlerContext Int) : List (EventClocks × WalRecord) :=
  ctx.log.reverse.map fun record => (clocksAt seconds, record)

theorem map_snd_recordsAt (seconds : Nat) (ctx : HandlerContext Int) :
    (recordsAt seconds ctx).map Prod.snd = ctx.log.reverse := by
  rw [recordsAt, List.map_map]
  exact List.map_id _

/-- **A late event is dropped by the replay**: its time stamp goes back, but it arrived when the
    window of the first one was over; the replay sees both arrive at once. -/
theorem replay_drops_late_event :
    ∃ ctx records r, run (liveStep examplePlatform) (.start defaultConfig openedWal)
        [addAt 0 1000, addAt 61 100] = some ctx ∧
      records.map Prod.snd = ctx.log.reverse ∧
      run (replayStep examplePlatform) (.fresh defaultConfig) records = some r ∧
      eventsOf ctx = [itemAt 1000, itemAt 100] ∧ eventsOf r = [itemAt 1000] ∧
      r.stores.view ≠ ctx.stores.view := by
  have hboth : (run (liveStep examplePlatform) (.start defaultConfig openedWal)
      [addAt 0 1000, addAt 61 100]).map (fun ctx => (eventsOf ctx,
        (run (replayStep examplePlatform) (.fresh defaultConfig) (recordsAt 100 ctx)).map
          eventsOf)) = some ([itemAt 1000, itemAt 100], some [itemAt 1000]) := by
    decide +kernel
  obtain ⟨ctx, hctx, he⟩ := Option.map_eq_some_iff.mp hboth
  rw [Prod.mk.injEq] at he
  obtain ⟨hlive, hreplay⟩ := he
  obtain ⟨r, hr, hevents⟩ := Option.map_eq_some_iff.mp hreplay
  refine ⟨ctx, _, r, hctx, map_snd_recordsAt 100 ctx, hr, hlive, hevents, fun hview => ?_⟩
  have hsame : eventsOf r = eventsOf ctx := by
    have hcontexts : r.stores.eventStore.contexts = ctx.stores.eventStore.contexts :=
      congrArg View.contexts hview
    simp only [eventsOf, EventStore.getEvents, hcontexts]
  rw [hlive, hevents] at hsame
  revert hsame
  decide

/-- An event, its duplicate, and a later one. -/
def laterEvents : List Write := [addAt 0 1000, addAt 1 1000, addAt 61 2000]

/-- `laterEvents` meets the condition; two of the three are logged. -/
theorem replay_reproduces_laterEvents :
    ∃ ctx : HandlerContext Int,
      run (liveStep examplePlatform) (.start defaultConfig openedWal) laterEvents = some ctx ∧
      eventsOf ctx = [itemAt 1000, itemAt 2000] ∧ ctx.log.length = 2 ∧
      ∀ records : List (EventClocks × WalRecord), records.map Prod.snd = ctx.log.reverse →
        ∃ r : HandlerContext Int,
          run (replayStep examplePlatform) (.fresh defaultConfig) records = some r ∧
            r.stores.view = ctx.stores.view := by
  have hlive : (run (liveStep examplePlatform) (.start defaultConfig openedWal) laterEvents).map
      (fun ctx => (eventsOf ctx, ctx.log.length)) =
        some ([itemAt 1000, itemAt 2000], 2) := by
    decide +kernel
  have hok : Meets (liveStep examplePlatform)
      (fun (s : HandlerContext Int) write => replayOk s write = true)
      (.start defaultConfig openedWal) laterEvents := by
    decide +kernel
  obtain ⟨ctx, hctx, he⟩ := Option.map_eq_some_iff.mp hlive
  rw [Prod.mk.injEq] at he
  exact ⟨ctx, hctx, he.1, he.2, fun records hrec =>
    replay_reproduces rfl (by decide +kernel) hctx hok hrec⟩

end Nvecd.Server
