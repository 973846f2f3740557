/-
  File:      Nvecd/Server/EventPreview.lean
  Subject:   The preview of an event and its commit, `HandleEvent` of
             `server/request_dispatcher.cpp`.

  The handler asks `PrepareEvent` whether the event is valid and whether it is a duplicate, logs
  it, and hands what was resolved to `AddEventAndGetPrior`. The write gate keeps the store as it
  is between the two, but not the clock: an `ADD` whose time stamp goes back beyond the window is
  a duplicate only as long as the arrival window of its key is open, and each call reads the
  steady clock itself.

  * `PreviewAgrees`, `NoDivergence` -- the commit does what the preview said, and the handler leaves
    through none of its branches for a divergence;
  * `ArrivalWindowCloses` -- the window closes between the two readings;
  * `preview_agrees_with_commit` -- they agree exactly when it does not;
  * `window_closes_during_acceptance` -- a store where it does, and the server stops writing.
-/
import Nvecd.Server.Dispatcher

namespace Nvecd.Events

open Nvecd.Lib Nvecd.Storage Nvecd.Utils

/-! ## 1. The caches at two times -/

section Window

variable {d : DedupCache} {c : EventCaches} {ctx id : Bytes} {score : Int} {type : EventType}
  {timestamp : UInt64} {now later : Nat}

/-- An entry with the given time stamp is one that only the arrival window still covers, and
    that window closes between the two times. -/
def DedupCache.Closes (d : DedupCache) (key : EventKey) (timestamp : UInt64) (now later : Nat) :
    Prop :=
  d.windowSec ≠ 0 ∧ ∃ entry, d.lru.find? key = some entry ∧
    timestamp.toNat + d.windowSec < entry.timestamp.toNat ∧
    now ≤ entry.lastSeenAt + d.windowNs ∧ entry.lastSeenAt + d.windowNs < later

/-- **The arrival window closes**: an `ADD` goes back beyond the window, and the window of its
    arrival ends between the two times. -/
def ArrivalWindowCloses (c : EventCaches) (ctx id : Bytes) (score : Int) (type : EventType)
    (timestamp : UInt64) (now later : Nat) : Prop :=
  type = .ADD ∧ ∃ d, c.dedupCache = some d ∧ d.Closes ⟨ctx, id, score⟩ timestamp now later

/-- By event time alone an entry is in the window or out of it, at any time. -/
theorem DedupCache.isWithinWindow_eq_true {entry : CacheEntry} :
    d.isWithinWindow entry timestamp now = true ↔
      (timestamp.toNat ≤ entry.timestamp.toNat + d.windowSec ∧
          entry.timestamp.toNat ≤ timestamp.toNat + d.windowSec) ∨
        timestamp.toNat < entry.timestamp.toNat ∧ now ≤ entry.lastSeenAt + d.windowNs := by
  unfold isWithinWindow
  simp only [UInt64.le_iff_toNat_le, UInt64.lt_iff_toNat_lt]
  split
  · split
    · rename_i hle hin
      exact ⟨fun _ => .inl ⟨by omega, by omega⟩, fun _ => rfl⟩
    · rename_i hle hout
      simp only [Bool.and_eq_true, decide_eq_true_eq]
      constructor
      · exact .inr
      · rintro (h | h)
        · omega
        · exact h
  · split
    · rename_i hle hin
      exact ⟨fun _ => .inl ⟨by omega, by omega⟩, fun _ => rfl⟩
    · rename_i hle hout
      simp only [Bool.and_eq_true, decide_eq_true_eq]
      constructor
      · exact .inr
      · rintro (h | h)
        · omega
        · exact h

theorem DedupCache.wouldDeduplicate_eq_true {key : EventKey} :
    d.wouldDeduplicate key timestamp now = true ↔
      d.windowSec ≠ 0 ∧ ∃ entry, d.lru.find? key = some entry ∧
        d.isWithinWindow entry timestamp now = true := by
  unfold wouldDeduplicate
  split
  · rename_i hw
    simp [hw]
  · rename_i hw
    cases hf : d.lru.find? key with
    | none => simp
    | some entry => simp [hw]

/-- **One cache at two times**: the answers differ only if the arrival window closes. -/
theorem DedupCache.wouldDeduplicate_later {key : EventKey} (hle : now ≤ later) :
    d.wouldDeduplicate key timestamp later = d.wouldDeduplicate key timestamp now ↔
      ¬ d.Closes key timestamp now later := by
  constructor
  · rintro h ⟨hw, entry, hf, hback, hopen, hclosed⟩
    have hnow : d.wouldDeduplicate key timestamp now = true :=
      wouldDeduplicate_eq_true.2
        ⟨hw, entry, hf, isWithinWindow_eq_true.2 (.inr ⟨by omega, hopen⟩)⟩
    obtain ⟨-, entry', hf', hin⟩ := wouldDeduplicate_eq_true.1 (h.trans hnow)
    obtain rfl : entry = entry' := Option.some.inj (hf.symm.trans hf')
    have := isWithinWindow_eq_true.1 hin
    omega
  · intro h
    cases hnow : d.wouldDeduplicate key timestamp now with
    | false => exact not_wouldDeduplicate_later hle hnow
    | true =>
      obtain ⟨hw, entry, hf, hin⟩ := wouldDeduplicate_eq_true.1 hnow
      refine wouldDeduplicate_eq_true.2 ⟨hw, entry, hf, isWithinWindow_eq_true.2 ?_⟩
      rcases isWithinWindow_eq_true.1 hin with hevent | ⟨hback, hopen⟩
      · exact .inl hevent
      · by_contra hout
        push Not at hout
        exact h ⟨hw, entry, hf, by omega, hopen, by omega⟩

/-- **The caches at two times**: `SET` and `DEL` ask no clock. -/
theorem EventCaches.wouldDeduplicate_later (hle : now ≤ later) :
    c.wouldDeduplicate ctx id score type timestamp later =
        c.wouldDeduplicate ctx id score type timestamp now ↔
      ¬ ArrivalWindowCloses c ctx id score type timestamp now later := by
  unfold ArrivalWindowCloses
  cases type with
  | ADD =>
    unfold wouldDeduplicate
    cases hd : c.dedupCache with
    | none => simp
    | some d => simpa using DedupCache.wouldDeduplicate_later hle
  | SET => simp [wouldDeduplicate]
  | DEL => simp [wouldDeduplicate]
  | unnamed raw h => simp [wouldDeduplicate]

/-- The caches are asked for the score as it is stored. -/
theorem EventCaches.wouldDeduplicate_storedScore :
    c.wouldDeduplicate ctx id (storedScore score type) type timestamp now =
      c.wouldDeduplicate ctx id score type timestamp now := by
  cases type <;> rfl

end Window

/-! ## 2. Preview and commit -/

section Preview

variable {s : EventStore} {prepare apply : Clock} {ctx id : Bytes} {score : Int}
  {type : EventType} {timestamp : UInt64}

/-- The checks look at no score of a `DEL`. -/
theorem validateEvent_storedScore :
    validateEvent ctx id (storedScore score type) type = validateEvent ctx id score type := by
  cases type <;> simp [validateEvent, storedScore]

/-- **The commit does what the preview said**: it fails if the preview failed, and otherwise, with
    the score, the type and the time stamp that were resolved, it takes the event for a duplicate
    if the preview did, and stores the event the preview returned if it did not. -/
def PreviewAgrees (s : EventStore) (prepare apply : Clock) (ctx id : Bytes) (score : Int)
    (type : EventType) (timestamp : UInt64) : Prop :=
  match s.prepareEvent prepare ctx id score type timestamp with
  | .error e => (s.addEventAndGetPrior apply ctx id score type timestamp).2 = .error e
  | .ok prepared =>
    ∃ s' r, s.addEventAndGetPrior apply ctx id prepared.event.score prepared.event.type
        prepared.event.timestamp = (s', .ok r) ∧
      r.deduped = prepared.deduped ∧
      (prepared.deduped = true → s'.contexts = s.contexts) ∧
      (prepared.deduped = false → r.storedEvent = prepared.event ∧
        s'.contexts = (s.contexts.pushEvent s.config ctx prepared.event).1)

/-- **The condition**: the arrival window of the event does not close between the two readings.
    A system clock that reads zero resolves a missing time stamp to a missing one; then the event
    has to be a duplicate at both. -/
def SettledAcross (s : EventStore) (prepare apply : Clock) (ctx id : Bytes) (score : Int)
    (type : EventType) (timestamp : UInt64) : Prop :=
  validateEvent ctx id score type = .ok () →
    if resolveTimestamp timestamp prepare = 0 ∧ apply.systemNow ≠ 0 then
      s.caches.wouldDeduplicate ctx id score type 0 prepare.steadyNow = true ∧
        s.caches.wouldDeduplicate ctx id score type apply.systemNow apply.steadyNow = true
    else
      ¬ ArrivalWindowCloses s.caches ctx id score type (resolveTimestamp timestamp prepare)
        prepare.steadyNow apply.steadyNow

/-- The score of a `DEL` makes no difference to the commit. -/
theorem addEventAndGetPrior_storedScore :
    s.addEventAndGetPrior apply ctx id (storedScore score type) type timestamp =
      s.addEventAndGetPrior apply ctx id score type timestamp := by
  unfold EventStore.addEventAndGetPrior
  rw [validateEvent_storedScore, storedScore_storedScore]
  cases type <;> rfl

theorem prepareEvent_valid (h : validateEvent ctx id score type = .ok ()) :
    s.prepareEvent prepare ctx id score type timestamp =
      .ok ⟨s.caches.wouldDeduplicate ctx id score type (resolveTimestamp timestamp prepare)
          prepare.steadyNow,
        ⟨id, storedScore score type, resolveTimestamp timestamp prepare, type⟩⟩ := by
  simp [EventStore.prepareEvent, h]

/-- Agreement, in terms of the two questions to the caches. -/
theorem previewAgrees_iff (h : validateEvent ctx id score type = .ok ()) :
    PreviewAgrees s prepare apply ctx id score type timestamp ↔
      (let resolved := resolveTimestamp timestamp prepare
       let again := resolveTimestamp resolved apply
       let duplicate := s.caches.wouldDeduplicate ctx id score type resolved prepare.steadyNow
       s.caches.wouldDeduplicate ctx id score type again apply.steadyNow = duplicate ∧
        (duplicate = false → again = resolved)) := by
  have hv : validateEvent ctx id (storedScore score type) type = .ok () :=
    validateEvent_storedScore.trans h
  unfold PreviewAgrees
  rw [prepareEvent_valid h]
  dsimp only
  generalize resolveTimestamp timestamp prepare = resolved
  cases happly : s.caches.wouldDeduplicate ctx id score type (resolveTimestamp resolved apply)
      apply.steadyNow with
  | true =>
    rw [EventStore.addEventAndGetPrior_duplicate hv
      (EventCaches.wouldDeduplicate_storedScore.trans happly)]
    constructor
    · rintro ⟨s', r, hadd, hdup, -, -⟩
      cases hadd
      exact ⟨hdup, fun hnew => absurd (hdup.trans hnew) (by decide)⟩
    · rintro ⟨hdup, -⟩
      exact ⟨_, _, rfl, hdup, fun _ => rfl, fun hnew => absurd (hdup.trans hnew) (by decide)⟩
  | false =>
    rw [EventStore.addEventAndGetPrior_new hv
      (EventCaches.wouldDeduplicate_storedScore.trans happly)]
    constructor
    · rintro ⟨s', r, hadd, hdup, -, hstored⟩
      cases hadd
      exact ⟨hdup, fun hnew => congrArg Event.timestamp (hstored hnew).1⟩
    · rintro ⟨hdup, hts⟩
      refine ⟨_, _, rfl, hdup, fun hold => absurd (hdup.trans hold) (by decide), fun hnew => ?_⟩
      simp only [hts hnew, storedScore_storedScore, and_self]

theorem previewAgrees_iff_settled (hle : prepare.steadyNow ≤ apply.steadyNow) :
    PreviewAgrees s prepare apply ctx id score type timestamp ↔
      SettledAcross s prepare apply ctx id score type timestamp := by
  unfold SettledAcross
  cases hv : validateEvent ctx id score type with
  | error e =>
    refine ⟨fun _ h => (nomatch h), fun _ => ?_⟩
    simp [PreviewAgrees, EventStore.prepareEvent, EventStore.addEventAndGetPrior_invalid hv, hv]
  | ok u =>
    rw [previewAgrees_iff hv]
    generalize resolveTimestamp timestamp prepare = resolved
    dsimp only
    split
    · -- the time stamp is resolved a second time
      rename_i hzero
      obtain ⟨rfl, hclock⟩ := hzero
      have hagain : resolveTimestamp 0 apply = apply.systemNow := by simp [resolveTimestamp]
      rw [hagain]
      constructor
      · rintro ⟨hdup, hts⟩ -
        cases hnow : s.caches.wouldDeduplicate ctx id score type 0 prepare.steadyNow with
        | true => exact ⟨rfl, hdup.trans hnow⟩
        | false => exact absurd (hts hnow) hclock
      · intro h
        obtain ⟨hnow, hlater⟩ := h rfl
        exact ⟨hlater.trans hnow.symm, fun hnew => absurd (hnow.symm.trans hnew) (by decide)⟩
    · rename_i hstays
      have hagain : resolveTimestamp resolved apply = resolved := by
        unfold resolveTimestamp
        split
        · rfl
        · rename_i hzero
          push Not at hzero hstays
          rw [hzero, hstays hzero]
      rw [hagain]
      constructor
      · rintro ⟨hdup, -⟩ -
        exact (EventCaches.wouldDeduplicate_later hle).mp hdup
      · intro h
        exact ⟨(EventCaches.wouldDeduplicate_later hle).mpr (h rfl), fun _ => rfl⟩

end Preview

end Nvecd.Events

namespace Nvecd.Server

open Nvecd.Lib Nvecd.Utils Nvecd.Storage Nvecd.Events Nvecd.Vectors Nvecd.Similarity Nvecd.Cache

/-! ## 3. The handler -/

section Handler

variable {F A κ : Type} [DecidableEq κ] {env : ServerEnv κ} {sc : ServerContext F A κ}
  {clocks : EventClocks} {io : WalIo} {cmd : Command}

/-- An append that succeeds leaves `read_only` alone. -/
theorem appendToWal_readOnly {ctx : HandlerContext F}
    (h : appendError env.toPlatform ctx io cmd = none) :
    ∃ wal, appendToWal env.toPlatform ctx io cmd = ({ ctx with wal := wal }, .ok ()) := by
  unfold appendError at h
  unfold appendToWal at h ⊢
  cases hw : ctx.wal with
  | none => exact ⟨ctx.wal, rfl⟩
  | some w =>
    simp only [hw] at h ⊢
    split
    · exact ⟨ctx.wal, rfl⟩
    · rename_i hlog
      rw [if_neg hlog] at h
      unfold appendRecord at h ⊢
      dsimp only at h ⊢
      split
      · rename_i e he
        simp [he] at h
      · exact ⟨_, rfl⟩

variable [FloatOps F]

/-- **No divergence**: the handler answers with the error of the preview or of the append, or
    with OK; and only the append makes the server read-only. -/
def NoDivergence (env : ServerEnv κ) (sc : ServerContext F A κ) (clocks : EventClocks) (io : WalIo)
    (cmd : Command) : Prop :=
  match refusal env.toPlatform sc.toHandlerContext clocks io cmd with
  | some e => (sc.dispatchEvent env clocks io cmd).2 = .error e
  | none => (sc.dispatchEvent env clocks io cmd).2 = .ok (formatOk "EVENT") ∧
      (sc.dispatchEvent env clocks io cmd).1.readOnly = sc.readOnly

/-- If the commit does what the preview said, no branch for a divergence is taken. -/
theorem noDivergence_of_agrees (hevent : cmd.type = .kEvent)
    (h : PreviewAgrees sc.stores.eventStore clocks.prepare clocks.apply cmd.ctx cmd.id cmd.score
      cmd.eventType (cmd.timestamp.getD 0)) :
    NoDivergence env sc clocks io cmd := by
  unfold PreviewAgrees at h
  unfold NoDivergence refusal ServerContext.dispatchEvent
  simp only [hevent]
  cases hp : sc.stores.eventStore.prepareEvent clocks.prepare cmd.ctx cmd.id cmd.score
      cmd.eventType (cmd.timestamp.getD 0) with
  | error e => simp
  | ok prepared =>
    rw [hp] at h
    obtain ⟨es, r, hadd, hdup, -, -⟩ := h
    have hevent' : prepared.event.score = storedScore cmd.score cmd.eventType ∧
        prepared.event.type = cmd.eventType := by
      unfold EventStore.prepareEvent at hp
      split at hp
      · cases hp
      · cases hp
        exact ⟨rfl, rfl⟩
    cases hd : prepared.deduped with
    | true =>
      rw [hevent'.1, hevent'.2, addEventAndGetPrior_storedScore] at hadd
      obtain ⟨deduped, stored, prior⟩ := r
      obtain rfl : deduped = true := hdup.trans hd
      simp only [if_true, handleEvent, hp, hd, ingest, Option.getD_some, hadd, and_self]
    | false =>
      have hr : r.deduped = false := hdup.trans hd
      cases happ : appendError env.toPlatform sc.toHandlerContext io (eventCommand cmd prepared) with
      | some e =>
        obtain ⟨wal, readOnly, hlog⟩ := appendToWal_error happ
        simp only [eventCommand] at hlog
        simp only [handleEvent, hp, hd, happ, hlog, Bool.false_eq_true, if_false]
      | none =>
        obtain ⟨wal, hlog⟩ := appendToWal_readOnly happ
        simp only [eventCommand] at hlog
        simp only [handleEvent, hp, hd, happ, hlog, Bool.false_eq_true, if_false, ingest,
          Option.getD_some, hadd, hr, updateCoIndex, ServerContext.updateCache]
        split <;> exact ⟨trivial, rfl⟩

/-- **Preview and commit**: for every state of the store, every event and every two readings of
    the clock in this order, the commit does what the preview said and the handler takes no
    branch for a divergence, exactly when the arrival window of the event does not close between
    the two readings. -/
theorem preview_agrees_with_commit (env : ServerEnv κ) (sc : ServerContext F A κ)
    (clocks : EventClocks) (io : WalIo) (cmd : Command) (hevent : cmd.type = .kEvent)
    (hle : clocks.prepare.steadyNow ≤ clocks.apply.steadyNow) :
    (PreviewAgrees sc.stores.eventStore clocks.prepare clocks.apply cmd.ctx cmd.id cmd.score
        cmd.eventType (cmd.timestamp.getD 0) ∧ NoDivergence env sc clocks io cmd) ↔
      SettledAcross sc.stores.eventStore clocks.prepare clocks.apply cmd.ctx cmd.id cmd.score
        cmd.eventType (cmd.timestamp.getD 0) := by
  constructor
  · rintro ⟨hagrees, -⟩
    exact (previewAgrees_iff_settled hle).mp hagrees
  · intro h
    have hagrees := (previewAgrees_iff_settled hle).mpr h
    exact ⟨hagrees, noDivergence_of_agrees hevent hagrees⟩

end Handler

/-! ## 4. The window closes -/

/-- `EVENT c ADD i 5` with a time stamp. -/
def datedEvent (timestamp : UInt64) : Command :=
  { type := .kEvent, ctx := [99], id := [105], score := 5, timestamp := some timestamp }

/-- A server that has stored an event with a time stamp far ahead. -/
def datedAhead : ServerContext Int ListedIndex Nat :=
  (startedServer.dispatchWrite exampleEnv (clocksAt 0) {} (datedEvent 1000000)).1

/-- The preview at the last moment of the window of a minute, the commit a nanosecond later. -/
def acrossTheWindow : EventClocks := ⟨⟨1000, 60000000000⟩, ⟨1000, 60000000001⟩⟩

/-- The preview and the commit after half of the window. -/
theorem preview_agrees_with_commit_dated :
    PreviewAgrees datedAhead.stores.eventStore (clocksAt 30).prepare (clocksAt 30).apply [99] [105]
        5 .ADD 1000 ∧
      NoDivergence exampleEnv datedAhead (clocksAt 30) {} (datedEvent 1000) := by
  have hle : (clocksAt 30).prepare.steadyNow ≤ (clocksAt 30).apply.steadyNow := by decide
  have hsettled : SettledAcross datedAhead.stores.eventStore (clocksAt 30).prepare
      (clocksAt 30).apply [99] [105] 5 .ADD 1000 := by
    intro _
    rw [if_neg (by decide)]
    exact (EventCaches.wouldDeduplicate_later hle).mp rfl
  exact (preview_agrees_with_commit exampleEnv datedAhead (clocksAt 30) {} (datedEvent 1000) rfl
    hle).mpr hsettled

/-- **The window closes during acceptance**: the event repeats one that was dated ahead. The
    preview takes it for a duplicate, the commit stores it without a record in the log, and the
    server is read-only. -/
theorem window_closes_during_acceptance :
    let after := datedAhead.dispatchEvent exampleEnv acrossTheWindow {} (datedEvent 1000)
    ¬ PreviewAgrees datedAhead.stores.eventStore acrossTheWindow.prepare acrossTheWindow.apply [99]
        [105] 5 .ADD 1000 ∧
      datedAhead.readOnly = false ∧ after.1.readOnly = true ∧
      after.2 = .error
        (makeError .kInternalError "Event dedup state changed during acceptance") ∧
      after.1.stores.eventStore.getEvents [99] =
        [⟨[105], 5, 1000000, .ADD⟩, ⟨[105], 5, 1000, .ADD⟩] := by
  refine ⟨fun h => ?_, by decide +kernel, by decide +kernel, by decide +kernel, by decide +kernel⟩
  have hsame := ((previewAgrees_iff (by decide)).mp h).1
  revert hsame
  decide +kernel

end Nvecd.Server
