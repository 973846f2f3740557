/-
  File:      Nvecd/Events/EventStore.lean
  Subject:   `events/ring_buffer.h` and `events/event_store.cpp`: the recent events of each
             context.

  `PrepareEvent` validates an event and says whether it would be dropped as a duplicate;
  `AddEventAndGetPrior` does the same and then stores it, returning what the context held
  before. Clock readings are arguments: the system clock stands in for a time stamp of zero,
  the steady clock is the arrival time.

  * `RingBuffer` -- the buffer of a context;
  * `Contexts` -- the buffers and their order of access, all that `mutex_` protects;
  * `EventCaches`, `EventStore`, `prepareEvent`, `addEventAndGetPrior`;
  * `addEventAndGetPrior_invalid`, `addEventAndGetPrior_duplicate`, `addEventAndGetPrior_new` --
    its three outcomes.
-/
import Nvecd.Events.Caches
import Nvecd.Lib.Ieee754
import Nvecd.Utils.Error

namespace Nvecd.Events

open Nvecd.Lib Nvecd.Storage Nvecd.Utils

/-! ## 1. Events and buffers -/

/-- `enum class EventType : uint8_t`. One that was cast from a byte may have no name; the
    switches over it have no case for it. -/
inductive EventType where
  | ADD
  | SET
  | DEL
  | unnamed (raw : UInt8) (h : 2 < raw)
  deriving DecidableEq, Repr

def EventType.toByte : EventType → UInt8
  | .ADD => 0
  | .SET => 1
  | .DEL => 2
  | .unnamed raw _ => raw

def EventType.ofByte (raw : UInt8) : EventType :=
  if h : 2 < raw then .unnamed raw h
  else if raw = 0 then .ADD
  else if raw = 1 then .SET
  else .DEL

@[simp] theorem EventType.ofByte_toByte (type : EventType) : ofByte type.toByte = type := by
  cases type with
  | ADD => rfl
  | SET => rfl
  | DEL => rfl
  | unnamed raw h => simp [toByte, ofByte, h]

structure Event where
  itemId : Bytes
  score : Int
  timestamp : UInt64
  type : EventType
  deriving DecidableEq, Repr

instance : Inhabited Event := ⟨⟨[], 0, 0, .ADD⟩⟩

structure RingBuffer (α : Type) where
  buffer : List α
  /-- Where the next element goes. -/
  head : Nat
  size : Nat
  capacity : Nat
  length_buffer : buffer.length = capacity
  head_lt : head < capacity
  size_le : size ≤ capacity

namespace RingBuffer

variable {α : Type}

/-- `RingBuffer(capacity)`. -/
def new [Inhabited α] (capacity : Nat) (h : 0 < capacity) : RingBuffer α :=
  ⟨List.replicate capacity default, 0, 0, capacity, by simp, h, Nat.zero_le _⟩

/-- `Push`: when the buffer is full, the oldest element is overwritten. -/
def push (b : RingBuffer α) (item : α) : RingBuffer α where
  buffer := b.buffer.set b.head item
  head := (b.head + 1) % b.capacity
  size := if b.size < b.capacity then b.size + 1 else b.size
  capacity := b.capacity
  length_buffer := by simp [b.length_buffer]
  head_lt := Nat.mod_lt _ (Nat.zero_lt_of_lt b.head_lt)
  size_le := by
    have := b.size_le
    split <;> omega

/-- `GetAll`, the oldest first. -/
def getAll (b : RingBuffer α) : List α :=
  if b.size = 0 then []
  else if b.size < b.capacity then b.buffer.take b.size
  else b.buffer.drop b.head ++ b.buffer.take b.head

end RingBuffer

/-! ## 2. The buffers of all contexts -/

/-- `EventsConfig`, with what `ValidateConfig` admits. Doubles are bit patterns. -/
structure EventsConfig where
  ctxBufferSize : Nat
  maxContexts : Nat := 0
  maxNeighborsPerItem : Nat := 0
  minSupport : UInt64 := 0
  decayAlpha : UInt64
  dedupWindowSec : Nat
  dedupCacheSize : Nat
  temporalCooccurrence : Bool := false
  temporalHalfLifeSec : UInt64 := 0
  negativeSignals : Bool := false
  negativeWeight : UInt64 := 0
  ctxBufferSize_pos : 0 < ctxBufferSize
  decayAlpha_finite : isFiniteDouble decayAlpha = true
  decayAlpha_nonneg : ltZeroDouble decayAlpha = false
  decayAlpha_le_one : gtOneDouble decayAlpha = false

/-- The buffers, and when each context was last written. -/
structure Contexts where
  ctxEvents : AssocMap Bytes (RingBuffer Event) := .empty
  ctxLastAccess : AssocMap Bytes Nat := .empty
  contextAccessSequence : Nat := 0

/-- `std::min_element` by access number. -/
def leastRecent : List (Bytes × Nat) → Option (Bytes × Nat)
  | [] => none
  | e :: l =>
    match leastRecent l with
    | none => some e
    | some least => if least.2 < e.2 then some least else some e

namespace Contexts

/-- `EvictLeastRecentlyUsedContextLocked`. -/
def evictLeastRecentlyUsedContext (cfg : EventsConfig) (c : Contexts) : Contexts :=
  if cfg.maxContexts = 0 ∨ c.ctxEvents.size < cfg.maxContexts then c
  else
    match leastRecent c.ctxLastAccess.entries with
    | none => c
    | some victim =>
      { c with
        ctxEvents := c.ctxEvents.erase victim.1
        ctxLastAccess := c.ctxLastAccess.erase victim.1 }

/-- `TouchContextLocked`. -/
def touchContext (c : Contexts) (ctx : Bytes) : Contexts :=
  { c with
    ctxLastAccess := c.ctxLastAccess.insert ctx (c.contextAccessSequence + 1)
    contextAccessSequence := c.contextAccessSequence + 1 }

/-- The critical section of `AddEventAndGetPrior`: the event goes to the buffer of its context,
    and what that buffer held before is returned. -/
def pushEvent (cfg : EventsConfig) (c : Contexts) (ctx : Bytes) (event : Event) :
    Contexts × List Event :=
  let c :=
    match c.ctxEvents.find? ctx with
    | some _ => c
    | none =>
      let c := c.evictLeastRecentlyUsedContext cfg
      { c with
        ctxEvents := c.ctxEvents.insert ctx (.new cfg.ctxBufferSize cfg.ctxBufferSize_pos) }
  let buffer := (c.ctxEvents.find? ctx).getD (.new cfg.ctxBufferSize cfg.ctxBufferSize_pos)
  let c := c.touchContext ctx
  ({ c with ctxEvents := c.ctxEvents.insert ctx (buffer.push event) }, buffer.getAll)

end Contexts

/-! ## 3. The store -/

/-- The two caches; each exists only if the configuration asks for it. -/
structure EventCaches where
  dedupCache : Option DedupCache
  stateCache : Option StateCache

structure EventStore where
  config : EventsConfig
  contexts : Contexts := {}
  caches : EventCaches
  totalEvents : Nat := 0
  dedupedEvents : Nat := 0

/-- The clocks as one call reads them: the system clock in seconds, the steady clock in
    nanoseconds. -/
structure Clock where
  systemNow : UInt64
  steadyNow : Nat
  deriving Repr

structure PreparedEvent where
  deduped : Bool
  event : Event
  deriving DecidableEq, Repr

structure IngestResult where
  deduped : Bool := false
  storedEvent : Event := default
  priorEvents : List Event := []
  deriving DecidableEq, Repr

def kMinEventScore : Int := 0

def kMaxEventScore : Int := 100

/-- `ResolveTimestamp`: zero means now. -/
def resolveTimestamp (timestamp : UInt64) (clock : Clock) : UInt64 :=
  if timestamp ≠ 0 then timestamp else clock.systemNow

/-- The checks `PrepareEvent` and `AddEventAndGetPrior` both begin with. -/
def validateEvent (ctx id : Bytes) (score : Int) (type : EventType) : Except Error Unit :=
  if ctx = [] then .error (makeError .kEventStoreError "Context cannot be empty")
  else if id = [] then .error (makeError .kEventStoreError "ID cannot be empty")
  else if type ≠ .DEL ∧ (score < kMinEventScore ∨ score > kMaxEventScore) then
    .error (makeError .kEventInvalidScore
      ("Score must be in range [0, 100], got " ++ toString score))
  else .ok ()

/-- What these checks accept. -/
theorem validateEvent_ok {ctx id : Bytes} {score : Int} {type : EventType}
    (h : validateEvent ctx id score type = .ok ()) :
    ctx ≠ [] ∧ id ≠ [] ∧ (type ≠ .DEL → 0 ≤ score ∧ score ≤ 100) := by
  unfold validateEvent at h
  split at h
  · cases h
  split at h
  · cases h
  split at h
  · cases h
  rename_i hctx hid hscore
  refine ⟨hctx, hid, fun htype => ?_⟩
  unfold kMinEventScore kMaxEventScore at hscore
  constructor
  · by_contra hlt
    exact hscore ⟨htype, .inl (by omega)⟩
  · by_contra hgt
    exact hscore ⟨htype, .inr (by omega)⟩

/-- The score as stored: that of a `DEL` is ignored. -/
def storedScore (score : Int) (type : EventType) : Int :=
  match type with
  | .DEL => 0
  | _ => score

theorem storedScore_storedScore (score : Int) (type : EventType) :
    storedScore (storedScore score type) type = storedScore score type := by
  cases type <;> rfl

/-- What the event leaves in the time-window cache. -/
def addEntry (ctxId : Bytes) (ev : Event) : Option (EventKey × UInt64) :=
  match ev.type with
  | .ADD => some (⟨ctxId, ev.itemId, ev.score⟩, ev.timestamp)
  | _ => none

/-- What the event leaves in the state cache. -/
def stateEntry (ctxId : Bytes) (ev : Event) : Option (StateKey × Int) :=
  match ev.type with
  | .SET => some (⟨ctxId, ev.itemId⟩, ev.score)
  | .DEL => some (⟨ctxId, ev.itemId⟩, kDeletedScore)
  | _ => none

namespace EventCaches

/-- The caches of `EventStore(config)`. -/
def new (cfg : EventsConfig) : EventCaches where
  dedupCache :=
    if 0 < cfg.dedupWindowSec ∧ 0 < cfg.dedupCacheSize then
      some { maxSize := cfg.dedupCacheSize, windowSec := cfg.dedupWindowSec }
    else none
  stateCache :=
    if 0 < cfg.dedupCacheSize then some { maxSize := cfg.dedupCacheSize } else none

/-- The switch of `PrepareEvent`: whether the event is taken for a duplicate. -/
def wouldDeduplicate (c : EventCaches) (ctx id : Bytes) (score : Int) (type : EventType)
    (timestamp : UInt64) (now : Nat) : Bool :=
  match type with
  | .ADD => c.dedupCache.any fun d => d.wouldDeduplicate ⟨ctx, id, score⟩ timestamp now
  | .SET => c.stateCache.any fun t => t.wouldDeduplicateSet ⟨ctx, id⟩ score
  | .DEL => c.stateCache.any fun t => t.wouldDeduplicateDel ⟨ctx, id⟩
  | .unnamed .. => false

/-- The switch of `AddEventAndGetPrior`: each type asks its cache and leaves its mark there. -/
def deduplicate (c : EventCaches) (ctx id : Bytes) (score : Int) (type : EventType)
    (timestamp : UInt64) (now : Nat) : EventCaches × Bool :=
  match type with
  | .ADD =>
    match c.dedupCache with
    | none => (c, false)
    | some d =>
      let (d, deduped) := d.checkAndInsert ⟨ctx, id, score⟩ timestamp now
      ({ c with dedupCache := some d }, deduped)
  | .SET =>
    match c.stateCache with
    | none => (c, false)
    | some t =>
      let (t, deduped) := t.checkAndUpdateSet ⟨ctx, id⟩ score
      ({ c with stateCache := some t }, deduped)
  | .DEL =>
    match c.stateCache with
    | none => (c, false)
    | some t =>
      let (t, deduped) := t.checkAndMarkDeleted ⟨ctx, id⟩
      ({ c with stateCache := some t }, deduped)
  | .unnamed .. => (c, false)

/-- At one time the preview and the operation agree. -/
theorem deduplicate_snd (c : EventCaches) (ctx id : Bytes) (score : Int) (type : EventType)
    (timestamp : UInt64) (now : Nat) :
    (c.deduplicate ctx id score type timestamp now).2 =
      c.wouldDeduplicate ctx id score type timestamp now := by
  cases type with
  | ADD =>
    unfold deduplicate wouldDeduplicate
    cases c.dedupCache with
    | none => rfl
    | some d => exact DedupCache.checkAndInsert_snd
  | SET =>
    unfold deduplicate wouldDeduplicate
    cases c.stateCache with
    | none => rfl
    | some t => exact StateCache.checkAndStore_snd t _ _
  | DEL =>
    unfold deduplicate wouldDeduplicate
    cases c.stateCache with
    | none => rfl
    | some t => exact StateCache.checkAndStore_snd t _ _
  | unnamed raw h => rfl

end EventCaches

namespace EventStore

/-- `EventStore(config)`. -/
def new (cfg : EventsConfig) : EventStore := { config := cfg, caches := .new cfg }

/-- `PrepareEvent`. -/
def prepareEvent (s : EventStore) (clock : Clock) (ctx id : Bytes) (score : Int)
    (type : EventType) (timestamp : UInt64) : Except Error PreparedEvent :=
  match validateEvent ctx id score type with
  | .error e => .error e
  | .ok () =>
    let resolved := resolveTimestamp timestamp clock
    .ok ⟨s.caches.wouldDeduplicate ctx id score type resolved clock.steadyNow,
      ⟨id, storedScore score type, resolved, type⟩⟩

/-- `AddEventAndGetPrior`. -/
def addEventAndGetPrior (s : EventStore) (clock : Clock) (ctx id : Bytes) (score : Int)
    (type : EventType) (timestamp : UInt64) : EventStore × Except Error IngestResult :=
  match validateEvent ctx id score type with
  | .error e => (s, .error e)
  | .ok () =>
    let resolved := resolveTimestamp timestamp clock
    let (caches, deduped) := s.caches.deduplicate ctx id score type resolved clock.steadyNow
    let s := { s with totalEvents := s.totalEvents + 1, caches := caches }
    if deduped then
      ({ s with dedupedEvents := s.dedupedEvents + 1 }, .ok { deduped := true })
    else
      let event : Event := ⟨id, storedScore score type, resolved, type⟩
      let (contexts, prior) := s.contexts.pushEvent s.config ctx event
      ({ s with contexts := contexts },
        .ok { storedEvent := event, priorEvents := prior })

/-- `GetEvents`. -/
def getEvents (s : EventStore) (ctx : Bytes) : List Event :=
  match s.contexts.ctxEvents.find? ctx with
  | none => []
  | some buffer => buffer.getAll

/-- The last state of an item, as an event leaves it: only `SET` and `DEL` do. -/
def reseed (c : EventCaches) (ctx : Bytes) (event : Event) : EventCaches :=
  { c with stateCache := c.stateCache.map fun t =>
      match event.type with
      | .SET => t.updateScore ⟨ctx, event.itemId⟩ event.score
      | .DEL => t.markDeleted ⟨ctx, event.itemId⟩
      | _ => t }

/-- `RestoreEvent`: the event as it is, with no look for duplicates. -/
def restoreEvent (s : EventStore) (ctx : Bytes) (event : Event) : Except Error EventStore :=
  if ctx = [] then .error (makeError .kInvalidArgument "Context cannot be empty")
  else if event.itemId = [] then .error (makeError .kInvalidArgument "ID cannot be empty")
  else .ok { s with
    totalEvents := s.totalEvents + 1
    contexts := (s.contexts.pushEvent s.config ctx event).1
    caches := reseed s.caches ctx event }

/-- `Clear`. -/
def clear (s : EventStore) : EventStore :=
  { s with
    contexts := {}
    totalEvents := 0
    dedupedEvents := 0
    caches := {
      dedupCache := s.caches.dedupCache.map fun d =>
        { d with lru := .empty, totalHits := 0, totalMisses := 0 }
      stateCache := s.caches.stateCache.map fun t =>
        { t with lru := .empty, totalHits := 0, totalMisses := 0 } } }

/-- `SwapState`: the configurations stay. -/
def swapState (s t : EventStore) : EventStore × EventStore :=
  ({ t with config := s.config }, { s with config := t.config })

/-! ## 4. The outcomes of `AddEventAndGetPrior` -/

variable {s : EventStore} {clock : Clock} {ctx id : Bytes} {score : Int} {type : EventType}
  {timestamp : UInt64}

theorem addEventAndGetPrior_invalid {e : Error} (h : validateEvent ctx id score type = .error e) :
    s.addEventAndGetPrior clock ctx id score type timestamp = (s, .error e) := by
  simp [addEventAndGetPrior, h]

/-- A duplicate leaves its mark in the caches and the counters only. -/
theorem addEventAndGetPrior_duplicate (h : validateEvent ctx id score type = .ok ())
    (hdup : s.caches.wouldDeduplicate ctx id score type (resolveTimestamp timestamp clock)
      clock.steadyNow = true) :
    s.addEventAndGetPrior clock ctx id score type timestamp =
      ({ s with
          totalEvents := s.totalEvents + 1
          dedupedEvents := s.dedupedEvents + 1
          caches := (s.caches.deduplicate ctx id score type (resolveTimestamp timestamp clock)
            clock.steadyNow).1 },
        .ok { deduped := true }) := by
  rw [← EventCaches.deduplicate_snd] at hdup
  simp only [addEventAndGetPrior, h, hdup, if_true]

/-- **A new event** goes to the buffer of its context. -/
theorem addEventAndGetPrior_new (h : validateEvent ctx id score type = .ok ())
    (hnew : s.caches.wouldDeduplicate ctx id score type (resolveTimestamp timestamp clock)
      clock.steadyNow = false) :
    s.addEventAndGetPrior clock ctx id score type timestamp =
      (let event : Event := ⟨id, storedScore score type, resolveTimestamp timestamp clock, type⟩
       ({ s with
          totalEvents := s.totalEvents + 1
          caches := (s.caches.deduplicate ctx id score type (resolveTimestamp timestamp clock)
            clock.steadyNow).1
          contexts := (s.contexts.pushEvent s.config ctx event).1 },
        .ok { storedEvent := event,
              priorEvents := (s.contexts.pushEvent s.config ctx event).2 })) := by
  rw [← EventCaches.deduplicate_snd] at hnew
  simp only [addEventAndGetPrior, h, hnew]
  rfl

/-- A call that fails has done nothing. -/
theorem addEventAndGetPrior_error {s' : EventStore} {e : Error}
    (h : s.addEventAndGetPrior clock ctx id score type timestamp = (s', .error e)) : s' = s := by
  cases hv : validateEvent ctx id score type with
  | error e' =>
    rw [addEventAndGetPrior_invalid hv] at h
    cases h
    rfl
  | ok u =>
    simp only [addEventAndGetPrior, hv] at h
    split at h <;> cases h

/-- What a call that succeeds has done. -/
theorem addEventAndGetPrior_ok {s' : EventStore} {r : IngestResult}
    (h : s.addEventAndGetPrior clock ctx id score type timestamp = (s', .ok r)) :
    validateEvent ctx id score type = .ok () ∧ s'.config = s.config ∧
      (r.deduped = true ∧ s'.contexts = s.contexts ∨
        r.deduped = false ∧
          r.storedEvent = ⟨id, storedScore score type, resolveTimestamp timestamp clock, type⟩ ∧
          s'.contexts = (s.contexts.pushEvent s.config ctx r.storedEvent).1 ∧
          r.priorEvents = (s.contexts.pushEvent s.config ctx r.storedEvent).2) := by
  cases hv : validateEvent ctx id score type with
  | error e =>
    rw [addEventAndGetPrior_invalid hv] at h
    cases h
  | ok u =>
    cases hd : s.caches.wouldDeduplicate ctx id score type (resolveTimestamp timestamp clock)
        clock.steadyNow with
    | true =>
      rw [addEventAndGetPrior_duplicate hv hd] at h
      cases h
      exact ⟨rfl, rfl, .inl ⟨rfl, rfl⟩⟩
    | false =>
      rw [addEventAndGetPrior_new hv hd] at h
      cases h
      exact ⟨rfl, rfl, .inr ⟨rfl, rfl, rfl, rfl⟩⟩

end EventStore

end Nvecd.Events
