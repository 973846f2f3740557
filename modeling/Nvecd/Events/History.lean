/-
  File:      Nvecd/Events/History.lean
  Subject:   What the contexts of an event store hold after any run, in terms of all that was
             ever stored.

  Beside each store runs a record of every event stored in it since it was made or cleared, and
  of where in that record each context was last created. The access number of a context is then
  the position of its last event, so the context with the smallest number is the one written
  least recently.

  * `Record`, `lastWritten` -- the record;
  * `Tracks` -- the invariant that ties the buffers and the access numbers to the record;
  * `Traced`, `StoreOp` -- stores with their records, and the operations on them;
  * `history_kept` -- what holds of every store after every run.
-/
import Nvecd.Events.Restore

namespace Nvecd.Events

open Nvecd.Lib Nvecd.Storage Nvecd.Utils

/-! ## 1. The record -/

/-- All events stored, with their contexts, and for each context how many there were when it was
    last created. -/
structure Record where
  written : List (Bytes × Event) := []
  created : Bytes → Nat := fun _ => 0

/-- The position, from one, of the last event of `ctx`; zero if there is none. -/
def lastWritten (ctx : Bytes) (written : List (Bytes × Event)) : Nat :=
  written.length - written.reverse.findIdx fun e => e.1 = ctx

section LastWritten

variable {ctx ctx' : Bytes} {event : Event} {written : List (Bytes × Event)}

theorem lastWritten_snoc_self :
    lastWritten ctx (written ++ [(ctx, event)]) = written.length + 1 := by
  simp [lastWritten, List.findIdx_cons]

theorem lastWritten_snoc_of_ne (h : ctx' ≠ ctx) :
    lastWritten ctx' (written ++ [(ctx, event)]) = lastWritten ctx' written := by
  simp [lastWritten, List.findIdx_cons, h.symm]

theorem lastWritten_le (ctx : Bytes) (written : List (Bytes × Event)) :
    lastWritten ctx written ≤ written.length := Nat.sub_le _ _

/-- Two contexts do not have their last events at one position. -/
theorem lastWritten_inj (hpos : 0 < lastWritten ctx written)
    (h : lastWritten ctx written = lastWritten ctx' written) : ctx = ctx' := by
  induction written using List.reverseRecOn with
  | nil => exact absurd hpos (Nat.lt_irrefl 0)
  | append_singleton written e ih =>
    obtain ⟨owner, event⟩ := e
    have hle := lastWritten_le ctx written
    have hle' := lastWritten_le ctx' written
    by_cases hc : ctx = owner <;> by_cases hc' : ctx' = owner
    · rw [hc, hc']
    · subst hc
      rw [lastWritten_snoc_self, lastWritten_snoc_of_ne hc'] at h
      omega
    · subst hc'
      rw [lastWritten_snoc_self, lastWritten_snoc_of_ne hc] at h
      omega
    · rw [lastWritten_snoc_of_ne hc] at hpos
      rw [lastWritten_snoc_of_ne hc, lastWritten_snoc_of_ne hc'] at h
      exact ih hpos h

end LastWritten

namespace Record

/-- The events of `ctx` since it was last created. -/
def since (r : Record) (ctx : Bytes) : List Event := eventsIn ctx (r.written.drop (r.created ctx))

/-- One more event; it creates its context, unless that is known. -/
def stored (r : Record) (known : Bool) (ctx : Bytes) (event : Event) : Record where
  written := r.written ++ [(ctx, event)]
  created := if known then r.created else Function.update r.created ctx r.written.length

variable {r : Record} {known : Bool} {ctx : Bytes} {event : Event}

theorem created_stored_le (h : ∀ ctx, r.created ctx ≤ r.written.length) (known : Bool)
    (ctx : Bytes) (event : Event) (ctx' : Bytes) :
    (r.stored known ctx event).created ctx' ≤ r.written.length := by
  unfold stored
  cases known with
  | true => exact h ctx'
  | false =>
    simp only [Bool.false_eq_true, if_false, Function.update_apply]
    split
    · exact Nat.le_refl _
    · exact h ctx'

theorem since_stored_of_ne (h : ∀ ctx, r.created ctx ≤ r.written.length) {ctx' : Bytes}
    (hne : ctx' ≠ ctx) : (r.stored known ctx event).since ctx' = r.since ctx' := by
  have hcreated : (r.stored known ctx event).created ctx' = r.created ctx' := by
    unfold stored
    cases known <;> simp [hne]
  unfold since
  rw [hcreated]
  show eventsIn ctx' ((r.written ++ [(ctx, event)]).drop (r.created ctx')) = _
  rw [List.drop_append_of_le_length (h ctx'), eventsIn_append, eventsIn_singleton,
    if_neg (Ne.symm hne), List.append_nil]

theorem since_stored_self (h : ∀ ctx, r.created ctx ≤ r.written.length) :
    (r.stored known ctx event).since ctx = (if known then r.since ctx else []) ++ [event] := by
  have hle := created_stored_le h known ctx event ctx
  unfold since
  show eventsIn ctx ((r.written ++ [(ctx, event)]).drop _) = _
  rw [List.drop_append_of_le_length hle, eventsIn_append, eventsIn_singleton, if_pos rfl]
  congr 1
  unfold stored
  cases known <;> simp

end Record

/-! ## 2. Contexts and record -/

/-- **The contexts tell the record**: every buffer holds the last events since its context was
    created, and every access number is the position of the context's last event. -/
structure Tracks (cfg : EventsConfig) (c : Contexts) (r : Record) : Prop where
  accesses : ∀ ctx, ctx ∈ c.ctxLastAccess.keys ↔ ctx ∈ c.ctxEvents.keys
  bounded : cfg.maxContexts = 0 ∨ c.ctxEvents.size ≤ cfg.maxContexts
  sequence : c.contextAccessSequence = r.written.length
  stamps : ∀ ctx n, c.ctxLastAccess.find? ctx = some n → n = lastWritten ctx r.written ∧ 0 < n
  buffers : ∀ ctx b, c.ctxEvents.find? ctx = some b → b.Holds cfg.ctxBufferSize (r.since ctx)
  created : ∀ ctx, r.created ctx ≤ r.written.length

theorem Tracks.empty (cfg : EventsConfig) : Tracks cfg {} {} where
  accesses _ := Iff.rfl
  bounded := .inr (Nat.zero_le _)
  sequence := rfl
  stamps := nofun
  buffers := nofun
  created _ := Nat.le_refl 0

section Tracks

variable {cfg : EventsConfig} {c : Contexts} {r : Record} {ctx : Bytes} {event : Event}

/-- A context that is admitted had its buffer before. -/
theorem find?_ctxEvents_admitted {ctx' : Bytes} {b : RingBuffer Event}
    (h : (c.admitted cfg ctx).ctxEvents.find? ctx' = some b) :
    c.ctxEvents.find? ctx' = some b := by
  unfold Contexts.admitted at h
  split at h
  · exact h
  · obtain heq | ⟨victim, at', -, heq⟩ := Contexts.evict_cases cfg c
    · rwa [heq] at h
    · rw [heq] at h
      simp only [AssocMap.find?_erase] at h
      split at h
      · cases h
      · exact h

/-- Admission takes a context out of both maps, or out of none. -/
theorem mem_keys_admitted (h : ∀ ctx, ctx ∈ c.ctxLastAccess.keys ↔ ctx ∈ c.ctxEvents.keys)
    (ctx' : Bytes) :
    ctx' ∈ (c.admitted cfg ctx).ctxLastAccess.keys ↔ ctx' ∈ (c.admitted cfg ctx).ctxEvents.keys := by
  unfold Contexts.admitted
  split
  · exact h ctx'
  · obtain heq | ⟨victim, at', -, heq⟩ := Contexts.evict_cases cfg c
    · rw [heq]
      exact h ctx'
    · rw [heq]
      simp only [AssocMap.mem_keys_erase, h]

/-- The buffer an event goes to holds the events of its context, none if that is created. -/
theorem Tracks.bufferOf (h : Tracks cfg c r) (ctx : Bytes) :
    (c.bufferOf cfg ctx).Holds cfg.ctxBufferSize
      (if c.ctxEvents.contains ctx then r.since ctx else []) := by
  unfold Contexts.bufferOf AssocMap.contains
  cases hf : c.ctxEvents.find? ctx with
  | some b => exact h.buffers ctx b hf
  | none => exact RingBuffer.holds_new _ _

/-- **One more event**, in the contexts and in the record. -/
theorem Tracks.pushEvent (h : Tracks cfg c r) (ctx : Bytes) (event : Event) :
    Tracks cfg (c.pushEvent cfg ctx event).1
      (r.stored (c.ctxEvents.contains ctx) ctx event) where
  accesses ctx' := by
    rw [Contexts.ctxLastAccess_pushEvent, AssocMap.mem_keys_insert, Contexts.mem_keys_pushEvent,
      mem_keys_admitted h.accesses]
  bounded := Contexts.bounded_pushEvent h.accesses h.bounded
  sequence := by
    rw [Contexts.contextAccessSequence_pushEvent, h.sequence]
    simp [Record.stored]
  stamps ctx' n hn := by
    rw [Contexts.ctxLastAccess_pushEvent, AssocMap.find?_insert] at hn
    show n = lastWritten ctx' (r.written ++ [(ctx, event)]) ∧ 0 < n
    split at hn
    · rename_i hctx
      subst hctx
      cases hn
      rw [lastWritten_snoc_self, h.sequence]
      exact ⟨rfl, Nat.succ_pos _⟩
    · rename_i hctx
      rw [lastWritten_snoc_of_ne hctx]
      exact h.stamps ctx' n (Contexts.find?_admitted hn)
  buffers ctx' b hb := by
    rw [Contexts.find?_pushEvent] at hb
    split at hb
    · rename_i hctx
      subst hctx
      cases hb
      rw [Record.since_stored_self h.created]
      exact (h.bufferOf ctx').push event
    · rename_i hctx
      rw [Record.since_stored_of_ne h.created hctx]
      exact h.buffers ctx' b (find?_ctxEvents_admitted hb)
  created ctx' := by
    have hle := Record.created_stored_le h.created (c.ctxEvents.contains ctx) ctx event ctx'
    have hlen : (r.stored (c.ctxEvents.contains ctx) ctx event).written.length =
        r.written.length + 1 := by simp [Record.stored]
    omega

/-- Access numbers are given once each. -/
theorem Tracks.distinct (h : Tracks cfg c r) {a b : Bytes} {n : Nat}
    (ha : c.ctxLastAccess.find? a = some n) (hb : c.ctxLastAccess.find? b = some n) : a = b := by
  obtain ⟨hna, hpos⟩ := h.stamps a n ha
  obtain ⟨hnb, -⟩ := h.stamps b n hb
  exact lastWritten_inj (hna ▸ hpos) (hna.symm.trans hnb)

/-- **The victim** of an event: its context is new, the store is full, and every other context
    has been written since. -/
theorem Tracks.victim (h : Tracks cfg c r) {victim : Bytes} (hin : victim ∈ c.ctxEvents.keys)
    (hout : victim ∉ (c.pushEvent cfg ctx event).1.ctxEvents.keys) :
    ctx ∉ c.ctxEvents.keys ∧ 0 < cfg.maxContexts ∧ c.ctxEvents.size = cfg.maxContexts ∧
      ∀ other ∈ c.ctxEvents.keys, other ≠ victim →
        lastWritten victim r.written < lastWritten other r.written := by
  rw [Contexts.mem_keys_pushEvent, not_or] at hout
  obtain ⟨-, hout⟩ := hout
  unfold Contexts.admitted at hout
  cases hf : c.ctxEvents.find? ctx with
  | some b =>
    rw [hf] at hout
    exact absurd hin hout
  | none =>
    rw [hf] at hout
    simp only [Contexts.evictLeastRecentlyUsedContext] at hout
    split at hout
    · exact absurd hin hout
    · rename_i hfull
      rw [not_or, Nat.not_lt] at hfull
      split at hout
      · exact absurd hin hout
      · rename_i least hleast
        -- what is gone is what was erased
        have heq : victim = least.1 := by
          by_contra hne
          exact hout (AssocMap.mem_keys_erase.mpr ⟨hne, hin⟩)
        subst heq
        have hleastFind : c.ctxLastAccess.find? least.1 = some least.2 :=
          AssocMap.mem_entries.mp (leastRecent_mem hleast)
        have hsize := h.bounded.resolve_left hfull.1
        refine ⟨AssocMap.find?_eq_none.mp hf, by omega, by omega, fun other hother hne => ?_⟩
        obtain ⟨n, hn⟩ := AssocMap.mem_keys.mp ((h.accesses other).mpr hother)
        have hle : least.2 ≤ n := leastRecent_le hleast (AssocMap.mem_entries.mpr hn)
        have hne' : least.2 ≠ n := by
          rintro rfl
          exact hne (h.distinct hn hleastFind)
        rw [← (h.stamps _ _ hleastFind).1, ← (h.stamps _ _ hn).1]
        omega

end Tracks

/-! ## 3. Stores and their operations -/

/-- A store with its record. -/
structure Traced where
  store : EventStore
  record : Record := {}

namespace Traced

/-- `EventStore(config)`. -/
def new (cfg : EventsConfig) : Traced := { store := .new cfg }

/-- What is stored is recorded with its context, known or not. -/
def recordStored (t : Traced) (ctx : Bytes) (event : Event) : Record :=
  t.record.stored (t.store.contexts.ctxEvents.contains ctx) ctx event

/-- `AddEventAndGetPrior`. -/
def add (t : Traced) (clock : Clock) (ctx id : Bytes) (score : Int) (type : EventType)
    (timestamp : UInt64) : Traced :=
  match t.store.addEventAndGetPrior clock ctx id score type timestamp with
  | (s, .error _) => { t with store := s }
  | (s, .ok result) =>
    ⟨s, if result.deduped then t.record else t.recordStored ctx result.storedEvent⟩

/-- `RestoreEvent`. -/
def restore (t : Traced) (ctx : Bytes) (event : Event) : Traced :=
  match t.store.restoreEvent ctx event with
  | .error _ => t
  | .ok s => ⟨s, t.recordStored ctx event⟩

/-- `Clear`: nothing has been stored since. -/
def clear (t : Traced) : Traced := { store := t.store.clear }

/-- `SwapState`: the records go with the states. -/
def swap (t u : Traced) : Traced × Traced :=
  let (s, s') := t.store.swapState u.store
  (⟨s, u.record⟩, ⟨s', t.record⟩)

end Traced

/-- The operations on a family of stores. -/
inductive StoreOp (ι : Type) where
  | add (i : ι) (clock : Clock) (ctx id : Bytes) (score : Int) (type : EventType)
      (timestamp : UInt64)
  | restore (i : ι) (ctx : Bytes) (event : Event)
  | clear (i : ι)
  | swap (i j : ι)

/-- One operation; to swap a store with itself does nothing. -/
def StoreOp.step {ι : Type} [DecidableEq ι] (stores : ι → Traced) : StoreOp ι → ι → Traced
  | .add i clock ctx id score type timestamp =>
    Function.update stores i ((stores i).add clock ctx id score type timestamp)
  | .restore i ctx event => Function.update stores i ((stores i).restore ctx event)
  | .clear i => Function.update stores i (stores i).clear
  | .swap i j =>
    if i = j then stores
    else
      let (t, u) := (stores i).swap (stores j)
      Function.update (Function.update stores i t) j u

/-- The invariant of a store with its record. -/
structure Traced.Inv (cfg : EventsConfig) (t : Traced) : Prop where
  config : t.store.config = cfg
  tracks : Tracks cfg t.store.contexts t.record

namespace Traced

variable {cfg : EventsConfig} {t u : Traced}

/-- What `AddEventAndGetPrior` does to a store and its record: nothing to the contexts, or one
    more event in both. -/
theorem add_cases (t : Traced) (clock : Clock) (ctx id : Bytes) (score : Int) (type : EventType)
    (timestamp : UInt64) :
    (t.add clock ctx id score type timestamp).store.config = t.store.config ∧
      (((t.add clock ctx id score type timestamp).store.contexts = t.store.contexts ∧
          (t.add clock ctx id score type timestamp).record = t.record) ∨
        ∃ event, (∃ s prior, t.store.addEventAndGetPrior clock ctx id score type timestamp =
            (s, .ok ⟨false, event, prior⟩)) ∧
          (t.add clock ctx id score type timestamp).store.contexts =
            (t.store.contexts.pushEvent t.store.config ctx event).1 ∧
          (t.add clock ctx id score type timestamp).record = t.recordStored ctx event) := by
  unfold add
  cases h : t.store.addEventAndGetPrior clock ctx id score type timestamp with
  | mk s result =>
    cases result with
    | error e =>
      obtain rfl := EventStore.addEventAndGetPrior_error h
      exact ⟨rfl, .inl ⟨rfl, rfl⟩⟩
    | ok r =>
      obtain ⟨-, hcfg, ⟨hdup, hctx⟩ | ⟨hnew, -, hctx, -⟩⟩ := EventStore.addEventAndGetPrior_ok h
      · exact ⟨hcfg, .inl ⟨hctx, by simp [hdup]⟩⟩
      · obtain ⟨deduped, event, prior⟩ := r
        simp only at hnew
        subst hnew
        exact ⟨hcfg, .inr ⟨event, ⟨s, prior, rfl⟩, hctx, rfl⟩⟩

theorem restore_cases (t : Traced) (ctx : Bytes) (event : Event) :
    (∃ e, t.store.restoreEvent ctx event = .error e) ∧ t.restore ctx event = t ∨
      (t.restore ctx event).store.config = t.store.config ∧
        (t.restore ctx event).store.contexts =
          (t.store.contexts.pushEvent t.store.config ctx event).1 ∧
        (t.restore ctx event).record = t.recordStored ctx event := by
  unfold restore
  cases h : t.store.restoreEvent ctx event with
  | error e => exact .inl ⟨⟨e, rfl⟩, rfl⟩
  | ok s =>
    unfold EventStore.restoreEvent at h
    split at h
    · cases h
    · split at h
      · cases h
      · cases h
        exact .inr ⟨rfl, rfl, rfl⟩

theorem Inv.new (cfg : EventsConfig) : Inv cfg (.new cfg) := ⟨rfl, .empty cfg⟩

/-- One more event, stored and recorded. -/
theorem Inv.pushed (h : Inv cfg t) {ctx : Bytes} {event : Event}
    (hcfg : u.store.config = t.store.config)
    (hctx : u.store.contexts = (t.store.contexts.pushEvent t.store.config ctx event).1)
    (hrecord : u.record = t.recordStored ctx event) : Inv cfg u := by
  refine ⟨hcfg.trans h.config, ?_⟩
  rw [hctx, hrecord, h.config]
  exact h.tracks.pushEvent ctx event

theorem Inv.add (h : Inv cfg t) (clock : Clock) (ctx id : Bytes) (score : Int) (type : EventType)
    (timestamp : UInt64) : Inv cfg (t.add clock ctx id score type timestamp) := by
  obtain ⟨hcfg, ⟨hctx, hrecord⟩ | ⟨event, -, hctx, hrecord⟩⟩ :=
    t.add_cases clock ctx id score type timestamp
  · refine ⟨hcfg.trans h.config, ?_⟩
    rw [hctx, hrecord]
    exact h.tracks
  · exact h.pushed hcfg hctx hrecord

theorem Inv.restore (h : Inv cfg t) (ctx : Bytes) (event : Event) :
    Inv cfg (t.restore ctx event) := by
  obtain ⟨-, hsame⟩ | ⟨hcfg, hctx, hrecord⟩ := t.restore_cases ctx event
  · rw [hsame]
    exact h
  · exact h.pushed hcfg hctx hrecord

theorem Inv.clear (h : Inv cfg t) : Inv cfg t.clear := ⟨h.config, .empty cfg⟩

theorem Inv.swap (ht : Inv cfg t) (hu : Inv cfg u) :
    Inv cfg (t.swap u).1 ∧ Inv cfg (t.swap u).2 :=
  ⟨⟨ht.config, hu.tracks⟩, ⟨hu.config, ht.tracks⟩⟩

end Traced

section Runs

variable {ι : Type} [DecidableEq ι] {cfg : EventsConfig} {stores : ι → Traced}

theorem inv_update (h : ∀ i, (stores i).Inv cfg) {t : Traced} (ht : t.Inv cfg) (j i : ι) :
    (Function.update stores j t i).Inv cfg := by
  rw [Function.update_apply]
  split
  · exact ht
  · exact h i

/-- **Every operation** keeps the invariant of every store. -/
theorem StoreOp.step_inv (h : ∀ i, (stores i).Inv cfg) (op : StoreOp ι) (i : ι) :
    (op.step stores i).Inv cfg := by
  cases op with
  | add j clock ctx id score type timestamp =>
    exact inv_update h ((h j).add clock ctx id score type timestamp) j i
  | restore j ctx event => exact inv_update h ((h j).restore ctx event) j i
  | clear j => exact inv_update h (h j).clear j i
  | swap j k =>
    simp only [step]
    split
    · exact h i
    · obtain ⟨hj, hk⟩ := (h j).swap (h k)
      exact inv_update (inv_update h hj j) hk k i

/-- The stores after a list of operations, all new at first. -/
def afterOps (cfg : EventsConfig) (ops : List (StoreOp ι)) : ι → Traced :=
  ops.foldl StoreOp.step fun _ => .new cfg

theorem afterOps_inv (cfg : EventsConfig) (ops : List (StoreOp ι)) (i : ι) :
    (afterOps cfg ops i).Inv cfg := by
  have hnew : ∀ i : ι, ((fun _ => .new cfg : ι → Traced) i).Inv cfg := fun _ => .new cfg
  refine List.foldlRecOn (motive := fun stores : ι → Traced => ∀ i, (stores i).Inv cfg) ops
    StoreOp.step hnew (fun stores h op _ => ?_) i
  exact StoreOp.step_inv h op

/-! ## 4. What every store holds -/

/-- **The store tells its history**: the two maps have the same contexts, their access numbers
    are distinct, there are no more contexts than the limit allows, and a context returns the
    last events stored in it since it was created. -/
structure HistoryKept (cfg : EventsConfig) (t : Traced) : Prop where
  sameKeys : ∀ ctx, ctx ∈ t.store.contexts.ctxLastAccess.keys ↔ ctx ∈ t.store.contexts.ctxEvents.keys
  distinct : ∀ a b n, t.store.contexts.ctxLastAccess.find? a = some n →
    t.store.contexts.ctxLastAccess.find? b = some n → a = b
  bounded : 0 < cfg.maxContexts → t.store.contexts.ctxEvents.size ≤ cfg.maxContexts
  events : ∀ ctx, t.store.getEvents ctx =
    if ctx ∈ t.store.contexts.ctxEvents.keys then (t.record.since ctx).rtake cfg.ctxBufferSize
    else []

/-- **Only the least recent context goes**, and only to let a new one into a full store. -/
def EvictsLeastRecent (cfg : EventsConfig) (ctx : Bytes) (t t' : Traced) : Prop :=
  ∀ victim ∈ t.store.contexts.ctxEvents.keys, victim ∉ t'.store.contexts.ctxEvents.keys →
    ctx ∉ t.store.contexts.ctxEvents.keys ∧ 0 < cfg.maxContexts ∧
      t.store.contexts.ctxEvents.size = cfg.maxContexts ∧
      ∀ other ∈ t.store.contexts.ctxEvents.keys, other ≠ victim →
        lastWritten victim t.record.written < lastWritten other t.record.written

namespace Traced

variable {t u : Traced}

theorem Inv.historyKept (h : Inv cfg t) : HistoryKept cfg t where
  sameKeys := h.tracks.accesses
  distinct _ _ _ := h.tracks.distinct
  bounded hpos := h.tracks.bounded.resolve_left (Nat.pos_iff_ne_zero.mp hpos)
  events ctx := by
    unfold EventStore.getEvents
    cases hf : t.store.contexts.ctxEvents.find? ctx with
    | some b =>
      rw [if_pos (AssocMap.mem_keys.mpr ⟨b, hf⟩)]
      exact (h.tracks.buffers ctx b hf).getAll_eq
    | none => rw [if_neg (AssocMap.find?_eq_none.mp hf)]

theorem Inv.evicts (h : Inv cfg t) (ctx : Bytes) (event : Event)
    (hctx : u.store.contexts = t.store.contexts ∨
      u.store.contexts = (t.store.contexts.pushEvent t.store.config ctx event).1) :
    EvictsLeastRecent cfg ctx t u := by
  intro victim hin hout
  rcases hctx with hctx | hctx
  · rw [hctx] at hout
    exact absurd hin hout
  · rw [hctx, h.config] at hout
    exact h.tracks.victim hin hout

end Traced

/-- **History**: after every list of operations on any stores, every store tells its history;
    the next event evicts at most the context written least recently; and an event that is
    rejected or taken for a duplicate changes no buffer and no access number. -/
theorem history_kept (cfg : EventsConfig) (ops : List (StoreOp ι)) (i : ι) :
    let t := afterOps cfg ops i
    HistoryKept cfg t ∧
      (∀ clock ctx id score type timestamp,
        let t' := t.add clock ctx id score type timestamp
        EvictsLeastRecent cfg ctx t t' ∧
          ((∀ r, (t.store.addEventAndGetPrior clock ctx id score type timestamp).2 = .ok r →
              r.deduped = true) →
            t'.store.contexts = t.store.contexts)) ∧
      ∀ ctx event,
        let t' := t.restore ctx event
        EvictsLeastRecent cfg ctx t t' ∧
          (∀ e, t.store.restoreEvent ctx event = .error e → t'.store = t.store) := by
  have h := afterOps_inv cfg ops i
  refine ⟨h.historyKept, fun clock ctx id score type timestamp => ?_, fun ctx event => ?_⟩
  · obtain ⟨-, ⟨hctx, -⟩ | ⟨event, ⟨s, prior, hadd⟩, hctx, -⟩⟩ :=
      (afterOps cfg ops i).add_cases clock ctx id score type timestamp
    · exact ⟨h.evicts ctx default (.inl hctx), fun _ => hctx⟩
    · refine ⟨h.evicts ctx event (.inr hctx), fun hdup => ?_⟩
      exact Bool.noConfusion (hdup _ (by rw [hadd]))
  · obtain ⟨-, hsame⟩ | ⟨-, hctx, -⟩ := (afterOps cfg ops i).restore_cases ctx event
    · refine ⟨h.evicts ctx event (.inl (by rw [hsame])), fun _ _ => ?_⟩
      rw [hsame]
    · refine ⟨h.evicts ctx event (.inr hctx), fun e he => ?_⟩
      simp only [Traced.restore, he]

end Runs

/-- One context at a time, two events in it. -/
def smallEvents : EventsConfig where
  ctxBufferSize := 2
  maxContexts := 1
  decayAlpha := 0
  dedupWindowSec := 60
  dedupCacheSize := 10
  ctxBufferSize_pos := Nat.zero_lt_two
  decayAlpha_finite := isFiniteDouble_zero
  decayAlpha_nonneg := ltZeroDouble_zero
  decayAlpha_le_one := gtOneDouble_zero

/-- Three events go to a context that is evicted and created again in between. -/
def recreated : List (StoreOp Bool) :=
  [.restore true [99] ⟨[105], 1, 10, .ADD⟩, .restore true [100] ⟨[105], 2, 20, .ADD⟩,
    .restore true [99] ⟨[105], 3, 30, .ADD⟩, .restore true [99] ⟨[106], 4, 40, .ADD⟩,
    .restore true [99] ⟨[107], 5, 50, .ADD⟩, .swap false true]

/-- The store it was swapped into returns the last two; the next context would evict it. -/
theorem history_kept_recreated :
    (afterOps smallEvents recreated false).store.getEvents [99] =
        [⟨[106], 4, 40, .ADD⟩, ⟨[107], 5, 50, .ADD⟩] ∧
      HistoryKept smallEvents (afterOps smallEvents recreated false) ∧
      EvictsLeastRecent smallEvents [101] (afterOps smallEvents recreated false)
        ((afterOps smallEvents recreated false).restore [101] ⟨[105], 6, 60, .ADD⟩) :=
  ⟨by decide +kernel, (history_kept smallEvents recreated false).1,
    ((history_kept smallEvents recreated false).2.2 [101] ⟨[105], 6, 60, .ADD⟩).1⟩

end Nvecd.Events
