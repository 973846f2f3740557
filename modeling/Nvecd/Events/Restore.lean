/-
  File:      Nvecd/Events/Restore.lean
  Subject:   The contexts of a store that has been running, and the store rebuilt from them event
             by event.

  * `Contexts.admitted`, `find?_pushEvent` -- what one more event does to the contexts, evictions
    included;
  * `Contexts.Sound` -- what holds of the contexts of every store: no empty buffer, no more
    contexts than the limit, an access number for each;
  * `restoreAll` -- `RestoreEvent` for a list of events;
  * `getEvents_restoreAll` -- a store with no context yet takes back what such contexts held.
-/
import Mathlib.Data.List.Perm.Subperm
import Nvecd.Events.Buffers

namespace Nvecd.Events

open Nvecd.Lib Nvecd.Storage Nvecd.Utils

/-! ## 1. One event -/

theorem leastRecent_mem {l : List (Bytes × Nat)} {e : Bytes × Nat} (h : leastRecent l = some e) :
    e ∈ l := by
  induction l generalizing e with
  | nil => cases h
  | cons x l ih =>
    unfold leastRecent at h
    cases hl : leastRecent l with
    | none =>
      rw [hl] at h
      cases h
      exact List.mem_cons_self
    | some least =>
      rw [hl] at h
      simp only at h
      split at h
      · cases h
        exact List.mem_cons_of_mem x (ih hl)
      · cases h
        exact List.mem_cons_self

theorem leastRecent_eq_none {l : List (Bytes × Nat)} (h : leastRecent l = none) : l = [] := by
  cases l with
  | nil => rfl
  | cons x l =>
    unfold leastRecent at h
    cases hl : leastRecent l with
    | none => simp [hl] at h
    | some least =>
      rw [hl] at h
      simp only at h
      split at h <;> cases h

theorem leastRecent_le {l : List (Bytes × Nat)} {e : Bytes × Nat} (h : leastRecent l = some e)
    {x : Bytes × Nat} (hx : x ∈ l) : e.2 ≤ x.2 := by
  induction l generalizing e with
  | nil => cases hx
  | cons y l ih =>
    unfold leastRecent at h
    cases hl : leastRecent l with
    | none =>
      rw [hl] at h
      cases h
      rw [leastRecent_eq_none hl, List.mem_singleton] at hx
      rw [hx]
    | some least =>
      rw [hl] at h
      simp only at h
      have hle : x = y ∨ least.2 ≤ x.2 := (List.mem_cons.mp hx).imp id (ih hl)
      split at h
      · cases h
        rcases hle with rfl | hle
        · omega
        · exact hle
      · cases h
        rcases hle with rfl | hle
        · exact Nat.le_refl _
        · omega

namespace Contexts

variable {cfg : EventsConfig} {c : Contexts} {ctx : Bytes} {event : Event}

/-- The contexts with room for `ctx`: one of the others may have had to go. -/
def admitted (cfg : EventsConfig) (c : Contexts) (ctx : Bytes) : Contexts :=
  match c.ctxEvents.find? ctx with
  | some _ => c
  | none => c.evictLeastRecentlyUsedContext cfg

/-- The buffer of `ctx`, a new one if it has none. -/
def bufferOf (cfg : EventsConfig) (c : Contexts) (ctx : Bytes) : RingBuffer Event :=
  (c.ctxEvents.find? ctx).getD (.new cfg.ctxBufferSize cfg.ctxBufferSize_pos)

theorem find?_pushEvent (ctx' : Bytes) :
    (c.pushEvent cfg ctx event).1.ctxEvents.find? ctx' =
      if ctx' = ctx then some ((c.bufferOf cfg ctx).push event)
      else (c.admitted cfg ctx).ctxEvents.find? ctx' := by
  unfold pushEvent touchContext admitted bufferOf
  cases hf : c.ctxEvents.find? ctx with
  | some b =>
    simp only [hf, Option.getD_some]
    rw [AssocMap.find?_insert]
  | none =>
    simp only [AssocMap.find?_insert_self, Option.getD_some, Option.getD_none]
    rw [AssocMap.find?_insert, AssocMap.find?_insert]
    split <;> rfl

theorem pushEvent_snd : (c.pushEvent cfg ctx event).2 = (c.bufferOf cfg ctx).getAll := by
  unfold pushEvent bufferOf
  cases hf : c.ctxEvents.find? ctx with
  | some b => simp only [hf, Option.getD_some]
  | none => simp only [AssocMap.find?_insert_self, Option.getD_some, Option.getD_none]

/-- What eviction leaves. -/
theorem evict_cases (cfg : EventsConfig) (c : Contexts) :
    c.evictLeastRecentlyUsedContext cfg = c ∨
      ∃ victim at', leastRecent c.ctxLastAccess.entries = some (victim, at') ∧
        c.evictLeastRecentlyUsedContext cfg =
          { c with
            ctxEvents := c.ctxEvents.erase victim
            ctxLastAccess := c.ctxLastAccess.erase victim } := by
  unfold evictLeastRecentlyUsedContext
  split
  · exact .inl rfl
  · cases hl : leastRecent c.ctxLastAccess.entries with
    | none => exact .inl rfl
    | some victim => exact .inr ⟨victim.1, victim.2, rfl, rfl⟩

theorem ctxLastAccess_pushEvent :
    (c.pushEvent cfg ctx event).1.ctxLastAccess =
      (c.admitted cfg ctx).ctxLastAccess.insert ctx (c.contextAccessSequence + 1) := by
  unfold pushEvent touchContext admitted
  cases hf : c.ctxEvents.find? ctx with
  | some b => rfl
  | none =>
    have hseq : (c.evictLeastRecentlyUsedContext cfg).contextAccessSequence =
        c.contextAccessSequence := by
      obtain heq | ⟨victim, at', -, heq⟩ := evict_cases cfg c <;> rw [heq]
    show (c.evictLeastRecentlyUsedContext cfg).ctxLastAccess.insert ctx
      ((c.evictLeastRecentlyUsedContext cfg).contextAccessSequence + 1) = _
    rw [hseq]

theorem contextAccessSequence_pushEvent :
    (c.pushEvent cfg ctx event).1.contextAccessSequence = c.contextAccessSequence + 1 := by
  unfold pushEvent touchContext
  cases hf : c.ctxEvents.find? ctx with
  | some b => rfl
  | none => obtain heq | ⟨victim, at', -, heq⟩ := evict_cases cfg c <;> simp only [heq]

/-- Admitting a context gives no new access number. -/
theorem find?_admitted {ctx' : Bytes} {n : Nat}
    (h : (c.admitted cfg ctx).ctxLastAccess.find? ctx' = some n) :
    c.ctxLastAccess.find? ctx' = some n := by
  unfold admitted at h
  split at h
  · exact h
  · obtain heq | ⟨victim, at', -, heq⟩ := evict_cases cfg c
    · rwa [heq] at h
    · rw [heq] at h
      simp only [AssocMap.find?_erase] at h
      split at h
      · cases h
      · exact h

theorem mem_keys_pushEvent (ctx' : Bytes) :
    ctx' ∈ (c.pushEvent cfg ctx event).1.ctxEvents.keys ↔
      ctx' = ctx ∨ ctx' ∈ (c.admitted cfg ctx).ctxEvents.keys := by
  rw [AssocMap.mem_keys, AssocMap.mem_keys, find?_pushEvent]
  by_cases h : ctx' = ctx <;> simp [h]

/-- After eviction there is room for one more. -/
theorem evict_room (haccesses : ∀ ctx, ctx ∈ c.ctxLastAccess.keys ↔ ctx ∈ c.ctxEvents.keys)
    (hbounded : cfg.maxContexts = 0 ∨ c.ctxEvents.size ≤ cfg.maxContexts) :
    cfg.maxContexts = 0 ∨
      (c.evictLeastRecentlyUsedContext cfg).ctxEvents.size < cfg.maxContexts := by
  unfold evictLeastRecentlyUsedContext
  split
  · assumption
  · rename_i hfull
    rw [not_or, Nat.not_lt] at hfull
    have hpos : c.ctxEvents.size ≠ 0 := by omega
    cases hl : leastRecent c.ctxLastAccess.entries with
    | none =>
      have hno : c.ctxLastAccess.keys = [] := by
        rw [AssocMap.keys, leastRecent_eq_none hl]
        rfl
      rw [← AssocMap.length_keys] at hpos
      obtain ⟨ctx, hctx⟩ := List.exists_mem_of_length_pos (Nat.pos_of_ne_zero hpos)
      rw [← haccesses, hno] at hctx
      cases hctx
    | some victim =>
      have hin : victim.1 ∈ c.ctxEvents.keys :=
        (haccesses _).mp (List.mem_map_of_mem (leastRecent_mem hl))
      have hle := hbounded.resolve_left hfull.1
      have hsize := AssocMap.size_erase_of_mem hin
      simp only
      omega

/-- **The limit**: a known context adds none, a new one finds room. -/
theorem bounded_pushEvent
    (haccesses : ∀ ctx, ctx ∈ c.ctxLastAccess.keys ↔ ctx ∈ c.ctxEvents.keys)
    (hbounded : cfg.maxContexts = 0 ∨ c.ctxEvents.size ≤ cfg.maxContexts) :
    cfg.maxContexts = 0 ∨ (c.pushEvent cfg ctx event).1.ctxEvents.size ≤ cfg.maxContexts := by
  cases hf : c.ctxEvents.find? ctx with
  | some b =>
    have hsame : c.admitted cfg ctx = c := by simp [admitted, hf]
    have hin : ctx ∈ c.ctxEvents.keys := AssocMap.mem_keys.mpr ⟨b, hf⟩
    refine hbounded.imp id fun hle => Nat.le_trans (Nat.le_of_eq ?_) hle
    refine AssocMap.size_eq_of_mem_keys fun ctx' => ?_
    rw [mem_keys_pushEvent, hsame, or_iff_right_of_imp]
    rintro rfl
    exact hin
  | none =>
    have hroom : c.admitted cfg ctx = c.evictLeastRecentlyUsedContext cfg := by simp [admitted, hf]
    refine (evict_room haccesses hbounded).imp id fun hlt => ?_
    rw [← hroom] at hlt
    have hsize : (c.pushEvent cfg ctx event).1.ctxEvents.size ≤
        (c.admitted cfg ctx).ctxEvents.size + 1 := by
      rw [← AssocMap.length_keys, ← AssocMap.length_keys, ← List.length_cons (a := ctx)]
      refine (List.subperm_of_subset (c.pushEvent cfg ctx event).1.ctxEvents.nodupKeys
        fun ctx' hin => ?_).length_le
      exact List.mem_cons.mpr ((mem_keys_pushEvent ctx').mp hin)
    omega

/-! ## 2. What holds of the contexts of every store -/

/-- An event as a buffer holds it: the score is an `int`, the type one of the three. -/
structure Storable (event : Event) : Prop where
  id : event.itemId ≠ []
  least : -(2 ^ 31) ≤ event.score
  lt : event.score < 2 ^ 31
  named : event.type.toByte ≤ 2

structure Sound (cfg : EventsConfig) (c : Contexts) : Prop where
  filled : ∀ ctx b, c.ctxEvents.find? ctx = some b → b.Filled
  capacity : ∀ ctx b, c.ctxEvents.find? ctx = some b → b.capacity = cfg.ctxBufferSize
  nonempty : ∀ ctx b, c.ctxEvents.find? ctx = some b → b.getAll ≠ []
  events : ∀ ctx b, c.ctxEvents.find? ctx = some b → ∀ e ∈ b.getAll, Storable e
  names : ∀ ctx ∈ c.ctxEvents.keys, ctx ≠ []
  accesses : ∀ ctx, ctx ∈ c.ctxLastAccess.keys ↔ ctx ∈ c.ctxEvents.keys
  bounded : cfg.maxContexts = 0 ∨ c.ctxEvents.size ≤ cfg.maxContexts

theorem Sound.empty (cfg : EventsConfig) : Sound cfg {} where
  filled := nofun
  capacity := nofun
  nonempty := nofun
  events := nofun
  names := nofun
  accesses _ := Iff.rfl
  bounded := .inr (Nat.zero_le _)

/-- Fewer contexts. -/
theorem Sound.erase (h : Sound cfg c) (victim : Bytes) :
    Sound cfg { c with
      ctxEvents := c.ctxEvents.erase victim
      ctxLastAccess := c.ctxLastAccess.erase victim } := by
  have hfind : ∀ ctx b, (c.ctxEvents.erase victim).find? ctx = some b →
      c.ctxEvents.find? ctx = some b := by
    intro ctx b hb
    rw [AssocMap.find?_erase] at hb
    split at hb
    · cases hb
    · exact hb
  refine ⟨fun ctx b hb => h.filled ctx b (hfind ctx b hb),
    fun ctx b hb => h.capacity ctx b (hfind ctx b hb),
    fun ctx b hb => h.nonempty ctx b (hfind ctx b hb),
    fun ctx b hb => h.events ctx b (hfind ctx b hb),
    fun ctx hctx => h.names ctx (AssocMap.mem_keys_erase.mp hctx).2, fun ctx => ?_,
    h.bounded.imp id fun hle => ?_⟩
  · rw [AssocMap.mem_keys_erase, AssocMap.mem_keys_erase, h.accesses]
  · exact Nat.le_trans (List.length_filter_le _ _) hle

theorem Sound.evict (h : Sound cfg c) : Sound cfg (c.evictLeastRecentlyUsedContext cfg) := by
  obtain heq | ⟨victim, at', -, heq⟩ := evict_cases cfg c
  · rw [heq]
    exact h
  · rw [heq]
    exact h.erase victim

theorem Sound.admitted (h : Sound cfg c) (ctx : Bytes) : Sound cfg (c.admitted cfg ctx) := by
  unfold Contexts.admitted
  split
  · exact h
  · exact h.evict

theorem Sound.bufferOf (h : Sound cfg c) (ctx : Bytes) :
    (c.bufferOf cfg ctx).Filled ∧ (c.bufferOf cfg ctx).capacity = cfg.ctxBufferSize ∧
      ∀ e ∈ (c.bufferOf cfg ctx).getAll, Storable e := by
  unfold Contexts.bufferOf
  cases hf : c.ctxEvents.find? ctx with
  | some b => exact ⟨h.filled ctx b hf, h.capacity ctx b hf, h.events ctx b hf⟩
  | none =>
    refine ⟨RingBuffer.filled_new _ _, rfl, fun e he => ?_⟩
    rw [Option.getD_none, RingBuffer.getAll_new] at he
    cases he

/-- **One more event** keeps the contexts sound. -/
theorem Sound.pushEvent (h : Sound cfg c) (hctx : ctx ≠ []) (hevent : Storable event) :
    Sound cfg (c.pushEvent cfg ctx event).1 := by
  obtain ⟨hfilled, hcap, hgood⟩ := h.bufferOf ctx
  have hadmitted := h.admitted ctx
  have hpush := RingBuffer.getAll_push hfilled event
  -- a buffer of the new contexts is the one pushed to, or one of the admitted contexts
  have hcases : ∀ ctx' b, (c.pushEvent cfg ctx event).1.ctxEvents.find? ctx' = some b →
      b = (c.bufferOf cfg ctx).push event ∨ (c.admitted cfg ctx).ctxEvents.find? ctx' = some b := by
    intro ctx' b hb
    rw [find?_pushEvent] at hb
    split at hb
    · cases hb
      exact .inl rfl
    · exact .inr hb
  constructor
  · intro ctx' b hb
    obtain rfl | hb := hcases ctx' b hb
    · exact hfilled.push event
    · exact hadmitted.filled ctx' b hb
  · intro ctx' b hb
    obtain rfl | hb := hcases ctx' b hb
    · exact hcap
    · exact hadmitted.capacity ctx' b hb
  · intro ctx' b hb
    obtain rfl | hb := hcases ctx' b hb
    · rw [hpush]
      simp
    · exact hadmitted.nonempty ctx' b hb
  · intro ctx' b hb e he
    obtain rfl | hb := hcases ctx' b hb
    · rw [hpush, List.mem_append, List.mem_singleton] at he
      rcases he with he | rfl
      · refine hgood e ?_
        split at he
        · exact he
        · exact List.mem_of_mem_tail he
      · exact hevent
    · exact hadmitted.events ctx' b hb e he
  · intro ctx' hin
    rcases (mem_keys_pushEvent ctx').mp hin with rfl | hin
    · exact hctx
    · exact hadmitted.names ctx' hin
  · intro ctx'
    rw [ctxLastAccess_pushEvent, AssocMap.mem_keys_insert, mem_keys_pushEvent, hadmitted.accesses]
  · exact bounded_pushEvent h.accesses h.bounded

end Contexts

theorem EventStore.config_addEventAndGetPrior (s : EventStore) (clock : Clock) (ctx id : Bytes)
    (score : Int) (type : EventType) (timestamp : UInt64) :
    (s.addEventAndGetPrior clock ctx id score type timestamp).1.config = s.config := by
  cases hv : validateEvent ctx id score type with
  | error e => rw [addEventAndGetPrior_invalid hv]
  | ok u =>
    cases hd : s.caches.wouldDeduplicate ctx id score type (resolveTimestamp timestamp clock)
        clock.steadyNow with
    | true => rw [addEventAndGetPrior_duplicate hv hd]
    | false => rw [addEventAndGetPrior_new hv hd]

/-- What passes the checks is stored as an event that can be restored. -/
theorem storable_of_validateEvent {ctx id : Bytes} {score : Int} {type : EventType}
    (hv : validateEvent ctx id score type = .ok ()) (hnamed : type.toByte ≤ 2)
    (timestamp : UInt64) :
    Contexts.Storable ⟨id, storedScore score type, timestamp, type⟩ := by
  obtain ⟨-, hid, hscore⟩ := validateEvent_ok hv
  have hrange : 0 ≤ storedScore score type ∧ storedScore score type ≤ 100 := by
    cases type with
    | DEL => simp [storedScore]
    | ADD => exact hscore (by simp)
    | SET => exact hscore (by simp)
    | unnamed raw hraw => exact hscore (by simp)
  refine ⟨hid, ?_, ?_, hnamed⟩
  · exact Int.le_trans (by decide) hrange.1
  · exact Int.lt_of_le_of_lt hrange.2 (by decide)

/-- **Ingestion keeps the contexts sound.** -/
theorem EventStore.sound_addEventAndGetPrior {s : EventStore} (h : s.contexts.Sound s.config)
    {type : EventType} (hnamed : type.toByte ≤ 2) (clock : Clock) (ctx id : Bytes) (score : Int)
    (timestamp : UInt64) :
    (s.addEventAndGetPrior clock ctx id score type timestamp).1.contexts.Sound s.config := by
  cases hv : validateEvent ctx id score type with
  | error e =>
    rw [addEventAndGetPrior_invalid hv]
    exact h
  | ok u =>
    cases hd : s.caches.wouldDeduplicate ctx id score type (resolveTimestamp timestamp clock)
        clock.steadyNow with
    | true =>
      rw [addEventAndGetPrior_duplicate hv hd]
      exact h
    | false =>
      rw [addEventAndGetPrior_new hv hd]
      exact h.pushEvent (validateEvent_ok hv).1 (storable_of_validateEvent hv hnamed _)

/-! ## 3. Taking events back -/

namespace EventStore

/-- `RestoreEvent` of an event with a name and a context. -/
def takeBack (s : EventStore) (e : Bytes × Event) : EventStore :=
  { s with
    totalEvents := s.totalEvents + 1
    contexts := (s.contexts.pushEvent s.config e.1 e.2).1
    caches := reseed s.caches e.1 e.2 }

theorem restoreEvent_eq_ok {s : EventStore} {ctx : Bytes} {event : Event} (hctx : ctx ≠ [])
    (hid : event.itemId ≠ []) : s.restoreEvent ctx event = .ok (s.takeBack (ctx, event)) := by
  unfold restoreEvent
  rw [if_neg hctx, if_neg hid]
  rfl

theorem restoreEvent_ok {s t : EventStore} {ctx : Bytes} {event : Event}
    (h : s.restoreEvent ctx event = .ok t) :
    ctx ≠ [] ∧ event.itemId ≠ [] ∧ t = s.takeBack (ctx, event) := by
  unfold restoreEvent at h
  split at h
  · cases h
  · split at h
    · cases h
    · cases h
      exact ⟨‹_›, ‹_›, rfl⟩

/-- The events one after the other. -/
def restoreAll (s : EventStore) (stored : List (Bytes × Event)) : EventStore :=
  stored.foldl takeBack s

theorem restoreAll_append (s : EventStore) (l l' : List (Bytes × Event)) :
    s.restoreAll (l ++ l') = (s.restoreAll l).restoreAll l' := List.foldl_append

theorem config_restoreAll (s : EventStore) (stored : List (Bytes × Event)) :
    (s.restoreAll stored).config = s.config := by
  induction stored generalizing s with
  | nil => rfl
  | cons e stored ih => exact ih (s.takeBack e)

/-- Restoring events that can be stored keeps the contexts sound. -/
theorem sound_restoreAll {cfg : EventsConfig} {s : EventStore} (hcfg : s.config = cfg)
    (hs : s.contexts.Sound cfg) {stored : List (Bytes × Event)}
    (hgood : ∀ e ∈ stored, e.1 ≠ [] ∧ Contexts.Storable e.2) :
    (s.restoreAll stored).contexts.Sound cfg := by
  induction stored generalizing s with
  | nil => exact hs
  | cons e stored ih =>
    obtain ⟨hctx, hevent⟩ := hgood e List.mem_cons_self
    have hpush : (s.takeBack e).contexts.Sound cfg := by
      show ((s.contexts.pushEvent s.config e.1 e.2).1).Sound cfg
      rw [hcfg]
      exact hs.pushEvent hctx hevent
    exact ih (s := s.takeBack e) hcfg hpush fun e' he' => hgood e' (List.mem_cons_of_mem e he')

/-- What the store holds, context by context. -/
def dumped (s : EventStore) (contexts : List Bytes) : List (Bytes × Event) :=
  contexts.flatMap fun ctx => (s.getEvents ctx).map fun event => (ctx, event)

variable {s t : EventStore} {contexts : List Bytes}

theorem eventsIn_map (ctx ctx' : Bytes) (events : List Event) :
    eventsIn ctx (events.map fun event => (ctx', event)) = if ctx' = ctx then events else [] := by
  by_cases h : ctx' = ctx
  · subst h
    simp [eventsIn, List.filter_map, Function.comp_def]
  · simp [eventsIn, List.filter_map, Function.comp_def, h]

theorem eventsIn_dumped (hnd : contexts.Nodup) (ctx : Bytes) :
    eventsIn ctx (s.dumped contexts) = if ctx ∈ contexts then s.getEvents ctx else [] := by
  induction contexts with
  | nil => rfl
  | cons ctx' contexts ih =>
    obtain ⟨hno, hnd⟩ := List.nodup_cons.mp hnd
    show eventsIn ctx ((s.getEvents ctx').map (fun event => (ctx', event)) ++
      s.dumped contexts) = _
    rw [eventsIn_append, eventsIn_map, ih hnd]
    by_cases h : ctx' = ctx
    · subst h
      rw [if_pos rfl, if_neg hno, List.append_nil, if_pos List.mem_cons_self]
    · rw [if_neg h, List.nil_append]
      simp [Ne.symm h]

theorem fst_mem_of_mem_dumped {e : Bytes × Event} (h : e ∈ s.dumped contexts) :
    e.1 ∈ contexts := by
  obtain ⟨ctx, hctx, he⟩ := List.mem_flatMap.mp h
  obtain ⟨event, -, rfl⟩ := List.mem_map.mp he
  exact hctx

/-- As many contexts as the store has, or fewer, find room in a store of the same limit. -/
theorem roomFor_of_subset {stored : List (Bytes × Event)}
    (hs : s.contexts.Sound s.config)
    (hsub : ∀ e ∈ stored, e.1 ∈ s.contexts.ctxEvents.keys) : RoomFor s.config stored := by
  refine hs.bounded.imp id fun hle => Nat.le_trans ?_ hle
  rw [← AssocMap.length_keys]
  refine (List.Nodup.subperm (List.nodup_dedup _) fun ctx hctx => ?_).length_le
  obtain ⟨e, he, rfl⟩ := List.mem_map.mp (List.mem_dedup.mp hctx)
  exact hsub e he

/-- Restoring holds what was restored, if there is room for all of it. -/
theorem contextsHold_restoreAll {cfg : EventsConfig} (done stored : List (Bytes × Event))
    (hcfg : t.config = cfg) (hold : ContextsHold cfg done t.contexts)
    (hroom : ∀ l, l <+: done ++ stored → RoomFor cfg l) :
    ContextsHold cfg (done ++ stored) (t.restoreAll stored).contexts := by
  induction stored generalizing t done with
  | nil =>
    rw [List.append_nil]
    exact hold
  | cons e stored ih =>
    have hstep : ContextsHold cfg (done ++ [e]) (t.takeBack e).contexts := by
      show ContextsHold cfg (done ++ [(e.1, e.2)]) (t.contexts.pushEvent t.config e.1 e.2).1
      rw [hcfg]
      refine (hold.pushEvent (hroom _ ?_)).1
      exact ⟨stored, by simp⟩
    have hnext := ih (done ++ [e]) (t := t.takeBack e) hcfg hstep (by simpa using hroom)
    rw [List.append_assoc] at hnext
    exact hnext

/-- **A store takes back what another one held**: from no context, and with the same
    configuration, every context has its events again, whatever the order of the contexts. -/
theorem getEvents_restoreAll (hs : s.contexts.Sound s.config) (hcfg : t.config = s.config)
    (hfresh : t.contexts = {}) (hperm : contexts.Perm s.contexts.ctxEvents.keys) (ctx : Bytes) :
    (t.restoreAll (s.dumped contexts)).getEvents ctx = s.getEvents ctx := by
  have hnd : contexts.Nodup := hperm.nodup_iff.mpr s.contexts.ctxEvents.nodupKeys
  have hsub : ∀ e ∈ s.dumped contexts, e.1 ∈ s.contexts.ctxEvents.keys := fun e he =>
    hperm.mem_iff.mp (fst_mem_of_mem_dumped he)
  have hold : ContextsHold s.config (s.dumped contexts)
      (t.restoreAll (s.dumped contexts)).contexts := by
    refine contextsHold_restoreAll [] _ hcfg ?_ fun l hl => ?_
    · rw [hfresh]
      exact contextsHold_empty s.config
    · exact roomFor_of_subset hs fun e he => hsub e (hl.subset he)
  have hown : eventsIn ctx (s.dumped contexts) = s.getEvents ctx := by
    rw [eventsIn_dumped hnd]
    split
    · rfl
    · rename_i hno
      rw [hperm.mem_iff] at hno
      rw [getEvents, AssocMap.find?_eq_none.mpr hno]
  -- a buffer gives back no more than it can hold
  have hshort : (s.getEvents ctx).length ≤ s.config.ctxBufferSize := by
    unfold getEvents
    cases hf : s.contexts.ctxEvents.find? ctx with
    | none => exact Nat.zero_le _
    | some b =>
      rw [← hs.capacity ctx b hf, RingBuffer.length_getAll]
      exact b.size_le
  cases hf : (t.restoreAll (s.dumped contexts)).contexts.ctxEvents.find? ctx with
  | some b =>
    rw [getEvents, hf]
    show b.getAll = _
    rw [(hold.buffers ctx b hf).getAll_eq, hown, List.rtake, Nat.sub_eq_zero_of_le hshort,
      List.drop_zero]
  | none =>
    have hno : ctx ∉ (s.dumped contexts).map Prod.fst := by
      rw [← hold.keys]
      exact AssocMap.find?_eq_none.mp hf
    rw [getEvents, hf, ← hown, eventsIn]
    symm
    rw [List.map_eq_nil_iff, List.filter_eq_nil_iff]
    intro e he hctx
    exact hno (List.mem_map.mpr ⟨e, he, by simpa using hctx⟩)

end EventStore

end Nvecd.Events
