/-
  File:      Nvecd/Events/Buffers.lean
  Subject:   What the ring buffers of the contexts hold.

  A ring buffer of capacity `n` that was filled from its beginning holds the last `n` elements it
  was given, the oldest first (`Holds`). The contexts hold, each, the last events they were
  given, as long as none of them has been evicted (`ContextsHold`).
-/
import Mathlib.Data.List.DropRight
import Nvecd.Events.EventStore

namespace Nvecd.Events

open Nvecd.Lib Nvecd.Storage

/-! ## 1. One buffer -/

namespace RingBuffer

variable {α : Type}

/-- Until it is full, a buffer is filled from its beginning. -/
def Filled (b : RingBuffer α) : Prop := b.size < b.capacity → b.head = b.size

theorem filled_new [Inhabited α] (capacity : Nat) (h : 0 < capacity) :
    (RingBuffer.new capacity h : RingBuffer α).Filled := fun _ => rfl

theorem getAll_new [Inhabited α] (capacity : Nat) (h : 0 < capacity) :
    (RingBuffer.new capacity h : RingBuffer α).getAll = [] := rfl

theorem Filled.push {b : RingBuffer α} (h : b.Filled) (item : α) : (b.push item).Filled := by
  intro hlt
  simp only [RingBuffer.push] at hlt ⊢
  by_cases hfull : b.size < b.capacity
  · rw [if_pos hfull] at hlt ⊢
    rw [h hfull, Nat.mod_eq_of_lt hlt]
  · rw [if_neg hfull] at hlt
    exact absurd hlt hfull

theorem length_getAll (b : RingBuffer α) : b.getAll.length = b.size := by
  have hlen := b.length_buffer
  have hsize := b.size_le
  have hhead := b.head_lt
  unfold getAll
  split
  · rename_i h0
    simp [h0]
  · split
    · simp only [List.length_take]
      omega
    · simp only [List.length_append, List.length_drop, List.length_take]
      omega

/-- **One more element**: behind the others, in the place of the oldest if there is no room. -/
theorem getAll_push {b : RingBuffer α} (h : b.Filled) (item : α) :
    (b.push item).getAll =
      (if b.size < b.capacity then b.getAll else b.getAll.tail) ++ [item] := by
  have hlen := b.length_buffer
  have hsize := b.size_le
  have hhead := b.head_lt
  have hset : ∀ n, n < b.capacity →
      (b.buffer.set n item).take (n + 1) = b.buffer.take n ++ [item] := by
    intro n hn
    rw [List.take_succ_eq_append_getElem (by simpa [hlen] using hn), List.getElem_set_self,
      List.take_set_of_le (Nat.le_refl n)]
  have htake : ∀ n, n + 1 = b.capacity → b.buffer.set n item = b.buffer.take n ++ [item] := by
    intro n hn
    rw [← hset n (by omega), List.take_of_length_le]
    simp [hlen, hn]
  by_cases hroom : b.size < b.capacity
  · rw [if_pos hroom]
    have hh := h hroom
    have hold : b.getAll = b.buffer.take b.size := by
      unfold getAll
      rw [if_pos hroom]
      split
      · rename_i h0
        rw [h0, List.take_zero]
      · rfl
    rw [hold]
    simp only [getAll, push, if_pos hroom, Nat.add_eq_zero_iff, Nat.one_ne_zero, and_false, if_false]
    by_cases hmore : b.size + 1 < b.capacity
    · rw [if_pos hmore, hh, hset b.size hroom]
    · have hlast : b.size + 1 = b.capacity := by omega
      rw [if_neg hmore, hh, hlast, Nat.mod_self, List.drop_zero, List.take_zero, List.append_nil,
        htake b.size hlast]
  · rw [if_neg hroom]
    have hfull : b.size = b.capacity := by omega
    have h0 : b.size ≠ 0 := by omega
    -- the oldest element is the one at `head`
    have hold : b.getAll.tail = b.buffer.drop (b.head + 1) ++ b.buffer.take b.head := by
      unfold getAll
      rw [if_neg h0, if_neg hroom, List.drop_eq_getElem_cons (by omega), List.cons_append,
        List.tail_cons]
    rw [hold]
    simp only [getAll, push, if_neg hroom, if_neg h0]
    by_cases hmore : b.head + 1 < b.capacity
    · rw [Nat.mod_eq_of_lt hmore, List.drop_set_of_lt (by omega), hset b.head hhead,
        List.append_assoc]
    · have hlast : b.head + 1 = b.capacity := by omega
      have hdrop : b.buffer.drop (b.head + 1) = [] := List.drop_of_length_le (by omega)
      rw [hlast, Nat.mod_self, List.drop_zero, List.take_zero, List.append_nil,
        htake b.head hlast, ← hlast, hdrop, List.nil_append]

/-- The buffer holds the last elements of the list. -/
structure Holds (capacity : Nat) (l : List α) (b : RingBuffer α) : Prop where
  filled : b.Filled
  capacity_eq : b.capacity = capacity
  getAll_eq : b.getAll = l.rtake capacity

theorem holds_new [Inhabited α] (capacity : Nat) (h : 0 < capacity) :
    Holds capacity [] (RingBuffer.new capacity h : RingBuffer α) :=
  ⟨filled_new capacity h, rfl, by rw [getAll_new, List.rtake_nil]⟩

theorem rtake_append_singleton {l : List α} {n : Nat} (item : α) (hn : 0 < n) :
    (l ++ [item]).rtake n =
      (if l.length < n then l.rtake n else (l.rtake n).tail) ++ [item] := by
  obtain ⟨k, rfl⟩ : ∃ k, n = k + 1 := ⟨n - 1, by omega⟩
  rw [List.rtake_concat_succ]
  split
  · rename_i hlt
    rw [List.rtake, List.rtake]
    congr 1
    have h1 : l.length - k = 0 := by omega
    have h2 : l.length - (k + 1) = 0 := by omega
    rw [h1, h2]
  · rename_i hge
    rw [List.rtake, List.rtake, List.tail_drop]
    congr 2
    omega

/-- **Push.** -/
theorem Holds.push {capacity : Nat} {l : List α} {b : RingBuffer α} (h : Holds capacity l b)
    (item : α) : Holds capacity (l ++ [item]) (b.push item) := by
  have hpos : 0 < capacity := by
    have := b.head_lt
    have := h.capacity_eq
    omega
  have hsize : b.size < b.capacity ↔ l.length < capacity := by
    rw [← length_getAll, h.getAll_eq, h.capacity_eq, List.rtake, List.length_drop]
    omega
  refine ⟨h.filled.push item, h.capacity_eq, ?_⟩
  rw [getAll_push h.filled, rtake_append_singleton item hpos, h.getAll_eq]
  simp only [hsize]

end RingBuffer

/-! ## 2. All contexts -/

/-- The events of one context in a list of events with their contexts. -/
def eventsIn (ctx : Bytes) (stored : List (Bytes × Event)) : List Event :=
  (stored.filter fun e => e.1 = ctx).map Prod.snd

@[simp] theorem eventsIn_nil (ctx : Bytes) : eventsIn ctx [] = [] := rfl

theorem eventsIn_append (ctx : Bytes) (l l' : List (Bytes × Event)) :
    eventsIn ctx (l ++ l') = eventsIn ctx l ++ eventsIn ctx l' := by
  simp [eventsIn]

theorem eventsIn_singleton (ctx ctx' : Bytes) (event : Event) :
    eventsIn ctx [(ctx', event)] = if ctx' = ctx then [event] else [] := by
  by_cases h : ctx' = ctx <;> simp [eventsIn, h]

/-- **What the contexts hold** when none was evicted: each its last events. -/
structure ContextsHold (cfg : EventsConfig) (stored : List (Bytes × Event)) (c : Contexts) :
    Prop where
  buffers : ∀ ctx b, c.ctxEvents.find? ctx = some b →
    b.Holds cfg.ctxBufferSize (eventsIn ctx stored)
  keys : ∀ ctx, ctx ∈ c.ctxEvents.keys ↔ ctx ∈ stored.map Prod.fst

/-- There is room for the contexts of the list. -/
def RoomFor (cfg : EventsConfig) (stored : List (Bytes × Event)) : Prop :=
  cfg.maxContexts = 0 ∨ (stored.map Prod.fst).dedup.length ≤ cfg.maxContexts

section Contexts

variable {cfg : EventsConfig} {stored : List (Bytes × Event)} {c : Contexts} {ctx : Bytes}
  {event : Event}

theorem contextsHold_empty (cfg : EventsConfig) : ContextsHold cfg [] {} :=
  ⟨(fun ctx b h => by cases h), (fun ctx => by simp)⟩

theorem ContextsHold.size (h : ContextsHold cfg stored c) :
    c.ctxEvents.size = (stored.map Prod.fst).dedup.length := by
  rw [← AssocMap.length_keys]
  apply List.Perm.length_eq
  have hnd : c.ctxEvents.keys.Nodup := c.ctxEvents.nodupKeys
  rw [List.perm_ext_iff_of_nodup hnd (List.nodup_dedup _)]
  intro ctx
  rw [List.mem_dedup]
  exact h.keys ctx

/-- A context with room for it is not made at the cost of another. -/
theorem ContextsHold.not_evicted (h : ContextsHold cfg stored c)
    (hroom : RoomFor cfg (stored ++ [(ctx, event)])) (hnew : c.ctxEvents.find? ctx = none) :
    c.evictLeastRecentlyUsedContext cfg = c := by
  unfold Contexts.evictLeastRecentlyUsedContext
  refine if_pos (hroom.imp id fun hle => ?_)
  have hno : ctx ∉ (stored.map Prod.fst).dedup := by
    rw [List.mem_dedup, ← h.keys]
    exact AssocMap.find?_eq_none.mp hnew
  have hlen : ((stored ++ [(ctx, event)]).map Prod.fst).dedup.length =
      (stored.map Prod.fst).dedup.length + 1 := by
    have hperm : ((stored ++ [(ctx, event)]).map Prod.fst).dedup.Perm
        (ctx :: (stored.map Prod.fst).dedup) := by
      rw [List.perm_ext_iff_of_nodup (List.nodup_dedup _)
        (List.nodup_cons.mpr ⟨hno, List.nodup_dedup _⟩)]
      intro ctx'
      simp [or_comm]
    rw [hperm.length_eq, List.length_cons]
  rw [h.size]
  omega

/-- **The event goes to its context**, which returns what it held. -/
theorem ContextsHold.pushEvent (h : ContextsHold cfg stored c)
    (hroom : RoomFor cfg (stored ++ [(ctx, event)])) :
    ContextsHold cfg (stored ++ [(ctx, event)]) (c.pushEvent cfg ctx event).1 ∧
      (c.pushEvent cfg ctx event).2 = (eventsIn ctx stored).rtake cfg.ctxBufferSize := by
  -- the buffer the event goes to, old or new
  obtain ⟨b, hholds, hpush⟩ : ∃ b : RingBuffer Event,
      b.Holds cfg.ctxBufferSize (eventsIn ctx stored) ∧
      (∀ ctx', ctx' ≠ ctx →
        (c.pushEvent cfg ctx event).1.ctxEvents.find? ctx' = c.ctxEvents.find? ctx') ∧
      (c.pushEvent cfg ctx event).1.ctxEvents.find? ctx = some (b.push event) ∧
      (c.pushEvent cfg ctx event).2 = b.getAll := by
    unfold Contexts.pushEvent Contexts.touchContext
    cases hf : c.ctxEvents.find? ctx with
    | some b =>
      refine ⟨b, h.buffers ctx b hf, fun ctx' hne => ?_, ?_, ?_⟩
      · exact AssocMap.find?_insert_of_ne _ _ hne
      · simp only [hf, Option.getD_some, AssocMap.find?_insert_self]
      · simp only [hf, Option.getD_some]
    | none =>
      have hnone : eventsIn ctx stored = [] := by
        have hno : ctx ∉ stored.map Prod.fst := by
          rw [← h.keys]
          exact AssocMap.find?_eq_none.mp hf
        rw [eventsIn, List.map_eq_nil_iff, List.filter_eq_nil_iff]
        intro e he hctx
        exact hno (List.mem_map.mpr ⟨e, he, by simpa using hctx⟩)
      simp only [h.not_evicted hroom hf, AssocMap.find?_insert_self, Option.getD_some]
      refine ⟨.new cfg.ctxBufferSize cfg.ctxBufferSize_pos, ?_, fun ctx' hne => ?_, rfl, rfl⟩
      · rw [hnone]
        exact RingBuffer.holds_new _ _
      · rw [AssocMap.find?_insert_of_ne _ _ hne, AssocMap.find?_insert_of_ne _ _ hne]
  obtain ⟨hother, hown, hprior⟩ := hpush
  refine ⟨⟨fun ctx' b' hb' => ?_, fun ctx' => ?_⟩, by rw [hprior, hholds.getAll_eq]⟩
  · rw [eventsIn_append, eventsIn_singleton]
    by_cases hctx : ctx' = ctx
    · subst hctx
      rw [hown] at hb'
      cases hb'
      rw [if_pos rfl]
      exact hholds.push event
    · rw [hother ctx' hctx] at hb'
      rw [if_neg (Ne.symm hctx), List.append_nil]
      exact h.buffers ctx' b' hb'
  · rw [AssocMap.mem_keys, List.map_append, List.mem_append]
    by_cases hctx : ctx' = ctx
    · subst hctx
      simp [hown]
    · rw [hother ctx' hctx, ← AssocMap.mem_keys, h.keys]
      simp [hctx]

end Contexts

end Nvecd.Events
