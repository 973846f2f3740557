/-
  File:      Nvecd/Storage/SnapshotResume.lean
  Subject:   An event store after `DeserializeEventStore`, and the original continued directly.

  The format carries the buffers of the contexts and nothing else of the store. The order in which
  contexts were written, the time-window cache and the state cache are made up again on reading,
  the last from the events that are still in a buffer.

  * `Reachable` -- the stores a process can have: new ones, those after commands, restored ones;
  * `decides_alike` -- every later command is decided as by the original, as long as no decision
    rests on what the format leaves out;
  * `decides_unlike` -- and not otherwise: another context is evicted, a repeated `SET` is taken.
-/
import Nvecd.Events.Resume
import Nvecd.Storage.SnapshotEvents

namespace Nvecd.Storage.Snapshot

open Nvecd.Lib Nvecd.Utils Nvecd.Events

/-- **The event stores there can be** under a configuration: what is restored is whatever can be
    read. -/
inductive Reachable : EventsConfig → EventStore → Prop
  | new (cfg : EventsConfig) : Reachable cfg (.new cfg)
  | event {cfg : EventsConfig} {s : EventStore} (h : Reachable cfg s) (cmd : EventCommand) :
      Reachable cfg (s.respond cmd).1
  | restored {cfg : EventsConfig} {t : EventStore} {bytes rest : Bytes}
      (h : deserializeEventStore (.new cfg) bytes = .ok (t, rest)) : Reachable cfg t

section Reachable

variable {cfg : EventsConfig} {s : EventStore} {contexts : Order Bytes} {bytes : Bytes}

/-- Reading what was written restores every event of every buffer. -/
theorem Kept.deserialize (h : Kept cfg s) (hsave : serializeEventStore contexts s = .ok bytes) :
    deserializeEventStore (.new cfg) bytes =
      .ok ((EventStore.new cfg).clear.restoreAll
        (s.dumped (contexts.arrange s.contexts.ctxEvents.keys)), []) := by
  have hs : s.contexts.Sound s.config := by
    rw [h.config]
    exact h.sound
  have hread := deserialize_serializeEventStore hs hsave (.new cfg) []
  rwa [List.append_nil] at hread

theorem Reachable.kept (h : Reachable cfg s) : Kept cfg s := by
  induction h with
  | new => exact kept_new _
  | event h cmd ih => exact ih.respond cmd
  | restored h =>
    obtain ⟨stored, hgood, rfl⟩ := deserializeEventStore_eq_ok h
    exact kept_restoreAll hgood

/-- **The restored store decides like the original**: for every store there can be, every order in
    which its contexts are walked and every later list of commands, the answers are the same and
    the same contexts are evicted, if no decision rests on what the snapshot does not carry. -/
theorem decides_alike (h : Reachable cfg s) (hsave : serializeEventStore contexts s = .ok bytes) :
    ∃ t, deserializeEventStore (.new cfg) bytes = .ok (t, []) ∧
      ∀ later,
        Meets resume (fun g cmd => g.carriesOver
          (seededBy (s.dumped (contexts.arrange s.contexts.ctxEvents.keys))) cmd = true)
          { store := s } later →
        answers EventStore.respond s later = answers EventStore.respond t later := by
  have hk := h.kept
  have hperm := contexts.perm s.contexts.ctxEvents.keys
  refine ⟨_, Kept.deserialize hk hsave, fun later hok => ?_⟩
  exact (hk.resumed hperm).answers hok

theorem reachable_after (cfg : EventsConfig) (cmds : List EventCommand) :
    Reachable cfg (after EventStore.respond (.new cfg) cmds) :=
  after_inv (fun _ cmd h => h.event cmd) (.new cfg) cmds

end Reachable

/-- An `EVENT` command at time 7. -/
def eventAt (ctx id : Bytes) (score : Int) (type : EventType) (named : type.toByte ≤ 2) :
    EventCommand :=
  ⟨⟨7, 0⟩, ctx, id, score, type, 0, named⟩

/-- Two contexts; one has a state in its buffer. -/
def settled : EventStore :=
  after EventStore.respond (.new smallConfig)
    [eventAt [97] [120] 5 .SET named_SET, eventAt [98] [121] 3 .ADD named_ADD]

/-- The state again, an event beside it, a third context, and the state deleted. -/
def continuing : List EventCommand :=
  [eventAt [97] [120] 5 .SET named_SET, eventAt [97] [121] 4 .ADD named_ADD,
    eventAt [99] [121] 4 .ADD named_ADD, eventAt [97] [120] 0 .DEL named_DEL]

/-- The repeated `SET` is a duplicate for the restored store too, and the third context puts out
    the second. -/
theorem decides_alike_settled :
    ∃ bytes t, serializeEventStore .listed settled = .ok bytes ∧
      deserializeEventStore (.new smallConfig) bytes = .ok (t, []) ∧
      (answers EventStore.respond t continuing).map (fun d => d.result.map IngestResult.deduped) =
        [.ok true, .ok false, .ok false, .ok false] ∧
      (answers EventStore.respond t continuing).map Decision.evicted = [∅, ∅, {[98]}, ∅] := by
  obtain ⟨bytes, hsave⟩ : ∃ bytes, serializeEventStore .listed settled = .ok bytes := ⟨_, rfl⟩
  have hreach : Reachable smallConfig settled := reachable_after smallConfig _
  obtain ⟨t, hload, halike⟩ := decides_alike hreach hsave
  have hsame := halike continuing (by decide +kernel)
  refine ⟨bytes, t, hsave, hload, ?_, ?_⟩
  · rw [← hsame]
    decide +kernel
  · rw [← hsame]
    decide +kernel

/-- Two contexts, the first written again after the second. -/
def rewritten : EventStore :=
  after EventStore.respond (.new smallConfig)
    [eventAt [97] [120] 3 .ADD named_ADD, eventAt [98] [120] 3 .ADD named_ADD,
      eventAt [97] [121] 3 .ADD named_ADD]

/-- A state that two later events have pushed out of the buffer. -/
def overwritten : EventStore :=
  after EventStore.respond (.new smallConfig)
    [eventAt [97] [120] 5 .SET named_SET, eventAt [97] [121] 3 .ADD named_ADD,
      eventAt [97] [122] 3 .ADD named_ADD]

/-- **What the format leaves out decides.** The first store evicts the second of its contexts for
    a third, its restored copy the first, which was read before the second; the other store knows
    the repeated `SET`, its copy takes it as new. -/
theorem decides_unlike :
    (∃ bytes t, Reachable smallConfig rewritten ∧
      serializeEventStore .listed rewritten = .ok bytes ∧
      deserializeEventStore (.new smallConfig) bytes = .ok (t, []) ∧
      (rewritten.respond (eventAt [99] [120] 3 .ADD (by decide))).2.evicted = {[98]} ∧
      (t.respond (eventAt [99] [120] 3 .ADD (by decide))).2.evicted = {[97]}) ∧
    ∃ bytes t, Reachable smallConfig overwritten ∧
      serializeEventStore .listed overwritten = .ok bytes ∧
      deserializeEventStore (.new smallConfig) bytes = .ok (t, []) ∧
      (overwritten.respond (eventAt [97] [120] 5 .SET (by decide))).2.result.map
        IngestResult.deduped = .ok true ∧
      (t.respond (eventAt [97] [120] 5 .SET (by decide))).2.result.map
        IngestResult.deduped = .ok false := by
  constructor
  · exact ⟨_, _, reachable_after smallConfig _, rfl, rfl, by decide +kernel, by decide +kernel⟩
  · exact ⟨_, _, reachable_after smallConfig _, rfl, rfl, by decide +kernel, by decide +kernel⟩

end Nvecd.Storage.Snapshot
