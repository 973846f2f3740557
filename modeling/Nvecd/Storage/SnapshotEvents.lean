/-
  File:      Nvecd/Storage/SnapshotEvents.lean
  Subject:   The events and co-occurrence sections of `storage/snapshot_format_v1.cpp`
             (`SerializeEventStore` … `DeserializeCoOccurrenceIndex`).

  Both sections are read back through the stores' own operations: `RestoreEvent`, which pushes to
  a ring buffer and may evict a context, and `SetScore`, which writes both directions of a pair.
  The order of contexts, items and neighbours is that of hash maps, hence any.

  * `deserialize_serializeEventStore` -- reading is `RestoreEvent` of every event written;
  * `deserialize_serializeCoOccurrenceIndex` -- every entry is back, and no other;
  * `Ingestion`, `ingest` -- the two stores under ingestion, decay and pruning;
  * `events_round_trip` -- what such a run leads to is restored.
-/
import Nvecd.Events.CoMatrix
import Nvecd.Events.Restore
import Nvecd.Storage.SnapshotStream
import Nvecd.Vectors.VectorStore

namespace Nvecd.Storage.Snapshot

open Nvecd.Lib Nvecd.Utils Nvecd.Events Nvecd.Vectors SparseMatrix

/-! ## 1. Events -/

def serializeEvent (event : Event) : Except Error Bytes := do
  let id ← orError (writeError "Failed to write event id") (writeString event.itemId)
  return id ++ (leBytes 4 (int32Bits event.score) ++
    event.type.toByte :: leBytes 8 event.timestamp.toNat)

def serializeContext (s : EventStore) (ctx : Bytes) : Except Error Bytes := do
  let name ← orError (writeError ("Failed to write context name: " ++ textOf ctx))
    (writeString ctx)
  let events := s.getEvents ctx
  let count ← checkedSizeToU32 events.length kMaxU32 "event count"
  let body ← writeAll serializeEvent events
  return name ++ (leBytes 4 count ++ body)

/-- `SerializeEventStore`. -/
def serializeEventStore (contexts : Order Bytes) (s : EventStore) : Except Error Bytes := do
  let all := contexts.arrange s.contexts.ctxEvents.keys
  let count ← checkedSizeToU32 all.length kMaxU32 "event context count"
  let body ← writeAll (serializeContext s) all
  return leBytes 4 count ++ body

def deserializeEvent (ctx : Bytes) (s : EventStore) (stream : Bytes) :
    Except Error (EventStore × Bytes) := do
  let (id, stream) ← orError (readError "Failed to read event id") (readString stream)
  let (score, stream) ← orError (readError "Failed to read event score") (readNumber 4 stream)
  let (type, stream) ← orError (readError "Failed to read event type") (readNumber 1 stream)
  let (timestamp, stream) ← orError (readError "Failed to read event timestamp")
    (readNumber 8 stream)
  if type > 2 then .error (readError ("Invalid event type: " ++ toString type))
  else
    let event : Event :=
      ⟨id, int32OfBits score, UInt64.ofNat timestamp, .ofByte (UInt8.ofNat type)⟩
    match s.restoreEvent ctx event with
    | .error e => .error (readError ("Failed to restore event: " ++ e.message))
    | .ok s => return (s, stream)

/-- The length of an id, a score, a type and a time stamp. -/
def kMinSerializedEventSize : Nat := 17

def deserializeContext (s : EventStore) (stream : Bytes) : Except Error (EventStore × Bytes) := do
  let (ctx, stream) ← orError (readError "Failed to read context name") (readString stream)
  let (count, stream) ← orError
    (readError ("Failed to read event count for context: " ++ textOf ctx)) (readNumber 4 stream)
  if ¬ hasRemainingBytes stream (count * kMinSerializedEventSize) then
    .error (readError ("Event count exceeds remaining data for context: " ++ textOf ctx))
  else readMany (deserializeEvent ctx) count s stream

/-- `DeserializeEventStore`. -/
def deserializeEventStore (s : EventStore) (stream : Bytes) :
    Except Error (EventStore × Bytes) := do
  let s := s.clear
  let (count, stream) ← orError (readError "Failed to read context count") (readNumber 4 stream)
  if ¬ hasRemainingBytes stream (count * 8) then
    .error (readError "Context count exceeds remaining store data")
  else readMany deserializeContext count s stream

section Events

variable {s t : EventStore} {event : Event} {ctx b : Bytes}

theorem serializeEvent_eq_ok (h : serializeEvent event = .ok b) :
    ∃ id, writeString event.itemId = some id ∧
      b = id ++ (leBytes 4 (int32Bits event.score) ++
        event.type.toByte :: leBytes 8 event.timestamp.toNat) := by
  obtain ⟨id, hid, h⟩ := bind_eq_ok.1 h
  cases h
  exact ⟨id, orError_eq_ok.1 hid, rfl⟩

theorem deserializeEvent_serializeEvent (hctx : ctx ≠ []) (hevent : Contexts.Storable event)
    (h : serializeEvent event = .ok b) (rest : Bytes) :
    deserializeEvent ctx t (b ++ rest) = .ok (t.takeBack (ctx, event), rest) := by
  obtain ⟨id, hid, rfl⟩ := serializeEvent_eq_ok h
  have htype : ¬ event.type.toByte.toNat > 2 := Nat.not_lt.mpr hevent.named
  have hscore : int32OfBits (int32Bits event.score) = event.score :=
    int32OfBits_int32Bits hevent.least hevent.lt
  have htime : event.timestamp.toNat < 256 ^ 8 := event.timestamp.toNat_lt
  unfold deserializeEvent
  simp only [List.append_assoc, List.cons_append, readString_writeString hid,
    readNumber_leBytes (int32Bits_lt event.score), readNumber_one,
    readNumber_leBytes htime, orError_some, ok_bind, if_neg htype, hscore,
    UInt8.ofNat_toNat, UInt64.ofNat_toNat, EventType.ofByte_toByte,
    EventStore.restoreEvent_eq_ok hctx hevent.id]
  rfl

/-- Whatever is read as an event can be stored, and is. -/
theorem deserializeEvent_eq_ok {stream rest : Bytes}
    (h : deserializeEvent ctx s stream = .ok (t, rest)) :
    ∃ event, ctx ≠ [] ∧ Contexts.Storable event ∧ t = s.takeBack (ctx, event) := by
  obtain ⟨⟨id, s₁⟩, -, h⟩ := bind_eq_ok.1 h
  obtain ⟨⟨score, s₂⟩, hscore, h⟩ := bind_eq_ok.1 h
  obtain ⟨⟨type, s₃⟩, -, h⟩ := bind_eq_ok.1 h
  obtain ⟨⟨timestamp, s₄⟩, -, h⟩ := bind_eq_ok.1 h
  simp only at h
  split at h
  · cases h
  · rename_i htype
    split at h
    · cases h
    · rename_i t' hrestore
      cases h
      obtain ⟨hctx, hid, rfl⟩ := EventStore.restoreEvent_ok hrestore
      obtain ⟨front, -, hfront, rfl⟩ := readNumber_eq_some (orError_eq_ok.1 hscore)
      have hlt : ofLeBytes front < 256 ^ 4 := hfront ▸ ofLeBytes_lt front
      refine ⟨_, hctx, ⟨hid, ?_, ?_, ?_⟩, rfl⟩
      · exact (int32OfBits_range hlt).1
      · exact (int32OfBits_range hlt).2
      · show (EventType.ofByte (UInt8.ofNat type)).toByte ≤ 2
        have hcases : type = 0 ∨ type = 1 ∨ type = 2 := by omega
        rcases hcases with rfl | rfl | rfl <;> decide

/-- `t` is `s` with some events restored that can be stored. -/
def TakenBack (s t : EventStore) : Prop :=
  ∃ stored : List (Bytes × Event), (∀ e ∈ stored, e.1 ≠ [] ∧ Contexts.Storable e.2) ∧
    t = s.restoreAll stored

/-- **Whatever is read as an events section** restores some events that can be stored. -/
theorem deserializeEventStore_eq_ok {stream rest : Bytes}
    (h : deserializeEventStore s stream = .ok (t, rest)) :
    TakenBack s.clear t := by
  obtain ⟨⟨count, s₁⟩, -, h⟩ := bind_eq_ok.1 h
  simp only at h
  split at h
  · cases h
  · refine readMany_inv (TakenBack s.clear) (fun u stream u' rest hu hread => ?_)
      ⟨[], nofun, rfl⟩ h
    obtain ⟨⟨ctx, s₂⟩, -, hread⟩ := bind_eq_ok.1 hread
    obtain ⟨⟨events, s₃⟩, -, hread⟩ := bind_eq_ok.1 hread
    simp only at hread
    split at hread
    · cases hread
    · refine readMany_inv (TakenBack s.clear) (fun v stream v' rest hv hone => ?_) hu hread
      obtain ⟨stored, hgood, rfl⟩ := hv
      obtain ⟨event, hctx, hevent, rfl⟩ := deserializeEvent_eq_ok hone
      refine ⟨stored ++ [(ctx, event)], fun e he => ?_, ?_⟩
      · rcases List.mem_append.mp he with he | he
        · exact hgood e he
        · obtain rfl := List.mem_singleton.mp he
          exact ⟨hctx, hevent⟩
      · rw [EventStore.restoreAll_append]
        rfl

theorem serializeContext_eq_ok (h : serializeContext s ctx = .ok b) :
    ∃ name body, writeString ctx = some name ∧
      writeAll serializeEvent (s.getEvents ctx) = .ok body ∧
      (s.getEvents ctx).length < 256 ^ 4 ∧
      b = name ++ (leBytes 4 (s.getEvents ctx).length ++ body) := by
  obtain ⟨name, hname, h⟩ := bind_eq_ok.1 h
  obtain ⟨count, hcount, h⟩ := bind_eq_ok.1 h
  obtain ⟨body, hbody, h⟩ := bind_eq_ok.1 h
  cases h
  obtain ⟨rfl, -, hfit⟩ := checkedSizeToU32_ok hcount
  exact ⟨name, body, orError_eq_ok.1 hname, hbody, hfit, rfl⟩

/-- Some events of `ctx` are restored, the others still to come. -/
def EventsRead (ctx : Bytes) (t₀ : EventStore) (all : List Event) (t : EventStore)
    (xs : List Event) : Prop :=
  (∀ e ∈ xs, Contexts.Storable e) ∧
    ∃ done, done ++ xs = all ∧ t = t₀.restoreAll (done.map fun event => (ctx, event))

theorem deserializeContext_serializeContext (hctx : ctx ≠ [])
    (hevents : ∀ e ∈ s.getEvents ctx, Contexts.Storable e) (h : serializeContext s ctx = .ok b)
    (rest : Bytes) :
    deserializeContext t (b ++ rest) =
      .ok (t.restoreAll ((s.getEvents ctx).map fun event => (ctx, event)), rest) := by
  obtain ⟨name, body, hname, hbody, hfit, rfl⟩ := serializeContext_eq_ok h
  have hrem : hasRemainingBytes (body ++ rest)
      ((s.getEvents ctx).length * kMinSerializedEventSize) = true := by
    have hlen : (s.getEvents ctx).length * kMinSerializedEventSize ≤ body.length := by
      refine length_writeAll (fun e _ b hb => ?_) hbody
      obtain ⟨id, hid, rfl⟩ := serializeEvent_eq_ok hb
      simp only [List.length_append, List.length_cons, length_writeString hid, length_leBytes,
        kMinSerializedEventSize]
      omega
    simp only [hasRemainingBytes, List.length_append, decide_eq_true_eq]
    omega
  have hstart : EventsRead ctx t (s.getEvents ctx) t (s.getEvents ctx) :=
    ⟨hevents, [], rfl, rfl⟩
  obtain ⟨t', hread, -, done, hdone, rfl⟩ := readMany_writeAll
    (fun t' event xs b rest (hr : EventsRead ctx t (s.getEvents ctx) t' (event :: xs)) hb => by
      obtain ⟨hgood, done, hall, rfl⟩ := hr
      refine ⟨_, deserializeEvent_serializeEvent hctx (hgood event List.mem_cons_self) hb rest,
        fun e he => hgood e (List.mem_cons_of_mem event he), done ++ [event], by simpa using hall,
        ?_⟩
      rw [List.map_append, EventStore.restoreAll_append]
      rfl)
    hstart hbody rest
  rw [List.append_nil] at hdone
  simp only [deserializeContext, List.append_assoc, readString_writeString hname,
    readNumber_leBytes hfit, orError_some, ok_bind, hrem, not_true_eq_false, if_false, hread, hdone]

/-- Some contexts are restored, the others still to come. -/
def ContextsRead (s t₀ : EventStore) (all : List Bytes) (t : EventStore) (xs : List Bytes) :
    Prop :=
  ∃ done, done ++ xs = all ∧ t = t₀.restoreAll (s.dumped done)

/-- **Reading the events section** is `RestoreEvent` of everything the store held. -/
theorem deserialize_serializeEventStore (hs : s.contexts.Sound s.config) {contexts : Order Bytes}
    {bytes : Bytes} (h : serializeEventStore contexts s = .ok bytes) (fresh : EventStore)
    (rest : Bytes) :
    deserializeEventStore fresh (bytes ++ rest) =
      .ok (fresh.clear.restoreAll (s.dumped (contexts.arrange s.contexts.ctxEvents.keys)),
        rest) := by
  obtain ⟨count, hcount, h⟩ := bind_eq_ok.1 h
  obtain ⟨body, hbody, h⟩ := bind_eq_ok.1 h
  cases h
  obtain ⟨rfl, -, hfit⟩ := checkedSizeToU32_ok hcount
  have hperm := contexts.perm s.contexts.ctxEvents.keys
  generalize contexts.arrange s.contexts.ctxEvents.keys = all at *
  have hrem : hasRemainingBytes (body ++ rest) (all.length * 8) = true := by
    have hlen : all.length * 8 ≤ body.length := by
      refine length_writeAll (fun ctx _ b hb => ?_) hbody
      obtain ⟨name, body, hname, -, -, rfl⟩ := serializeContext_eq_ok hb
      simp only [List.length_append, length_writeString hname, length_leBytes]
      omega
    simp only [hasRemainingBytes, List.length_append, decide_eq_true_eq]
    omega
  have hstart : ContextsRead s fresh.clear all fresh.clear all := ⟨[], rfl, rfl⟩
  obtain ⟨t', hread, done, hdone, rfl⟩ := readMany_writeAll
    (fun t' ctx xs b rest (hr : ContextsRead s fresh.clear all t' (ctx :: xs)) hb => by
      obtain ⟨done, hall, rfl⟩ := hr
      have hin : ctx ∈ s.contexts.ctxEvents.keys :=
        hperm.mem_iff.mp (hall ▸ List.mem_append_right done List.mem_cons_self)
      have hgood : ∀ e ∈ s.getEvents ctx, Contexts.Storable e := by
        intro e he
        obtain ⟨buffer, hbuffer⟩ := AssocMap.mem_keys.mp hin
        rw [EventStore.getEvents, hbuffer] at he
        exact hs.events ctx buffer hbuffer e he
      refine ⟨_, deserializeContext_serializeContext (hs.names ctx hin) hgood hb rest,
        done ++ [ctx], by simpa using hall, ?_⟩
      rw [← EventStore.restoreAll_append]
      simp [EventStore.dumped])
    hstart hbody rest
  rw [List.append_nil] at hdone
  simp only [deserializeEventStore, List.append_assoc, readNumber_leBytes hfit, orError_some,
    ok_bind, hrem, not_true_eq_false, if_false, hread, hdone]

end Events

/-! ## 2. Co-occurrence scores -/

section Codec

variable {F : Type} [FloatBits F]

def serializeNeighbor (e : Bytes × F) : Except Error Bytes := do
  let id ← orError (writeError "Failed to write co-item name") (writeString e.1)
  return id ++ leBytes 4 (FloatBits.toBits e.2).toNat

def serializeRow (neighbors : Bytes → Order (Bytes × F)) (x : CoOccurrenceIndex F)
    (item1 : Bytes) : Except Error Bytes := do
  let name ← orError (writeError ("Failed to write item name: " ++ textOf item1))
    (writeString item1)
  let coItems := (neighbors item1).arrange ((x.coScores.find? item1).getD .empty).entries
  let count ← checkedSizeToU32 coItems.length kMaxU32 "co-occurrence neighbor count"
  let body ← writeAll serializeNeighbor coItems
  return name ++ (leBytes 4 count ++ body)

/-- `SerializeCoOccurrenceIndex`. -/
def serializeCoOccurrenceIndex (items : Order Bytes) (neighbors : Bytes → Order (Bytes × F))
    (x : CoOccurrenceIndex F) : Except Error Bytes := do
  let all := items.arrange x.coScores.keys
  let count ← checkedSizeToU32 all.length kMaxU32 "co-occurrence item count"
  let body ← writeAll (serializeRow neighbors x) all
  return leBytes 4 count ++ body

variable [FloatOps F]

def deserializeNeighbor (item1 : Bytes) (x : CoOccurrenceIndex F) (stream : Bytes) :
    Except Error (CoOccurrenceIndex F × Bytes) := do
  let (item2, stream) ← orError (readError "Failed to read co-item name") (readString stream)
  let (score, stream) ← orError (readError "Failed to read co-occurrence score")
    (readNumber 4 stream)
  return (x.setScore item1 item2 (FloatBits.ofBits (UInt32.ofNat score)), stream)

/-- The length of a name and a score. -/
def kMinSerializedNeighborSize : Nat := 8

def deserializeRow (x : CoOccurrenceIndex F) (stream : Bytes) :
    Except Error (CoOccurrenceIndex F × Bytes) := do
  let (item1, stream) ← orError (readError "Failed to read item name") (readString stream)
  let (count, stream) ← orError
    (readError ("Failed to read co-item count for: " ++ textOf item1)) (readNumber 4 stream)
  if ¬ hasRemainingBytes stream (count * kMinSerializedNeighborSize) then
    .error (readError ("Neighbor count exceeds remaining data for: " ++ textOf item1))
  else readMany (deserializeNeighbor item1) count x stream

/-- `DeserializeCoOccurrenceIndex`. -/
def deserializeCoOccurrenceIndex (x : CoOccurrenceIndex F) (stream : Bytes) :
    Except Error (CoOccurrenceIndex F × Bytes) := do
  let x := x.clear
  let (count, stream) ← orError (readError "Failed to read item count") (readNumber 4 stream)
  if ¬ hasRemainingBytes stream (count * 8) then
    .error (readError "Item count exceeds remaining store data")
  else readMany deserializeRow count x stream

variable {x y : CoOccurrenceIndex F} {item1 b : Bytes} {neighbors : Bytes → Order (Bytes × F)}

omit [FloatOps F] in
theorem serializeNeighbor_eq_ok {e : Bytes × F} (h : serializeNeighbor e = .ok b) :
    ∃ id, writeString e.1 = some id ∧ b = id ++ leBytes 4 (FloatBits.toBits e.2).toNat := by
  obtain ⟨id, hid, h⟩ := bind_eq_ok.1 h
  cases h
  exact ⟨id, orError_eq_ok.1 hid, rfl⟩

theorem deserializeNeighbor_serializeNeighbor {e : Bytes × F} (h : serializeNeighbor e = .ok b)
    (rest : Bytes) :
    deserializeNeighbor item1 y (b ++ rest) = .ok (y.setScore item1 e.1 e.2, rest) := by
  obtain ⟨id, hid, rfl⟩ := serializeNeighbor_eq_ok h
  have hfit : (FloatBits.toBits e.2).toNat < 256 ^ 4 := (FloatBits.toBits e.2).toNat_lt
  simp only [deserializeNeighbor, List.append_assoc, readString_writeString hid,
    readNumber_leBytes hfit, orError_some, ok_bind, UInt32.ofNat_toNat, FloatBits.ofBits_toBits,
    pure, Except.pure]

omit [FloatOps F] in
theorem serializeRow_eq_ok (h : serializeRow neighbors x item1 = .ok b) :
    ∃ name body, writeString item1 = some name ∧
      writeAll serializeNeighbor
        ((neighbors item1).arrange ((x.coScores.find? item1).getD .empty).entries) = .ok body ∧
      ((neighbors item1).arrange
        ((x.coScores.find? item1).getD .empty).entries).length < 256 ^ 4 ∧
      b = name ++ (leBytes 4 ((neighbors item1).arrange
        ((x.coScores.find? item1).getD .empty).entries).length ++ body) := by
  obtain ⟨name, hname, h⟩ := bind_eq_ok.1 h
  obtain ⟨count, hcount, h⟩ := bind_eq_ok.1 h
  obtain ⟨body, hbody, h⟩ := bind_eq_ok.1 h
  cases h
  obtain ⟨rfl, -, hfit⟩ := checkedSizeToU32_ok hcount
  exact ⟨name, body, orError_eq_ok.1 hname, hbody, hfit, rfl⟩

/-- A row read back: what a score keeps, `Ready` for the scores that come, it keeps for all. -/
theorem deserializeRow_of_next (Ready : CoOccurrenceIndex F → List (Bytes × F) → Prop)
    (hnext : ∀ y e es, Ready y (e :: es) → Ready (y.setScore item1 e.1 e.2) es)
    (h : serializeRow neighbors x item1 = .ok b)
    (hstart : Ready y ((neighbors item1).arrange ((x.coScores.find? item1).getD .empty).entries))
    (rest : Bytes) :
    ∃ y', deserializeRow y (b ++ rest) = .ok (y', rest) ∧ Ready y' [] := by
  obtain ⟨name, body, hname, hbody, hfit, rfl⟩ := serializeRow_eq_ok h
  generalize (neighbors item1).arrange ((x.coScores.find? item1).getD .empty).entries = es at *
  have hrem : hasRemainingBytes (body ++ rest) (es.length * kMinSerializedNeighborSize) = true := by
    have hlen : es.length * kMinSerializedNeighborSize ≤ body.length := by
      refine length_writeAll (fun e _ b hb => ?_) hbody
      obtain ⟨id, hid, rfl⟩ := serializeNeighbor_eq_ok hb
      simp only [List.length_append, length_writeString hid, length_leBytes,
        kMinSerializedNeighborSize]
      omega
    simp only [hasRemainingBytes, List.length_append, decide_eq_true_eq]
    omega
  obtain ⟨y', hread, hdone⟩ := readMany_writeAll
    (fun y e es b rest (hr : Ready y (e :: es)) hb =>
      ⟨y.setScore item1 e.1 e.2, deserializeNeighbor_serializeNeighbor hb rest, hnext y e es hr⟩)
    hstart hbody rest
  refine ⟨y', ?_, hdone⟩
  simp only [deserializeRow, List.append_assoc, readString_writeString hname,
    readNumber_leBytes hfit, orError_some, ok_bind, hrem, not_true_eq_false, if_false, hread]

/-- The same for the rows. -/
theorem deserializeCoOccurrenceIndex_of_next (Ready : CoOccurrenceIndex F → List Bytes → Prop)
    {items : Order Bytes} {bytes : Bytes}
    (hrow : ∀ y item1 xs b rest, Ready y (item1 :: xs) → serializeRow neighbors x item1 = .ok b →
      ∃ y', deserializeRow y (b ++ rest) = .ok (y', rest) ∧ Ready y' xs)
    (h : serializeCoOccurrenceIndex items neighbors x = .ok bytes) {fresh : CoOccurrenceIndex F}
    (hstart : Ready fresh.clear (items.arrange x.coScores.keys)) (rest : Bytes) :
    ∃ y, deserializeCoOccurrenceIndex fresh (bytes ++ rest) = .ok (y, rest) ∧ Ready y [] := by
  obtain ⟨count, hcount, h⟩ := bind_eq_ok.1 h
  obtain ⟨body, hbody, h⟩ := bind_eq_ok.1 h
  cases h
  obtain ⟨rfl, -, hfit⟩ := checkedSizeToU32_ok hcount
  generalize items.arrange x.coScores.keys = all at *
  have hrem : hasRemainingBytes (body ++ rest) (all.length * 8) = true := by
    have hlen : all.length * 8 ≤ body.length := by
      refine length_writeAll (fun item1 _ b hb => ?_) hbody
      obtain ⟨name, body, hname, -, -, rfl⟩ := serializeRow_eq_ok hb
      simp only [List.length_append, length_writeString hname, length_leBytes]
      omega
    simp only [hasRemainingBytes, List.length_append, decide_eq_true_eq]
    omega
  obtain ⟨y, hread, hdone⟩ := readMany_writeAll hrow hstart hbody rest
  refine ⟨y, ?_, hdone⟩
  simp only [deserializeCoOccurrenceIndex, List.append_assoc, readNumber_leBytes hfit,
    orError_some, ok_bind, hrem, not_true_eq_false, if_false, hread]

/-- Whatever the index held, the section is read to its end. -/
theorem deserializeCoOccurrenceIndex_accepts {items : Order Bytes} {bytes : Bytes}
    (h : serializeCoOccurrenceIndex items neighbors x = .ok bytes) (fresh : CoOccurrenceIndex F)
    (rest : Bytes) : ∃ y, deserializeCoOccurrenceIndex fresh (bytes ++ rest) = .ok (y, rest) := by
  obtain ⟨y, hread, -⟩ := deserializeCoOccurrenceIndex_of_next (fun _ _ => True)
    (fun y item1 xs b rest _ hb =>
      deserializeRow_of_next (fun _ _ => True) (fun _ _ _ _ => trivial) hb trivial rest)
    h trivial rest
  exact ⟨y, hread⟩

end Codec

section Scores

variable {F : Type} [FloatOps F] {x y : CoOccurrenceIndex F} {item1 : Bytes}

theorem entry_setScore (y : CoOccurrenceIndex F) (item1 item2 : Bytes) (score : F) (a b : Bytes) :
    entry (y.setScore item1 item2 score).coScores a b =
      if a = item1 ∧ b = item2 ∨ a = item2 ∧ b = item1 then some score
      else entry y.coScores a b := by
  show entry (updatePair (fun _ => score) y.coScores item1 item2) a b = _
  unfold updatePair
  rw [entry_updateScore, entry_updateScore]
  by_cases h1 : a = item2 ∧ b = item1
  · rw [if_pos h1, if_pos (.inr h1)]
  · rw [if_neg h1]
    by_cases h2 : a = item1 ∧ b = item2
    · rw [if_pos h2, if_pos (.inl h2)]
    · rw [if_neg h2, if_neg (by tauto)]

/-- `y` has no entry that `x` does not have, and those of all rows but the ones still to come. -/
structure RowsRead (x y : CoOccurrenceIndex F) (xs : List Bytes) : Prop where
  within : ∀ a b, entry y.coScores a b = none ∨ entry y.coScores a b = entry x.coScores a b
  rows : ∀ a, a ∉ xs → ∀ b, entry y.coScores a b = entry x.coScores a b

/-- A score of the symmetric matrix `x` can be set without harm, and is right afterwards. -/
theorem RowsRead.setScore (hx : SymmetricMatrix x.coScores) {xs : List Bytes}
    (h : RowsRead x y xs) {e : Bytes × F} (he : entry x.coScores item1 e.1 = some e.2) :
    RowsRead x (y.setScore item1 e.1 e.2) xs := by
  have hright : ∀ a b, a = item1 ∧ b = e.1 ∨ a = e.1 ∧ b = item1 →
      some e.2 = entry x.coScores a b := by
    rintro a b (⟨rfl, rfl⟩ | ⟨rfl, rfl⟩)
    · exact he.symm
    · rw [hx.symm, he]
  constructor
  · intro a b
    rw [entry_setScore]
    split
    · exact .inr (hright a b ‹_›)
    · exact h.within a b
  · intro a ha b
    rw [entry_setScore]
    split
    · exact hright a b ‹_›
    · exact h.rows a ha b

/-- The entries of the row of `item1` that do not come any more are there. -/
def NeighborsRead (x : CoOccurrenceIndex F) (item1 : Bytes) (xs : List Bytes)
    (y : CoOccurrenceIndex F) (es : List (Bytes × F)) : Prop :=
  RowsRead x y (item1 :: xs) ∧ (∀ e ∈ es, entry x.coScores item1 e.1 = some e.2) ∧
    ∀ b, b ∉ es.map Prod.fst → entry y.coScores item1 b = entry x.coScores item1 b

theorem NeighborsRead.next (hx : SymmetricMatrix x.coScores) {xs : List Bytes} {e : Bytes × F}
    {es : List (Bytes × F)} (h : NeighborsRead x item1 xs y (e :: es)) :
    NeighborsRead x item1 xs (y.setScore item1 e.1 e.2) es := by
  obtain ⟨hrows, hes, hrow⟩ := h
  have he := hes e List.mem_cons_self
  refine ⟨hrows.setScore hx he, fun e' he' => hes e' (List.mem_cons_of_mem e he'), fun b hb => ?_⟩
  rw [entry_setScore]
  by_cases hbe : b = e.1
  · rw [if_pos (.inl ⟨rfl, hbe⟩), hbe, he]
  · rw [if_neg]
    · refine hrow b ?_
      rw [List.map_cons, List.mem_cons, not_or]
      exact ⟨hbe, hb⟩
    · rintro (⟨-, h⟩ | ⟨hi, rfl⟩)
      · exact hbe h
      · exact hbe hi

variable [FloatBits F]

theorem deserializeRow_serializeRow (hx : SymmetricMatrix x.coScores)
    {neighbors : Bytes → Order (Bytes × F)} {xs : List Bytes} {b : Bytes}
    (hr : RowsRead x y (item1 :: xs)) (h : serializeRow neighbors x item1 = .ok b)
    (rest : Bytes) :
    ∃ y', deserializeRow y (b ++ rest) = .ok (y', rest) ∧ RowsRead x y' xs := by
  have hmem : ∀ e : Bytes × F,
      e ∈ (neighbors item1).arrange ((x.coScores.find? item1).getD .empty).entries ↔
        entry x.coScores item1 e.1 = some e.2 := by
    intro e
    rw [((neighbors item1).perm _).mem_iff, ← find?_row]
    exact AssocMap.mem_entries
  have hstart : NeighborsRead x item1 xs y
      ((neighbors item1).arrange ((x.coScores.find? item1).getD .empty).entries) := by
    refine ⟨hr, fun e he => (hmem e).mp he, fun b hb => ?_⟩
    have hnone : entry x.coScores item1 b = none := by
      by_contra hne
      obtain ⟨score, hscore⟩ := Option.ne_none_iff_exists'.mp hne
      exact hb (List.mem_map.mpr ⟨(b, score), (hmem (b, score)).mpr hscore, rfl⟩)
    rcases hr.within item1 b with h0 | h0
    · rw [h0, hnone]
    · exact h0
  obtain ⟨y', hread, hrows, -, hrow⟩ := deserializeRow_of_next (NeighborsRead x item1 xs)
    (fun _ _ _ hn => hn.next hx) h hstart rest
  refine ⟨y', hread, hrows.within, fun a ha c => ?_⟩
  by_cases hitem : a = item1
  · subst hitem
    exact hrow c List.not_mem_nil
  · exact hrows.rows a (fun hin => (List.mem_cons.mp hin).elim hitem ha) c

/-- **The co-occurrence section read back**: every stored score, and no other. -/
theorem deserialize_serializeCoOccurrenceIndex (hx : SymmetricMatrix x.coScores)
    {items : Order Bytes} {neighbors : Bytes → Order (Bytes × F)} {bytes : Bytes}
    (h : serializeCoOccurrenceIndex items neighbors x = .ok bytes) (fresh : CoOccurrenceIndex F)
    (rest : Bytes) :
    ∃ y, deserializeCoOccurrenceIndex fresh (bytes ++ rest) = .ok (y, rest) ∧
      ∀ a b, entry y.coScores a b = entry x.coScores a b := by
  have hstart : RowsRead x fresh.clear (items.arrange x.coScores.keys) := by
    refine ⟨fun a b => .inl rfl, fun a ha b => ?_⟩
    rw [(items.perm _).mem_iff] at ha
    rw [entry_of_no_row (AssocMap.find?_eq_none.mpr ha)]
    rfl
  obtain ⟨y, hread, hdone⟩ := deserializeCoOccurrenceIndex_of_next (RowsRead x)
    (fun _ _ _ _ rest hr hb => deserializeRow_serializeRow hx hr hb rest) h hstart rest
  exact ⟨y, hread, fun a b => hdone.rows a List.not_mem_nil b⟩

end Scores

/-! ## 3. Stores that have been running -/

structure Ingestion (F : Type) where
  events : EventStore
  index : CoOccurrenceIndex F

/-- What ingestion and maintenance do; the type of an event is one of the three. -/
inductive IngestOp where
  | event (clock : Clock) (ctx id : Bytes) (score : Int) (type : EventType)
    (named : type.toByte ≤ 2) (timestamp : UInt64) (options : IngestOptions)
  | decay (alpha : UInt64)
  | prune

section Runs

variable {F : Type} [FloatOps F]

/-- An event that was stored goes to the index with what its context held before. -/
def indexStored (options : IngestOptions) (x : CoOccurrenceIndex F) :
    Except Error IngestResult → CoOccurrenceIndex F
  | .error _ => x
  | .ok result =>
    if result.deduped then x
    else x.applyIngestedEvent result.priorEvents result.storedEvent options

def ingest (s : Ingestion F) : IngestOp → Ingestion F
  | .event clock ctx id score type _ timestamp options =>
    let (events, result) := s.events.addEventAndGetPrior clock ctx id score type timestamp
    ⟨events, indexStored options s.index result⟩
  | .decay alpha => { s with index := s.index.applyDecay alpha }
  | .prune => { s with index := s.index.prune }

/-- The stores after a list of operations, from empty ones. -/
def ingested (cfg : EventsConfig) (coConfig : CoOccurrenceConfig F) (ops : List IngestOp) :
    Ingestion F :=
  ops.foldl ingest ⟨.new cfg, { config := coConfig }⟩

variable {cfg : EventsConfig} {coConfig : CoOccurrenceConfig F}

/-- Sound contexts and a symmetric matrix. -/
structure Ingestion.Sound (cfg : EventsConfig) (s : Ingestion F) : Prop where
  config : s.events.config = cfg
  contexts : s.events.contexts.Sound s.events.config
  scores : SymmetricMatrix s.index.coScores

theorem symmetricMatrix_indexStored {x : CoOccurrenceIndex F} (h : SymmetricMatrix x.coScores)
    (options : IngestOptions) (result : Except Error IngestResult) :
    SymmetricMatrix (indexStored options x result).coScores := by
  cases result with
  | error e => exact h
  | ok result =>
    show SymmetricMatrix (if result.deduped then x else _).coScores
    split
    · exact h
    · have hkeeps : Keeps False [] x.coScores := ⟨h, False.elim⟩
      show SymmetricMatrix (CoOp.apply x
        (.applyIngestedEvent result.priorEvents result.storedEvent options)).coScores
      exact (hkeeps.op rfl False.elim).symmetric

theorem Ingestion.Sound.ingest {s : Ingestion F} (h : s.Sound cfg) (op : IngestOp) :
    (Snapshot.ingest s op).Sound cfg := by
  cases op with
  | event clock ctx id score type named timestamp options =>
    have hcfg := s.events.config_addEventAndGetPrior clock ctx id score type timestamp
    have hcontexts :=
      EventStore.sound_addEventAndGetPrior h.contexts named clock ctx id score timestamp
    rw [← hcfg] at hcontexts
    exact ⟨hcfg.trans h.config, hcontexts, symmetricMatrix_indexStored h.scores _ _⟩
  | decay alpha =>
    exact ⟨h.config, h.contexts, (symmetricMatrix_applyDecay h.scores alpha).1⟩
  | prune =>
    exact ⟨h.config, h.contexts, (symmetricMatrix_foldl_pruneItem h.scores _).1⟩

theorem sound_ingested (ops : List IngestOp) : (ingested cfg coConfig ops).Sound cfg := by
  have hrun : ∀ s : Ingestion F, s.Sound cfg → (ops.foldl ingest s).Sound cfg := by
    induction ops with
    | nil => exact fun s h => h
    | cons op ops ih => exact fun s h => ih (ingest s op) (h.ingest op)
  exact hrun _ ⟨rfl, .empty cfg, symmetricMatrix_empty⟩

variable [FloatBits F]

/-- **Events and co-occurrence scores after a restore**: for the stores of every run of ingestion,
    decay and pruning, and every order in which their maps are walked, the sections are read back
    to their end; every context has its events again, and every pair its stored score. -/
theorem events_round_trip (ops : List IngestOp) (contexts items : Order Bytes)
    (neighbors : Bytes → Order (Bytes × F)) (ebytes cbytes : Bytes)
    (he : serializeEventStore contexts (ingested cfg coConfig ops).events = .ok ebytes)
    (hc : serializeCoOccurrenceIndex items neighbors (ingested cfg coConfig ops).index =
      .ok cbytes) :
    ∃ events index, deserializeEventStore (.new cfg) ebytes = .ok (events, []) ∧
      deserializeCoOccurrenceIndex { config := coConfig } cbytes = .ok (index, []) ∧
      (∀ ctx, events.getEvents ctx = (ingested cfg coConfig ops).events.getEvents ctx) ∧
      ∀ a b, entry index.coScores a b = entry (ingested cfg coConfig ops).index.coScores a b := by
  have hs : (ingested cfg coConfig ops).Sound cfg := sound_ingested ops
  generalize ingested cfg coConfig ops = s at *
  have hread := deserialize_serializeEventStore hs.contexts he (.new cfg) []
  obtain ⟨index, hindex, hentries⟩ :=
    deserialize_serializeCoOccurrenceIndex hs.scores hc { config := coConfig } []
  rw [List.append_nil] at hread hindex
  refine ⟨_, index, hread, hindex, fun ctx => ?_, hentries⟩
  exact EventStore.getEvents_restoreAll hs.contexts hs.config.symm rfl (contexts.perm _) ctx

end Runs

/-- The whole number a `float` is, for those that are one. -/
def wholeOfBits (bits : UInt32) : Int :=
  let magnitude : Nat :=
    if bits.toNat % 2 ^ 31 = 0 then 0
    else (2 ^ 23 + bits.toNat % 2 ^ 23) * 2 ^ (bits.toNat / 2 ^ 23 % 256) / 2 ^ 150
  if bits.toNat < 2 ^ 31 then magnitude else -magnitude

/-- The `float` of a whole number below `2 ^ 24`. -/
def bitsOfWhole (n : Int) : UInt32 :=
  if n = 0 then 0
  else
    let e := Nat.log2 n.natAbs
    let magnitude := (127 + e) * 2 ^ 23 + (n.natAbs * 2 ^ (23 - e) - 2 ^ 23)
    UInt32.ofNat (if n < 0 then 2 ^ 31 + magnitude else magnitude)

/-- `float`s as their bits, with the arithmetic of whole numbers that are exact. -/
instance wholeFloats : FloatOps UInt32 where
  zero := 0
  add x y := bitsOfWhole (wholeOfBits x + wholeOfBits y)
  sub x y := bitsOfWhole (wholeOfBits x - wholeOfBits y)
  mul x y := bitsOfWhole (wholeOfBits x * wholeOfBits y)
  magnitude x := UInt32.ofNat (x.toNat % 2 ^ 31)
  lt x y := decide (wholeOfBits x < wholeOfBits y)
  beq x y := decide (wholeOfBits x = wholeOfBits y)
  ofInt := bitsOfWhole
  ofDouble _ := 0
  scaled n _ := bitsOfWhole n
  decayFor _ _ := bitsOfWhole 1
  decayThreshold := 0x358637BD

instance bitFloats : FloatBits UInt32 := ⟨id, id, fun _ => rfl⟩

/-- Buffers of two events, two contexts at most, a small state cache. -/
def smallConfig : EventsConfig where
  ctxBufferSize := 2
  maxContexts := 2
  decayAlpha := 0x3FF0000000000000
  dedupWindowSec := 0
  dedupCacheSize := 2
  ctxBufferSize_pos := Nat.zero_lt_two
  decayAlpha_finite := rfl
  decayAlpha_nonneg := rfl
  decayAlpha_le_one := rfl

theorem named_ADD : EventType.ADD.toByte ≤ 2 := by decide

theorem named_SET : EventType.SET.toByte ≤ 2 := by decide

theorem named_DEL : EventType.DEL.toByte ≤ 2 := by decide

/-- Three events in one context, whose buffer holds two, and one in another. -/
def overflowing : List IngestOp :=
  [.event ⟨7, 0⟩ [99] [97] 3 .ADD named_ADD 0 {},
    .event ⟨8, 0⟩ [99] [98] 5 .SET named_SET 0 {},
    .event ⟨9, 0⟩ [99] [97] 0 .DEL named_DEL 0 {},
    .event ⟨9, 0⟩ [100] [97] 2 .ADD named_ADD 0 {}]

/-- A context whose buffer has overflowed is restored with its two last events, and its one pair
    with the score 15. -/
theorem events_round_trip_overflowing :
    ∃ ebytes cbytes events, ∃ index : CoOccurrenceIndex UInt32,
      serializeEventStore .listed
        (ingested smallConfig { minSupport := (0 : UInt32) } overflowing).events = .ok ebytes ∧
      serializeCoOccurrenceIndex .listed (fun _ => .listed)
        (ingested smallConfig { minSupport := (0 : UInt32) } overflowing).index = .ok cbytes ∧
      deserializeEventStore (.new smallConfig) ebytes = .ok (events, []) ∧
      deserializeCoOccurrenceIndex { config := { minSupport := (0 : UInt32) } } cbytes =
        .ok (index, []) ∧
      events.getEvents [99] = [⟨[98], 5, 8, .SET⟩, ⟨[97], 0, 9, .DEL⟩] ∧
      entry index.coScores [97] [98] = some 0x41700000 := by
  obtain ⟨ebytes, he⟩ : ∃ ebytes, serializeEventStore .listed
      (ingested smallConfig { minSupport := (0 : UInt32) } overflowing).events = .ok ebytes :=
    ⟨_, rfl⟩
  obtain ⟨cbytes, hc⟩ : ∃ cbytes, serializeCoOccurrenceIndex .listed (fun _ => .listed)
      (ingested smallConfig { minSupport := (0 : UInt32) } overflowing).index = .ok cbytes :=
    ⟨_, rfl⟩
  obtain ⟨events, index, hevents, hindex, hsame, hscores⟩ :=
    events_round_trip overflowing .listed .listed (fun _ => .listed) ebytes cbytes he hc
  refine ⟨ebytes, cbytes, events, index, he, hc, hevents, hindex, ?_, ?_⟩
  · rw [hsame]
    decide +kernel
  · rw [hscores]
    decide +kernel

end Nvecd.Storage.Snapshot
