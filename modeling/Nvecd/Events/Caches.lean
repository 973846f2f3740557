/-
  File:      Nvecd/Events/Caches.lean
  Subject:   `events/dedup_cache.cpp` and `events/state_cache.cpp`: what an event is compared
             with before it is stored.

  An `ADD` is a duplicate when its key was seen within the window, a `SET` or `DEL` when it
  repeats the last state of its item. Both caches are bounded and forget the key touched longest
  ago; a duplicate touches its key too.

  * `DedupCache`, `wouldDeduplicate`, `checkAndInsert`;
  * `StateCache`, `checkAndUpdateSet`, `checkAndMarkDeleted` -- one operation at two values;
  * `checkAndInsert_miss`, `checkAndStore_miss` -- what is not a duplicate is stored;
  * `not_wouldDeduplicate_of_after` -- a later time stamp outside the window is not a duplicate,
    whatever the clock says.
-/
import Nvecd.Lib.LruCache
import Nvecd.Storage.WalFormat

namespace Nvecd.Events

open Nvecd.Lib Nvecd.Storage

/-! ## 1. `ADD`: the time window -/

structure EventKey where
  ctx : Bytes
  id : Bytes
  score : Int
  deriving DecidableEq, Repr

structure CacheEntry where
  timestamp : UInt64
  /-- Steady clock, in nanoseconds. -/
  lastSeenAt : Nat
  deriving DecidableEq, Repr

structure DedupCache where
  maxSize : Nat
  windowSec : Nat
  lru : LruCache EventKey CacheEntry := .empty
  totalHits : Nat := 0
  totalMisses : Nat := 0

namespace DedupCache

def windowNs (c : DedupCache) : Nat := c.windowSec * 1000000000

/-- `IsWithinWindow`: by event time, or, for a time stamp that goes back, by arrival time. -/
def isWithinWindow (c : DedupCache) (entry : CacheEntry) (timestamp : UInt64) (now : Nat) : Bool :=
  let distance :=
    if entry.timestamp ≤ timestamp then timestamp.toNat - entry.timestamp.toNat
    else entry.timestamp.toNat - timestamp.toNat
  if distance ≤ c.windowSec then true
  else decide (timestamp < entry.timestamp) && decide (now ≤ entry.lastSeenAt + c.windowNs)

/-- `WouldDeduplicate`. -/
def wouldDeduplicate (c : DedupCache) (key : EventKey) (timestamp : UInt64) (now : Nat) : Bool :=
  if c.windowSec = 0 then false
  else
    match c.lru.find? key with
    | none => false
    | some entry => c.isWithinWindow entry timestamp now

/-- `CheckAndInsert`; `true` is a duplicate. -/
def checkAndInsert (c : DedupCache) (key : EventKey) (timestamp : UInt64) (now : Nat) :
    DedupCache × Bool :=
  if c.windowSec = 0 then ({ c with totalMisses := c.totalMisses + 1 }, false)
  else
    match c.lru.find? key with
    | some entry =>
      if c.isWithinWindow entry timestamp now then
        let lru := c.lru.store c.maxSize key { entry with lastSeenAt := now }
        ({ c with lru := lru, totalHits := c.totalHits + 1 }, true)
      else
        let lru := c.lru.store c.maxSize key ⟨timestamp, now⟩
        ({ c with lru := lru, totalMisses := c.totalMisses + 1 }, false)
    | none =>
      let lru := c.lru.store c.maxSize key ⟨timestamp, now⟩
      ({ c with lru := lru, totalMisses := c.totalMisses + 1 }, false)

variable {c : DedupCache} {key : EventKey} {timestamp : UInt64} {now : Nat}

/-- The preview says what the operation says at the same time. -/
theorem checkAndInsert_snd :
    (c.checkAndInsert key timestamp now).2 = c.wouldDeduplicate key timestamp now := by
  unfold checkAndInsert wouldDeduplicate
  split
  · rfl
  · cases hf : c.lru.find? key with
    | none => rfl
    | some entry =>
      simp only
      split
      · rename_i hin
        exact hin.symm
      · rename_i hout
        exact (Bool.not_eq_true _ ▸ hout).symm

/-- What is not a duplicate is stored with its time stamp and its arrival. -/
theorem checkAndInsert_miss (hw : c.windowSec ≠ 0)
    (h : c.wouldDeduplicate key timestamp now = false) :
    c.checkAndInsert key timestamp now =
      ({ c with
          lru := c.lru.store c.maxSize key ⟨timestamp, now⟩
          totalMisses := c.totalMisses + 1 }, false) := by
  unfold wouldDeduplicate at h
  unfold checkAndInsert
  rw [if_neg hw] at h ⊢
  cases hf : c.lru.find? key with
  | none => rfl
  | some entry =>
    rw [hf] at h
    simp only [h]
    rfl

/-- What is new stays new: time only takes entries out of the window. -/
theorem not_wouldDeduplicate_later {later : Nat} (hle : now ≤ later)
    (h : c.wouldDeduplicate key timestamp now = false) :
    c.wouldDeduplicate key timestamp later = false := by
  unfold wouldDeduplicate at h ⊢
  split at h
  · rename_i hw
    rw [if_pos hw]
  · rename_i hw
    rw [if_neg hw]
    cases hf : c.lru.find? key with
    | none => rfl
    | some entry =>
      simp only [hf, isWithinWindow] at h ⊢
      generalize (if entry.timestamp ≤ timestamp then timestamp.toNat - entry.timestamp.toNat
        else entry.timestamp.toNat - timestamp.toNat) = distance at h ⊢
      split at h
      · cases h
      · rename_i hout
        rw [if_neg hout]
        simp only [Bool.and_eq_false_iff, decide_eq_false_iff_not] at h ⊢
        rcases h with h | h
        · exact .inl h
        · exact .inr (by omega)

/-- An event outside the window and not before the entry is new at any time. -/
theorem not_wouldDeduplicate_of_after
    (h : ∀ entry, c.lru.find? key = some entry →
      entry.timestamp.toNat + c.windowSec < timestamp.toNat) :
    c.wouldDeduplicate key timestamp now = false := by
  unfold wouldDeduplicate
  split
  · rfl
  · split
    · rfl
    · rename_i entry hf
      have hafter := h entry hf
      have hle : entry.timestamp ≤ timestamp := UInt64.le_iff_toNat_le.mpr (by omega)
      have hlt : ¬ timestamp < entry.timestamp := UInt64.not_lt.mpr hle
      have hdist : ¬ timestamp.toNat - entry.timestamp.toNat ≤ c.windowSec := by omega
      simp [isWithinWindow, hle, hlt, hdist]

end DedupCache

/-! ## 2. `SET` and `DEL`: the last state -/

structure StateKey where
  ctx : Bytes
  id : Bytes
  deriving DecidableEq, Repr

/-- The state of a deleted item. -/
def kDeletedScore : Int := -1

structure StateCache where
  maxSize : Nat
  lru : LruCache StateKey Int := .empty
  totalHits : Nat := 0
  totalMisses : Nat := 0

namespace StateCache

/-- Whether the item is in the given state already. -/
def wouldRepeat (c : StateCache) (key : StateKey) (score : Int) : Bool :=
  match c.lru.find? key with
  | none => false
  | some last => decide (last = score)

/-- `WouldDeduplicateSet`. -/
def wouldDeduplicateSet (c : StateCache) (key : StateKey) (score : Int) : Bool :=
  c.wouldRepeat key score

/-- `WouldDeduplicateDel`. -/
def wouldDeduplicateDel (c : StateCache) (key : StateKey) : Bool := c.wouldRepeat key kDeletedScore

/-- A repetition touches the key, a new state is stored. -/
def checkAndStore (c : StateCache) (key : StateKey) (score : Int) : StateCache × Bool :=
  if c.wouldRepeat key score then
    ({ c with lru := c.lru.touch key, totalHits := c.totalHits + 1 }, true)
  else
    ({ c with
        lru := c.lru.store c.maxSize key score
        totalMisses := c.totalMisses + 1 }, false)

/-- `CheckAndUpdateSet`. -/
def checkAndUpdateSet (c : StateCache) (key : StateKey) (score : Int) : StateCache × Bool :=
  c.checkAndStore key score

/-- `CheckAndMarkDeleted`. -/
def checkAndMarkDeleted (c : StateCache) (key : StateKey) : StateCache × Bool :=
  c.checkAndStore key kDeletedScore

/-- `UpdateScore`. -/
def updateScore (c : StateCache) (key : StateKey) (score : Int) : StateCache :=
  { c with lru := c.lru.store c.maxSize key score }

/-- `MarkDeleted`. -/
def markDeleted (c : StateCache) (key : StateKey) : StateCache := c.updateScore key kDeletedScore

theorem checkAndStore_snd (c : StateCache) (key : StateKey) (score : Int) :
    (c.checkAndStore key score).2 = c.wouldRepeat key score := by
  unfold checkAndStore
  cases c.wouldRepeat key score <;> rfl

theorem checkAndStore_miss {c : StateCache} {key : StateKey} {score : Int}
    (h : c.wouldRepeat key score = false) :
    c.checkAndStore key score =
      ({ c with
          lru := c.lru.store c.maxSize key score
          totalMisses := c.totalMisses + 1 }, false) := by
  simp [checkAndStore, h]

end StateCache

end Nvecd.Events
