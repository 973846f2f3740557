/-
  File:      Nvecd/Events/LinkedCaches.lean
  Subject:   `DedupCache` and `StateCache` as they are built, and what they answer along a run.

  Each is a hash map with iterators into a list of its keys. Beside a run stands its history, the
  latest operation first; what is answered is a matter of the history alone.

  * `LinkedDedupCache`, `LinkedStateCache` -- the operations of `events/dedup_cache.cpp` and
    `events/state_cache.cpp`, node by node; `none` is the use of an iterator that dangles;
  * `resident` -- the keys touched last;
  * `IsDuplicate`, `IsRepetition` -- what is to be answered;
  * `add_run`, `state_run` -- what is answered;
  * `dedup_history` -- both, for runs in which no score is that of a deleted item.
-/
import Nvecd.Events.Caches
import Nvecd.Lib.LinkedLru
import Nvecd.Lib.Machine

namespace Nvecd.Events

open Nvecd.Lib Nvecd.Storage

/-! ## 1. The caches -/

structure LinkedDedupCache where
  maxSize : Nat
  windowSec : Nat
  lru : LinkedLru EventKey CacheEntry := {}
  totalHits : Nat := 0
  totalMisses : Nat := 0

/-- The fields, with the cache that the map and the list make up. -/
structure LinkedDedupCache.Represents (r : LinkedDedupCache) (c : DedupCache) : Prop where
  maxSize : r.maxSize = c.maxSize
  windowSec : r.windowSec = c.windowSec
  lru : r.lru.Represents c.lru
  totalHits : r.totalHits = c.totalHits
  totalMisses : r.totalMisses = c.totalMisses

namespace LinkedDedupCache

/-- `IsWithinWindow`, which reads the fields alone. -/
def isWithinWindow (r : LinkedDedupCache) : CacheEntry → UInt64 → Nat → Bool :=
  DedupCache.isWithinWindow { maxSize := r.maxSize, windowSec := r.windowSec }

/-- `CheckAndInsert`. -/
def checkAndInsert (r : LinkedDedupCache) (key : EventKey) (timestamp : UInt64) (now : Nat) :
    Option (LinkedDedupCache × Bool) :=
  if r.windowSec = 0 then some ({ r with totalMisses := r.totalMisses + 1 }, false)
  else
    match r.lru.find? key with
    | some (entry, iter) =>
      if r.isWithinWindow entry timestamp now then
        ((r.lru.assign key { entry with lastSeenAt := now } iter).splice iter).map fun lru =>
          ({ r with lru := lru, totalHits := r.totalHits + 1 }, true)
      else
        ((r.lru.assign key ⟨timestamp, now⟩ iter).splice iter).map fun lru =>
          ({ r with lru := lru, totalMisses := r.totalMisses + 1 }, false)
    | none =>
      let lru := if r.maxSize ≤ r.lru.map.size then r.lru.evictLast else r.lru
      some ({ r with
        lru := lru.pushNew key ⟨timestamp, now⟩
        totalMisses := r.totalMisses + 1 }, false)

variable {r : LinkedDedupCache} {c : DedupCache}

theorem Represents.isWithinWindow (h : r.Represents c) (entry : CacheEntry) (timestamp : UInt64)
    (now : Nat) : r.isWithinWindow entry timestamp now = c.isWithinWindow entry timestamp now := by
  unfold LinkedDedupCache.isWithinWindow DedupCache.isWithinWindow DedupCache.windowNs
  rw [h.windowSec]

/-- **The map, the list and the iterators do what the cache does.** -/
theorem Represents.checkAndInsert (h : r.Represents c) (key : EventKey) (timestamp : UInt64)
    (now : Nat) :
    ∃ r', r.checkAndInsert key timestamp now = some (r', (c.checkAndInsert key timestamp now).2) ∧
      r'.Represents (c.checkAndInsert key timestamp now).1 := by
  obtain ⟨hmax, hwindow, hlru, hhits, hmisses⟩ := h
  have hin := Represents.isWithinWindow ⟨hmax, hwindow, hlru, hhits, hmisses⟩
  unfold LinkedDedupCache.checkAndInsert DedupCache.checkAndInsert
  rw [hwindow]
  split
  · exact ⟨_, rfl, hmax, rfl, hlru, hhits, congrArg (· + 1) hmisses⟩
  · cases hf : r.lru.find? key with
    | none =>
      rw [hlru.find?_none hf, hmax]
      exact ⟨_, rfl, rfl, rfl, hlru.storeNew c.maxSize hf _, hhits,
        congrArg (· + 1) hmisses⟩
    | some e =>
      obtain ⟨entry, iter⟩ := e
      rw [hlru.find? hf]
      simp only [hin]
      split
      · obtain ⟨lru, hs, hr⟩ := hlru.splice c.maxSize hf { entry with lastSeenAt := now }
        rw [hs]
        exact ⟨_, rfl, hmax, rfl, hr, congrArg (· + 1) hhits, hmisses⟩
      · obtain ⟨lru, hs, hr⟩ := hlru.splice c.maxSize hf ⟨timestamp, now⟩
        rw [hs]
        exact ⟨_, rfl, hmax, rfl, hr, hhits, congrArg (· + 1) hmisses⟩

end LinkedDedupCache

structure LinkedStateCache where
  maxSize : Nat
  lru : LinkedLru StateKey Int := {}
  totalHits : Nat := 0
  totalMisses : Nat := 0

structure LinkedStateCache.Represents (r : LinkedStateCache) (c : StateCache) : Prop where
  maxSize : r.maxSize = c.maxSize
  lru : r.lru.Represents c.lru
  totalHits : r.totalHits = c.totalHits
  totalMisses : r.totalMisses = c.totalMisses

namespace LinkedStateCache

/-- The state is recorded: `TouchLocked` for a key that is there, else `EvictIfFull` and a new
    node. -/
def record (r : LinkedStateCache) (key : StateKey) (score : Int) :
    Option (LinkedLru StateKey Int) :=
  match r.lru.find? key with
  | some (_, iter) => r.lru.relink key score iter
  | none =>
    let lru := if r.maxSize ≤ r.lru.map.size then r.lru.evictLast else r.lru
    some (lru.pushNew key score)

/-- What `CheckAndUpdateSet` and `CheckAndMarkDeleted` do. -/
def checkAndStore (r : LinkedStateCache) (key : StateKey) (score : Int) :
    Option (LinkedStateCache × Bool) :=
  match r.lru.find? key with
  | some (last, _) =>
    if last = score then
      (r.record key last).map fun lru =>
        ({ r with lru := lru, totalHits := r.totalHits + 1 }, true)
    else
      (r.record key score).map fun lru =>
        ({ r with lru := lru, totalMisses := r.totalMisses + 1 }, false)
  | none =>
    (r.record key score).map fun lru =>
      ({ r with lru := lru, totalMisses := r.totalMisses + 1 }, false)

/-- `CheckAndUpdateSet`. -/
def checkAndUpdateSet (r : LinkedStateCache) (key : StateKey) (score : Int) :
    Option (LinkedStateCache × Bool) := r.checkAndStore key score

/-- `CheckAndMarkDeleted`. -/
def checkAndMarkDeleted (r : LinkedStateCache) (key : StateKey) :
    Option (LinkedStateCache × Bool) := r.checkAndStore key kDeletedScore

/-- `UpdateScore`. -/
def updateScore (r : LinkedStateCache) (key : StateKey) (score : Int) : Option LinkedStateCache :=
  (r.record key score).map fun lru => { r with lru := lru }

/-- `MarkDeleted`. -/
def markDeleted (r : LinkedStateCache) (key : StateKey) : Option LinkedStateCache :=
  r.updateScore key kDeletedScore

variable {r : LinkedStateCache} {c : StateCache}

theorem Represents.record (h : r.Represents c) (key : StateKey) (score : Int) :
    ∃ lru, r.record key score = some lru ∧ lru.Represents (c.lru.store c.maxSize key score) := by
  unfold LinkedStateCache.record
  cases hf : r.lru.find? key with
  | none =>
    rw [h.maxSize]
    exact ⟨_, rfl, h.lru.storeNew c.maxSize hf score⟩
  | some e => exact h.lru.relink c.maxSize hf score

theorem Represents.checkAndStore (h : r.Represents c) (key : StateKey) (score : Int) :
    ∃ r', r.checkAndStore key score = some (r', (c.checkAndStore key score).2) ∧
      r'.Represents (c.checkAndStore key score).1 := by
  unfold LinkedStateCache.checkAndStore StateCache.checkAndStore StateCache.wouldRepeat
  cases hf : r.lru.find? key with
  | none =>
    obtain ⟨lru, hs, hr⟩ := h.record key score
    rw [h.lru.find?_none hf]
    simp only [hs, Option.map_some]
    exact ⟨_, rfl, h.maxSize, hr, h.totalHits, congrArg (· + 1) h.totalMisses⟩
  | some e =>
    obtain ⟨last, iter⟩ := e
    have hlast := h.lru.find? hf
    rw [hlast]
    by_cases hsame : last = score
    · obtain ⟨lru, hs, hr⟩ := h.record key last
      simp only [hsame, if_true, decide_true] at hs hr ⊢
      rw [hs]
      refine ⟨_, rfl, h.maxSize, ?_, congrArg (· + 1) h.totalHits, h.totalMisses⟩
      show lru.Represents (c.lru.touch key)
      rw [LruCache.touch_eq_store c.maxSize (hsame ▸ hlast)]
      exact hr
    · obtain ⟨lru, hs, hr⟩ := h.record key score
      simp only [hsame, if_false, decide_false, Bool.false_eq_true, hs, Option.map_some]
      exact ⟨_, rfl, h.maxSize, hr, h.totalHits, congrArg (· + 1) h.totalMisses⟩

theorem Represents.updateScore (h : r.Represents c) (key : StateKey) (score : Int) :
    ∃ r', r.updateScore key score = some r' ∧ r'.Represents (c.updateScore key score) := by
  obtain ⟨lru, hs, hr⟩ := h.record key score
  refine ⟨{ r with lru := lru }, ?_, h.maxSize, hr, h.totalHits, h.totalMisses⟩
  rw [LinkedStateCache.updateScore, hs]
  rfl

end LinkedStateCache

/-! ## 2. Histories -/

/-- The keys touched last, of a list that has the latest in front. -/
def resident {κ : Type} [DecidableEq κ] (cap : Nat) (touched : List κ) : List κ :=
  (LruCache.fresh touched).take cap

structure AddRequest where
  key : EventKey
  timestamp : UInt64
  /-- When it arrives. -/
  now : Nat

structure AddRecord extends AddRequest where
  duplicate : Bool

/-- The time stamp of the last `ADD` of a key that was no duplicate. -/
def baseline (history : List AddRecord) (key : EventKey) : Option UInt64 :=
  (history.find? fun r => r.key = key && !r.duplicate).map (·.timestamp)

/-- When a key last arrived. -/
def lastArrival (history : List AddRecord) (key : EventKey) : Option Nat :=
  (history.find? fun r => r.key = key).map (·.now)

/-- The keys that were recorded; without a window nothing is. -/
def addTouched (windowSec : Nat) (history : List AddRecord) : List EventKey :=
  if windowSec = 0 then [] else history.map (·.key)

/-- **An `ADD` is a duplicate**: its key is resident, and its time is within the window of the
    baseline, or earlier with the last arrival of the key within the window. -/
def IsDuplicate (cap windowSec : Nat) (history : List AddRecord) (request : AddRequest) : Prop :=
  request.key ∈ resident cap (addTouched windowSec history) ∧
    ∃ base arrival, baseline history request.key = some base ∧
      lastArrival history request.key = some arrival ∧
      (base.toNat ≤ request.timestamp.toNat + windowSec ∧
          request.timestamp.toNat ≤ base.toNat + windowSec ∨
        request.timestamp < base ∧ request.now ≤ arrival + windowSec * 1000000000)

/-- An operation on the states: `CheckAndUpdateSet`, `CheckAndMarkDeleted`, `UpdateScore` and
    `MarkDeleted`. -/
inductive StateOp where
  | checkSet (key : StateKey) (score : Int)
  | checkDel (key : StateKey)
  | update (key : StateKey) (score : Int)
  | mark (key : StateKey)

namespace StateOp

def key : StateOp → StateKey
  | .checkSet key _ | .checkDel key | .update key _ | .mark key => key

/-- The state that is recorded: a score, or `none` for deleted. -/
def state : StateOp → Option Int
  | .checkSet _ score | .update _ score => some score
  | .checkDel _ | .mark _ => none

/-- Whether it is asked for a repetition. -/
def checks : StateOp → Bool
  | .checkSet _ _ | .checkDel _ => true
  | .update _ _ | .mark _ => false

end StateOp

/-- An operation and what it answered, `none` where nothing is asked. -/
structure StateRecord where
  op : StateOp
  duplicate : Option Bool

/-- The state last recorded for a key. -/
def recorded (history : List StateRecord) (key : StateKey) : Option (Option Int) :=
  (history.find? fun r => r.op.key = key).map (·.op.state)

/-- **A `SET` or `DEL` is a duplicate**: its key is resident and its state the last recorded. -/
def IsRepetition (cap : Nat) (history : List StateRecord) (op : StateOp) : Prop :=
  op.key ∈ resident cap (history.map (·.op.key)) ∧ recorded history op.key = some op.state

/-! ## 3. `ADD` -/

structure AddRun where
  cache : LinkedDedupCache
  history : List AddRecord := []

def AddRun.step (s : AddRun) (request : AddRequest) : Option AddRun :=
  (s.cache.checkAndInsert request.key request.timestamp request.now).map fun (cache, duplicate) =>
    ⟨cache, ⟨request, duplicate⟩ :: s.history⟩

/-- A cache of the given capacity and window that has seen nothing. -/
def AddRun.start (cap windowSec : Nat) : AddRun := { cache := { maxSize := cap, windowSec } }

/-- What the cache was given, as a history of stores. -/
def addEntries : List AddRecord → List (EventKey × CacheEntry)
  | [] => []
  | r :: history =>
    (r.key, ⟨(baseline (r :: history) r.key).getD 0, r.now⟩) :: addEntries history

/-- Every answer is the one the operations before it call for. -/
def AddSound (cap windowSec : Nat) : List AddRecord → Prop
  | [] => True
  | r :: history =>
    (r.duplicate = true ↔ IsDuplicate cap windowSec history r.toAddRequest) ∧
      AddSound cap windowSec history

section Add

variable {cap windowSec : Nat} {history : List AddRecord} {key : EventKey}

theorem keys_addEntries (history : List AddRecord) :
    (addEntries history).map Prod.fst = history.map (·.key) := by
  induction history with
  | nil => rfl
  | cons r history ih => rw [addEntries, List.map_cons, ih, List.map_cons]

/-- What is stored under a key is its baseline and its last arrival. -/
theorem find_addEntries (h : AddSound cap windowSec history) {entry : CacheEntry}
    (hf : ((addEntries history).find? fun e => e.1 = key).map Prod.snd = some entry) :
    baseline history key = some entry.timestamp ∧
      lastArrival history key = some entry.lastSeenAt := by
  induction history with
  | nil => cases hf
  | cons r history ih =>
    by_cases hk : r.key = key
    · subst hk
      have hhead : (addEntries (r :: history)).find? (fun e => e.1 = r.key) =
          some (r.key, ⟨(baseline (r :: history) r.key).getD 0, r.now⟩) := by
        simp [addEntries]
      rw [hhead] at hf
      cases hf
      refine ⟨?_, by simp [lastArrival]⟩
      have hbase : ∃ base, baseline (r :: history) r.key = some base := by
        cases hd : r.duplicate with
        | false => exact ⟨r.timestamp, by simp [baseline, hd]⟩
        | true =>
          obtain ⟨-, base, arrival, hb, -⟩ := h.1.mp hd
          have hskip : baseline (r :: history) r.key = baseline history r.key := by
            simp [baseline, hd]
          exact ⟨base, hskip.trans hb⟩
      obtain ⟨base, hb⟩ := hbase
      rw [hb, Option.getD_some]
    · have hskip : (addEntries (r :: history)).find? (fun e => e.1 = key) =
          (addEntries history).find? fun e => e.1 = key := by
        rw [addEntries, List.find?_cons_of_neg (by simpa using hk)]
      rw [hskip] at hf
      obtain ⟨hb, ha⟩ := ih h.2 hf
      exact ⟨by simpa [baseline, hk] using hb, by simpa [lastArrival, hk] using ha⟩

theorem mem_resident (hcap : 0 < cap) (hwindow : windowSec ≠ 0) :
    key ∈ resident cap (addTouched windowSec history) ↔
      ∃ entry, (LruCache.storeAll cap (addEntries history)).find? key = some entry := by
  rw [← LruCache.mem_order, LruCache.order_storeAll hcap, keys_addEntries, addTouched,
    if_neg hwindow]
  rfl

theorem entry_of_find (hcap : 0 < cap) (h : AddSound cap windowSec history) {entry : CacheEntry}
    (hf : (LruCache.storeAll cap (addEntries history)).find? key = some entry) :
    baseline history key = some entry.timestamp ∧
      lastArrival history key = some entry.lastSeenAt := by
  rw [LruCache.find?_storeAll hcap] at hf
  unfold LruCache.held at hf
  split at hf
  · exact find_addEntries h hf
  · cases hf

theorem isWithinWindow_iff {c : DedupCache} (entry : CacheEntry) (timestamp : UInt64) (now : Nat) :
    c.isWithinWindow entry timestamp now = true ↔
      (entry.timestamp.toNat ≤ timestamp.toNat + c.windowSec ∧
          timestamp.toNat ≤ entry.timestamp.toNat + c.windowSec ∨
        timestamp < entry.timestamp ∧ now ≤ entry.lastSeenAt + c.windowSec * 1000000000) := by
  unfold DedupCache.isWithinWindow DedupCache.windowNs
  simp only [UInt64.le_iff_toNat_le, UInt64.lt_iff_toNat_lt]
  split
  · split
    · rename_i hle hnear
      exact ⟨fun _ => .inl ⟨by omega, by omega⟩, fun _ => rfl⟩
    · rename_i hle hfar
      rw [Bool.and_eq_true, decide_eq_true_eq, decide_eq_true_eq]
      exact ⟨fun h => absurd h.1 (by omega), fun h => by omega⟩
  · split
    · rename_i hlt hnear
      exact ⟨fun _ => .inl ⟨by omega, by omega⟩, fun _ => rfl⟩
    · rename_i hlt hfar
      rw [Bool.and_eq_true, decide_eq_true_eq, decide_eq_true_eq]
      exact ⟨.inr, fun h => h.resolve_left fun hnear => hfar (by omega)⟩

/-- The cache is the one the history leaves, and the answers are those called for. -/
structure AddRun.Inv (cap windowSec : Nat) (s : AddRun) : Prop where
  represents : ∃ c : DedupCache, s.cache.Represents c ∧ c.maxSize = cap ∧
    c.windowSec = windowSec ∧
      c.lru = LruCache.storeAll cap (if windowSec = 0 then [] else addEntries s.history)
  sound : AddSound cap windowSec s.history

theorem AddRun.Inv.step (hcap : 0 < cap) (s : AddRun) (request : AddRequest)
    (h : s.Inv cap windowSec) : ∃ s', s.step request = some s' ∧ s'.Inv cap windowSec := by
  obtain ⟨⟨c, hr, hmax, hwindowSec, hlru⟩, hsound⟩ := h
  obtain ⟨cache, hstep, hcache⟩ := hr.checkAndInsert request.key request.timestamp request.now
  by_cases hoff : windowSec = 0
  · -- without a window nothing is recorded and nothing is a duplicate
    have hzero : c.windowSec = 0 := hwindowSec.trans hoff
    rw [DedupCache.checkAndInsert, if_pos hzero] at hstep hcache
    have hnot : ¬ IsDuplicate cap windowSec s.history request := fun hd => by
      have hin := hd.1
      rw [addTouched, if_pos hoff] at hin
      simp [resident, LruCache.fresh] at hin
    refine ⟨_, congrArg (Option.map _) hstep, ⟨_, hcache, hmax, hwindowSec, ?_⟩,
      iff_of_false Bool.false_ne_true hnot, hsound⟩
    rw [if_pos hoff] at hlru ⊢
    exact hlru
  have hw : ¬ c.windowSec = 0 := fun hzero => hoff (hwindowSec.symm.trans hzero)
  rw [if_neg hoff] at hlru
  -- the answer, and what is stored with it
  have hinv : ∀ (c' : DedupCache) (duplicate : Bool) (entry : CacheEntry),
      c.checkAndInsert request.key request.timestamp request.now = (c', duplicate) →
      c'.maxSize = c.maxSize → c'.windowSec = c.windowSec →
      c'.lru = c.lru.store c.maxSize request.key entry →
      (duplicate = true ↔ IsDuplicate cap windowSec s.history request) →
      baseline (⟨request, duplicate⟩ :: s.history) request.key = some entry.timestamp →
      entry.lastSeenAt = request.now →
      ∃ s', s.step request = some s' ∧ s'.Inv cap windowSec := by
    intro c' duplicate entry heq hmax' hwindowSec' hlru' hduplicate hbase hnow
    rw [heq] at hstep hcache
    refine ⟨_, congrArg (Option.map _) hstep, ⟨c', hcache, hmax'.trans hmax,
      hwindowSec'.trans hwindowSec, ?_⟩, hduplicate, hsound⟩
    have hentry : addEntries (⟨request, duplicate⟩ :: s.history) =
        (request.key, entry) :: addEntries s.history := by
      rw [addEntries, hbase, Option.getD_some, ← hnow]
    rw [if_neg hoff]
    show c'.lru = LruCache.storeAll cap (addEntries (⟨request, duplicate⟩ :: s.history))
    rw [hentry, hlru', hlru, hmax]
    rfl
  cases hf : c.lru.find? request.key with
  | none =>
    have hnot : ¬ IsDuplicate cap windowSec s.history request := fun hd => by
      obtain ⟨entry, hsome⟩ := (mem_resident hcap hoff).mp hd.1
      rw [← hlru, hf] at hsome
      cases hsome
    have hmiss : c.wouldDeduplicate request.key request.timestamp request.now = false := by
      simp [DedupCache.wouldDeduplicate, hf]
    exact hinv _ false ⟨request.timestamp, request.now⟩ (DedupCache.checkAndInsert_miss hw hmiss)
      rfl rfl rfl (iff_of_false Bool.false_ne_true hnot) (by simp [baseline]) rfl
  | some entry =>
    obtain ⟨hbase, harrival⟩ := entry_of_find hcap hsound (hlru ▸ hf)
    have hiff : c.isWithinWindow entry request.timestamp request.now = true ↔
        IsDuplicate cap windowSec s.history request := by
      rw [isWithinWindow_iff, hwindowSec]
      constructor
      · exact fun hin =>
          ⟨(mem_resident hcap hoff).mpr ⟨entry, hlru ▸ hf⟩, _, _, hbase, harrival, hin⟩
      · rintro ⟨-, base, arrival, hb, ha, hin⟩
        rw [hbase] at hb
        rw [harrival] at ha
        cases hb
        cases ha
        exact hin
    cases hin : c.isWithinWindow entry request.timestamp request.now with
    | true =>
      refine hinv { c with
          lru := c.lru.store c.maxSize request.key { entry with lastSeenAt := request.now }
          totalHits := c.totalHits + 1 } true { entry with lastSeenAt := request.now } ?_ rfl rfl rfl
        ⟨fun _ => hiff.mp hin, fun _ => rfl⟩ (by simpa [baseline] using hbase) rfl
      simp only [DedupCache.checkAndInsert, if_neg hw, hf, hin, if_true]
    | false =>
      have hnot : ¬ IsDuplicate cap windowSec s.history request := fun hd => by
        rw [hiff.mpr hd] at hin
        cases hin
      have hmiss : c.wouldDeduplicate request.key request.timestamp request.now = false := by
        simp [DedupCache.wouldDeduplicate, hf, hin]
      exact hinv _ false ⟨request.timestamp, request.now⟩ (DedupCache.checkAndInsert_miss hw hmiss)
        rfl rfl rfl (iff_of_false Bool.false_ne_true hnot) (by simp [baseline]) rfl

end Add

/-! ## 4. `SET` and `DEL` -/

structure StateRun where
  cache : LinkedStateCache
  history : List StateRecord := []

def StateRun.step (s : StateRun) (op : StateOp) : Option StateRun :=
  match op with
  | .checkSet key score =>
    (s.cache.checkAndUpdateSet key score).map fun (cache, duplicate) =>
      ⟨cache, ⟨op, some duplicate⟩ :: s.history⟩
  | .checkDel key =>
    (s.cache.checkAndMarkDeleted key).map fun (cache, duplicate) =>
      ⟨cache, ⟨op, some duplicate⟩ :: s.history⟩
  | .update key score =>
    (s.cache.updateScore key score).map fun cache => ⟨cache, ⟨op, none⟩ :: s.history⟩
  | .mark key => (s.cache.markDeleted key).map fun cache => ⟨cache, ⟨op, none⟩ :: s.history⟩

/-- A cache of the given capacity that has seen nothing. -/
def StateRun.start (cap : Nat) : StateRun := { cache := { maxSize := cap } }

/-- What is kept for a state. -/
def scoreOf (state : Option Int) : Int := state.getD kDeletedScore

/-- What the cache was given, as a history of stores. -/
def stateEntries (history : List StateRecord) : List (StateKey × Option Int) :=
  history.map fun r => (r.op.key, r.op.state)

/-- Every answer is the one the operations before it call for. -/
def StateSound (cap : Nat) : List StateRecord → Prop
  | [] => True
  | r :: history =>
    r.duplicate.isSome = r.op.checks ∧
      (∀ duplicate, r.duplicate = some duplicate →
        (duplicate = true ↔ IsRepetition cap history r.op)) ∧
      StateSound cap history

section State

variable {cap : Nat} {history : List StateRecord} {key : StateKey} {state : Option Int}

theorem held_stateEntries (hcap : 0 < cap) :
    LruCache.held cap (stateEntries history) key = some state ↔
      key ∈ resident cap (history.map (·.op.key)) ∧ recorded history key = some state := by
  have hkeys : (stateEntries history).map Prod.fst = history.map (·.op.key) := by
    rw [stateEntries, List.map_map]
    rfl
  have hmem : key ∈ resident cap (history.map (·.op.key)) ↔
      ∃ v, LruCache.held cap (stateEntries history) key = some v := by
    rw [← LruCache.find?_storeAll hcap, ← LruCache.mem_order, LruCache.order_storeAll hcap, hkeys]
    rfl
  have hfind : ((stateEntries history).find? fun e => e.1 = key).map Prod.snd =
      recorded history key := by
    rw [stateEntries, List.find?_map, recorded, Option.map_map]
    rfl
  constructor
  · intro h
    refine ⟨hmem.mpr ⟨state, h⟩, ?_⟩
    unfold LruCache.held at h
    split at h
    · exact hfind ▸ h
    · cases h
  · rintro ⟨hin, hrecorded⟩
    obtain ⟨v, hv⟩ := hmem.mp hin
    have hv' := hv
    unfold LruCache.held at hv'
    split at hv'
    · rw [hfind, hrecorded] at hv'
      rw [hv, ← hv']
    · cases hv'

/-- The cache is the one the history leaves, no score is that of a deleted item, and the answers
    are those called for. -/
structure StateRun.Inv (cap : Nat) (s : StateRun) : Prop where
  represents : ∃ c : StateCache, s.cache.Represents c ∧ c.maxSize = cap ∧
    c.lru = LruCache.storeAll cap ((stateEntries s.history).map fun e => (e.1, scoreOf e.2))
  scores : ∀ r ∈ s.history, r.op.state ≠ some kDeletedScore
  sound : StateSound cap s.history

theorem scoreOf_eq {a b : Option Int} (ha : a ≠ some kDeletedScore) (hb : b ≠ some kDeletedScore) :
    scoreOf a = scoreOf b ↔ a = b := by
  constructor
  · intro h
    cases a with
    | none =>
      cases b with
      | none => rfl
      | some score => exact absurd (congrArg some h.symm) hb
    | some score =>
      cases b with
      | none => exact absurd (congrArg some h) ha
      | some score' => exact congrArg some h
  · exact congrArg scoreOf

/-- The cache finds a state repeated where it was the last recorded. -/
theorem wouldRepeat_iff (hcap : 0 < cap) {c : StateCache}
    (hlru : c.lru =
      LruCache.storeAll cap ((stateEntries history).map fun e => (e.1, scoreOf e.2)))
    (hscores : ∀ r ∈ history, r.op.state ≠ some kDeletedScore)
    (hstate : state ≠ some kDeletedScore) :
    c.wouldRepeat key (scoreOf state) = true ↔
      key ∈ resident cap (history.map (·.op.key)) ∧ recorded history key = some state := by
  have hfind : c.lru.find? key =
      (LruCache.held cap (stateEntries history) key).map scoreOf := by
    rw [hlru, LruCache.find?_storeAll hcap, LruCache.held_map]
  rw [← held_stateEntries hcap, StateCache.wouldRepeat, hfind]
  cases hheld : LruCache.held cap (stateEntries history) key with
  | none => simp
  | some last =>
    have hlast : last ≠ some kDeletedScore := by
      obtain ⟨-, hrecorded⟩ := (held_stateEntries hcap).mp hheld
      obtain ⟨r, hr, rfl⟩ := Option.map_eq_some_iff.mp hrecorded
      exact hscores r (List.mem_of_find?_eq_some hr)
    simp only [Option.map_some, decide_eq_true_eq, Option.some.injEq]
    exact scoreOf_eq hlast hstate

theorem StateRun.Inv.step (hcap : 0 < cap) (s : StateRun) (op : StateOp) (h : s.Inv cap)
    (hop : op.state ≠ some kDeletedScore) : ∃ s', s.step op = some s' ∧ s'.Inv cap := by
  obtain ⟨⟨c, hr, hmax, hlru⟩, hscores, hsound⟩ := h
  have hnext : ∀ (r : LinkedStateCache) (c' : StateCache) (duplicate : Option Bool),
      r.Represents c' → c'.maxSize = cap →
      c'.lru = c.lru.store c.maxSize op.key (scoreOf op.state) →
      duplicate.isSome = op.checks →
      (∀ d, duplicate = some d → (d = true ↔ IsRepetition cap s.history op)) →
      StateRun.Inv cap ⟨r, ⟨op, duplicate⟩ :: s.history⟩ := by
    intro r c' duplicate hr' hmax' hlru' hsome hduplicate
    refine ⟨⟨c', hr', hmax', ?_⟩, fun x hx => ?_, hsome, hduplicate, hsound⟩
    · rw [hlru', hlru, hmax]
      rfl
    · rcases List.mem_cons.mp hx with rfl | hx
      · exact hop
      · exact hscores x hx
  have hcheck : op.checks = true → ∃ r d,
      s.cache.checkAndStore op.key (scoreOf op.state) = some (r, d) ∧
        StateRun.Inv cap ⟨r, ⟨op, some d⟩ :: s.history⟩ := by
    intro hchecks
    obtain ⟨r, hs, hr'⟩ := hr.checkAndStore op.key (scoreOf op.state)
    have hiff := @wouldRepeat_iff cap s.history op.key op.state hcap c hlru hscores hop
    refine ⟨r, _, hs, hnext r _ _ hr' ?_ ?_ hchecks.symm fun d hd => ?_⟩
    · unfold StateCache.checkAndStore
      split <;> exact hmax
    · unfold StateCache.checkAndStore
      split
      · rename_i hrepeat
        have hfound : c.lru.find? op.key = some (scoreOf op.state) := by
          unfold StateCache.wouldRepeat at hrepeat
          split at hrepeat
          · cases hrepeat
          · rename_i last hlast
            rw [hlast, of_decide_eq_true hrepeat]
        exact LruCache.touch_eq_store c.maxSize hfound
      · rfl
    · cases hd
      rw [StateCache.checkAndStore_snd]
      exact hiff
  have hrecord : op.checks = false → ∃ r, s.cache.updateScore op.key (scoreOf op.state) = some r ∧
      StateRun.Inv cap ⟨r, ⟨op, none⟩ :: s.history⟩ := by
    intro hchecks
    obtain ⟨r, hs, hr'⟩ := hr.updateScore op.key (scoreOf op.state)
    exact ⟨r, hs, hnext r _ none hr' hmax rfl hchecks.symm fun d hd => by cases hd⟩
  cases op with
  | checkSet key score =>
    obtain ⟨r, d, hs, hinv⟩ := hcheck rfl
    exact ⟨_, congrArg (Option.map _) hs, hinv⟩
  | checkDel key =>
    obtain ⟨r, d, hs, hinv⟩ := hcheck rfl
    exact ⟨_, congrArg (Option.map _) hs, hinv⟩
  | update key score =>
    obtain ⟨r, hs, hinv⟩ := hrecord rfl
    exact ⟨_, congrArg (Option.map _) hs, hinv⟩
  | mark key =>
    obtain ⟨r, hs, hinv⟩ := hrecord rfl
    exact ⟨_, congrArg (Option.map _) hs, hinv⟩

end State

/-! ## 5. Runs -/

/-- The map and the list hold the same keys, each once, and no more than there is room for: those
    touched last. A key that had to go was the one touched longest ago. -/
structure Consistent {κ ν : Type} [DecidableEq κ] (cap : Nat) (lru : LinkedLru κ ν)
    (touched : List κ) : Prop where
  sameKeys : (lru.list.map Prod.snd).Perm lru.map.keys
  nodup : (lru.list.map Prod.snd).Nodup
  size : lru.map.size ≤ cap
  resident : lru.list.map Prod.snd = resident cap touched

theorem consistent_of_represents {κ ν : Type} [DecidableEq κ] {cap : Nat} (hcap : 0 < cap)
    {r : LinkedLru κ ν} {stores : List (κ × ν)}
    (h : r.Represents (LruCache.storeAll cap stores)) :
    Consistent cap r (stores.map Prod.fst) := by
  have horder : r.list.map Prod.snd = resident cap (stores.map Prod.fst) := by
    rw [← h.order, LruCache.order_storeAll hcap]
    rfl
  refine ⟨h.sameKeys, h.order ▸ LruCache.nodup_order _, ?_, horder⟩
  rw [← AssocMap.length_keys, ← h.sameKeys.length_eq, horder]
  exact List.length_take_le _ _

theorem AddRun.history_run {requests : List AddRequest} {s s' : AddRun}
    (h : run AddRun.step s requests = some s') :
    s'.history.map (·.toAddRequest) = requests.reverse ++ s.history.map (·.toAddRequest) := by
  induction requests generalizing s with
  | nil =>
    cases h
    rfl
  | cons request requests ih =>
    obtain ⟨t, ht, hrun⟩ := run_cons_eq_some.1 h
    obtain ⟨p, -, rfl⟩ := Option.map_eq_some_iff.mp ht
    rw [ih hrun]
    simp

theorem StateRun.history_step {op : StateOp} {s s' : StateRun} (h : s.step op = some s') :
    s'.history.map (·.op) = op :: s.history.map (·.op) := by
  unfold StateRun.step at h
  split at h
  all_goals
    obtain ⟨p, -, rfl⟩ := Option.map_eq_some_iff.mp h
    rfl

theorem StateRun.history_run {ops : List StateOp} {s s' : StateRun}
    (h : run StateRun.step s ops = some s') :
    s'.history.map (·.op) = ops.reverse ++ s.history.map (·.op) := by
  induction ops generalizing s with
  | nil =>
    cases h
    rfl
  | cons op ops ih =>
    obtain ⟨t, ht, hrun⟩ := run_cons_eq_some.1 h
    rw [ih hrun, StateRun.history_step ht]
    simp

/-- **The caches against their histories**: no iterator dangles, the map and the list agree and hold
    what was touched last, and every answer is the one called for, as long as no score is recorded
    that stands for a deleted item. -/
theorem dedup_history {cap : Nat} (hcap : 0 < cap) :
    (∀ windowSec (requests : List AddRequest), ∃ s,
      run AddRun.step (AddRun.start cap windowSec) requests = some s ∧
        s.history.map (·.toAddRequest) = requests.reverse ∧
        Consistent cap s.cache.lru (addTouched windowSec s.history) ∧
        AddSound cap windowSec s.history) ∧
      ∀ ops : List StateOp, (∀ op ∈ ops, op.state ≠ some kDeletedScore) → ∃ s,
        run StateRun.step (StateRun.start cap) ops = some s ∧
          s.history.map (·.op) = ops.reverse ∧
          Consistent cap s.cache.lru (s.history.map (·.op.key)) ∧ StateSound cap s.history := by
  constructor
  · intro windowSec requests
    have hstart : (AddRun.start cap windowSec).Inv cap windowSec :=
      ⟨⟨⟨cap, windowSec, .empty, 0, 0⟩, ⟨rfl, rfl, .empty, rfl, rfl⟩, rfl, rfl, by
        split <;> rfl⟩, trivial⟩
    obtain ⟨s, hrun, ⟨c, hr, -, -, hlru⟩, hsound⟩ : ∃ s,
        run AddRun.step (AddRun.start cap windowSec) requests = some s ∧ s.Inv cap windowSec :=
      run_total (fun s request h (_ : True) => AddRun.Inv.step hcap s request h) hstart
        fun _ _ => trivial
    refine ⟨s, hrun, by simpa [AddRun.start] using AddRun.history_run hrun, ?_, hsound⟩
    have hcons := consistent_of_represents hcap (hlru ▸ hr.lru)
    have htouched : (if windowSec = 0 then [] else addEntries s.history).map Prod.fst =
        addTouched windowSec s.history := by
      unfold addTouched
      split
      · rfl
      · exact keys_addEntries s.history
    rwa [htouched] at hcons
  · intro ops hops
    have hstart : (StateRun.start cap).Inv cap :=
      ⟨⟨⟨cap, .empty, 0, 0⟩, ⟨rfl, .empty, rfl, rfl⟩, rfl, rfl⟩, nofun, trivial⟩
    obtain ⟨s, hrun, ⟨c, hr, -, hlru⟩, -, hsound⟩ :=
      run_total (fun s op h hop => StateRun.Inv.step hcap s op h hop) hstart hops
    refine ⟨s, hrun, by simpa [StateRun.start] using StateRun.history_run hrun, ?_, hsound⟩
    have hcons := consistent_of_represents hcap (hlru ▸ hr.lru)
    have htouched : ((stateEntries s.history).map fun e => (e.1, scoreOf e.2)).map Prod.fst =
        s.history.map (·.op.key) := by
      rw [stateEntries, List.map_map, List.map_map]
      rfl
    rwa [htouched] at hcons

/-- A like that is set, set again and taken back, in a cache for one item. -/
theorem dedup_history_like :
    let like : StateKey := ⟨[117], [97]⟩
    ∃ s, run StateRun.step (StateRun.start 1) [.checkSet like 100, .checkSet like 100,
        .checkDel like] = some s ∧
      s.history.map (·.duplicate) = [some false, some true, some false] ∧
      StateSound 1 s.history := by
  obtain ⟨s, hrun, -, -, hsound⟩ := (dedup_history Nat.one_pos).2 [.checkSet ⟨[117], [97]⟩ 100,
    .checkSet ⟨[117], [97]⟩ 100, .checkDel ⟨[117], [97]⟩] (by decide)
  refine ⟨s, hrun, ?_, hsound⟩
  have hanswers : (run StateRun.step (StateRun.start 1) [.checkSet ⟨[117], [97]⟩ 100,
      .checkSet ⟨[117], [97]⟩ 100, .checkDel ⟨[117], [97]⟩]).map (fun s =>
        s.history.map (·.duplicate)) = some [some false, some true, some false] := by
    decide +kernel
  rw [hrun] at hanswers
  exact Option.some.inj hanswers

/-- A score of -1, restored for a `SET`, is taken for a deletion: the `DEL` that follows is a
    duplicate. -/
theorem restored_score_taken_for_deleted :
    ¬ ∀ (cap : Nat) (ops : List StateOp), 0 < cap → ∃ s,
      run StateRun.step (StateRun.start cap) ops = some s ∧ StateSound cap s.history := by
  intro h
  obtain ⟨s, hrun, hsound⟩ := h 1 [.update ⟨[117], [97]⟩ (-1), .checkDel ⟨[117], [97]⟩] Nat.one_pos
  have hhistory : s.history = [⟨.checkDel ⟨[117], [97]⟩, some true⟩,
      ⟨.update ⟨[117], [97]⟩ (-1), none⟩] := by
    cases hrun
    rfl
  rw [hhistory] at hsound
  obtain ⟨-, hdel, -⟩ := hsound
  obtain ⟨-, hrecorded⟩ := (hdel true rfl).mp rfl
  cases hrecorded

end Nvecd.Events
