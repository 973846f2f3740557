/-
  File:      Nvecd/Events/Resume.lean
  Subject:   A restored event store and the original, continued side by side.

  A snapshot carries the buffers. The restored store makes up the rest: its contexts count as
  written in the order in which they were read, its state cache holds what the events of the
  buffers say, its time-window cache is empty. What happens since is the same on both sides, and
  the more of it there is, the less the past matters: a key touched since is held, or not, on both
  sides alike, and a context written since is younger than one that was not.

  * `DedupAgree`, `StateAgree` -- two caches with a common history since, whatever was before;
  * `Contexts.Agree` -- two sets of contexts written alike since;
  * `EventStore.respond` -- a command and what was decided about it;
  * `Continued.carriesOver` -- the commands whose decision the snapshot carries;
  * `Resumed.answers` -- such commands are decided alike;
  * `Kept` -- what holds of the caches and contexts of every store that is running.
-/
import Mathlib.Data.Finset.Dedup
import Mathlib.Data.Finset.SDiff
import Nvecd.Events.Restore
import Nvecd.Lib.Machine

namespace Nvecd.Events

open Nvecd.Lib Nvecd.Storage Nvecd.Utils

/-! ## 1. The caches -/

namespace DedupCache

/-- What `CheckAndInsert` leaves under the key. -/
def insertedEntry (c : DedupCache) (key : EventKey) (timestamp : UInt64) (now : Nat) : CacheEntry :=
  match c.lru.find? key with
  | some entry =>
    if c.isWithinWindow entry timestamp now then { entry with lastSeenAt := now }
    else ⟨timestamp, now⟩
  | none => ⟨timestamp, now⟩

variable {c d : DedupCache} {key : EventKey} {timestamp : UInt64} {now : Nat}

theorem checkAndInsert_fields (hw : c.windowSec ≠ 0) (key : EventKey) (timestamp : UInt64)
    (now : Nat) :
    (c.checkAndInsert key timestamp now).1.maxSize = c.maxSize ∧
      (c.checkAndInsert key timestamp now).1.windowSec = c.windowSec ∧
      (c.checkAndInsert key timestamp now).1.lru =
        c.lru.store c.maxSize key (c.insertedEntry key timestamp now) := by
  unfold checkAndInsert insertedEntry
  rw [if_neg hw]
  cases hf : c.lru.find? key with
  | none => exact ⟨rfl, rfl, rfl⟩
  | some entry =>
    simp only
    split <;> exact ⟨rfl, rfl, rfl⟩

/-- The answer, and what is left, depend on the entry and the window only. -/
theorem same_of_find? (hwin : c.windowSec = d.windowSec) (hf : c.lru.find? key = d.lru.find? key) :
    c.wouldDeduplicate key timestamp now = d.wouldDeduplicate key timestamp now ∧
      c.insertedEntry key timestamp now = d.insertedEntry key timestamp now := by
  have hns : c.windowNs = d.windowNs := by rw [windowNs, windowNs, hwin]
  have hin : ∀ entry,
      c.isWithinWindow entry timestamp now = d.isWithinWindow entry timestamp now := by
    intro entry
    simp only [isWithinWindow, hwin, hns]
  unfold wouldDeduplicate insertedEntry
  rw [hwin, hf]
  simp only [hin, and_self]

/-- What is new is stored as it is. -/
theorem insertedEntry_of_new (hw : c.windowSec ≠ 0)
    (h : c.wouldDeduplicate key timestamp now = false) :
    c.insertedEntry key timestamp now = ⟨timestamp, now⟩ := by
  unfold wouldDeduplicate at h
  unfold insertedEntry
  rw [if_neg hw] at h
  cases hf : c.lru.find? key with
  | none => rfl
  | some entry =>
    simp only [hf] at h
    simp only [h, Bool.false_eq_true, if_false]

end DedupCache

theorem StateCache.lru_checkAndStore (t : StateCache) (key : StateKey) (score : Int) :
    (t.checkAndStore key score).1.lru = t.lru.store t.maxSize key score := by
  unfold StateCache.checkAndStore
  cases h : t.wouldRepeat key score with
  | false => rfl
  | true =>
    have hf : t.lru.find? key = some score := by
      unfold StateCache.wouldRepeat at h
      cases hk : t.lru.find? key with
      | none => simp [hk] at h
      | some last => simpa [hk] using h
    exact LruCache.touch_eq_store t.maxSize hf

theorem StateCache.maxSize_checkAndStore (t : StateCache) (key : StateKey) (score : Int) :
    (t.checkAndStore key score).1.maxSize = t.maxSize := by
  unfold StateCache.checkAndStore
  split <;> rfl

/-- The time-window caches of the original and of a restored store: `adds` are the keys touched
    since, the last one first. -/
structure DedupAgree (cfg : EventsConfig) (adds : List EventKey) (d d' : DedupCache) : Prop where
  size : d.maxSize = cfg.dedupCacheSize ∧ d'.maxSize = cfg.dedupCacheSize
  pos : 0 < cfg.dedupCacheSize
  window : d.windowSec = d'.windowSec ∧ d.windowSec ≠ 0
  lru : ∃ hs past, d.lru = .storeAll cfg.dedupCacheSize (hs ++ past) ∧
    d'.lru = .storeAll cfg.dedupCacheSize hs ∧ hs.map Prod.fst = adds

/-- The state caches: `states` are the keys touched since, `past'` what the restored cache was
    seeded with. -/
structure StateAgree (cfg : EventsConfig) (states : List StateKey) (past' : List (StateKey × Int))
    (t t' : StateCache) : Prop where
  size : t.maxSize = cfg.dedupCacheSize ∧ t'.maxSize = cfg.dedupCacheSize
  pos : 0 < cfg.dedupCacheSize
  lru : ∃ hs past, t.lru = .storeAll cfg.dedupCacheSize (hs ++ past) ∧
    t'.lru = .storeAll cfg.dedupCacheSize (hs ++ past') ∧ hs.map Prod.fst = states

section Caches

variable {cfg : EventsConfig}

/-- **An `ADD`** that does not repeat one from before the snapshot. -/
theorem DedupAgree.checkAndInsert {adds : List EventKey} {d d' : DedupCache}
    (h : DedupAgree cfg adds d d') {key : EventKey} {timestamp : UInt64} {now : Nat}
    (hnew : key ∉ adds → d.wouldDeduplicate key timestamp now = false) :
    d.wouldDeduplicate key timestamp now = d'.wouldDeduplicate key timestamp now ∧
      DedupAgree cfg (key :: adds) (d.checkAndInsert key timestamp now).1
        (d'.checkAndInsert key timestamp now).1 := by
  obtain ⟨hs, past, hlru, hlru', hadds⟩ := h.lru
  have hw' : d'.windowSec ≠ 0 := h.window.1 ▸ h.window.2
  have hsame : d.wouldDeduplicate key timestamp now = d'.wouldDeduplicate key timestamp now ∧
      d.insertedEntry key timestamp now = d'.insertedEntry key timestamp now := by
    by_cases hk : key ∈ adds
    · refine DedupCache.same_of_find? h.window.1 ?_
      rw [hlru, hlru', LruCache.find?_storeAll h.pos, LruCache.find?_storeAll h.pos,
        LruCache.held_append_of_mem (hadds ▸ hk)]
    · have hnone : d'.lru.find? key = none := by
        rw [hlru', LruCache.find?_storeAll h.pos, LruCache.held_of_not_mem (hadds ▸ hk)]
      have hnew' : d'.wouldDeduplicate key timestamp now = false := by
        simp [DedupCache.wouldDeduplicate, hnone]
      rw [hnew hk, hnew', DedupCache.insertedEntry_of_new h.window.2 (hnew hk),
        DedupCache.insertedEntry_of_new hw' hnew']
      exact ⟨rfl, rfl⟩
  obtain ⟨hmax, hwin, hafter⟩ := DedupCache.checkAndInsert_fields h.window.2 key timestamp now
  obtain ⟨hmax', hwin', hafter'⟩ := DedupCache.checkAndInsert_fields hw' key timestamp now
  refine ⟨hsame.1, ⟨hmax.trans h.size.1, hmax'.trans h.size.2⟩, h.pos,
    ⟨by rw [hwin, hwin', h.window.1], by rw [hwin]; exact h.window.2⟩,
    (key, d.insertedEntry key timestamp now) :: hs, past, ?_, ?_, by rw [List.map_cons, hadds]⟩
  · rw [hafter, h.size.1, hlru]
    rfl
  · rw [hafter', h.size.2, hlru', ← hsame.2]
    rfl

/-- What the events of the buffers say about a key. -/
def lastState (past' : List (StateKey × Int)) (key : StateKey) : Option Int :=
  (past'.find? fun e => e.1 = key).map Prod.snd

/-- What a cache that was seeded, and has been asked for `states` since, says about another key:
    it is held while fewer keys than there is room for were seeded after it or asked for since. -/
def recalled (cap : Nat) (states : List StateKey) (past' : List (StateKey × Int))
    (key : StateKey) : Option Int :=
  if (LruCache.since key (states ++ past'.map Prod.fst)).dedup.length < cap then
    lastState past' key
  else none

theorem StateCache.wouldRepeat_eq (t : StateCache) (key : StateKey) (score : Int) :
    t.wouldRepeat key score = decide (t.lru.find? key = some score) := by
  unfold StateCache.wouldRepeat
  cases t.lru.find? key <;> simp

/-- A key that was not asked for since is answered as it was seeded. -/
theorem held_of_seeded {cap : Nat} {hs past' : List (StateKey × Int)} {key : StateKey}
    (hkey : key ∉ hs.map Prod.fst) :
    LruCache.held cap (hs ++ past') key = recalled cap (hs.map Prod.fst) past' key := by
  have hskip : ((hs ++ past').find? fun e => e.1 = key) = past'.find? fun e => e.1 = key := by
    have hnone : hs.find? (fun e => e.1 = key) = none := by
      rw [List.find?_eq_none]
      intro e he hek
      exact hkey (List.mem_map.mpr ⟨e, he, by simpa using hek⟩)
    rw [List.find?_append, hnone, Option.none_or]
  rw [LruCache.held, recalled, List.map_append, hskip, lastState]

/-- **A `SET` or `DEL`**: if its key was not asked for since, the original takes it for a
    repetition if the seeded cache does. -/
theorem StateAgree.checkAndStore {states : List StateKey} {past' : List (StateKey × Int)}
    {t t' : StateCache} (h : StateAgree cfg states past' t t') {key : StateKey} {score : Int}
    (hknown : key ∉ states → t.wouldRepeat key score =
      decide (recalled cfg.dedupCacheSize states past' key = some score)) :
    t.wouldRepeat key score = t'.wouldRepeat key score ∧
      StateAgree cfg (key :: states) past' (t.checkAndStore key score).1
        (t'.checkAndStore key score).1 := by
  obtain ⟨hs, past, hlru, hlru', hstates⟩ := h.lru
  have hsame : t.wouldRepeat key score = t'.wouldRepeat key score := by
    by_cases hk : key ∈ states
    · rw [StateCache.wouldRepeat_eq, StateCache.wouldRepeat_eq, hlru, hlru',
        LruCache.find?_storeAll h.pos, LruCache.find?_storeAll h.pos,
        LruCache.held_append_of_mem (hstates ▸ hk), LruCache.held_append_of_mem (hstates ▸ hk)]
    · rw [hknown hk, StateCache.wouldRepeat_eq, hlru', LruCache.find?_storeAll h.pos,
        held_of_seeded (hstates ▸ hk), hstates]
  refine ⟨hsame, ⟨?_, ?_⟩, h.pos, (key, score) :: hs, past, ?_, ?_, by rw [List.map_cons, hstates]⟩
  · rw [StateCache.maxSize_checkAndStore, h.size.1]
  · rw [StateCache.maxSize_checkAndStore, h.size.2]
  · rw [StateCache.lru_checkAndStore, h.size.1, hlru]
    rfl
  · rw [StateCache.lru_checkAndStore, h.size.2, hlru']
    rfl

end Caches

/-! ## 2. The contexts -/

namespace Contexts

variable {cfg : EventsConfig} {c c' : Contexts} {ctx : Bytes} {event : Event}

/-- Access numbers are given once each. -/
structure Stamped (c : Contexts) : Prop where
  le : ∀ ctx n, c.ctxLastAccess.find? ctx = some n → n ≤ c.contextAccessSequence
  inj : ∀ ctx ctx' n, c.ctxLastAccess.find? ctx = some n → c.ctxLastAccess.find? ctx' = some n →
    ctx = ctx'

theorem Stamped.empty : Stamped {} := ⟨nofun, nofun⟩

theorem Stamped.pushEvent (h : Stamped c) : Stamped (c.pushEvent cfg ctx event).1 := by
  have hle : ∀ ctx' n, (c.admitted cfg ctx).ctxLastAccess.find? ctx' = some n →
      n ≤ c.contextAccessSequence := fun ctx' n hn => h.le ctx' n (find?_admitted hn)
  constructor
  · intro ctx' n hn
    rw [contextAccessSequence_pushEvent]
    rw [ctxLastAccess_pushEvent, AssocMap.find?_insert] at hn
    split at hn
    · cases hn
      exact Nat.le_refl _
    · exact Nat.le_succ_of_le (hle ctx' n hn)
  · intro a b n ha hb
    rw [ctxLastAccess_pushEvent, AssocMap.find?_insert] at ha hb
    split at ha <;> split at hb
    · rename_i ha' hb'
      rw [ha', hb']
    · cases ha
      have := hle b _ hb
      omega
    · cases hb
      have := hle a _ ha
      omega
    · exact h.inj a b n (find?_admitted ha) (find?_admitted hb)

/-- **Contexts written alike since a snapshot.** They have the same buffers. `written` are those
    written since; these have the same numbers in both, counted from the snapshot's last (`base`,
    `base'`), and the others have older ones. -/
structure Agree (base base' : Nat) (written : List Bytes) (c c' : Contexts) : Prop where
  buffers : ∀ ctx, (c'.ctxEvents.find? ctx).map RingBuffer.getAll =
    (c.ctxEvents.find? ctx).map RingBuffer.getAll
  sequence : ∃ m, c.contextAccessSequence = base + m ∧ c'.contextAccessSequence = base' + m
  since : ∀ ctx n, c.ctxLastAccess.find? ctx = some n → ctx ∈ written →
    ∃ k, 0 < k ∧ n = base + k ∧ c'.ctxLastAccess.find? ctx = some (base' + k)
  before : ∀ ctx n, c.ctxLastAccess.find? ctx = some n → ctx ∉ written → n ≤ base ∧
    ∃ n', c'.ctxLastAccess.find? ctx = some n' ∧ n' ≤ base'

theorem Agree.mem_keys {base base' : Nat} {written : List Bytes}
    (h : Agree base base' written c c') {ctx : Bytes} :
    ctx ∈ c'.ctxEvents.keys ↔ ctx ∈ c.ctxEvents.keys := by
  have hb := h.buffers ctx
  rw [AssocMap.mem_keys, AssocMap.mem_keys]
  cases hc : c.ctxEvents.find? ctx <;> cases hc' : c'.ctxEvents.find? ctx <;> simp [hc, hc'] at hb ⊢

theorem Agree.keys_toFinset {base base' : Nat} {written : List Bytes}
    (h : Agree base base' written c c') :
    c'.ctxEvents.keys.toFinset = c.ctxEvents.keys.toFinset := by
  ext ctx
  rw [List.mem_toFinset, List.mem_toFinset, h.mem_keys]

theorem Agree.size {base base' : Nat} {written : List Bytes} (h : Agree base base' written c c') :
    c'.ctxEvents.size = c.ctxEvents.size :=
  AssocMap.size_eq_of_mem_keys fun _ => h.mem_keys

/-- The contexts with a buffer that were not written since. -/
def unwritten (c : Contexts) (written : List Bytes) : List Bytes :=
  c.ctxEvents.keys.filter fun ctx => ctx ∉ written

/-- **The same context goes**, if at most one was not written since. -/
theorem Agree.leastRecent {base base' : Nat} {written : List Bytes}
    (h : Agree base base' written c c') (hs : Sound cfg c) (hs' : Sound cfg c')
    (hst : Stamped c) (hone : (c.unwritten written).length ≤ 1) {v w : Bytes × Nat}
    (hv : leastRecent c.ctxLastAccess.entries = some v)
    (hw : leastRecent c'.ctxLastAccess.entries = some w) : v.1 = w.1 := by
  have hvin : c.ctxLastAccess.find? v.1 = some v.2 := AssocMap.mem_entries.mp (leastRecent_mem hv)
  have hwin' : c'.ctxLastAccess.find? w.1 = some w.2 :=
    AssocMap.mem_entries.mp (leastRecent_mem hw)
  -- the victim of the restored store is a context of the original
  obtain ⟨n, hwin⟩ : ∃ n, c.ctxLastAccess.find? w.1 = some n := by
    rw [← AssocMap.mem_keys, hs.accesses, ← h.mem_keys, ← hs'.accesses, AssocMap.mem_keys]
    exact ⟨w.2, hwin'⟩
  have hvn : v.2 ≤ n := leastRecent_le hv (x := (w.1, n)) (AssocMap.mem_entries.mpr hwin)
  have hunwritten : ∀ ctx k, c.ctxLastAccess.find? ctx = some k → ctx ∉ written →
      ctx ∈ c.unwritten written := by
    intro ctx k hk hno
    refine List.mem_filter.mpr ⟨(hs.accesses ctx).mp (AssocMap.mem_keys.mpr ⟨k, hk⟩), ?_⟩
    simpa using hno
  have honly : ∀ a b, a ∈ c.unwritten written → b ∈ c.unwritten written → a = b := by
    intro a b ha hb
    rcases hu : c.unwritten written with _ | ⟨x, l⟩
    · rw [hu] at ha
      cases ha
    · rw [hu, List.length_cons] at hone
      have hl : l = [] := List.eq_nil_of_length_eq_zero (by omega)
      rw [hu, hl, List.mem_singleton] at ha hb
      rw [ha, hb]
  by_cases hwv : v.1 ∈ written
  · obtain ⟨k, hk, hvk, hvk'⟩ := h.since v.1 v.2 hvin hwv
    by_cases hww : w.1 ∈ written
    · -- both were written since: the numbers are the same in both, so each is the least
      obtain ⟨j, hj, hwj, hwj'⟩ := h.since w.1 n hwin hww
      rw [hwin', Option.some.injEq] at hwj'
      have hle : w.2 ≤ base' + k :=
        leastRecent_le hw (x := (v.1, base' + k)) (AssocMap.mem_entries.mpr hvk')
      have heq : v.2 = n := by omega
      exact hst.inj v.1 w.1 n (heq ▸ hvin) hwin
    · -- an older one is there, so the original would not have chosen a younger
      obtain ⟨hn, -⟩ := h.before w.1 n hwin hww
      omega
  · obtain ⟨hold, m, hm, hm'⟩ := h.before v.1 v.2 hvin hwv
    have hww : w.1 ∉ written := by
      intro hww
      obtain ⟨j, hj, -, hwj'⟩ := h.since w.1 n hwin hww
      rw [hwin', Option.some.injEq] at hwj'
      have hle : w.2 ≤ m := leastRecent_le hw (x := (v.1, m)) (AssocMap.mem_entries.mpr hm)
      omega
    exact honly v.1 w.1 (hunwritten v.1 v.2 hvin hwv) (hunwritten w.1 n hwin hww)

/-- Does a new event of `ctx` put another context out? -/
def evicts (cfg : EventsConfig) (c : Contexts) (ctx : Bytes) : Bool :=
  !c.ctxEvents.contains ctx && decide (cfg.maxContexts ≠ 0) &&
    decide (cfg.maxContexts ≤ c.ctxEvents.size)

theorem admitted_of_not_evicts (h : c.evicts cfg ctx = false) : c.admitted cfg ctx = c := by
  unfold admitted
  split
  · rfl
  · rename_i hf
    unfold evictLeastRecentlyUsedContext
    refine if_pos ?_
    simp only [evicts, AssocMap.contains, hf, Option.isSome_none, Bool.not_false, Bool.true_and,
      Bool.and_eq_false_iff, decide_eq_false_iff_not, not_not, Nat.not_le] at h
    exact h

theorem Sound.admitted_of_evicts (hs : Sound cfg c) (h : c.evicts cfg ctx = true) :
    ∃ v, leastRecent c.ctxLastAccess.entries = some v ∧
      c.admitted cfg ctx = { c with
        ctxEvents := c.ctxEvents.erase v.1
        ctxLastAccess := c.ctxLastAccess.erase v.1 } := by
  simp only [evicts, AssocMap.contains, Bool.and_eq_true, Bool.not_eq_true',
    Option.isSome_eq_false_iff, Option.isNone_iff_eq_none, decide_eq_true_eq] at h
  obtain ⟨⟨hf, hmax⟩, hfull⟩ := h
  have hcond : ¬ (cfg.maxContexts = 0 ∨ c.ctxEvents.size < cfg.maxContexts) := by omega
  cases hl : leastRecent c.ctxLastAccess.entries with
  | none =>
    have hpos : 0 < c.ctxEvents.keys.length := by
      rw [AssocMap.length_keys]
      omega
    obtain ⟨ctx', hctx'⟩ := List.exists_mem_of_length_pos hpos
    rw [← hs.accesses, AssocMap.keys, leastRecent_eq_none hl] at hctx'
    cases hctx'
  | some v =>
    refine ⟨v, rfl, ?_⟩
    simp only [Contexts.admitted, hf, evictLeastRecentlyUsedContext, if_neg hcond, hl]

section Agree

variable {base base' : Nat} {written : List Bytes}

theorem Agree.evicts (h : Agree base base' written c c') :
    c'.evicts cfg ctx = c.evicts cfg ctx := by
  have hcontains : c'.ctxEvents.contains ctx = c.ctxEvents.contains ctx := by
    rw [Bool.eq_iff_iff, AssocMap.contains_iff, AssocMap.contains_iff, h.mem_keys]
  unfold Contexts.evicts
  rw [hcontains, h.size]

theorem Agree.erase (h : Agree base base' written c c') (v : Bytes) :
    Agree base base' written
      { c with ctxEvents := c.ctxEvents.erase v, ctxLastAccess := c.ctxLastAccess.erase v }
      { c' with ctxEvents := c'.ctxEvents.erase v, ctxLastAccess := c'.ctxLastAccess.erase v } := by
  refine ⟨fun ctx => ?_, h.sequence, fun ctx n hn hin => ?_, fun ctx n hn hno => ?_⟩
  · simp only [AssocMap.find?_erase]
    split
    · rfl
    · exact h.buffers ctx
  · simp only [AssocMap.find?_erase] at hn ⊢
    split at hn
    · cases hn
    · rename_i hne
      simp only [if_neg hne]
      exact h.since ctx n hn hin
  · simp only [AssocMap.find?_erase] at hn ⊢
    split at hn
    · cases hn
    · rename_i hne
      simp only [if_neg hne]
      exact h.before ctx n hn hno

theorem Agree.admitted (h : Agree base base' written c c') (hs : Sound cfg c) (hs' : Sound cfg c')
    (hst : Stamped c)
    (hone : c.evicts cfg ctx = true → (c.unwritten written).length ≤ 1) :
    Agree base base' written (c.admitted cfg ctx) (c'.admitted cfg ctx) := by
  cases he : c.evicts cfg ctx with
  | false =>
    rw [admitted_of_not_evicts he, admitted_of_not_evicts (h.evicts.trans he)]
    exact h
  | true =>
    obtain ⟨v, hv, hadmitted⟩ := hs.admitted_of_evicts he
    obtain ⟨w, hw, hadmitted'⟩ := hs'.admitted_of_evicts (h.evicts.trans he)
    rw [hadmitted, hadmitted', ← h.leastRecent hs hs' hst (hone he) hv hw]
    exact h.erase v.1

theorem Agree.getAll_bufferOf (h : Agree base base' written c c') :
    (c'.bufferOf cfg ctx).getAll = (c.bufferOf cfg ctx).getAll := by
  have hb := h.buffers ctx
  unfold Contexts.bufferOf
  cases hc : c.ctxEvents.find? ctx <;> cases hc' : c'.ctxEvents.find? ctx <;> simp [hc, hc'] at hb ⊢
  exact hb

/-- **One more event on both sides.** -/
theorem Agree.pushEvent (h : Agree base base' written c c') (hs : Sound cfg c)
    (hs' : Sound cfg c') (hst : Stamped c)
    (hone : c.evicts cfg ctx = true → (c.unwritten written).length ≤ 1) (event : Event) :
    Agree base base' (ctx :: written) (c.pushEvent cfg ctx event).1
      (c'.pushEvent cfg ctx event).1 := by
  have hadmitted := h.admitted hs hs' hst hone
  obtain ⟨m, hm, hm'⟩ := h.sequence
  refine ⟨fun ctx' => ?_, ⟨m + 1, ?_, ?_⟩, fun ctx' n hn hin => ?_, fun ctx' n hn hno => ?_⟩
  · rw [find?_pushEvent, find?_pushEvent]
    split
    · obtain ⟨hfilled, hcap, -⟩ := hs.bufferOf ctx
      obtain ⟨hfilled', hcap', -⟩ := hs'.bufferOf ctx
      have hsize : (c'.bufferOf cfg ctx).size = (c.bufferOf cfg ctx).size := by
        rw [← RingBuffer.length_getAll, h.getAll_bufferOf, RingBuffer.length_getAll]
      rw [Option.map_some, Option.map_some, RingBuffer.getAll_push hfilled',
        RingBuffer.getAll_push hfilled, h.getAll_bufferOf, hsize, hcap', hcap]
    · exact hadmitted.buffers ctx'
  · rw [contextAccessSequence_pushEvent, hm]
    rfl
  · rw [contextAccessSequence_pushEvent, hm']
    rfl
  · rw [ctxLastAccess_pushEvent, AssocMap.find?_insert] at hn ⊢
    split at hn
    · rename_i he
      cases hn
      exact ⟨m + 1, Nat.succ_pos m, by omega, by rw [if_pos he, hm']; rfl⟩
    · rename_i hne
      rw [if_neg hne]
      exact hadmitted.since ctx' n hn ((List.mem_cons.mp hin).resolve_left hne)
  · rw [List.mem_cons, not_or] at hno
    rw [ctxLastAccess_pushEvent, AssocMap.find?_insert] at hn ⊢
    rw [if_neg hno.1] at hn ⊢
    exact hadmitted.before ctx' n hn hno.2

end Agree

end Contexts

/-! ## 3. Commands and what is decided about them -/

/-- An `EVENT` command, with the clocks as they are when it is carried out. -/
structure EventCommand where
  clock : Clock
  ctx : Bytes
  id : Bytes
  score : Int
  type : EventType
  timestamp : UInt64 := 0
  named : type.toByte ≤ 2

/-- The state that a `SET` or `DEL` asks for. -/
def EventCommand.state (cmd : EventCommand) : Int :=
  if cmd.type = .DEL then kDeletedScore else cmd.score

/-- The result, which says whether the event was a duplicate, and the contexts that were put out. -/
structure Decision where
  result : Except Error IngestResult
  evicted : Finset Bytes

namespace EventStore

/-- A command carried out. -/
def respond (s : EventStore) (cmd : EventCommand) : EventStore × Decision :=
  let (s', result) :=
    s.addEventAndGetPrior cmd.clock cmd.ctx cmd.id cmd.score cmd.type cmd.timestamp
  (s', ⟨result, s.contexts.ctxEvents.keys.toFinset \ s'.contexts.ctxEvents.keys.toFinset⟩)

/-- Is the event a duplicate for the store? -/
def repeats (s : EventStore) (cmd : EventCommand) : Bool :=
  s.caches.wouldDeduplicate cmd.ctx cmd.id cmd.score cmd.type
    (resolveTimestamp cmd.timestamp cmd.clock) cmd.clock.steadyNow

end EventStore

/-- What the events leave in a state cache, the last one first. -/
def seededBy (stored : List (Bytes × Event)) : List (StateKey × Int) :=
  (stored.filterMap fun e => stateEntry e.1 e.2).reverse

/-- The original after a snapshot: the contexts written since, and the keys that were asked for in
    its caches since. -/
structure Continued where
  store : EventStore
  written : List Bytes := []
  adds : List EventKey := []
  states : List StateKey := []

namespace Continued

/-- One more command. -/
def step (g : Continued) (cmd : EventCommand) : Continued :=
  match validateEvent cmd.ctx cmd.id cmd.score cmd.type with
  | .error _ => g
  | .ok () =>
    { store := (g.store.respond cmd).1
      written := if g.store.repeats cmd then g.written else cmd.ctx :: g.written
      adds := if cmd.type = .ADD then ⟨cmd.ctx, cmd.id, cmd.score⟩ :: g.adds else g.adds
      states := if cmd.type = .SET ∨ cmd.type = .DEL then ⟨cmd.ctx, cmd.id⟩ :: g.states
        else g.states }

/-- An `ADD` is not taken for a repetition of one from before the snapshot. -/
def addCarriesOver (g : Continued) (cmd : EventCommand) : Bool :=
  decide (cmd.type ≠ .ADD) || decide (⟨cmd.ctx, cmd.id, cmd.score⟩ ∈ g.adds) ||
    !g.store.repeats cmd

/-- The first `SET` or `DEL` of an item since the snapshot is taken for a repetition if the last
    one in the buffers of the snapshot says the same, and the cache they were read into has had
    room for it since. -/
def stateCarriesOver (seeded : List (StateKey × Int)) (g : Continued) (cmd : EventCommand) :
    Bool :=
  let key : StateKey := ⟨cmd.ctx, cmd.id⟩
  decide (cmd.type = .ADD) || decide (key ∈ g.states) ||
    g.store.caches.stateCache.all fun t =>
      g.store.repeats cmd ==
        decide (recalled t.maxSize g.states seeded key = some cmd.state)

/-- A context is put out only if at most one of them was not written since the snapshot. -/
def evictionCarriesOver (g : Continued) (cmd : EventCommand) : Bool :=
  g.store.repeats cmd || !g.store.contexts.evicts g.store.config cmd.ctx ||
    decide ((g.store.contexts.unwritten g.written).length ≤ 1)

/-- **The decision about the command rests on nothing but what a snapshot carries**, and what came
    since. -/
def carriesOver (seeded : List (StateKey × Int)) (g : Continued) (cmd : EventCommand) : Bool :=
  g.addCarriesOver cmd && stateCarriesOver seeded g cmd && g.evictionCarriesOver cmd

end Continued

/-! ## 4. One command on both sides -/

section Deduplicate

variable {cfg : EventsConfig} {c c' : EventCaches} {ctx id : Bytes} {score : Int}
  {timestamp : UInt64} {now : Nat}

theorem deduplicate_add {adds : List EventKey}
    (h : Option.Rel (DedupAgree cfg adds) c.dedupCache c'.dedupCache)
    (hnew : (⟨ctx, id, score⟩ : EventKey) ∉ adds →
      c.wouldDeduplicate ctx id score .ADD timestamp now = false) :
    c.wouldDeduplicate ctx id score .ADD timestamp now =
        c'.wouldDeduplicate ctx id score .ADD timestamp now ∧
      Option.Rel (DedupAgree cfg (⟨ctx, id, score⟩ :: adds))
        (c.deduplicate ctx id score .ADD timestamp now).1.dedupCache
        (c'.deduplicate ctx id score .ADD timestamp now).1.dedupCache ∧
      (c.deduplicate ctx id score .ADD timestamp now).1.stateCache = c.stateCache ∧
      (c'.deduplicate ctx id score .ADD timestamp now).1.stateCache = c'.stateCache := by
  unfold EventCaches.wouldDeduplicate EventCaches.deduplicate
  unfold EventCaches.wouldDeduplicate at hnew
  cases hd : c.dedupCache with
  | none =>
    rw [hd] at h
    cases hd' : c'.dedupCache with
    | none => exact ⟨rfl, by simp only [hd, hd']; exact .none, rfl, rfl⟩
    | some d' =>
      rw [hd'] at h
      cases h
  | some d =>
    rw [hd] at h
    cases hd' : c'.dedupCache with
    | none =>
      rw [hd'] at h
      cases h
    | some d' =>
      rw [hd'] at h
      cases h with
      | some hagree =>
        rw [hd] at hnew
        obtain ⟨hsame, hnext⟩ := hagree.checkAndInsert hnew
        exact ⟨hsame, .some hnext, rfl, rfl⟩

/-- `SET` and `DEL` ask for a state and leave it. -/
theorem deduplicate_state {states : List StateKey} {seeded : List (StateKey × Int)}
    {type : EventType} {value : Int}
    (htype : type = .SET ∧ value = score ∨ type = .DEL ∧ value = kDeletedScore)
    (h : Option.Rel (StateAgree cfg states seeded) c.stateCache c'.stateCache)
    (hknown : (⟨ctx, id⟩ : StateKey) ∉ states → ∀ t, c.stateCache = some t →
      c.wouldDeduplicate ctx id score type timestamp now =
        decide (recalled cfg.dedupCacheSize states seeded ⟨ctx, id⟩ = some value)) :
    c.wouldDeduplicate ctx id score type timestamp now =
        c'.wouldDeduplicate ctx id score type timestamp now ∧
      Option.Rel (StateAgree cfg (⟨ctx, id⟩ :: states) seeded)
        (c.deduplicate ctx id score type timestamp now).1.stateCache
        (c'.deduplicate ctx id score type timestamp now).1.stateCache ∧
      (c.deduplicate ctx id score type timestamp now).1.dedupCache = c.dedupCache ∧
      (c'.deduplicate ctx id score type timestamp now).1.dedupCache = c'.dedupCache := by
  have hcall : ∀ e : EventCaches,
      e.wouldDeduplicate ctx id score type timestamp now =
          (e.stateCache.any fun t => t.wouldRepeat ⟨ctx, id⟩ value) ∧
        (e.deduplicate ctx id score type timestamp now).1 =
          { e with stateCache := e.stateCache.map fun t => (t.checkAndStore ⟨ctx, id⟩ value).1 } := by
    intro e
    unfold EventCaches.wouldDeduplicate EventCaches.deduplicate
    rcases htype with ⟨rfl, rfl⟩ | ⟨rfl, rfl⟩
    · cases he : e.stateCache with
      | none => exact ⟨rfl, by cases e; simp_all⟩
      | some t => exact ⟨rfl, rfl⟩
    · cases he : e.stateCache with
      | none => exact ⟨rfl, by cases e; simp_all⟩
      | some t => exact ⟨rfl, rfl⟩
  rw [(hcall c).1] at hknown
  rw [(hcall c).1, (hcall c').1, (hcall c).2, (hcall c').2]
  simp only [and_true]
  cases ht : c.stateCache with
  | none =>
    rw [ht] at h
    cases ht' : c'.stateCache with
    | none => exact ⟨rfl, .none⟩
    | some t' =>
      rw [ht'] at h
      cases h
  | some t =>
    rw [ht] at h
    cases ht' : c'.stateCache with
    | none =>
      rw [ht'] at h
      cases h
    | some t' =>
      rw [ht'] at h
      cases h with
      | some hagree =>
        have hasked : (⟨ctx, id⟩ : StateKey) ∉ states → t.wouldRepeat ⟨ctx, id⟩ value =
            decide (recalled cfg.dedupCacheSize states seeded ⟨ctx, id⟩ = some value) := by
          intro hk
          rw [← hknown hk t ht, ht, Option.any_some]
        obtain ⟨hsame, hnext⟩ := hagree.checkAndStore hasked
        exact ⟨hsame, .some hnext⟩

end Deduplicate

/-- **The original and the restored store**, continued: `seeded` is what the restored state cache
    began with, `base` and `base'` are the access numbers of the snapshot. -/
structure Resumed (cfg : EventsConfig) (seeded : List (StateKey × Int)) (base base' : Nat)
    (g : Continued) (t : EventStore) : Prop where
  config : g.store.config = cfg
  config' : t.config = cfg
  contexts : Contexts.Agree base base' g.written g.store.contexts t.contexts
  sound : g.store.contexts.Sound cfg
  sound' : t.contexts.Sound cfg
  stamped : g.store.contexts.Stamped
  dedup : Option.Rel (DedupAgree cfg g.adds) g.store.caches.dedupCache t.caches.dedupCache
  state : Option.Rel (StateAgree cfg g.states seeded) g.store.caches.stateCache
    t.caches.stateCache

section Step

variable {cfg : EventsConfig} {seeded : List (StateKey × Int)} {base base' : Nat} {g : Continued}
  {t : EventStore} {cmd : EventCommand}

/-- The caches after a command, and the answer they gave. -/
theorem Resumed.deduplicate (h : Resumed cfg seeded base base' g t)
    (hadd : g.addCarriesOver cmd = true) (hstate : g.stateCarriesOver seeded cmd = true) :
    g.store.repeats cmd = t.repeats cmd ∧
      Option.Rel
        (DedupAgree cfg
          (if cmd.type = .ADD then ⟨cmd.ctx, cmd.id, cmd.score⟩ :: g.adds else g.adds))
        (g.store.caches.deduplicate cmd.ctx cmd.id cmd.score cmd.type
          (resolveTimestamp cmd.timestamp cmd.clock) cmd.clock.steadyNow).1.dedupCache
        (t.caches.deduplicate cmd.ctx cmd.id cmd.score cmd.type
          (resolveTimestamp cmd.timestamp cmd.clock) cmd.clock.steadyNow).1.dedupCache ∧
      Option.Rel
        (StateAgree cfg
          (if cmd.type = .SET ∨ cmd.type = .DEL then ⟨cmd.ctx, cmd.id⟩ :: g.states else g.states)
          seeded)
        (g.store.caches.deduplicate cmd.ctx cmd.id cmd.score cmd.type
          (resolveTimestamp cmd.timestamp cmd.clock) cmd.clock.steadyNow).1.stateCache
        (t.caches.deduplicate cmd.ctx cmd.id cmd.score cmd.type
          (resolveTimestamp cmd.timestamp cmd.clock) cmd.clock.steadyNow).1.stateCache := by
  -- what the condition says about a `SET` or `DEL`
  have hknown : cmd.type ≠ .ADD → (⟨cmd.ctx, cmd.id⟩ : StateKey) ∉ g.states →
      ∀ c, g.store.caches.stateCache = some c → g.store.repeats cmd =
        decide (recalled cfg.dedupCacheSize g.states seeded ⟨cmd.ctx, cmd.id⟩ =
          some cmd.state) := by
    intro htype hkey c hc
    have hsize : c.maxSize = cfg.dedupCacheSize := by
      have hrel := h.state
      rw [hc] at hrel
      generalize t.caches.stateCache = restored at hrel
      cases hrel with
      | some hagree => exact hagree.size.1
    simp only [Continued.stateCarriesOver, decide_eq_false htype, decide_eq_false hkey,
      Bool.false_or, hc, Option.all_some, beq_iff_eq, hsize] at hstate
    exact hstate
  unfold EventStore.repeats at hknown ⊢
  unfold Continued.addCarriesOver EventStore.repeats at hadd
  cases htype : cmd.type with
  | ADD =>
    simp only [htype, ne_eq, not_true_eq_false, decide_false, Bool.false_or, Bool.or_eq_true,
      decide_eq_true_eq, Bool.not_eq_true'] at hadd
    obtain ⟨hsame, hdedup, hs, hs'⟩ := deduplicate_add h.dedup fun hk => hadd.resolve_left hk
    refine ⟨hsame, by rw [if_pos rfl]; exact hdedup, ?_⟩
    rw [hs, hs', if_neg (by simp)]
    exact h.state
  | SET =>
    have hvalue : cmd.state = cmd.score := by rw [EventCommand.state, htype, if_neg (by simp)]
    rw [hvalue, htype] at hknown
    obtain ⟨hsame, hstates, hd, hd'⟩ := deduplicate_state
      (.inl ⟨(rfl : EventType.SET = .SET), rfl⟩) h.state (hknown (by simp))
    refine ⟨hsame, ?_, by rw [if_pos (.inl rfl)]; exact hstates⟩
    rw [hd, hd', if_neg (by simp)]
    exact h.dedup
  | DEL =>
    have hvalue : cmd.state = kDeletedScore := by rw [EventCommand.state, htype, if_pos rfl]
    rw [hvalue, htype] at hknown
    obtain ⟨hsame, hstates, hd, hd'⟩ := deduplicate_state
      (.inr ⟨(rfl : EventType.DEL = .DEL), rfl⟩) h.state (hknown (by simp))
    refine ⟨hsame, ?_, by rw [if_pos (.inr rfl)]; exact hstates⟩
    rw [hd, hd', if_neg (by simp)]
    exact h.dedup
  | unnamed raw hraw =>
    have hnamed := cmd.named
    rw [htype] at hnamed
    exact absurd hraw (UInt8.not_lt.mpr hnamed)

/-- **One command**: decided alike, and both sides go on alike. -/
theorem Resumed.respond (h : Resumed cfg seeded base base' g t)
    (hok : g.carriesOver seeded cmd = true) :
    (g.store.respond cmd).2 = (t.respond cmd).2 ∧
      (g.step cmd).store = (g.store.respond cmd).1 ∧
      Resumed cfg seeded base base' (g.step cmd) (t.respond cmd).1 := by
  simp only [Continued.carriesOver, Bool.and_eq_true] at hok
  obtain ⟨⟨hadd, hstate⟩, hevict⟩ := hok
  obtain ⟨hsame, hdedup, hstates⟩ := h.deduplicate hadd hstate
  have hkeys := h.contexts.keys_toFinset
  unfold EventStore.respond Continued.step EventStore.respond
  cases hv : validateEvent cmd.ctx cmd.id cmd.score cmd.type with
  | error e =>
    rw [EventStore.addEventAndGetPrior_invalid hv, EventStore.addEventAndGetPrior_invalid hv]
    exact ⟨by simp, rfl, h⟩
  | ok u =>
    cases hd : g.store.repeats cmd with
    | true =>
      have hd' : t.repeats cmd = true := hsame ▸ hd
      rw [EventStore.addEventAndGetPrior_duplicate hv hd,
        EventStore.addEventAndGetPrior_duplicate hv hd']
      refine ⟨by simp, rfl, ?_⟩
      exact ⟨h.config, h.config', h.contexts, h.sound, h.sound', h.stamped, hdedup, hstates⟩
    | false =>
      have hd' : t.repeats cmd = false := hsame ▸ hd
      rw [EventStore.addEventAndGetPrior_new hv hd, EventStore.addEventAndGetPrior_new hv hd']
      have hone : g.store.contexts.evicts cfg cmd.ctx = true →
          (g.store.contexts.unwritten g.written).length ≤ 1 := by
        intro he
        simpa [Continued.evictionCarriesOver, hd, h.config, he] using hevict
      have hctx := (validateEvent_ok hv).1
      have hevent := storable_of_validateEvent hv cmd.named
        (resolveTimestamp cmd.timestamp cmd.clock)
      have hpush := h.contexts.pushEvent h.sound h.sound' h.stamped hone
        ⟨cmd.id, storedScore cmd.score cmd.type, resolveTimestamp cmd.timestamp cmd.clock, cmd.type⟩
      rw [h.config, h.config']
      refine ⟨?_, rfl, ⟨rfl, rfl, ?_, ?_, ?_, ?_, hdedup, hstates⟩⟩
      · simp only [Contexts.pushEvent_snd, h.contexts.getAll_bufferOf, hkeys, hpush.keys_toFinset]
      · exact hpush
      · exact h.sound.pushEvent hctx hevent
      · exact h.sound'.pushEvent hctx hevent
      · exact h.stamped.pushEvent

/-- The run of the original since the snapshot. -/
def resume (g : Continued) (cmd : EventCommand) : Option Continued := some (g.step cmd)

/-- **All later commands** are decided alike, if each rests on what the snapshot carries. -/
theorem Resumed.answers (h : Resumed cfg seeded base base' g t) {cmds : List EventCommand}
    (hok : Meets resume (fun g cmd => g.carriesOver seeded cmd = true) g cmds) :
    Lib.answers EventStore.respond g.store cmds = Lib.answers EventStore.respond t cmds := by
  induction cmds generalizing g t with
  | nil => rfl
  | cons cmd cmds ih =>
    obtain ⟨hone, hrest⟩ := hok
    obtain ⟨hsame, hstore, hnext⟩ := h.respond hone
    show (g.store.respond cmd).2 :: Lib.answers EventStore.respond (g.store.respond cmd).1 cmds = _
    rw [hsame, ← hstore, ih hnext hrest]
    rfl

end Step

/-! ## 5. The original at the snapshot -/

structure DedupKept (cfg : EventsConfig) (d : DedupCache) : Prop where
  size : d.maxSize = cfg.dedupCacheSize ∧ 0 < cfg.dedupCacheSize
  window : d.windowSec = cfg.dedupWindowSec ∧ d.windowSec ≠ 0
  lru : ∃ past, d.lru = .storeAll cfg.dedupCacheSize past

structure StateKept (cfg : EventsConfig) (t : StateCache) : Prop where
  size : t.maxSize = cfg.dedupCacheSize ∧ 0 < cfg.dedupCacheSize
  lru : ∃ past, t.lru = .storeAll cfg.dedupCacheSize past

/-- **A store that commands have led to**: its caches are there if the configuration asks for
    them, and what a history of stores has left. -/
structure Kept (cfg : EventsConfig) (s : EventStore) : Prop where
  config : s.config = cfg
  sound : s.contexts.Sound cfg
  stamped : s.contexts.Stamped
  dedup : ∀ d, s.caches.dedupCache = some d → DedupKept cfg d
  state : ∀ t, s.caches.stateCache = some t → StateKept cfg t
  hasDedup : s.caches.dedupCache.isSome = (EventCaches.new cfg).dedupCache.isSome
  hasState : s.caches.stateCache.isSome = (EventCaches.new cfg).stateCache.isSome

section Kept

variable {cfg : EventsConfig} {s : EventStore}

theorem kept_new (cfg : EventsConfig) : Kept cfg (.new cfg) := by
  refine ⟨rfl, .empty cfg, .empty, fun d hd => ?_, fun t ht => ?_, rfl, rfl⟩
  · simp only [EventStore.new, EventCaches.new, Option.ite_none_right_eq_some,
      Option.some.injEq] at hd
    obtain ⟨⟨hw, hn⟩, rfl⟩ := hd
    exact ⟨⟨rfl, hn⟩, ⟨rfl, Nat.ne_of_gt hw⟩, [], rfl⟩
  · simp only [EventStore.new, EventCaches.new, Option.ite_none_right_eq_some,
      Option.some.injEq] at ht
    obtain ⟨hn, rfl⟩ := ht
    exact ⟨⟨rfl, hn⟩, [], rfl⟩

theorem DedupKept.checkAndInsert {d : DedupCache} (h : DedupKept cfg d) (key : EventKey)
    (timestamp : UInt64) (now : Nat) : DedupKept cfg (d.checkAndInsert key timestamp now).1 := by
  obtain ⟨hmax, hwin, hlru⟩ := DedupCache.checkAndInsert_fields h.window.2 key timestamp now
  obtain ⟨past, hpast⟩ := h.lru
  refine ⟨⟨hmax.trans h.size.1, h.size.2⟩, ⟨hwin.trans h.window.1, hwin ▸ h.window.2⟩,
    (key, d.insertedEntry key timestamp now) :: past, ?_⟩
  rw [hlru, h.size.1, hpast]
  rfl

theorem StateKept.checkAndStore {t : StateCache} (h : StateKept cfg t) (key : StateKey)
    (score : Int) : StateKept cfg (t.checkAndStore key score).1 := by
  obtain ⟨past, hpast⟩ := h.lru
  refine ⟨⟨(t.maxSize_checkAndStore key score).trans h.size.1, h.size.2⟩, (key, score) :: past, ?_⟩
  rw [StateCache.lru_checkAndStore, h.size.1, hpast]
  rfl

/-- What a look for duplicates leaves of the caches. -/
theorem deduplicate_kept {c : EventCaches} (hd : ∀ d, c.dedupCache = some d → DedupKept cfg d)
    (ht : ∀ t, c.stateCache = some t → StateKept cfg t) (ctx id : Bytes) (score : Int)
    (type : EventType) (timestamp : UInt64) (now : Nat) :
    (∀ d, (c.deduplicate ctx id score type timestamp now).1.dedupCache = some d →
        DedupKept cfg d) ∧
      (∀ t, (c.deduplicate ctx id score type timestamp now).1.stateCache = some t →
        StateKept cfg t) ∧
      (c.deduplicate ctx id score type timestamp now).1.dedupCache.isSome = c.dedupCache.isSome ∧
      (c.deduplicate ctx id score type timestamp now).1.stateCache.isSome =
        c.stateCache.isSome := by
  unfold EventCaches.deduplicate
  cases type with
  | ADD =>
    cases hc : c.dedupCache with
    | none => exact ⟨hd, ht, by rw [hc], rfl⟩
    | some d =>
      refine ⟨fun d' hd' => ?_, ht, rfl, rfl⟩
      cases hd'
      exact (hd d hc).checkAndInsert _ _ _
  | SET =>
    cases hc : c.stateCache with
    | none => exact ⟨hd, ht, rfl, by rw [hc]⟩
    | some t =>
      refine ⟨hd, fun t' ht' => ?_, rfl, rfl⟩
      cases ht'
      exact (ht t hc).checkAndStore _ _
  | DEL =>
    cases hc : c.stateCache with
    | none => exact ⟨hd, ht, rfl, by rw [hc]⟩
    | some t =>
      refine ⟨hd, fun t' ht' => ?_, rfl, rfl⟩
      cases ht'
      exact (ht t hc).checkAndStore _ _
  | unnamed raw hraw => exact ⟨hd, ht, rfl, rfl⟩

theorem Kept.respond (h : Kept cfg s) (cmd : EventCommand) : Kept cfg (s.respond cmd).1 := by
  obtain ⟨hd, ht, hpd, hpt⟩ := deduplicate_kept h.dedup h.state cmd.ctx cmd.id cmd.score cmd.type
    (resolveTimestamp cmd.timestamp cmd.clock) cmd.clock.steadyNow
  unfold EventStore.respond
  cases hv : validateEvent cmd.ctx cmd.id cmd.score cmd.type with
  | error e =>
    rw [EventStore.addEventAndGetPrior_invalid hv]
    exact h
  | ok u =>
    cases hdup : s.repeats cmd with
    | true =>
      rw [EventStore.addEventAndGetPrior_duplicate hv hdup]
      exact ⟨h.config, h.sound, h.stamped, hd, ht, hpd.trans h.hasDedup, hpt.trans h.hasState⟩
    | false =>
      rw [EventStore.addEventAndGetPrior_new hv hdup]
      refine ⟨h.config, ?_, ?_, hd, ht, hpd.trans h.hasDedup, hpt.trans h.hasState⟩
      · rw [h.config]
        exact h.sound.pushEvent (validateEvent_ok hv).1
          (storable_of_validateEvent hv cmd.named _)
      · exact h.stamped.pushEvent

end Kept

/-! ## 6. The restored store -/

section Restored

variable {cfg : EventsConfig} {s t : EventStore} {contexts : List Bytes}

theorem reseed_stateCache (c : EventCaches) (ctx : Bytes) (event : Event) :
    (EventStore.reseed c ctx event).stateCache = c.stateCache.map fun t =>
      match stateEntry ctx event with
      | some e => t.updateScore e.1 e.2
      | none => t := by
  unfold EventStore.reseed stateEntry
  cases event.type <;> rfl

/-- The state cache of a restored store. -/
theorem stateCache_restoreAll {c : StateCache} {past : List (StateKey × Int)}
    (hc : t.caches.stateCache = some c) (hlru : c.lru = .storeAll c.maxSize past)
    (stored : List (Bytes × Event)) :
    ∃ c', (t.restoreAll stored).caches.stateCache = some c' ∧ c'.maxSize = c.maxSize ∧
      c'.lru = .storeAll c.maxSize (seededBy stored ++ past) := by
  induction stored generalizing t c past with
  | nil => exact ⟨c, hc, rfl, hlru⟩
  | cons e stored ih =>
    have hnext : (t.takeBack e).caches.stateCache = some (match stateEntry e.1 e.2 with
        | some kv => c.updateScore kv.1 kv.2
        | none => c) := by
      show (EventStore.reseed t.caches e.1 e.2).stateCache = _
      rw [reseed_stateCache, hc]
      rfl
    cases hentry : stateEntry e.1 e.2 with
    | none =>
      rw [hentry] at hnext
      obtain ⟨c', hc', hmax, hlru'⟩ := ih hnext hlru
      refine ⟨c', hc', hmax, hlru'.trans ?_⟩
      simp only [seededBy, List.filterMap_cons, hentry]
    | some kv =>
      rw [hentry] at hnext
      have hstore : (c.updateScore kv.1 kv.2).lru =
          .storeAll (c.updateScore kv.1 kv.2).maxSize (kv :: past) := by
        show c.lru.store c.maxSize kv.1 kv.2 = _
        rw [hlru]
        rfl
      obtain ⟨c', hc', hmax, hlru'⟩ := ih hnext hstore
      refine ⟨c', hc', hmax, hlru'.trans ?_⟩
      simp only [seededBy, List.filterMap_cons, hentry, List.reverse_cons, List.append_assoc]
      rfl

theorem isSome_stateCache_restoreAll (t : EventStore) (stored : List (Bytes × Event)) :
    (t.restoreAll stored).caches.stateCache.isSome = t.caches.stateCache.isSome := by
  induction stored generalizing t with
  | nil => rfl
  | cons e stored ih =>
    refine (ih (t.takeBack e)).trans ?_
    show (EventStore.reseed t.caches e.1 e.2).stateCache.isSome = _
    rw [reseed_stateCache, Option.isSome_map]

theorem dedupCache_restoreAll (t : EventStore) (stored : List (Bytes × Event)) :
    (t.restoreAll stored).caches.dedupCache = t.caches.dedupCache := by
  induction stored generalizing t with
  | nil => rfl
  | cons e stored ih => exact ih (t.takeBack e)

theorem stamped_restoreAll (hst : t.contexts.Stamped) (stored : List (Bytes × Event)) :
    (t.restoreAll stored).contexts.Stamped := by
  induction stored generalizing t with
  | nil => exact hst
  | cons e stored ih =>
    have hpush : (t.takeBack e).contexts.Stamped := hst.pushEvent
    exact ih hpush

/-- What is dumped can be restored. -/
theorem EventStore.dumped_good (hs : s.contexts.Sound cfg)
    (hsub : ∀ ctx ∈ contexts, ctx ∈ s.contexts.ctxEvents.keys) :
    ∀ e ∈ s.dumped contexts, e.1 ≠ [] ∧ Contexts.Storable e.2 := by
  intro e he
  obtain ⟨ctx, hctx, he⟩ := List.mem_flatMap.mp he
  obtain ⟨event, hevent, rfl⟩ := List.mem_map.mp he
  obtain ⟨b, hb⟩ := AssocMap.mem_keys.mp (hsub ctx hctx)
  rw [getEvents, hb] at hevent
  exact ⟨hs.names ctx (hsub ctx hctx), hs.events ctx b hb event hevent⟩

theorem isSome_stateCache_restored (cfg : EventsConfig) (stored : List (Bytes × Event)) :
    ((EventStore.new cfg).clear.restoreAll stored).caches.stateCache.isSome =
      (EventCaches.new cfg).stateCache.isSome := by
  rw [isSome_stateCache_restoreAll]
  show ((EventCaches.new cfg).stateCache.map _).isSome = _
  rw [Option.isSome_map]

/-- The state cache of a store that begins empty holds what the events say. -/
theorem seeded_restoreAll {stored : List (Bytes × Event)} {c : StateCache}
    (hc : ((EventStore.new cfg).clear.restoreAll stored).caches.stateCache = some c) :
    StateKept cfg c ∧ c.lru = .storeAll cfg.dedupCacheSize (seededBy stored) := by
  have hsome : (EventCaches.new cfg).stateCache.isSome = true := by
    rw [← isSome_stateCache_restored cfg stored, hc]
    rfl
  obtain ⟨c₀, hc₀⟩ := Option.isSome_iff_exists.mp hsome
  have hk := (kept_new cfg).state c₀ hc₀
  have hfresh : (EventStore.new cfg).clear.caches.stateCache =
      some { c₀ with lru := .empty, totalHits := 0, totalMisses := 0 } := by
    show (EventCaches.new cfg).stateCache.map _ = _
    rw [hc₀]
    rfl
  have hempty : (LruCache.empty : LruCache StateKey Int) = .storeAll c₀.maxSize [] := rfl
  obtain ⟨c₁, hc₁, hmax, hlru⟩ := stateCache_restoreAll hfresh hempty stored
  rw [hc, Option.some.injEq] at hc₁
  rw [List.append_nil] at hlru
  have hsize : c.lru = .storeAll cfg.dedupCacheSize (seededBy stored) := by
    rw [hc₁, hlru]
    exact congrArg (LruCache.storeAll · _) hk.size.1
  exact ⟨⟨⟨by rw [hc₁, hmax]; exact hk.size.1, hk.size.2⟩, _, hsize⟩, hsize⟩

/-- A restored store has the time-window cache of a new one. -/
theorem dedupCache_restored (cfg : EventsConfig) (stored : List (Bytes × Event)) :
    ((EventStore.new cfg).clear.restoreAll stored).caches.dedupCache =
      (EventCaches.new cfg).dedupCache := by
  rw [dedupCache_restoreAll]
  show (EventCaches.new cfg).dedupCache.map _ = _
  unfold EventCaches.new
  simp only
  split <;> rfl

/-- **A restored store is one that can be running.** -/
theorem kept_restoreAll {stored : List (Bytes × Event)}
    (hgood : ∀ e ∈ stored, e.1 ≠ [] ∧ Contexts.Storable e.2) :
    Kept cfg ((EventStore.new cfg).clear.restoreAll stored) := by
  have hsound := EventStore.sound_restoreAll (s := (EventStore.new cfg).clear) rfl (.empty cfg) hgood
  have hstamped := stamped_restoreAll (t := (EventStore.new cfg).clear) .empty stored
  refine ⟨by rw [EventStore.config_restoreAll]; rfl, hsound, hstamped, fun d hd => ?_,
    fun c hc => (seeded_restoreAll hc).1, by rw [dedupCache_restored],
    isSome_stateCache_restored cfg stored⟩
  rw [dedupCache_restored] at hd
  exact (kept_new cfg).dedup d hd

/-- Contexts with the same events, none of them written since. -/
theorem Kept.contextsAgree (h : Kept cfg s) (h' : Kept cfg t)
    (hevents : ∀ ctx, t.getEvents ctx = s.getEvents ctx) :
    Contexts.Agree s.contexts.contextAccessSequence t.contexts.contextAccessSequence []
      s.contexts t.contexts := by
  -- a context of either store has events, so it is a context of the other
  have hbuffers : ∀ ctx, (t.contexts.ctxEvents.find? ctx).map RingBuffer.getAll =
      (s.contexts.ctxEvents.find? ctx).map RingBuffer.getAll := by
    intro ctx
    have hget := hevents ctx
    unfold EventStore.getEvents at hget
    cases hs : s.contexts.ctxEvents.find? ctx with
    | none =>
      cases ht : t.contexts.ctxEvents.find? ctx with
      | none => rfl
      | some b =>
        rw [hs, ht] at hget
        exact absurd hget (h'.sound.nonempty ctx b ht)
    | some b =>
      cases ht : t.contexts.ctxEvents.find? ctx with
      | none =>
        rw [hs, ht] at hget
        exact absurd hget.symm (h.sound.nonempty ctx b hs)
      | some b' =>
        rw [hs, ht] at hget
        exact congrArg some hget
  have hkeys : ∀ ctx, ctx ∈ t.contexts.ctxEvents.keys ↔ ctx ∈ s.contexts.ctxEvents.keys := by
    intro ctx
    have hb := hbuffers ctx
    rw [AssocMap.mem_keys, AssocMap.mem_keys]
    cases hs : s.contexts.ctxEvents.find? ctx <;> cases ht : t.contexts.ctxEvents.find? ctx <;>
      simp [hs, ht] at hb ⊢
  refine ⟨hbuffers, ⟨0, rfl, rfl⟩, fun ctx n _ hmem => absurd hmem List.not_mem_nil,
    fun ctx n hn _ => ⟨h.stamped.le ctx n hn, ?_⟩⟩
  obtain ⟨n', hn'⟩ : ∃ n', t.contexts.ctxLastAccess.find? ctx = some n' := by
    rw [← AssocMap.mem_keys, h'.sound.accesses, hkeys, ← h.sound.accesses, AssocMap.mem_keys]
    exact ⟨n, hn⟩
  exact ⟨n', hn', h'.stamped.le ctx n' hn'⟩

/-- Two caches that are there together are related if any two such caches are. -/
theorem rel_of_isSome {α : Type} {R : α → α → Prop} {x y : Option α} (hsome : x.isSome = y.isSome)
    (h : ∀ a b, x = some a → y = some b → R a b) : Option.Rel R x y := by
  cases x with
  | none =>
    cases y with
    | none => exact .none
    | some b => cases hsome
  | some a =>
    cases y with
    | none => cases hsome
    | some b => exact .some (h a b rfl rfl)

/-- **A store restored from a snapshot** and its original, before anything else happens. -/
theorem Kept.resumed (h : Kept cfg s) (hperm : contexts.Perm s.contexts.ctxEvents.keys) :
    Resumed cfg (seededBy (s.dumped contexts)) s.contexts.contextAccessSequence
      ((EventStore.new cfg).clear.restoreAll (s.dumped contexts)).contexts.contextAccessSequence
      { store := s } ((EventStore.new cfg).clear.restoreAll (s.dumped contexts)) := by
  have h' : Kept cfg ((EventStore.new cfg).clear.restoreAll (s.dumped contexts)) :=
    kept_restoreAll (EventStore.dumped_good h.sound fun ctx hctx => hperm.mem_iff.mp hctx)
  have hevents : ∀ ctx, ((EventStore.new cfg).clear.restoreAll (s.dumped contexts)).getEvents ctx =
      s.getEvents ctx := by
    intro ctx
    refine EventStore.getEvents_restoreAll ?_ h.config.symm rfl hperm ctx
    rw [h.config]
    exact h.sound
  refine ⟨h.config, h'.config, h.contextsAgree h' hevents, h.sound, h'.sound, h.stamped, ?_, ?_⟩
  · refine rel_of_isSome (h.hasDedup.trans h'.hasDedup.symm) fun d d' hd hd' => ?_
    have hk := h.dedup d hd
    have hk' := h'.dedup d' hd'
    obtain ⟨past, hpast⟩ := hk.lru
    refine ⟨⟨hk.size.1, hk'.size.1⟩, hk.size.2, ⟨?_, hk.window.2⟩, [], past, hpast, ?_, rfl⟩
    · rw [hk.window.1, hk'.window.1]
    · rw [dedupCache_restored] at hd'
      simp only [EventCaches.new, Option.ite_none_right_eq_some, Option.some.injEq] at hd'
      rw [← hd'.2]
      rfl
  · refine rel_of_isSome (h.hasState.trans h'.hasState.symm) fun c c' hc hc' => ?_
    have hk := h.state c hc
    obtain ⟨hk', hlru⟩ := seeded_restoreAll hc'
    obtain ⟨past, hpast⟩ := hk.lru
    exact ⟨⟨hk.size.1, hk'.size.1⟩, hk.size.2, [], past, hpast, hlru, rfl⟩

end Restored

end Nvecd.Events
