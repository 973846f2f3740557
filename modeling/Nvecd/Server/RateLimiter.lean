/-
  File:      Nvecd/Server/RateLimiter.lean
  Subject:   `server/rate_limiter.cpp`: a bucket of tokens for every client, of which the least
             recently seen goes when there are too many.

  The limiter is three structures: the buckets, a list of the clients with the last one seen in
  front, and for every client an iterator into that list. Time and tokens are exact.

  * `RateLimits` -- what `ValidateConfig` lets through;
  * `allow` -- `Allow`, with `Refill` and `EvictOldest`;
  * `Holds` -- the three structures are those of an LRU cache of buckets, which an `Allow` stores
    to (`allow_holds`);
  * `paid` -- the admitted requests of a client are paid by the level of its bucket;
  * `rate_limiter_bound`.
-/
import Nvecd.Lib.LinkedLru
import Nvecd.Lib.Machine
import Nvecd.Lib.TokenBucket
import Nvecd.Storage.WalFormat
import Mathlib.Algebra.Order.Field.Rat
import Mathlib.Data.List.Induction

namespace Nvecd.Server

open Nvecd.Lib Nvecd.Storage

/-! ## 1. The limiter -/

/-- The settings of `api.rate_limiting`, which are of type `int`. `ValidateConfig` refuses what is
    not positive. -/
structure RateLimits where
  capacity : Int
  refillRate : Int
  maxClients : Int
  capacity_pos : 0 < capacity
  refillRate_nonneg : 0 ≤ refillRate
  maxClients_pos : 0 < maxClients
  maxClients_lt : maxClients < 2 ^ 31

abbrev Bucket : Type := TokenBucket ℚ

structure RateLimiter where
  buckets : AssocMap Bytes Bucket := .empty
  /-- The nodes with their names; front = most recent. -/
  lruList : List (Nat × Bytes) := []
  lruMap : AssocMap Bytes Nat := .empty
  /-- The name of the node that is made next. -/
  next : Nat := 0

/-- `static_cast<int>` of a size. -/
def intOfSize (size : Nat) : Int := Int.bmod size (2 ^ 32)

/-- `EvictOldest`. -/
def RateLimiter.evictOldest (s : RateLimiter) : RateLimiter :=
  match s.lruList.getLast? with
  | none => s
  | some oldest =>
    { s with
      buckets := s.buckets.erase oldest.2
      lruMap := s.lruMap.erase oldest.2
      lruList := s.lruList.dropLast }

/-- The key goes to the front: its node is erased and a new one is made. -/
def RateLimiter.toFront (s : RateLimiter) (key : Bytes) : Option RateLimiter :=
  match s.lruMap.find? key with
  | none => some s
  | some iter =>
    (s.lruList.find? fun node => node.1 = iter).map fun _ =>
      { s with
        lruList := (s.next, key) :: s.lruList.filter fun node => node.1 ≠ iter
        lruMap := s.lruMap.insert key s.next
        next := s.next + 1 }

/-- `Refill`. -/
def refill (limits : RateLimits) (bucket : Bucket) (now : ℚ) : Bucket :=
  bucket.refill limits.capacity limits.refillRate now

/-- **`Allow`** at the time `now`; `none` stands for an iterator that dangles. -/
def allow (limits : RateLimits) (s : RateLimiter) (key : Bytes) (now : ℚ) :
    Option (RateLimiter × Bool) :=
  match s.buckets.find? key with
  | none =>
    let s := if limits.maxClients ≤ intOfSize s.buckets.size then s.evictOldest else s
    some ({ buckets := s.buckets.insert key { tokens := limits.capacity - 1, lastRefill := now }
            lruList := (s.next, key) :: s.lruList
            lruMap := s.lruMap.insert key s.next
            next := s.next + 1 }, true)
  | some bucket =>
    let bucket := refill limits bucket now
    (s.toFront key).map fun s =>
      if 1 ≤ bucket.tokens then ({ s with buckets := s.buckets.insert key bucket.take }, true)
      else ({ s with buckets := s.buckets.insert key bucket }, false)

/-! ## 2. As an LRU cache of buckets -/

/-- **Two maps as one**: every client has a bucket and an iterator, or neither. -/
structure RateLimiter.Pairs (s : RateLimiter) (c : LinkedLru Bytes Bucket) : Prop where
  values : ∀ key, c.map.find? key =
    (s.buckets.find? key).bind fun bucket => (s.lruMap.find? key).map fun iter => (bucket, iter)
  same : ∀ key, (s.buckets.find? key).isSome = (s.lruMap.find? key).isSome
  list : c.list = s.lruList
  next : c.next = s.next

/-- **The three structures are those of an LRU cache.** -/
def RateLimiter.Holds (s : RateLimiter) (l : LruCache Bytes Bucket) : Prop :=
  ∃ c : LinkedLru Bytes Bucket, s.Pairs c ∧ c.Represents l

namespace RateLimiter.Pairs

variable {s : RateLimiter} {c : LinkedLru Bytes Bucket} {key : Bytes}

theorem find?_none (h : s.Pairs c) (hf : s.buckets.find? key = none) : c.find? key = none := by
  show c.map.find? key = none
  rw [h.values, hf]
  rfl

theorem find?_some (h : s.Pairs c) {bucket : Bucket} (hf : s.buckets.find? key = some bucket) :
    ∃ iter, s.lruMap.find? key = some iter ∧ c.find? key = some (bucket, iter) := by
  have hsame := h.same key
  rw [hf] at hsame
  obtain ⟨iter, hiter⟩ := Option.isSome_iff_exists.mp hsame.symm
  refine ⟨iter, hiter, ?_⟩
  show c.map.find? key = _
  rw [h.values, hf, hiter]
  rfl

theorem mem_keys_iff (h : s.Pairs c) : key ∈ c.map.keys ↔ key ∈ s.buckets.keys := by
  rw [AssocMap.mem_keys, AssocMap.mem_keys]
  constructor
  · rintro ⟨v, hv⟩
    cases hf : s.buckets.find? key with
    | none =>
      have hnone : c.map.find? key = none := h.find?_none hf
      rw [hnone] at hv
      cases hv
    | some bucket => exact ⟨bucket, rfl⟩
  · rintro ⟨bucket, hf⟩
    obtain ⟨iter, -, hc⟩ := h.find?_some hf
    exact ⟨_, hc⟩

theorem keys_perm (h : s.Pairs c) : c.map.keys.Perm s.buckets.keys :=
  (List.perm_ext_iff_of_nodup c.map.nodupKeys s.buckets.nodupKeys).mpr fun _ => h.mem_keys_iff

theorem lruMap_perm (h : s.Pairs c) : s.lruMap.keys.Perm s.buckets.keys := by
  refine (List.perm_ext_iff_of_nodup s.lruMap.nodupKeys s.buckets.nodupKeys).mpr fun key => ?_
  show key ∈ s.lruMap.keys ↔ key ∈ s.buckets.keys
  rw [AssocMap.mem_keys, AssocMap.mem_keys, ← Option.isSome_iff_exists, ← Option.isSome_iff_exists,
    h.same key]

theorem size (h : s.Pairs c) : s.buckets.size = c.map.size := by
  rw [← AssocMap.length_keys, ← AssocMap.length_keys]
  exact h.keys_perm.length_eq.symm

/-- An insertion in both maps. -/
theorem insert (h : s.Pairs c) (key : Bytes) (bucket : Bucket) (iter : Nat) (key' : Bytes) :
    (c.map.insert key (bucket, iter)).find? key' =
      ((s.buckets.insert key bucket).find? key').bind fun bucket =>
        ((s.lruMap.insert key iter).find? key').map fun iter => (bucket, iter) := by
  rw [AssocMap.find?_insert, AssocMap.find?_insert, AssocMap.find?_insert]
  split
  · rfl
  · exact h.values key'

theorem insert_same (h : s.Pairs c) (key : Bytes) (bucket : Bucket) (iter : Nat) (key' : Bytes) :
    ((s.buckets.insert key bucket).find? key').isSome =
      ((s.lruMap.insert key iter).find? key').isSome := by
  rw [AssocMap.find?_insert, AssocMap.find?_insert]
  split
  · rfl
  · exact h.same key'

theorem evictOldest (h : s.Pairs c) : s.evictOldest.Pairs c.evictLast := by
  unfold RateLimiter.evictOldest LinkedLru.evictLast
  rw [h.list]
  cases s.lruList.getLast? with
  | none => exact h
  | some oldest =>
    refine ⟨fun key => ?_, fun key => ?_, rfl, h.next⟩
    · show (c.map.erase oldest.2).find? key =
        ((s.buckets.erase oldest.2).find? key).bind fun bucket =>
          ((s.lruMap.erase oldest.2).find? key).map fun iter => (bucket, iter)
      rw [AssocMap.find?_erase, AssocMap.find?_erase, AssocMap.find?_erase]
      split
      · rfl
      · exact h.values key
    · show ((s.buckets.erase oldest.2).find? key).isSome =
        ((s.lruMap.erase oldest.2).find? key).isSome
      rw [AssocMap.find?_erase, AssocMap.find?_erase]
      split
      · rfl
      · exact h.same key

/-- A client that was not there. -/
theorem pushNew (h : s.Pairs c) (key : Bytes) (bucket : Bucket) :
    RateLimiter.Pairs
      { buckets := s.buckets.insert key bucket
        lruList := (s.next, key) :: s.lruList
        lruMap := s.lruMap.insert key s.next
        next := s.next + 1 } (c.pushNew key bucket) := by
  refine ⟨fun key' => ?_, fun key' => h.insert_same key bucket s.next key', ?_, ?_⟩
  · show (c.map.insert key (bucket, c.next)).find? key' = _
    rw [h.next]
    exact h.insert key bucket s.next key'
  · show (c.next, key) :: c.list = _
    rw [h.next, h.list]
  · show c.next + 1 = _
    rw [h.next]

/-- A client that was there, with what its bucket becomes. -/
theorem relink (h : s.Pairs c) (key : Bytes) (bucket : Bucket) (iter : Nat) :
    RateLimiter.Pairs
      { buckets := s.buckets.insert key bucket
        lruList := (s.next, key) :: s.lruList.filter fun node => node.1 ≠ iter
        lruMap := s.lruMap.insert key s.next
        next := s.next + 1 }
      { map := c.map.insert key (bucket, c.next)
        list := (c.next, key) :: c.list.filter fun node => node.1 ≠ iter
        next := c.next + 1 } := by
  refine ⟨fun key' => ?_, fun key' => h.insert_same key bucket s.next key', ?_, ?_⟩
  · rw [h.next]
    exact h.insert key bucket s.next key'
  · rw [h.next, h.list]
  · rw [h.next]

end RateLimiter.Pairs

/-- What `Allow` leaves in the bucket of a client, and what it answers. -/
def allowed (limits : RateLimits) (found : Option Bucket) (now : ℚ) : Bucket × Bool :=
  match found with
  | none => ({ tokens := limits.capacity - 1, lastRefill := now }, true)
  | some bucket =>
    let bucket := refill limits bucket now
    if 1 ≤ bucket.tokens then (bucket.take, true) else (bucket, false)

section Allow

variable {limits : RateLimits} {s : RateLimiter} {l : LruCache Bytes Bucket} {key : Bytes} {now : ℚ}

/-- A size that an `int` can hold. -/
theorem intOfSize_eq {size : Nat} (h : (size : Int) < 2 ^ 31) : intOfSize size = size :=
  Int.bmod_eq_of_le (by omega) (by omega)

/-- **`Allow` stores to the cache** of buckets. -/
theorem allow_holds (h : s.Holds l) (hsize : (l.map.size : Int) ≤ limits.maxClients) :
    ∃ s', allow limits s key now = some (s', (allowed limits (l.find? key) now).2) ∧
      s'.Holds (l.store limits.maxClients.toNat key (allowed limits (l.find? key) now).1) := by
  obtain ⟨c, hp, hr⟩ := h
  have hlt := limits.maxClients_lt
  have hpos := limits.maxClients_pos
  cases hf : s.buckets.find? key with
  | none =>
    have hc := hp.find?_none hf
    rw [hr.find?_none hc]
    refine ⟨_, by unfold allow; rw [hf]; rfl, _, ?_, hr.storeNew limits.maxClients.toNat hc _⟩
    have hcast : intOfSize s.buckets.size = c.map.size := by
      rw [hp.size, intOfSize_eq]
      rw [← hr.size]
      omega
    have hfull : limits.maxClients ≤ intOfSize s.buckets.size ↔
        limits.maxClients.toNat ≤ c.map.size := by
      rw [hcast]
      omega
    have hroom : (if limits.maxClients ≤ intOfSize s.buckets.size then s.evictOldest else s).Pairs
        (if limits.maxClients.toNat ≤ c.map.size then c.evictLast else c) := by
      by_cases hle : limits.maxClients.toNat ≤ c.map.size
      · rw [if_pos hle, if_pos (hfull.mpr hle)]
        exact hp.evictOldest
      · rw [if_neg hle, if_neg (mt hfull.mp hle)]
        exact hp
    exact hroom.pushNew key _
  | some bucket =>
    obtain ⟨iter, hiter, hc⟩ := hp.find?_some hf
    rw [hr.find? hc]
    have hnode : s.lruList.find? (fun node => node.1 = iter) = some (iter, key) := by
      rw [← hp.list]
      exact hr.found hc
    have hfront : s.toFront key = some
        { s with
          lruList := (s.next, key) :: s.lruList.filter fun node => node.1 ≠ iter
          lruMap := s.lruMap.insert key s.next
          next := s.next + 1 } := by
      unfold RateLimiter.toFront
      rw [hiter]
      exact congrArg (Option.map _) hnode
    obtain ⟨c', hc', hr'⟩ := hr.relink limits.maxClients.toNat hc
      (allowed limits (some bucket) now).1
    have hrelink : c' =
        { map := c.map.insert key ((allowed limits (some bucket) now).1, c.next)
          list := (c.next, key) :: c.list.filter fun node => node.1 ≠ iter
          next := c.next + 1 } := by
      have hfound := congrArg (Option.map fun _ => ({
          map := c.map.insert key ((allowed limits (some bucket) now).1, c.next)
          list := (c.next, key) :: c.list.filter fun node => node.1 ≠ iter
          next := c.next + 1 } : LinkedLru Bytes Bucket)) (hr.found hc)
      exact Option.some.inj (hc'.symm.trans hfound)
    rw [hrelink] at hr'
    refine ⟨_, ?_, _, hp.relink key (allowed limits (some bucket) now).1 iter, hr'⟩
    unfold allow
    rw [hf, hfront]
    unfold allowed
    dsimp only
    rw [Option.map_some]
    split <;> rfl

end Allow

/-! ## 3. What a bucket can pay -/

section Levels

variable {limits : RateLimits} {found : Option Bucket} {now later : ℚ}

/-- What a client can be given at a time; one without a bucket would get a full one. -/
def level (limits : RateLimits) (found : Option Bucket) (now : ℚ) : ℚ :=
  match found with
  | none => limits.capacity
  | some bucket => bucket.level limits.capacity limits.refillRate now

theorem rate_nonneg (limits : RateLimits) : (0 : ℚ) ≤ limits.refillRate :=
  Int.cast_nonneg limits.refillRate_nonneg

theorem one_le_capacity (limits : RateLimits) : (1 : ℚ) ≤ limits.capacity := by
  have h := limits.capacity_pos
  exact_mod_cast h

theorem level_le : level limits found now ≤ limits.capacity := by
  cases found with
  | none => exact le_refl _
  | some bucket => exact TokenBucket.level_le

theorem level_advance (h : now ≤ later) :
    level limits found later ≤ level limits found now + limits.refillRate * (later - now) := by
  cases found with
  | none =>
    have hflow := mul_nonneg (rate_nonneg limits) (sub_nonneg.mpr h)
    exact le_add_of_nonneg_right hflow
  | some bucket => exact TokenBucket.level_advance (rate_nonneg limits) h

/-- **An admitted request is paid** by the level. -/
theorem allowed_paid : (if (allowed limits found now).2 then 1 else 0) +
    level limits (some (allowed limits found now).1) now ≤ level limits found now := by
  cases found with
  | none =>
    have hself : level limits (some ({ tokens := limits.capacity - 1, lastRefill := now } : Bucket))
        now ≤ limits.capacity - 1 := TokenBucket.level_self_le
    show 1 + _ ≤ (limits.capacity : ℚ)
    unfold allowed
    linarith
  | some bucket =>
    have hfull : (refill limits bucket now).tokens = level limits (some bucket) now := rfl
    unfold allowed
    dsimp only
    split
    · have hself : level limits (some (refill limits bucket now).take) now ≤
          (refill limits bucket now).tokens - 1 := TokenBucket.level_self_le
      show 1 + _ ≤ _
      linarith
    · have hself : level limits (some (refill limits bucket now)) now ≤
          (refill limits bucket now).tokens := TokenBucket.level_self_le
      show 0 + _ ≤ _
      linarith

/-- The tokens stay between none and the capacity. -/
theorem allowed_within (h : ∀ bucket, found = some bucket →
      bucket.Within (limits.capacity : ℚ) ∧ bucket.lastRefill ≤ now) :
    (allowed limits found now).1.Within (limits.capacity : ℚ) := by
  have hone := one_le_capacity limits
  cases found with
  | none => exact ⟨by show (0 : ℚ) ≤ limits.capacity - 1; linarith, sub_le_self _ zero_le_one⟩
  | some bucket =>
    obtain ⟨hwithin, hnow⟩ := h bucket rfl
    have hrefill : (refill limits bucket now).Within (limits.capacity : ℚ) :=
      TokenBucket.refill_within (by linarith) (rate_nonneg limits) hwithin hnow
    unfold allowed
    dsimp only
    split
    · rename_i hle
      exact TokenBucket.take_within hrefill hle
    · exact hrefill

theorem lastRefill_allowed (limits : RateLimits) (found : Option Bucket) (now : ℚ) :
    (allowed limits found now).1.lastRefill = now := by
  cases found with
  | none => rfl
  | some bucket =>
    unfold allowed
    dsimp only
    split <;> rfl

end Levels

/-! ## 4. Runs -/

/-- What is seen of a request: the client, the time, the answer, and the clients whose buckets are
    gone. -/
structure Entry where
  client : Bytes
  time : ℚ
  admitted : Bool
  evicted : List Bytes

/-- A limiter and what was seen of it, the last request in front. -/
structure Traced where
  limiter : RateLimiter := {}
  log : List Entry := []

/-- One request. -/
def serve (limits : RateLimits) (t : Traced) (request : Bytes × ℚ) : Option Traced :=
  (allow limits t.limiter request.1 request.2).map fun result =>
    { limiter := result.1
      log := { client := request.1
               time := request.2
               admitted := result.2
               evicted := t.limiter.buckets.keys.filter fun client =>
                 !result.1.buckets.contains client } :: t.log }

/-- The clock does not go back. -/
def Clocked (requests : List (Bytes × ℚ)) : Prop := requests.Pairwise fun r r' => r.2 ≤ r'.2

/-- **What a run leaves**: the cache of the buckets that were stored, one for each request. -/
structure Trace (limits : RateLimits) (requests : List (Bytes × ℚ)) (t : Traced)
    (h : List (Bytes × Bucket)) : Prop where
  holds : t.limiter.Holds (LruCache.storeAll limits.maxClients.toNat h)
  history : h.map (fun e => (e.1, e.2.lastRefill)) = requests.reverse
  within : ∀ e ∈ h, e.2.Within (limits.capacity : ℚ)
  log : t.log.map (fun e => (e.client, e.time)) = requests.reverse

namespace RateLimiter.Holds

variable {s : RateLimiter} {l : LruCache Bytes Bucket}

theorem mem_keys_iff (h : s.Holds l) {key : Bytes} : key ∈ s.buckets.keys ↔ key ∈ l.order := by
  obtain ⟨c, hp, hr⟩ := h
  rw [← hp.mem_keys_iff]
  exact (l.sameKeys.trans hr.keys_perm).mem_iff.symm

theorem find? (h : s.Holds l) (key : Bytes) : l.find? key = s.buckets.find? key := by
  obtain ⟨c, hp, hr⟩ := h
  cases hf : s.buckets.find? key with
  | none => exact hr.find?_none (hp.find?_none hf)
  | some bucket =>
    obtain ⟨iter, -, hc⟩ := hp.find?_some hf
    exact hr.find? hc

/-- The three structures have the same keys. -/
theorem keys (h : s.Holds l) : s.lruMap.keys.Perm s.buckets.keys ∧
    (s.lruList.map Prod.snd).Perm s.buckets.keys ∧ s.buckets.size = l.map.size := by
  obtain ⟨c, hp, hr⟩ := h
  refine ⟨hp.lruMap_perm, ?_, hp.size.trans hr.size.symm⟩
  rw [← hp.list]
  exact hr.sameKeys.trans hp.keys_perm

end RateLimiter.Holds

section Runs

variable {limits : RateLimits} {requests : List (Bytes × ℚ)} {t : Traced}
  {h : List (Bytes × Bucket)} {key : Bytes} {now : ℚ}

theorem capacity_pos (limits : RateLimits) : 0 < limits.maxClients.toNat := by
  have hpos := limits.maxClients_pos
  omega

/-- There are no more buckets than clients are tracked. -/
theorem size_le (limits : RateLimits) (h : List (Bytes × Bucket)) :
    ((LruCache.storeAll limits.maxClients.toNat h).map.size : Int) ≤ limits.maxClients := by
  have hlen : (LruCache.storeAll limits.maxClients.toNat h).order.length ≤
      limits.maxClients.toNat := by
    rw [LruCache.order_storeAll (capacity_pos limits)]
    exact List.length_take_le _ _
  rw [LruCache.length_order] at hlen
  have hpos := limits.maxClients_pos
  omega

/-- A bucket that is there was stored. -/
theorem mem_of_find? {bucket : Bucket}
    (hf : (LruCache.storeAll limits.maxClients.toNat h).find? key = some bucket) :
    (key, bucket) ∈ h := by
  rw [LruCache.find?_storeAll (capacity_pos limits)] at hf
  unfold LruCache.held at hf
  split at hf
  · obtain ⟨e, he, rfl⟩ := Option.map_eq_some_iff.mp hf
    have hkey : e.1 = key := by simpa using List.find?_some he
    rw [← hkey]
    exact List.mem_of_find?_eq_some he
  · cases hf

theorem Trace.lastRefill_le (ht : Trace limits requests t h) (hnow : ∀ r ∈ requests, r.2 ≤ now)
    {e : Bytes × Bucket} (he : e ∈ h) : e.2.lastRefill ≤ now := by
  have hin : (e.1, e.2.lastRefill) ∈ requests.reverse := by
    rw [← ht.history]
    exact List.mem_map_of_mem he
  exact hnow _ (List.mem_reverse.mp hin)

theorem Trace.time_mem (ht : Trace limits requests t h) {e : Entry} (he : e ∈ t.log) :
    (e.client, e.time) ∈ requests := by
  have hin : (e.client, e.time) ∈ requests.reverse := by
    rw [← ht.log]
    exact List.mem_map_of_mem he
  exact List.mem_reverse.mp hin

/-- **One more request.** -/
theorem Trace.serve (ht : Trace limits requests t h) (hnow : ∀ r ∈ requests, r.2 ≤ now) :
    ∃ limiter, allow limits t.limiter key now =
        some (limiter, (allowed limits (t.limiter.buckets.find? key) now).2) ∧
      ∃ t', serve limits t (key, now) = some t' ∧ t'.limiter = limiter ∧
        t'.log = { client := key, time := now
                   admitted := (allowed limits (t.limiter.buckets.find? key) now).2
                   evicted := t.limiter.buckets.keys.filter fun client =>
                     !limiter.buckets.contains client } :: t.log ∧
        Trace limits (requests ++ [(key, now)]) t'
          ((key, (allowed limits (t.limiter.buckets.find? key) now).1) :: h) := by
  obtain ⟨limiter, hallow, hholds⟩ := @allow_holds limits t.limiter _ key now ht.holds
    (size_le limits h)
  rw [ht.holds.find?] at hallow hholds
  refine ⟨limiter, hallow, _, congrArg (Option.map _) hallow, rfl, rfl, hholds, ?_, ?_, ?_⟩
  · rw [List.map_cons, ht.history, lastRefill_allowed, List.reverse_append]
    rfl
  · refine List.forall_mem_cons.mpr ⟨allowed_within fun bucket hb => ?_, ht.within⟩
    have hin : (key, bucket) ∈ h := @mem_of_find? limits h key bucket (by rw [ht.holds.find?, hb])
    exact ⟨ht.within _ hin, ht.lastRefill_le hnow hin⟩
  · rw [List.map_cons, ht.log, List.reverse_append]
    rfl

/-- The requests of a client that were admitted from a time on. -/
def admittedFrom (client : Bytes) (a : ℚ) (log : List Entry) : Nat :=
  log.countP fun e => decide (e.client = client) && e.admitted && decide (a ≤ e.time)

/-- The bucket of another client is what it was, or it is gone. -/
theorem other_bucket {limiter : RateLimiter} {client : Bytes} {bucket : Bucket}
    (ht : Trace limits requests t h)
    (hholds : limiter.Holds (LruCache.storeAll limits.maxClients.toNat ((key, bucket) :: h)))
    (hne : client ≠ key)
    (hstays : client ∉ t.limiter.buckets.keys.filter fun client =>
      !limiter.buckets.contains client) :
    limiter.buckets.find? client = t.limiter.buckets.find? client := by
  rw [← hholds.find?, ← ht.holds.find?]
  by_cases hin : client ∈ (LruCache.storeAll limits.maxClients.toNat ((key, bucket) :: h)).order
  · exact LruCache.find?_store_of_ne hne hin
  · have hgone : client ∉ limiter.buckets.keys := fun hk => hin (hholds.mem_keys_iff.mp hk)
    have hold : client ∉ t.limiter.buckets.keys := by
      intro hk
      refine hstays (List.mem_filter.mpr ⟨hk, ?_⟩)
      rw [Bool.not_eq_true', Bool.eq_false_iff, ne_eq, AssocMap.contains_iff]
      exact hgone
    rw [LruCache.find?_eq_none_iff.mpr hin,
      LruCache.find?_eq_none_iff.mpr fun hk => hold (ht.holds.mem_keys_iff.mpr hk)]

/-- **The potential of a run**: what was admitted since `a`, and what the bucket still holds, was
    there at `a` or has flowed in. -/
def Paid (limits : RateLimits) (requests : List (Bytes × ℚ)) (t : Traced) : Prop :=
  ∀ client a, (∀ e ∈ t.log, a ≤ e.time → client ∉ e.evicted) →
    ∀ now, (∀ r ∈ requests, r.2 ≤ now) → a ≤ now →
      admittedFrom client a t.log + level limits (t.limiter.buckets.find? client) now ≤
        limits.capacity + limits.refillRate * (now - a)

/-- Before `a` nothing counts. -/
theorem paid_before {client : Bytes} {a : ℚ} (hlog : ∀ e ∈ t.log, e.time < a) (hnow : a ≤ now) :
    admittedFrom client a t.log + level limits (t.limiter.buckets.find? client) now ≤
      limits.capacity + limits.refillRate * (now - a) := by
  have hzero : admittedFrom client a t.log = 0 := by
    unfold admittedFrom
    rw [List.countP_eq_zero]
    intro e he
    have hlt := hlog e he
    simp [not_le.mpr hlt]
  have hflow := mul_nonneg (rate_nonneg limits) (sub_nonneg.mpr hnow)
  have hlevel : level limits (t.limiter.buckets.find? client) now ≤ limits.capacity := level_le
  rw [hzero]
  push_cast
  linarith

/-- **A run and its potential.** -/
theorem run_traced (hclock : Clocked requests) :
    ∃ t h, run (serve limits) {} requests = some t ∧ Trace limits requests t h ∧
      Paid limits requests t := by
  induction requests using List.reverseRecOn with
  | nil =>
    refine ⟨{}, [], rfl, ⟨⟨{}, ⟨fun _ => rfl, fun _ => rfl, rfl, rfl⟩, LinkedLru.Represents.empty⟩,
      rfl, fun e he => absurd he List.not_mem_nil, rfl⟩, fun client a _ now _ hnow => ?_⟩
    exact paid_before (fun e he => absurd he List.not_mem_nil) hnow
  | append_singleton requests request ih =>
    obtain ⟨key, now⟩ := request
    rw [Clocked, List.pairwise_append] at hclock
    have hbefore : ∀ r ∈ requests, r.2 ≤ now := fun r hr => hclock.2.2 r hr _ List.mem_cons_self
    obtain ⟨t, h, hrun, ht, hpaid⟩ := ih hclock.1
    obtain ⟨limiter, -, t', hserve, hlimiter, hlog, ht'⟩ := @Trace.serve _ _ _ _ key _ ht hbefore
    refine ⟨t', _, run_snoc.2 ⟨t, hrun, hserve⟩, ht', fun client a hstays later hlater ha => ?_⟩
    by_cases hearly : now < a
    · refine paid_before (fun e he => ?_) ha
      rcases List.mem_append.mp (ht'.time_mem he) with hr | hr
      · exact (hbefore _ hr).trans_lt hearly
      · have htime : e.time = now := congrArg Prod.snd (List.mem_singleton.mp hr)
        rwa [htime]
    · rw [not_lt] at hearly
      rw [hlog] at hstays
      obtain ⟨hnew, hold⟩ := List.forall_mem_cons.mp hstays
      have hbase := hpaid client a hold now hbefore hearly
      -- what this request changes
      have hstep : (admittedFrom client a t'.log : ℚ) +
          level limits (t'.limiter.buckets.find? client) now ≤
          admittedFrom client a t.log + level limits (t.limiter.buckets.find? client) now := by
        by_cases hkey : client = key
        · subst hkey
          have hbucket : t'.limiter.buckets.find? client =
              some (allowed limits (t.limiter.buckets.find? client) now).1 := by
            rw [← ht'.holds.find?]
            exact LruCache.find?_store_self _ _ _ _
          have hcount : admittedFrom client a t'.log = admittedFrom client a t.log +
              if (allowed limits (t.limiter.buckets.find? client) now).2 then 1 else 0 := by
            rw [hlog, admittedFrom, List.countP_cons]
            simp [hearly, admittedFrom]
          have hpay := @allowed_paid limits (t.limiter.buckets.find? client) now
          rw [hcount, hbucket]
          push_cast
          linarith
        · have hbucket : t'.limiter.buckets.find? client = t.limiter.buckets.find? client :=
            other_bucket ht ht'.holds hkey (hlimiter ▸ hnew hearly)
          have hcount : admittedFrom client a t'.log = admittedFrom client a t.log := by
            rw [hlog, admittedFrom, List.countP_cons]
            simp [Ne.symm hkey, admittedFrom]
          rw [hcount, hbucket]
      have hflow : level limits (t'.limiter.buckets.find? client) later ≤
          level limits (t'.limiter.buckets.find? client) now +
            limits.refillRate * (later - now) :=
        level_advance (hlater (key, now) (by simp))
      have hsum : limits.refillRate * (later - a) =
          limits.refillRate * (now - a) + limits.refillRate * (later - now) := by ring
      linarith

/-- The requests of a client that were admitted in an interval. -/
def admittedIn (client : Bytes) (a b : ℚ) (log : List Entry) : Nat :=
  log.countP fun e => decide (e.client = client) && e.admitted && decide (a ≤ e.time ∧ e.time ≤ b)

/-- **The bound**, for every interval in which the bucket of the client stays. -/
theorem admittedIn_le (hclock : Clocked requests) (hrun : run (serve limits) {} requests = some t)
    {client : Bytes} {a b : ℚ} (hab : a ≤ b)
    (hstays : ∀ e ∈ t.log, a ≤ e.time → e.time ≤ b → client ∉ e.evicted) :
    admittedIn client a b t.log ≤ limits.capacity + limits.refillRate * (b - a) := by
  have hflow := mul_nonneg (rate_nonneg limits) (sub_nonneg.mpr hab)
  have hone := one_le_capacity limits
  induction requests using List.reverseRecOn generalizing t with
  | nil =>
    cases hrun
    show ((0 : Nat) : ℚ) ≤ _
    push_cast
    linarith
  | append_singleton requests request ih =>
    have hall := hclock
    rw [Clocked, List.pairwise_append] at hclock
    obtain ⟨t₁, h, hrun₁, ht₁, hpaid⟩ := @run_traced limits _ hall
    cases hrun.symm.trans hrun₁
    by_cases hlast : request.2 ≤ b
    · -- the whole run lies before `b`
      have hbefore : ∀ r ∈ requests ++ [request], r.2 ≤ b := by
        intro r hr
        rcases List.mem_append.mp hr with hr | hr
        · exact (hclock.2.2 r hr _ List.mem_cons_self).trans hlast
        · rw [List.mem_singleton.mp hr]
          exact hlast
      have hbound := hpaid client a
        (fun e he hae => hstays e he hae (hbefore _ (ht₁.time_mem he))) b hbefore hab
      have hcount : admittedIn client a b t.log ≤ admittedFrom client a t.log := by
        refine List.countP_mono_left fun e _ he => ?_
        simp only [Bool.and_eq_true, decide_eq_true_eq] at he ⊢
        exact ⟨he.1, he.2.1⟩
      have hlevel : 0 ≤ level limits (t.limiter.buckets.find? client) b := by
        rw [← ht₁.holds.find?]
        cases hf : (LruCache.storeAll limits.maxClients.toNat h).find? client with
        | none => exact zero_le_one.trans hone
        | some bucket =>
          have hin := mem_of_find? hf
          exact TokenBucket.level_nonneg (by linarith) (rate_nonneg limits) (ht₁.within _ hin)
            (ht₁.lastRefill_le hbefore hin)
      have hcast : (admittedIn client a b t.log : ℚ) ≤ admittedFrom client a t.log := by
        exact_mod_cast hcount
      linarith
    · -- the last request is later
      obtain ⟨t₀, hrun₀, hserve⟩ := run_snoc.1 hrun
      obtain ⟨result, hresult, rfl⟩ := Option.map_eq_some_iff.mp hserve
      have hcount : ∀ e : Entry, e.time = request.2 →
          admittedIn client a b (e :: t₀.log) = admittedIn client a b t₀.log := by
        intro e he
        rw [admittedIn, List.countP_cons, he]
        simp [hlast, admittedIn]
      rw [hcount _ rfl]
      exact ih hclock.1 hrun₀ fun e he => hstays e (List.mem_cons_of_mem _ he)

/-- **The client whose bucket goes** was not seen since any other was: it is a new client that
    takes the room, and there is none left. -/
theorem evicted_oldest (ht : Trace limits requests t h) {limiter : RateLimiter} {bucket : Bucket}
    (hholds : limiter.Holds (LruCache.storeAll limits.maxClients.toNat ((key, bucket) :: h)))
    {gone : Bytes} (hold : gone ∈ t.limiter.buckets.keys) (hgone : gone ∉ limiter.buckets.keys) :
    key ∉ t.limiter.buckets.keys ∧ (t.limiter.buckets.size : Int) = limits.maxClients ∧
      ∀ other ∈ t.limiter.buckets.keys, other ≠ gone →
        other ∈ LruCache.since gone (requests.reverse.map Prod.fst) := by
  have hkeys : h.map Prod.fst = requests.reverse.map Prod.fst := by
    rw [← ht.history, List.map_map]
    rfl
  rw [ht.holds.mem_keys_iff] at hold
  rw [hholds.mem_keys_iff] at hgone
  obtain ⟨hkey, hfull, hsince⟩ := LruCache.store_drops (capacity_pos limits) hold hgone
  have hpos := limits.maxClients_pos
  rw [ht.holds.mem_keys_iff, ht.holds.keys.2.2, ← LruCache.length_order, ← hkeys]
  refine ⟨hkey, by omega, fun other hother hne => hsince other ?_ hne⟩
  exact ht.holds.mem_keys_iff.mp hother

end Runs

/-! ## 5. The bound -/

/-- **The limiter in every run**: it never fails; in no interval in which its bucket stays are more
    requests of a client admitted than the capacity and what flows in; the tokens stay between none
    and the capacity; the three structures have the same keys, at most as many as clients are
    tracked; and the bucket that goes is that of the client not seen for longest. -/
theorem rate_limiter_bound (limits : RateLimits) {requests : List (Bytes × ℚ)}
    (hclock : Clocked requests) :
    ∃ t, run (serve limits) {} requests = some t ∧
      t.log.map (fun e => (e.client, e.time)) = requests.reverse ∧
      (∀ client a b, a ≤ b →
        (∀ e ∈ t.log, a ≤ e.time → e.time ≤ b → client ∉ e.evicted) →
        admittedIn client a b t.log ≤ limits.capacity + limits.refillRate * (b - a)) ∧
      (∀ client bucket, t.limiter.buckets.find? client = some bucket →
        0 ≤ bucket.tokens ∧ bucket.tokens ≤ limits.capacity) ∧
      t.limiter.lruMap.keys.Perm t.limiter.buckets.keys ∧
      (t.limiter.lruList.map Prod.snd).Perm t.limiter.buckets.keys ∧
      (t.limiter.buckets.size : Int) ≤ limits.maxClients ∧
      ∀ client now, (∀ r ∈ requests, r.2 ≤ now) →
        ∃ limiter answer, allow limits t.limiter client now = some (limiter, answer) ∧
          ∀ gone ∈ t.limiter.buckets.keys, gone ∉ limiter.buckets.keys →
            client ∉ t.limiter.buckets.keys ∧
              (t.limiter.buckets.size : Int) = limits.maxClients ∧
              ∀ other ∈ t.limiter.buckets.keys, other ≠ gone →
                other ∈ LruCache.since gone (requests.reverse.map Prod.fst) := by
  obtain ⟨t, h, hrun, ht, -⟩ := @run_traced limits _ hclock
  obtain ⟨hmap, hlist, hsize⟩ := ht.holds.keys
  refine ⟨t, hrun, ht.log, fun client a b hab hstays => admittedIn_le hclock hrun hab hstays,
    fun client bucket hf => ?_, hmap, hlist, ?_, fun client now hnow => ?_⟩
  · rw [← ht.holds.find?] at hf
    exact ht.within _ (mem_of_find? hf)
  · rw [hsize]
    exact size_le limits h
  · obtain ⟨limiter, hallow, t', -, hlimiter, -, ht'⟩ := @Trace.serve _ _ _ _ client _ ht hnow
    refine ⟨limiter, _, hallow, fun gone hold hgone => ?_⟩
    rw [← hlimiter] at hgone
    exact evicted_oldest ht ht'.holds hold hgone

/-- One bucket of two tokens, and a token a second. -/
def exampleLimits : RateLimits where
  capacity := 2
  refillRate := 1
  maxClients := 1
  capacity_pos := by decide
  refillRate_nonneg := by decide
  maxClients_pos := by decide
  maxClients_lt := by decide

theorem rate_limiter_bound_example :
    Clocked [([97], 0), ([97], 0), ([97], 1 / 2), ([98], 1)] ∧
      ∃ t, run (serve exampleLimits) {} [([97], 0), ([97], 0), ([97], 1 / 2), ([98], 1)] = some t ∧
        ∀ client a b, a ≤ b → (∀ e ∈ t.log, a ≤ e.time → e.time ≤ b → client ∉ e.evicted) →
          (admittedIn client a b t.log : ℚ) ≤
            exampleLimits.capacity + exampleLimits.refillRate * (b - a) := by
  have hclock : Clocked [([97], 0), ([97], 0), ([97], 1 / 2), ([98], 1)] := by
    unfold Clocked
    norm_num
  obtain ⟨t, hrun, -, hbound, -⟩ := rate_limiter_bound exampleLimits hclock
  exact ⟨hclock, t, hrun, hbound⟩

end Nvecd.Server
