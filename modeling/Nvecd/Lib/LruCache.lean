/-
  File:      Nvecd/Lib/LruCache.lean
  Subject:   A bounded map that forgets the key touched longest ago.

  The cache is a map and a list of its keys, the most recently touched first. What it holds is
  determined by the history of the stores alone, and `find?_storeAll` says how: a key is there
  with its last value as long as fewer than `cap` other keys were stored since.

  * `LruCache` -- the map and the list, with the same keys;
  * `touch`, `store`, `evict` -- the operations;
  * `fresh` -- the keys of a history, each once, the most recent first; `order_storeAll` -- the
    list is its beginning;
  * `since` -- the keys stored since a key was; `held` -- the value that is left of a history.
-/
import Mathlib.Data.List.Perm.Lattice
import Mathlib.Data.List.Perm.Subperm
import Mathlib.Data.List.Dedup
import Mathlib.Data.List.TakeWhile
import Nvecd.Lib.AssocMap

namespace Nvecd.Lib

universe u v

/-! ## 1. The cache -/

/-- **An LRU cache**: a map, and its keys with the most recently touched first. -/
structure LruCache (κ : Type u) (ν : Type v) where
  map : AssocMap κ ν
  order : List κ
  sameKeys : order.Perm map.keys

namespace LruCache

variable {κ : Type u} {ν : Type v}

def empty : LruCache κ ν := ⟨.empty, [], .nil⟩

instance : Inhabited (LruCache κ ν) := ⟨empty⟩

theorem nodup_order (c : LruCache κ ν) : c.order.Nodup :=
  c.sameKeys.nodup_iff.mpr c.map.nodupKeys

theorem length_order (c : LruCache κ ν) : c.order.length = c.map.size :=
  c.sameKeys.length_eq.trans c.map.length_keys

theorem ext_fields {c c' : LruCache κ ν} (hm : c.map = c'.map) (ho : c.order = c'.order) :
    c = c' := by
  cases c
  cases c'
  simp_all

variable [DecidableEq κ]

instance [DecidableEq ν] : DecidableEq (LruCache κ ν) := fun c c' =>
  decidable_of_iff (c.map = c'.map ∧ c.order = c'.order)
    ⟨fun h => ext_fields h.1 h.2, fun h => ⟨congrArg map h, congrArg order h⟩⟩

def find? (c : LruCache κ ν) (k : κ) : Option ν := c.map.find? k

theorem mem_order {c : LruCache κ ν} {k : κ} : k ∈ c.order ↔ ∃ v, c.find? k = some v :=
  c.sameKeys.mem_iff.trans AssocMap.mem_keys

theorem find?_eq_none_iff {c : LruCache κ ν} {k : κ} : c.find? k = none ↔ k ∉ c.order := by
  rw [mem_order, Option.eq_none_iff_forall_ne_some, not_exists]

/-- A new value for a key that is there, which becomes the most recent one. -/
def update (c : LruCache κ ν) (k : κ) (v : ν) (h : k ∈ c.order) : LruCache κ ν where
  map := c.map.insert k v
  order := k :: c.order.erase k
  sameKeys := by
    rw [AssocMap.keys_insert_of_mem (c.sameKeys.mem_iff.mp h)]
    exact (List.perm_cons_erase h).symm.trans c.sameKeys

/-- The key becomes the most recent one; one that is not there leaves the cache as it is. -/
def touch (c : LruCache κ ν) (k : κ) : LruCache κ ν :=
  if h : k ∈ c.order then
    ⟨c.map, k :: c.order.erase k, (List.perm_cons_erase h).symm.trans c.sameKeys⟩
  else c

/-- The key touched longest ago goes. -/
def evict (c : LruCache κ ν) : LruCache κ ν :=
  match c.order.getLast? with
  | none => c
  | some k => ⟨c.map.erase k, c.order.erase k, by
      rw [AssocMap.keys_erase]
      exact c.sameKeys.erase k⟩

/-- Room for one more key. -/
def makeRoom (cap : Nat) (c : LruCache κ ν) : LruCache κ ν :=
  if cap ≤ c.map.size then c.evict else c

/-- A new key, the most recent one. -/
def push (c : LruCache κ ν) (k : κ) (v : ν) (h : k ∉ c.order) : LruCache κ ν where
  map := c.map.insert k v
  order := k :: c.order
  sameKeys := by
    have hk : k ∉ c.map.keys := fun hk => h (c.sameKeys.mem_iff.mpr hk)
    rw [AssocMap.keys_insert_of_not_mem hk]
    exact (c.sameKeys.cons k).trans (List.perm_append_singleton k _).symm

theorem order_evict (c : LruCache κ ν) : c.evict.order = c.order.dropLast := by
  rcases List.eq_nil_or_concat c.order with h | ⟨l, k, h⟩
  · simp [evict, h]
  · have hnd := c.nodup_order
    rw [h, List.concat_eq_append] at hnd
    have hk : k ∉ l := fun hk => (List.nodup_append.mp hnd).2.2 k hk k (by simp) rfl
    simp [evict, h, List.erase_append_right _ hk]

theorem not_mem_makeRoom {c : LruCache κ ν} {k : κ} (cap : Nat) (h : k ∉ c.order) :
    k ∉ (c.makeRoom cap).order := by
  unfold makeRoom
  split
  · rw [order_evict]
    exact fun hk => h ((List.dropLast_sublist _).subset hk)
  · exact h

/-- **A store**: in place for a key that is there, else after making room. -/
def store (cap : Nat) (c : LruCache κ ν) (k : κ) (v : ν) : LruCache κ ν :=
  if h : k ∈ c.order then c.update k v h
  else (c.makeRoom cap).push k v (not_mem_makeRoom cap h)

/-! ## 2. What the operations do -/

@[simp] theorem find?_empty (k : κ) : (empty : LruCache κ ν).find? k = none := rfl

@[simp] theorem find?_touch (c : LruCache κ ν) (k k' : κ) :
    (c.touch k).find? k' = c.find? k' := by
  unfold touch
  split <;> rfl

@[simp] theorem find?_store_self (cap : Nat) (c : LruCache κ ν) (k : κ) (v : ν) :
    (c.store cap k v).find? k = some v := by
  unfold store
  split <;> exact AssocMap.find?_insert_self _ k v

/-- A store changes no other value; it may drop one. -/
theorem find?_store_of_ne {cap : Nat} {c : LruCache κ ν} {k k' : κ} {v : ν} (hne : k' ≠ k)
    (h : k' ∈ (c.store cap k v).order) : (c.store cap k v).find? k' = c.find? k' := by
  unfold store at h ⊢
  split at h
  · rename_i hk
    rw [dif_pos hk]
    exact AssocMap.find?_insert_of_ne _ v hne
  · rename_i hk
    rw [dif_neg hk]
    refine (AssocMap.find?_insert_of_ne _ v hne).trans ?_
    have hmem : k' ∈ (c.makeRoom cap).order := (List.mem_cons.mp h).resolve_left hne
    unfold makeRoom at hmem ⊢
    split
    · rename_i hfull
      rw [if_pos hfull] at hmem
      unfold evict at hmem ⊢
      cases hl : c.order.getLast? with
      | none => rfl
      | some last =>
        simp only [hl] at hmem
        have hlast : k' ≠ last := fun he => by
          subst he
          exact c.nodup_order.not_mem_erase hmem
        exact (AssocMap.find?_erase _ _ _).trans (if_neg hlast)
    · rfl

/-- The list after a store: the key in front, the rest in its order, cut at the capacity. -/
theorem order_store {cap : Nat} {c : LruCache κ ν} (hcap : 0 < cap) (hsize : c.order.length ≤ cap)
    (k : κ) (v : ν) : (c.store cap k v).order = (k :: c.order.erase k).take cap := by
  obtain ⟨n, rfl⟩ : ∃ n, cap = n + 1 := ⟨cap - 1, by omega⟩
  rw [List.take_succ_cons]
  unfold store
  split
  · rename_i hk
    have hlen : (c.order.erase k).length ≤ n := by
      rw [List.length_erase_of_mem hk]
      omega
    rw [List.take_of_length_le hlen]
    rfl
  · rename_i hk
    rw [List.erase_of_not_mem hk]
    show k :: (c.makeRoom (n + 1)).order = _
    congr 1
    unfold makeRoom
    split
    · rename_i hfull
      rw [← c.length_order] at hfull
      rw [order_evict, List.dropLast_eq_take]
      congr 1
      omega
    · rename_i hfull
      rw [← c.length_order] at hfull
      exact (List.take_of_length_le (by omega)).symm

/-- To touch a key is to store the value it has. -/
theorem touch_eq_store {c : LruCache κ ν} {k : κ} {v : ν} (cap : Nat) (h : c.find? k = some v) :
    c.touch k = c.store cap k v := by
  have hk : k ∈ c.order := mem_order.2 ⟨v, h⟩
  unfold touch store
  rw [dif_pos hk, dif_pos hk]
  exact ext_fields (AssocMap.insert_of_find? h).symm rfl

/-! ## 3. What a history of stores leaves -/

/-- The keys of a history, each once. Histories have the most recent store first. -/
def fresh : List κ → List κ
  | [] => []
  | k :: h => k :: (fresh h).erase k

/-- The keys stored since `k` was last stored. -/
def since (k : κ) (h : List κ) : List κ := h.takeWhile fun k' => k' ≠ k

/-- The value a cache of a history holds under `k`. -/
def held (cap : Nat) (h : List (κ × ν)) (k : κ) : Option ν :=
  if (since k (h.map Prod.fst)).dedup.length < cap then
    (h.find? fun e => e.1 = k).map Prod.snd
  else none

/-- The cache that a history of stores leaves. -/
def storeAll (cap : Nat) : List (κ × ν) → LruCache κ ν
  | [] => empty
  | e :: h => (storeAll cap h).store cap e.1 e.2

theorem mem_fresh {h : List κ} {k : κ} : k ∈ fresh h ↔ k ∈ h := by
  induction h with
  | nil => simp [fresh]
  | cons k' h ih =>
    by_cases hk : k = k'
    · simp [fresh, hk]
    · simp [fresh, hk, List.mem_erase_of_ne hk, ih]

theorem nodup_fresh (h : List κ) : (fresh h).Nodup := by
  induction h with
  | nil => exact List.nodup_nil
  | cons k h ih => exact List.nodup_cons.mpr ⟨ih.not_mem_erase, ih.erase k⟩

theorem length_fresh (h : List κ) : (fresh h).length = h.dedup.length := by
  apply List.Perm.length_eq
  rw [List.perm_ext_iff_of_nodup (nodup_fresh h) h.nodup_dedup]
  intro k
  rw [mem_fresh, List.mem_dedup]

/-- What is fresh in the newer part comes first. -/
theorem fresh_append (h₁ h₂ : List κ) :
    fresh (h₁ ++ h₂) = fresh h₁ ++ (fresh h₂).filter fun k => k ∉ h₁ := by
  induction h₁ with
  | nil => simp [fresh]
  | cons k h ih =>
    rw [List.cons_append, fresh, ih]
    by_cases hk : k ∈ h
    · rw [List.erase_append_left _ (mem_fresh.2 hk)]
      simp only [fresh, List.cons_append]
      congr 2
      apply List.filter_congr
      intro k' _
      by_cases hk' : k' = k <;> simp [hk', hk]
    · have hnd : ((fresh h₂).filter fun k' => decide (k' ∉ h)).Nodup := (nodup_fresh h₂).filter _
      rw [List.erase_append_right _ (fun hm => hk (mem_fresh.1 hm)), hnd.erase_eq_filter,
        List.filter_filter, fresh, List.erase_of_not_mem (fun hm => hk (mem_fresh.1 hm)),
        List.cons_append]
      congr 2
      apply List.filter_congr
      intro k' _
      by_cases hk' : k' = k <;> simp [hk']

theorem take_erase_take (l : List κ) (k : κ) (n : Nat) :
    ((l.take (n + 1)).erase k).take n = (l.erase k).take n := by
  induction l generalizing n with
  | nil => simp
  | cons a l ih =>
    by_cases ha : a = k
    · subst ha
      simp [List.take_take]
    · cases n with
      | zero => simp
      | succ n =>
        rw [List.take_succ_cons, List.erase_cons_tail (by simpa using ha),
          List.erase_cons_tail (by simpa using ha), List.take_succ_cons, List.take_succ_cons, ih]

/-- **The list of a cache is the beginning of its history's fresh keys.** -/
theorem order_storeAll {cap : Nat} (hcap : 0 < cap) (h : List (κ × ν)) :
    (storeAll cap h).order = (fresh (h.map Prod.fst)).take cap := by
  induction h with
  | nil => simp [storeAll, empty, fresh]
  | cons e h ih =>
    have hsize : (storeAll cap h).order.length ≤ cap := by
      rw [ih]
      exact List.length_take_le _ _
    obtain ⟨n, rfl⟩ : ∃ n, cap = n + 1 := ⟨cap - 1, by omega⟩
    rw [storeAll, order_store hcap hsize, ih, List.map_cons, fresh, List.take_succ_cons,
      List.take_succ_cons, take_erase_take]

theorem since_append (k : κ) (h : List κ) : ∃ rest, h = since k h ++ rest ∧
    (k ∈ h → ∃ older, rest = k :: older) := by
  refine ⟨h.dropWhile fun k' => k' ≠ k, (List.takeWhile_append_dropWhile).symm, fun hk => ?_⟩
  induction h with
  | nil => simp at hk
  | cons a h ih =>
    by_cases ha : a = k
    · exact ⟨h, by simp [ha]⟩
    · obtain ⟨older, hold⟩ := ih ((List.mem_cons.mp hk).resolve_left (Ne.symm ha))
      exact ⟨older, by simpa [ha] using hold⟩

theorem not_mem_since (k : κ) (h : List κ) : k ∉ since k h := fun hk => by
  simpa using List.mem_takeWhile_imp hk

/-- **Which keys a cache holds**: those with fewer than `cap` other keys stored since. -/
theorem mem_order_storeAll {cap : Nat} (hcap : 0 < cap) {h : List (κ × ν)} {k : κ} :
    k ∈ (storeAll cap h).order ↔
      k ∈ h.map Prod.fst ∧ (since k (h.map Prod.fst)).dedup.length < cap := by
  rw [order_storeAll hcap]
  obtain ⟨rest, hsplit, hrest⟩ := since_append k (h.map Prod.fst)
  have hk' : k ∉ fresh (since k (h.map Prod.fst)) := fun hm => not_mem_since k _ (mem_fresh.1 hm)
  constructor
  · intro hm
    have hin : k ∈ h.map Prod.fst := mem_fresh.1 (List.mem_of_mem_take hm)
    refine ⟨hin, ?_⟩
    by_contra hlen
    rw [hsplit, fresh_append, List.take_append_of_le_length] at hm
    · exact hk' (List.mem_of_mem_take hm)
    · rw [length_fresh]
      omega
  · rintro ⟨hin, hlen⟩
    obtain ⟨older, rfl⟩ := hrest hin
    rw [hsplit, fresh_append, List.take_append, List.mem_append]
    right
    rw [fresh, List.filter_cons_of_pos (by simpa using not_mem_since k _), length_fresh]
    obtain ⟨n, hn⟩ : ∃ n, cap - (since k (h.map Prod.fst)).dedup.length = n + 1 :=
      ⟨cap - (since k (h.map Prod.fst)).dedup.length - 1, by omega⟩
    rw [hn, List.take_succ_cons]
    exact List.mem_cons_self

/-- **What a cache answers**: the last value stored under the key, while it is held. -/
theorem find?_storeAll {cap : Nat} (hcap : 0 < cap) (h : List (κ × ν)) (k : κ) :
    (storeAll cap h).find? k = held cap h k := by
  unfold held
  by_cases hm : k ∈ (storeAll cap h).order
  · rw [if_pos ((mem_order_storeAll hcap).mp hm).2]
    induction h with
    | nil => simp [storeAll, empty] at hm
    | cons e h ih =>
      by_cases he : e.1 = k
      · subst he
        simp [storeAll]
      · rw [List.find?_cons_of_neg (by simpa using he)]
        have hstep : k ∈ ((storeAll cap h).store cap e.1 e.2).order := hm
        have hsame := find?_store_of_ne (Ne.symm he) hstep
        have hold : k ∈ (storeAll cap h).order := by
          rw [mem_order, ← hsame]
          exact mem_order.1 hstep
        rw [← ih hold]
        exact hsame
  · rw [find?_eq_none_iff.mpr hm]
    split
    · rename_i hlen
      have hno : k ∉ h.map Prod.fst := fun hin => hm ((mem_order_storeAll hcap).mpr ⟨hin, hlen⟩)
      symm
      rw [Option.map_eq_none_iff, List.find?_eq_none]
      intro e he hk
      exact hno (List.mem_map.mpr ⟨e, he, by simpa using hk⟩)
    · rfl

/-- What is held is a matter of the keys: a part of the values is held as they are. -/
theorem held_map {μ : Type*} (cap : Nat) (f : ν → μ) (h : List (κ × ν)) (k : κ) :
    held cap (h.map fun e => (e.1, f e.2)) k = (held cap h k).map f := by
  have hkeys : (h.map fun e => (e.1, f e.2)).map Prod.fst = h.map Prod.fst := by
    rw [List.map_map]
    rfl
  have hfind : ((h.map fun e => (e.1, f e.2)).find? fun e => e.1 = k).map Prod.snd =
      ((h.find? fun e => e.1 = k).map Prod.snd).map f := by
    induction h with
    | nil => rfl
    | cons e h ih =>
      by_cases he : e.1 = k
      · simp [he]
      · simpa [he] using ih (by rw [List.map_map]; rfl)
  unfold held
  rw [hkeys, hfind]
  split <;> rfl

theorem since_append_of_mem {k : κ} {h : List κ} (hk : k ∈ h) (older : List κ) :
    since k (h ++ older) = since k h := by
  obtain ⟨rest, hsplit, hrest⟩ := since_append k h
  obtain ⟨rest, rfl⟩ := hrest hk
  have hall : ∀ a ∈ since k h, decide (a ≠ k) = true := by
    intro a ha
    exact decide_eq_true fun he => not_mem_since k h (he ▸ ha)
  have hcut : since k ((since k h ++ k :: rest) ++ older) = since k h := by
    show ((since k h ++ k :: rest) ++ older).takeWhile (fun a => decide (a ≠ k)) = since k h
    rw [List.append_assoc, List.takeWhile_append_of_pos hall]
    simp
  rwa [← hsplit] at hcut

/-- What was stored again does not depend on what was stored before that. -/
theorem held_append_of_mem {cap : Nat} {h : List (κ × ν)} {k : κ} (hk : k ∈ h.map Prod.fst)
    (older : List (κ × ν)) : held cap (h ++ older) k = held cap h k := by
  have hfind : (h ++ older).find? (fun e => e.1 = k) = h.find? fun e => e.1 = k := by
    obtain ⟨e, he, hek⟩ := List.mem_map.mp hk
    cases hf : h.find? fun e => e.1 = k with
    | none => exact absurd (by simpa using hek) (List.find?_eq_none.mp hf e he)
    | some e' => rw [List.find?_append, hf, Option.some_or]
  unfold held
  rw [List.map_append, since_append_of_mem hk, hfind]

theorem held_of_not_mem {cap : Nat} {h : List (κ × ν)} {k : κ} (hk : k ∉ h.map Prod.fst) :
    held cap h k = none := by
  have hfind : h.find? (fun e => e.1 = k) = none := by
    rw [List.find?_eq_none]
    intro e he hek
    exact hk (List.mem_map.mpr ⟨e, he, by simpa using hek⟩)
  simp [held, hfind]

/-- The keys in front of a key in the list were all stored after it. -/
theorem mem_since_of_fresh {keys front rest : List κ} {gone other : κ}
    (hfresh : fresh keys = front ++ gone :: rest) (hother : other ∈ front) :
    other ∈ since gone keys := by
  have hgone : gone ∈ keys := by
    rw [← mem_fresh, hfresh]
    exact List.mem_append_right _ List.mem_cons_self
  obtain ⟨tail, hsplit, htail⟩ := since_append gone keys
  obtain ⟨older, rfl⟩ := htail hgone
  have hnew : fresh keys = fresh (since gone keys) ++
      (fresh (gone :: older)).filter fun k => k ∉ since gone keys := by
    conv_lhs => rw [hsplit]
    exact fresh_append _ _
  have hnot : gone ∉ fresh (since gone keys) :=
    fun hm => not_mem_since gone keys (mem_fresh.1 hm)
  rw [fresh, List.filter_cons_of_pos (by simpa using not_mem_since gone keys)] at hnew
  have hfront : gone ∉ front := by
    have hnd := nodup_fresh keys
    rw [hfresh] at hnd
    intro hm
    exact (List.nodup_append.mp hnd).2.2 gone hm gone List.mem_cons_self rfl
  -- both lists are cut where the key is first met
  have hcut : ∀ x y : List κ, gone ∉ x →
      (x ++ gone :: y).takeWhile (fun k => k ≠ gone) = x := by
    intro x y hx
    rw [List.takeWhile_append_of_pos, List.takeWhile_cons_of_neg (by simp), List.append_nil]
    intro k hk
    have hne : k ≠ gone := fun heq => hx (heq ▸ hk)
    simpa using hne
  have hsame := hcut front rest hfront
  rw [← hfresh, hnew, hcut _ _ hnot] at hsame
  rw [← hsame] at hother
  exact mem_fresh.1 hother

/-- **The key that a store drops**: the new one had no room, and every other key was stored after
    the one that goes. -/
theorem store_drops {cap : Nat} (hcap : 0 < cap) {h : List (κ × ν)} {k gone : κ} {v : ν}
    (hold : gone ∈ (storeAll cap h).order)
    (hgone : gone ∉ ((storeAll cap h).store cap k v).order) :
    k ∉ (storeAll cap h).order ∧ (storeAll cap h).order.length = cap ∧
      ∀ other ∈ (storeAll cap h).order, other ≠ gone → other ∈ since gone (h.map Prod.fst) := by
  have horder := order_storeAll hcap h
  have hlen : (storeAll cap h).order.length ≤ cap := by
    rw [horder]
    exact List.length_take_le _ _
  rw [order_store hcap hlen] at hgone
  generalize (storeAll cap h).order = order at *
  have hcut : ∀ l : List κ, (k :: l).length ≤ cap → gone ∈ k :: l → gone ∈ (k :: l).take cap := by
    intro l hl hin
    rwa [List.take_of_length_le hl]
  have hkey : k ∉ order := by
    intro hkey
    refine hgone (hcut _ ?_ ((List.perm_cons_erase hkey).mem_iff.mp hold))
    rw [List.length_cons, List.length_erase_of_mem hkey]
    have hne := List.length_pos_of_mem hkey
    omega
  rw [List.erase_of_not_mem hkey] at hgone
  have hfull : order.length = cap := by
    by_contra hne
    refine hgone (hcut _ ?_ (List.mem_cons_of_mem k hold))
    rw [List.length_cons]
    omega
  refine ⟨hkey, hfull, fun other hother hne => ?_⟩
  obtain ⟨front, last, rfl⟩ := List.eq_nil_or_concat' order |>.resolve_left (List.ne_nil_of_mem hold)
  have hlast : gone = last := by
    rcases List.mem_append.mp hold with hin | hin
    · exfalso
      refine hgone ?_
      rw [List.length_append, List.length_singleton] at hfull
      rw [← hfull, List.take_succ_cons, List.take_left]
      exact List.mem_cons_of_mem k hin
    · exact List.mem_singleton.mp hin
  subst hlast
  have hfront : other ∈ front :=
    (List.mem_append.mp hother).resolve_right fun hin => hne (List.mem_singleton.mp hin)
  have hfresh := List.take_append_drop cap (fresh (h.map Prod.fst))
  rw [← horder, List.append_assoc] at hfresh
  exact mem_since_of_fresh hfresh.symm hfront

end LruCache

end Nvecd.Lib
