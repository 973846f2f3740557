/-
  File:      Nvecd/Lib/LinkedLru.lean
  Subject:   An LRU cache as it is built: a hash map whose entries hold, beside their value, an
             iterator into a linked list of the keys.

  A node of the list has a name, which is what an iterator holds; a name is never used again. To
  move or to erase a node the iterator has to point to one: `none` is an iterator that dangles.

  * `LinkedLru`, `splice`, `relink`, `evictLast`, `pushNew` -- the steps of which operations are
    made;
  * `Represents` -- the map and the list are those of an `LruCache`, and the iterators point to
    the nodes of their keys;
  * `splice_represents`, `relink_represents`, `pushNew_represents` -- what the steps do to it.
-/
import Nvecd.Lib.LruCache

namespace Nvecd.Lib

universe u v

/-- **A map and a linked list**, the most recently touched key in front. -/
structure LinkedLru (κ : Type u) (ν : Type v) where
  map : AssocMap κ (ν × Nat) := .empty
  list : List (Nat × κ) := []
  /-- The name of the node that is made next. -/
  next : Nat := 0

namespace LinkedLru

variable {κ : Type u} {ν : Type v} [DecidableEq κ]

def find? (c : LinkedLru κ ν) (k : κ) : Option (ν × Nat) := c.map.find? k

/-- A new value for an entry that is there. -/
def assign (c : LinkedLru κ ν) (k : κ) (v : ν) (iter : Nat) : LinkedLru κ ν :=
  { c with map := c.map.insert k (v, iter) }

/-- The node of the iterator goes to the front. -/
def splice (c : LinkedLru κ ν) (iter : Nat) : Option (LinkedLru κ ν) :=
  (c.list.find? fun node => node.1 = iter).map fun node =>
    { c with list := node :: c.list.filter fun node => node.1 ≠ iter }

/-- The node of the iterator is erased, a new one is made in front, and the entry gets its
    iterator. -/
def relink (c : LinkedLru κ ν) (k : κ) (v : ν) (iter : Nat) : Option (LinkedLru κ ν) :=
  (c.list.find? fun node => node.1 = iter).map fun _ =>
    { map := c.map.insert k (v, c.next)
      list := (c.next, k) :: c.list.filter fun node => node.1 ≠ iter
      next := c.next + 1 }

/-- The last key of the list goes. -/
def evictLast (c : LinkedLru κ ν) : LinkedLru κ ν :=
  match c.list.getLast? with
  | none => c
  | some node => { c with map := c.map.erase node.2, list := c.list.dropLast }

/-- A new entry in front. -/
def pushNew (c : LinkedLru κ ν) (k : κ) (v : ν) : LinkedLru κ ν where
  map := c.map.insert k (v, c.next)
  list := (c.next, k) :: c.list
  next := c.next + 1

/-- **The cache that is built so**: the same values, the same order, and no iterator dangles. -/
structure Represents (c : LinkedLru κ ν) (l : LruCache κ ν) : Prop where
  values : ∀ k, l.find? k = (c.map.find? k).map Prod.fst
  order : l.order = c.list.map Prod.snd
  iterators : ∀ k v iter, c.map.find? k = some (v, iter) → (iter, k) ∈ c.list
  distinct : (c.list.map Prod.fst).Nodup
  used : ∀ node ∈ c.list, node.1 < c.next

namespace Represents

variable {c : LinkedLru κ ν} {l : LruCache κ ν} {k : κ} {v w : ν} {iter : Nat}

theorem empty : Represents ({} : LinkedLru κ ν) LruCache.empty :=
  ⟨fun _ => rfl, rfl, nofun, List.nodup_nil, nofun⟩

theorem find? (h : c.Represents l) (hf : c.find? k = some (v, iter)) : l.find? k = some v := by
  rw [h.values k]
  exact congrArg (Option.map Prod.fst) hf

theorem find?_none (h : c.Represents l) (hf : c.find? k = none) : l.find? k = none := by
  rw [h.values k]
  exact congrArg (Option.map Prod.fst) hf

theorem keys_perm (h : c.Represents l) : l.map.keys.Perm c.map.keys := by
  refine (List.perm_ext_iff_of_nodup l.map.nodupKeys c.map.nodupKeys).mpr fun k => ?_
  have hk : l.map.find? k = (c.map.find? k).map Prod.fst := h.values k
  show k ∈ l.map.keys ↔ k ∈ c.map.keys
  rw [AssocMap.mem_keys, AssocMap.mem_keys, hk]
  cases c.map.find? k with
  | none => simp
  | some e => simp

/-- The list holds the keys of the map. -/
theorem sameKeys (h : c.Represents l) : (c.list.map Prod.snd).Perm c.map.keys :=
  h.order ▸ l.sameKeys.trans h.keys_perm

theorem size (h : c.Represents l) : l.map.size = c.map.size := by
  rw [← AssocMap.length_keys, ← AssocMap.length_keys]
  exact h.keys_perm.length_eq

/-- The node of an entry is the one node of its key. -/
theorem node_iff (h : c.Represents l) (hf : c.find? k = some (v, iter)) {node : Nat × κ}
    (hnode : node ∈ c.list) : node.1 = iter ↔ node.2 = k := by
  have hin := h.iterators k v iter hf
  have hkeys : (c.list.map Prod.snd).Nodup := h.order ▸ l.nodup_order
  constructor
  · intro heq
    exact congrArg Prod.snd (List.inj_on_of_nodup_map h.distinct hnode hin heq)
  · intro heq
    exact congrArg Prod.fst (List.inj_on_of_nodup_map hkeys hnode hin heq)

/-- The keys of the other nodes. -/
theorem map_filter (h : c.Represents l) (hf : c.find? k = some (v, iter)) :
    (c.list.filter fun node => node.1 ≠ iter).map Prod.snd = l.order.erase k := by
  rw [l.nodup_order.erase_eq_filter, h.order, List.filter_map]
  congr 1
  refine List.filter_congr fun node hnode => ?_
  have hiff := h.node_iff hf hnode
  by_cases hk : node.2 = k
  · simp [hk, hiff.mpr hk]
  · simp [hk, mt hiff.mp hk]

theorem found (h : c.Represents l) (hf : c.find? k = some (v, iter)) :
    c.list.find? (fun node => node.1 = iter) = some (iter, k) := by
  have hin := h.iterators k v iter hf
  cases hs : c.list.find? fun node => node.1 = iter with
  | none =>
    have hno := List.find?_eq_none.mp hs _ hin
    simp at hno
  | some node =>
    have hiter : node.1 = iter := by simpa using List.find?_some hs
    rw [List.inj_on_of_nodup_map h.distinct (List.mem_of_find?_eq_some hs) hin hiter]

/-- The map after an entry was given a value, and an iterator of its own node. -/
theorem values_insert (h : c.Represents l) (cap : Nat) (hf : c.find? k = some (v, iter)) (w : ν)
    (iter' : Nat) (k' : κ) :
    (l.store cap k w).find? k' = ((c.map.insert k (w, iter')).find? k').map Prod.fst := by
  have hk : k ∈ l.order := LruCache.mem_order.mpr ⟨v, h.find? hf⟩
  by_cases hkk : k' = k
  · subst hkk
    rw [LruCache.find?_store_self, AssocMap.find?_insert_self]
    rfl
  · rw [AssocMap.find?_insert_of_ne _ _ hkk]
    by_cases hk' : k' ∈ (l.store cap k w).order
    · rw [LruCache.find?_store_of_ne hkk hk', h.values k']
    · have hold : k' ∉ l.order := by
        intro hin
        refine hk' ?_
        unfold LruCache.store
        rw [dif_pos hk]
        exact List.mem_cons_of_mem k ((List.mem_erase_of_ne hkk).mpr hin)
      rw [LruCache.find?_eq_none_iff.mpr hk']
      have hnone := LruCache.find?_eq_none_iff.mpr hold
      rw [h.values k'] at hnone
      exact hnone.symm

theorem order_update (h : c.Represents l) (cap : Nat) (hf : c.find? k = some (v, iter)) (w : ν) :
    (l.store cap k w).order = k :: l.order.erase k := by
  unfold LruCache.store
  rw [dif_pos (LruCache.mem_order.mpr ⟨v, h.find? hf⟩)]
  rfl

/-- **Splicing** the node of an entry that was given a value. -/
theorem splice (h : c.Represents l) (cap : Nat) (hf : c.find? k = some (v, iter)) (w : ν) :
    ∃ c', (c.assign k w iter).splice iter = some c' ∧ c'.Represents (l.store cap k w) := by
  have hin := h.iterators k v iter hf
  refine ⟨_, congrArg (Option.map _) (h.found hf), h.values_insert cap hf w iter, ?_, ?_, ?_, ?_⟩
  · rw [h.order_update cap hf w, ← h.map_filter hf]
    rfl
  · intro k' v' iter' hf'
    by_cases hkk : k' = k
    · subst hkk
      have hsame := (AssocMap.find?_insert_self c.map k' (w, iter)).symm.trans hf'
      cases hsame
      exact List.mem_cons_self
    · have hf' : c.find? k' = some (v', iter') :=
        (AssocMap.find?_insert_of_ne c.map (w, iter) hkk).symm.trans hf'
      have hin' := h.iterators k' v' iter' hf'
      refine List.mem_cons_of_mem _ (List.mem_filter.mpr ⟨hin', ?_⟩)
      have hne : iter' ≠ iter := fun heq => hkk ((h.node_iff hf hin').mp heq)
      simpa using hne
  · rw [List.map_cons, List.nodup_cons]
    refine ⟨?_, h.distinct.sublist (List.filter_sublist.map _)⟩
    rintro hmem
    obtain ⟨node, hnode, heq⟩ := List.mem_map.mp hmem
    have hne := (List.mem_filter.mp hnode).2
    simp [heq] at hne
  · intro node hnode
    rcases List.mem_cons.mp hnode with rfl | hnode
    · exact h.used _ hin
    · exact h.used node (List.mem_filter.mp hnode).1

/-- **Erasing the node** of an entry and making a new one. -/
theorem relink (h : c.Represents l) (cap : Nat) (hf : c.find? k = some (v, iter)) (w : ν) :
    ∃ c', c.relink k w iter = some c' ∧ c'.Represents (l.store cap k w) := by
  refine ⟨_, congrArg (Option.map _) (h.found hf), h.values_insert cap hf w c.next, ?_, ?_, ?_, ?_⟩
  · rw [h.order_update cap hf w, List.map_cons, h.map_filter hf]
  · intro k' v' iter' hf'
    by_cases hkk : k' = k
    · subst hkk
      have hsame := (AssocMap.find?_insert_self c.map k' (w, c.next)).symm.trans hf'
      cases hsame
      exact List.mem_cons_self
    · have hf' : c.find? k' = some (v', iter') :=
        (AssocMap.find?_insert_of_ne c.map (w, c.next) hkk).symm.trans hf'
      have hin' := h.iterators k' v' iter' hf'
      refine List.mem_cons_of_mem _ (List.mem_filter.mpr ⟨hin', ?_⟩)
      have hne : iter' ≠ iter := fun heq => hkk ((h.node_iff hf hin').mp heq)
      simpa using hne
  · rw [List.map_cons, List.nodup_cons]
    refine ⟨?_, h.distinct.sublist (List.filter_sublist.map _)⟩
    intro hmem
    obtain ⟨node, hnode, heq⟩ := List.mem_map.mp hmem
    exact Nat.lt_irrefl _ (heq ▸ h.used node (List.mem_filter.mp hnode).1)
  · intro node hnode
    rcases List.mem_cons.mp hnode with rfl | hnode
    · exact Nat.lt_succ_self _
    · exact Nat.lt_succ_of_lt (h.used node (List.mem_filter.mp hnode).1)

/-- The last key goes. -/
theorem evictLast (h : c.Represents l) : c.evictLast.Represents l.evict := by
  rcases List.eq_nil_or_concat c.list with hnil | ⟨front, node, hlist⟩
  · have horder : l.order = [] := by rw [h.order, hnil]; rfl
    have hl : l.evict = l := by simp [LruCache.evict, horder]
    have hc : c.evictLast = c := by simp [LinkedLru.evictLast, hnil]
    rw [hl, hc]
    exact h
  · rw [List.concat_eq_append] at hlist
    have horder : l.order = front.map Prod.snd ++ [node.2] := by
      rw [h.order, hlist, List.map_append]
      rfl
    have hc : c.evictLast = { c with map := c.map.erase node.2, list := front } := by
      simp [LinkedLru.evictLast, hlist]
    have hkeys : (l.order).Nodup := l.nodup_order
    have hfind : ∀ k, l.evict.find? k = if k = node.2 then none else l.find? k := by
      intro k
      have hlast : l.order.getLast? = some node.2 := by simp [horder]
      unfold LruCache.evict
      split
      · rename_i hnone
        rw [hlast] at hnone
        cases hnone
      · rename_i k' hsome
        rw [hlast] at hsome
        cases hsome
        exact AssocMap.find?_erase _ _ _
    rw [hc]
    refine ⟨fun k => ?_, ?_, ?_, ?_, ?_⟩
    · rw [hfind k, AssocMap.find?_erase]
      split
      · rfl
      · exact h.values k
    · rw [LruCache.order_evict, horder, List.dropLast_concat]
    · intro k v iter hf
      rw [AssocMap.find?_erase] at hf
      split at hf
      · cases hf
      · rename_i hne
        have hin := h.iterators k v iter hf
        rw [hlist, List.mem_append, List.mem_singleton] at hin
        exact hin.resolve_right fun heq => hne (congrArg Prod.snd heq)
    · have hd := h.distinct
      rw [hlist, List.map_append] at hd
      exact (List.nodup_append.mp hd).1
    · exact fun n hn => h.used n (by rw [hlist]; exact List.mem_append_left _ hn)

/-- **A new entry**, where there is room for it. -/
theorem pushNew (h : c.Represents l) (hk : k ∉ l.order) (v : ν) :
    (c.pushNew k v).Represents (l.push k v hk) := by
  refine ⟨fun k' => ?_, ?_, ?_, ?_, ?_⟩
  · have hpush : (l.push k v hk).find? k' = (l.map.insert k v).find? k' := rfl
    have hnew : (c.pushNew k v).map = c.map.insert k (v, c.next) := rfl
    rw [hpush, hnew]
    by_cases hkk : k' = k
    · subst hkk
      rw [AssocMap.find?_insert_self, AssocMap.find?_insert_self]
      rfl
    · rw [AssocMap.find?_insert_of_ne _ _ hkk, AssocMap.find?_insert_of_ne _ _ hkk]
      exact h.values k'
  · show k :: l.order = (c.pushNew k v).list.map Prod.snd
    rw [h.order]
    rfl
  · intro k' v' iter' hf'
    by_cases hkk : k' = k
    · subst hkk
      have hsame := (AssocMap.find?_insert_self c.map k' (v, c.next)).symm.trans hf'
      cases hsame
      exact List.mem_cons_self
    · have hf' : c.find? k' = some (v', iter') :=
        (AssocMap.find?_insert_of_ne c.map (v, c.next) hkk).symm.trans hf'
      exact List.mem_cons_of_mem _ (h.iterators k' v' iter' hf')
  · show ((c.next, k) :: c.list).map Prod.fst |>.Nodup
    rw [List.map_cons, List.nodup_cons]
    refine ⟨fun hmem => ?_, h.distinct⟩
    obtain ⟨node, hnode, heq⟩ := List.mem_map.mp hmem
    exact Nat.lt_irrefl _ (heq ▸ h.used node hnode)
  · intro node hnode
    rcases List.mem_cons.mp hnode with rfl | hnode
    · exact Nat.lt_succ_self _
    · exact Nat.lt_succ_of_lt (h.used node hnode)

/-- A store of a key that is not there: the last key goes if the cache is full. -/
theorem storeNew (h : c.Represents l) (cap : Nat) (hf : c.find? k = none) (v : ν) :
    ((if cap ≤ c.map.size then c.evictLast else c).pushNew k v).Represents (l.store cap k v) := by
  have hk : k ∉ l.order := LruCache.find?_eq_none_iff.mp (h.find?_none hf)
  have hroom : (if cap ≤ c.map.size then c.evictLast else c).Represents (l.makeRoom cap) := by
    unfold LruCache.makeRoom
    rw [h.size]
    split
    · exact h.evictLast
    · exact h
  unfold LruCache.store
  rw [dif_neg hk]
  exact hroom.pushNew _ v

end Represents

end LinkedLru

end Nvecd.Lib
