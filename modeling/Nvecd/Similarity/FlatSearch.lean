/-
  File:      Nvecd/Similarity/FlatSearch.lean
  Subject:   What the scan of the rows returns, and what of it depends on the slots.

  The queue of the scan compares scores alone. Whichever slots the vectors are in, the scan keeps
  `top_k` matching items of which none is worse than one left out; where items of the same score
  lie on both sides of the cut, it is the slots and the queue that choose. So the result is the
  first `top_k` by score and id, for every history of the store, exactly when no such group lies
  across the cut.

  * `candidates`, `flatSearch_eq` -- the scan is the bounded queue over the matching slots;
  * `matchingItems` -- the same items, read off the map the store implements;
  * `Exact` -- the first `top_k` of them by score and id;
  * `Decided` -- no ties across the cut, and the scores are numbers;
  * `flat_search_exact_iff`.
-/
import Nvecd.Similarity.Search
import Nvecd.Vectors.StoreLayout

namespace Nvecd.Similarity

open Nvecd.Cache Nvecd.Lib Nvecd.Storage Nvecd.Utils Nvecd.Vectors

namespace VectorSearch

variable {A : Type} (s : VectorSearch A)

/-! ## 1. The scan -/

/-- Which slots are offered to the queue. -/
def offered (c : CompactStore) (queryIdx : Option Nat) (filter : MetadataFilter) (idx : Nat) :
    Bool :=
  queryIdx ≠ some idx && !c.deleted.getD idx false && s.passes filter (c.idxToId.getD idx [])

/-- The slots offered to the queue, with their scores. -/
def candidates (c : CompactStore) (queryIdx : Option Nat) (filter : MetadataFilter)
    (query : List UInt32) (queryNorm : UInt32) : List (UInt32 × Nat) :=
  ((List.range c.idxToId.length).filter (s.offered c queryIdx filter)).map fun idx =>
    (s.score query queryNorm (rowAt c.dimension c.matrix idx) (c.norms.getD idx 0), idx)

variable {s} {c : CompactStore} {k : Nat} {queryIdx : Option Nat} {filter : MetadataFilter}
  {query : List UInt32} {queryNorm : UInt32}

theorem foldl_pushCandidate (indices : List Nat) (heap : List (UInt32 × Nat)) :
    indices.foldl (s.pushCandidate c k queryIdx filter query queryNorm) heap =
      ((indices.filter (s.offered c queryIdx filter)).map fun idx =>
        (s.score query queryNorm (rowAt c.dimension c.matrix idx) (c.norms.getD idx 0), idx)).foldl
        (s.queue.offer k) heap := by
  induction indices generalizing heap with
  | nil => rfl
  | cons idx indices ih =>
    rw [List.foldl_cons, ih, List.filter_cons]
    by_cases hidx : s.offered c queryIdx filter idx = true
    · rw [if_pos hidx, List.map_cons, List.foldl_cons]
      congr 1
      unfold offered at hidx
      simp only [Bool.and_eq_true, decide_eq_true_eq, Bool.not_eq_true'] at hidx
      rw [pushCandidate, if_neg hidx.1.1, hidx.1.2, if_neg Bool.false_ne_true,
        if_neg (not_not_intro hidx.2)]
    · rw [if_neg hidx]
      congr 1
      unfold offered at hidx
      simp only [Bool.and_eq_true, decide_eq_true_eq, Bool.not_eq_true', not_and] at hidx
      unfold pushCandidate
      split
      · rfl
      · rename_i hq
        split
        · rfl
        · rename_i hdel
          rw [if_pos fun hp => hidx ⟨hq, Bool.eq_false_of_not_eq_true hdel⟩ hp]

variable (c k queryIdx filter query queryNorm) in
/-- The scan of all slots. -/
theorem flatSearch_eq (hall : s.config.sampleSize = 0) :
    ∃ found, found.Perm (((s.candidates c queryIdx filter query queryNorm).foldl
        (s.queue.offer k) []).map fun e => (e.1, c.idxToId.getD e.2 [])) ∧
      s.flatSearch c k queryIdx filter query queryNorm = (sortItems floatKey found).map toResult := by
  have hscan : s.scanIndices c.idxToId.length = List.range c.idxToId.length := by
    rw [scanIndices, hall, if_neg fun h => absurd h.1 (Nat.lt_irrefl 0)]
  unfold flatSearch candidates
  rw [hscan, foldl_pushCandidate]
  exact ⟨_, (Ranking.drain_perm _).map _, rfl⟩

theorem map_ofResult (l : List (UInt32 × Bytes)) : (l.map toResult).map ofResult = l := by
  rw [List.map_map]
  exact List.map_id l

/-! ## 2. The items of the map -/

/-- What a query is about: the item itself is left out of its results. -/
structure Query where
  row : List UInt32
  norm : UInt32
  exclude : Option Bytes := none

variable (s)

/-- The item matches the query. -/
def wanted (q : Query) (filter : MetadataFilter) (id : Bytes) : Bool :=
  q.exclude ≠ some id && s.passes filter id

/-- **The live matching items with their scores.** -/
def matchingItems (m : MapStore) (q : Query) (filter : MetadataFilter) : List (UInt32 × Bytes) :=
  (m.vectors.entries.filter fun e => s.wanted q filter e.1).map fun e =>
    (s.score q.row q.norm e.2.1 (s.floats.l2Norm e.2.1), e.1)

/-- Two maps with the same vectors under the same ids. -/
def SameRows (m m' : MapStore) : Prop :=
  ∀ id, (m.vectors.find? id).map Prod.fst = (m'.vectors.find? id).map Prod.fst

variable {s} {m m' : MapStore} {q : Query}

/-- An entry without its mark. -/
def rowOf (e : Bytes × List UInt32 × Bool) : Bytes × List UInt32 := (e.1, e.2.1)

theorem mem_map_rowOf {id : Bytes} {row : List UInt32} :
    (id, row) ∈ m.vectors.entries.map rowOf ↔ (m.vectors.find? id).map Prod.fst = some row := by
  rw [List.mem_map, Option.map_eq_some_iff]
  constructor
  · rintro ⟨⟨id', row', mark⟩, he, heq⟩
    cases heq
    exact ⟨(row', mark), AssocMap.mem_entries.mp he, rfl⟩
  · rintro ⟨⟨row', mark⟩, hfind, rfl⟩
    exact ⟨(id, row', mark), AssocMap.mem_entries.mpr hfind, rfl⟩

theorem nodup_rowOf : (m.vectors.entries.map rowOf).Nodup := by
  refine List.Nodup.of_map Prod.fst ?_
  rw [List.map_map]
  exact m.vectors.nodupKeys

theorem SameRows.perm (h : SameRows m m') :
    (m.vectors.entries.map rowOf).Perm (m'.vectors.entries.map rowOf) := by
  refine (List.perm_ext_iff_of_nodup nodup_rowOf nodup_rowOf).mpr fun e => ?_
  rw [mem_map_rowOf, mem_map_rowOf, h e.1]

theorem SameRows.of_perm (h : m.vectors.entries.Perm m'.vectors.entries) : SameRows m m' := by
  intro id
  congr 1
  refine Option.ext fun v => ?_
  rw [← AssocMap.mem_entries, ← AssocMap.mem_entries]
  exact h.mem_iff

/-- The score of a vector under its id. -/
def itemOf (s : VectorSearch A) (q : Query) (e : Bytes × List UInt32) : UInt32 × Bytes :=
  (s.score q.row q.norm e.2 (s.floats.l2Norm e.2), e.1)

theorem matchingItems_eq : s.matchingItems m q filter =
    ((m.vectors.entries.map rowOf).filter fun e => s.wanted q filter e.1).map (itemOf s q) := by
  rw [List.filter_map, List.map_map]
  rfl

theorem SameRows.matchingItems (h : SameRows m m') :
    (s.matchingItems m q filter).Perm (s.matchingItems m' q filter) := by
  rw [matchingItems_eq, matchingItems_eq]
  exact (h.perm.filter _).map _

theorem nodup_matchingItems : ((s.matchingItems m q filter).map Prod.snd).Nodup := by
  unfold VectorSearch.matchingItems
  rw [List.map_map]
  exact m.vectors.nodupKeys.sublist (List.filter_sublist.map _)

/-! ## 3. Slots and items -/

theorem filter_range_map {α β : Type*} (l : List α) {p : Nat → Bool} (p' : α → Bool)
    {g : Nat → β} (g' : α → β) (hp : ∀ i e, l[i]? = some e → p i = p' e)
    (hg : ∀ i e, l[i]? = some e → g i = g' e) :
    ((List.range l.length).filter p).map g = (l.filter p').map g' := by
  induction l using List.reverseRecOn with
  | nil => rfl
  | append_singleton l e ih =>
    have hold : ∀ i e', l[i]? = some e' → (l ++ [e])[i]? = some e' := fun i e' h =>
      List.getElem?_append_left (List.getElem?_eq_some_iff.mp h).1 ▸ h
    have hlast : (l ++ [e])[l.length]? = some e := List.getElem?_concat_length
    rw [List.length_append, List.length_singleton, List.range_succ, List.filter_append,
      List.map_append, ih (fun i e' h => hp i e' (hold i e' h)) fun i e' h => hg i e' (hold i e' h),
      List.filter_append, List.map_append, List.filter_singleton, List.filter_singleton,
      hp _ e hlast]
    cases p' e
    · rfl
    · show _ ++ [g l.length] = _ ++ [g' e]
      rw [hg _ e hlast]

/-- The slot that is left out is the one of the item that is left out. -/
def Excludes (queryIdx : Option Nat) (q : Query) (vs : VectorStore) : Prop :=
  ∀ idx e, vs.slots[idx]? = some e → e.deleted = false →
    (queryIdx = some idx ↔ q.exclude = some e.id)

theorem excludes_none (row : List UInt32) (norm : UInt32) (vs : VectorStore) :
    Excludes none ⟨row, norm, none⟩ vs :=
  fun _ _ _ _ => ⟨nofun, nofun⟩

/-- The live slots as entries. -/
def liveRows (vs : VectorStore) : List (Bytes × List UInt32) :=
  vs.liveSlots.map fun e => (e.id, e.row)

section Slots

variable {vs : VectorStore} (h : Held s.floats.toVectorFloats c vs m)
include h

/-- **The candidates are the matching vectors of the live slots**, slot by slot. -/
theorem map_candidates (hq : Excludes queryIdx q vs) :
    (s.candidates c queryIdx filter q.row q.norm).map (fun e => (e.1, c.idxToId.getD e.2 [])) =
      ((liveRows vs).filter fun e => s.wanted q filter e.1).map (itemOf s q) := by
  have hr := h.represents
  have hid : ∀ i e, vs.slots[i]? = some e → c.idxToId.getD i [] = e.id := by
    intro i e he
    rw [hr.idxToId, List.getD_eq_getElem?_getD, List.getElem?_map, he]
    rfl
  have hnorm : ∀ i e, vs.slots[i]? = some e → c.norms.getD i 0 = s.floats.l2Norm e.row := by
    intro i e he
    rw [hr.norms, List.getD_eq_getElem?_getD, List.getElem?_map, he]
    exact h.norms e (List.mem_of_getElem? he)
  unfold candidates liveRows
  rw [List.map_map, hr.length_idxToId, filter_range_map vs.slots
    (fun e => !e.deleted && s.wanted q filter e.id)
    (fun e => (s.score q.row q.norm e.row (s.floats.l2Norm e.row), e.id)) ?_ ?_]
  · rw [List.filter_map, List.map_map, VectorStore.liveSlots, List.filter_filter]
    congr 1
    exact List.filter_congr fun e _ => Bool.and_comm _ _
  · intro i e he
    unfold offered wanted
    rw [hr.getD_deleted he, hid i e he]
    cases hdel : e.deleted with
    | true => simp
    | false =>
      have hiff := hq i e he hdel
      simp [hiff]
  · intro i e he
    show (s.score q.row q.norm (rowAt c.dimension c.matrix i) (c.norms.getD i 0),
      c.idxToId.getD i []) = _
    rw [hr.rowAt_matrix he, hid i e he, hnorm i e he]

theorem liveRows_perm : (liveRows vs).Perm (m.vectors.entries.map rowOf) := by
  have hnd : (liveRows vs).Nodup := by
    refine List.Nodup.of_map Prod.fst ?_
    rw [liveRows, List.map_map]
    exact h.inv.nodup_liveSlots
  refine (List.perm_ext_iff_of_nodup hnd nodup_rowOf).mpr fun e => ?_
  obtain ⟨id, row⟩ := e
  rw [mem_map_rowOf, h.vectors, Option.map_map, Option.map_eq_some_iff, liveRows, List.mem_map]
  constructor
  · rintro ⟨e, he, heq⟩
    cases heq
    exact ⟨e, h.inv.slotOf_eq_some.mpr ⟨he, rfl⟩, rfl⟩
  · rintro ⟨e, he, rfl⟩
    obtain ⟨hlive, hid⟩ := h.inv.slotOf_eq_some.mp he
    exact ⟨e, hlive, by rw [hid]; rfl⟩

variable (filter) in
theorem candidates_perm (hq : Excludes queryIdx q vs) :
    ((s.candidates c queryIdx filter q.row q.norm).map fun e =>
      (e.1, c.idxToId.getD e.2 [])).Perm (s.matchingItems m q filter) := by
  rw [map_candidates h hq, matchingItems_eq]
  exact ((liveRows_perm h).filter _).map _

variable (filter) in
/-- In a store that holds the entries in order, the candidates are the items in this order. -/
theorem candidates_inOrder (horder : InOrder vs m) (hq : Excludes queryIdx q vs) :
    (s.candidates c queryIdx filter q.row q.norm).map (fun e => (e.1, c.idxToId.getD e.2 [])) =
      s.matchingItems m q filter := by
  have hlive : vs.liveSlots = vs.slots :=
    List.filter_eq_self.mpr fun e he => by rw [horder.live e he]; rfl
  rw [map_candidates h hq, matchingItems_eq, ← horder.entries, liveRows, hlive, List.map_map]
  rfl

end Slots

/-! ## 4. Exactness -/

/-- **What is promised**: the first `k` matching items by falling score, then by id. -/
def Exact (s : VectorSearch A) (m : MapStore) (k : Nat) (q : Query) (filter : MetadataFilter)
    (results : List SimilarityResult) : Prop :=
  Top floatKey k (s.matchingItems m q filter) (results.map ofResult)

/-- **Nothing is left to the slots**: the scores of several items are numbers, and no group of
    items with one score lies across the cut. -/
def Decided (s : VectorSearch A) (m : MapStore) (k : Nat) (q : Query) (filter : MetadataFilter) :
    Prop :=
  ((s.matchingItems m q filter).length ≤ 1 ∨
      ∀ x ∈ s.matchingItems m q filter, (floatKey x.1).isSome) ∧
    Settled floatKey k (s.matchingItems m q filter)

section Exactness

variable {vs : VectorStore}

/-- **A decided query** gets what is promised, in every store. -/
theorem Decided.exact (hqueue : s.queue.Orders floatKey) (hall : s.config.sampleSize = 0)
    (hk : 0 < k) (h : Held s.floats.toVectorFloats c vs m) (hq : Excludes queryIdx q vs)
    (hd : s.Decided m k q filter) :
    s.Exact m k q filter (s.flatSearch c k queryIdx filter q.row q.norm) := by
  obtain ⟨found, hfound, heq⟩ :=
    flatSearch_eq c k queryIdx filter q.row q.norm hall
  have hperm := candidates_perm filter h hq
  have hlen := hperm.length_eq
  rw [List.length_map] at hlen
  unfold Exact
  rw [heq, map_ofResult]
  refine Top.perm_left ?_ hperm.symm
  cases hd.1 with
  | inl hone =>
    -- there is room for the only item
    have hroom : ([] : List (UInt32 × Nat)).length +
        (s.candidates c queryIdx filter q.row q.norm).length ≤ k := by
      rw [List.length_nil]
      omega
    rw [Ranking.foldl_offer_of_length_le _ hroom, List.append_nil] at hfound
    have hsort : (sortItems floatKey found).Perm ((s.candidates c queryIdx filter q.row q.norm).map
        fun e => (e.1, c.idxToId.getD e.2 [])) :=
      (sortItems_perm.trans hfound).trans ((List.reverse_perm _).map _)
    have hshort : (sortItems floatKey found).length ≤ 1 := by
      rw [hsort.length_eq, List.length_map]
      omega
    refine ⟨_, hsort, ?_, (List.take_of_length_le (by omega)).symm⟩
    match sortItems floatKey found, hshort with
    | [], _ => exact List.Pairwise.nil
    | [x], _ => exact List.pairwise_singleton _ x
  | inr hnum =>
    have hnum' : ∀ x ∈ s.candidates c queryIdx filter q.row q.norm, (floatKey x.1).isSome :=
      fun x hx => hnum _ (hperm.mem_iff.mp (List.mem_map_of_mem hx))
    have hsel := ((foldl_offer_selects hqueue k hnum').map fun idx => c.idxToId.getD idx []).perm_left
      hfound
    have hnums : ∀ x ∈ (s.candidates c queryIdx filter q.row q.norm).map fun e =>
        (e.1, c.idxToId.getD e.2 []), (floatKey x.1).isSome :=
      fun x hx => hnum x (hperm.mem_iff.mp hx)
    have hnd := (hperm.map Prod.snd).nodup_iff.mpr nodup_matchingItems
    have hfnd : (found.map Prod.snd).Nodup := by
      obtain ⟨omitted, hsplit, -⟩ := hsel.omitted
      have hndall := (hsplit.map Prod.snd).nodup_iff.mpr hnd
      rw [List.map_append] at hndall
      exact (List.nodup_append.mp hndall).1
    exact hsel.top hnums hnd (hd.2.perm hperm) sortItems_perm
      (pairwise_sortItems (fun x hx => hnums x (hsel.subset x hx)) hfnd)

/-- Lists that are permutations of an image are images of permutations. -/
theorem exists_perm_map_eq {α β : Type*} {f : α → β} {l : List α} {l' : List β}
    (h : l'.Perm (l.map f)) : ∃ l₀ : List α, l₀.Perm l ∧ l₀.map f = l' := by
  have hall : List.Forall₂ (fun b a => b = f a) (l.map f) l := by
    rw [List.forall₂_map_left_iff]
    exact List.forall₂_same.mpr fun _ _ => rfl
  obtain ⟨l₀, hl₀, hperm⟩ := List.perm_comp_forall₂ h hall
  refine ⟨l₀, hperm, ?_⟩
  clear h hall hperm
  induction hl₀ with
  | nil => rfl
  | cons heq _ ih => rw [List.map_cons, ih, heq]

/-- Candidates that come by falling score: the first of them fill the queue and stay in it. -/
theorem foldl_offer_reversedTies (hqueue : s.queue.Orders floatKey) (f : Nat → Bytes)
    {cands : List (UInt32 × Nat)} {items : List (UInt32 × Bytes)}
    (hcands : cands.map (fun e => (e.1, f e.2)) = reversedTies floatKey items)
    (hnum : ∀ x ∈ items, (floatKey x.1).isSome) (hnd : (items.map Prod.snd).Nodup) :
    ((cands.foldl (s.queue.offer k) []).map fun e => (e.1, f e.2)).Perm
      ((reversedTies floatKey items).take k) := by
  have hfirst : (cands.take k).foldl (s.queue.offer k) [] = (cands.take k).reverse := by
    rw [Ranking.foldl_offer_of_length_le _ (by
      rw [List.length_nil, List.length_take, Nat.zero_add]
      exact Nat.min_le_left _ _), List.append_nil]
  have hrest : (cands.drop k).foldl (s.queue.offer k) (cands.take k).reverse =
      (cands.take k).reverse := by
    by_cases hk : k ≤ cands.length
    · refine Ranking.foldl_offer_of_not_better ?_ fun x hx y hy => ?_
      · rw [List.length_reverse, List.length_take]
        exact Nat.le_min.mpr ⟨Nat.le_refl k, hk⟩
      · have hsorted := pairwise_reversedTies hnum hnd
        rw [← hcands, List.pairwise_map] at hsorted
        rw [hqueue.better]
        exact (rel_of_take_of_drop hsorted (List.mem_reverse.mp hy) hx).1
    · rw [List.drop_of_length_le (by omega)]
      rfl
  have hkept : cands.foldl (s.queue.offer k) [] = (cands.take k).reverse := by
    rw [← hrest, ← hfirst, ← List.foldl_append, List.take_append_drop]
  rw [hkept, ← hcands, ← List.map_take]
  exact (List.reverse_perm _).map _

/-- Few items are settled. -/
theorem settled_of_length_le {items : List (UInt32 × Bytes)} (h : items.length ≤ k) :
    Settled floatKey k items :=
  fun _ _ => .inr (Nat.le_trans List.countP_le_length h)

/-- **An undecided query**: the same vectors, stored one after the other in another order, and the
    scan returns something else. -/
theorem exists_not_exact (hqueue : s.queue.Orders floatKey) (hall : s.config.sampleSize = 0)
    (hk : 0 < k) (h : Held s.floats.toVectorFloats c vs m) (hd : ¬ s.Decided m k q filter) :
    ∃ actions vs', Held s.floats.toVectorFloats
        (after (respondStores s.floats.toVectorFloats) ({}, {}) actions).1 vs'
        (after (respondMaps s.floats.toVectorFloats) ({}, {}) actions).1 ∧
      SameRows (after (respondMaps s.floats.toVectorFloats) ({}, {}) actions).1 m ∧
      ((after (respondMaps s.floats.toVectorFloats) ({}, {}) actions).1.dimension = 0 ∨
        (after (respondMaps s.floats.toVectorFloats) ({}, {}) actions).1.dimension =
          m.dimension) ∧
      ∀ queryIdx, Excludes queryIdx q vs' → ¬ s.Exact m k q filter (s.flatSearch
        (after (respondStores s.floats.toVectorFloats) ({}, {}) actions).1 k queryIdx filter q.row
          q.norm) := by
  -- the matching vectors by falling score, the greatest id first, then the others
  have hties : (reversedTies floatKey (s.matchingItems m q filter)).Perm
      (s.matchingItems m q filter) := reversedTies_perm
  obtain ⟨first, hfirst, hmap⟩ := exists_perm_map_eq hties
  have hentries : (first ++ m.vectors.entries.filter fun e => !s.wanted q filter e.1).Perm
      m.vectors.entries :=
    (hfirst.append_right _).trans (List.filter_append_perm _ _)
  obtain ⟨actions, vs', hheld, horder, hes, hdim⟩ := exists_layout
    s.floats.toVectorFloats m.dimension _
    ((hentries.map Prod.fst).nodup_iff.mpr m.vectors.nodupKeys) fun e he =>
      h.restorable e.1 e.2.1 e.2.2 (AssocMap.mem_entries.mp (hentries.mem_iff.mp he))
  generalize hm' : (after (respondMaps s.floats.toVectorFloats) ({}, {}) actions).1 = m' at *
  have hsame : SameRows m' m := .of_perm (hes.symm ▸ hentries)
  have hitems : s.matchingItems m' q filter = reversedTies floatKey (s.matchingItems m q filter) := by
    have hwanted : (first.filter fun e => s.wanted q filter e.1) = first :=
      List.filter_eq_self.mpr fun e he => (List.mem_filter.mp (hfirst.mem_iff.mp he)).2
    have hothers : ((m.vectors.entries.filter fun e => !s.wanted q filter e.1).filter
        fun e => s.wanted q filter e.1) = [] :=
      List.filter_eq_nil_iff.mpr fun e he => by simpa using List.of_mem_filter he
    rw [VectorSearch.matchingItems, hes, List.filter_append, hwanted, hothers, List.append_nil]
    exact hmap
  refine ⟨actions, vs', hm' ▸ hheld, hm'.symm ▸ hsame, hm'.symm ▸ hdim, fun queryIdx hq hexact => ?_⟩
  unfold Exact at hexact
  have hnums := hexact.num
  have hnot : ¬ Settled floatKey k (s.matchingItems m q filter) := fun hs => hd ⟨hnums, hs⟩
  have hnum := hnums.resolve_left fun hone => hnot (settled_of_length_le (Nat.le_trans hone hk))
  obtain ⟨found, hfound, heq⟩ := flatSearch_eq
    (after (respondStores s.floats.toVectorFloats) ({}, {}) actions).1 k queryIdx filter q.row
    q.norm hall
  rw [heq, map_ofResult] at hexact
  have hcands := (candidates_inOrder filter hheld horder hq).trans hitems
  have hkept := foldl_offer_reversedTies (k := k) hqueue
    (fun idx => (after (respondStores s.floats.toVectorFloats) ({}, {}) actions).1.idxToId.getD idx
      []) hcands hnum nodup_matchingItems
  exact not_top_of_not_settled hnum nodup_matchingItems hnot
    ((sortItems_perm.trans hfound).trans hkept) hexact

end Exactness

/-! ## 5. The searches -/

section Searches

variable {vs : VectorStore} {topK : Int} {id : Bytes} {row : List UInt32}

theorem validateTopK_pos (hk : s.validateTopK topK = .ok k) : 0 < k := by
  unfold validateTopK at hk
  split at hk
  · cases hk
  · split at hk
    · cases hk
    · cases hk
      omega

/-- A query for a store with a dimension is one for a store without. -/
theorem checkQuery_zero {dimension : Nat} (h : s.checkQuery dimension query topK = .ok k) :
    s.checkQuery 0 query topK = .ok k := by
  unfold checkQuery at h ⊢
  cases hk : s.validateTopK topK with
  | error e => rw [hk] at h; cases h
  | ok k' =>
    simp only [hk] at h ⊢
    rw [if_neg (c := 0 < 0 ∧ query.length ≠ 0) fun hd => absurd hd.1 (Nat.lt_irrefl 0)]
    split at h
    · cases h
    · split at h
      · cases h
      · split at h
        · cases h
        · rename_i hempty hfinite _
          rw [if_neg hempty, if_neg hfinite]
          exact h

theorem candidates_of_empty (hempty : c.idxToId = []) :
    s.candidates c queryIdx filter query queryNorm = [] := by
  unfold candidates
  rw [hempty]
  rfl

/-- An empty snapshot has no slots. -/
theorem idxToId_of_snapshotEmpty (h : Held s.floats.toVectorFloats c vs m)
    (hempty : snapshotEmpty c = true) : c.idxToId = [] := by
  unfold snapshotEmpty at hempty
  cases Bool.or_eq_true_iff.mp hempty with
  | inr hids => exact of_decide_eq_true hids
  | inl hmatrix =>
    have hlen := h.toRefinesBy.consistent.matrix
    rw [of_decide_eq_true hmatrix, List.length_nil, eq_comm, Nat.mul_eq_zero] at hlen
    cases hlen with
    | inl hids => exact List.length_eq_zero_iff.mp hids
    | inr hdim =>
      rw [h.represents.idxToId, h.slots (h.represents.dimension ▸ hdim)]
      rfl

theorem flatSearch_of_empty (hall : s.config.sampleSize = 0) (hempty : c.idxToId = []) :
    s.flatSearch c k queryIdx filter query queryNorm = [] := by
  obtain ⟨found, hfound, heq⟩ := flatSearch_eq c k queryIdx filter query queryNorm hall
  rw [candidates_of_empty hempty, List.foldl_nil, List.map_nil] at hfound
  rw [heq, List.perm_nil.mp hfound, sortItems, List.mergeSort_nil, List.map_nil]

variable [AnnSearch A]

/-- Without an index `SearchByVector` scans. -/
theorem searchByVector_eq (hflat : s.engine.annIndex = none) (hall : s.config.sampleSize = 0)
    (h : Held s.floats.toVectorFloats c vs m) (fuel : Nat)
    (hcheck : s.checkQuery c.dimension query topK = .ok k) :
    s.searchByVector fuel c query topK filter =
      some (.ok (s.flatSearch c k none filter query (s.floats.l2Norm query))) := by
  simp only [searchByVector, askIndex, hcheck, hflat]
  split
  · rename_i hempty
    rw [flatSearch_of_empty hall (idxToId_of_snapshotEmpty h hempty)]
  · rfl

variable (filter) in
/-- So does `SearchByIdVectors`, from the row of the item. -/
theorem searchByIdVectors_eq (hflat : s.engine.annIndex = none)
    (h : Held s.floats.toVectorFloats c vs m) (fuel : Nat) (hk : s.validateTopK topK = .ok k)
    (hrow : (m.vectors.find? id).map Prod.fst = some row) :
    ∃ idx, Excludes (some idx) ⟨row, s.floats.l2Norm row, some id⟩ vs ∧
      s.searchByIdVectors fuel c id topK filter =
        some (.ok (s.flatSearch c k (some idx) filter row (s.floats.l2Norm row))) := by
  have hr := h.represents
  rw [h.vectors, Option.map_map, Option.map_eq_some_iff] at hrow
  obtain ⟨e, hslot, hrow⟩ := hrow
  have hrow : e.row = row := hrow
  obtain ⟨idx, hfind, he⟩ := Option.bind_eq_some_iff.mp hslot
  obtain ⟨e', he', hdel, hid⟩ := (h.inv.live id idx).mp hfind
  rw [he, Option.some.injEq] at he'
  subst he'
  have hmem : e ∈ vs.slots := List.mem_of_getElem? he
  have hfull : snapshotEmpty c ≠ true := by
    intro hempty
    have hids := idxToId_of_snapshotEmpty h hempty
    rw [hr.idxToId, List.map_eq_nil_iff] at hids
    rw [hids] at hmem
    cases hmem
  have hnorm : c.norms.getD idx 0 = s.floats.l2Norm row := by
    rw [hr.norms, List.getD_eq_getElem?_getD, List.getElem?_map, he, ← hrow]
    exact h.norms e hmem
  have hcfind : c.idToIdx.find? id = some idx := by rw [hr.idToIdx, hfind]
  refine ⟨idx, fun j e' he' hdel' => ?_, ?_⟩
  · constructor
    · intro hj
      cases hj
      rw [he, Option.some.injEq] at he'
      rw [← he', hid]
    · intro hj
      have hj' := (h.inv.live id j).mpr ⟨e', he', hdel', (Option.some.inj hj).symm⟩
      rw [hfind] at hj'
      exact hj'
  · simp only [searchByIdVectors, askIndex, hk, if_neg hfull, hcfind, hflat, hr.rowAt_matrix he,
      hrow, hnorm]

/-- **After every run that leaves these vectors** the search, if it accepts the query, returns what
    is promised. -/
def AlwaysExact (s : VectorSearch A) (m : MapStore) (k : Nat) (q : Query)
    (filter : MetadataFilter) (accepts : CompactStore → Prop)
    (search : CompactStore → Option (Except Error (List SimilarityResult))) : Prop :=
  ∀ actions : List StoreAction,
    SameRows (after (respondMaps s.floats.toVectorFloats) ({}, {}) actions).1 m →
    accepts (after (respondStores s.floats.toVectorFloats) ({}, {}) actions).1 →
    ∃ results, search (after (respondStores s.floats.toVectorFloats) ({}, {}) actions).1 =
      some (.ok results) ∧ s.Exact m k q filter results

omit [AnnSearch A] in
theorem Decided.of_sameRows (h : s.Decided m k q filter) (hsame : SameRows m' m) :
    s.Decided m' k q filter := by
  have hperm : (s.matchingItems m' q filter).Perm (s.matchingItems m q filter) :=
    hsame.matchingItems
  refine ⟨?_, h.2.perm hperm⟩
  rw [hperm.length_eq]
  exact h.1.imp_right fun hnum x hx => hnum x (hperm.mem_iff.mp hx)

omit [AnnSearch A] in
theorem Exact.of_sameRows {results : List SimilarityResult} (h : s.Exact m k q filter results)
    (hsame : SameRows m' m) : s.Exact m' k q filter results :=
  Top.perm_left h hsame.matchingItems

variable (s) in
/-- **The flat search is exact for every history of the store exactly when the query is decided**:
    the scores of several matching items are numbers, and no group of matching items with one
    score lies across the cut. -/
theorem flat_search_exact_iff (hqueue : s.queue.Orders floatKey)
    (hflat : s.engine.annIndex = none) (hall : s.config.sampleSize = 0) (fuel : Nat)
    (actions : List StoreAction) (filter : MetadataFilter) {topK : Int} {k : Nat}
    (hk : s.validateTopK topK = .ok k) :
    (∀ query, s.checkQuery
        (after (respondMaps s.floats.toVectorFloats) ({}, {}) actions).1.dimension query topK =
          .ok k →
      (s.AlwaysExact (after (respondMaps s.floats.toVectorFloats) ({}, {}) actions).1 k
          ⟨query, s.floats.l2Norm query, none⟩ filter
          (fun c => s.checkQuery c.dimension query topK = .ok k)
          (fun c => s.searchByVector fuel c query topK filter) ↔
        s.Decided (after (respondMaps s.floats.toVectorFloats) ({}, {}) actions).1 k
          ⟨query, s.floats.l2Norm query, none⟩ filter)) ∧
    ∀ id row mark, (after (respondMaps s.floats.toVectorFloats) ({}, {}) actions).1.vectors.find?
        id = some (row, mark) →
      (s.AlwaysExact (after (respondMaps s.floats.toVectorFloats) ({}, {}) actions).1 k
          ⟨row, s.floats.l2Norm row, some id⟩ filter (fun _ => True)
          (fun c => s.searchByIdVectors fuel c id topK filter) ↔
        s.Decided (after (respondMaps s.floats.toVectorFloats) ({}, {}) actions).1 k
          ⟨row, s.floats.l2Norm row, some id⟩ filter) := by
  obtain ⟨vs, hheld⟩ := held_after s.floats.toVectorFloats actions
  generalize (after (respondMaps s.floats.toVectorFloats) ({}, {}) actions).1 = m at *
  have hpos := validateTopK_pos hk
  constructor
  · intro query hcheck
    constructor
    · intro hexact
      by_contra hd
      obtain ⟨actions', vs', hheld', hsame, hdim, hnot⟩ :=
        exists_not_exact hqueue hall hpos hheld hd
      have haccepts : s.checkQuery
          (after (respondStores s.floats.toVectorFloats) ({}, {}) actions').1.dimension query topK =
            .ok k := by
        rw [hheld'.represents.dimension, ← hheld'.dimension]
        cases hdim with
        | inl h0 => rw [h0]; exact checkQuery_zero hcheck
        | inr hdim => rw [hdim]; exact hcheck
      obtain ⟨results, hresults, hexact⟩ := hexact actions' hsame haccepts
      have heq := (searchByVector_eq hflat hall hheld' fuel haccepts).symm.trans hresults
      obtain rfl := Except.ok.inj (Option.some.inj heq)
      exact hnot none (excludes_none query _ vs') hexact
    · intro hd actions' hsame haccepts
      obtain ⟨vs', hheld'⟩ := held_after s.floats.toVectorFloats actions'
      refine ⟨_, searchByVector_eq hflat hall hheld' fuel haccepts, ?_⟩
      exact ((hd.of_sameRows hsame).exact hqueue hall hpos hheld'
        (excludes_none query _ vs')).of_sameRows fun id => (hsame id).symm
  · intro id row mark hfind
    have hrow : (m.vectors.find? id).map Prod.fst = some row := by rw [hfind]; rfl
    constructor
    · intro hexact
      by_contra hd
      obtain ⟨actions', vs', hheld', hsame, -, hnot⟩ :=
        exists_not_exact hqueue hall hpos hheld hd
      obtain ⟨results, hresults, hexact⟩ := hexact actions' hsame trivial
      obtain ⟨idx, hexcl, heq⟩ :=
        searchByIdVectors_eq filter hflat hheld' fuel hk ((hsame id).trans hrow)
      obtain rfl := Except.ok.inj (Option.some.inj (heq.symm.trans hresults))
      exact hnot (some idx) hexcl hexact
    · intro hd actions' hsame _
      obtain ⟨vs', hheld'⟩ := held_after s.floats.toVectorFloats actions'
      obtain ⟨idx, hexcl, heq⟩ :=
        searchByIdVectors_eq filter hflat hheld' fuel hk ((hsame id).trans hrow)
      refine ⟨_, heq, ?_⟩
      exact ((hd.of_sameRows hsame).exact hqueue hall hpos hheld' hexcl).of_sameRows
        fun id => (hsame id).symm

end Searches

end VectorSearch

/-! ## 6. Two histories -/

/-- No index. -/
instance : AnnSearch Empty where
  add := nofun
  markDeleted := nofun
  rebuild := nofun
  isTrained := nofun
  needsSeal := nofun
  setNlist := nofun
  finish := nofun
  size := nofun
  search := nofun

/-- The operations on vectors that are all `[1.0]`. -/
def unitFloats : SearchFloats where
  l2Norm _ := 0x3F800000
  tiny _ := false
  divide _ _ := 0x3F800000
  cosineSimilarityPreNorm _ _ _ _ := 0x3F800000
  dotProduct _ _ := 0x3F800000
  l2Similarity _ _ := 0x3F800000

def unitSearch : VectorSearch Empty where
  config := {}
  floats := unitFloats
  queue := Ranking.byKey floatKey
  rng := fun i => i
  metadataStore := none
  engine := { config := { indexType := .flat }, annIndex := none }

/-- Three equal vectors, stored in the order of these ids. -/
def stored (ids : List Bytes) : List StoreAction :=
  ids.map fun id => .this (.setVector id [0x3F800000] false)

def storeAfter (ids : List Bytes) : CompactStore :=
  (after (respondStores unitFloats.toVectorFloats) ({}, {}) (stored ids)).1

def mapAfter (ids : List Bytes) : MapStore :=
  (after (respondMaps unitFloats.toVectorFloats) ({}, {}) (stored ids)).1

/-- The ids of a result. -/
def foundIds (results : Option (Except Error (List SimilarityResult))) : Option (List Bytes) :=
  match results with
  | some (.ok results) => some (results.map (·.itemId))
  | _ => none

/-- The same three vectors, stored in two orders: the one result of a search by vector, and of one
    by the id `99`, is the item that was stored first. The second time that is not the first of the
    order. -/
theorem flat_search_depends_on_slots :
    VectorSearch.SameRows (mapAfter [[98], [97], [99]]) (mapAfter [[97], [98], [99]]) ∧
      foundIds (unitSearch.searchByVector 0 (storeAfter [[97], [98], [99]]) [0x3F800000] 1 []) =
        some [[97]] ∧
      foundIds (unitSearch.searchByVector 0 (storeAfter [[98], [97], [99]]) [0x3F800000] 1 []) =
        some [[98]] ∧
      foundIds (unitSearch.searchByIdVectors 0 (storeAfter [[97], [98], [99]]) [99] 1 []) =
        some [[97]] ∧
      foundIds (unitSearch.searchByIdVectors 0 (storeAfter [[98], [97], [99]]) [99] 1 []) =
        some [[98]] ∧
      (∀ results, unitSearch.searchByVector 0 (storeAfter [[98], [97], [99]]) [0x3F800000] 1 [] =
          some (.ok results) →
        ¬ unitSearch.Exact (mapAfter [[98], [97], [99]]) 1 ⟨[0x3F800000], 0x3F800000, none⟩ []
          results) ∧
      ∀ results, unitSearch.searchByIdVectors 0 (storeAfter [[98], [97], [99]]) [99] 1 [] =
          some (.ok results) →
        ¬ unitSearch.Exact (mapAfter [[98], [97], [99]]) 1
          ⟨[0x3F800000], 0x3F800000, some [99]⟩ [] results := by
  have hvector : foundIds (unitSearch.searchByVector 0 (storeAfter [[98], [97], [99]]) [0x3F800000]
      1 []) = some [[98]] := by decide +kernel
  have hid : foundIds (unitSearch.searchByIdVectors 0 (storeAfter [[98], [97], [99]]) [99] 1 []) =
      some [[98]] := by decide +kernel
  -- whatever the query leaves out, the first of the order is `97`
  have hfirst : ∀ exclude, exclude = none ∨ exclude = some [99] → ∀ results : List SimilarityResult,
      results.map (·.itemId) = [[98]] →
      ¬ unitSearch.Exact (mapAfter [[98], [97], [99]]) 1 ⟨[0x3F800000], 0x3F800000, exclude⟩ []
        results := by
    intro exclude hexclude results hresults hexact
    have htop : unitSearch.Exact (mapAfter [[98], [97], [99]]) 1
        ⟨[0x3F800000], 0x3F800000, exclude⟩ [] [⟨[97], 0x3F800000⟩] := by
      cases hexclude with
      | inl hnone =>
        subst hnone
        exact ⟨[(0x3F800000, [97]), (0x3F800000, [98]), (0x3F800000, [99])], by decide +kernel,
          by decide +kernel, rfl⟩
      | inr hsome =>
        subst hsome
        exact ⟨[(0x3F800000, [97]), (0x3F800000, [98])], by decide +kernel, by decide +kernel, rfl⟩
    have heq := congrArg (List.map Prod.snd) (Top.unique htop hexact)
    have hmap : (results.map ofResult).map Prod.snd = results.map (·.itemId) := by
      rw [List.map_map]
      rfl
    rw [hmap, hresults] at heq
    exact absurd heq (by decide)
  refine ⟨.of_perm (by decide +kernel), by decide +kernel, hvector, by decide +kernel, hid,
    fun results hresults => hfirst none (.inl rfl) results ?_,
    fun results hresults => hfirst (some [99]) (.inr rfl) results ?_⟩
  · rw [hresults] at hvector
    exact Option.some.inj hvector
  · rw [hresults] at hid
    exact Option.some.inj hid

/-- With room for all three, and with room for the two that are not asked for, the order does not
    matter. -/
theorem flat_search_exact_iff_three :
    (unitSearch.AlwaysExact (mapAfter [[97], [98], [99]]) 3 ⟨[0x3F800000], 0x3F800000, none⟩ []
        (fun c => unitSearch.checkQuery c.dimension [0x3F800000] 3 = .ok 3)
        (fun c => unitSearch.searchByVector 0 c [0x3F800000] 3 [])) ∧
      unitSearch.AlwaysExact (mapAfter [[97], [98], [99]]) 3
        ⟨[0x3F800000], 0x3F800000, some [99]⟩ [] (fun _ => True)
        (fun c => unitSearch.searchByIdVectors 0 c [99] 3 []) := by
  obtain ⟨hvector, hid⟩ := unitSearch.flat_search_exact_iff (Ranking.byKey_orders _) rfl rfl 0
    (stored [[97], [98], [99]]) [] (show unitSearch.validateTopK 3 = .ok 3 by decide)
  refine ⟨(hvector [0x3F800000] (by decide +kernel)).mpr ?_,
    (hid [99] [0x3F800000] false (by decide +kernel)).mpr ?_⟩
  · unfold VectorSearch.Decided Settled
    decide +kernel
  · unfold VectorSearch.Decided Settled
    decide +kernel

end Nvecd.Similarity
