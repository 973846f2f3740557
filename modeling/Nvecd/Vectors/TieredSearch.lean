/-
  File:      Nvecd/Vectors/TieredSearch.lean
  Subject:   `TieredVectorStore::Search`: the best of both tiers.

  The main tier asks its index for twice as many as are wanted and as are given up, and for twice
  as many again while too few are left of the answer; the size is a `uint32_t`. The delta tier is
  scanned. The merge of the two takes `-1e30F` for the score of a tier that is used up. A search
  answers `none` when it is not done within its rounds or leaves an array.

  * `collect`, `fetchLoop`, `searchMain`, `scan`, `searchDelta`, `mergeResults`, `search`;
  * `NoWrap`, `Serves` -- what a search promises;
  * `FetchFits`, `Numbers`, `RunsPast` -- what the promise takes;
  * `MainResults`, `Scans` -- what the tiers give;
  * `Inv.serves_of_fits`, `Inv.fits_of_serves`, `tiered_search_iff`.
-/
import Nvecd.Lib.Machine
import Nvecd.Lib.Merge
import Nvecd.Lib.TopK
import Nvecd.Vectors.HnswCount
import Nvecd.Vectors.TieredStore

namespace Nvecd.Vectors

open Nvecd.Lib Nvecd.Storage Nvecd.Utils

/-! ## 1. The search -/

/-- `TieredSearchResult`. -/
abbrev TieredResult (F : Type) := Bytes × F

/-- `kOversampleFactor`. -/
def kOversampleFactor : Nat := 2

namespace TieredVectorStore

section Merging

variable {F K : Type} [LinearOrder K] (key : F → Option K) (sentinel : F)

/-- `a >= b` of two numbers. -/
def notWorse (a b : F) : Bool := (key a).any fun x => (key b).any fun y => decide (y ≤ x)

/-- The score of the next result, or the mark. -/
def scoreOr (r : Option (TieredResult F)) : F := (r.map Prod.snd).getD sentinel

/-- `MergeResults`. -/
def mergeResults (topK : Nat) (mainResults deltaResults : List (TieredResult F)) :
    Option (List (TieredResult F)) :=
  mergeTop (fun x y => notWorse key (scoreOr sentinel x) (scoreOr sentinel y)) topK mainResults
    deltaResults

end Merging

variable {F : Type} (fl : HnswMetric F) (s : TieredVectorStore F)

/-- The id of a slot of the main tier. -/
def idAt (i : Nat) : Bytes := ((s.main.slots[i]?).map TierSlot.id).getD []

/-- The vector of a slot of the main tier. -/
def rowAt (i : Nat) : List F := ((s.main.slots[i]?).map TierSlot.row).getD []

/-- The answer of the index without the slots that are given up, at most `want` (but one at
    least). -/
def collect (want : Nat) : List (Nat × F) → List (TieredResult F) → Option (List (TieredResult F))
  | [], results => some results
  | (idx, score) :: rest, results =>
    if idx ∈ s.main.deleted then collect want rest results
    else
      match s.main.slots[idx]? with
      | none => none
      | some slot =>
        let results := results ++ [(slot.id, score)]
        if want ≤ results.length then some results else collect want rest results

/-- The rounds of `SearchMain`, each with twice the size of the last. -/
def fetchLoop (g : HnswIndex F) (query : List F) (want : Nat) :
    Nat → Nat → Option (List (TieredResult F))
  | 0, _ => none
  | fuel + 1, fetchK =>
    match g.search fl query fetchK with
    | none => none
    | some annResults =>
      match s.collect want annResults [] with
      | none => none
      | some results =>
        if want ≤ results.length ∨ s.main.totalSlots ≤ fetchK ∨ annResults.length < fetchK then
          some results
        else fetchLoop g query want fuel (fetchK * 2 % 2 ^ 32)

/-- The best `topK` of `n` slots, by a queue that holds the best so far. -/
def scan (query : List F) (topK n : Nat) (slotOf : Nat → Option (TierSlot F)) :
    List (TieredResult F) :=
  let scored := (List.range n).filterMap fun i =>
    (slotOf i).map fun slot => (fl.distanceFunc query slot.row, i)
  let heap := scored.foldl (fl.ranking.offer topK) []
  (fl.ranking.drain heap.length heap).reverse.map fun x =>
    (((slotOf x.2).map TierSlot.id).getD [], x.1)

/-- How many results the main tier can give. -/
def wanted (topK : Nat) : Nat := min topK (s.main.activeSize % 2 ^ 32)

/-- The size of the first round. -/
def firstFetchK (topK : Nat) : Nat :=
  (topK + s.main.deleted.card % 2 ^ 32) % 2 ^ 32 * kOversampleFactor % 2 ^ 32

/-- `SearchMain`. -/
def searchMain (fuel : Nat) (query : List F) (topK : Nat) : Option (List (TieredResult F)) :=
  if s.main.activeSize = 0 then some []
  else
    match s.main.index with
    | some g => s.fetchLoop fl g query (s.wanted topK) fuel (s.firstFetchK topK)
    | none => some (scan fl query topK s.main.slots.length s.main.liveSlot)

/-- `SearchDelta`. -/
def searchDelta (query : List F) (topK : Nat) : List (TieredResult F) :=
  if s.delta = [] then [] else scan fl query topK s.delta.length fun i => s.delta[i]?

variable {K : Type} [LinearOrder K] (key : F → Option K) (sentinel : F)

/-- `Search`. -/
def search (fuel : Nat) (query : List F) (topK : Nat) : Option (List (TieredResult F)) :=
  if s.dimension = 0 ∨ topK = 0 then some []
  else
    match s.searchMain fl fuel query topK with
    | none => none
    | some mainResults => mergeResults key sentinel topK mainResults (s.searchDelta fl query topK)

/-! ## 2. What it promises -/

/-- The size of the first round, were it not a `uint32_t`. -/
def fetchSize (topK : Nat) : Nat := (topK + s.main.deleted.card) * kOversampleFactor

/-- A round of this size is not the last. -/
def GoesOn (g : HnswIndex F) (query : List F) (want fetchK : Nat) : Prop :=
  ∃ annResults results, g.search fl query fetchK = some annResults ∧
    s.collect want annResults [] = some results ∧
      ¬ (want ≤ results.length ∨ s.main.totalSlots ≤ fetchK ∨ annResults.length < fetchK)

/-- **No size wraps around**: all sizes up to that of the last round are numbers of 32 bits. -/
def NoWrap (query : List F) (topK : Nat) : Prop :=
  topK ≠ 0 → s.main.activeSize ≠ 0 → ∀ g, s.main.index = some g → ∀ j,
    (∀ i < j, s.GoesOn fl g query (s.wanted topK) (s.fetchSize topK * 2 ^ i)) →
      s.fetchSize topK * 2 ^ j < 2 ^ 32

/-- The scores are numbers, the best first. -/
def InOrder (key : F → Option K) (results : List (TieredResult F)) : Prop :=
  ∃ scores : List K, results.map (fun r => key r.2) = scores.map some ∧ Descending scores

/-- **What a search promises**: no size wraps around, it ends, and it has as many results as there
    are or are asked for, the best first. -/
structure Serves (query : List F) (topK : Nat) : Prop where
  noWrap : s.NoWrap fl query topK
  answers : ∃ fuel results, s.search fl key sentinel fuel query topK = some results ∧
    results.length = min topK s.totalSize ∧ InOrder key results

/-- The index can return every slot of the main tier that is not given up. -/
def Returnable (query : List F) : Prop :=
  ∀ g, s.main.index = some g → ∀ cur, g.landing fl query = some cur →
    ∀ i slot, s.main.liveSlot i = some slot → ∀ id, g.LiveNode i id → Reaches g.layer0 cur id

/-! ## 3. What the promise takes -/

/-- The slots of the main tier that are not given up. -/
def liveIndices (main : MainStore F) : List Nat :=
  (List.range main.slots.length).filter fun i => i ∉ main.deleted

/-- Their scores. -/
def mainScores (query : List F) : List F :=
  (liveIndices s.main).map fun i => fl.scoreOf query (s.rowAt i)

/-- The scores of the delta tier. -/
def deltaScores (query : List F) : List F :=
  s.delta.map fun slot => fl.distanceFunc query slot.row

/-- The scores of the query are numbers. -/
structure Numbers (query : List F) : Prop where
  delta : ∀ slot ∈ s.delta, (key (fl.distanceFunc query slot.row)).isSome
  main : ∀ i ∈ liveIndices s.main, (key (fl.scoreOf query (s.rowAt i))).isSome

/-- **When the first size fits** into 32 bits, if the index is asked at all. -/
def FetchFits (topK : Nat) : Prop :=
  topK ≠ 0 → s.main.activeSize ≠ 0 → (topK + s.main.deleted.card) * kOversampleFactor < 2 ^ 32

/-- The main tier has no more than are asked for, or the first round is as wide as the index has
    nodes. -/
def SeesAll (topK : Nat) : Prop :=
  s.main.activeSize ≤ topK ∨
    ∀ g, s.main.index = some g → g.nodes.length ≤ max g.config.efSearch (s.fetchSize topK)

/-- **Where the merge leaves an array**: one tier is used up while the next score of the other one
    is at most, or below, the mark. An index that does not look at all its nodes may give the low
    score first. -/
def RunsPast (mark : K) (query : List F) (topK : Nat) : Prop :=
  Overruns mark topK ((s.mainScores fl query).filterMap key)
      ((s.deltaScores fl query).filterMap key) ∨
    ¬ s.SeesAll topK ∧ ∃ x ∈ (s.mainScores fl query).filterMap key, x < mark ∧
      (∀ y ∈ (s.deltaScores fl query).filterMap key, x < y) ∧ s.delta.length < topK

/-- **What the promise takes.** -/
structure Fits (mark : K) (query : List F) (topK : Nat) : Prop where
  numbers : s.Numbers fl key query
  fetch : s.FetchFits topK
  merge : ¬ s.RunsPast fl key mark query topK

variable {fl s key sentinel} {mark : K} {query : List F} {topK : Nat}

/-! ## 4. One round -/

/-- Of an answer, what is not given up, as results. -/
def liveOf (s : TieredVectorStore F) (annResults : List (Nat × F)) : List (TieredResult F) :=
  (annResults.filter fun r => r.1 ∉ s.main.deleted).map fun r => (s.idAt r.1, r.2)

/-- **Collecting** takes the first that are not given up. -/
theorem collect_eq {want : Nat} {annResults : List (Nat × F)} {results : List (TieredResult F)}
    (hin : ∀ r ∈ annResults, r.1 ∉ s.main.deleted → r.1 < s.main.slots.length)
    (h : results.length < want) :
    s.collect want annResults results =
      some (results ++ (s.liveOf annResults).take (want - results.length)) := by
  induction annResults generalizing results with
  | nil => simp [collect, liveOf]
  | cons r rest ih =>
    obtain ⟨idx, score⟩ := r
    have hrest : ∀ r ∈ rest, r.1 ∉ s.main.deleted → r.1 < s.main.slots.length := fun r hr =>
      hin r (List.mem_cons_of_mem _ hr)
    unfold collect
    split
    · rename_i hdel
      have hof : s.liveOf ((idx, score) :: rest) = s.liveOf rest := by simp [liveOf, hdel]
      rw [hof]
      exact ih hrest h
    · rename_i hkept
      have hlt := hin (idx, score) List.mem_cons_self hkept
      have hget : s.main.slots[idx]? = some s.main.slots[idx] := List.getElem?_eq_getElem hlt
      have hid : s.idAt idx = s.main.slots[idx].id := by rw [idAt, hget]; rfl
      have hof : s.liveOf ((idx, score) :: rest) = (s.idAt idx, score) :: s.liveOf rest := by
        simp [liveOf, hkept]
      obtain ⟨left, hleft⟩ : ∃ left, want - results.length = left + 1 :=
        ⟨want - results.length - 1, by omega⟩
      have hlen : (results ++ [(s.main.slots[idx].id, score)]).length = results.length + 1 := by
        rw [List.length_append, List.length_singleton]
      rw [hget, hof, hleft, List.take_succ_cons, hid]
      dsimp only
      rw [hlen]
      split
      · have hzero : left = 0 := by omega
        rw [hzero, List.take_zero]
      · rw [ih hrest (by omega), hlen, List.append_assoc]
        have hnext : want - (results.length + 1) = left := by omega
        rw [hnext]
        rfl

theorem mem_liveIndices {main : MainStore F} {i : Nat} :
    i ∈ liveIndices main ↔ ∃ slot, main.liveSlot i = some slot := by
  unfold liveIndices MainStore.liveSlot
  rw [List.mem_filter, List.mem_range, decide_eq_true_eq]
  constructor
  · rintro ⟨hlt, hkept⟩
    exact ⟨main.slots[i], by rw [if_neg hkept, List.getElem?_eq_getElem hlt]⟩
  · rintro ⟨slot, hslot⟩
    split at hslot
    · cases hslot
    · rename_i hkept
      exact ⟨(List.getElem?_eq_some_iff.mp hslot).1, hkept⟩

theorem length_liveIndices {main : MainStore F}
    (h : ∀ i ∈ main.deleted, i < main.slots.length) :
    (liveIndices main).length = main.activeSize := by
  have hsub : main.deleted ⊆ Finset.range main.slots.length := fun i hi =>
    Finset.mem_range.mpr (h i hi)
  have hcard := Finset.card_sdiff_add_card_eq_card hsub
  have hlist : (liveIndices main).toFinset = Finset.range main.slots.length \ main.deleted := by
    ext i
    simp [liveIndices]
  have hnodup : (liveIndices main).Nodup := List.nodup_range.filter _
  have hlen := List.toFinset_card_of_nodup hnodup
  rw [hlist] at hlen
  rw [Finset.card_range] at hcard
  unfold MainStore.activeSize
  omega

/-- What the first round finds, were its size not a `uint32_t`. -/
def mainFound (fl : HnswMetric F) (s : TieredVectorStore F) (query : List F) (topK : Nat) :
    List (TieredResult F) :=
  match s.main.index with
  | none => []
  | some g =>
    (s.liveOf ((g.search fl query (s.fetchSize topK)).getD [])).take (min topK s.main.activeSize)

/-- A live node of the index is a slot's, with its vector. -/
theorem Indexed.slot_of_live {dimension : Nat} {main : MainStore F} {g : HnswIndex F}
    (h : Indexed fl dimension main (some g)) {i id : Nat} (hlive : g.LiveNode i id) :
    ∃ slot, main.slots[i]? = some slot ∧ g.getNodeVector id = slot.row := by
  cases h with
  | built inv normed dim held covers =>
    rename_i live
    cases hv : live i with
    | none => exact absurd hlive (inv.structure.dead i hv id)
    | some v =>
      obtain ⟨slot, hslot, hrow⟩ := held i v hv
      obtain ⟨id', -, hvector, hall⟩ := inv.structure.live i v hv
      exact ⟨slot, hslot, by rw [(hall id).mp hlive, hvector, hrow]⟩

/-- A slot that is not given up has its node. -/
theorem Indexed.live_of_slot {dimension : Nat} {main : MainStore F} {g : HnswIndex F}
    (h : Indexed fl dimension main (some g)) {i : Nat} {slot : TierSlot F}
    (hslot : main.liveSlot i = some slot) : ∃ id, g.LiveNode i id := by
  cases h with
  | built inv normed dim held covers =>
    obtain ⟨id, -, -, hall⟩ := inv.structure.live i _ (covers i slot hslot)
    exact ⟨id, (hall id).mpr rfl⟩

/-- A live node of the index is a slot's, and its score is that of the slot's vector. -/
theorem Inv.score_of_live (h : s.Inv fl) {g : HnswIndex F} (hg : s.main.index = some g)
    {i id : Nat} (hlive : g.LiveNode i id) :
    i < s.main.slots.length ∧ g.computeDistance fl query (HnswIndex.queryNormOf fl query) id =
      fl.scoreOf query (s.rowAt i) := by
  have hindexed := h.indexed
  rw [hg] at hindexed
  obtain ⟨slot, hslot, hvector⟩ := hindexed.slot_of_live hlive
  have hrow : s.rowAt i = slot.row := by rw [rowAt, hslot]; rfl
  have hnormed : g.Normed fl := by
    cases hindexed with
    | built _ normed => exact normed
  obtain ⟨node, hnode, -⟩ := hlive
  refine ⟨(List.getElem?_eq_some_iff.mp hslot).1, ?_⟩
  rw [hnormed.computeDistance_eq (List.getElem?_eq_some_iff.mp hnode).1, hvector, hrow]

/-- At most as many are given up as are marked. -/
theorem length_filter_deleted_le (deleted : Finset Nat) {annResults : List (Nat × F)}
    (h : (annResults.map Prod.fst).Nodup) :
    annResults.length ≤ (annResults.filter fun r => r.1 ∉ deleted).length + deleted.card := by
  have hsplit := List.length_eq_length_filter_add (l := annResults) fun r => r.1 ∉ deleted
  have hnodup : ((annResults.filter fun r => !decide (r.1 ∉ deleted)).map Prod.fst).Nodup :=
    h.sublist (List.filter_sublist.map _)
  have hcard := List.toFinset_card_of_nodup hnodup
  have hle := Finset.card_le_card (s := ((annResults.filter fun r =>
    !decide (r.1 ∉ deleted)).map Prod.fst).toFinset) (t := deleted) fun i hi => by
      obtain ⟨r, hr, rfl⟩ := List.mem_map.mp (List.mem_toFinset.mp hi)
      simpa using (List.mem_filter.mp hr).2
  rw [List.length_map] at hcard
  omega

/-- **What a round finds**: different slots, those that are not given up with their scores, the
    best first and as many as are wanted; and if it is as wide as the index has nodes, no slot that
    it leaves out is better than one it has found. -/
structure Round (fl : HnswMetric F) (s : TieredVectorStore F) (g : HnswIndex F) (query : List F)
    (topK : Nat) (annResults : List (Nat × F)) : Prop where
  distinct : (annResults.map Prod.fst).Nodup
  slots : ∀ r ∈ annResults, r.1 < s.main.slots.length ∧ r.2 = fl.scoreOf query (s.rowAt r.1)
  sorted : annResults.Pairwise fun r r' => fl.ranking.better r'.2 r.2 = false
  enough : min topK s.main.activeSize ≤ (s.liveOf annResults).length
  best : g.nodes.length ≤ max g.config.efSearch (s.fetchSize topK) →
    ∀ i ∈ liveIndices s.main, i ∈ annResults.map Prod.fst ∨
      ∀ r ∈ annResults, fl.ranking.better (fl.scoreOf query (s.rowAt i)) r.2 = false

/-- **A round of the size `2 * (topK + deleted)`** has all that is wanted: either the answer is as
    long and less than half of it is given up, or it is all that the index has. -/
theorem Inv.round (h : s.Inv fl) (hsorts : fl.ranking.Sorts) (hreturn : s.Returnable fl query)
    (hk : 0 < topK) (hactive : s.main.activeSize ≠ 0) {g : HnswIndex F}
    (hg : s.main.index = some g) :
    ∃ annResults, g.search fl query (s.fetchSize topK) = some annResults ∧
      s.Round fl g query topK annResults := by
  have hindexed := h.indexed
  rw [hg] at hindexed
  have hsize : s.fetchSize topK = 2 * (topK + s.main.deleted.card) := Nat.mul_comm _ _
  obtain ⟨live, hinv⟩ : ∃ live, g.Inv live := by
    cases hindexed with
    | built inv => exact ⟨_, inv⟩
  have hsome : ∃ i slot, s.main.liveSlot i = some slot := by
    by_contra hnone
    push Not at hnone
    exact hactive ((activeSize_eq_zero s.main h.tombs).mpr fun i =>
      Option.eq_none_iff_forall_ne_some.mpr (hnone i))
  have hpos : 0 < s.fetchSize topK := by omega
  rcases hinv.search_spec query hsorts hpos with
    ⟨-, hzero, -⟩ | ⟨cur, annResults, hcur, hlayer, hsearch, hfinds⟩
  · -- there is a live node
    obtain ⟨i, slot, hi⟩ := hsome
    obtain ⟨id, node, hnode, hdel, -⟩ := hindexed.live_of_slot hi
    rw [hinv.directory.active, List.countP_eq_zero] at hzero
    exact absurd (by simp [hdel]) (hzero node (List.mem_of_getElem? hnode))
  · -- the node of a slot that is not given up
    have hnodeOf : ∀ i ∈ liveIndices s.main, ∃ id, g.LiveNode i id ∧ g.isLive id = true ∧
        Reaches g.layer0 cur id ∧ g.compactOf id = i := by
      intro i hi
      obtain ⟨slot, hslot⟩ := mem_liveIndices.1 hi
      obtain ⟨id, hid⟩ := hindexed.live_of_slot hslot
      have hreach := hreturn g hg cur hcur i slot hslot id hid
      obtain ⟨node, hnode, hdel, hc⟩ := hid
      exact ⟨id, ⟨node, hnode, hdel, hc⟩, HnswIndex.isLive_iff.mpr ⟨node, hnode, hdel⟩, hreach,
        by rw [HnswIndex.compactOf, hnode]; exact hc⟩
    refine ⟨annResults, hsearch, hfinds.distinct, fun r hr => ?_, hfinds.sorted, ?_,
      fun hwide i hi => ?_⟩
    · obtain ⟨id, hid, -, hscore⟩ := hfinds.live r hr
      obtain ⟨hlt, heq⟩ := h.score_of_live hg hid
      exact ⟨hlt, hscore.trans heq⟩
    · rw [liveOf, List.length_map]
      have hlength := hfinds.length
      rcases Nat.lt_or_ge (s.fetchSize topK) (g.liveReached cur).length with hmore | hall
      · have hle := length_filter_deleted_le s.main.deleted hfinds.distinct
        rw [hlength, hsize] at hle
        omega
      · -- the answer has every slot that is not given up
        have hsub : liveIndices s.main ⊆
            (annResults.filter fun r => r.1 ∉ s.main.deleted).map Prod.fst := by
          intro i hi
          obtain ⟨id, -, hlive, hreach, hc⟩ := hnodeOf i hi
          have hmem : i ∈ annResults.map Prod.fst :=
            hc ▸ hfinds.mem_of_reached hall (HnswIndex.mem_liveReached.mpr ⟨hlive, hreach⟩)
          obtain ⟨r, hr, rfl⟩ := List.mem_map.mp hmem
          exact List.mem_map_of_mem (List.mem_filter.mpr ⟨hr, (List.mem_filter.mp hi).2⟩)
        have hnodup : (liveIndices s.main).Nodup := List.nodup_range.filter _
        have hle := (List.subperm_of_subset hnodup hsub).length_le
        rw [length_liveIndices h.tombs, List.length_map] at hle
        omega
    · obtain ⟨id, hid, hlive, hreach, hc⟩ := hnodeOf i hi
      have hbest := hinv.search_best query hsorts hpos hwide hcur hlayer hsearch hlive hreach
      rwa [hc, (h.score_of_live hg hid).2] at hbest

/-! ## 5. The main tier -/

theorem Inv.wanted_eq (h : s.Inv fl) (topK : Nat) : s.wanted topK = min topK s.main.activeSize := by
  have hfew := h.fewSlots
  unfold wanted
  rw [Nat.mod_eq_of_lt]
  unfold MainStore.activeSize
  unfold uint32Max at hfew
  omega

theorem firstFetchK_eq (hfits : (topK + s.main.deleted.card) * kOversampleFactor < 2 ^ 32) :
    s.firstFetchK topK = s.fetchSize topK := by
  have hsmall : topK + s.main.deleted.card < 2 ^ 32 := by
    unfold kOversampleFactor at hfits
    omega
  have hdel : s.main.deleted.card % 2 ^ 32 = s.main.deleted.card :=
    Nat.mod_eq_of_lt (by omega)
  rw [firstFetchK, hdel, Nat.mod_eq_of_lt hsmall, Nat.mod_eq_of_lt hfits]
  rfl

/-- A slot of the main tier with its score, as a result. -/
def scoredAt (fl : HnswMetric F) (s : TieredVectorStore F) (query : List F) (i : Nat) :
    TieredResult F := (s.idAt i, fl.scoreOf query (s.rowAt i))

/-- **What the main tier gives**: as many of its slots as there are or are asked for, each once
    with its score, the best first; if the index sees all, none that is left out is better. -/
structure MainResults (fl : HnswMetric F) (s : TieredVectorStore F) (query : List F) (topK : Nat)
    (results : List (TieredResult F)) : Prop where
  length : results.length = min topK s.main.activeSize
  omitted : ∃ omitted, (results ++ omitted).Perm
      ((liveIndices s.main).map (s.scoredAt fl query)) ∧
    (s.SeesAll topK → ∀ x ∈ omitted, ∀ y ∈ results, fl.ranking.better x.2 y.2 = false)
  sorted : results.Pairwise fun r r' => fl.ranking.better r'.2 r.2 = false

/-- **The results of a round.** -/
theorem Round.mainResults {g : HnswIndex F} {annResults : List (Nat × F)}
    (hround : s.Round fl g query topK annResults) (h : s.Inv fl) (hg : s.main.index = some g) :
    s.MainResults fl query topK ((s.liveOf annResults).take (min topK s.main.activeSize)) := by
  -- what is taken, by the slots
  let kept : List (Nat × F) := annResults.filter fun r => r.1 ∉ s.main.deleted
  let taken : List Nat := (kept.take (min topK s.main.activeSize)).map Prod.fst
  let others : List Nat := (liveIndices s.main).filter fun i => i ∉ taken
  have hkept : ∀ r ∈ kept, r ∈ annResults ∧ r.1 ∉ s.main.deleted := fun r hr =>
    ⟨(List.mem_filter.mp hr).1, of_decide_eq_true (List.mem_filter.mp hr).2⟩
  have hfound : (s.liveOf annResults).take (min topK s.main.activeSize) =
      taken.map (s.scoredAt fl query) := by
    rw [liveOf, ← List.map_take, List.map_map]
    refine List.map_congr_left fun r hr => ?_
    have hin := (hkept r (List.mem_of_mem_take hr)).1
    exact congrArg (Prod.mk (s.idAt r.1)) (hround.slots r hin).2
  have hlength : ((s.liveOf annResults).take (min topK s.main.activeSize)).length =
      min topK s.main.activeSize := by
    have henough := hround.enough
    rw [List.length_take]
    omega
  have hsortedKept : kept.Pairwise fun r r' => fl.ranking.better r'.2 r.2 = false :=
    hround.sorted.sublist List.filter_sublist
  have htakenNodup : taken.Nodup := (hround.distinct.sublist (List.filter_sublist.map _)).sublist
    ((List.take_sublist _ _).map _)
  have htakenLive : ∀ i ∈ taken, i ∈ liveIndices s.main := by
    intro i hi
    obtain ⟨r, hr, rfl⟩ := List.mem_map.mp hi
    obtain ⟨hin, hdel⟩ := hkept r (List.mem_of_mem_take hr)
    exact List.mem_filter.mpr ⟨List.mem_range.mpr (hround.slots r hin).1, decide_eq_true hdel⟩
  have hothers : ∀ {i}, i ∈ others ↔ i ∈ liveIndices s.main ∧ i ∉ taken := by
    intro i
    rw [List.mem_filter, decide_eq_true_eq]
  have hperm : (taken ++ others).Perm (liveIndices s.main) := by
    have hnodup : (liveIndices s.main).Nodup := List.nodup_range.filter _
    refine (List.perm_ext_iff_of_nodup (List.nodup_append.mpr
      ⟨htakenNodup, hnodup.filter _, fun a ha b hb heq => ?_⟩) hnodup).mpr fun i => ?_
    · exact (hothers.mp hb).2 (heq ▸ ha)
    · rw [List.mem_append, hothers]
      by_cases hi : i ∈ taken
      · exact iff_of_true (.inl hi) (htakenLive i hi)
      · exact ⟨fun h => h.resolve_left hi |>.1, fun h => .inr ⟨h, hi⟩⟩
  refine ⟨hlength, ⟨others.map (s.scoredAt fl query), ?_, fun hsees x hx y hy => ?_⟩, ?_⟩
  · rw [hfound, ← List.map_append]
    exact hperm.map _
  · obtain ⟨i, hi, rfl⟩ := List.mem_map.mp hx
    obtain ⟨hlive, hout⟩ := hothers.mp hi
    rw [liveOf, ← List.map_take] at hy
    obtain ⟨b, hb, rfl⟩ := List.mem_map.mp hy
    rcases hsees with hfew | hwide
    · -- everything is taken
      have htotal := hperm.length_eq
      rw [List.length_append, length_liveIndices h.tombs] at htotal
      rw [hfound, List.length_map] at hlength
      have hnone := List.length_pos_of_mem hi
      omega
    · rcases hround.best (hwide g hg) i hlive with hin | hbest
      · obtain ⟨a, ha, rfl⟩ := List.mem_map.mp hin
        have hak : a ∈ kept := List.mem_filter.mpr ⟨ha, (List.mem_filter.mp hlive).2⟩
        rw [← List.take_append_drop (min topK s.main.activeSize) kept] at hak hsortedKept
        rcases List.mem_append.mp hak with htaken | hleft
        · exact absurd (List.mem_map_of_mem htaken) hout
        · rw [scoredAt, ← (hround.slots a ha).2]
          exact (List.pairwise_append.mp hsortedKept).2.2 b hb a hleft
      · exact hbest b (hkept b (List.mem_of_mem_take hb)).1
  · refine List.Pairwise.sublist (List.take_sublist _ _) ?_
    exact List.pairwise_map.mpr hsortedKept

/-- **The first round is the last.** -/
theorem Inv.fetchLoop_eq (h : s.Inv fl) (hsorts : fl.ranking.Sorts)
    (hreturn : s.Returnable fl query) (hk : 0 < topK) (hactive : s.main.activeSize ≠ 0)
    {g : HnswIndex F}
    (hg : s.main.index = some g) (fuel : Nat) :
    s.fetchLoop fl g query (s.wanted topK) (fuel + 1) (s.fetchSize topK) =
        some (s.mainFound fl query topK) ∧
      ¬ s.GoesOn fl g query (s.wanted topK) (s.fetchSize topK) ∧
      s.MainResults fl query topK (s.mainFound fl query topK) := by
  obtain ⟨annResults, hsearch, hround⟩ := h.round hsorts hreturn hk hactive hg
  have hwant := h.wanted_eq topK
  have hfound : s.mainFound fl query topK =
      (s.liveOf annResults).take (min topK s.main.activeSize) := by
    rw [mainFound, hg]
    dsimp only
    rw [hsearch]
    rfl
  have hresults : s.MainResults fl query topK (s.mainFound fl query topK) :=
    hfound ▸ hround.mainResults h hg
  have hcollect : s.collect (s.wanted topK) annResults [] =
      some (s.mainFound fl query topK) := by
    rw [collect_eq (fun r hr _ => (hround.slots r hr).1) (by rw [List.length_nil, hwant]; omega),
      hfound, hwant]
    rfl
  have hstop : s.wanted topK ≤ (s.mainFound fl query topK).length := by
    rw [hresults.length, hwant]
  refine ⟨?_, ?_, hresults⟩
  · unfold fetchLoop
    rw [hsearch]
    dsimp only
    rw [hcollect]
    exact if_pos (.inl hstop)
  · rintro ⟨ann, results, hann, hres, hmore⟩
    obtain rfl := Option.some.inj (hann.symm.trans hsearch)
    obtain rfl := Option.some.inj (hres.symm.trans hcollect)
    exact hmore (.inl hstop)

theorem Inv.index_of_active (h : s.Inv fl) (hactive : s.main.activeSize ≠ 0) :
    ∃ g, s.main.index = some g := by
  have hindexed := h.indexed
  cases hg : s.main.index with
  | none =>
    rw [hg] at hindexed
    cases hindexed with
    | empty hnone => exact absurd ((activeSize_eq_zero s.main h.tombs).mpr hnone) hactive
  | some g => exact ⟨g, rfl⟩

theorem mainFound_of_inactive (hactive : s.main.activeSize = 0) :
    s.mainFound fl query topK = [] := by
  unfold mainFound
  split
  · rfl
  · rw [hactive, Nat.min_zero, List.take_zero]

/-- **`SearchMain`**, if the first size fits. -/
theorem Inv.searchMain_spec (h : s.Inv fl) (hsorts : fl.ranking.Sorts)
    (hreturn : s.Returnable fl query) (hk : 0 < topK) (hfits : s.FetchFits topK) (fuel : Nat) :
    s.searchMain fl (fuel + 1) query topK = some (s.mainFound fl query topK) ∧
      s.MainResults fl query topK (s.mainFound fl query topK) := by
  unfold searchMain
  split
  · rename_i hactive
    rw [mainFound_of_inactive hactive]
    have hnone : liveIndices s.main = [] :=
      List.length_eq_zero_iff.mp ((length_liveIndices h.tombs).trans hactive)
    refine ⟨rfl, by rw [hactive, Nat.min_zero]; rfl, ⟨[], ?_, nofun⟩, List.Pairwise.nil⟩
    rw [hnone]
    exact List.Perm.nil
  · rename_i hactive
    obtain ⟨g, hg⟩ := h.index_of_active hactive
    obtain ⟨hloop, -, hresults⟩ := h.fetchLoop_eq hsorts hreturn hk hactive hg fuel
    rw [hg]
    dsimp only
    rw [firstFetchK_eq (hfits hk.ne' hactive)]
    exact ⟨hloop, hresults⟩

/-- Whenever it is done, it has found the same. -/
theorem Inv.searchMain_eq (h : s.Inv fl) (hsorts : fl.ranking.Sorts)
    (hreturn : s.Returnable fl query) (hk : 0 < topK) (hfits : s.FetchFits topK) {fuel : Nat}
    {results : List (TieredResult F)} (hresults : s.searchMain fl fuel query topK = some results) :
    results = s.mainFound fl query topK := by
  cases fuel with
  | zero =>
    unfold searchMain at hresults
    split at hresults
    · rename_i hactive
      rw [mainFound_of_inactive hactive]
      exact (Option.some.inj hresults).symm
    · rename_i hactive
      obtain ⟨g, hg⟩ := h.index_of_active hactive
      rw [hg] at hresults
      cases hresults
  | succ fuel =>
    rw [(h.searchMain_spec hsorts hreturn hk hfits fuel).1] at hresults
    exact (Option.some.inj hresults).symm

/-- No size wraps around if and only if the first does not. -/
theorem Inv.noWrap_iff (h : s.Inv fl) (hsorts : fl.ranking.Sorts)
    (hreturn : s.Returnable fl query) :
    s.NoWrap fl query topK ↔ s.FetchFits topK := by
  constructor
  · intro hwrap hk hactive
    obtain ⟨g, hg⟩ := h.index_of_active hactive
    have hfirst := hwrap hk hactive g hg 0 nofun
    rwa [Nat.pow_zero, Nat.mul_one] at hfirst
  · intro hfits hk hactive g hg j hgoes
    obtain ⟨-, hlast, -⟩ :=
      h.fetchLoop_eq hsorts hreturn (Nat.pos_of_ne_zero hk) hactive hg 0
    cases j with
    | zero =>
      rw [Nat.pow_zero, Nat.mul_one]
      exact hfits hk hactive
    | succ j =>
      have hzero := hgoes 0 (Nat.succ_pos j)
      rw [Nat.pow_zero, Nat.mul_one] at hzero
      exact absurd hzero hlast

/-! ## 6. The delta tier -/

/-- The number of a score, the mark for what is none. -/
def valueOf (key : F → Option K) (mark : K) (r : TieredResult F) : K := (key r.2).getD mark

/-- **What a scan gives**: the best of the slots, the best first. -/
structure Scans (fl : HnswMetric F) (key : F → Option K) (mark : K) (query : List F) (topK : Nat)
    (slots : List (TierSlot F)) (results : List (TieredResult F)) : Prop where
  length : results.length = min topK slots.length
  omitted : ∃ omitted, (results ++ omitted).Perm
      (slots.map fun slot => (slot.id, fl.distanceFunc query slot.row)) ∧
    ∀ x ∈ omitted, ∀ y ∈ results, valueOf key mark x ≤ valueOf key mark y
  sorted : Descending (results.map (valueOf key mark))

theorem filterMap_range_getElem? {α : Type} (l : List α) :
    (List.range l.length).filterMap (fun i => l[i]?) = l := by
  induction l using List.reverseRecOn with
  | nil => rfl
  | append_singleton l x ih =>
    have hold : (List.range l.length).filterMap (fun i => (l ++ [x])[i]?) = l := by
      refine Eq.trans (List.filterMap_congr fun i hi => ?_) ih
      rw [List.getElem?_append_left (List.mem_range.mp hi)]
    have hlast : (l ++ [x])[l.length]? = some x := List.getElem?_concat_length
    rw [List.length_append, List.length_singleton, List.range_succ, List.filterMap_append, hold,
      List.filterMap_cons, hlast, List.filterMap_nil]

theorem valueOf_le {x y : TieredResult F} (hkey : fl.ranking.better = betterScore key)
    (hx : (key x.2).isSome) (hy : (key y.2).isSome) :
    fl.ranking.better x.2 y.2 = false ↔ valueOf key mark x ≤ valueOf key mark y := by
  obtain ⟨a, ha⟩ := Option.isSome_iff_exists.mp hx
  obtain ⟨b, hb⟩ := Option.isSome_iff_exists.mp hy
  rw [hkey, betterScore_eq_false ha hb, valueOf, valueOf, ha, hb]
  rfl

/-- The best results come first. -/
theorem descending_of_sorted {results : List (TieredResult F)}
    (hkey : fl.ranking.better = betterScore key) (hnum : ∀ r ∈ results, (key r.2).isSome)
    (h : results.Pairwise fun r r' => fl.ranking.better r'.2 r.2 = false) :
    Descending (results.map (valueOf key mark)) :=
  List.pairwise_map.mpr (h.imp_of_mem fun hr hr' hle =>
    (valueOf_le hkey (hnum _ hr') (hnum _ hr)).mp hle)

/-- The id of a slot. -/
def nameOf (slots : List (TierSlot F)) (i : Nat) : Bytes :=
  ((slots[i]?).map TierSlot.id).getD []

/-- The slots with their scores, as they are offered to the queue. -/
def offered (fl : HnswMetric F) (query : List F) (slots : List (TierSlot F)) : List (F × Nat) :=
  (List.range slots.length).filterMap fun i =>
    (slots[i]?).map fun slot => (fl.distanceFunc query slot.row, i)

theorem map_offered (fl : HnswMetric F) (query : List F) (slots : List (TierSlot F)) :
    (offered fl query slots).map (fun x => (x.1, nameOf slots x.2)) =
      slots.map fun slot => (fl.distanceFunc query slot.row, slot.id) := by
  conv_rhs => rw [← filterMap_range_getElem? slots]
  unfold offered
  rw [List.map_filterMap, List.map_filterMap]
  refine List.filterMap_congr fun i _ => ?_
  cases hi : slots[i]? with
  | none => rfl
  | some slot =>
    have hname : nameOf slots i = slot.id := by
      unfold nameOf
      rw [hi]
      rfl
    rw [Option.map_some, Option.map_some, Option.map_some, hname]

/-- What comes out of the queue, the best first. -/
theorem scan_eq (fl : HnswMetric F) (query : List F) (topK : Nat) (slots : List (TierSlot F)) :
    ∃ heap, heap = (offered fl query slots).foldl (fl.ranking.offer topK) [] ∧
      scan fl query topK slots.length (fun i => slots[i]?) =
        (fl.ranking.drain heap.length heap).reverse.map fun x => (nameOf slots x.2, x.1) :=
  ⟨_, rfl, rfl⟩

/-- **A scan** of no more slots than are asked for gives all of them. -/
theorem scan_all (query : List F) {slots : List (TierSlot F)} (h : slots.length ≤ topK) :
    (scan fl query topK slots.length fun i => slots[i]?).Perm
      (slots.map fun slot => (slot.id, fl.distanceFunc query slot.row)) := by
  obtain ⟨heap, hheap, hscan⟩ := scan_eq fl query topK slots
  have hlength : (offered fl query slots).length = slots.length := by
    have hmap := congrArg List.length (map_offered fl query slots)
    rwa [List.length_map, List.length_map] at hmap
  have hall : heap = (offered fl query slots).reverse := by
    rw [hheap, Ranking.foldl_offer_of_length_le _ (by rw [List.length_nil, hlength]; omega),
      List.append_nil]
  have hdrain : (fl.ranking.drain heap.length heap).reverse.Perm (offered fl query slots) :=
    ((List.reverse_perm _).trans (Ranking.drain_perm heap)).trans
      (hall ▸ List.reverse_perm _)
  have hswap := congrArg (List.map Prod.swap) (map_offered fl query slots)
  rw [List.map_map, List.map_map] at hswap
  rw [hscan]
  exact (hdrain.map _).trans (.of_eq hswap)

/-- **A scan** gives the best. -/
theorem scan_spec (hR : fl.ranking.Orders key) (mark : K) (query : List F) (topK : Nat)
    {slots : List (TierSlot F)}
    (hnum : ∀ slot ∈ slots, (key (fl.distanceFunc query slot.row)).isSome) :
    Scans fl key mark query topK slots (scan fl query topK slots.length fun i => slots[i]?) := by
  have hnames := map_offered fl query slots
  have hoffered : ∀ x ∈ offered fl query slots, (key x.1).isSome := by
    intro x hx
    obtain ⟨i, -, hi⟩ := List.mem_filterMap.mp hx
    obtain ⟨slot, hslot, rfl⟩ := Option.map_eq_some_iff.mp hi
    exact hnum slot (List.mem_of_getElem? hslot)
  have hselects := foldl_offer_selects hR topK hoffered
  obtain ⟨heap, hheapEq, hscan⟩ := scan_eq fl query topK slots
  rw [hscan]
  rw [← hheapEq] at hselects
  have hheap : ∀ x ∈ heap, (key x.1).isSome := fun x hx => hoffered x (hselects.subset x hx)
  have hdrain : (fl.ranking.drain heap.length heap).reverse.Perm heap :=
    (List.reverse_perm _).trans (Ranking.drain_perm heap)
  have hnamed := hselects.map (nameOf slots)
  rw [hnames] at hnamed
  obtain ⟨omitted, hall, hbest⟩ := hnamed.omitted
  have hslots : ∀ x ∈ slots.map (fun slot => (fl.distanceFunc query slot.row, slot.id)),
      (key x.1).isSome := by
    intro x hx
    obtain ⟨slot, hslot, rfl⟩ := List.mem_map.mp hx
    exact hnum slot hslot
  refine ⟨?_, ⟨omitted.map Prod.swap, ?_, ?_⟩, ?_⟩
  · rw [List.length_map, hdrain.length_eq, hselects.length, ← List.length_map, hnames,
      List.length_map]
  · have hswap := hall.map Prod.swap
    rw [List.map_append, List.map_map, List.map_map] at hswap
    exact ((hdrain.map _).append_right _).trans hswap
  · intro x hx y hy
    obtain ⟨a, ha, rfl⟩ := List.mem_map.mp hx
    obtain ⟨b, hb, rfl⟩ := List.mem_map.mp hy
    have hb := hdrain.mem_iff.mp hb
    have hba := hbest a ha (b.1, nameOf slots b.2) (List.mem_map_of_mem hb)
    have has := hslots a (hall.mem_iff.mp (List.mem_append_right _ ha))
    exact (valueOf_le (x := (a.2, a.1)) (y := (nameOf slots b.2, b.1)) hR.better has
      (hheap b hb)).mp (hR.better ▸ hba)
  · refine descending_of_sorted hR.better (fun r hr => ?_) ?_
    · obtain ⟨x, hx, rfl⟩ := List.mem_map.mp hr
      exact hheap x (hdrain.mem_iff.mp hx)
    · refine List.pairwise_map.mpr (List.pairwise_reverse.mpr ?_)
      exact Ranking.drain_sorted hR hheap

/-! ## 7. Both -/

omit [LinearOrder K] in
theorem filterMap_key {α : Type} {l : List α} {f : α → F} (h : ∀ x ∈ l, (key (f x)).isSome) :
    l.filterMap (fun x => key (f x)) = l.map fun x => (key (f x)).getD mark := by
  induction l with
  | nil => rfl
  | cons x l ih =>
    obtain ⟨k, hk⟩ := Option.isSome_iff_exists.mp (h x List.mem_cons_self)
    rw [List.filterMap_cons, hk, List.map_cons, hk,
      ih fun y hy => h y (List.mem_cons_of_mem x hy)]
    rfl

theorem comparesBy (hmark : key sentinel = some mark)
    (mainResults deltaResults : List (TieredResult F))
    (hmain : ∀ r ∈ mainResults, (key r.2).isSome)
    (hdelta : ∀ r ∈ deltaResults, (key r.2).isSome) :
    ComparesBy (fun x y => notWorse key (scoreOr sentinel x) (scoreOr sentinel y))
      (valueOf key mark) mark mainResults deltaResults := by
  have hboth : ∀ {a b : F} {k k' : K}, key a = some k → key b = some k' →
      notWorse key a b = decide (k' ≤ k) := by
    intro a b k k' ha hb
    rw [notWorse, ha, hb]
    rfl
  have hvalue : ∀ {r : TieredResult F} {k : K}, key r.2 = some k → valueOf key mark r = k := by
    intro r k hr
    rw [valueOf, hr]
    rfl
  refine ⟨fun x hx y hy => ?_, fun x hx => ?_, fun y hy => ?_⟩
  · obtain ⟨a, ha⟩ := Option.isSome_iff_exists.mp (hmain x hx)
    obtain ⟨b, hb⟩ := Option.isSome_iff_exists.mp (hdelta y hy)
    rw [hvalue ha, hvalue hb]
    exact hboth ha hb
  · obtain ⟨a, ha⟩ := Option.isSome_iff_exists.mp (hmain x hx)
    rw [hvalue ha]
    exact hboth ha hmark
  · obtain ⟨b, hb⟩ := Option.isSome_iff_exists.mp (hdelta y hy)
    rw [hvalue hb]
    exact hboth hmark hb

omit [LinearOrder K] in
theorem MainResults.numbers {results : List (TieredResult F)}
    (h : s.MainResults fl query topK results) (hnum : s.Numbers fl key query) :
    ∀ r ∈ results, (key r.2).isSome := by
  intro r hr
  obtain ⟨omitted, hall, -⟩ := h.omitted
  obtain ⟨i, hi, rfl⟩ := List.mem_map.mp (hall.mem_iff.mp (List.mem_append_left omitted hr))
  exact hnum.main i hi

theorem searchDelta_spec (hR : fl.ranking.Orders key)
    (hnum : ∀ slot ∈ s.delta, (key (fl.distanceFunc query slot.row)).isSome) :
    Scans fl key mark query topK s.delta (s.searchDelta fl query topK) := by
  unfold searchDelta
  split
  · rename_i hnil
    rw [hnil]
    exact ⟨(Nat.min_zero _).symm, ⟨[], List.Perm.refl _, nofun⟩, List.Pairwise.nil⟩
  · exact scan_spec hR mark query topK hnum

theorem Scans.numbers {slots : List (TierSlot F)} {results : List (TieredResult F)}
    (h : Scans fl key mark query topK slots results)
    (hnum : ∀ slot ∈ slots, (key (fl.distanceFunc query slot.row)).isSome) :
    ∀ r ∈ results, (key r.2).isSome := by
  intro r hr
  obtain ⟨omitted, hall, -⟩ := h.omitted
  obtain ⟨slot, hslot, rfl⟩ := List.mem_map.mp (hall.mem_iff.mp (List.mem_append_left omitted hr))
  exact hnum slot hslot

theorem mem_searchDelta (query : List F) (h : s.delta.length ≤ topK) {slot : TierSlot F}
    (hslot : slot ∈ s.delta) :
    (slot.id, fl.distanceFunc query slot.row) ∈ s.searchDelta fl query topK := by
  unfold searchDelta
  rw [if_neg (List.ne_nil_of_mem hslot)]
  exact (scan_all query h).mem_iff.mpr (List.mem_map_of_mem hslot)

theorem length_searchDelta (fl : HnswMetric F) (query : List F) (h : s.delta.length ≤ topK) :
    (s.searchDelta fl query topK).length = s.delta.length := by
  unfold searchDelta
  split
  · rename_i hnil
    rw [hnil]
    rfl
  · exact (scan_all query h).length_eq.trans (List.length_map _)

section Merging

variable (hmain : s.MainResults fl query topK (s.mainFound fl query topK))
include hmain

/-- **The merge goes wrong** if what is found of the main tier and the delta tier overrun. -/
theorem MainResults.mergeResults_eq_none (hR : fl.ranking.Orders key)
    (hmark : key sentinel = some mark) (hnum : s.Numbers fl key query) :
    mergeResults key sentinel topK (s.mainFound fl query topK) (s.searchDelta fl query topK) =
        none ↔
      Overruns mark topK ((s.mainFound fl query topK).map (valueOf key mark))
        ((s.deltaScores fl query).filterMap key) := by
  have hdelta : Scans fl key mark query topK s.delta (s.searchDelta fl query topK) :=
    searchDelta_spec hR hnum.delta
  have hmainNum := hmain.numbers hnum
  obtain ⟨omitted, hall, hbest⟩ := hdelta.omitted
  refine (mergeTop_eq_none (comparesBy hmark _ _ hmainNum (hdelta.numbers hnum.delta))
    (descending_of_sorted hR.better hmainNum hmain.sorted) hdelta.sorted).trans ?_
  have hscores : (s.deltaScores fl query).filterMap key =
      (s.delta.map fun slot => (slot.id, fl.distanceFunc query slot.row)).map
        (valueOf key mark) := by
    rw [deltaScores, List.filterMap_map, List.map_map]
    exact filterMap_key hnum.delta
  rw [hscores]
  refine overruns_of_selects (omitted.map (valueOf key mark)) ?_ ?_ ?_
  · rw [List.length_map, List.length_map, List.length_map, hdelta.length]
  · rw [← List.map_append]
    exact hall.map _
  · intro x hx y hy
    obtain ⟨a, ha, rfl⟩ := List.mem_map.mp hx
    obtain ⟨b, hb, rfl⟩ := List.mem_map.mp hy
    exact hbest a ha b hb

/-- What is found of the main tier overruns as the whole tier does, if the index sees all; if it
    does not, a low score may come first. -/
theorem MainResults.overruns (htombs : ∀ i ∈ s.main.deleted, i < s.main.slots.length)
    (hR : fl.ranking.Orders key) (hnum : s.Numbers fl key query) :
    (Overruns mark topK ((s.mainFound fl query topK).map (valueOf key mark))
        ((s.deltaScores fl query).filterMap key) → s.RunsPast fl key mark query topK) ∧
      (s.SeesAll topK → s.RunsPast fl key mark query topK →
        Overruns mark topK ((s.mainFound fl query topK).map (valueOf key mark))
          ((s.deltaScores fl query).filterMap key)) := by
  obtain ⟨omitted, hall, hbest⟩ := hmain.omitted
  have hscores : (s.mainScores fl query).filterMap key =
      ((liveIndices s.main).map (s.scoredAt fl query)).map (valueOf key mark) := by
    rw [mainScores, List.filterMap_map, List.map_map]
    exact filterMap_key hnum.main
  have hvalues : ((s.mainFound fl query topK).map (valueOf key mark) ++
      omitted.map (valueOf key mark)).Perm ((s.mainScores fl query).filterMap key) := by
    rw [hscores, ← List.map_append]
    exact hall.map _
  have hsame : s.SeesAll topK →
      (Overruns mark topK ((s.mainFound fl query topK).map (valueOf key mark))
          ((s.deltaScores fl query).filterMap key) ↔
        Overruns mark topK ((s.mainScores fl query).filterMap key)
          ((s.deltaScores fl query).filterMap key)) := by
    intro hsees
    refine overruns_of_selects_main (omitted.map (valueOf key mark)) ?_ hvalues ?_
    · rw [hscores, List.length_map, List.length_map, List.length_map, hmain.length,
        length_liveIndices htombs]
    · intro x hx y hy
      obtain ⟨a, ha, rfl⟩ := List.mem_map.mp hx
      obtain ⟨b, hb, rfl⟩ := List.mem_map.mp hy
      have hnumbers : ∀ r ∈ s.mainFound fl query topK ++ omitted, (key r.2).isSome := by
        intro r hr
        obtain ⟨i, hi, rfl⟩ := List.mem_map.mp (hall.mem_iff.mp hr)
        exact hnum.main i hi
      exact (valueOf_le hR.better (hnumbers a (List.mem_append_right _ ha))
        (hnumbers b (List.mem_append_left _ hb))).mp (hbest hsees a ha b hb)
  refine ⟨fun hover => ?_, fun hsees hpast => ?_⟩
  · by_cases hsees : s.SeesAll topK
    · exact .inl ((hsame hsees).mp hover)
    · have hmany : topK < s.main.activeSize := not_le.mp fun hle => hsees (.inl hle)
      have hlength : ((s.mainFound fl query topK).map (valueOf key mark)).length = topK := by
        rw [List.length_map, hmain.length]
        exact Nat.min_eq_left hmany.le
      have hdelta : ((s.deltaScores fl query).filterMap key).length = s.delta.length := by
        rw [deltaScores, List.filterMap_map,
          show s.delta.filterMap (key ∘ fun slot => fl.distanceFunc query slot.row) =
            s.delta.map fun slot => (key (fl.distanceFunc query slot.row)).getD mark from
              filterMap_key hnum.delta, List.length_map]
      refine .inr ⟨hsees, ?_⟩
      rcases hover with ⟨y, -, -, -, hcount⟩ | ⟨x, hx, hmark, hlow, hcount⟩
      · omega
      · exact ⟨x, hvalues.mem_iff.mp (List.mem_append_left _ hx), hmark, hlow, by omega⟩
  · rcases hpast with hover | ⟨hnot, -⟩
    · exact (hsame hsees).mpr hover
    · exact absurd hsees hnot

/-- What the merge returns otherwise. -/
theorem MainResults.mergeResults_some (hR : fl.ranking.Orders key)
    (hmark : key sentinel = some mark) (hnum : s.Numbers fl key query)
    {results : List (TieredResult F)}
    (hresults : mergeResults key sentinel topK (s.mainFound fl query topK)
      (s.searchDelta fl query topK) = some results) :
    results.length = min topK s.totalSize ∧ InOrder key results := by
  have hdelta : Scans fl key mark query topK s.delta (s.searchDelta fl query topK) :=
    searchDelta_spec hR hnum.delta
  have hmainNum := hmain.numbers hnum
  have hdeltaNum := hdelta.numbers hnum.delta
  obtain ⟨hlen, rest, hperm⟩ := mergeTop_some hresults
  refine ⟨?_, results.map (valueOf key mark), ?_, mergeTop_descending
    (comparesBy hmark _ _ hmainNum hdeltaNum)
    (descending_of_sorted hR.better hmainNum hmain.sorted) hdelta.sorted hresults⟩
  · rw [hlen, hmain.length, hdelta.length, totalSize]
    omega
  · rw [List.map_map]
    refine List.map_congr_left fun r hr => ?_
    obtain ⟨k, hk⟩ : ∃ k, key r.2 = some k := Option.isSome_iff_exists.mp <|
      (List.mem_append.mp (hperm.mem_iff.mp (List.mem_append_left rest hr))).elim
        (hmainNum r) (hdeltaNum r)
    show key r.2 = some (valueOf key mark r)
    rw [valueOf, hk]
    rfl

/-- **If all are returned in order**, all scores are numbers. -/
theorem MainResults.numbers_of_inOrder (htombs : ∀ i ∈ s.main.deleted, i < s.main.slots.length)
    (hfew : s.totalSize ≤ topK) {results : List (TieredResult F)}
    (hresults : mergeResults key sentinel topK (s.mainFound fl query topK)
      (s.searchDelta fl query topK) = some results) (horder : InOrder key results) :
    s.Numbers fl key query := by
  unfold totalSize at hfew
  obtain ⟨hlen, rest, hperm⟩ := mergeTop_some hresults
  have hdelta := length_searchDelta fl query (show s.delta.length ≤ topK by omega)
  have hmainLength := hmain.length
  obtain ⟨omitted, hall, -⟩ := hmain.omitted
  -- nothing is left out, of the merge or of the main tier
  have hrest : rest = [] := by
    have htotal := hperm.length_eq
    rw [List.length_append, List.length_append] at htotal
    exact List.eq_nil_of_length_eq_zero (by omega)
  have homitted : omitted = [] := by
    have htotal := hall.length_eq
    rw [List.length_append, List.length_map, length_liveIndices htombs] at htotal
    exact List.eq_nil_of_length_eq_zero (by omega)
  rw [hrest, List.append_nil] at hperm
  rw [homitted, List.append_nil] at hall
  have hnumber : ∀ r ∈ results, (key r.2).isSome := by
    obtain ⟨scores, hscores, -⟩ := horder
    intro r hr
    obtain ⟨k, -, hk⟩ := List.mem_map.mp (hscores ▸ List.mem_map_of_mem hr :
      key r.2 ∈ scores.map some)
    rw [← hk]
    rfl
  refine ⟨fun slot hslot => ?_, fun i hi => ?_⟩
  · exact hnumber _ (hperm.mem_iff.mpr (List.mem_append_right _
      (mem_searchDelta query (by omega) hslot)))
  · exact hnumber (s.scoredAt fl query i) (hperm.mem_iff.mpr (List.mem_append_left _
      (hall.mem_iff.mpr (List.mem_map_of_mem hi))))

end Merging

/-- A store without vectors, or a search for none. -/
theorem Inv.of_empty (h : s.Inv fl) (key : F → Option K) (mark : K) (query : List F)
    (hempty : s.dimension = 0 ∨ topK = 0) :
    (topK = 0 ∨ s.main.activeSize = 0) ∧ min topK s.totalSize = 0 ∧
      ¬ s.RunsPast fl key mark query topK := by
  rcases hempty with hdim | rfl
  · obtain ⟨hslots, hdelta, -⟩ := h.unset hdim
    have hactive : s.main.activeSize = 0 := by
      rw [MainStore.activeSize, hslots, List.length_nil, Nat.zero_sub]
    have hlive : liveIndices s.main = [] := by
      rw [liveIndices, hslots]
      rfl
    refine ⟨.inr hactive, by rw [totalSize, hactive, hdelta]; exact Nat.min_zero _, ?_⟩
    rintro (hover | ⟨-, x, hx, -⟩)
    · rw [mainScores, hlive, deltaScores, hdelta] at hover
      exact not_overruns_nil hover
    · rw [mainScores, hlive] at hx
      cases hx
  · refine ⟨.inl rfl, Nat.zero_min _, ?_⟩
    rintro (hover | ⟨-, -, -, -, -, hlt⟩)
    · exact not_overruns_zero hover
    · exact Nat.not_lt_zero _ hlt

theorem search_eq (hempty : ¬ (s.dimension = 0 ∨ topK = 0)) (fuel : Nat) :
    s.search fl key sentinel fuel query topK =
      match s.searchMain fl fuel query topK with
      | none => none
      | some mainResults =>
        mergeResults key sentinel topK mainResults (s.searchDelta fl query topK) :=
  if_neg hempty

/-- **A search keeps its promise** if the scores are numbers, the first size fits and the merge
    does not run past the end of a tier. -/
theorem Inv.serves_of_fits (h : s.Inv fl) (hR : fl.ranking.Orders key)
    (hsorts : fl.ranking.Sorts) (hmark : key sentinel = some mark)
    (hreturn : s.Returnable fl query) (hfits : s.Fits fl key mark query topK) :
    s.Serves fl key sentinel query topK := by
  refine ⟨(h.noWrap_iff hsorts hreturn).mpr hfits.fetch, 1, ?_⟩
  by_cases hempty : s.dimension = 0 ∨ topK = 0
  · obtain ⟨-, hzero, -⟩ := h.of_empty key mark query hempty
    exact ⟨[], if_pos hempty, hzero.symm, [], rfl, List.Pairwise.nil⟩
  · have hk : 0 < topK := Nat.pos_of_ne_zero fun hk => hempty (.inr hk)
    obtain ⟨hmain, hresults⟩ := h.searchMain_spec hsorts hreturn hk hfits.fetch 0
    cases hmerged : mergeResults key sentinel topK (s.mainFound fl query topK)
      (s.searchDelta fl query topK) with
    | none =>
      have hover := (hresults.mergeResults_eq_none hR hmark hfits.numbers).mp hmerged
      exact absurd ((hresults.overruns h.tombs hR hfits.numbers).1 hover) hfits.merge
    | some results =>
      refine ⟨results, ?_, hresults.mergeResults_some hR hmark hfits.numbers hmerged⟩
      rw [search_eq hempty, hmain]
      exact hmerged

/-- **A search that keeps it**, where what is found is settled by the scores. -/
theorem Inv.fits_of_serves (h : s.Inv fl) (hR : fl.ranking.Orders key)
    (hsorts : fl.ranking.Sorts) (hmark : key sentinel = some mark)
    (hreturn : s.Returnable fl query)
    (hsettled : s.totalSize ≤ topK ∨ s.SeesAll topK ∧ s.Numbers fl key query)
    (hserves : s.Serves fl key sentinel query topK) : s.Fits fl key mark query topK := by
  have hfetch := (h.noWrap_iff hsorts hreturn).mp hserves.noWrap
  by_cases hempty : s.dimension = 0 ∨ topK = 0
  · obtain ⟨-, hzero, hpast⟩ := h.of_empty key mark query hempty
    refine ⟨?_, hfetch, hpast⟩
    rcases hsettled with hfew | ⟨-, hnum⟩
    · -- there is nothing to score
      have htotal : s.totalSize = 0 := by omega
      unfold totalSize at htotal
      have hlive := length_liveIndices h.tombs
      refine ⟨fun slot hslot => ?_, fun i hi => ?_⟩
      · have := List.length_pos_of_mem hslot
        omega
      · have := List.length_pos_of_mem hi
        omega
    · exact hnum
  · have hk : 0 < topK := Nat.pos_of_ne_zero fun hk => hempty (.inr hk)
    obtain ⟨-, hmain⟩ := h.searchMain_spec hsorts hreturn hk hfetch 0
    obtain ⟨fuel, results, hfound, -, horder⟩ := hserves.answers
    rw [search_eq hempty] at hfound
    cases hdone : s.searchMain fl fuel query topK with
    | none =>
      rw [hdone] at hfound
      cases hfound
    | some mainResults =>
      rw [hdone, h.searchMain_eq hsorts hreturn hk hfetch hdone] at hfound
      dsimp only at hfound
      have hsees : s.SeesAll topK := hsettled.elim
        (fun hfew => .inl (by unfold totalSize at hfew; omega)) And.left
      have hnum : s.Numbers fl key query := hsettled.elim
        (fun hfew => hmain.numbers_of_inOrder h.tombs hfew hfound horder) And.right
      refine ⟨hnum, hfetch, fun hpast => ?_⟩
      have hover := (hmain.overruns h.tombs hR hnum).2 hsees hpast
      rw [(hmain.mergeResults_eq_none hR hmark hnum).mpr hover] at hfound
      cases hfound

end TieredVectorStore

theorem exampleMetric_orders : exampleMetric.ranking.Orders (some : Int → Option Int) where
  better := by
    funext a b
    rfl
  worst := by
    intro q x rest _ hpop y hy
    have htotal : Std.Total fun x y : Int × Nat => decide (y.1 < x.1) = false :=
      ⟨fun x y => by simp only [decide_eq_false_iff_not, not_lt]; exact le_total _ _⟩
    have htrans : IsTrans (Int × Nat) fun x y => decide (y.1 < x.1) = false :=
      ⟨fun x y z => by simp only [decide_eq_false_iff_not, not_lt]; exact le_trans⟩
    exact Ranking.popSorted_first hpop y hy

/-- Two vectors that are merged. -/
def twoMergedRun : List (TieredOp Int) :=
  [.add [97] [5], .add [98] [7], .mergeDeltaToMain fun _ => 0]

def twoMerged : TieredVectorStore Int :=
  (run (TieredVectorStore.step exampleMetric) (.new {}) twoMergedRun).get (by decide +kernel)

/-- Nothing is fetched, and twice as much the next time. -/
theorem fetchLoop_twoMerged {g : HnswIndex Int} (hg : twoMerged.main.index = some g) (fuel : Nat) :
    twoMerged.fetchLoop exampleMetric g [0] 2 fuel 0 = none := by
  have hsearch : (twoMerged.main.index.bind fun g => g.search exampleMetric [0] 0) =
      some [(0, -5)] := by decide +kernel
  have hcollect : twoMerged.collect 2 [(0, -5)] [] = some [([97], -5)] := by decide +kernel
  have hslots : twoMerged.main.totalSlots = 2 := by decide +kernel
  rw [hg] at hsearch
  induction fuel with
  | zero => rfl
  | succ fuel ih =>
    unfold TieredVectorStore.fetchLoop
    rw [show g.search exampleMetric [0] 0 = some [(0, -5)] from hsearch]
    dsimp only
    rw [hcollect]
    refine (if_neg ?_).trans ih
    rw [hslots]
    decide

end Nvecd.Vectors
