/-
  File:      Nvecd/Similarity/FusionSearch.lean
  Subject:   `SearchByIdFusion` of `similarity/similarity_engine.cpp`, in exact arithmetic: the
             neighbours of an item by its events and by its vector, with both scores weighted.

  The two searches are those of EventSearch.lean and Search.lean; what they find is read as
  rational numbers, and from there on nothing is rounded. A division by zero has no result.

  * `FusionConfig` -- the weights that `ValidateConfig` lets through;
  * `normalizeScores`, `computeAdaptiveWeights`, `contributing`, `mergeAndSelectTopK`;
  * `fuse`, `searchByIdFusion`;
  * `Fuses` -- what a fusion promises of two lists of normalised scores, and `fuse_spec`;
  * `searchByIdVectors_candidates` -- the vector search finds no item twice;
  * `searchByIdFusion_spec`.
-/
import Nvecd.Lib.BinaryFloat
import Nvecd.Lib.Fusion
import Nvecd.Similarity.EventSearch

namespace Nvecd.Similarity

open Nvecd.Cache Nvecd.Events Nvecd.Lib Nvecd.Storage Nvecd.Utils Nvecd.Vectors

/-! ## 1. The fusion -/

/-- The weights of `config::SimilarityConfig`, as `ValidateConfig` lets them through. -/
structure FusionConfig where
  fusionAlpha : ℚ
  fusionBeta : ℚ
  adaptiveFusion : Bool := false
  adaptiveMinAlpha : ℚ
  adaptiveMaxAlpha : ℚ
  adaptiveMaturityThreshold : Nat
  alpha : InUnit fusionAlpha
  beta : InUnit fusionBeta
  minAlpha : InUnit adaptiveMinAlpha
  maxAlpha : InUnit adaptiveMaxAlpha
  ordered : adaptiveMinAlpha ≤ adaptiveMaxAlpha
  threshold : 0 < adaptiveMaturityThreshold

/-- The members of `SimilarityEngine` that a fusion reads. -/
structure FusionSearch (A F : Type) [FloatOps F] extends EventSearch A F where
  fusion : FusionConfig
  /-- The number a score of the index of events is. -/
  number : F → ℚ

/-- Candidates with their scores. -/
abbrev Candidates := List (ℚ × Bytes)

/-- A division; there is none by zero. -/
def divide (x y : ℚ) : Option ℚ := if y = 0 then none else some (x / y)

/-- `kMinRange`, the float `1e-4F`. -/
def kMinRange : ℚ := 13743895 / 2 ^ 37

/-- `NormalizeScores`. -/
def normalizeScores (results : Candidates) : Option Candidates :=
  if results.length ≤ 1 then some (results.map fun r => (clamp01 r.1, r.2))
  else
    let first := (results.head?.map Prod.fst).getD 0
    let minScore := results.foldl (fun m r => min m r.1) first
    let maxScore := results.foldl (fun m r => max m r.1) first
    let range := maxScore - minScore
    if range < kMinRange then some (results.map fun r => (clamp01 r.1, r.2))
    else results.mapM fun r => (divide (r.1 - minScore) range).map fun score => (score, r.2)

/-- `ComputeAdaptiveWeights`: the weights of the vectors and of the events. -/
def FusionConfig.computeAdaptiveWeights (cfg : FusionConfig) (neighborCount : Nat) :
    Option (ℚ × ℚ) :=
  (divide neighborCount cfg.adaptiveMaturityThreshold).map fun quotient =>
    let ratio := min 1 quotient
    let alpha := cfg.adaptiveMaxAlpha - ratio * (cfg.adaptiveMaxAlpha - cfg.adaptiveMinAlpha)
    (alpha, 1 - alpha)

/-- The weights of the events and of the vectors, of the sources that have candidates; `some none`
    if both are zero. -/
def contributing (hasEvents hasVectors : Bool) (alpha beta : ℚ) : Option (Option (ℚ × ℚ)) :=
  let eventWeight := if hasEvents then beta else 0
  let vectorWeight := if hasVectors then alpha else 0
  if hasEvents ≠ hasVectors then
    some (some (if hasEvents then 1 else 0, if hasVectors then 1 else 0))
  else if 0 < eventWeight + vectorWeight then
    match divide eventWeight (eventWeight + vectorWeight),
      divide vectorWeight (eventWeight + vectorWeight) with
    | some eventWeight, some vectorWeight => some (some (eventWeight, vectorWeight))
    | _, _ => none
  else some none

/-- `MergeAndSelectTopK`. -/
def mergeAndSelectTopK (results : Candidates) (topK : Nat) : Candidates :=
  if results.length ≤ topK then sortItems some results else (sortItems some results).take topK

/-- The candidates of a search that did not fail. -/
def candidatesOf (results : Except Error Candidates) : Candidates :=
  match results with
  | .ok l => l
  | .error _ => []

/-- The errors a fusion ends with. -/
def fusionError (id : Bytes) (events vectors : Except Error Candidates) : Option Error :=
  match vectors with
  | .ok _ => none
  | .error vectorError =>
    if candidatesOf events = [] ∧ candidatesOf vectors = [] then some vectorError
    else
      match events with
      | .ok _ => none
      | .error _ => some (makeError .kSimilaritySearchFailed
          ("Both event and vector searches failed for ID: " ++ textOf id))

namespace FusionSearch

variable {A F : Type} [FloatOps F] (s : FusionSearch A F)

/-- The sums of the weighted scores, filtered, the best of them. -/
def mergeScores (k : Nat) (filter : MetadataFilter) (eventWeight vectorWeight : ℚ)
    (events vectors : Candidates) : Candidates :=
  let scores : AssocMap Bytes ℚ :=
    vectors.foldl (addScore vectorWeight) (events.foldl (addScore eventWeight) .empty)
  let results := (scores.entries.filter fun e =>
    !(s.hasFilter filter && !s.passes filter e.1)).map fun e => (e.2, e.1)
  mergeAndSelectTopK results k

/-- What a fusion makes of what the two searches returned; `none` if it divides by zero. -/
def fuse (id : Bytes) (k : Nat) (alpha beta : ℚ) (filter : MetadataFilter)
    (events vectors : Except Error Candidates) : Option (Except Error Candidates) :=
  match fusionError id events vectors with
  | some e => some (.error e)
  | none =>
    match normalizeScores (candidatesOf events), normalizeScores (candidatesOf vectors),
      contributing (candidatesOf events ≠ []) (candidatesOf vectors ≠ []) alpha beta with
    | some eventScores, some vectorScores, some (some (eventWeight, vectorWeight)) =>
      some (.ok (s.mergeScores k filter eventWeight vectorWeight eventScores vectorScores))
    | some _, some _, some none => some (.ok [])
    | _, _, _ => none

/-- The weights of the vectors and of the events, before they are related to the candidates. -/
def weights (id : Bytes) (adaptive : Option Bool) : Option (ℚ × ℚ) :=
  if adaptive.getD s.fusion.adaptiveFusion then
    s.fusion.computeAdaptiveWeights (s.coIndex.getNeighborCount id)
  else some (s.fusion.fusionAlpha, s.fusion.fusionBeta)

/-- How many candidates each source is asked for. -/
def fusionFetchK (k : Nat) : Nat := min (k * 3) s.config.maxTopK

/-- The candidates of the events, with their scores as numbers. -/
def eventCandidates (fuel : Nat) (id : Bytes) (k : Nat) (filter : MetadataFilter) :
    Option (Except Error Candidates) :=
  (s.searchByIdEvents fuel id (s.fusionFetchK k) filter).map fun found =>
    found.map fun l => l.map fun e => (s.number e.2, e.1)

/-- The candidates of the vectors, with their scores as numbers. -/
def vectorCandidates [AnnSearch A] (fuel : Nat) (c : CompactStore) (id : Bytes) (k : Nat)
    (filter : MetadataFilter) : Option (Except Error Candidates) :=
  (s.searchByIdVectors fuel c id (s.fusionFetchK k) filter).map fun found =>
    found.map fun l => l.map fun r => (floatValue r.score, r.itemId)

/-- `SearchByIdFusion`; `none` if one of the searches is not done within `fuel` rounds, or for a
    division by zero. -/
def searchByIdFusion [AnnSearch A] (fuel : Nat) (c : CompactStore) (id : Bytes) (topK : Int)
    (adaptive : Option Bool) (filter : MetadataFilter) : Option (Except Error Candidates) :=
  match s.validateTopK topK with
  | .error e => some (.error e)
  | .ok k =>
    match s.eventCandidates fuel id k filter, s.weights id adaptive,
      s.vectorCandidates fuel c id k filter with
    | some events, some (alpha, beta), some vectors => s.fuse id k alpha beta filter events vectors
    | _, _, _ => none

end FusionSearch

/-! ## 2. Scores and weights -/

theorem divide_of_ne {x y : ℚ} (h : y ≠ 0) : divide x y = some (x / y) := if_neg h

theorem kMinRange_pos : 0 < kMinRange := by
  unfold kMinRange
  norm_num

/-- **Normalised scores** are those of the same items, in the same order, and lie between zero and
    one. -/
theorem normalizeScores_spec (results : Candidates) :
    ∃ scores, normalizeScores results = some scores ∧
      scores.map Prod.snd = results.map Prod.snd ∧ ∀ r ∈ scores, InUnit r.1 := by
  have hclamp : (results.map fun r => (clamp01 r.1, r.2)).map Prod.snd = results.map Prod.snd ∧
      ∀ r ∈ results.map fun r => (clamp01 r.1, r.2), InUnit r.1 := by
    refine ⟨by rw [List.map_map]; rfl, fun r hr => ?_⟩
    obtain ⟨r, -, rfl⟩ := List.mem_map.mp hr
    exact inUnit_clamp01 r.1
  unfold normalizeScores
  split
  · exact ⟨_, rfl, hclamp⟩
  · dsimp only
    generalize (results.head?.map Prod.fst).getD 0 = first
    split
    · exact ⟨_, rfl, hclamp⟩
    · rename_i hrange
      have hpos := kMinRange_pos.trans_le (not_lt.mp hrange)
      have hlo := (foldl_min_le results first).2
      have hhi := (le_foldl_max results first).2
      simp only [divide_of_ne hpos.ne', Option.map_some]
      refine ⟨_, List.mapM_pure, by rw [List.map_map]; rfl, fun r hr => ?_⟩
      obtain ⟨r, hmem, rfl⟩ := List.mem_map.mp hr
      exact inUnit_spread (hlo r hmem) (hhi r hmem) hpos

theorem normalizeScores_eq_nil {results scores : Candidates}
    (h : normalizeScores results = some scores) : scores = [] ↔ results = [] := by
  obtain ⟨_, heq, hitems, -⟩ := normalizeScores_spec results
  cases h.symm.trans heq
  rw [← List.map_eq_nil_iff (f := Prod.snd), hitems, List.map_eq_nil_iff]

/-- The adaptive weights make one. -/
theorem FusionConfig.computeAdaptiveWeights_spec (cfg : FusionConfig) (neighborCount : Nat) :
    ∃ alpha, cfg.computeAdaptiveWeights neighborCount = some (alpha, 1 - alpha) ∧ InUnit alpha := by
  have hthreshold : (cfg.adaptiveMaturityThreshold : ℚ) ≠ 0 :=
    Nat.cast_ne_zero.mpr cfg.threshold.ne'
  unfold computeAdaptiveWeights
  rw [divide_of_ne hthreshold]
  refine ⟨_, rfl, InUnit.between cfg.minAlpha cfg.maxAlpha cfg.ordered ⟨?_, min_le_left _ _⟩⟩
  exact le_min zero_le_one (div_nonneg (Nat.cast_nonneg _) (Nat.cast_nonneg _))

/-- Weights that are not both zero, brought to the sum one. -/
theorem contributing_both {alpha beta : ℚ} (h : 0 < alpha + beta) :
    contributing true true alpha beta =
      some (some (beta / (alpha + beta), alpha / (alpha + beta))) := by
  have hsum : beta + alpha = alpha + beta := add_comm beta alpha
  unfold contributing
  simp only [if_true, ne_eq, not_true_eq_false, if_false, hsum, h, divide_of_ne h.ne']

theorem contributing_zero {alpha beta : ℚ} (h : alpha + beta = 0) :
    contributing true true alpha beta = some none := by
  have hsum : beta + alpha = 0 := (add_comm beta alpha).trans h
  unfold contributing
  simp [hsum]

theorem contributing_events (alpha beta : ℚ) :
    contributing true false alpha beta = some (some (1, 0)) := rfl

theorem contributing_vectors (alpha beta : ℚ) :
    contributing false true alpha beta = some (some (0, 1)) := rfl

theorem contributing_none (alpha beta : ℚ) : contributing false false alpha beta = some none := by
  simp [contributing]

/-! ## 3. The best of the sums -/

/-- **What a fusion promises** of two lists of normalised scores: the first `k` of the items of
    both, each with the weighted sum of its scores, and the scores themselves where the other list
    is empty. With two lists and no weight there is nothing. -/
structure Fuses (k : Nat) (alpha beta : ℚ) (events vectors results : Candidates) : Prop where
  inUnit : ∀ r ∈ results, InUnit r.1
  both : events ≠ [] → vectors ≠ [] → 0 < alpha + beta →
    Top some k (fused (beta / (alpha + beta)) (alpha / (alpha + beta)) events vectors) results
  weightless : events ≠ [] → vectors ≠ [] → alpha + beta = 0 → results = []
  onlyEvents : vectors = [] → Top some k events results
  onlyVectors : events = [] → Top some k vectors results

/-- Sorted and cut off. -/
theorem mergeAndSelectTopK_top {results : Candidates} (k : Nat)
    (hnd : (results.map Prod.snd).Nodup) : Top some k results (mergeAndSelectTopK results k) := by
  refine ⟨sortItems some results, sortItems_perm, pairwise_sortItems (fun _ _ => rfl) hnd, ?_⟩
  unfold mergeAndSelectTopK
  split
  · rw [List.take_of_length_le]
    rwa [sortItems_perm.length_eq]
  · rfl

theorem top_nil (k : Nat) : Top some k ([] : Candidates) [] :=
  ⟨[], List.Perm.refl _, List.Pairwise.nil, List.take_nil.symm⟩

theorem mem_of_top {k : Nat} {l r : Candidates} (h : Top some k l r) : ∀ x ∈ r, x ∈ l := by
  obtain ⟨all, hperm, -, rfl⟩ := h
  exact fun x hx => hperm.mem_iff.mp (List.mem_of_mem_take hx)

namespace FusionSearch

variable {A F : Type} [FloatOps F] {s : FusionSearch A F} {id : Bytes} {k : Nat}
  {alpha beta : ℚ} {filter : MetadataFilter}

/-- **The merge**: the filter has nothing left to do. -/
theorem mergeScores_top {eventWeight vectorWeight : ℚ} {events vectors : Candidates}
    (hevents : (events.map Prod.snd).Nodup) (hvectors : (vectors.map Prod.snd).Nodup)
    (hpass : ∀ x ∈ events ++ vectors, s.passes filter x.2 = true) :
    Top some k (fused eventWeight vectorWeight events vectors)
      (s.mergeScores k filter eventWeight vectorWeight events vectors) := by
  have hperm := entries_addScores_perm (a := eventWeight) (b := vectorWeight) hevents hvectors
  have hall : ∀ e ∈ (vectors.foldl (addScore vectorWeight)
      (events.foldl (addScore eventWeight) .empty)).entries,
      (!(s.hasFilter filter && !s.passes filter e.1)) = true := by
    intro e he
    obtain ⟨item, hitem, heq⟩ := List.mem_map.mp (hperm.mem_iff.mp (List.mem_map_of_mem he))
    rw [List.mem_dedup, ← List.map_append] at hitem
    obtain ⟨x, hx, hxe⟩ := List.mem_map.mp hitem
    have hitems : x.2 = e.1 := hxe.trans (congrArg Prod.snd heq)
    rw [← hitems, hpass x hx, Bool.not_true, Bool.and_false]
    rfl
  unfold mergeScores
  dsimp only
  rw [List.filter_eq_self.mpr hall]
  refine Top.perm_left (mergeAndSelectTopK_top k ?_) hperm.symm
  exact (hperm.map Prod.snd).nodup_iff.mpr nodup_fused

/-- **A fusion of two lists of different items that pass the filter** never divides by zero, and
    keeps what it promises. -/
theorem fuse_spec (s : FusionSearch A F) (id : Bytes) (k : Nat) {events vectors : Except Error Candidates}
    (halpha : 0 ≤ alpha) (hbeta : 0 ≤ beta)
    (hevents : ((candidatesOf events).map Prod.snd).Nodup)
    (hvectors : ((candidatesOf vectors).map Prod.snd).Nodup)
    (hpass : ∀ x ∈ candidatesOf events ++ candidatesOf vectors, s.passes filter x.2 = true) :
    ∃ eventScores vectorScores answer,
      normalizeScores (candidatesOf events) = some eventScores ∧
      normalizeScores (candidatesOf vectors) = some vectorScores ∧
      s.fuse id k alpha beta filter events vectors = some answer ∧
      ∀ results, answer = .ok results →
        Fuses k alpha beta eventScores vectorScores results := by
  obtain ⟨es, hes, hesItems, hesUnit⟩ := normalizeScores_spec (candidatesOf events)
  obtain ⟨vs, hvs, hvsItems, hvsUnit⟩ := normalizeScores_spec (candidatesOf vectors)
  have hesNil := normalizeScores_eq_nil hes
  have hvsNil := normalizeScores_eq_nil hvs
  have hesNodup : (es.map Prod.snd).Nodup := hesItems ▸ hevents
  have hvsNodup : (vs.map Prod.snd).Nodup := hvsItems ▸ hvectors
  have hpass' : ∀ x ∈ es ++ vs, s.passes filter x.2 = true := by
    intro x hx
    have hmem : x.2 ∈ (candidatesOf events ++ candidatesOf vectors).map Prod.snd := by
      rw [List.map_append, ← hesItems, ← hvsItems, ← List.map_append]
      exact List.mem_map_of_mem hx
    obtain ⟨y, hy, heq⟩ := List.mem_map.mp hmem
    exact heq ▸ hpass y hy
  have htop : ∀ a b, Top some k (fused a b es vs) (s.mergeScores k filter a b es vs) :=
    fun a b => mergeScores_top hesNodup hvsNodup hpass'
  unfold fuse
  cases fusionError id events vectors with
  | some e => exact ⟨es, vs, _, hes, hvs, rfl, nofun⟩
  | none =>
    have hsome : ∀ {l l' : Candidates}, (l' = [] ↔ l = []) → l' ≠ [] → decide (l ≠ []) = true :=
      fun h hne => decide_eq_true fun h' => hne (h.mpr h')
    have hnone : ∀ {l l' : Candidates}, (l' = [] ↔ l = []) → l' = [] → decide (l ≠ []) = false :=
      fun h heq => decide_eq_false (not_not_intro (h.mp heq))
    rw [hes, hvs]
    by_cases he : es = [] <;> by_cases hv : vs = []
    · rw [hnone hesNil he, hnone hvsNil hv, contributing_none]
      refine ⟨es, vs, _, rfl, rfl, rfl, fun results hresults => ?_⟩
      cases hresults
      exact ⟨nofun, fun h => absurd he h, fun h => absurd he h, fun _ => he ▸ top_nil k,
        fun _ => hv ▸ top_nil k⟩
    · rw [hnone hesNil he, hsome hvsNil hv, contributing_vectors]
      refine ⟨es, vs, _, rfl, rfl, rfl, fun results hresults => ?_⟩
      cases hresults
      have honly := htop 0 1
      rw [he, fused_right hvsNodup] at honly
      rw [he]
      exact ⟨fun r hr => hvsUnit r (mem_of_top honly r hr), fun h => absurd rfl h,
        fun h => absurd rfl h, fun h => absurd h hv, fun _ => honly⟩
    · rw [hsome hesNil he, hnone hvsNil hv, contributing_events]
      refine ⟨es, vs, _, rfl, rfl, rfl, fun results hresults => ?_⟩
      cases hresults
      have honly := htop 1 0
      rw [hv, fused_left hesNodup] at honly
      rw [hv]
      exact ⟨fun r hr => hesUnit r (mem_of_top honly r hr), fun _ h => absurd rfl h,
        fun _ h => absurd rfl h, fun _ => honly, fun h => absurd h he⟩
    · rw [hsome hesNil he, hsome hvsNil hv]
      rcases (add_nonneg halpha hbeta).lt_or_eq with hpos | hzero
      · rw [contributing_both hpos]
        refine ⟨es, vs, _, rfl, rfl, rfl, fun results hresults => ?_⟩
        cases hresults
        have hsum := htop (beta / (alpha + beta)) (alpha / (alpha + beta))
        have hone : beta / (alpha + beta) + alpha / (alpha + beta) = 1 := by
          rw [← add_div, add_comm beta alpha, div_self hpos.ne']
        have hunit := inUnit_fused (div_nonneg hbeta hpos.le) (div_nonneg halpha hpos.le) hone
          hesUnit hvsUnit
        exact ⟨fun r hr => hunit r (mem_of_top hsum r hr), fun _ _ _ => hsum,
          fun _ _ h => absurd h hpos.ne', fun h => absurd h hv, fun h => absurd h he⟩
      · rw [contributing_zero hzero.symm]
        refine ⟨es, vs, _, rfl, rfl, rfl, fun results hresults => ?_⟩
        cases hresults
        exact ⟨nofun, fun _ _ h => absurd hzero h.ne, fun _ _ _ => rfl, fun h => absurd h hv,
          fun h => absurd h he⟩

end FusionSearch

/-! ## 4. The candidates of the events -/

namespace EventSearch

variable {A F : Type} [FloatOps F] {s : EventSearch A F} {id : Bytes} {k fuel fetchK : Nat}
  {filter : MetadataFilter} {found : List (Bytes × F)}

/-- What the loop ends with is a stretch of the ranking, filtered. -/
theorem eventLoop_found (h : s.eventLoop id k filter fuel fetchK = some found) :
    ∃ n, found = firstPassing (s.admits filter) k ((s.ranking id).take n) := by
  induction fuel generalizing fetchK with
  | zero => cases h
  | succ fuel ih =>
    unfold eventLoop at h
    dsimp only at h
    split at h
    · cases h
      unfold CoOccurrenceIndex.getSimilar
      split
      · exact ⟨0, rfl⟩
      · exact ⟨_, rfl⟩
    · exact ih h

/-- No neighbour comes twice, and all pass the filter. -/
theorem searchByIdEvents_found {topK : Int}
    (h : s.searchByIdEvents fuel id topK filter = some (.ok found)) :
    (found.map Prod.fst).Nodup ∧ ∀ e ∈ found, s.passes filter e.1 = true := by
  unfold searchByIdEvents at h
  cases hk : s.validateTopK topK with
  | error e =>
    rw [hk] at h
    cases h
  | ok k =>
    rw [hk] at h
    obtain ⟨l, hl, heq⟩ := Option.map_eq_some_iff.mp h
    cases heq
    obtain ⟨n, rfl⟩ := eventLoop_found hl
    have hsub : (firstPassing (s.admits filter) k ((s.ranking id).take n)).Sublist
        (((s.ranking id).take n).filter (s.admits filter)) := List.take_sublist _ _
    have hrow : ((s.coIndex.positives id).map Prod.fst).Nodup := by
      unfold CoOccurrenceIndex.positives
      split
      · exact List.nodup_nil
      · rename_i row _
        exact row.nodupKeys.sublist (List.filter_sublist.map _)
    refine ⟨?_, fun e he => (List.mem_filter.mp (hsub.subset he)).2⟩
    have hranked : ((s.ranking id).map Prod.fst).Nodup :=
      (ranking_perm.map Prod.fst).nodup_iff.mpr hrow
    exact hranked.sublist ((hsub.trans (List.filter_sublist.trans (List.take_sublist _ _))).map _)

end EventSearch

/-! ## 5. The candidates of the vectors -/

/-- An index whose searches return no slot twice. -/
def DistinctSlots {A : Type} [AnnSearch A] (index : A) : Prop :=
  ∀ query n, ((AnnSearch.search index query n).map Prod.fst).Nodup

namespace VectorSearch

variable {A : Type} {s : VectorSearch A} {c : CompactStore} {vs : VectorStore}
  {m : MapStore} {k : Nat} {filter : MetadataFilter} {query : List UInt32} {queryNorm : UInt32}

/-- The slot holds a vector. -/
def LiveSlot (c : CompactStore) (idx : Nat) : Prop :=
  idx < c.idxToId.length ∧ c.deleted.getD idx false = false

/-- Two live slots have two ids. -/
theorem eq_of_liveSlots {fl : VectorFloats} (h : Held fl c vs m) {i j : Nat} (hi : LiveSlot c i)
    (hj : LiveSlot c j) (hid : c.idxToId.getD i [] = c.idxToId.getD j []) : i = j := by
  have hr := h.represents
  have hlive : ∀ {i}, LiveSlot c i → vs.idToIdx.find? (c.idxToId.getD i []) = some i := by
    intro i hi
    have hlt : i < vs.slots.length := hr.length_idxToId ▸ hi.1
    have he := List.getElem?_eq_getElem hlt
    refine (h.inv.live _ i).mpr ⟨_, he, ?_, ?_⟩
    · rw [← hr.getD_deleted he]
      exact hi.2
    · rw [hr.idxToId, List.getD_eq_getElem?_getD, List.getElem?_map, he]
      rfl
  exact Option.some.inj ((hlive hi).symm.trans (hid ▸ hlive hj))

/-- Ids of different live slots are different. -/
theorem nodup_ids {fl : VectorFloats} (h : Held fl c vs m) {l : List (UInt32 × Nat)}
    (hlive : ∀ e ∈ l, LiveSlot c e.2) (hnd : (l.map Prod.snd).Nodup) :
    (l.map fun e => c.idxToId.getD e.2 []).Nodup := by
  refine List.pairwise_map.mpr ((List.pairwise_map.mp hnd).imp_of_mem ?_)
  exact fun hx hy hne hid => hne (eq_of_liveSlots h (hlive _ hx) (hlive _ hy) hid)

/-- No item comes twice from an index that finds no slot twice. -/
theorem annResults_found {fl : VectorFloats} (h : Held fl c vs m) {exclude : Option Bytes}
    {found : List (Nat × UInt32)} (hnd : (found.map Prod.fst).Nodup) :
    ((s.annResults c k exclude filter found).map Prod.snd).Nodup ∧
      ∀ e ∈ s.annResults c k exclude filter found, s.passes filter e.2 = true := by
  have hkept : ∀ {r : Nat × UInt32} {e : UInt32 × Bytes},
      (if c.idxToId.length ≤ r.1 ∨ c.deleted.getD r.1 false then none
        else if exclude = some (c.idxToId.getD r.1 []) ∨
          ¬ s.passes filter (c.idxToId.getD r.1 []) then none
        else some (r.2, c.idxToId.getD r.1 [])) = some e →
      LiveSlot c r.1 ∧ e.2 = c.idxToId.getD r.1 [] ∧ s.passes filter e.2 = true := by
    intro r e hr
    split at hr
    · cases hr
    · rename_i hslot
      push Not at hslot
      split at hr
      · cases hr
      · rename_i hpass
        cases hr
        push Not at hpass
        exact ⟨⟨hslot.1, Bool.eq_false_of_not_eq_true hslot.2⟩, rfl, hpass.2⟩
  unfold annResults
  constructor
  · rw [List.map_take]
    refine List.Nodup.sublist (List.take_sublist _ _) ?_
    refine List.pairwise_map.mpr (List.pairwise_filterMap.mpr ?_)
    refine (List.pairwise_map.mp hnd).imp fun {r r'} hne e he e' he' heq => ?_
    obtain ⟨hlive, hid, -⟩ := hkept he
    obtain ⟨hlive', hid', -⟩ := hkept he'
    exact hne (eq_of_liveSlots h hlive hlive' (hid.symm.trans (heq.trans hid')))
  · intro e he
    obtain ⟨r, -, hr⟩ := List.mem_filterMap.mp (List.mem_of_mem_take he)
    exact (hkept hr).2.2

variable [AnnSearch A]

/-- What the loop over the index ends with comes from one search of it. -/
theorem annLoop_found {index : A} {exclude : Option Bytes} {fuel fetch : Nat}
    {results : List (UInt32 × Bytes)}
    (h : s.annLoop index c query k exclude filter fuel fetch = some (.results results)) :
    results = [] ∨ ∃ n, results =
      s.annResults c k exclude filter (AnnSearch.search index query n) := by
  induction fuel generalizing fetch with
  | zero => cases h
  | succ fuel ih =>
    unfold annLoop at h
    dsimp only at h
    split at h
    · cases h
      exact .inl rfl
    · split at h
      · cases h
      · split at h
        · exact ih h
        · cases h
          exact .inr ⟨_, rfl⟩

omit [AnnSearch A] in
/-- The sample has no slot twice. -/
theorem sampleIndices_found (total sampleSize : Nat) :
    (s.sampleIndices total sampleSize).Nodup ∧
      ∀ i ∈ s.sampleIndices total sampleSize, i < total := by
  unfold sampleIndices
  split
  · exact ⟨List.nodup_range, fun i hi => List.mem_range.mp hi⟩
  · rename_i htotal
    -- after the indices below `n`
    have hstep : ∀ n, ((List.range' sampleSize n).foldl
          (fun reservoir i => reservoir.set (s.rng i % (i + 1)) i) (List.range sampleSize)).Nodup ∧
        ∀ i ∈ (List.range' sampleSize n).foldl
          (fun reservoir i => reservoir.set (s.rng i % (i + 1)) i) (List.range sampleSize),
          i < sampleSize + n := by
      intro n
      induction n with
      | zero => exact ⟨List.nodup_range, fun i hi => List.mem_range.mp hi⟩
      | succ n ih =>
        rw [List.range'_concat, List.foldl_append, List.foldl_cons, List.foldl_nil, Nat.one_mul]
        refine ⟨ih.1.set fun hmem => absurd (ih.2 _ hmem) (lt_irrefl _), fun i hi => ?_⟩
        cases List.mem_or_eq_of_mem_set hi with
        | inl hold => exact (ih.2 i hold).trans (Nat.lt_succ_self _)
        | inr hnew => omega
    obtain ⟨hnd, hlt⟩ := hstep (total - sampleSize)
    exact ⟨hnd, fun i hi => (hlt i hi).trans_eq (by omega)⟩

omit [AnnSearch A] in
theorem scanIndices_found (count : Nat) :
    (s.scanIndices count).Nodup ∧ ∀ i ∈ s.scanIndices count, i < count := by
  unfold scanIndices
  split
  · exact sampleIndices_found count _
  · exact ⟨List.nodup_range, fun i hi => List.mem_range.mp hi⟩

omit [AnnSearch A] in
/-- No item comes twice from the scan. -/
theorem flatSearch_found {fl : VectorFloats} (h : Held fl c vs m) (queryIdx : Option Nat) :
    ((s.flatSearch c k queryIdx filter query queryNorm).map (·.itemId)).Nodup ∧
      ∀ r ∈ s.flatSearch c k queryIdx filter query queryNorm, s.passes filter r.itemId = true := by
  obtain ⟨hscan, hcount⟩ := s.scanIndices_found c.idxToId.length
  unfold flatSearch
  rw [foldl_pushCandidate]
  generalize hcands : ((s.scanIndices c.idxToId.length).filter
    (s.offered c queryIdx filter)).map (fun idx => (s.score query queryNorm
      (rowAt c.dimension c.matrix idx) (c.norms.getD idx 0), idx)) = cands
  have hslots : (cands.map Prod.snd).Nodup := by
    rw [← hcands, List.map_map]
    exact (hscan.filter _).map fun _ _ h => h
  have hoffered : ∀ e ∈ cands, LiveSlot c e.2 ∧
      s.passes filter (c.idxToId.getD e.2 []) = true := by
    intro e he
    rw [← hcands] at he
    obtain ⟨idx, hidx, rfl⟩ := List.mem_map.mp he
    obtain ⟨hmem, hoff⟩ := List.mem_filter.mp hidx
    unfold offered at hoff
    simp only [Bool.and_eq_true, Bool.not_eq_true'] at hoff
    exact ⟨⟨hcount idx hmem, hoff.1.2⟩, hoff.2⟩
  have hnodup : ((cands ++ []).map Prod.snd).Nodup := by rwa [List.append_nil]
  obtain ⟨hheap, hsub⟩ := Ranking.foldl_offer_nodup (R := s.queue) (k := k) hnodup
  generalize cands.foldl (s.queue.offer k) [] = heap at hheap hsub ⊢
  have hmem : ∀ e ∈ heap, e ∈ cands := fun e he => (hsub e he).resolve_right nofun
  have hfound : (((sortItems floatKey ((s.queue.drain heap.length heap).map fun e =>
      (e.1, c.idxToId.getD e.2 []))).map toResult).map (·.itemId)).Perm
        (heap.map fun e => c.idxToId.getD e.2 []) := by
    rw [List.map_map]
    refine (sortItems_perm.map _).trans ?_
    rw [List.map_map]
    exact (Ranking.drain_perm heap).map _
  refine ⟨hfound.nodup_iff.mpr (nodup_ids h (fun e he => (hoffered e (hmem e he)).1) hheap),
    fun r hr => ?_⟩
  obtain ⟨e, he, heq⟩ := List.mem_map.mp (hfound.mem_iff.mp (List.mem_map_of_mem hr))
  exact heq ▸ (hoffered e (hmem e he)).2

/-- **The candidates of the vectors**: no item comes twice, and all pass the filter. -/
theorem searchByIdVectors_found {fl : VectorFloats} (h : Held fl c vs m)
    (hindex : ∀ index, s.engine.annIndex = some index → DistinctSlots index) {fuel : Nat}
    {id : Bytes} {topK : Int} {results : List SimilarityResult}
    (hresults : s.searchByIdVectors fuel c id topK filter = some (.ok results)) :
    (results.map (·.itemId)).Nodup ∧ ∀ r ∈ results, s.passes filter r.itemId = true := by
  have hsorted : ∀ {found : List (UInt32 × Bytes)}, (found.map Prod.snd).Nodup →
      (∀ e ∈ found, s.passes filter e.2 = true) →
      (((sortItems floatKey found).map toResult).map (·.itemId)).Nodup ∧
        ∀ r ∈ (sortItems floatKey found).map toResult, s.passes filter r.itemId = true := by
    intro found hnd hpass
    rw [List.map_map]
    refine ⟨(sortItems_perm.map Prod.snd).nodup_iff.mpr hnd, fun r hr => ?_⟩
    obtain ⟨e, he, rfl⟩ := List.mem_map.mp hr
    exact hpass e (sortItems_perm.mem_iff.mp he)
  unfold searchByIdVectors at hresults
  split at hresults
  · cases hresults
  · rename_i k _
    split at hresults
    · cases hresults
    · split at hresults
      · cases hresults
      · rename_i queryIdx _
        dsimp only at hresults
        split at hresults
        · cases hresults
        · rename_i found hask
          cases hresults
          unfold askIndex at hask
          split at hask
          · cases hask
          · rename_i index hsome
            split at hask
            · obtain rfl | ⟨n, rfl⟩ := annLoop_found hask
              · exact hsorted List.nodup_nil fun _ he => absurd he List.not_mem_nil
              · obtain ⟨hnd, hpass⟩ := annResults_found h (hindex index hsome _ n)
                exact hsorted hnd hpass
            · cases hask
        · cases hresults
          exact flatSearch_found h _

end VectorSearch

/-! ## 6. The fusion of a store -/

namespace FusionSearch

variable {A F : Type} [FloatOps F] {s : FusionSearch A F} {id : Bytes} {k : Nat}
  {filter : MetadataFilter}

theorem weights_spec (s : FusionSearch A F) (id : Bytes) (adaptive : Option Bool) :
    ∃ alpha beta, s.weights id adaptive = some (alpha, beta) ∧ 0 ≤ alpha ∧ 0 ≤ beta := by
  unfold weights
  split
  · obtain ⟨alpha, heq, hunit⟩ :=
      s.fusion.computeAdaptiveWeights_spec (s.coIndex.getNeighborCount id)
    exact ⟨alpha, 1 - alpha, heq, hunit.1, sub_nonneg.mpr hunit.2⟩
  · exact ⟨_, _, rfl, s.fusion.alpha.1, s.fusion.beta.1⟩

/-- What was found of different items, read as candidates. -/
theorem candidatesOf_map {α : Type} {p : Bytes → Bool} (score : α → ℚ) (item : α → Bytes)
    {found : Except Error (List α)}
    (h : ∀ l, found = .ok l → (l.map item).Nodup ∧ ∀ x ∈ l, p (item x) = true) :
    ((candidatesOf (found.map fun l => l.map fun x => (score x, item x))).map Prod.snd).Nodup ∧
      ∀ x ∈ candidatesOf (found.map fun l => l.map fun x => (score x, item x)), p x.2 = true := by
  cases found with
  | error e => exact ⟨List.nodup_nil, nofun⟩
  | ok l =>
    obtain ⟨hnd, hpass⟩ := h l rfl
    show ((l.map fun x => (score x, item x)).map Prod.snd).Nodup ∧
      ∀ x ∈ l.map fun x => (score x, item x), p x.2 = true
    rw [List.map_map]
    refine ⟨hnd, fun x hx => ?_⟩
    obtain ⟨y, hy, rfl⟩ := List.mem_map.mp hx
    exact hpass y hy

theorem eventCandidates_found {fuel : Nat} {events : Except Error Candidates}
    (h : s.eventCandidates fuel id k filter = some events) :
    ((candidatesOf events).map Prod.snd).Nodup ∧
      ∀ x ∈ candidatesOf events, s.passes filter x.2 = true := by
  obtain ⟨found, hfound, rfl⟩ := Option.map_eq_some_iff.mp h
  refine candidatesOf_map (fun e => s.number e.2) Prod.fst fun l hl => ?_
  exact EventSearch.searchByIdEvents_found (hl ▸ hfound)

theorem vectorCandidates_found [AnnSearch A] {fl : VectorFloats} {c : CompactStore}
    {vs : VectorStore} {m : MapStore} (hheld : Held fl c vs m)
    (hindex : ∀ index, s.engine.annIndex = some index → DistinctSlots index) {fuel : Nat}
    {vectors : Except Error Candidates} (h : s.vectorCandidates fuel c id k filter = some vectors) :
    ((candidatesOf vectors).map Prod.snd).Nodup ∧
      ∀ x ∈ candidatesOf vectors, s.passes filter x.2 = true := by
  obtain ⟨found, hfound, rfl⟩ := Option.map_eq_some_iff.mp h
  have hlist : ∀ l, found = .ok l → (l.map fun r => r.itemId).Nodup ∧
      ∀ r ∈ l, s.passes filter r.itemId = true := by
    rintro l rfl
    exact VectorSearch.searchByIdVectors_found hheld hindex hfound
  exact @candidatesOf_map SimilarityResult (s.passes filter) (fun r => floatValue r.score)
    (fun r => r.itemId) found hlist

/-- The same weight for both sources. -/
def equalWeights (weight : ℚ) (h : InUnit weight) : FusionConfig where
  fusionAlpha := weight
  fusionBeta := weight
  adaptiveMinAlpha := 0
  adaptiveMaxAlpha := 1
  adaptiveMaturityThreshold := 50
  alpha := h
  beta := h
  minAlpha := ⟨le_rfl, zero_le_one⟩
  maxAlpha := ⟨zero_le_one, le_rfl⟩
  ordered := zero_le_one
  threshold := Nat.succ_pos 49

/-- Two items that were seen together, with equal vectors. -/
def pairSearch (weight : ℚ) (h : InUnit weight) : FusionSearch Empty Int where
  toVectorSearch := unitSearch
  coIndex :=
    { config := { minSupport := 0 }
      coScores := (AssocMap.empty : CoScores Int).insert [97] ((AssocMap.empty).insert [98] 1) }
  byScore := Sorter.byKey Prod.snd
  fusion := equalWeights weight h
  number n := n

/-- The candidates of a search that ended well. -/
def foundCandidates (results : Option (Except Error Candidates)) : Option Candidates :=
  match results with
  | some (.ok l) => some l
  | _ => none

theorem eq_of_foundCandidates {results : Option (Except Error Candidates)} {l : Candidates}
    (h : foundCandidates results = some l) : results = some (.ok l) := by
  unfold foundCandidates at h
  split at h
  · cases h
    rfl
  · cases h

theorem pairSearch_events (weight : ℚ) (h : InUnit weight) :
    (pairSearch weight h).eventCandidates 1 [97] 1 [] = some (.ok [(1, [98])]) :=
  eq_of_foundCandidates (show foundCandidates ((pairSearch 0 ⟨le_rfl, zero_le_one⟩).eventCandidates
    1 [97] 1 []) = some [(1, [98])] by decide +kernel)

theorem pairSearch_vectors (weight : ℚ) (h : InUnit weight) :
    (pairSearch weight h).vectorCandidates 1 (storeAfter [[97], [98]]) [97] 1 [] =
      some (.ok [(1, [98])]) :=
  eq_of_foundCandidates (show foundCandidates ((pairSearch 0 ⟨le_rfl, zero_le_one⟩).vectorCandidates
    1 (storeAfter [[97], [98]]) [97] 1 []) = some [(1, [98])] by decide +kernel)

end FusionSearch

end Nvecd.Similarity
