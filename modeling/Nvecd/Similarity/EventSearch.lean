/-
  File:      Nvecd/Similarity/EventSearch.lean
  Subject:   `SearchByIdEvents` of `similarity/similarity_engine.cpp`: the neighbours of an item by
             their scores, filtered.

  The index is asked for `top_k` neighbours, and, while the filter leaves too few, for twice as
  many, up to all neighbours stored. What it returns is always a stretch from the front of one
  ranking, so a longer stretch never drops an item that a shorter one had.

  * `getNeighborCount`, `getSimilar` -- what the index is asked;
  * `EventSearch.eventLoop`, `EventSearch.searchByIdEvents`;
  * `eventLoop_eq` -- the loop ends, and with the first `k` of the whole ranking that pass, unless
    it is `Stuck`: the size asked for is an `int`, and cannot grow past its largest value;
  * `searchByIdEvents_iff` -- a search returns those items if and only if it is not.
-/
import Nvecd.Events.CoOccurrence
import Nvecd.Lib.Delimited
import Nvecd.Lib.Ranked
import Nvecd.Similarity.FlatSearch

namespace Nvecd.Events

open Nvecd.Lib Nvecd.Storage

variable {F : Type} [FloatOps F]

/-- By score, the largest first. -/
abbrev ByScore (F : Type) [FloatOps F] := Sorter (Bytes × F) fun a b => FloatOps.lt b.2 a.2

namespace CoOccurrenceIndex

/-- `GetNeighborCount`: all neighbours stored, whatever their scores. -/
def getNeighborCount (x : CoOccurrenceIndex F) (id : Bytes) : Nat :=
  match x.coScores.find? id with
  | none => 0
  | some row => row.size

/-- The neighbours with a positive score, as the map is walked. -/
def positives (x : CoOccurrenceIndex F) (id : Bytes) : List (Bytes × F) :=
  match x.coScores.find? id with
  | none => []
  | some row => row.entries.filter fun e => FloatOps.lt FloatOps.zero e.2

/-- `GetSimilar`. -/
def getSimilar (byScore : ByScore F) (x : CoOccurrenceIndex F) (id : Bytes) (topK : Int) :
    List (Bytes × F) :=
  if topK ≤ 0 then [] else (byScore.sort (x.positives id)).take topK.toNat

theorem length_positives_le (x : CoOccurrenceIndex F) (id : Bytes) :
    (x.positives id).length ≤ x.getNeighborCount id := by
  unfold positives getNeighborCount
  split
  · exact Nat.le_refl _
  · exact List.length_filter_le _ _

end CoOccurrenceIndex

end Nvecd.Events

namespace Nvecd.Similarity

open Nvecd.Cache Nvecd.Events Nvecd.Lib Nvecd.Storage Nvecd.Utils Nvecd.Vectors

/-! ## 1. The search -/

/-- The members of `SimilarityEngine` that a search of the events reads. -/
structure EventSearch (A F : Type) [FloatOps F] extends VectorSearch A where
  coIndex : CoOccurrenceIndex F
  byScore : ByScore F

/-- `std::numeric_limits<int>::max()`. -/
def kIntMax : Nat := 2 ^ 31 - 1

namespace EventSearch

variable {A F : Type} [FloatOps F] (s : EventSearch A F)

/-- The index is asked for twice as many until enough pass the filter or there are no more. -/
def eventLoop (id : Bytes) (k : Nat) (filter : MetadataFilter) :
    Nat → Nat → Option (List (Bytes × F))
  | 0, _ => none
  | fuel + 1, fetchK =>
    let neighborCount := s.coIndex.getNeighborCount id
    let coResults := s.coIndex.getSimilar s.byScore id fetchK
    let results := firstPassing (fun e => s.passes filter e.1) k coResults
    if ¬ s.hasFilter filter ∨ k ≤ results.length ∨ coResults.length < fetchK ∨
        neighborCount ≤ fetchK then some results
    else eventLoop id k filter fuel (min neighborCount (min (fetchK * 2) kIntMax))

/-- `SearchByIdEvents`; `none` when the loop is not done within `fuel` rounds. -/
def searchByIdEvents (fuel : Nat) (id : Bytes) (topK : Int) (filter : MetadataFilter) :
    Option (Except Error (List (Bytes × F))) :=
  match s.validateTopK topK with
  | .error e => some (.error e)
  | .ok k => (s.eventLoop id k filter fuel k).map .ok

/-! ## 2. The loop -/

/-- All neighbours with a positive score, ranked. -/
def ranking (id : Bytes) : List (Bytes × F) := s.byScore.sort (s.coIndex.positives id)

/-- The filter of the search, on a neighbour. -/
def admits (filter : MetadataFilter) (e : Bytes × F) : Bool := s.passes filter e.1

/-- As many are asked for as an `int` can say, as many come, and too few of them pass the filter,
while more neighbours are stored. -/
structure Stuck (id : Bytes) (k : Nat) (filter : MetadataFilter) : Prop where
  filtered : s.hasFilter filter = true
  stored : kIntMax < s.coIndex.getNeighborCount id
  positive : kIntMax ≤ (s.coIndex.positives id).length
  few : (((s.ranking id).take kIntMax).filter (s.admits filter)).length < k

variable {s} {id : Bytes} {k fuel fetchK : Nat} {filter : MetadataFilter}

theorem length_ranking : (s.ranking id).length = (s.coIndex.positives id).length :=
  (s.byScore.perm _).length_eq

theorem length_ranking_le : (s.ranking id).length ≤ s.coIndex.getNeighborCount id :=
  length_ranking.trans_le (s.coIndex.length_positives_le id)

/-- The index returns a stretch of the ranking. -/
theorem getSimilar_eq (h : 0 < fetchK) :
    s.coIndex.getSimilar s.byScore id fetchK = (s.ranking id).take fetchK := by
  refine (if_neg (by omega)).trans ?_
  rw [Int.toNat_natCast]
  rfl

theorem admits_of_not_hasFilter (h : s.hasFilter filter = false) (e : Bytes × F) :
    s.admits filter e = true := by
  unfold VectorSearch.hasFilter at h
  unfold admits VectorSearch.passes
  cases hstore : s.metadataStore with
  | none => rfl
  | some store =>
    rw [hstore, Option.isSome_some, Bool.and_true, decide_eq_false_iff_not, not_not] at h
    simp [h]

/-- The conditions on which the loop goes on. -/
structure GoesOn (s : EventSearch A F) (id : Bytes) (k : Nat) (filter : MetadataFilter)
    (fetchK : Nat) : Prop where
  filtered : s.hasFilter filter = true
  few : (((s.ranking id).take fetchK).filter (s.admits filter)).length < k
  came : fetchK ≤ (s.ranking id).length
  stored : fetchK < s.coIndex.getNeighborCount id

theorem eventLoop_step (hfetch : 0 < fetchK) (h : GoesOn s id k filter fetchK) :
    s.eventLoop id k filter (fuel + 1) fetchK = s.eventLoop id k filter fuel
      (min (s.coIndex.getNeighborCount id) (min (fetchK * 2) kIntMax)) := by
  have hcount : (firstPassing (s.admits filter) k ((s.ranking id).take fetchK)).length < k := by
    rw [length_firstPassing]
    exact lt_of_le_of_lt (Nat.min_le_right _ _) h.few
  refine if_neg ?_
  rw [getSimilar_eq hfetch]
  rintro (hno | henough | hshort | hall)
  · exact hno h.filtered
  · exact absurd hcount (not_lt.mpr henough)
  · rw [List.length_take, Nat.min_eq_left h.came] at hshort
    exact lt_irrefl _ hshort
  · exact absurd h.stored (not_lt.mpr hall)

/-- Where the loop ends, nothing that would have been found is missing. -/
theorem eventLoop_stop (hfetch : 0 < fetchK) (hk : k ≤ fetchK)
    (h : ¬ GoesOn s id k filter fetchK) :
    s.eventLoop id k filter (fuel + 1) fetchK =
      some (firstPassing (s.admits filter) k (s.ranking id)) := by
  have hround : s.eventLoop id k filter (fuel + 1) fetchK =
      some (firstPassing (s.admits filter) k ((s.ranking id).take fetchK)) := by
    refine (if_pos ?_).trans (congrArg (fun l => some (firstPassing _ k l)) (getSimilar_eq hfetch))
    rw [getSimilar_eq hfetch]
    by_contra hgo
    push Not at hgo
    obtain ⟨hfiltered, hfew, hcame, hstored⟩ := hgo
    refine h ⟨hfiltered, ?_, ?_, hstored⟩
    · have hcount := hfew
      change (firstPassing (s.admits filter) k _).length < k at hcount
      rw [length_firstPassing] at hcount
      omega
    · rw [List.length_take] at hcame
      omega
  rw [hround]
  congr 1
  by_cases hfiltered : s.hasFilter filter = true
  · by_cases hfew : (((s.ranking id).take fetchK).filter (s.admits filter)).length < k
    · refine firstPassing_take_of_length ?_
      by_contra hlong
      exact h ⟨hfiltered, hfew, by omega, lt_of_lt_of_le (not_le.mp hlong) length_ranking_le⟩
    · exact firstPassing_take_of_enough (not_lt.mp hfew)
  · exact firstPassing_take_of_all
      (fun e _ => admits_of_not_hasFilter (Bool.eq_false_of_not_eq_true hfiltered) e) hk

/-- The loop asks for more in every round until the size is the largest `int`. -/
theorem eventLoop_eq (hpos : 0 < k) (hk : k ≤ fetchK) (hmax : fetchK ≤ kIntMax)
    (hstuck : ¬ s.Stuck id k filter) (hfuel : kIntMax - fetchK < fuel) :
    s.eventLoop id k filter fuel fetchK =
      some (firstPassing (s.admits filter) k (s.ranking id)) := by
  induction fuel generalizing fetchK with
  | zero => omega
  | succ fuel ih =>
    by_cases hgo : GoesOn s id k filter fetchK
    · have hne : fetchK ≠ kIntMax := by
        rintro rfl
        exact hstuck ⟨hgo.filtered, hgo.stored, hgo.came.trans_eq length_ranking, hgo.few⟩
      have hstored := hgo.stored
      rw [eventLoop_step (by omega) hgo]
      exact ih (by omega) (by omega) (by omega)
    · exact eventLoop_stop (by omega) hk hgo

/-- A search that is stuck asks for the same again. -/
theorem eventLoop_none (hpos : 0 < fetchK) (hmax : fetchK ≤ kIntMax)
    (hstuck : s.Stuck id k filter) : s.eventLoop id k filter fuel fetchK = none := by
  induction fuel generalizing fetchK with
  | zero => rfl
  | succ fuel ih =>
    have hstored := hstuck.stored
    have hgo : GoesOn s id k filter fetchK := by
      refine ⟨hstuck.filtered, ?_, ?_, by omega⟩
      · exact lt_of_le_of_lt (length_filter_take_le hmax) hstuck.few
      · exact hmax.trans (hstuck.positive.trans_eq length_ranking.symm)
    rw [eventLoop_step hpos hgo]
    refine ih (lt_min (by omega) (lt_min (by omega) ?_)) (by omega)
    unfold kIntMax
    omega

/-! ## 3. The search returns the first that match -/

theorem validateTopK_bounds {topK : Int32} (h : s.validateTopK topK.toInt = .ok k) :
    0 < k ∧ k ≤ kIntMax := by
  have hlt := topK.toInt_lt
  unfold VectorSearch.validateTopK at h
  split at h
  · cases h
  · split at h
    · cases h
    · cases h
      unfold kIntMax
      omega

theorem ranking_perm : (s.ranking id).Perm (s.coIndex.positives id) := s.byScore.perm _

theorem ranking_sorted :
    (s.ranking id).Pairwise fun a b => FloatOps.lt a.2 b.2 = false := s.byScore.sorted _

/-- For every index, store, filter, item and `top_k`: the ranking has the neighbours of positive
score, best first, and the search ends, with the first `top_k` of them that match, if and only if
it is not `Stuck`. -/
theorem searchByIdEvents_iff (s : EventSearch A F) (id : Bytes) (topK : Int32)
    (filter : MetadataFilter) :
    (s.ranking id).Perm (s.coIndex.positives id) ∧
      (s.ranking id).Pairwise (fun a b => FloatOps.lt a.2 b.2 = false) ∧
      ((∃ fuel, s.searchByIdEvents fuel id topK.toInt filter =
          some ((s.validateTopK topK.toInt).map fun k =>
            ((s.ranking id).filter (s.admits filter)).take k)) ↔
        ∀ k, s.validateTopK topK.toInt = .ok k → ¬ s.Stuck id k filter) := by
  refine ⟨ranking_perm, ranking_sorted, ?_⟩
  cases hk : s.validateTopK topK.toInt with
  | error e =>
    refine ⟨fun _ k hk => absurd hk (by simp), fun _ => ⟨0, ?_⟩⟩
    unfold searchByIdEvents
    rw [hk]
    rfl
  | ok k =>
    obtain ⟨hpos, hmax⟩ := validateTopK_bounds hk
    have hsearch : ∀ fuel, s.searchByIdEvents fuel id topK.toInt filter =
        (s.eventLoop id k filter fuel k).map .ok := by
      intro fuel
      unfold searchByIdEvents
      rw [hk]
    constructor
    · rintro ⟨fuel, hfuel⟩ k' hk' hstuck
      cases hk'
      rw [hsearch, eventLoop_none hpos hmax hstuck] at hfuel
      cases hfuel
    · intro h
      refine ⟨kIntMax - k + 1, ?_⟩
      rw [hsearch, eventLoop_eq hpos le_rfl hmax (h k rfl) (Nat.lt_succ_self _)]
      rfl

/-! ## 4. A search that does not end -/

/-- Neighbours `0`, `1`, … with the score one. -/
def crowd (n : Nat) : AssocMap Bytes Int where
  entries := (List.range n).map fun i => (natText i, 1)
  nodupKeys := by
    rw [List.map_map]
    exact List.nodup_range.map natText_injective

/-- One item with `n` neighbours, and no metadata. -/
def crowdedSearch (n : Nat) : EventSearch Empty Int where
  toVectorSearch := { unitSearch with metadataStore := some {} }
  coIndex :=
    { config := { minSupport := 0 }
      coScores := (AssocMap.empty : CoScores Int).insert [97] (crowd n) }
  byScore := Sorter.byKey Prod.snd

/-- One condition, on the field `k`. -/
def kindFilter : MetadataFilter := [{ field := [107], op := .kEq }]

theorem crowdedSearch_row (n : Nat) :
    (crowdedSearch n).coIndex.coScores.find? [97] = some (crowd n) :=
  AssocMap.find?_insert_self _ _ _

theorem crowdedSearch_positives (n : Nat) :
    (crowdedSearch n).coIndex.positives [97] = (crowd n).entries := by
  unfold CoOccurrenceIndex.positives
  rw [crowdedSearch_row]
  refine List.filter_eq_self.mpr fun e he => ?_
  obtain ⟨i, -, rfl⟩ := List.mem_map.mp he
  rfl

theorem crowdedSearch_stuck {n : Nat} (h : kIntMax < n) :
    (crowdedSearch n).Stuck [97] 1 kindFilter := by
  have hsize : (crowd n).entries.length = n := by simp [crowd]
  refine ⟨rfl, ?_, ?_, ?_⟩
  · unfold CoOccurrenceIndex.getNeighborCount
    rw [crowdedSearch_row]
    exact h.trans_eq hsize.symm
  · rw [crowdedSearch_positives, hsize]
    exact h.le
  · have hnone : ∀ e, (crowdedSearch n).admits kindFilter e = false := fun e => rfl
    rw [List.filter_eq_nil_iff.mpr fun e _ => by simp [hnone e]]
    exact Nat.zero_lt_one

/-- An item with 2147483648 neighbours, a filter that none of them passes, `top_k` one: the answer
    would be no neighbour, but the search never ends. -/
theorem crowded_search_never_ends :
    (crowdedSearch (2 ^ 31)).validateTopK 1 = .ok 1 ∧
      ((crowdedSearch (2 ^ 31)).ranking [97]).filter
        ((crowdedSearch (2 ^ 31)).admits kindFilter) = [] ∧
      ∀ fuel, (crowdedSearch (2 ^ 31)).searchByIdEvents fuel [97] 1 kindFilter = none := by
  have hk : (crowdedSearch (2 ^ 31)).validateTopK 1 = .ok 1 := rfl
  refine ⟨hk, List.filter_eq_nil_iff.mpr fun e _ => Bool.false_ne_true, fun fuel => ?_⟩
  have hstuck : (crowdedSearch (2 ^ 31)).Stuck [97] 1 kindFilter :=
    crowdedSearch_stuck (by unfold kIntMax; omega)
  unfold searchByIdEvents
  rw [hk]
  dsimp only
  rw [eventLoop_none Nat.zero_lt_one (by unfold kIntMax; omega) hstuck]
  rfl

end EventSearch

end Nvecd.Similarity
