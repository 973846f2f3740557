/-
  File:      Nvecd/Vectors/IvfTraining.lean
  Subject:   What a training reads, and what it leaves behind.

  `Train` clamps the number of clusters to the number of vectors, but `KMeansTrain` draws the
  initial centroids from the sample, which has at most `kMaxTrainingSamples` vectors. With more
  clusters than that it reads past the end of `init_indices`.

  * `findBest_total`, `lloydStep_total`, `assignAll_total` -- the loops of a training, which read
    in range if there are as many centroids as there are clusters;
  * `WellTrained` -- the index after a training;
  * `train_in_range_iff` -- a training reads in range exactly if there are at most
    `kMaxTrainingSamples` clusters or vectors.
-/
import Nvecd.Lib.Checked
import Nvecd.Vectors.IvfIndex

namespace Nvecd.Vectors

open Nvecd.Lib

variable {fl : IvfFloats} {rng : IvfRandom} {metric : IvfMetric} {config : IvfConfig}
  {matrix centroids : List Row} {norms : List UInt32} {sample validIndices : List Nat}
  {nlist dim : Nat}

/-! ## 1. The nearest centroid -/

section Nearest

variable (fl metric)

/-- The best cluster so far is one of them. -/
theorem findBest_total (hc : centroids.length = nlist) (hn : norms.length = nlist)
    (hpos : 0 < nlist) (vec : Row) :
    ∃ best, findBest fl metric centroids norms nlist vec = some best ∧ best.1 < nlist := by
  have hstep : ∀ (best : Nat × UInt32) (c : Nat), best.1 < nlist → c < nlist →
      ∃ next, compareCentroid fl metric centroids norms vec best c = some next ∧
        next.1 < nlist := by
    intro best c hbest hlt
    unfold compareCentroid
    rw [List.getElem?_eq_getElem (hc ▸ hlt), List.getElem?_eq_getElem (hn ▸ hlt)]
    refine ⟨_, rfl, ?_⟩
    split <;> assumption
  exact run_total hstep hpos fun c hc => List.mem_range.mp hc

omit fl metric in
theorem clusterOf_total {best : Nat × UInt32} (hbest : best.1 < nlist) (idx : Nat) :
    ∃ cluster, clusterOf nlist idx best = some cluster ∧ cluster < nlist := by
  have hpos : 0 < nlist := Nat.lt_of_le_of_lt (Nat.zero_le _) hbest
  unfold clusterOf
  split
  · exact ⟨idx % nlist, if_neg hpos.ne', Nat.mod_lt idx hpos⟩
  · exact ⟨best.1, rfl, hbest⟩

/-- **A vector goes to one of the lists.** -/
theorem assignVector_total (hc : centroids.length = nlist) (hn : norms.length = nlist)
    (hpos : 0 < nlist) {lists : List (List Nat)} (hl : lists.length = nlist) (e : Nat × Row) :
    ∃ lists', assignVector fl metric centroids norms nlist lists e = some lists' ∧
      lists'.length = nlist ∧ lists'.flatten.Perm (lists.flatten ++ [e.1]) := by
  obtain ⟨best, hbest, hlt⟩ := findBest_total fl metric hc hn hpos e.2
  obtain ⟨cluster, hcluster, hin⟩ := clusterOf_total hlt e.1
  have hlist := List.getElem?_eq_getElem (hl ▸ hin)
  unfold assignVector
  rw [hbest, Option.bind_eq_bind, Option.bind_some, hcluster, Option.bind_eq_bind,
    Option.bind_some, hlist]
  exact ⟨_, rfl, by rw [List.length_set, hl], flatten_set_append e.1 hlist⟩

theorem assignVectors_total (hc : centroids.length = nlist) (hn : norms.length = nlist)
    (hpos : 0 < nlist) {lists : List (List Nat)} (hl : lists.length = nlist)
    (entries : List (Nat × Row)) :
    ∃ lists', run (assignVector fl metric centroids norms nlist) lists entries = some lists' ∧
      lists'.length = nlist ∧ lists'.flatten.Perm (lists.flatten ++ entries.map Prod.fst) := by
  induction entries generalizing lists with
  | nil => exact ⟨lists, rfl, hl, by rw [List.map_nil, List.append_nil]⟩
  | cons e entries ih =>
    obtain ⟨next, hnext, hlen, hperm⟩ := assignVector_total fl metric hc hn hpos hl e
    obtain ⟨lists', hrun, hlen', hperm'⟩ := ih hlen
    refine ⟨lists', run_cons_eq_some.2 ⟨next, hnext, hrun⟩, hlen', hperm'.trans ?_⟩
    rw [List.map_cons, List.append_cons]
    exact hperm.append_right _

end Nearest

/-! ## 2. The sample -/

variable (rng validIndices) in
theorem trainingSample_length :
    (trainingSample rng validIndices).length = min validIndices.length kMaxTrainingSamples := by
  have hset : ∀ (rest : List (Nat × Nat)) (s : List Nat), (rest.foldl
      (fun sample r => sample.set (rng.reservoir r.2 % (r.2 + 1)) r.1) s).length = s.length := by
    intro rest
    induction rest with
    | nil => exact fun s => rfl
    | cons r rest ih => exact fun s => (ih _).trans List.length_set
  unfold trainingSample
  split
  · rw [hset, List.length_take, Nat.min_comm]
  · omega

/-- The sample is of the vectors there are. -/
theorem mem_of_mem_trainingSample {idx : Nat} (h : idx ∈ trainingSample rng validIndices) :
    idx ∈ validIndices := by
  have hset : ∀ (rest : List (Nat × Nat)) (s : List Nat), (∀ r ∈ rest, r.1 ∈ validIndices) →
      (∀ i ∈ s, i ∈ validIndices) → ∀ i ∈ rest.foldl
        (fun sample r => sample.set (rng.reservoir r.2 % (r.2 + 1)) r.1) s, i ∈ validIndices := by
    intro rest
    induction rest with
    | nil => exact fun s _ hs => hs
    | cons r rest ih =>
      intro s hrest hs
      refine ih _ (fun r hr => hrest r (List.mem_cons_of_mem _ hr)) fun i hi => ?_
      cases List.mem_or_eq_of_mem_set hi with
      | inl hold => exact hs i hold
      | inr hnew => exact hnew ▸ hrest r List.mem_cons_self
  unfold trainingSample at h
  split at h
  · refine hset _ _ (fun r hr => ?_) (fun i hi => List.mem_of_mem_take hi) idx h
    have := List.mem_map_of_mem (f := Prod.fst) hr
    rw [List.zipIdx_map_fst] at this
    exact List.mem_of_mem_drop this
  · exact h

section InRange

variable (rng) (hs : ∀ idx ∈ sample, idx < matrix.length)

include hs

theorem sampleRow_total {i : Nat} (hi : i < sample.length) :
    ∃ row, sampleRow matrix sample i = some row := by
  unfold sampleRow
  rw [List.getElem?_eq_getElem hi]
  exact ⟨_, List.getElem?_eq_getElem (hs _ (List.getElem_mem hi))⟩

/-- There are enough samples for the centroids. -/
theorem initialCentroids_total (hle : nlist ≤ sample.length) :
    ∃ cs, initialCentroids rng matrix sample nlist = some cs ∧ cs.length = nlist := by
  have hshuffle : (rng.shuffle sample.length).length = sample.length := by
    rw [(rng.shuffle_perm sample.length).length_eq, List.length_range]
  have hread : ∀ c ∈ List.range nlist, ∃ row, (do
      let i ← (rng.shuffle sample.length)[c]?
      sampleRow matrix sample i) = some row ∧ True := by
    intro c hc
    have hlt : c < (rng.shuffle sample.length).length := by
      have := List.mem_range.mp hc
      omega
    rw [List.getElem?_eq_getElem hlt]
    obtain ⟨row, hrow⟩ := sampleRow_total hs (List.mem_range.mp
      ((rng.shuffle_perm sample.length).mem_iff.mp (List.getElem_mem hlt)))
    exact ⟨row, hrow, trivial⟩
  obtain ⟨cs, hcs, hlen, -⟩ := mapM_total hread
  exact ⟨cs, hcs, hlen.trans List.length_range⟩

omit hs in
/-- **More centroids than samples**: the read at `init_indices[sample_size]`. -/
theorem initialCentroids_eq_none (hlt : sample.length < nlist) :
    initialCentroids rng matrix sample nlist = none := by
  refine mapM_eq_none (List.mem_range.mpr hlt) ?_
  have hnone : (rng.shuffle sample.length)[sample.length]? = none := by
    rw [List.getElem?_eq_none_iff, (rng.shuffle_perm sample.length).length_eq, List.length_range]
  rw [hnone]
  rfl

/-- The sums of as many clusters as there are. -/
theorem addSamples_total (fl : IvfFloats) {assignments : List Nat}
    (ha : assignments.length = sample.length) (hin : ∀ c ∈ assignments, c < nlist)
    {s : ClusterSums} (hsums : s.sums.length = nlist) (hsizes : s.sizes.length = nlist) :
    ∃ s', run (addSample fl matrix sample assignments) s (List.range sample.length) = some s' ∧
      s'.sums.length = nlist ∧ s'.sizes.length = nlist := by
  have hstep : ∀ (s : ClusterSums) (i : Nat), s.sums.length = nlist ∧ s.sizes.length = nlist →
      i < sample.length → ∃ s', addSample fl matrix sample assignments s i = some s' ∧
        s'.sums.length = nlist ∧ s'.sizes.length = nlist := by
    intro s i ⟨hsums, hsizes⟩ hi
    have hassigned := List.getElem?_eq_getElem (ha ▸ hi)
    have hlt := hin _ (List.mem_of_getElem? hassigned)
    obtain ⟨vec, hvec⟩ := sampleRow_total hs hi
    unfold addSample
    rw [hassigned, hvec, Option.bind_eq_bind, Option.bind_some, Option.bind_eq_bind,
      Option.bind_some, List.getElem?_eq_getElem (hsums ▸ hlt),
      List.getElem?_eq_getElem (hsizes ▸ hlt)]
    exact ⟨_, rfl, List.length_set.trans hsums, List.length_set.trans hsizes⟩
  exact run_total hstep ⟨hsums, hsizes⟩ fun i hi => List.mem_range.mp hi

theorem newCentroid_total (fl : IvfFloats) (hne : 0 < sample.length) {s : ClusterSums}
    (hsums : s.sums.length = nlist) (hsizes : s.sizes.length = nlist) (iter : Nat) {c : Nat}
    (hc : c < nlist) : ∃ row, newCentroid fl rng matrix sample s iter c = some row := by
  unfold newCentroid
  rw [List.getElem?_eq_getElem (hsizes ▸ hc), List.getElem?_eq_getElem (hsums ▸ hc)]
  simp only [Option.bind_eq_bind, Option.bind_some]
  split
  · exact ⟨_, rfl⟩
  · rw [if_neg hne.ne']
    exact sampleRow_total hs (Nat.mod_lt _ hne)

variable (metric dim) in
/-- **An iteration.** -/
theorem lloydStep_total (fl : IvfFloats) (hne : 0 < sample.length) (hpos : 0 < nlist)
    (hc : centroids.length = nlist) (iter : Nat) :
    ∃ next, lloydStep fl rng metric dim matrix sample nlist iter centroids = some next ∧
      next.length = nlist := by
  have hassign : ∀ i ∈ List.range sample.length, ∃ c, (do
      let vec ← sampleRow matrix sample i
      let best ← findBest fl metric centroids (centroids.map fl.l2Norm) nlist vec
      return best.1) = some c ∧ c < nlist := by
    intro i hi
    obtain ⟨vec, hvec⟩ := sampleRow_total hs (List.mem_range.mp hi)
    obtain ⟨best, hbest, hlt⟩ :=
      findBest_total fl metric hc (List.length_map _ |>.trans hc) hpos vec
    rw [hvec, Option.bind_eq_bind, Option.bind_some, hbest]
    exact ⟨best.1, rfl, hlt⟩
  obtain ⟨assignments, hassignments, hlen, hin⟩ := mapM_total hassign
  rw [List.length_range] at hlen
  obtain ⟨sums, hrun, hsums, hsizes⟩ := addSamples_total hs fl hlen hin
    (s := ⟨List.replicate nlist (List.replicate dim 0), List.replicate nlist 0⟩)
    List.length_replicate List.length_replicate
  have hnew : ∀ c ∈ List.range nlist, ∃ row,
      newCentroid fl rng matrix sample sums iter c = some row ∧ True := by
    intro c hc
    obtain ⟨row, hrow⟩ := newCentroid_total rng hs fl hne hsums hsizes iter (List.mem_range.mp hc)
    exact ⟨row, hrow, trivial⟩
  obtain ⟨next, hnext, hlast, -⟩ := mapM_total hnew
  refine ⟨next, ?_, hlast.trans List.length_range⟩
  unfold lloydStep
  dsimp only
  rw [hassignments, Option.bind_eq_bind, Option.bind_some, hrun, Option.bind_eq_bind,
    Option.bind_some, hnext]

/-- The iterations keep the number of centroids. -/
theorem lloyd_total (fl : IvfFloats) (hne : 0 < sample.length) (hpos : 0 < nlist) (remaining : Nat)
    (hc : centroids.length = nlist) :
    ∃ cs, lloyd fl rng config dim matrix sample nlist remaining centroids = some cs ∧
      cs.length = nlist := by
  induction remaining generalizing centroids with
  | zero => exact ⟨centroids, rfl, hc⟩
  | succ remaining ih =>
    obtain ⟨next, hnext, hlen⟩ := lloydStep_total rng config.metric dim hs fl hne hpos hc
      (config.maxIterations - (remaining + 1))
    unfold lloyd
    rw [hnext, Option.bind_eq_bind, Option.bind_some]
    split
    · exact ⟨next, rfl, hlen⟩
    · exact ih hlen

variable (config dim) in
theorem kMeansTrain_total (fl : IvfFloats) (hpos : 0 < nlist) (hle : nlist ≤ sample.length) :
    ∃ cs, kMeansTrain fl rng config dim matrix sample nlist = some cs ∧ cs.length = nlist := by
  obtain ⟨initial, hinitial, hlen⟩ := initialCentroids_total rng hs hle
  unfold kMeansTrain
  rw [hinitial]
  exact lloyd_total rng hs fl (Nat.lt_of_lt_of_le hpos hle) hpos config.maxIterations hlen

end InRange

/-! ## 3. Training -/

section Train

variable {ix : IvfIndex} {dimension : Nat} {assignVectors : Bool}

/-- **Every vector goes to one list.** -/
theorem assignAll_total (fl : IvfFloats) (metric : IvfMetric)
    (hvalid : ∀ idx ∈ validIndices, idx < matrix.length) (hc : centroids.length = nlist)
    (hpos : 0 < nlist) :
    ∃ lists, assignAll fl metric matrix centroids nlist validIndices = some lists ∧
      lists.length = nlist ∧ lists.flatten.Perm validIndices := by
  have hread : ∃ vectors, (validIndices.mapM fun idx => do
      let vec ← matrix[idx]?
      return (idx, vec)) = some vectors ∧ vectors.map Prod.fst = validIndices := by
    induction validIndices with
    | nil => exact ⟨[], rfl, rfl⟩
    | cons idx rest ih =>
      obtain ⟨vectors, hvectors, hfst⟩ := ih fun i hi => hvalid i (List.mem_cons_of_mem idx hi)
      have hidx : idx < matrix.length := hvalid idx List.mem_cons_self
      refine ⟨(idx, matrix[idx]) :: vectors, ?_, ?_⟩
      · rw [List.mapM_cons, hvectors, List.getElem?_eq_getElem (hvalid idx List.mem_cons_self)]
        rfl
      · rw [List.map_cons, hfst]
  obtain ⟨vectors, hvectors, hfst⟩ := hread
  obtain ⟨lists, hlists, hlen, hperm⟩ := assignVectors_total fl metric hc
    ((List.length_map _).trans hc) hpos
    (show (List.replicate nlist ([] : List Nat)).length = nlist from List.length_replicate) vectors
  refine ⟨lists, ?_, hlen, ?_⟩
  · unfold assignAll
    rw [hvectors]
    exact hlists
  · rw [hfst, List.flatten_replicate_nil, List.nil_append] at hperm
    exact hperm

theorem initialLists_total (fl : IvfFloats) (metric : IvfMetric) (assignVectors : Bool)
    (hvalid : ∀ idx ∈ validIndices, idx < matrix.length) (hc : centroids.length = nlist)
    (hpos : 0 < nlist) :
    ∃ lists, initialLists fl assignVectors metric matrix centroids nlist validIndices = some lists ∧
      lists.length = nlist ∧ (assignVectors = true → lists.flatten.Perm validIndices) := by
  obtain ⟨lists, hlists, hlen, hperm⟩ := assignAll_total fl metric hvalid hc hpos
  cases assignVectors with
  | true => exact ⟨lists, hlists, hlen, fun _ => hperm⟩
  | false => exact ⟨List.replicate nlist [], rfl, List.length_replicate, nofun⟩

theorem effectiveNlist_pos (nlist : Nat) {numValid : Nat} (h : 0 < numValid) :
    0 < effectiveNlist nlist numValid := by
  unfold effectiveNlist IvfIndex.kMaxAutoNlist
  split <;> omega

theorem effectiveNlist_le (nlist numValid : Nat) : effectiveNlist nlist numValid ≤ numValid :=
  Nat.min_le_right _ _

/-- A number of clusters that is chosen for the vectors is never too large for the sample. -/
theorem effectiveNlist_le_sample {nlist numValid : Nat} :
    effectiveNlist nlist numValid ≤ min numValid kMaxTrainingSamples ↔
      nlist ≤ kMaxTrainingSamples ∨ numValid ≤ kMaxTrainingSamples := by
  unfold effectiveNlist IvfIndex.kMaxAutoNlist kMaxTrainingSamples
  split <;> omega

/-- **The index after a training** of these vectors. -/
structure WellTrained (validIndices : List Nat) (assignVectors : Bool) (ix : IvfIndex) :
    Prop where
  trained : ix.trained = true
  one_le : 1 ≤ ix.config.nlist
  le_numValid : ix.config.nlist ≤ validIndices.length
  centroids : ix.centroids.length = ix.config.nlist
  centroidNorms : ix.centroidNorms.length = ix.config.nlist
  lists : ix.invertedLists.length = ix.config.nlist
  /-- Every vector is in exactly one list, if the vectors are to be assigned. -/
  assigned : assignVectors = true → ix.invertedLists.flatten.Perm validIndices

/-- What `Train` promises: it reads in range, and trains unless there is nothing to train on or
    another thread is at it. -/
def TrainsInRange (fl : IvfFloats) (rng : IvfRandom) (ix : IvfIndex) (matrix : List Row)
    (validIndices : List Nat) (dimension : Nat) (assignVectors : Bool) : Prop :=
  ∃ ix', ix.train fl rng matrix validIndices dimension assignVectors = some ix' ∧
    if ix.trainingInProgress = true ∨ validIndices = [] then ix' = ix
    else WellTrained validIndices assignVectors ix'

/-- **Enough samples**: the training reads in range. -/
theorem train_of_le (fl : IvfFloats) (rng : IvfRandom)
    (hvalid : ∀ idx ∈ validIndices, idx < matrix.length) (hidle : ix.trainingInProgress = false)
    (hne : validIndices ≠ [])
    (hle : effectiveNlist ix.config.nlist validIndices.length ≤
      min validIndices.length kMaxTrainingSamples) :
    ∃ ix', ix.train fl rng matrix validIndices dimension assignVectors = some ix' ∧
      WellTrained validIndices assignVectors ix' := by
  have hpos := effectiveNlist_pos ix.config.nlist (List.length_pos_iff.mpr hne)
  obtain ⟨cs, hcs, hlen⟩ := kMeansTrain_total rng ix.config dimension
    (fun idx hidx => hvalid idx (mem_of_mem_trainingSample hidx)) fl hpos
    (trainingSample_length rng validIndices ▸ hle)
  obtain ⟨lists, hlists, hlistsLen, hperm⟩ :=
    initialLists_total fl ix.config.metric assignVectors hvalid hlen hpos
  unfold IvfIndex.train
  rw [hidle, if_neg Bool.false_ne_true, if_neg hne]
  dsimp only
  rw [hcs, Option.bind_eq_bind, Option.bind_some, hlists]
  exact ⟨_, rfl, rfl, hpos, effectiveNlist_le _ _, hlen, (List.length_map _).trans hlen, hlistsLen,
    hperm⟩

/-- **Too few samples**: the training reads out of range. -/
theorem train_eq_none (fl : IvfFloats) (rng : IvfRandom) (hidle : ix.trainingInProgress = false)
    (hne : validIndices ≠ [])
    (hlt : min validIndices.length kMaxTrainingSamples <
      effectiveNlist ix.config.nlist validIndices.length) :
    ix.train fl rng matrix validIndices dimension assignVectors = none := by
  unfold IvfIndex.train
  rw [hidle, if_neg Bool.false_ne_true, if_neg hne]
  dsimp only
  rw [kMeansTrain, initialCentroids_eq_none rng (trainingSample_length rng validIndices ▸ hlt)]
  rfl

variable (fl rng ix matrix validIndices dimension assignVectors) in
/-- **A training reads in range** exactly if there are at most `kMaxTrainingSamples` clusters or
    vectors. -/
theorem train_in_range_iff (hvalid : ∀ idx ∈ validIndices, idx < matrix.length) :
    TrainsInRange fl rng ix matrix validIndices dimension assignVectors ↔
      ix.trainingInProgress = true ∨ ix.config.nlist ≤ kMaxTrainingSamples ∨
        validIndices.length ≤ kMaxTrainingSamples := by
  unfold TrainsInRange
  cases hidle : ix.trainingInProgress with
  | true => simp [IvfIndex.train, hidle]
  | false =>
    by_cases hne : validIndices = []
    · simp [IvfIndex.train, hidle, hne]
    · simp only [Bool.false_eq_true, hne, or_self, if_false, false_or]
      rw [← effectiveNlist_le_sample]
      constructor
      · rintro ⟨ix', htrain, -⟩
        by_contra hnot
        push Not at hnot
        rw [train_eq_none fl rng hidle hne hnot] at htrain
        cases htrain
      · exact train_of_le fl rng hvalid hidle hne

/-- What the operations are where all the vectors are zero. -/
def zeroFloats : IvfFloats where
  l2Norm := fun _ => 0
  dotProduct := fun _ _ => 0
  l2Distance := fun _ _ => 0
  l2Similarity := fun _ _ => 0x3F800000
  cosine := fun _ _ _ _ => 0
  add := fun _ _ => 0
  divideBy := fun _ _ => 0

/-- A generator that leaves everything where it is. -/
def inOrder : IvfRandom where
  shuffle := List.range
  reservoir := id
  refill := fun _ c => c
  shuffle_perm := fun _ => List.Perm.refl _

theorem train_in_range_iff_two :
    (∀ idx ∈ [0, 1], idx < [[0], [0]].length) ∧
      TrainsInRange zeroFloats inOrder { dimension := 1 } [[0], [0]] [0, 1] 1 true :=
  ⟨by decide, (train_in_range_iff zeroFloats inOrder [[0], [0]] [0, 1] { dimension := 1 } 1 true
    (by decide)).mpr (.inr (.inl (by decide)))⟩

/-- **10001 clusters for 10001 vectors**: the sample has 10000. -/
theorem train_reads_past_the_sample :
    ¬ TrainsInRange zeroFloats inOrder { config := { nlist := 10001 }, dimension := 1 }
      (List.replicate 10001 [0]) (List.range 10001) 1 true := by
  have hnone : IvfIndex.train zeroFloats inOrder { config := { nlist := 10001 }, dimension := 1 }
      (List.replicate 10001 [0]) (List.range 10001) 1 true = none := by
    refine train_eq_none zeroFloats inOrder rfl (List.range_eq_nil.not.mpr (by decide)) ?_
    rw [← not_le, effectiveNlist_le_sample, List.length_range]
    decide
  rintro ⟨ix', htrain, -⟩
  rw [hnone] at htrain
  cases htrain

end Train

end Nvecd.Vectors
