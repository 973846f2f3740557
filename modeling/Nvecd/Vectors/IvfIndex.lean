/-
  File:      Nvecd/Vectors/IvfIndex.lean
  Subject:   `vectors/ivf_index.cpp`: vectors in clusters around trained centroids, and those not
             yet assigned in a write buffer.

  Whatever the code reads at a computed place -- a sample, a centroid, an inverted list -- is read
  here by `[i]?`: `none` is a read out of range, or a division by zero. Distances and sums are
  `float` operations taken from outside, as are the random numbers.

  * `IvfIndex`, `similarity`, `findBest` -- the index and the centroid nearest to a vector;
  * `kMeansTrain`, `train` -- Lloyd's algorithm on a sample, and what is kept of it;
  * `appendToBuffer`, `removeVector`, `addVector` -- one vector;
  * `sealBegin`, `sealAssign`, `sealCommit`, `sealBuffer` -- the three phases of `SealBuffer`, and
    all of it;
  * `searchBuffer`, `search`.

  Flat arrays of vectors are lists of rows, and the two arrays of a tier one list of pairs: this
  is so as long as the vectors have the dimension of the index.
-/
import Nvecd.Lib.AssocMap
import Nvecd.Lib.Ieee754
import Nvecd.Lib.Machine
import Nvecd.Lib.TopK

namespace Nvecd.Vectors

open Nvecd.Lib

/-! ## 1. The index -/

abbrev Row := List UInt32

inductive IvfMetric where
  | kCosine
  | kDot
  | kL2
  deriving DecidableEq, Repr

/-- `IvfIndex::Config`; the threshold is the bits of a `float`. -/
structure IvfConfig where
  nlist : Nat := 256
  nprobe : Nat := 8
  trainThreshold : Nat := 10000
  maxIterations : Nat := 10
  convergenceThreshold : UInt32 := 0x3A83126F
  sealThreshold : Nat := 100000
  metric : IvfMetric := .kCosine
  deriving DecidableEq, Repr

structure IvfIndex where
  config : IvfConfig := {}
  dimension : Nat
  trained : Bool := false
  centroids : List Row := []
  centroidNorms : List UInt32 := []
  invertedLists : List (List Nat) := []
  layoutGeneration : Nat := 0
  trainingInProgress : Bool := false
  /-- `buffer_indices_` and `buffer_vectors_`. -/
  buffer : List (Nat × Row) := []
  /-- `sealing_indices_` and `sealing_vectors_`. -/
  sealing : List (Nat × Row) := []
  deriving DecidableEq, Repr

/-- The `float` operations. -/
structure IvfFloats where
  l2Norm : Row → UInt32
  dotProduct : Row → Row → UInt32
  l2Distance : Row → Row → UInt32
  /-- `1.0F / (1.0F + l2_distance(a, b))`. -/
  l2Similarity : Row → Row → UInt32
  /-- `dot_product(a, b) / (norm_a * norm_b)`. -/
  cosine : Row → UInt32 → Row → UInt32 → UInt32
  add : UInt32 → UInt32 → UInt32
  /-- `x * (1.0F / size)`; the size is not zero. -/
  divideBy : Nat → UInt32 → UInt32

/-- `kMaxTrainingSamples`. -/
def kMaxTrainingSamples : Nat := 10000

/-- `IvfIndex::kMaxAutoNlist`. -/
def IvfIndex.kMaxAutoNlist : Nat := 1024

/-- `kNormEpsilon`, `1e-7F`. -/
def kNormEpsilon : UInt32 := 0x33D6BF95

/-- `kWorstScore`, minus infinity. -/
def kWorstScore : UInt32 := 0xFF800000

/-- `a > b`. -/
abbrev gtFloat (a b : UInt32) : Bool := betterScore floatKey a b

/-- `a == b`. -/
abbrev eqFloat (a b : UInt32) : Bool := sameScore floatKey a b

variable (fl : IvfFloats)

/-- `Similarity`. -/
def similarity (metric : IvfMetric) (a : Row) (normA : UInt32) (b : Row) (normB : UInt32) : UInt32 :=
  match metric with
  | .kDot => fl.dotProduct a b
  | .kL2 => fl.l2Similarity a b
  | .kCosine =>
    if gtFloat kNormEpsilon normA ∨ gtFloat kNormEpsilon normB then kWorstScore
    else fl.cosine a normA b normB

/-- One centroid of the loop that looks for the nearest. -/
def compareCentroid (metric : IvfMetric) (centroids : List Row) (norms : List UInt32) (vec : Row)
    (best : Nat × UInt32) (c : Nat) : Option (Nat × UInt32) := do
  let centroid ← centroids[c]?
  let norm ← norms[c]?
  let sim := similarity fl metric vec (fl.l2Norm vec) centroid norm
  return if gtFloat sim best.2 then (c, sim) else best

/-- The nearest of the first `nlist` centroids, and how near it is. -/
def findBest (metric : IvfMetric) (centroids : List Row) (norms : List UInt32) (nlist : Nat)
    (vec : Row) : Option (Nat × UInt32) :=
  run (compareCentroid fl metric centroids norms vec) (0, kWorstScore) (List.range nlist)

/-- A vector that no centroid compares with is spread by its index. -/
def clusterOf (nlist idx : Nat) (best : Nat × UInt32) : Option Nat :=
  if eqFloat best.2 kWorstScore then if nlist = 0 then none else some (idx % nlist)
  else some best.1

/-! ## 2. Training -/

/-- The random numbers of a training: a shuffled list of `n` positions, the numbers of the
    reservoir, and those that refill the empty clusters of an iteration. -/
structure IvfRandom where
  shuffle : Nat → List Nat
  reservoir : Nat → Nat
  refill : Nat → Nat → Nat
  shuffle_perm : ∀ n, (shuffle n).Perm (List.range n)

variable (rng : IvfRandom)

/-- A reservoir of `kMaxTrainingSamples`, if there are more vectors. -/
def trainingSample (validIndices : List Nat) : List Nat :=
  if kMaxTrainingSamples < validIndices.length then
    ((validIndices.drop kMaxTrainingSamples).zipIdx kMaxTrainingSamples).foldl
      (fun sample r => sample.set (rng.reservoir r.2 % (r.2 + 1)) r.1)
      (validIndices.take kMaxTrainingSamples)
  else validIndices

/-- The sample's row. -/
def sampleRow (matrix : List Row) (sample : List Nat) (i : Nat) : Option Row := do
  let idx ← sample[i]?
  matrix[idx]?

/-- `nlist` vectors of the sample as centroids. -/
def initialCentroids (matrix : List Row) (sample : List Nat) (nlist : Nat) : Option (List Row) :=
  (List.range nlist).mapM fun c => do
    let i ← (rng.shuffle sample.length)[c]?
    sampleRow matrix sample i

/-- The sums of the clusters, and how many vectors each has. -/
structure ClusterSums where
  sums : List Row
  sizes : List Nat

/-- One sample goes to its cluster. -/
def addSample (matrix : List Row) (sample : List Nat) (assignments : List Nat) (s : ClusterSums)
    (i : Nat) : Option ClusterSums := do
  let cluster ← assignments[i]?
  let vec ← sampleRow matrix sample i
  let sum ← s.sums[cluster]?
  let size ← s.sizes[cluster]?
  return ⟨s.sums.set cluster (List.zipWith fl.add sum vec), s.sizes.set cluster (size + 1)⟩

/-- The mean of a cluster; of an empty one a random vector of the sample. -/
def newCentroid (matrix : List Row) (sample : List Nat) (s : ClusterSums) (iter c : Nat) :
    Option Row := do
  let size ← s.sizes[c]?
  let sum ← s.sums[c]?
  if 0 < size then return sum.map (fl.divideBy size)
  else if sample.length = 0 then none
  else sampleRow matrix sample (rng.refill iter c % sample.length)

/-- The greatest distance a centroid moved. -/
def maxDelta (old new : List Row) : UInt32 :=
  (List.zipWith fl.l2Distance old new).foldl (fun m delta => if gtFloat delta m then delta else m) 0

/-- One iteration of Lloyd's algorithm. -/
def lloydStep (metric : IvfMetric) (dim : Nat) (matrix : List Row) (sample : List Nat)
    (nlist iter : Nat) (centroids : List Row) : Option (List Row) := do
  let norms := centroids.map fl.l2Norm
  let assignments ← (List.range sample.length).mapM fun i => do
    let vec ← sampleRow matrix sample i
    let best ← findBest fl metric centroids norms nlist vec
    return best.1
  let sums ← run (addSample fl matrix sample assignments)
    ⟨List.replicate nlist (List.replicate dim 0), List.replicate nlist 0⟩ (List.range sample.length)
  (List.range nlist).mapM (newCentroid fl rng matrix sample sums iter)

/-- The iterations, until the centroids stand still. -/
def lloyd (config : IvfConfig) (dim : Nat) (matrix : List Row) (sample : List Nat) (nlist : Nat) :
    Nat → List Row → Option (List Row)
  | 0, centroids => some centroids
  | remaining + 1, centroids => do
    let next ← lloydStep fl rng config.metric dim matrix sample nlist
      (config.maxIterations - (remaining + 1)) centroids
    if gtFloat config.convergenceThreshold (maxDelta fl centroids next) then return next
    else lloyd config dim matrix sample nlist remaining next

/-- `KMeansTrain`. -/
def kMeansTrain (config : IvfConfig) (dim : Nat) (matrix : List Row) (sample : List Nat)
    (nlist : Nat) : Option (List Row) := do
  let centroids ← initialCentroids rng matrix sample nlist
  lloyd fl rng config dim matrix sample nlist config.maxIterations centroids

/-- One vector goes to the inverted list of its cluster. -/
def assignVector (metric : IvfMetric) (centroids : List Row) (norms : List UInt32) (nlist : Nat)
    (lists : List (List Nat)) (e : Nat × Row) : Option (List (List Nat)) := do
  let best ← findBest fl metric centroids norms nlist e.2
  let cluster ← clusterOf nlist e.1 best
  let list ← lists[cluster]?
  return lists.set cluster (list ++ [e.1])

/-- The number of clusters: scaled to the number of vectors if it is 0, and not above it. -/
def effectiveNlist (nlist numValid : Nat) : Nat :=
  min (if nlist = 0 then min (max 1 numValid.sqrt) IvfIndex.kMaxAutoNlist else nlist) numValid

/-- The inverted lists of all vectors. -/
def assignAll (metric : IvfMetric) (matrix : List Row) (centroids : List Row) (nlist : Nat)
    (validIndices : List Nat) : Option (List (List Nat)) := do
  let vectors ← validIndices.mapM fun idx => do
    let vec ← matrix[idx]?
    return (idx, vec)
  run (assignVector fl metric centroids (centroids.map fl.l2Norm) nlist) (List.replicate nlist [])
    vectors

/-- The inverted lists after a training: of all vectors, or empty. -/
def initialLists (assignVectors : Bool) (metric : IvfMetric) (matrix : List Row)
    (centroids : List Row) (nlist : Nat) (validIndices : List Nat) : Option (List (List Nat)) :=
  if assignVectors then assignAll fl metric matrix centroids nlist validIndices
  else some (List.replicate nlist [])

/-- `Train`. -/
def IvfIndex.train (ix : IvfIndex) (matrix : List Row) (validIndices : List Nat) (dimension : Nat)
    (assignVectors : Bool) : Option IvfIndex :=
  if ix.trainingInProgress then some ix
  else if validIndices = [] then some ix
  else do
    let nlist := effectiveNlist ix.config.nlist validIndices.length
    let centroids ← kMeansTrain fl rng ix.config dimension matrix
      (trainingSample rng validIndices) nlist
    let lists ← initialLists fl assignVectors ix.config.metric matrix centroids nlist validIndices
    return { ix with
      config := { ix.config with nlist := nlist }
      dimension := dimension
      trained := true
      centroids := centroids
      centroidNorms := centroids.map fl.l2Norm
      invertedLists := lists
      layoutGeneration := ix.layoutGeneration + 1 }

namespace IvfIndex

/-- `ResetTrained`. -/
def resetTrained (ix : IvfIndex) : IvfIndex :=
  { ix with
    config := { ix.config with nlist := 0 }
    trained := false
    layoutGeneration := ix.layoutGeneration + 1 }

/-- `SetNlist`. -/
def setNlist (ix : IvfIndex) (nlist : Nat) : IvfIndex :=
  { ix with config := { ix.config with nlist := nlist }, layoutGeneration := ix.layoutGeneration + 1 }

/-- `SetNprobe`. -/
def setNprobe (ix : IvfIndex) (nprobe : Nat) : IvfIndex :=
  { ix with config := { ix.config with nprobe := min nprobe ix.config.nlist } }

/-! ## 3. Single vectors -/

/-- `AddVector`: an index that no centroid compares with goes to the first list. -/
def addVector (ix : IvfIndex) (idx : Nat) (vec : Row) : Option IvfIndex :=
  if ¬ ix.trained then some ix
  else do
    let best ← findBest fl ix.config.metric ix.centroids ix.centroidNorms ix.config.nlist vec
    let list ← ix.invertedLists[best.1]?
    return { ix with invertedLists := ix.invertedLists.set best.1 (list ++ [idx]) }

/-- `BulkAddVectors`. -/
def bulkAddVectors (ix : IvfIndex) (entries : List (Nat × Row)) : Option IvfIndex :=
  if ¬ ix.trained then some ix
  else do
    let lists ← run (assignVector fl ix.config.metric ix.centroids ix.centroidNorms ix.config.nlist)
      ix.invertedLists entries
    return { ix with invertedLists := lists }

/-- `AppendToBuffer`: a pending vector is overwritten. -/
def appendToBuffer (ix : IvfIndex) (idx : Nat) (vec : Row) : IvfIndex :=
  { ix with buffer := assign idx vec ix.buffer }

end IvfIndex

theorem length_lastFirst {α : Type} {e last : α} {rest : List α} (h : rest.getLast? = some last) :
    (last :: rest.dropLast).length < (e :: rest).length := by
  have hpos : 0 < rest.length := List.length_pos_iff.mpr fun hnil => by simp [hnil] at h
  simp
  omega

/-- `remove_from_tier`: the last entry takes the place of one that goes. -/
def removeFromTier (idx : Nat) : List (Nat × Row) → List (Nat × Row)
  | [] => []
  | e :: rest =>
    if e.1 ≠ idx then e :: removeFromTier idx rest
    else
      match _hlast : rest.getLast? with
      | none => []
      | some last => removeFromTier idx (last :: rest.dropLast)
termination_by l => l.length
decreasing_by
  · exact Nat.lt_succ_self _
  · exact length_lastFirst _hlast

namespace IvfIndex

/-- The first half of `RemoveVector`, under the lock of the buffer. -/
def removePending (ix : IvfIndex) (idx : Nat) : IvfIndex :=
  { ix with
    buffer := removeFromTier idx ix.buffer
    sealing := removeFromTier idx ix.sealing }

/-- The second half, under the lock of the lists. -/
def removeListed (ix : IvfIndex) (idx : Nat) : IvfIndex :=
  if ¬ ix.trained then ix
  else { ix with invertedLists := ix.invertedLists.map fun list => list.filter fun i => i ≠ idx }

/-- `RemoveVector`. -/
def removeVector (ix : IvfIndex) (idx : Nat) : IvfIndex := (ix.removePending idx).removeListed idx

end IvfIndex

/-! ## 4. Sealing -/

/-- What a thread in `SealBuffer` knows: the entries it took, and once it has looked at the
    centroids their clusters and the generation of the layout. -/
structure SealJob where
  entries : List (Nat × Row)
  assigned : Option (List Nat × Nat) := none
  deriving DecidableEq, Repr

/-- One entry of the third phase; it may have been removed meanwhile. -/
def commitEntry (sealing : List (Nat × Row)) (lists : List (List Nat)) (e : (Nat × Row) × Nat) :
    Option (List (List Nat)) :=
  if e.1.1 ∈ sealing.map Prod.fst then do
    let list ← lists[e.2]?
    return lists.set e.2 (list ++ [e.1.1])
  else some lists

namespace IvfIndex

/-- The entries that are being sealed go back, except where there is a newer one. -/
def restoreSealing (ix : IvfIndex) : IvfIndex :=
  { ix with
    buffer := ix.sealing.foldl
      (fun buffer e => if e.1 ∈ buffer.map Prod.fst then buffer else buffer ++ [e]) ix.buffer
    sealing := [] }

/-- The first phase of `SealBuffer`: the buffer becomes the sealing tier. -/
def sealBegin (ix : IvfIndex) : IvfIndex × Option SealJob :=
  if ix.buffer = [] ∨ ix.sealing ≠ [] then (ix, none)
  else ({ ix with sealing := ix.buffer, buffer := [] }, some { entries := ix.buffer })

/-- The second phase: the entries are assigned to the clusters there are. -/
def sealAssign (ix : IvfIndex) (job : SealJob) : Option (IvfIndex × Option SealJob) :=
  if ¬ ix.trained then some (ix.restoreSealing, none)
  else do
    let clusters ← job.entries.mapM fun e => do
      let best ← findBest fl ix.config.metric ix.centroids ix.centroidNorms ix.config.nlist e.2
      clusterOf ix.config.nlist e.1 best
    return (ix, some { job with assigned := some (clusters, ix.layoutGeneration) })

/-- The third phase: the lists take the entries, if the layout is still the same. -/
def sealCommit (ix : IvfIndex) (entries : List (Nat × Row)) (clusters : List Nat)
    (generation : Nat) : Option IvfIndex :=
  if ¬ ix.trained ∨ ix.layoutGeneration ≠ generation then some ix.restoreSealing
  else do
    let lists ← run (commitEntry ix.sealing) ix.invertedLists (entries.zip clusters)
    return { ix with invertedLists := lists, sealing := [] }

/-- `SealBuffer`, with no other thread between its phases. -/
def sealBuffer (ix : IvfIndex) : Option IvfIndex :=
  match ix.sealBegin with
  | (ix, none) => some ix
  | (ix, some job) => do
    let (ix, next) ← ix.sealAssign fl job
    match next with
    | some { entries, assigned := some (clusters, generation) } =>
      ix.sealCommit entries clusters generation
    | _ => some ix

end IvfIndex

/-! ## 5. Searching -/

/-- How results are queued, and in which order a hash table of scores is walked. -/
structure IvfOrders where
  queue : Ranking UInt32 Nat
  queue_orders : queue.Orders floatKey
  walk : List (Nat × UInt32) → List (Nat × UInt32)
  walk_perm : ∀ l, (walk l).Perm l

variable (o : IvfOrders)

/-- The queue of the results, and what comes out of it. With no room at all the code looks at the
    top of an empty queue. -/
def keepBest (topK : Nat) (candidates : List (UInt32 × Nat)) : Option (List (UInt32 × Nat)) :=
  if topK = 0 ∧ candidates ≠ [] then none
  else
    let heap := candidates.foldl (o.queue.offer topK) []
    some (o.queue.drain heap.length heap)

/-- `std::sort` by falling score. -/
def sortByScore (results : List (UInt32 × Nat)) : List (UInt32 × Nat) :=
  results.mergeSort fun x y => !gtFloat y.1 x.1

/-- The scores of one tier: of an index that is there the score is replaced if the tier is newer
    or the score is better. -/
def scoreTier (metric : IvfMetric) (query : Row) (queryNorm : UInt32) (newer : Bool)
    (scores : AssocMap Nat UInt32) (e : Nat × Row) : AssocMap Nat UInt32 :=
  let score := similarity fl metric query queryNorm e.2 (fl.l2Norm e.2)
  if eqFloat score kWorstScore then scores
  else
    match scores.find? e.1 with
    | none => scores.insert e.1 score
    | some old => if newer ∨ gtFloat score old then scores.insert e.1 score else scores

/-- The first of each index. -/
def dedupIndices (results : List (UInt32 × Nat)) : List (UInt32 × Nat) :=
  results.foldl (fun seen e => if e.2 ∈ seen.map Prod.snd then seen else seen ++ [e]) []

/-- The two halves of a result as one; the newer ones come first. -/
def mergeResults (topK : Nat) (bufferResults ivfResults : List (UInt32 × Nat)) :
    Option (List (UInt32 × Nat)) :=
  if bufferResults = [] then some (dedupIndices (sortByScore ivfResults))
  else if ivfResults = [] then some bufferResults
  else (keepBest o topK (dedupIndices (bufferResults ++ ivfResults))).map sortByScore

namespace IvfIndex

/-- The scores of the entries that are not yet in a list. -/
def pendingScores (ix : IvfIndex) (query : Row) (queryNorm : UInt32) : AssocMap Nat UInt32 :=
  let scores := ix.sealing.foldl (scoreTier fl ix.config.metric query queryNorm false) .empty
  ix.buffer.foldl (scoreTier fl ix.config.metric query queryNorm true) scores

/-- `SearchBuffer`. -/
def searchBuffer (ix : IvfIndex) (query : Row) (queryNorm : UInt32) (topK : Nat) :
    Option (List (UInt32 × Nat)) :=
  if (ix.buffer = [] ∧ ix.sealing = []) ∨
      (ix.config.metric = .kCosine ∧ gtFloat kNormEpsilon queryNorm) then some []
  else do
    let scores := ix.pendingScores fl query queryNorm
    let results ← keepBest o topK ((o.walk scores.entries).map Prod.swap)
    return sortByScore results

/-- The similarity of the query to each centroid. -/
def centroidSims (ix : IvfIndex) (query : Row) : Option (List (UInt32 × Nat)) :=
  (List.range ix.config.nlist).mapM fun c => do
    let centroid ← ix.centroids[c]?
    let norm ← ix.centroidNorms[c]?
    return (similarity fl ix.config.metric query (fl.l2Norm query) centroid norm, c)

/-- `FindNearestCentroids`. -/
def findNearestCentroids (ix : IvfIndex) (query : Row) (nprobe : Nat) : Option (List Nat) := do
  let sims ← ix.centroidSims fl query
  return ((o.queue.sort sims).take (min nprobe ix.config.nlist)).map Prod.snd

/-- The entries of the probed clusters. -/
def probedEntries (ix : IvfIndex) (query : Row) : Option (List Nat) := do
  let clusters ← ix.findNearestCentroids fl o query (min ix.config.nprobe ix.config.nlist)
  let lists ← clusters.mapM fun c => ix.invertedLists[c]?
  return lists.flatten

/-- The entries that are scored, with their scores; `rows` are those of the store. -/
def scoreEntries (ix : IvfIndex) (query : Row) (queryNorm : UInt32) (rows : List (Row × UInt32))
    (entries : List Nat) : List (UInt32 × Nat) :=
  entries.filterMap fun idx =>
    match rows[idx]? with
    | none => none
    | some row =>
      let score := similarity fl ix.config.metric query queryNorm row.1 row.2
      if eqFloat score kWorstScore then none else some (score, idx)

/-- What the inverted lists give `Search`, in the order the queue gives it out. -/
def searchLists (ix : IvfIndex) (query : Row) (queryNorm : UInt32) (rows : List (Row × UInt32))
    (topK : Nat) : Option (List (UInt32 × Nat)) :=
  if ¬ ix.trained ∨ rows = [] then some []
  else do
    let entries ← ix.probedEntries fl o query
    keepBest o topK (ix.scoreEntries fl query queryNorm rows entries)

/-- `Search`; the rows of the store come with their norms. -/
def search (ix : IvfIndex) (query : Row) (queryNorm : UInt32) (rows : List (Row × UInt32))
    (topK : Nat) : Option (List (UInt32 × Nat)) := do
  let bufferResults ← ix.searchBuffer fl o query queryNorm topK
  let ivfResults ← ix.searchLists fl o query queryNorm rows topK
  mergeResults o topK bufferResults ivfResults

end IvfIndex

end Nvecd.Vectors
