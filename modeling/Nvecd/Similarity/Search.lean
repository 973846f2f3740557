/-
  File:      Nvecd/Similarity/Search.lean
  Subject:   `SearchByVector` and `SearchByIdVectors` of `similarity/similarity_engine.cpp`, on the
             arrays of the vector store.

  A search first asks the ANN index, if there is one that is ready; otherwise it scans the rows,
  all of them or a sample, and keeps the best `top_k` in a queue ordered by the score alone.
  Distances are `float` operations taken from outside, as are the random numbers of a sample.

  * `SearchFloats`, `AnnSearch`, `VectorSearch` -- what a search reads beside the store;
  * `annLoop` -- the index, asked for more and more until the filter leaves enough;
  * `flatSearch` -- the scan;
  * `searchByVector`, `searchByIdVectors`.
-/
import Mathlib.Data.List.Lex
import Nvecd.Cache.SimilarityCache
import Nvecd.Lib.TopK
import Nvecd.Similarity.SimilarityEngine
import Nvecd.Storage.SnapshotStream
import Nvecd.Vectors.CompactStore
import Nvecd.Vectors.MetadataFilter

namespace Nvecd.Similarity

open Nvecd.Cache Nvecd.Lib Nvecd.Storage Nvecd.Utils Nvecd.Vectors

/-! ## 1. What a search reads -/

/-- `vectors.distance_metric`. -/
inductive DistanceMetric where
  | cosine
  | dot
  | l2
  deriving DecidableEq, Repr

/-- The `float` operations of a search. -/
structure SearchFloats extends VectorFloats where
  /-- `CosineSimilarityPreNorm`: two rows and their norms. -/
  cosineSimilarityPreNorm : List UInt32 → List UInt32 → UInt32 → UInt32 → UInt32
  dotProduct : List UInt32 → List UInt32 → UInt32
  /-- `1.0F / (1.0F + L2Distance(lhs, rhs))`. -/
  l2Similarity : List UInt32 → List UInt32 → UInt32

structure SearchConfig where
  distanceMetric : DistanceMetric := .cosine
  maxTopK : Nat := 1000
  sampleSize : Nat := 0

/-- An ANN index that can be searched; what it finds are slots and scores. -/
class AnnSearch (A : Type) extends AnnIndex A where
  size : A → Nat
  search : A → List UInt32 → Nat → List (Nat × UInt32)

/-- The members of `SimilarityEngine` a search reads. -/
structure VectorSearch (A : Type) where
  config : SearchConfig
  floats : SearchFloats
  /-- `std::priority_queue` by the score, of slots. -/
  queue : Ranking UInt32 Nat
  /-- The random numbers of `SampleIndices`. -/
  rng : Nat → Nat
  metadataStore : Option MetadataStore
  engine : SimilarityEngine A

/-- Bytes without sign, as `std::string` compares them. -/
instance instLinearOrderByte : LinearOrder UInt8 where
  le_refl := UInt8.le_refl
  le_trans _ _ _ := UInt8.le_trans
  lt_iff_le_not_ge _ _ := by
    simp only [UInt8.le_iff_toNat_le, UInt8.lt_iff_toNat_lt]
    omega
  le_antisymm _ _ := UInt8.le_antisymm
  le_total := UInt8.le_total
  toDecidableLE := inferInstance
  toDecidableEq := inferInstance
  toDecidableLT := inferInstance

/-- A `SimilarityResult` before its strings are copied. -/
def toResult (e : UInt32 × Bytes) : SimilarityResult := ⟨e.2, e.1⟩

def ofResult (r : SimilarityResult) : UInt32 × Bytes := (r.score, r.itemId)

namespace VectorSearch

variable {A : Type} [AnnSearch A] (s : VectorSearch A)

/-- `use_prenorm_`. -/
def usePrenorm : Bool := s.config.distanceMetric = .cosine

/-- The score of a row with its norm. -/
def score (query : List UInt32) (queryNorm : UInt32) (row : List UInt32) (norm : UInt32) :
    UInt32 :=
  match s.config.distanceMetric with
  | .cosine => s.floats.cosineSimilarityPreNorm query row queryNorm norm
  | .dot => s.floats.dotProduct query row
  | .l2 => s.floats.l2Similarity query row

/-- `ValidateTopK`. -/
def validateTopK (topK : Int) : Except Error Nat :=
  if topK ≤ 0 then .error (makeError .kCommandInvalidTopK "top_k must be positive")
  else if int32OfBits s.config.maxTopK < topK then
    .error (makeError .kCommandInvalidTopK
      ("top_k exceeds maximum allowed: " ++ toString s.config.maxTopK))
  else .ok topK.toNat

/-- `!filter.Empty() && metadata_store_ != nullptr`. -/
def hasFilter (filter : MetadataFilter) : Bool := filter ≠ [] && s.metadataStore.isSome

/-- The filter lets the item through. -/
def passes (filter : MetadataFilter) (id : Bytes) : Bool :=
  match s.metadataStore with
  | some store => filter = [] || store.matchesFilter id filter
  | none => true

/-- How many candidates the index is asked for: three times as many if they are filtered. -/
def fetchK (k : Nat) (filter : MetadataFilter) : Nat :=
  min (if s.hasFilter filter then k * 3 else k) s.config.maxTopK

/-- `CompactSnapshot::Empty`. -/
def snapshotEmpty (c : CompactStore) : Bool := c.matrix = [] || c.idxToId = []

/-! ## 2. The index -/

/-- `IsAnnIndexReady`. -/
def isAnnIndexReady (index : A) : Bool :=
  match s.engine.config.indexType with
  | .hnsw => 0 < AnnSearch.size index
  | .ivf => AnnIndex.isTrained index
  | .flat => false

/-- What the index found, without tombstones and the item asked for, filtered. -/
def annResults (c : CompactStore) (k : Nat) (exclude : Option Bytes) (filter : MetadataFilter)
    (found : List (Nat × UInt32)) : List (UInt32 × Bytes) :=
  (found.filterMap fun r =>
    if c.idxToId.length ≤ r.1 ∨ c.deleted.getD r.1 false then none
    else
      let id := c.idxToId.getD r.1 []
      if exclude = some id ∨ ¬ s.passes filter id then none else some (r.2, id)).take k

/-- What comes of asking the index. -/
inductive AnnAnswer where
  | results (found : List (UInt32 × Bytes))
  /-- There is none, or it is not ready, or it was made from another store. -/
  | unavailable

/-- The index is asked for twice as many until enough are left or there are no more. -/
def annLoop (index : A) (c : CompactStore) (query : List UInt32) (k : Nat)
    (exclude : Option Bytes) (filter : MetadataFilter) : Nat → Nat → Option AnnAnswer
  | 0, _ => none
  | fuel + 1, currentFetch =>
    let found := AnnSearch.search index query currentFetch
    if snapshotEmpty c then some (.results [])
    else if c.generation ≠ s.engine.annGeneration then some .unavailable
    else
      let results := s.annResults c k exclude filter found
      if s.hasFilter filter ∧ results.length < k ∧ currentFetch < c.idxToId.length % 2 ^ 32 ∧
          currentFetch ≤ found.length then
        annLoop index c query k exclude filter fuel (2 * currentFetch % 2 ^ 32)
      else some (.results results)

/-- The part of a search under `ann_publication_mutex_`. -/
def askIndex (fuel : Nat) (c : CompactStore) (query : List UInt32) (k : Nat)
    (exclude : Option Bytes) (filter : MetadataFilter) (fetch : Nat) : Option AnnAnswer :=
  match s.engine.annIndex with
  | none => some .unavailable
  | some index =>
    if s.isAnnIndexReady index then s.annLoop index c query k exclude filter fuel fetch
    else some .unavailable

/-! ## 3. The scan -/

/-- `SampleIndices`: a reservoir, in which index `i` takes the place `rng i % (i + 1)`. -/
def sampleIndices (total sampleSize : Nat) : List Nat :=
  if total ≤ sampleSize then List.range total
  else
    (List.range' sampleSize (total - sampleSize)).foldl
      (fun reservoir i => reservoir.set (s.rng i % (i + 1)) i) (List.range sampleSize)

/-- The slots that are looked at. -/
def scanIndices (count : Nat) : List Nat :=
  if 0 < s.config.sampleSize ∧ s.config.sampleSize * 2 % 2 ^ 32 < count then
    s.sampleIndices count s.config.sampleSize
  else List.range count

/-- `push_candidate`. -/
def pushCandidate (c : CompactStore) (k : Nat) (queryIdx : Option Nat) (filter : MetadataFilter)
    (query : List UInt32) (queryNorm : UInt32) (heap : List (UInt32 × Nat)) (idx : Nat) :
    List (UInt32 × Nat) :=
  if queryIdx = some idx then heap
  else if c.deleted.getD idx false then heap
  else if ¬ s.passes filter (c.idxToId.getD idx []) then heap
  else
    s.queue.offer k heap
      (s.score query queryNorm (rowAt c.dimension c.matrix idx) (c.norms.getD idx 0), idx)

/-- The brute-force path. -/
def flatSearch (c : CompactStore) (k : Nat) (queryIdx : Option Nat) (filter : MetadataFilter)
    (query : List UInt32) (queryNorm : UInt32) : List SimilarityResult :=
  let heap := (s.scanIndices c.idxToId.length).foldl
    (s.pushCandidate c k queryIdx filter query queryNorm) []
  let found := (s.queue.drain heap.length heap).map fun e => (e.1, c.idxToId.getD e.2 [])
  (sortItems floatKey found).map toResult

/-! ## 4. The searches -/

/-- What `SearchByVector` asks of its arguments. -/
def checkQuery (dimension : Nat) (query : List UInt32) (topK : Int) : Except Error Nat :=
  match s.validateTopK topK with
  | .error e => .error e
  | .ok k =>
    let norm := s.floats.l2Norm query
    if query = [] then .error (makeError .kInvalidArgument "Query vector cannot be empty")
    else if ¬ query.all isFiniteFloat then
      .error (makeError .kInvalidArgument "Query vector components must be finite")
    else if 0 < dimension ∧ query.length ≠ dimension then
      .error (makeError .kVectorDimensionMismatch
        ("Query vector dimension mismatch: expected " ++ toString dimension ++ ", got " ++
          toString query.length))
    else if ¬ isFiniteFloat norm ∨ s.usePrenorm ∧ leZeroFloat norm then
      .error (makeError .kInvalidArgument "Query vector norm must be finite and non-zero")
    else .ok k

/-- `SearchByVector`; `none` when the loop over the index is not done within `fuel` rounds. -/
def searchByVector (fuel : Nat) (c : CompactStore) (query : List UInt32) (topK : Int)
    (filter : MetadataFilter) : Option (Except Error (List SimilarityResult)) :=
  match s.checkQuery c.dimension query topK with
  | .error e => some (.error e)
  | .ok k =>
    match s.askIndex fuel c query k none filter (s.fetchK k filter) with
    | none => none
    | some (.results found) => some (.ok ((sortItems floatKey found).map toResult))
    | some .unavailable =>
      if snapshotEmpty c then some (.ok [])
      else some (.ok (s.flatSearch c k none filter query (s.floats.l2Norm query)))

def queryNotFound (id : Bytes) : Error :=
  makeError .kVectorNotFound ("Query vector not found: " ++ textOf id)

/-- `SearchByIdVectors`. -/
def searchByIdVectors (fuel : Nat) (c : CompactStore) (id : Bytes) (topK : Int)
    (filter : MetadataFilter) : Option (Except Error (List SimilarityResult)) :=
  match s.validateTopK topK with
  | .error e => some (.error e)
  | .ok k =>
    if snapshotEmpty c then some (.error (queryNotFound id))
    else
      match c.idToIdx.find? id with
      | none => some (.error (queryNotFound id))
      | some queryIdx =>
        let query := rowAt c.dimension c.matrix queryIdx
        match s.askIndex fuel c query k (some id) filter (s.fetchK k filter + 1) with
        | none => none
        | some (.results found) => some (.ok ((sortItems floatKey found).map toResult))
        | some .unavailable =>
          some (.ok (s.flatSearch c k (some queryIdx) filter query (c.norms.getD queryIdx 0)))

end VectorSearch

end Nvecd.Similarity
