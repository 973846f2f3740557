/-
  File:      Nvecd/Similarity/SimilarityEngine.lean
  Subject:   The part of `similarity/similarity_engine.cpp` that keeps the ANN index beside the
             vector store.

  The index names vectors by their slot in the store (`compact_index`). It is published together
  with the generation of the store it was made from; a vector that comes one generation later is
  added to it, after any other change it is built anew.

  * `CompactSnapshot`, `getCompactSnapshot` -- the store as the engine reads it;
  * `AnnIndex` -- the interface of `vectors/ann_index.h`, and what the engine asks of an IVF index;
  * `SimilarityEngine`, `notifyVectorAdded`, `notifyVectorRemoved`, `rebuildAnnFromStore`.

  The thread that trains or seals an IVF index is a job that is still to be done; whoever joins
  the thread has it done.
-/
import Nvecd.Vectors.VectorStore

namespace Nvecd.Similarity

open Nvecd.Lib Nvecd.Storage Nvecd.Vectors

/-! ## 1. What the engine reads -/

/-- `VectorStore::CompactSnapshot`: the rows with their marks, tombstones included. -/
structure CompactSnapshot where
  slots : List Slot := []
  dim : Nat := 0
  generation : Nat := 0

def CompactSnapshot.rows (snap : CompactSnapshot) : List (List UInt32) := snap.slots.map (·.row)

/-- `GetCompactSnapshot`; of an empty store it has the generation alone. -/
def getCompactSnapshot (s : VectorStore) : CompactSnapshot :=
  if s.slots = [] then { generation := s.generation }
  else { slots := s.slots, dim := s.dimension, generation := s.generation }

/-- What the training thread has to do. -/
inductive TrainJob where
  /-- Centroids from a sample of rows, then the write buffer is sealed. -/
  | train (sample : List (List UInt32)) (dim : Nat)
  | seal

/-- `AnnIndex`. The last four are asked only of an IVF index. -/
class AnnIndex (A : Type) where
  add : A → Nat → List UInt32 → A
  markDeleted : A → Nat → A
  /-- `Rebuild(matrix, count, dimension)`. -/
  rebuild : A → List (List UInt32) → Nat → A
  isTrained : A → Bool
  needsSeal : A → Bool
  setNlist : A → Nat → A
  finish : A → TrainJob → A

/-! ## 2. The engine -/

inductive IndexType where
  | flat
  | hnsw
  | ivf
  deriving DecidableEq, Repr

structure SimilarityConfig where
  indexType : IndexType
  ivfTrainThreshold : Nat := 0
  ivfNlist : Nat := 0

structure SimilarityEngine (A : Type) where
  config : SimilarityConfig
  /-- `none` for a flat search. -/
  annIndex : Option A
  annGeneration : Nat := 0
  annDimension : Nat := 0
  annDimensionBound : Bool := false
  ivfTrainThread : Option TrainJob := none
  ivfTraining : Bool := false

/-- `IvfIndex::kMaxAutoNlist`. -/
def kMaxAutoNlist : Nat := 1024

/-- `kMaxCopyForTrain`. -/
def kMaxCopyForTrain : Nat := 50000

/-- The reservoir: index `i` of the rows takes the place `rng i % (i + 1)`, if there is one. -/
def sampleRows (rng : Nat → Nat) (rows : List (List UInt32)) : List (List UInt32) :=
  ((rows.drop kMaxCopyForTrain).zipIdx kMaxCopyForTrain).foldl
    (fun sample r => sample.set (rng r.2 % (r.2 + 1)) r.1) (rows.take kMaxCopyForTrain)

namespace SimilarityEngine

variable {A : Type} [AnnIndex A]

/-- `JoinTrainThread`. -/
def joinTrainThread (e : SimilarityEngine A) : SimilarityEngine A :=
  match e.ivfTrainThread with
  | none => e
  | some job =>
    { e with
      annIndex := e.annIndex.map fun index => AnnIndex.finish index job
      ivfTrainThread := none
      ivfTraining := false }

/-- `EnsureAnnDimension`. -/
def ensureAnnDimension (e : SimilarityEngine A) (index : A) (store : VectorStore) :
    SimilarityEngine A × A :=
  if e.annDimensionBound ∨ store.dimension = 0 then (e, index)
  else if store.dimension ≠ e.annDimension then
    ({ e with annDimension := store.dimension, annDimensionBound := true },
      AnnIndex.rebuild index [] store.dimension)
  else ({ e with annDimensionBound := true }, index)

/-- `RebuildAnnFromStore`. -/
def rebuildAnnFromStore (e : SimilarityEngine A) (store : VectorStore) : SimilarityEngine A :=
  if e.annIndex.isNone then e
  else
    let e := e.joinTrainThread
    let snap := getCompactSnapshot store
    let dim := if snap.dim = 0 then e.annDimension else snap.dim
    { e with
      annIndex := e.annIndex.map fun index => AnnIndex.rebuild index snap.rows dim
      annGeneration := snap.generation
      annDimension := dim
      annDimensionBound := snap.dim ≠ 0 }

/-- `MaybeTrainIvfIndex`. -/
def maybeTrainIvfIndex (rng : Nat → Nat) (e : SimilarityEngine A) (store : VectorStore) :
    SimilarityEngine A :=
  match e.annIndex with
  | none => e
  | some index =>
    if e.config.indexType ≠ .ivf ∨ AnnIndex.isTrained index ∨ e.ivfTraining then e
    else if store.activeCount < e.config.ivfTrainThreshold then e
    else
      let snap := getCompactSnapshot store
      let valid := (snap.slots.filter fun sl => !sl.deleted).map (·.row)
      if valid = [] then e
      else
        let index :=
          if e.config.ivfNlist = 0 then
            AnnIndex.setNlist index (min (max 1 valid.length.sqrt) kMaxAutoNlist)
          else index
        let e := { e with annIndex := some index }.joinTrainThread
        { e with ivfTraining := true, ivfTrainThread := some (.train (sampleRows rng valid) snap.dim) }

/-- The thread that seals a full write buffer, unless one is at work. -/
def startSeal (e : SimilarityEngine A) : SimilarityEngine A :=
  if e.ivfTraining then e
  else { e.joinTrainThread with ivfTraining := true, ivfTrainThread := some .seal }

/-- `NotifyVectorAdded`. -/
def notifyVectorAdded (rng : Nat → Nat) (e : SimilarityEngine A) (store : VectorStore)
    (compactIndex : Nat) : SimilarityEngine A :=
  match e.annIndex with
  | none => e
  | some index =>
    let snap := getCompactSnapshot store
    match snap.slots[compactIndex]? with
    | none => e
    | some slot =>
      if slot.deleted then e
      else
        let (e, index) := e.ensureAnnDimension index store
        if e.annGeneration + 1 ≠ snap.generation then
          -- changes were missed
          { e with
            annIndex := some (AnnIndex.rebuild index snap.rows snap.dim)
            annDimension := snap.dim
            annDimensionBound := true
            annGeneration := snap.generation }
        else
          let index := AnnIndex.add index compactIndex slot.row
          let e := { e with annIndex := some index, annGeneration := snap.generation }
          if e.config.indexType ≠ .ivf then e
          else if ¬ AnnIndex.isTrained index then e.maybeTrainIvfIndex rng store
          else if AnnIndex.needsSeal index then e.startSeal
          else e

/-- `NotifyVectorRemoved`. -/
def notifyVectorRemoved (e : SimilarityEngine A) (compactIndex : Nat) : SimilarityEngine A :=
  { e with annIndex := e.annIndex.map fun index => AnnIndex.markDeleted index compactIndex }

end SimilarityEngine

end Nvecd.Similarity
