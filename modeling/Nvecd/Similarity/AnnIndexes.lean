/-
  File:      Nvecd/Similarity/AnnIndexes.lean
  Subject:   The two implementations of `vectors/ann_index.h`, behind the interface the engine
             asks.

  An HNSW index is the interface itself, an IVF index comes with an adapter
  (`vectors/ivf_ann_adapter.h`) that reads the rows of the store. The interface is total: an
  operation whose numbers reach `UINT32_MAX`, or that would leave an array, has no effect here
  (HnswInvariant.lean and IvfTraining.lean say when there is one).

  * `ServedHnsw`, `ServedHnsw.distinctSlots` -- an index that keeps its invariant;
  * `IvfAnnAdapter`, `IvfAnnAdapter.distinctSlots` -- an index with the rows of the store;
  * `DistinctSearch` -- searches that return no slot twice; `vectorCandidates_distinct` -- what
    the fusion is promised of either index.
-/
import Nvecd.Similarity.FusionSearch
import Nvecd.Vectors.HnswCount
import Nvecd.Vectors.IvfSearch

namespace Nvecd.Similarity

open Nvecd.Cache Nvecd.Events Nvecd.Lib Nvecd.Storage Nvecd.Utils Nvecd.Vectors

/-! ## 1. HNSW -/

/-- An `HnswIndex` in the engine. -/
structure ServedHnsw where
  metric : HnswMetric UInt32
  sorts : metric.ranking.Sorts
  index : HnswIndex UInt32
  sound : ∃ live, index.Inv live

namespace ServedHnsw

theorem sound_step (a : ServedHnsw) {op : HnswOp UInt32} (hop : a.index.BelowMax op)
    {index : HnswIndex UInt32} (h : a.index.step a.metric op = some index) :
    ∃ live, index.Inv live := by
  obtain ⟨live, hinv⟩ := a.sound
  have hholds : a.index.Holds { dimension := a.index.dimension, vectorOf := live } := ⟨hinv, rfl⟩
  obtain ⟨next, hnext, hholds'⟩ := hholds.step a.metric op hop
  obtain rfl := Option.some.inj (hnext.symm.trans h)
  exact ⟨_, hholds'.1⟩

/-- An operation whose numbers stay below `UINT32_MAX`. -/
def apply (a : ServedHnsw) (op : HnswOp UInt32) : ServedHnsw :=
  if hop : a.index.BelowMax op then
    match h : a.index.step a.metric op with
    | some index => { a with index := index, sound := a.sound_step hop h }
    | none => a
  else a

/-- The floats of a vector. -/
def floatsOf (a : ServedHnsw) (vector : List UInt32) (i : Nat) : UInt32 :=
  vector.getD i a.metric.zero

end ServedHnsw

instance : AnnSearch ServedHnsw where
  add a compactIndex vector := a.apply (.add compactIndex.toUInt32 (a.floatsOf vector))
  markDeleted a compactIndex := a.apply (.markDeleted compactIndex.toUInt32)
  rebuild a allVectors dimension :=
    a.apply (.rebuild (a.floatsOf allVectors.flatten) allVectors.length.toUInt32
      dimension.toUInt32)
  isTrained _ := false
  needsSeal _ := false
  setNlist a _ := a
  finish a _ := a
  size a := a.index.activeCount
  search a query topK := (a.index.search a.metric query topK).getD []

/-- **A search of an HNSW index** returns no slot twice. -/
theorem ServedHnsw.distinctSlots (a : ServedHnsw) : DistinctSlots a := by
  intro query topK
  obtain ⟨live, hinv⟩ := a.sound
  obtain ⟨results, hsearch, hnodup, -⟩ := hinv.search_sound a.sorts query topK
  show (((a.index.search a.metric query topK).getD []).map Prod.fst).Nodup
  rw [hsearch]
  exact hnodup

/-! ## 2. IVF -/

/-- `IvfAnnAdapter`: an IVF index, and the rows of the store it reads. -/
structure IvfAnnAdapter where
  floats : IvfFloats
  orders : IvfOrders
  rng : IvfRandom
  ivf : IvfIndex
  /-- `vector_store_->GetCompactSnapshot()`, the rows as a search finds them. -/
  rows : List Row

namespace IvfAnnAdapter

variable (a : IvfAnnAdapter)

def setIvf (ivf : Option IvfIndex) : IvfAnnAdapter := { a with ivf := ivf.getD a.ivf }

/-- `Rebuild`. -/
def rebuild (allVectors : List Row) (dimension : Nat) : IvfAnnAdapter :=
  if allVectors = [] then a.setIvf (some a.ivf.resetTrained)
  else a.setIvf (a.ivf.resetTrained.train a.floats a.rng allVectors
    (List.range allVectors.length) dimension true)

/-- What the background thread does. -/
def finish : TrainJob → IvfAnnAdapter
  | .train sample dim =>
    let trained := a.setIvf (a.ivf.train a.floats a.rng sample (List.range sample.length) dim false)
    trained.setIvf (trained.ivf.sealBuffer a.floats)
  | .seal => a.setIvf (a.ivf.sealBuffer a.floats)

/-- `Size`. -/
def size : Nat :=
  ((a.ivf.invertedLists.map List.length).sum + (a.ivf.buffer.length + a.ivf.sealing.length)) %
    2 ^ 32

/-- `Search`. -/
def search (query : Row) (topK : Nat) : List (Nat × UInt32) :=
  if a.rows = [] then []
  else
    ((a.ivf.search a.floats a.orders query (a.floats.l2Norm query) (withNorms a.floats a.rows)
      topK).getD []).map Prod.swap

end IvfAnnAdapter

instance : AnnSearch IvfAnnAdapter where
  add a compactIndex vector := a.setIvf (some (a.ivf.appendToBuffer compactIndex vector))
  markDeleted a compactIndex := a.setIvf (some (a.ivf.removeVector compactIndex))
  rebuild a allVectors dimension := a.rebuild allVectors dimension
  isTrained a := a.ivf.trained
  needsSeal a := a.ivf.config.sealThreshold ≤ a.ivf.buffer.length
  setNlist a nlist := a.setIvf (some (a.ivf.setNlist nlist))
  finish a job := a.finish job
  size a := a.size
  search a query topK := a.search query topK

/-- **A search of an IVF index** returns no slot twice. -/
theorem IvfAnnAdapter.distinctSlots (a : IvfAnnAdapter) : DistinctSlots a := by
  intro query topK
  show ((a.search query topK).map Prod.fst).Nodup
  unfold search
  split
  · exact List.nodup_nil
  · rw [List.map_map]
    cases hfound : a.ivf.search a.floats a.orders query (a.floats.l2Norm query)
        (withNorms a.floats a.rows) topK with
    | none => exact List.nodup_nil
    | some found => exact IvfIndex.nodup_search hfound

/-! ## 3. What the fusion is promised -/

/-- An index none of whose states finds a slot twice. -/
class DistinctSearch (A : Type) extends AnnSearch A where
  distinct : ∀ index : A, DistinctSlots index

instance : DistinctSearch ServedHnsw := ⟨ServedHnsw.distinctSlots⟩

instance : DistinctSearch IvfAnnAdapter := ⟨IvfAnnAdapter.distinctSlots⟩

/-- **The candidates of the vectors**, whichever index the engine has: no item comes twice, and all
    pass the filter. -/
theorem vectorCandidates_distinct {A F : Type} [FloatOps F] [DistinctSearch A]
    {s : FusionSearch A F} (actions : List StoreAction) {fuel k : Nat} {id : Bytes}
    {filter : MetadataFilter} {vectors : Except Error Candidates}
    (h : s.vectorCandidates fuel (after (respondStores s.floats.toVectorFloats) ({}, {}) actions).1
      id k filter = some vectors) :
    ((candidatesOf vectors).map Prod.snd).Nodup ∧
      ∀ x ∈ candidatesOf vectors, s.passes filter x.2 = true := by
  obtain ⟨_, hheld⟩ := held_after s.floats.toVectorFloats actions
  exact FusionSearch.vectorCandidates_found hheld (fun index _ => DistinctSearch.distinct index) h

end Nvecd.Similarity
