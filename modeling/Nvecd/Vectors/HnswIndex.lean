/-
  File:      Nvecd/Vectors/HnswIndex.lean
  Subject:   `vectors/hnsw_index.cpp`: adding, retiring, compacting, rebuilding and searching.

  An index is the graph (HnswGraph.lean) with the vectors of its nodes in one flat array and a map
  from compact indices to nodes. The members are those of the source; the random levels still to
  be drawn are part of the state, and how vectors are compared is an `HnswMetric`. An operation
  answers `none` when the source leaves an array.

  * `addLocked`, `maybeCompactLocked`, `add`, `markDeleted`, `rebuild`, `search`;
  * `HnswOp`, `step` -- the operations as a machine;
  * `HnswContents` -- what an index is for: a vector for each live compact index.
-/
import Nvecd.Vectors.HnswGraph

namespace Nvecd.Vectors

open Nvecd.Lib

/-- `UINT32_MAX`: no node. -/
def uint32Max : Nat := 2 ^ 32 - 1

/-- The highest layer a node may be in. -/
def kMaxNodeLevel : Nat := 64

/-- `HnswIndex::Config`. -/
structure HnswConfig where
  m : Nat := 16
  efConstruction : Nat := 200
  efSearch : Nat := 50
  /-- A capacity that is only reserved. -/
  maxElements : Nat := 0
  /-- The bits of a `float`: 0.25. -/
  rebuildTombstoneRatio : UInt32 := 0x3e800000
  rebuildMinNodes : Nat := 64

/-- How vectors are compared: `distance_func_`, its shortcut for the cosine, and the `double`
    comparison with a ratio. -/
structure HnswMetric (F : Type) where
  ranking : Ranking F Nat
  distanceFunc : List F → List F → F
  useCosinePrenorm : Bool
  cosineSimilarityPreNorm : List F → List F → F → F → F
  l2Norm : List F → F
  zero : F
  /-- `tombstones / nodes < ratio`. -/
  belowTombstoneRatio : UInt32 → Nat → Nat → Bool

/-- The members of `HnswIndex`. -/
structure HnswIndex (F : Type) where
  config : HnswConfig
  dimension : Nat
  nodes : List HnswNode := []
  /-- The vectors of the nodes, one after the other. -/
  vectors : List F := []
  vectorNorms : List F := []
  compactToInternal : List Nat := []
  entryPoint : Nat := uint32Max
  maxLevel : Nat := 0
  activeCount : Nat := 0
  /-- What `RandomLevel` will draw, before it is cut off. -/
  levelDraws : Nat → Nat

variable {F : Type}

/-- The floats from a pointer on. -/
def readFloats (pointer : Nat → F) (count : Nat) : List F := (List.range count).map pointer

/-- `std::vector::resize`. -/
def resizeTo {α : Type} (l : List α) (size : Nat) (value : α) : List α :=
  l.take size ++ List.replicate (size - l.length) value

/-- `RandomLevel`. -/
def randomLevel (draw : Nat) : Nat := if draw < kMaxNodeLevel then draw else kMaxNodeLevel

/-- `MaxNeighbors`. -/
def HnswConfig.maxNeighbors (config : HnswConfig) (level : Nat) : Nat :=
  if level = 0 then config.m * 2 % 2 ^ 32 else config.m

namespace HnswIndex

def new (config : HnswConfig) (dimension : Nat) (levelDraws : Nat → Nat) : HnswIndex F :=
  { config := config, dimension := dimension, levelDraws := levelDraws }

variable (fl : HnswMetric F) (g : HnswIndex F)

/-- `GetNodeVector`. -/
def getNodeVector (internalId : Nat) : List F := rowAt g.dimension g.vectors internalId

def normOf (internalId : Nat) : F := (g.vectorNorms[internalId]?).getD fl.zero

/-- `ComputeDistance`. -/
def computeDistance (query : List F) (queryNorm : F) (internalId : Nat) : F :=
  if fl.useCosinePrenorm then
    fl.cosineSimilarityPreNorm query (g.getNodeVector internalId) queryNorm
      (g.normOf fl internalId)
  else fl.distanceFunc query (g.getNodeVector internalId)

def queryNormOf (query : List F) : F := if fl.useCosinePrenorm then fl.l2Norm query else fl.zero

/-- What a new node is linked with. -/
def linking (vector : List F) (vectorNorm : F) (internalId : Nat) : Linking F where
  ranking := fl.ranking
  score := g.computeDistance fl vector vectorNorm
  between id := g.computeDistance fl (g.getNodeVector id) (g.normOf fl id)
  efConstruction := g.config.efConstruction
  maxNeighbors := g.config.maxNeighbors
  internalId := internalId

/-! ## 1. Adding -/

/-- `compact_to_internal_`, long enough for the index; `compact_index + 1` is a `uint32_t`. -/
def growMap (compactIndex : Nat) : List Nat :=
  if g.compactToInternal.length ≤ compactIndex then
    resizeTo g.compactToInternal ((compactIndex + 1) % 2 ^ 32) uint32Max
  else g.compactToInternal

/-- The node is marked deleted, if there is one and it is not. -/
def retire (internalId : Nat) : HnswIndex F :=
  match g.nodes[internalId]? with
  | some node =>
    if internalId ≠ uint32Max ∧ node.deleted = false then
      { g with
        nodes := g.nodes.modify internalId fun node => { node with deleted := true }
        activeCount := g.activeCount - 1 }
    else g
  | none => g

/-- The vector and the node without links, at the end of their arrays. -/
def store (compactIndex internalId : Nat) (vector : List F) (vectorNorm : F) (level : Nat) :
    HnswIndex F :=
  { g with
    compactToInternal := g.compactToInternal.set compactIndex internalId
    vectors := g.vectors ++ vector
    vectorNorms := g.vectorNorms ++ [vectorNorm]
    nodes := g.nodes ++ [{
      compactIndex := compactIndex
      level := level
      neighbors := List.replicate (level + 1) [] }]
    activeCount := g.activeCount + 1
    levelDraws := fun i => g.levelDraws (i + 1) }

/-- The links of a node that is stored, from the entry point down. -/
def link (vector : List F) (vectorNorm : F) (internalId level : Nat) : Option (HnswIndex F) :=
  if g.entryPoint = uint32Max then some { g with entryPoint := internalId, maxLevel := level }
  else
    match descend fl.ranking (g.computeDistance fl vector vectorNorm) g.nodes level g.maxLevel
      g.entryPoint with
    | none => none
    | some cur =>
      match (g.linking fl vector vectorNorm internalId).connectDown (min level g.maxLevel + 1)
        g.nodes cur with
      | none => none
      | some nodes =>
        if g.maxLevel < level then
          some { g with nodes := nodes, entryPoint := internalId, maxLevel := level }
        else some { g with nodes := nodes }

/-- `AddLocked`. -/
def addLocked (compactIndex : Nat) (vector : Nat → F) : Option (HnswIndex F) :=
  let internalId := g.nodes.length % 2 ^ 32
  let values := readFloats vector g.dimension
  let vectorNorm := queryNormOf fl values
  let grown := { g with compactToInternal := g.growMap compactIndex }
  match grown.compactToInternal[compactIndex]? with
  | none => none
  | some previousInternal =>
    let level := randomLevel (g.levelDraws 0)
    ((grown.retire previousInternal).store compactIndex internalId values vectorNorm level).link
      fl values vectorNorm internalId level

/-- The vector of a compact index, if the node it leads to exists and is not deleted. -/
def liveVector (compactIndex : Nat) : Option (List F) :=
  (g.compactToInternal[compactIndex]?).bind fun internalId =>
    (g.nodes[internalId]?).bind fun node =>
      if node.deleted then none else some (g.getNodeVector internalId)

/-- The index without its nodes. -/
def cleared : HnswIndex F :=
  { g with
    nodes := []
    vectors := []
    vectorNorms := []
    compactToInternal := []
    entryPoint := uint32Max
    maxLevel := 0
    activeCount := 0 }

/-- `AddLocked` for one vector after the other. -/
def addAll : HnswIndex F → List (Nat × (Nat → F)) → Option (HnswIndex F)
  | g, [] => some g
  | g, (compactIndex, vector) :: rest =>
    match g.addLocked fl compactIndex vector with
    | some g => addAll g rest
    | none => none

/-- The live vectors, in the order of their compact indices. -/
def liveVectors : List (Nat × (Nat → F)) :=
  (List.range g.compactToInternal.length).filterMap fun compactIndex =>
    (g.liveVector compactIndex).map fun vector =>
      (compactIndex, fun i => (vector[i]?).getD fl.zero)

/-- `MaybeCompactLocked`. -/
def maybeCompactLocked : Option (HnswIndex F) :=
  if g.nodes.length < g.config.rebuildMinNodes ∨ g.nodes = [] then some g
  else if fl.belowTombstoneRatio g.config.rebuildTombstoneRatio
      (g.nodes.length - g.activeCount) g.nodes.length then some g
  else g.cleared.addAll fl (g.liveVectors fl)

/-- `Add`. -/
def add (compactIndex : Nat) (vector : Nat → F) : Option (HnswIndex F) :=
  match g.addLocked fl compactIndex vector with
  | some g => g.maybeCompactLocked fl
  | none => none

/-! ## 2. Deleting and rebuilding -/

/-- `MarkDeleted`. -/
def markDeleted (compactIndex : Nat) : Option (HnswIndex F) :=
  match g.compactToInternal[compactIndex]? with
  | none => some g
  | some internalId =>
    if internalId = uint32Max then some g
    else
      match g.nodes[internalId]? with
      | none => none
      | some node =>
        if node.deleted then some g
        else (g.retire internalId).maybeCompactLocked fl

/-- `Rebuild`. -/
def rebuild (allVectors : Nat → F) (count dimension : Nat) : Option (HnswIndex F) :=
  let empty := { g.cleared with dimension := dimension }
  if count = 0 then some empty
  else
    { empty with compactToInternal := List.replicate count uint32Max }.addAll fl
      ((List.range count).map fun i => (i, fun k => allVectors (i * dimension + k)))

/-! ## 3. Searching -/

/-- The live nodes among the candidates, at most `topK` (but one at least). -/
def liveResults (topK : Nat) : List (F × Nat) → List (Nat × F) → List (Nat × F)
  | [], results => results
  | (score, internalId) :: rest, results =>
    match g.nodes[internalId]? with
    | some node =>
      if node.deleted then liveResults topK rest results
      else
        let results := results ++ [(node.compactIndex, score)]
        if topK ≤ results.length then results else liveResults topK rest results
    | none => liveResults topK rest results

/-- The search of layer 0, wider and wider until there are enough live nodes. -/
def widen (query : List F) (topK cur : Nat) : Nat → Nat → Option (List (Nat × F))
  | 0, _ => none
  | fuel + 1, ef =>
    match searchLayer fl.ranking (g.computeDistance fl query (queryNormOf fl query)) g.nodes cur 0
      ef with
    | none => none
    | some candidates =>
      let results := g.liveResults topK candidates []
      if topK ≤ results.length ∨ g.nodes.length ≤ ef then some results
      else widen query topK cur fuel (min g.nodes.length (max ((ef + 1) % 2 ^ 32) (ef * 2)))

/-- `Search`. -/
def search (query : List F) (topK : Nat) : Option (List (Nat × F)) :=
  if g.entryPoint = uint32Max ∨ g.activeCount = 0 then some []
  else
    match descend fl.ranking (g.computeDistance fl query (queryNormOf fl query)) g.nodes 0
      g.maxLevel g.entryPoint with
    | none => none
    | some cur => g.widen fl query topK cur (g.nodes.length + 1) (max g.config.efSearch topK)

end HnswIndex

/-! ## 4. The machine, and what it is for -/

/-- An operation on the index; the vectors are read from where the pointers lead. -/
inductive HnswOp (F : Type) where
  | add (compactIndex : UInt32) (vector : Nat → F)
  | markDeleted (compactIndex : UInt32)
  | rebuild (allVectors : Nat → F) (count dimension : UInt32)

def HnswIndex.step (fl : HnswMetric F) (g : HnswIndex F) : HnswOp F → Option (HnswIndex F)
  | .add compactIndex vector => g.add fl compactIndex.toNat vector
  | .markDeleted compactIndex => g.markDeleted fl compactIndex.toNat
  | .rebuild allVectors count dimension => g.rebuild fl allVectors count.toNat dimension.toNat

/-- **What an index is for**: the vector last added for each compact index that is live. -/
structure HnswContents (F : Type) where
  dimension : Nat
  vectorOf : Nat → Option (List F)

def HnswContents.apply (s : HnswContents F) : HnswOp F → HnswContents F
  | .add compactIndex vector =>
    { s with
      vectorOf := Function.update s.vectorOf compactIndex.toNat
        (some (readFloats vector s.dimension)) }
  | .markDeleted compactIndex =>
    { s with vectorOf := Function.update s.vectorOf compactIndex.toNat none }
  | .rebuild allVectors count dimension =>
    { dimension := dimension.toNat
      vectorOf := fun i =>
        if i < count.toNat then
          some (readFloats (fun k => allVectors (i * dimension.toNat + k)) dimension.toNat)
        else none }

/-- The contents after the operations, of an index that was empty. -/
def hnswContents (dimension : Nat) (ops : List (HnswOp F)) : HnswContents F :=
  ops.foldl HnswContents.apply { dimension := dimension, vectorOf := fun _ => none }

end Nvecd.Vectors
