/-
  File:      Nvecd/Vectors/HnswStream.lean
  Subject:   `HnswIndex::Serialize` and `HnswIndex::Deserialize`.

  Floats are their bits. `Deserialize` reads into the members of the index while it checks what it
  reads, so a refused stream comes with the index as it is then. The stream can be positioned.

  * `serialize` -- the bytes of an index; `none` where a node lacks a list;
  * `readHeader`, `headerInvalid`, `readLists`, `readNode`, `readNodes`, `readMap`;
  * `deserialize` -- the index, and the error if there is one.
-/
import Nvecd.Lib.InputStream
import Nvecd.Vectors.HnswIndex

namespace Nvecd.Vectors

open Nvecd.Lib

/-! ## 1. Writing -/

/-- `HSNW`. -/
def kHnswMagic : Nat := 0x48534E57

/-- `kMaxVectorDimension`. -/
def HnswIndex.kMaxVectorDimension : Nat := 4096

/-- `kMaxDeserializedNodes`. -/
def kMaxDeserializedNodes : Nat := 10000000

/-- A count and the numbers. -/
def serializeNumbers (l : List Nat) : List UInt8 := leBytes 4 l.length ++ l.flatMap (leBytes 4)

/-- One node, with a list for each layer up to its level. -/
def serializeNode (node : HnswNode) : Option (List UInt8) := do
  let lists ← (List.range (node.level + 1)).mapM fun l => do
    let links ← node.neighbors[l]?
    return serializeNumbers links
  return leBytes 4 node.compactIndex ++ leBytes 4 node.level ++ [if node.deleted then 1 else 0] ++
    lists.flatten

/-- What comes before the vectors. -/
def serializeHeader (g : HnswIndex UInt32) : List UInt8 :=
  leBytes 4 kHnswMagic ++ leBytes 4 1 ++ leBytes 4 g.config.m ++
    leBytes 4 g.config.efConstruction ++ leBytes 4 g.config.efSearch ++ leBytes 4 g.dimension ++
    leBytes 4 g.nodes.length ++ leBytes 4 g.entryPoint ++ leBytes 4 g.maxLevel ++
    leBytes 4 g.activeCount

namespace HnswIndex

/-- `Serialize`, to a stream that takes everything. -/
def serialize (g : HnswIndex UInt32) : Option (List UInt8) := do
  let nodes ← g.nodes.mapM serializeNode
  return serializeHeader g ++ g.vectors.flatMap (fun x => leBytes 4 x.toNat) ++ nodes.flatten ++
    serializeNumbers g.compactToInternal

end HnswIndex

/-! ## 2. Reading -/

open InputStream in
/-- The header after the magic number and the version, into the members; and the number of
    nodes. -/
def readHeader (g : HnswIndex UInt32) (s : InputStream) : HnswIndex UInt32 × Nat × InputStream :=
  let (m, s) := readUInt 4 g.config.m s
  let (efConstruction, s) := readUInt 4 g.config.efConstruction s
  let (efSearch, s) := readUInt 4 g.config.efSearch s
  let (dimension, s) := readUInt 4 g.dimension s
  let (nodeCount, s) := readUInt 4 0 s
  let (entryPoint, s) := readUInt 4 g.entryPoint s
  let (maxLevel, s) := readUInt 4 g.maxLevel s
  let (activeCount, s) := readUInt 4 g.activeCount s
  ({ g with
      config := { g.config with m := m, efConstruction := efConstruction, efSearch := efSearch }
      dimension := dimension
      entryPoint := entryPoint
      maxLevel := maxLevel
      activeCount := activeCount }, nodeCount, s)

/-- The header's values are out of bounds. -/
def headerInvalid (g : HnswIndex UInt32) (nodeCount : Nat) : Bool :=
  g.config.m < 2 || g.dimension = 0 || HnswIndex.kMaxVectorDimension < g.dimension ||
    kMaxDeserializedNodes < nodeCount || nodeCount < g.activeCount || kMaxNodeLevel < g.maxLevel ||
    (g.entryPoint ≠ uint32Max && nodeCount ≤ g.entryPoint)

/-- The lists of a node from layer `l` on, `n` of them. -/
def readLists (nodeCount : Nat) : Nat → Nat → List (List Nat) → InputStream →
    List (List Nat) × Except String InputStream
  | 0, _, lists, s => (lists, .ok s)
  | n + 1, l, lists, s =>
    let (count, s) := s.readUInt 4 0
    if ¬ s.good ∨ nodeCount < count ∨ s.bytes.length < count * 4 then
      (lists, .error "Invalid HNSW neighbor list")
    else
      let (links, rest) := InputStream.readUInts 4 count s.bytes
      if links.any fun neighbor => nodeCount ≤ neighbor then
        (lists.set l links, .error "Invalid HNSW neighbor reference")
      else readLists nodeCount n (l + 1) (lists.set l links) { s with bytes := rest }

/-- One node, into the one that is there. -/
def readNode (nodeCount : Nat) (node : HnswNode) (s : InputStream) :
    HnswNode × Except String InputStream :=
  let (compactIndex, s) := s.readUInt 4 node.compactIndex
  let (level, s) := s.readUInt 4 node.level
  let (deletedByte, s) := s.readUInt 1 0
  let node := { node with compactIndex := compactIndex, level := level }
  if ¬ s.good ∨ kMaxNodeLevel < level ∨ 1 < deletedByte then
    (node, .error "Invalid HNSW node header")
  else
    let (lists, result) :=
      readLists nodeCount (level + 1) 0 (resizeTo node.neighbors (level + 1) []) s
    ({ node with deleted := deletedByte ≠ 0, neighbors := lists }, result)

/-- The nodes, up to the first that is refused. -/
def readNodes (nodeCount : Nat) : List HnswNode → InputStream →
    List HnswNode × Except String InputStream
  | [], s => ([], .ok s)
  | node :: nodes, s =>
    match readNode nodeCount node s with
    | (node, .error e) => (node :: nodes, .error e)
    | (node, .ok s) =>
      let (nodes, result) := readNodes nodeCount nodes s
      (node :: nodes, result)

/-- `compact_to_internal_`. -/
def readMap (nodeCount : Nat) (map : List Nat) (s : InputStream) :
    List Nat × Except String InputStream :=
  let (size, s) := s.readUInt 4 0
  if ¬ s.good ∨ kMaxDeserializedNodes < size ∨ s.bytes.length < size * 4 then
    (map, .error "Invalid HNSW compact index map")
  else
    let (entries, rest) := InputStream.readUInts 4 size s.bytes
    if entries.any fun internal => internal ≠ uint32Max && nodeCount ≤ internal then
      (entries, .error "Invalid HNSW compact index reference")
    else (entries, .ok { s with bytes := rest })

variable (fl : HnswMetric UInt32)

/-- The vectors, and their norms if the metric uses them. -/
def readVectors (g : HnswIndex UInt32) (nodeCount : Nat) (s : InputStream) :
    HnswIndex UInt32 × InputStream :=
  let (bits, rest) := InputStream.readUInts 4 (nodeCount * g.dimension) s.bytes
  let vectors := bits.map UInt32.ofNat
  ({ g with
      vectors := vectors
      vectorNorms :=
        if fl.useCosinePrenorm then
          (List.range nodeCount).map fun i => fl.l2Norm (rowAt g.dimension vectors i)
        else resizeTo g.vectorNorms nodeCount fl.zero }, { s with bytes := rest })

/-- A node of `std::vector::resize`. -/
def HnswNode.blank : HnswNode := { compactIndex := 0, level := 0, neighbors := [] }

/-- What `Deserialize` does after the header. The products of sizes fit a `size_t`, since the
    header's values are within their bounds. -/
def readBody (g : HnswIndex UInt32) (nodeCount : Nat) (s : InputStream) :
    HnswIndex UInt32 × Except String Unit :=
  if s.bytes.length < nodeCount * g.dimension * 4 then
    (g, .error "Truncated or oversized HNSW vector payload")
  else
    let (g, s) := readVectors fl g nodeCount s
    match readNodes nodeCount (resizeTo g.nodes nodeCount .blank) s with
    | (nodes, .error e) => ({ g with nodes := nodes }, .error e)
    | (nodes, .ok s) =>
      match readMap nodeCount g.compactToInternal s with
      | (map, .error e) => ({ g with nodes := nodes, compactToInternal := map }, .error e)
      | (map, .ok _) => ({ g with nodes := nodes, compactToInternal := map }, .ok ())

/-- `Deserialize`. -/
def HnswIndex.deserialize (g : HnswIndex UInt32) (bytes : List UInt8) :
    HnswIndex UInt32 × Except String Unit :=
  let (magic, s) := InputStream.readUInt 4 0 { bytes := bytes }
  let (version, s) := s.readUInt 4 0
  if magic ≠ kHnswMagic ∨ version ≠ 1 then (g, .error "Invalid HNSW index format")
  else
    let (g, nodeCount, s) := readHeader g s
    if ¬ s.good then (g, .error "Truncated HNSW index header")
    else if headerInvalid g nodeCount then (g, .error "Invalid HNSW index header values")
    else readBody fl g nodeCount s

end Nvecd.Vectors
