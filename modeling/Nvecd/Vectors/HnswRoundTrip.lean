/-
  File:      Nvecd/Vectors/HnswRoundTrip.lean
  Subject:   What `HnswIndex::Deserialize` accepts, and what it makes of it.

  A stream that is accepted is the encoding of a record within the bounds that are checked, and
  every such encoding is accepted, whatever the index held before.

  * `HnswRecord`, `encode`, `Fits` -- the fields of a stream, and the bounds that are checked;
  * `Related` -- the relations between the fields that are not checked;
  * `readLists_encode`, `readNodes_encode`, `readMap_encode`, `readBody_encode` and their converses
    -- part by part;
  * `deserialize_encode`, `encode_of_accepted`.
-/
import Nvecd.Vectors.HnswInvariant
import Nvecd.Vectors.HnswStream

namespace Nvecd.Vectors

open Nvecd.Lib

/-! ## 1. Records -/

/-- The fields of a stream. -/
structure HnswRecord where
  m : Nat
  efConstruction : Nat
  efSearch : Nat
  dimension : Nat
  entryPoint : Nat
  maxLevel : Nat
  activeCount : Nat
  /-- The bits of the vectors. -/
  bits : List Nat
  nodes : List HnswNode
  compactToInternal : List Nat
  deriving DecidableEq

def encodeNode (node : HnswNode) : List UInt8 :=
  leBytes 4 node.compactIndex ++ (leBytes 4 node.level ++ ((if node.deleted then 1 else 0) ::
    node.neighbors.flatMap serializeNumbers))

namespace HnswRecord

def encode (r : HnswRecord) : List UInt8 :=
  leBytes 4 kHnswMagic ++ (leBytes 4 1 ++ (leBytes 4 r.m ++ (leBytes 4 r.efConstruction ++
    (leBytes 4 r.efSearch ++ (leBytes 4 r.dimension ++ (leBytes 4 r.nodes.length ++
      (leBytes 4 r.entryPoint ++ (leBytes 4 r.maxLevel ++ (leBytes 4 r.activeCount ++
        (r.bits.flatMap (leBytes 4) ++ (r.nodes.flatMap encodeNode ++
          serializeNumbers r.compactToInternal)))))))))))

/-- A node that is accepted among `count` nodes. -/
structure NodeFits (count : Nat) (node : HnswNode) : Prop where
  compactIndex : node.compactIndex < 256 ^ 4
  level : node.level ≤ kMaxNodeLevel
  layers : node.neighbors.length = node.level + 1
  links : ∀ links ∈ node.neighbors, links.length ≤ count ∧ ∀ id ∈ links, id < count

/-- **The bounds that are checked.** -/
structure Fits (r : HnswRecord) : Prop where
  m : 2 ≤ r.m ∧ r.m < 256 ^ 4
  ef : r.efConstruction < 256 ^ 4 ∧ r.efSearch < 256 ^ 4
  dimension : 0 < r.dimension ∧ r.dimension ≤ HnswIndex.kMaxVectorDimension
  nodeCount : r.nodes.length ≤ kMaxDeserializedNodes
  activeCount : r.activeCount ≤ r.nodes.length
  maxLevel : r.maxLevel ≤ kMaxNodeLevel
  entryPoint : r.entryPoint = uint32Max ∨ r.entryPoint < r.nodes.length
  vectors : r.bits.length = r.nodes.length * r.dimension ∧ ∀ x ∈ r.bits, x < 256 ^ 4
  nodes : ∀ node ∈ r.nodes, NodeFits r.nodes.length node
  mapSize : r.compactToInternal.length ≤ kMaxDeserializedNodes
  map : ∀ id ∈ r.compactToInternal, id = uint32Max ∨ id < r.nodes.length

/-- **The relations that are not checked**: a link leads to a node in its layer, the entry point is
    in the highest one, the live nodes are counted, and each is where its compact index leads. -/
structure Related (r : HnswRecord) : Prop where
  links : ∀ node ∈ r.nodes, ∀ layer links, node.neighbors[layer]? = some links →
    ∀ j ∈ links, HasLayer r.nodes layer j
  entryPoint : r.nodes ≠ [] →
    ∃ node, r.nodes[r.entryPoint]? = some node ∧ node.level = r.maxLevel
  activeCount : r.activeCount = r.nodes.countP fun node => !node.deleted
  pointers : ∀ c id, r.compactToInternal[c]? = some id →
    id = uint32Max ∨ ∃ node : HnswNode, r.nodes[id]? = some node ∧ node.compactIndex = c
  reached : ∀ id (node : HnswNode), r.nodes[id]? = some node → node.deleted = false →
    r.compactToInternal[node.compactIndex]? = some id

end HnswRecord

/-- The index with the fields of a record. -/
def HnswIndex.restored (fl : HnswMetric UInt32) (g : HnswIndex UInt32) (r : HnswRecord) :
    HnswIndex UInt32 :=
  { g with
    config := { g.config with
      m := r.m
      efConstruction := r.efConstruction
      efSearch := r.efSearch }
    dimension := r.dimension
    nodes := r.nodes
    vectors := r.bits.map UInt32.ofNat
    vectorNorms :=
      if fl.useCosinePrenorm then
        (List.range r.nodes.length).map fun i =>
          fl.l2Norm (rowAt r.dimension (r.bits.map UInt32.ofNat) i)
      else resizeTo g.vectorNorms r.nodes.length fl.zero
    compactToInternal := r.compactToInternal
    entryPoint := r.entryPoint
    maxLevel := r.maxLevel
    activeCount := r.activeCount }

/-! ## 2. Lists of links -/

theorem length_resizeTo {α : Type} (l : List α) (n : Nat) (v : α) : (resizeTo l n v).length = n := by
  unfold resizeTo
  rw [List.length_append, List.length_take, List.length_replicate]
  omega

theorem serializeNumbers_append (l : List Nat) (rest : List UInt8) :
    serializeNumbers l ++ rest = leBytes 4 l.length ++ (l.flatMap (leBytes 4) ++ rest) :=
  List.append_assoc ..

/-- **The lists of a node are read back.** -/
theorem readLists_encode {count : Nat} (hcount : count < 256 ^ 4) {lists : List (List Nat)}
    (h : ∀ links ∈ lists, links.length ≤ count ∧ ∀ id ∈ links, id < count) {k : Nat}
    {old : List (List Nat)} (hold : old.length = k + lists.length) (rest : List UInt8) :
    readLists count lists.length k old ⟨lists.flatMap serializeNumbers ++ rest, true⟩ =
      (old.take k ++ lists, .ok ⟨rest, true⟩) := by
  induction lists generalizing k old with
  | nil =>
    rw [List.length_nil, Nat.add_zero] at hold
    rw [← hold, List.take_length, List.append_nil]
    rfl
  | cons links lists ih =>
    obtain ⟨hlen, hin⟩ := h links List.mem_cons_self
    rw [List.length_cons] at hold
    have hany : (links.any fun neighbor => decide (count ≤ neighbor)) = false := by
      rw [List.any_eq_false]
      intro id hid
      have := hin id hid
      simp
      omega
    have hnumbers := InputStream.readUInts_flatMap (w := 4)
      (fun id hid => Nat.lt_trans (hin id hid) hcount) (lists.flatMap serializeNumbers ++ rest)
    rw [List.length_cons, List.flatMap_cons, List.append_assoc, serializeNumbers_append, readLists,
      InputStream.readUInt_leBytes (by omega)]
    dsimp only
    rw [if_neg (by simp; omega), hnumbers]
    dsimp only
    rw [hany, if_neg Bool.false_ne_true, ih (fun l hl => h l (List.mem_cons_of_mem links hl))
      (by rw [List.length_set]; omega)]
    have hset : (old.set k links).take (k + 1) = old.take k ++ [links] := by
      rw [List.take_add_one, List.take_set_of_le (Nat.le_refl k), List.getElem?_set_self (by omega)]
      rfl
    rw [hset, List.append_assoc]
    rfl

/-- What is accepted as the lists of a node. -/
theorem readLists_eq {count n k : Nat} {old : List (List Nat)} {bytes : List UInt8}
    {s' : InputStream} (h : (readLists count n k old ⟨bytes, true⟩).2 = .ok s') :
    ∃ (lists : List (List Nat)) (rest : List UInt8), lists.length = n ∧
      (∀ links ∈ lists, links.length ≤ count ∧ ∀ id ∈ links, id < count) ∧
      bytes = lists.flatMap serializeNumbers ++ rest := by
  induction n generalizing k old bytes with
  | zero => exact ⟨[], bytes, rfl, nofun, rfl⟩
  | succ n ih =>
    rw [readLists] at h
    dsimp only at h
    split at h
    · cases h
    · rename_i hok
      simp only [not_or, not_not, Nat.not_lt] at hok
      obtain ⟨hgood, hle, hroom⟩ := hok
      obtain ⟨m, rest, hm, hbytes, hread⟩ := InputStream.readUInt_eq hgood
      rw [hread] at h hle hroom
      obtain ⟨links, left, hlen, hlt, hrest, hnumbers⟩ := InputStream.readUInts_eq hroom
      rw [hnumbers] at h
      dsimp only at h
      split at h
      · cases h
      · rename_i hany
        obtain ⟨lists, rest', hn, hfit, hleft⟩ := ih h
        have hin : ∀ id ∈ links, id < count := by
          intro id hid
          by_contra hge
          exact hany (List.any_eq_true.mpr ⟨id, hid, by simpa using hge⟩)
        refine ⟨links :: lists, rest', congrArg Nat.succ hn,
          List.forall_mem_cons.mpr ⟨⟨by rw [hlen]; exact hle, hin⟩, hfit⟩, ?_⟩
        rw [List.flatMap_cons, List.append_assoc, serializeNumbers_append, ← hleft, hlen, ← hrest]
        exact (InputStream.mk.inj hbytes).1

/-! ## 3. Nodes and the map -/

theorem encodeNode_append (node : HnswNode) (rest : List UInt8) :
    encodeNode node ++ rest = leBytes 4 node.compactIndex ++ (leBytes 4 node.level ++
      (leBytes 1 (if node.deleted then 1 else 0) ++
        (node.neighbors.flatMap serializeNumbers ++ rest))) := by
  unfold encodeNode
  cases node.deleted <;> simp [leBytes]

/-- **A node is read back**, whatever was there before. -/
theorem readNode_encode {count : Nat} (hcount : count < 256 ^ 4) {node : HnswNode}
    (h : HnswRecord.NodeFits count node) (old : HnswNode) (rest : List UInt8) :
    readNode count old ⟨encodeNode node ++ rest, true⟩ = (node, .ok ⟨rest, true⟩) := by
  have hlevel := h.level
  have hsmall : node.level < 256 ^ 4 := by
    unfold kMaxNodeLevel at hlevel
    omega
  have hdeleted : (if node.deleted then 1 else 0) < 256 ^ 1 := by split <;> omega
  rw [encodeNode_append, readNode, InputStream.readUInt_leBytes h.compactIndex]
  dsimp only
  rw [InputStream.readUInt_leBytes hsmall]
  dsimp only
  rw [InputStream.readUInt_leBytes hdeleted]
  dsimp only
  have hbyte : ¬ 1 < (if node.deleted then 1 else 0) := by split <;> omega
  rw [if_neg (by simp only [not_true_eq_false, false_or]; omega), ← h.layers,
    readLists_encode hcount h.links ((length_resizeTo _ _ _).trans (Nat.zero_add _).symm)]
  dsimp only
  rw [List.take_zero, List.nil_append]
  cases hd : node.deleted <;> (obtain ⟨c, l, d, n⟩ := node; cases hd; rfl)

/-- What is accepted as a node. -/
theorem readNode_eq {count : Nat} {old : HnswNode} {bytes : List UInt8} {s' : InputStream}
    (h : (readNode count old ⟨bytes, true⟩).2 = .ok s') :
    ∃ node rest, HnswRecord.NodeFits count node ∧ bytes = encodeNode node ++ rest := by
  rw [readNode] at h
  dsimp only at h
  split at h
  · cases h
  · rename_i hok
    simp only [not_or, not_not, Nat.not_lt] at hok
    obtain ⟨hgood, hlevel, hbyte⟩ := hok
    obtain ⟨deleted, rest, _, hs, hread⟩ := InputStream.readUInt_eq hgood
    rw [hread] at h hbyte
    have hgood' : (InputStream.readUInt 4 old.level
        (InputStream.readUInt 4 old.compactIndex ⟨bytes, true⟩).2).2.good = true := by rw [hs]
    obtain ⟨level, rest', _, hs', hread'⟩ := InputStream.readUInt_eq hgood'
    rw [hread'] at h hlevel hs
    have hgood'' : (InputStream.readUInt 4 old.compactIndex ⟨bytes, true⟩).2.good = true := by
      rw [hs']
    obtain ⟨compactIndex, rest'', hsmall, hs'', hread''⟩ := InputStream.readUInt_eq hgood''
    rw [hread''] at hs'
    obtain ⟨lists, left, hlen, hfit, hrest⟩ := readLists_eq h
    refine ⟨⟨compactIndex, level, decide (deleted ≠ 0), lists⟩, left,
      ⟨hsmall, hlevel, hlen, hfit⟩, ?_⟩
    rw [encodeNode_append, ← hrest]
    have hone : (if (decide (deleted ≠ 0)) = true then 1 else 0) = deleted := by
      dsimp only at hbyte
      by_cases hzero : deleted = 0
      · simp [hzero]
      · rw [if_pos (by simpa using hzero)]
        omega
    have hbytes := (InputStream.mk.inj hs'').1
    have hbytes' := (InputStream.mk.inj hs').1
    have hbytes'' := (InputStream.mk.inj hs).1
    rw [hbytes, hbytes', hbytes'', hone]

theorem readNodes_encode {count : Nat} (hcount : count < 256 ^ 4) {nodes : List HnswNode}
    (h : ∀ node ∈ nodes, HnswRecord.NodeFits count node) {old : List HnswNode}
    (hold : old.length = nodes.length) (rest : List UInt8) :
    readNodes count old ⟨nodes.flatMap encodeNode ++ rest, true⟩ = (nodes, .ok ⟨rest, true⟩) := by
  induction nodes generalizing old with
  | nil =>
    rw [List.length_eq_zero_iff.mp hold]
    rfl
  | cons node nodes ih =>
    obtain ⟨first, old, rfl⟩ : ∃ a l, old = a :: l := by
      cases old with
      | nil => cases hold
      | cons a l => exact ⟨a, l, rfl⟩
    rw [List.flatMap_cons, List.append_assoc, readNodes,
      readNode_encode hcount (h node List.mem_cons_self)]
    dsimp only
    rw [ih (fun m hm => h m (List.mem_cons_of_mem node hm)) (Nat.succ.inj hold)]

theorem readNodes_eq {count : Nat} {old : List HnswNode} {bytes : List UInt8} {s' : InputStream}
    (hcount : count < 256 ^ 4) (h : (readNodes count old ⟨bytes, true⟩).2 = .ok s') :
    ∃ (nodes : List HnswNode) (rest : List UInt8), nodes.length = old.length ∧
      (∀ node ∈ nodes, HnswRecord.NodeFits count node) ∧
      bytes = nodes.flatMap encodeNode ++ rest := by
  induction old generalizing bytes with
  | nil => exact ⟨[], bytes, rfl, nofun, rfl⟩
  | cons first old ih =>
    rw [readNodes] at h
    split at h
    · cases h
    · rename_i node s hnode
      obtain ⟨node', rest, hfit, rfl⟩ := readNode_eq (congrArg Prod.snd hnode)
      rw [readNode_encode hcount hfit] at hnode
      cases hnode
      obtain ⟨nodes, left, hlen, hfits, hrest⟩ := ih h
      refine ⟨node :: nodes, left, congrArg Nat.succ hlen, List.forall_mem_cons.mpr ⟨hfit, hfits⟩,
        ?_⟩
      rw [List.flatMap_cons, List.append_assoc, ← hrest]

theorem readMap_encode {count : Nat} (hcount : count < 256 ^ 4) {map : List Nat}
    (hsize : map.length ≤ kMaxDeserializedNodes) (h : ∀ id ∈ map, id = uint32Max ∨ id < count)
    (old : List Nat) (rest : List UInt8) :
    readMap count old ⟨serializeNumbers map ++ rest, true⟩ = (map, .ok ⟨rest, true⟩) := by
  have hany : (map.any fun internal => decide (internal ≠ uint32Max) && decide (count ≤ internal)) =
      false := by
    rw [List.any_eq_false]
    intro id hid
    have := h id hid
    simp
    omega
  have hnumbers := InputStream.readUInts_flatMap (w := 4) (fun id hid => by
    have := h id hid
    unfold uint32Max at this
    omega : ∀ id ∈ map, id < 256 ^ 4) rest
  rw [serializeNumbers_append, readMap, InputStream.readUInt_leBytes (by
    unfold kMaxDeserializedNodes at hsize
    omega)]
  dsimp only
  rw [if_neg (by rw [List.length_append, length_flatMap_leBytes]; simp; omega), hnumbers]
  dsimp only
  rw [hany, if_neg Bool.false_ne_true]

theorem readMap_eq {count : Nat} {old : List Nat} {bytes : List UInt8} {s' : InputStream}
    (h : (readMap count old ⟨bytes, true⟩).2 = .ok s') :
    ∃ (map : List Nat) (rest : List UInt8), map.length ≤ kMaxDeserializedNodes ∧
      (∀ id ∈ map, id = uint32Max ∨ id < count) ∧ bytes = serializeNumbers map ++ rest := by
  rw [readMap] at h
  dsimp only at h
  split at h
  · cases h
  · rename_i hok
    simp only [not_or, not_not, Nat.not_lt] at hok
    obtain ⟨hgood, hle, hroom⟩ := hok
    obtain ⟨m, rest, hm, hbytes, hread⟩ := InputStream.readUInt_eq hgood
    rw [hread] at h hle hroom
    obtain ⟨map, left, hlen, hlt, hrest, hnumbers⟩ := InputStream.readUInts_eq hroom
    rw [hnumbers] at h
    dsimp only at h hle
    split at h
    · cases h
    · rename_i hany
      refine ⟨map, left, hlen ▸ hle, fun id hid => ?_, ?_⟩
      · by_contra hbad
        exact hany (List.any_eq_true.mpr ⟨id, hid, by simpa using hbad⟩)
      · rw [serializeNumbers_append, hlen, ← hrest]
        exact (InputStream.mk.inj hbytes).1

/-! ## 4. The header and the whole -/

/-- The numbers of the header after the version. -/
def HnswRecord.header (r : HnswRecord) : List Nat :=
  [r.m, r.efConstruction, r.efSearch, r.dimension, r.nodes.length, r.entryPoint, r.maxLevel,
    r.activeCount]

open InputStream in
theorem readHeader_leBytes (g : HnswIndex UInt32) {a b c d n e l k : Nat}
    (h : ∀ x ∈ [a, b, c, d, n, e, l, k], x < 256 ^ 4) (rest : List UInt8) :
    readHeader g ⟨[a, b, c, d, n, e, l, k].flatMap (leBytes 4) ++ rest, true⟩ =
      ({ g with
          config := { g.config with m := a, efConstruction := b, efSearch := c }
          dimension := d
          entryPoint := e
          maxLevel := l
          activeCount := k }, n, ⟨rest, true⟩) := by
  simp only [List.forall_mem_cons] at h
  obtain ⟨ha, hb, hc, hd, hn, he, hl, hk, -⟩ := h
  simp only [List.flatMap_cons, List.flatMap_nil, List.append_nil, List.append_assoc]
  simp only [readHeader, readUInt_leBytes ha, readUInt_leBytes hb, readUInt_leBytes hc,
    readUInt_leBytes hd, readUInt_leBytes hn, readUInt_leBytes he, readUInt_leBytes hl,
    readUInt_leBytes hk]

/-- What is there when all the header has been read. -/
theorem readHeader_eq {g : HnswIndex UInt32} {bytes : List UInt8}
    (h : (readHeader g ⟨bytes, true⟩).2.2.good = true) : ∃ a b c d n e l k rest,
      (∀ x ∈ [a, b, c, d, n, e, l, k], x < 256 ^ 4) ∧
        bytes = [a, b, c, d, n, e, l, k].flatMap (leBytes 4) ++ rest := by
  have hstream : (readHeader g ⟨bytes, true⟩).2.2 = (InputStream.readInto 4
      [g.config.m, g.config.efConstruction, g.config.efSearch, g.dimension, 0, g.entryPoint,
        g.maxLevel, g.activeCount] ⟨bytes, true⟩).2 := rfl
  rw [hstream] at h
  obtain ⟨ns, rest, hlen, hlt, hbytes⟩ := InputStream.readInto_eq h
  match ns, hlen with
  | [a, b, c, d, n, e, l, k], _ =>
    exact ⟨a, b, c, d, n, e, l, k, rest, hlt, (InputStream.mk.inj hbytes).1⟩

/-- The vectors, the nodes and the map. -/
def HnswRecord.body (r : HnswRecord) : List UInt8 :=
  r.bits.flatMap (leBytes 4) ++ (r.nodes.flatMap encodeNode ++ serializeNumbers r.compactToInternal)

theorem encode_append (r : HnswRecord) (rest : List UInt8) :
    r.encode ++ rest = leBytes 4 kHnswMagic ++ (leBytes 4 1 ++
      (r.header.flatMap (leBytes 4) ++ (r.body ++ rest))) := by
  unfold HnswRecord.encode HnswRecord.header HnswRecord.body
  simp only [List.flatMap_cons, List.flatMap_nil, List.append_nil, List.append_assoc]

section Body

variable {fl : HnswMetric UInt32} {g : HnswIndex UInt32} {r : HnswRecord}

/-- The members as the header leaves them. -/
def HnswIndex.withHeader (g : HnswIndex UInt32) (r : HnswRecord) : HnswIndex UInt32 :=
  { g with
    config := { g.config with
      m := r.m
      efConstruction := r.efConstruction
      efSearch := r.efSearch }
    dimension := r.dimension
    entryPoint := r.entryPoint
    maxLevel := r.maxLevel
    activeCount := r.activeCount }

theorem count_lt (h : r.nodes.length ≤ kMaxDeserializedNodes) : r.nodes.length < 256 ^ 4 := by
  unfold kMaxDeserializedNodes at h
  omega

/-- **What follows the header is read back.** -/
theorem readBody_encode (fl : HnswMetric UInt32) (g : HnswIndex UInt32) (h : r.Fits)
    (rest : List UInt8) :
    readBody fl (g.withHeader r) r.nodes.length ⟨r.body ++ rest, true⟩ =
      (g.restored fl r, .ok ()) := by
  have hcount := count_lt h.nodeCount
  have hroom : r.nodes.length * r.dimension * 4 ≤ (r.body ++ rest).length := by
    rw [HnswRecord.body, List.length_append, List.length_append, length_flatMap_leBytes,
      h.vectors.1]
    omega
  have hvectors := InputStream.readUInts_flatMap h.vectors.2
    (r.nodes.flatMap encodeNode ++ (serializeNumbers r.compactToInternal ++ rest))
  rw [h.vectors.1] at hvectors
  have hbody : r.body ++ rest = r.bits.flatMap (leBytes 4) ++ (r.nodes.flatMap encodeNode ++
      (serializeNumbers r.compactToInternal ++ rest)) := by
    rw [HnswRecord.body, List.append_assoc, List.append_assoc]
  unfold readBody
  refine (if_neg (Nat.not_lt.mpr hroom)).trans ?_
  rw [readVectors]
  dsimp only [HnswIndex.withHeader]
  rw [hbody, hvectors]
  dsimp only
  rw [readNodes_encode hcount h.nodes (length_resizeTo _ _ _)]
  dsimp only
  rw [readMap_encode hcount h.mapSize h.map]
  rfl

theorem headerInvalid_eq_false {n : Nat} : headerInvalid g n = false ↔
    2 ≤ g.config.m ∧ (0 < g.dimension ∧ g.dimension ≤ HnswIndex.kMaxVectorDimension) ∧
      n ≤ kMaxDeserializedNodes ∧ g.activeCount ≤ n ∧ g.maxLevel ≤ kMaxNodeLevel ∧
      (g.entryPoint = uint32Max ∨ g.entryPoint < n) := by
  unfold headerInvalid
  simp only [Bool.or_eq_false_iff, Bool.and_eq_false_iff, decide_eq_false_iff_not, not_lt, not_le,
    ne_eq, not_not, Nat.pos_iff_ne_zero]
  tauto

/-- **What is accepted after the header.** -/
theorem readBody_eq {n : Nat} {bytes : List UInt8} (hn : n < 256 ^ 4)
    (h : (readBody fl g n ⟨bytes, true⟩).2 = .ok ()) :
    ∃ (bits : List Nat) (nodes : List HnswNode) (map : List Nat) (rest : List UInt8),
      (bits.length = n * g.dimension ∧ ∀ x ∈ bits, x < 256 ^ 4) ∧ nodes.length = n ∧
      (∀ node ∈ nodes, HnswRecord.NodeFits n node) ∧ map.length ≤ kMaxDeserializedNodes ∧
      (∀ id ∈ map, id = uint32Max ∨ id < n) ∧
      bytes = bits.flatMap (leBytes 4) ++ (nodes.flatMap encodeNode ++
        (serializeNumbers map ++ rest)) := by
  unfold readBody at h
  split at h
  · cases h
  · rename_i hroom
    obtain ⟨bits, rest, hlen, hlt, rfl, hread⟩ := InputStream.readUInts_eq (Nat.not_lt.mp hroom)
    rw [readVectors, hread] at h
    dsimp only at h
    split at h
    · cases h
    · rename_i nodes s hnodes
      obtain ⟨nodes', rest', hnlen, hnfit, rfl⟩ := readNodes_eq hn (congrArg Prod.snd hnodes)
      rw [length_resizeTo] at hnlen
      rw [readNodes_encode hn hnfit ((length_resizeTo _ _ _).trans hnlen.symm)] at hnodes
      cases hnodes
      split at h
      · cases h
      · rename_i map s' hmap
        obtain ⟨map', left, hsize, hin, rfl⟩ := readMap_eq (congrArg Prod.snd hmap)
        exact ⟨bits, nodes, map', left, ⟨hlen, hlt⟩, hnlen, hnfit, hsize, hin, rfl⟩

/-- **Everything within the bounds is accepted**, and makes of the index what it says. -/
theorem deserialize_encode (fl : HnswMetric UInt32) (g : HnswIndex UInt32) (h : r.Fits)
    (rest : List UInt8) : g.deserialize fl (r.encode ++ rest) = (g.restored fl r, .ok ()) := by
  have hcount := count_lt h.nodeCount
  have hheader : ∀ x ∈ r.header, x < 256 ^ 4 := by
    have := h.activeCount
    have := h.maxLevel
    have := h.dimension.2
    have := h.entryPoint
    simp only [HnswRecord.header, List.forall_mem_cons]
    unfold kMaxNodeLevel at *
    unfold HnswIndex.kMaxVectorDimension at *
    unfold uint32Max at *
    refine ⟨h.m.2, h.ef.1, h.ef.2, ?_, hcount, ?_, ?_, ?_, nofun⟩ <;> omega
  rw [encode_append, HnswIndex.deserialize, InputStream.readUInt_leBytes (by decide)]
  dsimp only
  rw [InputStream.readUInt_leBytes (by decide)]
  dsimp only
  rw [if_neg (by simp), HnswRecord.header, readHeader_leBytes g hheader]
  dsimp only
  rw [if_neg (by simp), headerInvalid_eq_false.2 ⟨h.m.1, h.dimension, h.nodeCount, h.activeCount,
    h.maxLevel, h.entryPoint⟩, if_neg Bool.false_ne_true]
  exact readBody_encode fl g h rest

/-- **Nothing else is accepted.** -/
theorem encode_of_accepted {bytes : List UInt8} (h : (g.deserialize fl bytes).2 = .ok ()) :
    ∃ (r : HnswRecord) (rest : List UInt8), r.Fits ∧ bytes = r.encode ++ rest := by
  unfold HnswIndex.deserialize at h
  dsimp only at h
  split at h
  · cases h
  · rename_i hmagic
    rw [not_or, not_not, not_not] at hmagic
    split at h
    · cases h
    · rename_i hgood
      have hgood' := not_not.mp hgood
      have hheader : (InputStream.readInto 4 [g.config.m, g.config.efConstruction,
        g.config.efSearch, g.dimension, 0, g.entryPoint, g.maxLevel, g.activeCount]
          (InputStream.readUInt 4 0 (InputStream.readUInt 4 0 ⟨bytes, true⟩).2).2).2.good =
            true := hgood'
      have hversion := InputStream.good_of_readInto hheader
      obtain ⟨version, s, -, hs, hr⟩ := InputStream.readUInt_eq hversion
      obtain ⟨magic, s', -, hs', hr'⟩ :=
        InputStream.readUInt_eq (InputStream.good_of_readUInt hversion)
      rw [hr'] at hr hs
      rw [hr'] at hmagic h hgood'
      dsimp only at hmagic h hgood'
      rw [hr] at hmagic h hgood'
      dsimp only at hmagic h hgood'
      obtain ⟨rfl, rfl⟩ := hmagic
      obtain ⟨a, b, c, d, n, e, l, k, rest, hlt, rfl⟩ := readHeader_eq hgood'
      rw [readHeader_leBytes g hlt] at h
      dsimp only at h
      split at h
      · cases h
      · rename_i hinvalid
        obtain ⟨hm, hdim, hn, hactive, hlevel, hentry⟩ :=
          headerInvalid_eq_false.1 (Bool.eq_false_of_not_eq_true hinvalid)
        obtain ⟨bits, nodes, map, left, hbits, rfl, hnodes, hsize, hmap, rfl⟩ :=
          readBody_eq (hlt n (by simp)) h
        refine ⟨⟨a, b, c, d, e, l, k, bits, nodes, map⟩, left, ?_, ?_⟩
        · exact ⟨⟨hm, hlt a (by simp)⟩, ⟨hlt b (by simp), hlt c (by simp)⟩, hdim, hn, hactive,
            hlevel, hentry, hbits, hnodes, hsize, hmap⟩
        · rw [encode_append]
          have hbytes := (InputStream.mk.inj hs').1
          have hbytes' := (InputStream.mk.inj hs).1
          rw [hbytes, hbytes']
          simp only [HnswRecord.header, HnswRecord.body, List.append_assoc]

end Body

end Nvecd.Vectors
