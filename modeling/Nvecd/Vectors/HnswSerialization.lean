/-
  File:      Nvecd/Vectors/HnswSerialization.lean
  Subject:   Saving an HNSW index and loading it: what comes back, what is accepted, and what a
             refusal leaves.

  Everything rests on `deserialize_encode` and `encode_of_accepted` (HnswRoundTrip.lean): a stream
  that is accepted is the encoding of a record, and the index has its fields.

  * `recordOf`, `serialize_eq_encode`, `Consistent.fits` -- what is written is such an encoding, within
    the bounds of the reader if the index is;
  * `Sound`, `restored_sound_iff` -- the structure of an index that was read;
  * `config_m_deserialize` -- the first member is overwritten before anything is checked;
  * `hnsw_stream_iff`.
-/
import Nvecd.Lib.Checked
import Nvecd.Vectors.HnswRoundTrip
import Nvecd.Vectors.HnswSizes

namespace Nvecd.Vectors

open Nvecd.Lib

/-! ## 1. What is written -/

/-- The fields that `Serialize` writes. -/
def HnswIndex.recordOf (g : HnswIndex UInt32) : HnswRecord where
  m := g.config.m
  efConstruction := g.config.efConstruction
  efSearch := g.config.efSearch
  dimension := g.dimension
  entryPoint := g.entryPoint
  maxLevel := g.maxLevel
  activeCount := g.activeCount
  bits := g.vectors.map UInt32.toNat
  nodes := g.nodes
  compactToInternal := g.compactToInternal

theorem serializeNode_eq {node : HnswNode} (h : node.neighbors.length = node.level + 1) :
    serializeNode node = some (encodeNode node) := by
  have hlists : (List.range (node.level + 1)).mapM (fun l => do
        let links ← node.neighbors[l]?
        return serializeNumbers links) =
      some ((List.range (node.level + 1)).map fun l =>
        serializeNumbers ((node.neighbors[l]?).getD [])) := by
    refine mapM_eq_some_map fun l hl => ?_
    rw [List.getElem?_eq_getElem (h ▸ List.mem_range.mp hl)]
    rfl
  have hall : (List.range (node.level + 1)).map (fun l =>
      serializeNumbers ((node.neighbors[l]?).getD [])) = node.neighbors.map serializeNumbers := by
    apply List.ext_getElem (by rw [List.length_map, List.length_map, List.length_range, h])
    intro l hl hl'
    rw [List.getElem_map, List.getElem_map, List.getElem_range,
      List.getElem?_eq_getElem (by rwa [List.length_map] at hl')]
    rfl
  unfold serializeNode
  rw [hlists, hall]
  simp [encodeNode, List.flatMap_def]

/-- **What is written is the encoding of the fields.** -/
theorem serialize_eq_encode {g : HnswIndex UInt32}
    (h : ∀ node ∈ g.nodes, node.neighbors.length = node.level + 1) :
    g.serialize = some g.recordOf.encode := by
  have hbits : g.recordOf.bits.flatMap (leBytes 4) =
      g.vectors.flatMap fun x => leBytes 4 x.toNat := List.flatMap_map ..
  have hnodes : (g.nodes.map encodeNode).flatten = g.recordOf.nodes.flatMap encodeNode :=
    (List.flatMap_def ..).symm
  unfold HnswIndex.serialize HnswRecord.encode
  rw [mapM_eq_some_map fun node hnode => serializeNode_eq (h node hnode), hbits]
  simp only [Option.bind_eq_bind, Option.bind_some, Option.pure_def, hnodes, serializeHeader,
    List.append_assoc]
  rfl

/-- **The bounds of the reader**: `Serialize` does not check them. -/
structure HnswIndex.Loadable (g : HnswIndex UInt32) : Prop where
  m : 2 ≤ g.config.m
  dimension : 0 < g.dimension ∧ g.dimension ≤ HnswIndex.kMaxVectorDimension
  nodeCount : g.nodes.length ≤ kMaxDeserializedNodes
  mapSize : g.compactToInternal.length ≤ kMaxDeserializedNodes

theorem HnswIndex.Consistent.layers {g : HnswIndex UInt32} (h : g.Consistent) :
    ∀ node ∈ g.nodes, node.neighbors.length = node.level + 1 := by
  obtain ⟨s, hs⟩ := h
  exact hs.holds.1.linked.layers

/-- **An index within the bounds** is written within them. -/
theorem HnswIndex.Consistent.fits {g : HnswIndex UInt32} (h : g.Consistent) (hload : g.Loadable) :
    g.recordOf.Fits := by
  obtain ⟨s, ⟨hinv, -⟩, hsized, hconfig⟩ := h
  have hlinks : ∀ i links layer, ∀ node : HnswNode, g.nodes[i]? = some node →
      node.neighbors[layer]? = some links → neighborsAt g.nodes layer i = links := by
    intro i links layer node hi hl
    rw [neighborsAt, hi]
    simp [hl]
  constructor
  case m => exact ⟨hload.m, hconfig.m⟩
  case ef => exact ⟨hconfig.efConstruction, hconfig.efSearch⟩
  case dimension => exact hload.dimension
  case nodeCount => exact hload.nodeCount
  case activeCount => exact hinv.directory.active.trans_le List.countP_le_length
  case maxLevel => exact hsized.maxLevel
  case entryPoint =>
    by_cases hnil : g.nodes = []
    · exact .inl (hinv.noEntry hnil)
    · obtain ⟨node, hnode, -⟩ := hinv.entry hnil
      exact .inr (List.getElem?_eq_some_iff.mp hnode).1
  case vectors =>
    refine ⟨(List.length_map _).trans hinv.directory.rows, fun x hx => ?_⟩
    obtain ⟨v, -, rfl⟩ := List.mem_map.mp hx
    exact v.toNat_lt
  case nodes =>
    intro node hnode
    obtain ⟨hlevel, hcompact⟩ := hsized.node node hnode
    obtain ⟨i, hi⟩ := List.mem_iff_getElem?.mp hnode
    refine ⟨hcompact, hlevel, hinv.linked.layers node hnode, fun links hmem => ?_⟩
    obtain ⟨layer, hlayer⟩ := List.mem_iff_getElem?.mp hmem
    have hat := hlinks i links layer node hi hlayer
    have hin : ∀ id ∈ links, id < g.nodes.length := by
      intro id hid
      obtain ⟨m, hm, -⟩ := hinv.linked.ends layer i id (hat ▸ hid)
      exact (List.getElem?_eq_some_iff.mp hm).1
    -- ids that differ and are in range are no more than the nodes
    have hnodup : links.Nodup := hat ▸ hinv.linked.nodup layer i
    have hsub : links ⊆ List.range g.nodes.length := fun id hid => List.mem_range.mpr (hin id hid)
    exact ⟨(hnodup.subperm hsub).length_le.trans List.length_range.le, hin⟩
  case mapSize => exact hload.mapSize
  case map =>
    intro id hid
    obtain ⟨c, hc⟩ := List.mem_iff_getElem?.mp hid
    refine (hinv.directory.pointers c id hc).imp_right ?_
    rintro ⟨node, hnode, -⟩
    exact (List.getElem?_eq_some_iff.mp hnode).1

/-- What `Deserialize` is to bring back of an index. -/
structure HnswIndex.Restores (g g' : HnswIndex UInt32) : Prop where
  config : g'.config = g.config
  dimension : g'.dimension = g.dimension
  vectors : g'.vectors = g.vectors
  nodes : g'.nodes = g.nodes
  entryPoint : g'.entryPoint = g.entryPoint
  maxLevel : g'.maxLevel = g.maxLevel
  activeCount : g'.activeCount = g.activeCount
  compactToInternal : g'.compactToInternal = g.compactToInternal

variable {fl : HnswMetric UInt32} {g h : HnswIndex UInt32} {r : HnswRecord}

/-- The members of the configuration that are not written agree. -/
structure HnswConfig.SameUnwritten (config config' : HnswConfig) : Prop where
  maxElements : config'.maxElements = config.maxElements
  rebuildTombstoneRatio : config'.rebuildTombstoneRatio = config.rebuildTombstoneRatio
  rebuildMinNodes : config'.rebuildMinNodes = config.rebuildMinNodes

/-- What is written of `g` is accepted by `h` and restores it. -/
def HnswIndex.ReadsBack (fl : HnswMetric UInt32) (g h : HnswIndex UInt32) : Prop :=
  ∃ bytes, g.serialize = some bytes ∧ (h.deserialize fl bytes).2 = .ok () ∧
    g.Restores (h.deserialize fl bytes).1

/-- **An index is saved and loaded** into another. -/
theorem HnswIndex.Consistent.readsBack_iff (hg : g.Consistent) (h : HnswIndex UInt32) :
    g.ReadsBack fl h ↔ g.Loadable ∧ g.config.SameUnwritten h.config := by
  constructor
  · rintro ⟨bytes, -, hok, hrestores⟩
    obtain ⟨r, rest, hfits, rfl⟩ := encode_of_accepted hok
    rw [deserialize_encode fl h hfits rest] at hrestores
    obtain ⟨hconfig, hdim, -, hnodes, -, -, -, hmap⟩ := hrestores
    have hmax := congrArg HnswConfig.maxElements hconfig
    have hratio := congrArg HnswConfig.rebuildTombstoneRatio hconfig
    have hmin := congrArg HnswConfig.rebuildMinNodes hconfig
    have hsame : g.config.SameUnwritten h.config := ⟨hmax, hratio, hmin⟩
    refine ⟨⟨?_, ?_, ?_, ?_⟩, hsame⟩
    · exact congrArg HnswConfig.m hconfig ▸ hfits.m.1
    · exact hdim ▸ hfits.dimension
    · exact hnodes ▸ hfits.nodeCount
    · exact hmap ▸ hfits.mapSize
  · rintro ⟨hload, hsame⟩
    have hread := deserialize_encode fl h (hg.fits hload) []
    rw [List.append_nil] at hread
    refine ⟨_, serialize_eq_encode hg.layers, congrArg Prod.snd hread, ?_⟩
    rw [hread]
    have hvectors : (g.vectors.map UInt32.toNat).map UInt32.ofNat = g.vectors := by
      rw [List.map_map]
      refine (List.map_congr_left fun x _ => ?_).trans (List.map_id _)
      exact UInt32.ofNat_toNat
    refine ⟨?_, rfl, hvectors, rfl, rfl, rfl, rfl, rfl⟩
    show HnswConfig.mk g.config.m g.config.efConstruction g.config.efSearch h.config.maxElements
      h.config.rebuildTombstoneRatio h.config.rebuildMinNodes = g.config
    rw [hsame.maxElements, hsame.rebuildTombstoneRatio, hsame.rebuildMinNodes]

/-! ## 2. What is accepted -/

/-- **The structure of an index**: links within the layers of both ends, the entry point in the
    highest layer, the live nodes counted, and the map and the nodes consistent. -/
structure HnswIndex.Sound (g : HnswIndex UInt32) : Prop where
  layers : ∀ node ∈ g.nodes, node.neighbors.length = node.level + 1
  links : ∀ node ∈ g.nodes, ∀ layer links, node.neighbors[layer]? = some links →
    ∀ j ∈ links, layer ≤ node.level ∧ HasLayer g.nodes layer j
  noEntry : g.nodes = [] → g.entryPoint = uint32Max
  entry : g.nodes ≠ [] → ∃ node, g.nodes[g.entryPoint]? = some node ∧ node.level = g.maxLevel
  activeCount : g.activeCount = g.nodes.countP fun node => !node.deleted
  pointers : ∀ c id, g.compactToInternal[c]? = some id →
    id = uint32Max ∨ ∃ node : HnswNode, g.nodes[id]? = some node ∧ node.compactIndex = c
  reached : ∀ id (node : HnswNode), g.nodes[id]? = some node → node.deleted = false →
    g.compactToInternal[node.compactIndex]? = some id

/-- **What is accepted is sound** when the relations hold that are not checked. -/
theorem restored_sound_iff (hfits : r.Fits) : (g.restored fl r).Sound ↔ r.Related := by
  constructor
  · intro hsound
    exact {
      links := fun node hnode layer links hl j hj => (hsound.links node hnode layer links hl j hj).2
      entryPoint := hsound.entry
      activeCount := hsound.activeCount
      pointers := hsound.pointers
      reached := hsound.reached }
  · intro hrel
    constructor
    case layers => exact fun node hnode => (hfits.nodes node hnode).layers
    case links =>
      intro node hnode layer links hl j hj
      have hlt := (List.getElem?_eq_some_iff.mp hl).1
      rw [(hfits.nodes node hnode).layers] at hlt
      exact ⟨Nat.le_of_lt_succ hlt, hrel.links node hnode layer links hl j hj⟩
    case noEntry =>
      intro hnil
      refine hfits.entryPoint.resolve_right fun hlt => ?_
      rw [show r.nodes = [] from hnil] at hlt
      exact Nat.not_lt_zero _ hlt
    case entry => exact hrel.entryPoint
    case activeCount => exact hrel.activeCount
    case pointers => exact hrel.pointers
    case reached => exact hrel.reached

/-- The stream begins with the encoding of a record that has the property. -/
def Encodes (bytes : List UInt8) (p : HnswRecord → Prop) : Prop :=
  ∃ (r : HnswRecord) (rest : List UInt8), bytes = r.encode ++ rest ∧ r.Fits ∧ p r

theorem accepted_sound_iff {bytes : List UInt8} (hok : (g.deserialize fl bytes).2 = .ok ()) :
    (g.deserialize fl bytes).1.Sound ↔ Encodes bytes HnswRecord.Related := by
  constructor
  · intro hsound
    obtain ⟨r, rest, hfits, rfl⟩ := encode_of_accepted hok
    rw [deserialize_encode fl g hfits rest] at hsound
    exact ⟨r, rest, rfl, hfits, (restored_sound_iff hfits).mp hsound⟩
  · rintro ⟨r, rest, rfl, hfits, hrel⟩
    rw [deserialize_encode fl g hfits rest]
    exact (restored_sound_iff hfits).mpr hrel

/-! ## 3. What a refusal leaves -/

/-- The magic number and the version. -/
def formatBytes : List UInt8 := leBytes 4 kHnswMagic ++ leBytes 4 1

open InputStream in
/-- **A header that is not there** overwrites nothing. -/
theorem readHeader_spent {s : InputStream} (hs : s.bytes = []) :
    (readHeader g s).1 = g ∧ (readHeader g s).2.2.good = false := by
  simp only [readHeader, readUInt_spent (Nat.zero_lt_succ 3) hs,
    readUInt_spent (Nat.zero_lt_succ 3) (s := ⟨[], false⟩) rfl, and_self]

/-- A stream of no more than the format leaves the index as it is. -/
theorem deserialize_short {bytes : List UInt8} (hlen : bytes.length ≤ 8) :
    (g.deserialize fl bytes).1 = g := by
  have hfirst := InputStream.length_readUInt 4 0 (s := ⟨bytes, true⟩) nofun
  have hsecond := InputStream.length_readUInt 4 0 hfirst.2
  have hspent : (InputStream.readUInt 4 0 (InputStream.readUInt 4 0 ⟨bytes, true⟩).2).2.bytes =
      [] := by
    rw [← List.length_eq_zero_iff, hsecond.1, hfirst.1]
    dsimp only
    omega
  obtain ⟨hsame, hbad⟩ := readHeader_spent (g := g) hspent
  unfold HnswIndex.deserialize
  dsimp only
  split
  · rfl
  · rw [if_pos (by rw [hbad]; exact Bool.false_ne_true)]
    exact hsame

/-- A stream that does not begin with the format leaves the index as it is. -/
theorem deserialize_otherFormat {bytes : List UInt8} (hlen : 8 < bytes.length)
    (hother : ¬formatBytes <+: bytes) : (g.deserialize fl bytes).1 = g := by
  have hread : ∀ {l : List UInt8} (old : Nat), 4 ≤ l.length →
      InputStream.readUInt 4 old ⟨l, true⟩ = (ofLeBytes (l.take 4), ⟨l.drop 4, true⟩) := by
    intro l old hl
    simp [InputStream.readUInt, hl]
  unfold HnswIndex.deserialize
  rw [hread 0 (by omega)]
  dsimp only
  rw [hread 0 (by rw [List.length_drop]; omega)]
  dsimp only
  refine congrArg Prod.fst (if_pos ?_)
  by_contra hformat
  rw [not_or, not_not, not_not] at hformat
  obtain ⟨hmagic, hversion⟩ := hformat
  refine hother ⟨bytes.drop 8, ?_⟩
  have htake : ∀ {l : List UInt8}, 4 ≤ l.length →
      leBytes 4 (ofLeBytes (l.take 4)) = l.take 4 := by
    intro l hl
    simpa only [List.length_take_of_le hl] using leBytes_ofLeBytes (l.take 4)
  have hfirst := htake (l := bytes) (by omega)
  have hsecond := htake (l := bytes.drop 4) (by rw [List.length_drop]; omega)
  rw [hmagic] at hfirst
  rw [hversion] at hsecond
  rw [formatBytes, hfirst, hsecond, List.append_assoc, ← List.drop_drop (i := 4) (j := 4),
    List.take_append_drop, List.take_append_drop]

theorem config_readBody (g : HnswIndex UInt32) (n : Nat) (s : InputStream) :
    (readBody fl g n s).1.config = g.config := by
  unfold readBody
  split
  · rfl
  · dsimp only [readVectors]
    split
    · rfl
    · split
      · rfl
      · rfl

/-- **The first member is overwritten** before anything is checked. -/
theorem config_m_deserialize (fl : HnswMetric UInt32) (g : HnswIndex UInt32) (b : UInt8)
    (rest : List UInt8) :
    (g.deserialize fl (formatBytes ++ b :: rest)).1.config.m % 256 = b.toNat := by
  have hm : (readHeader g ⟨b :: rest, true⟩).1.config.m =
      (InputStream.readUInt 4 g.config.m ⟨b :: rest, true⟩).1 := rfl
  rw [formatBytes, List.append_assoc, HnswIndex.deserialize,
    InputStream.readUInt_leBytes (by decide)]
  dsimp only
  rw [InputStream.readUInt_leBytes (by decide)]
  dsimp only
  rw [if_neg (by simp), ← InputStream.readUInt_mod (Nat.zero_lt_succ 3) g.config.m, ← hm]
  split
  · rfl
  · split
    · rfl
    · rw [config_readBody]

theorem reached_new {config : HnswConfig} (hconfig : config.Sized) (dimension : Nat)
    (levelDraws : Nat → Nat) : (HnswIndex.new config dimension levelDraws).Reached fl :=
  ⟨config, dimension, levelDraws, [], hconfig, trivial, rfl⟩

/-- An error leaves every index as it was. -/
def ErrorLeaves (fl : HnswMetric UInt32) (bytes : List UInt8) : Prop :=
  ∀ (g : HnswIndex UInt32) (e : String), g.Reached fl →
    (g.deserialize fl bytes).2 = .error e → (g.deserialize fl bytes).1 = g

/-- **The streams whose refusal changes no index.** -/
theorem errorLeaves_iff (fl : HnswMetric UInt32) (bytes : List UInt8) :
    ErrorLeaves fl bytes ↔
      ¬formatBytes <+: bytes ∨ bytes.length ≤ 8 ∨ Encodes bytes fun _ => True := by
  constructor
  · intro hsame
    by_contra hnot
    simp only [not_or, not_not, Nat.not_le] at hnot
    obtain ⟨⟨tail, rfl⟩, hlen, hrefused⟩ := hnot
    obtain ⟨b, rest, rfl⟩ : ∃ b rest, tail = b :: rest := by
      cases tail with
      | nil => exact absurd hlen (by decide)
      | cons b rest => exact ⟨b, rest, rfl⟩
    -- two indices that differ in the byte that is read first
    have hbyte : ∀ m < 256 ^ 4, m % 256 = b.toNat := by
      intro m hm
      have hreached : (HnswIndex.new { m := m } 1 fun _ => 0).Reached fl := reached_new
        ⟨hm, by dsimp only; decide, by dsimp only; decide⟩ 1 fun _ => 0
      cases hresult : ((HnswIndex.new { m := m } 1 fun _ => 0).deserialize fl
          (formatBytes ++ b :: rest)).2 with
      | error e =>
        have hm' := config_m_deserialize fl (.new { m := m } 1 fun _ => 0) b rest
        rw [hsame _ e hreached hresult] at hm'
        exact hm'
      | ok u =>
        obtain ⟨r, left, hfits, heq⟩ := encode_of_accepted hresult
        exact absurd ⟨r, left, heq, hfits, trivial⟩ hrefused
    have h16 := hbyte 16 (by decide)
    have h17 := hbyte 17 (by decide)
    omega
  · intro hwhen g e _ herror
    by_cases hshort : bytes.length ≤ 8
    · exact deserialize_short hshort
    · rcases hwhen with hother | hlen | ⟨r, rest, rfl, hfits, -⟩
      · exact deserialize_otherFormat (Nat.lt_of_not_le hshort) hother
      · exact absurd hlen hshort
      · rw [deserialize_encode fl g hfits rest] at herror
        cases herror

/-! ## 4. Every index and every stream -/

/-- **Saving and loading.** An index that was reached is restored when it is within the bounds of
    the reader and the settings that are not written agree; a stream that is accepted makes a sound
    index when the relations hold that are not checked; an error changes no index when nothing is
    read after the format, which excludes every other stream that is refused. -/
theorem hnsw_stream_iff (fl : HnswMetric UInt32) :
    (∀ g h : HnswIndex UInt32, g.Reached fl → (g.ReadsBack fl h ↔
      g.Loadable ∧ g.config.SameUnwritten h.config)) ∧
    (∀ (g : HnswIndex UInt32) (bytes : List UInt8), (g.deserialize fl bytes).2 = .ok () →
      ((g.deserialize fl bytes).1.Sound ↔ Encodes bytes HnswRecord.Related)) ∧
    ∀ bytes : List UInt8, ErrorLeaves fl bytes ↔
      ¬formatBytes <+: bytes ∨ bytes.length ≤ 8 ∨ Encodes bytes fun _ => True :=
  ⟨fun _ h hg => hg.consistent.readsBack_iff h, fun _ _ hok => accepted_sound_iff hok,
    errorLeaves_iff fl⟩

/-- Vectors of one number; the smaller, the better. -/
def numberMetric : HnswMetric UInt32 where
  ranking := .sorted (fun a b => decide (b < a)) (by simp)
    (fun a b c hab hbc => by
      simp only [decide_eq_true_eq] at *
      exact UInt32.lt_trans hbc hab)
  distanceFunc a b := a.headD 0 + b.headD 0
  useCosinePrenorm := false
  cosineSimilarityPreNorm _ _ _ _ := 0
  l2Norm _ := 0
  zero := 0
  belowTombstoneRatio _ tombstones nodes := tombstones * 4 < nodes

/-- An index with two vectors. -/
def exampleCalls : List (HnswCall UInt32) :=
  [.op (.add 0 fun _ => 5), .setEfSearch 10, .op (.add 1 fun _ => 7)]

theorem hnsw_stream_iff_example : ∃ g : HnswIndex UInt32, g.nodes.length = 2 ∧
    g.ReadsBack numberMetric (.new {} 3 fun _ => 0) := by
  have hmeets : Meets (HnswIndex.call numberMetric) HnswIndex.CallBelowMax (.new {} 1 fun _ => 0)
      exampleCalls := by decide +kernel
  obtain ⟨g, hrun⟩ : ∃ g, run (HnswIndex.call numberMetric) (.new {} 1 fun _ => 0) exampleCalls =
      some g := ⟨_, rfl⟩
  have hg : g.nodes.length = 2 ∧ g.config.m = 16 ∧ g.dimension = 1 ∧
      g.compactToInternal.length = 2 ∧ g.config.maxElements = 0 ∧
      g.config.rebuildTombstoneRatio = 0x3e800000 ∧ g.config.rebuildMinNodes = 64 := by
    cases hrun
    decide +kernel
  obtain ⟨hnodes, hm, hdim, hmap, hmax, hratio, hrebuild⟩ := hg
  have hreached : g.Reached numberMetric := ⟨{}, 1, _, _, by constructor <;> decide, hmeets, hrun⟩
  refine ⟨g, hnodes, ((hnsw_stream_iff numberMetric).1 g _ hreached).mpr ⟨⟨?_, ?_, ?_, ?_⟩, ?_⟩⟩
  · omega
  · rw [hdim]
    decide
  · rw [hnodes]
    decide
  · rw [hmap]
    decide
  · exact ⟨hmax.symm, hratio.symm, hrebuild.symm⟩

/-- A header whose dimension is refused. -/
def oversizedHeader : List UInt8 :=
  [kHnswMagic, 1, 8, 50, 20, 4097, 1, 0, 0, 1].flatMap (leBytes 4)

/-- One node that is live, and none counted. -/
def miscounted : HnswRecord where
  m := 8
  efConstruction := 50
  efSearch := 20
  dimension := 1
  entryPoint := 0
  maxLevel := 0
  activeCount := 0
  bits := [0]
  nodes := [{ compactIndex := 0, level := 0, neighbors := [[]] }]
  compactToInternal := [0]

/-- **A header that is refused** has changed the configuration and the dimension; **a stream with a
    wrong count** is accepted. -/
theorem hnsw_stream_fails :
    (∃ g : HnswIndex UInt32, g.Reached numberMetric ∧
      (g.deserialize numberMetric oversizedHeader).2 =
        .error "Invalid HNSW index header values" ∧
      (g.deserialize numberMetric oversizedHeader).1.config.m ≠ g.config.m ∧
      (g.deserialize numberMetric oversizedHeader).1.dimension ≠ g.dimension) ∧
    ∃ g : HnswIndex UInt32, g.Reached numberMetric ∧
      (g.deserialize numberMetric miscounted.encode).2 = .ok () ∧
      ¬(g.deserialize numberMetric miscounted.encode).1.Sound := by
  have hreached : (HnswIndex.new {} 4 fun _ => 0 : HnswIndex UInt32).Reached numberMetric :=
    reached_new ⟨by decide, by decide, by decide⟩ 4 _
  refine ⟨⟨_, hreached, by decide +kernel, by decide +kernel, by decide +kernel⟩,
    _, hreached, by decide +kernel, fun hsound => ?_⟩
  exact absurd hsound.activeCount (by decide +kernel)

end Nvecd.Vectors
