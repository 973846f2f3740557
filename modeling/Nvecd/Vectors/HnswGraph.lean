/-
  File:      Nvecd/Vectors/HnswGraph.lean
  Subject:   The layered graph of `vectors/hnsw_index.cpp`: searching a layer and linking a node
             into it.

  The graph is the list of nodes, each with one list of neighbours for every layer it is in; how
  far two nodes are apart is a function that the index supplies (HnswIndex.lean).

  * `searchLayer`, `selectNeighbors`, `descend` -- `SearchLayer`, `SelectNeighbors` and the way
    down through the upper layers;
  * `Linking.linkBack`, `Linking.connectLayer`, `Linking.connectDown` -- the loop of `AddLocked`
    over the layers;
  * `Linked` -- what the lists of neighbours keep;
  * `descend_spec`, `Linking.connectDown_spec` -- a node that is linked in leaves it so.
-/
import Nvecd.Lib.BestFirst
import Nvecd.Lib.FlatMatrix

namespace Nvecd.Vectors

open Nvecd.Lib

/-- `HnswIndex::Node`. -/
structure HnswNode where
  compactIndex : Nat
  level : Nat
  deleted : Bool := false
  /-- The ids of the neighbours, one list for each layer. -/
  neighbors : List (List Nat)
  deriving DecidableEq

variable {F : Type}

/-! ## 1. Searching and linking -/

/-- The neighbours of a node in a layer, none in a layer it is not in. -/
def neighborsAt (nodes : List HnswNode) (layer id : Nat) : List Nat :=
  match nodes[id]? with
  | some node => (node.neighbors[layer]?).getD []
  | none => []

/-- `neighbors[layer] = links`. -/
def setLinks (nodes : List HnswNode) (layer id : Nat) (links : List Nat) : List HnswNode :=
  nodes.modify id fun node => { node with neighbors := node.neighbors.set layer links }

/-- `SearchLayer`. -/
def searchLayer (R : Ranking F Nat) (score : Nat → F) (nodes : List HnswNode)
    (entryNode layer ef : Nat) : Option (List (F × Nat)) :=
  bestFirst R score (neighborsAt nodes layer) ef (nodes.length + 1)
    (Frontier.start score entryNode)

/-- `SelectNeighbors`. -/
def selectNeighbors (candidates : List (F × Nat)) (maxCount : Nat) : List Nat :=
  (candidates.take maxCount).map Prod.snd

/-- The way down from layer `l`, climbing in every layer above `level`. -/
def descend (R : Ranking F Nat) (score : Nat → F) (nodes : List HnswNode) (level : Nat) :
    Nat → Nat → Option Nat
  | 0, cur => some cur
  | l + 1, cur =>
    if level < l + 1 then
      match greedy R score (neighborsAt nodes (l + 1)) (nodes.length + 1) cur with
      | some cur => descend R score nodes level l cur
      | none => none
    else some cur

/-- What `AddLocked` links a new node with. -/
structure Linking (F : Type) where
  ranking : Ranking F Nat
  /-- `ComputeDistance(vector, vector_norm, ·)`. -/
  score : Nat → F
  /-- The distance of two nodes, from the first one's perspective. -/
  between : Nat → Nat → F
  efConstruction : Nat
  maxNeighbors : Nat → Nat
  internalId : Nat

namespace Linking

variable (k : Linking F)

/-- The reverse link of one neighbour, and the pruning of its list. -/
def linkBack (layer : Nat) (nodes : List HnswNode) (neighborId : Nat) : List HnswNode :=
  match nodes[neighborId]? with
  | none => nodes
  | some node =>
    if node.neighbors.length ≤ layer then nodes
    else
      let links := neighborsAt nodes layer neighborId ++ [k.internalId]
      let candidates := links.map fun nid => (k.between neighborId nid, nid)
      setLinks nodes layer neighborId
        (if k.maxNeighbors layer < links.length then
          selectNeighbors (k.ranking.sort candidates) (k.maxNeighbors layer)
        else links)

/-- One layer: the candidates, the forward links, the reverse links, and the node the next layer
    begins at. -/
def connectLayer (layer : Nat) (nodes : List HnswNode) (cur : Nat) :
    Option (List HnswNode × Nat) :=
  match searchLayer k.ranking k.score nodes cur layer k.efConstruction with
  | none => none
  | some candidates =>
    let selected := selectNeighbors candidates (k.maxNeighbors layer)
    let forward := setLinks nodes layer k.internalId selected
    some (selected.foldl (k.linkBack layer) forward,
      (candidates.head?.map Prod.snd).getD cur)

/-- The layers below `l`, from the highest down. -/
def connectDown : Nat → List HnswNode → Nat → Option (List HnswNode)
  | 0, nodes, _ => some nodes
  | l + 1, nodes, cur =>
    match k.connectLayer l nodes cur with
    | some (nodes, cur) => connectDown l nodes cur
    | none => none

end Linking

/-! ## 2. What the lists keep -/

/-- The node exists and is in the layer. -/
def HasLayer (nodes : List HnswNode) (layer id : Nat) : Prop :=
  ∃ node, nodes[id]? = some node ∧ layer ≤ node.level

/-- **What the lists of neighbours keep.** -/
structure Linked (maxNeighbors : Nat → Nat) (nodes : List HnswNode) : Prop where
  /-- A node has one list for each layer it is in. -/
  layers : ∀ node ∈ nodes, node.neighbors.length = node.level + 1
  nodup : ∀ layer id, (neighborsAt nodes layer id).Nodup
  short : ∀ layer id, (neighborsAt nodes layer id).length ≤ maxNeighbors layer
  other : ∀ layer id, id ∉ neighborsAt nodes layer id
  ends : ∀ layer id j, j ∈ neighborsAt nodes layer id → HasLayer nodes layer j

/-- A node without its links. -/
def HnswNode.bare (node : HnswNode) : HnswNode := { node with neighbors := [] }

variable {nodes nodes' : List HnswNode} {layer id cur : Nat} {links : List Nat}

theorem HasLayer.mono {lower : Nat} (h : HasLayer nodes layer id) (hle : lower ≤ layer) :
    HasLayer nodes lower id := by
  obtain ⟨node, hnode, hlevel⟩ := h
  exact ⟨node, hnode, Nat.le_trans hle hlevel⟩

theorem HasLayer.mem_range (h : HasLayer nodes layer id) : id ∈ List.range nodes.length := by
  obtain ⟨node, hnode, _⟩ := h
  exact List.mem_range.mpr (List.getElem?_eq_some_iff.mp hnode).1

theorem HnswNode.level_of_bare {a b : HnswNode} (h : a.bare = b.bare) : a.level = b.level :=
  (HnswNode.mk.inj h).2.1

theorem HnswNode.deleted_of_bare {a b : HnswNode} (h : a.bare = b.bare) :
    a.deleted = b.deleted := (HnswNode.mk.inj h).2.2.1

theorem HnswNode.compactIndex_of_bare {a b : HnswNode} (h : a.bare = b.bare) :
    a.compactIndex = b.compactIndex := (HnswNode.mk.inj h).1

/-- A node, and what it was with other links. -/
theorem getElem?_of_bare (hbare : nodes'.map HnswNode.bare = nodes.map HnswNode.bare)
    {node' : HnswNode} (h : nodes'[id]? = some node') :
    ∃ node, nodes[id]? = some node ∧ node.bare = node'.bare := by
  have hget : (nodes.map HnswNode.bare)[id]? = some node'.bare := by
    rw [← hbare, List.getElem?_map, h]
    rfl
  rw [List.getElem?_map] at hget
  exact Option.map_eq_some_iff.mp hget

/-- Which layers a node is in does not depend on the links. -/
theorem HasLayer.congr (h : HasLayer nodes layer id)
    (hbare : nodes'.map HnswNode.bare = nodes.map HnswNode.bare) : HasLayer nodes' layer id := by
  obtain ⟨node, hnode, hlevel⟩ := h
  obtain ⟨node', hnode', he⟩ := getElem?_of_bare hbare.symm hnode
  refine ⟨node', hnode', ?_⟩
  rw [HnswNode.level_of_bare he]
  exact hlevel

theorem length_of_bare (hbare : nodes'.map HnswNode.bare = nodes.map HnswNode.bare) :
    nodes'.length = nodes.length := by
  rw [← List.length_map (f := HnswNode.bare), hbare, List.length_map]

theorem bare_setLinks :
    (setLinks nodes layer id links).map HnswNode.bare = nodes.map HnswNode.bare :=
  map_modify_other fun _ => rfl

/-- The list that is set, and the others. -/
theorem neighborsAt_setLinks_self (links : List Nat) {node : HnswNode} (hnode : nodes[id]? = some node)
    (hlayer : layer < node.neighbors.length) :
    neighborsAt (setLinks nodes layer id links) layer id = links := by
  have hget : (setLinks nodes layer id links)[id]? =
      some { node with neighbors := node.neighbors.set layer links } := by
    rw [setLinks, List.getElem?_modify_eq, hnode]
    rfl
  unfold neighborsAt
  rw [hget]
  show ((node.neighbors.set layer links)[layer]?).getD [] = links
  rw [List.getElem?_set_self hlayer]
  rfl

theorem neighborsAt_setLinks_of_ne {l j : Nat} (h : j ≠ id ∨ l ≠ layer) :
    neighborsAt (setLinks nodes layer id links) l j = neighborsAt nodes l j := by
  unfold neighborsAt setLinks
  rw [List.getElem?_modify]
  by_cases hj : id = j
  · subst hj
    have hl : layer ≠ l := (h.resolve_left fun hne => hne rfl).symm
    cases nodes[id]? with
    | none => rfl
    | some node => simp [List.getElem?_set_ne hl]
  · cases nodes[j]? with
    | none => rfl
    | some node => simp [hj]

section Links

variable {maxNeighbors : Nat → Nat}

/-- **A list that is set** to one that keeps the rules. -/
theorem Linked.setLinks (h : Linked maxNeighbors nodes) (hhas : HasLayer nodes layer id)
    (hnodup : links.Nodup) (hshort : links.length ≤ maxNeighbors layer) (hother : id ∉ links)
    (hends : ∀ j ∈ links, HasLayer nodes layer j) :
    Linked maxNeighbors (setLinks nodes layer id links) := by
  obtain ⟨node, hnode, hlevel⟩ := hhas
  have hlt : layer < node.neighbors.length := by
    rw [h.layers node (List.mem_of_getElem? hnode)]
    omega
  have hself := neighborsAt_setLinks_self links hnode hlt
  have hne : ∀ {l j}, ¬(j = id ∧ l = layer) →
      neighborsAt (Vectors.setLinks nodes layer id links) l j = neighborsAt nodes l j :=
    fun hn => neighborsAt_setLinks_of_ne (not_and_or.mp hn)
  constructor
  case layers =>
    intro m hm
    obtain ⟨j, hj⟩ := List.mem_iff_getElem?.mp hm
    rw [Vectors.setLinks, List.getElem?_modify] at hj
    obtain ⟨m', hm', rfl⟩ := Option.map_eq_some_iff.mp hj
    have hold := h.layers m' (List.mem_of_getElem? hm')
    split
    · rw [List.length_set]
      exact hold
    · exact hold
  case nodup =>
    intro l j
    by_cases he : j = id ∧ l = layer
    · obtain ⟨rfl, rfl⟩ := he
      rw [hself]
      exact hnodup
    · rw [hne he]
      exact h.nodup l j
  case short =>
    intro l j
    by_cases he : j = id ∧ l = layer
    · obtain ⟨rfl, rfl⟩ := he
      rw [hself]
      exact hshort
    · rw [hne he]
      exact h.short l j
  case other =>
    intro l j
    by_cases he : j = id ∧ l = layer
    · obtain ⟨rfl, rfl⟩ := he
      rw [hself]
      exact hother
    · rw [hne he]
      exact h.other l j
  case ends =>
    intro l j i hi
    refine HasLayer.congr ?_ bare_setLinks
    by_cases he : j = id ∧ l = layer
    · obtain ⟨rfl, rfl⟩ := he
      rw [hself] at hi
      exact hends i hi
    · rw [hne he] at hi
      exact h.ends l j i hi

theorem linked_nil : Linked maxNeighbors [] where
  layers := by simp
  nodup _ _ := List.nodup_nil
  short _ _ := Nat.zero_le _
  other _ _ := List.not_mem_nil
  ends _ _ _ h := nomatch h

/-- Nodes with the same lists, in the same layers. -/
theorem Linked.congr (h : Linked maxNeighbors nodes)
    (hlayers : ∀ node ∈ nodes', node.neighbors.length = node.level + 1)
    (hlists : ∀ l j, neighborsAt nodes' l j = neighborsAt nodes l j)
    (hhas : ∀ l j, HasLayer nodes l j → HasLayer nodes' l j) : Linked maxNeighbors nodes' where
  layers := hlayers
  nodup l j := by rw [hlists]; exact h.nodup l j
  short l j := by rw [hlists]; exact h.short l j
  other l j := by rw [hlists]; exact h.other l j
  ends l j i hi := by
    rw [hlists] at hi
    exact hhas l i (h.ends l j i hi)

/-- A node that is marked keeps its links. -/
theorem neighborsAt_retire (nodes : List HnswNode) (id l j : Nat) :
    neighborsAt (nodes.modify id fun node => { node with deleted := true }) l j =
      neighborsAt nodes l j := by
  unfold neighborsAt
  rw [List.getElem?_modify]
  cases nodes[j]? with
  | none => rfl
  | some node =>
    by_cases he : id = j
    · simp [he]
    · simp [he]

theorem Linked.retire (h : Linked maxNeighbors nodes) (id : Nat) :
    Linked maxNeighbors (nodes.modify id fun node => { node with deleted := true }) := by
  refine h.congr ?_ ?_ ?_
  · intro m hm
    obtain ⟨j, hj⟩ := List.mem_iff_getElem?.mp hm
    rw [List.getElem?_modify] at hj
    obtain ⟨m', hm', rfl⟩ := Option.map_eq_some_iff.mp hj
    have hold := h.layers m' (List.mem_of_getElem? hm')
    split
    · exact hold
    · exact hold
  · exact neighborsAt_retire nodes id
  · rintro l j ⟨node, hnode, hlevel⟩
    unfold HasLayer
    rw [List.getElem?_modify, hnode]
    refine ⟨_, rfl, ?_⟩
    split
    · exact hlevel
    · exact hlevel

/-- A node that no one lists and that lists no one, at the end. -/
theorem neighborsAt_snoc {node : HnswNode} (hempty : ∀ list ∈ node.neighbors, list = [])
    (l j : Nat) : neighborsAt (nodes ++ [node]) l j = neighborsAt nodes l j := by
  unfold neighborsAt
  by_cases hlt : j < nodes.length
  · rw [List.getElem?_append_left hlt]
  · have hge := Nat.le_of_not_lt hlt
    rw [List.getElem?_append_right hge, List.getElem?_eq_none hge]
    cases hj : [node][j - nodes.length]? with
    | none => rfl
    | some m =>
      obtain rfl := List.mem_singleton.mp (List.mem_of_getElem? hj)
      cases hl : m.neighbors[l]? with
      | none => simp [hl]
      | some list => simp [hl, hempty list (List.mem_of_getElem? hl)]

theorem Linked.snoc (h : Linked maxNeighbors nodes) {node : HnswNode}
    (hlayers : node.neighbors.length = node.level + 1)
    (hempty : ∀ list ∈ node.neighbors, list = []) : Linked maxNeighbors (nodes ++ [node]) := by
  refine h.congr ?_ (neighborsAt_snoc hempty) ?_
  · intro m hm
    rcases List.mem_append.mp hm with hin | hlast
    · exact h.layers m hin
    · rw [List.mem_singleton.mp hlast]
      exact hlayers
  · rintro l j ⟨m, hm, hlevel⟩
    exact ⟨m, by rw [List.getElem?_append_left (List.getElem?_eq_some_iff.mp hm).1]; exact hm,
      hlevel⟩

/-! ## 3. Searches stay in the layer -/

/-- The nodes of a layer, but for one. -/
def InLayer (nodes : List HnswNode) (layer new id : Nat) : Prop :=
  id ≠ new ∧ HasLayer nodes layer id

variable {R : Ranking F Nat} {score : Nat → F} {new : Nat}

/-- A layer in which no one lists the new node is not left. -/
theorem Linked.closed (h : Linked maxNeighbors nodes)
    (hnew : ∀ j, new ∉ neighborsAt nodes layer j) (c : Nat)
    (_ : InLayer nodes layer new c) (n : Nat) (hn : n ∈ neighborsAt nodes layer c) :
    InLayer nodes layer new n :=
  ⟨fun e => hnew c (e ▸ hn), h.ends layer c n hn⟩

theorem searchLayer_spec (R : Ranking F Nat) (score : Nat → F) (h : Linked maxNeighbors nodes)
    (hnew : ∀ j, new ∉ neighborsAt nodes layer j) (hcur : InLayer nodes layer new cur)
    (ef : Nat) :
    ∃ l, searchLayer R score nodes cur layer ef = some l ∧ l ≠ [] ∧ (l.map Prod.snd).Nodup ∧
      ∀ x ∈ l, InLayer nodes layer new x.2 ∧ x.1 = score x.2 := by
  have hspec := bestFirst_spec R score ef
    (fun n (hn : InLayer nodes layer new n) => hn.2.mem_range) (h.closed hnew) hcur
  rwa [List.length_range] at hspec

/-- **The way down** ends at a node of the layer it stops at, and is never the new one. -/
theorem descend_spec (R : Ranking F Nat) (score : Nat → F) (h : Linked maxNeighbors nodes)
    (hnew : ∀ l j, new ∉ neighborsAt nodes l j) (level : Nat) {l : Nat}
    (hcur : InLayer nodes l new cur) :
    ∃ goal, descend R score nodes level l cur = some goal ∧
      InLayer nodes (min level l) new goal := by
  induction l generalizing cur with
  | zero => exact ⟨cur, rfl, hcur.1, hcur.2.mono (Nat.min_le_right level 0)⟩
  | succ l ih =>
    unfold descend
    by_cases hlt : level < l + 1
    · simp only [if_pos hlt]
      have hfuel : (List.range nodes.length).countP (fun x => R.better (score x) (score cur)) <
          nodes.length + 1 := by
        refine Nat.lt_succ_of_le ?_
        refine Nat.le_trans List.countP_le_length ?_
        rw [List.length_range]
      obtain ⟨next, hnext, hin⟩ := greedy_spec
        (fun n (hn : InLayer nodes (l + 1) new n) => hn.2.mem_range) (h.closed (hnew (l + 1)))
        hcur hfuel
      rw [hnext]
      obtain ⟨goal, hgoal, hP⟩ := ih ⟨hin.1, hin.2.mono (Nat.le_succ l)⟩
      refine ⟨goal, hgoal, hP.1, hP.2.mono ?_⟩
      omega
    · simp only [if_neg hlt]
      exact ⟨cur, rfl, hcur.1, hcur.2.mono (Nat.min_le_right level (l + 1))⟩

end Links

/-! ## 4. Linking a node in -/

theorem mem_selectNeighbors {candidates : List (F × Nat)} {maxCount j : Nat}
    (h : j ∈ selectNeighbors candidates maxCount) : j ∈ candidates.map Prod.snd := by
  obtain ⟨x, hx, rfl⟩ := List.mem_map.mp h
  exact List.mem_map_of_mem (List.mem_of_mem_take hx)

theorem nodup_selectNeighbors {candidates : List (F × Nat)} (maxCount : Nat)
    (h : (candidates.map Prod.snd).Nodup) : (selectNeighbors candidates maxCount).Nodup := by
  refine List.Nodup.sublist ?_ h
  exact (List.take_sublist maxCount candidates).map Prod.snd

theorem length_selectNeighbors (candidates : List (F × Nat)) (maxCount : Nat) :
    (selectNeighbors candidates maxCount).length ≤ maxCount := by
  rw [selectNeighbors, List.length_map]
  exact List.length_take_le maxCount candidates

namespace Linking

variable {k : Linking F}

/-- **One reverse link**: the neighbour lists the new node, or has pruned it. -/
theorem linkBack_spec (h : Linked k.maxNeighbors nodes) (hk : HasLayer nodes layer k.internalId)
    (hid : InLayer nodes layer k.internalId id)
    (hnew : k.internalId ∉ neighborsAt nodes layer id) :
    Linked k.maxNeighbors (k.linkBack layer nodes id) ∧
      (k.linkBack layer nodes id).map HnswNode.bare = nodes.map HnswNode.bare ∧
      ∀ l j, j ≠ id ∨ l ≠ layer →
        neighborsAt (k.linkBack layer nodes id) l j = neighborsAt nodes l j := by
  obtain ⟨hne, node, hnode, hlevel⟩ := hid
  have hlt : ¬node.neighbors.length ≤ layer := by
    rw [h.layers node (List.mem_of_getElem? hnode)]
    omega
  have hlinks : (neighborsAt nodes layer id ++ [k.internalId]).Nodup := by
    rw [List.nodup_append]
    refine ⟨h.nodup layer id, List.nodup_singleton _, ?_⟩
    rintro a ha b hb rfl
    exact hnew (List.mem_singleton.mp hb ▸ ha)
  have hends : ∀ j ∈ neighborsAt nodes layer id ++ [k.internalId],
      j ≠ id ∧ HasLayer nodes layer j := by
    intro j hj
    rcases List.mem_append.mp hj with hin | hlast
    · exact ⟨fun e => h.other layer id (e ▸ hin), h.ends layer id j hin⟩
    · obtain rfl := List.mem_singleton.mp hlast
      exact ⟨hne.symm, hk⟩
  unfold linkBack
  simp only [hnode, if_neg hlt]
  refine ⟨?_, bare_setLinks, fun l j hor => neighborsAt_setLinks_of_ne hor⟩
  split
  · -- the list is sorted with its distances, and the first ones stay
    have hperm := k.ranking.sort_perm
      ((neighborsAt nodes layer id ++ [k.internalId]).map fun nid => (k.between id nid, nid))
    have hids := hperm.map Prod.snd
    rw [List.map_map, show (Prod.snd ∘ fun nid => (k.between id nid, nid)) = fun nid => nid from rfl,
      List.map_id'] at hids
    have hmem : ∀ j ∈ selectNeighbors (k.ranking.sort _) (k.maxNeighbors layer),
        j ≠ id ∧ HasLayer nodes layer j := fun j hj =>
      hends j (hids.mem_iff.mp (mem_selectNeighbors hj))
    exact h.setLinks ⟨node, hnode, hlevel⟩
      (nodup_selectNeighbors _ (hids.nodup_iff.mpr hlinks)) (length_selectNeighbors _ _)
      (fun hin => (hmem id hin).1 rfl) fun j hj => (hmem j hj).2
  · rename_i hroom
    exact h.setLinks ⟨node, hnode, hlevel⟩ hlinks (Nat.le_of_not_lt hroom)
      (fun hin => (hends id hin).1 rfl) fun j hj => (hends j hj).2

/-- The reverse links of a layer; the other layers are as they were. -/
theorem foldl_linkBack_spec {selected : List Nat} (h : Linked k.maxNeighbors nodes)
    (hk : HasLayer nodes layer k.internalId) (hnodup : selected.Nodup)
    (hin : ∀ id ∈ selected, InLayer nodes layer k.internalId id)
    (hnew : ∀ id ∈ selected, k.internalId ∉ neighborsAt nodes layer id) :
    Linked k.maxNeighbors (selected.foldl (k.linkBack layer) nodes) ∧
      (selected.foldl (k.linkBack layer) nodes).map HnswNode.bare = nodes.map HnswNode.bare ∧
      ∀ l j, l ≠ layer →
        neighborsAt (selected.foldl (k.linkBack layer) nodes) l j = neighborsAt nodes l j := by
  induction selected generalizing nodes with
  | nil => exact ⟨h, rfl, fun _ _ _ => rfl⟩
  | cons id selected ih =>
    obtain ⟨hnotin, hnodup⟩ := List.nodup_cons.mp hnodup
    obtain ⟨hlinked, hbare, hsame⟩ := linkBack_spec h hk (hin id List.mem_cons_self)
      (hnew id List.mem_cons_self)
    obtain ⟨hlinked', hbare', hsame'⟩ := ih hlinked (hk.congr hbare) hnodup
      (fun j hj => ⟨(hin j (List.mem_cons_of_mem id hj)).1,
        (hin j (List.mem_cons_of_mem id hj)).2.congr hbare⟩)
      (fun j hj => by
        rw [hsame layer j (.inl fun e => hnotin (e ▸ hj))]
        exact hnew j (List.mem_cons_of_mem id hj))
    refine ⟨hlinked', hbare'.trans hbare, fun l j hl => ?_⟩
    rw [List.foldl_cons, hsame' l j hl, hsame l j (.inr hl)]

/-- **The forward links** of a layer: to nodes of the layer, the nearest of those that are found. -/
theorem forward_spec (h : Linked k.maxNeighbors nodes) (hk : HasLayer nodes layer k.internalId)
    (hnew : ∀ j, k.internalId ∉ neighborsAt nodes layer j)
    (hcur : InLayer nodes layer k.internalId cur) :
    ∃ best rest, searchLayer k.ranking k.score nodes cur layer k.efConstruction =
        some (best :: rest) ∧ InLayer nodes layer k.internalId best.2 ∧
      (selectNeighbors (best :: rest) (k.maxNeighbors layer)).Nodup ∧
      (∀ id ∈ selectNeighbors (best :: rest) (k.maxNeighbors layer),
        InLayer nodes layer k.internalId id) ∧
      Linked k.maxNeighbors (setLinks nodes layer k.internalId
        (selectNeighbors (best :: rest) (k.maxNeighbors layer))) := by
  obtain ⟨candidates, hsearch, hne, hnodup, hall⟩ := searchLayer_spec k.ranking
    k.score h hnew hcur k.efConstruction
  obtain ⟨best, rest, rfl⟩ := List.exists_cons_of_ne_nil hne
  have hsel : ∀ id ∈ selectNeighbors (best :: rest) (k.maxNeighbors layer),
      InLayer nodes layer k.internalId id := by
    intro id hid
    obtain ⟨x, hx, rfl⟩ := List.mem_map.mp (mem_selectNeighbors hid)
    exact (hall x hx).1
  have hselNodup := nodup_selectNeighbors (k.maxNeighbors layer) hnodup
  refine ⟨best, rest, hsearch, (hall best List.mem_cons_self).1, hselNodup, hsel, ?_⟩
  exact h.setLinks hk hselNodup (length_selectNeighbors _ _)
    (fun hin => (hsel _ hin).1 rfl) fun j hj => (hsel j hj).2

/-- **One layer**: the lists keep their rules, no lower layer is touched, and the next one begins
    at a node that is in this one. -/
theorem connectLayer_spec (h : Linked k.maxNeighbors nodes)
    (hk : HasLayer nodes layer k.internalId)
    (hnew : ∀ l ≤ layer, ∀ j, k.internalId ∉ neighborsAt nodes l j)
    (hcur : InLayer nodes layer k.internalId cur) :
    ∃ nodes' cur', k.connectLayer layer nodes cur = some (nodes', cur') ∧
      Linked k.maxNeighbors nodes' ∧ nodes'.map HnswNode.bare = nodes.map HnswNode.bare ∧
      (∀ l j, l ≠ layer → neighborsAt nodes' l j = neighborsAt nodes l j) ∧
      InLayer nodes' layer k.internalId cur' := by
  obtain ⟨best, rest, hsearch, hbest, hnodup, hsel, hforward⟩ :=
    forward_spec h hk (hnew layer (Nat.le_refl layer)) hcur
  obtain ⟨hlinked, hbare, hsame⟩ := foldl_linkBack_spec hforward (hk.congr bare_setLinks) hnodup
    (fun id hid => ⟨(hsel id hid).1, (hsel id hid).2.congr bare_setLinks⟩)
    (fun id hid => by
      rw [neighborsAt_setLinks_of_ne (.inl (hsel id hid).1)]
      exact hnew layer (Nat.le_refl layer) id)
  refine ⟨_, _, by rw [connectLayer, hsearch], hlinked, hbare.trans bare_setLinks, ?_, ?_⟩
  · intro l j hl
    rw [hsame l j hl, neighborsAt_setLinks_of_ne (.inr hl)]
  · exact ⟨hbest.1, hbest.2.congr (hbare.trans bare_setLinks)⟩

/-- **The layers from the top down**, by induction on their number: the new node is in them all,
    and not listed in any that is still to come. -/
theorem connectDown_spec {l : Nat} (h : Linked k.maxNeighbors nodes)
    (hk : ∀ l' < l, HasLayer nodes l' k.internalId)
    (hnew : ∀ l' < l, ∀ j, k.internalId ∉ neighborsAt nodes l' j)
    (hcur : ∀ l' < l, InLayer nodes l' k.internalId cur) :
    ∃ nodes', k.connectDown l nodes cur = some nodes' ∧ Linked k.maxNeighbors nodes' ∧
      nodes'.map HnswNode.bare = nodes.map HnswNode.bare := by
  induction l generalizing nodes cur with
  | zero => exact ⟨nodes, rfl, h, rfl⟩
  | succ l ih =>
    obtain ⟨nodes', cur', hconnect, hlinked, hbare, hsame, hcur'⟩ := connectLayer_spec h
      (hk l (Nat.lt_succ_self l)) (fun l' hl' => hnew l' (Nat.lt_succ_of_le hl'))
      (hcur l (Nat.lt_succ_self l))
    have hbelow : ∀ l' < l, ∀ j, k.internalId ∉ neighborsAt nodes' l' j := by
      intro l' hl' j
      rw [hsame l' j (by omega)]
      exact hnew l' (by omega) j
    obtain ⟨nodes'', hdown, hlinked', hbare'⟩ := ih hlinked
      (fun l' hl' => (hk l' (by omega)).congr hbare) hbelow
      (fun l' hl' => ⟨hcur'.1, hcur'.2.mono (Nat.le_of_lt hl')⟩)
    refine ⟨nodes'', ?_, hlinked', hbare'.trans hbare⟩
    simp only [connectDown, hconnect]
    exact hdown

end Linking

end Nvecd.Vectors
