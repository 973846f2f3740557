/-
  File:      Nvecd/Vectors/HnswInvariant.lean
  Subject:   What `vectors/hnsw_index.cpp` keeps over every sequence of operations.

  The invariant has two halves: the lists of neighbours (`Linked`, HnswGraph.lean) with the entry
  point, and the directory from compact indices to nodes and vectors. Linking changes the first
  only, storing and retiring a node the second; a compaction and a rebuild add to an empty index.

  * `Directory`, `Directory.retire`, `Directory.store` -- the second half;
  * `HnswIndex.Inv`, `Inv.addLocked`, `Inv.addAll` -- both, and one more vector;
  * `Holds.step`, `hnsw_structure` -- every run whose numbers stay below `UINT32_MAX`.
-/
import Nvecd.Lib.Machine
import Nvecd.Vectors.HnswIndex

namespace Nvecd.Vectors

open Nvecd.Lib

variable {F : Type} {fl : HnswMetric F} {g : HnswIndex F}

/-! ## 1. The directory -/

/-- **What the directory keeps**: `live` is the vector of each compact index that is live. -/
structure HnswIndex.Directory (g : HnswIndex F) (live : Nat → Option (List F)) : Prop where
  active : g.activeCount = g.nodes.countP fun node => !node.deleted
  rows : g.vectors.length = g.nodes.length * g.dimension
  /-- A compact index leads to no node, or to one that was added for it. -/
  pointers : ∀ c id, g.compactToInternal[c]? = some id →
    id = uint32Max ∨ ∃ node : HnswNode, g.nodes[id]? = some node ∧ node.compactIndex = c
  /-- A live node is the one its compact index leads to. -/
  reached : ∀ id (node : HnswNode), g.nodes[id]? = some node → node.deleted = false →
    g.compactToInternal[node.compactIndex]? = some id
  holds : ∀ c, g.liveVector c = live c
  fewNodes : g.nodes.length ≤ uint32Max
  fewIndices : g.compactToInternal.length ≤ uint32Max

namespace HnswIndex

variable {live : Nat → Option (List F)} {c id level : Nat}

theorem liveVector_eq_some {v : List F} :
    g.liveVector c = some v ↔ ∃ id, ∃ node : HnswNode, g.compactToInternal[c]? = some id ∧
      g.nodes[id]? = some node ∧ node.deleted = false ∧ g.getNodeVector id = v := by
  unfold liveVector
  constructor
  · intro h
    obtain ⟨id, hid, h⟩ := Option.bind_eq_some_iff.mp h
    obtain ⟨node, hnode, h⟩ := Option.bind_eq_some_iff.mp h
    split at h
    · cases h
    · rename_i hlive
      exact ⟨id, node, hid, hnode, Bool.eq_false_iff.mpr hlive, Option.some.inj h⟩
  · rintro ⟨id, node, hid, hnode, hlive, rfl⟩
    rw [hid, Option.bind_some, hnode, Option.bind_some, hlive]
    rfl

/-- No compact index leads to a node through a place that is empty. -/
theorem Directory.no_node (h : g.Directory live) : g.nodes[uint32Max]? = none :=
  List.getElem?_eq_none h.fewNodes

theorem Directory.length_vector (h : g.Directory live) {v : List F} (hv : live c = some v) :
    v.length = g.dimension := by
  rw [← h.holds c] at hv
  obtain ⟨id, node, _, hnode, _, rfl⟩ := liveVector_eq_some.1 hv
  have hlt : id < g.nodes.length := (List.getElem?_eq_some_iff.mp hnode).1
  refine length_rowAt ?_
  rw [h.rows]
  exact Nat.mul_le_mul_right g.dimension hlt

/-- A compact index beyond the map is not live. -/
theorem Directory.lt_of_live (h : g.Directory live) {v : List F} (hv : live c = some v) :
    c < g.compactToInternal.length := by
  rw [← h.holds c] at hv
  obtain ⟨id, _, hid, _⟩ := liveVector_eq_some.1 hv
  exact (List.getElem?_eq_some_iff.mp hid).1

theorem Directory.cleared (g : HnswIndex F) : g.cleared.Directory fun _ => none where
  active := rfl
  rows := by simp [HnswIndex.cleared]
  pointers := by simp [HnswIndex.cleared]
  reached := by simp [HnswIndex.cleared]
  holds _ := rfl
  fewNodes := Nat.zero_le _
  fewIndices := Nat.zero_le _

/-- **The map grows** by places that lead nowhere. -/
theorem Directory.growMap (h : g.Directory live) (hc : c < uint32Max) :
    { g with compactToInternal := g.growMap c }.Directory live ∧
      c < (g.growMap c).length := by
  unfold HnswIndex.growMap
  split
  · rename_i hlen
    have hsize : (c + 1) % 2 ^ 32 = c + 1 := Nat.mod_eq_of_lt (by unfold uint32Max at hc; omega)
    have hmap : resizeTo g.compactToInternal ((c + 1) % 2 ^ 32) uint32Max =
        g.compactToInternal ++
          List.replicate (c + 1 - g.compactToInternal.length) uint32Max := by
      rw [resizeTo, hsize, List.take_of_length_le (by omega)]
    have hlength : (resizeTo g.compactToInternal ((c + 1) % 2 ^ 32) uint32Max).length = c + 1 := by
      rw [hmap, List.length_append, List.length_replicate]
      omega
    have hold : ∀ c' id : Nat, g.compactToInternal[c']? = some id →
        (resizeTo g.compactToInternal ((c + 1) % 2 ^ 32) uint32Max)[c']? = some id := by
      intro c' id hid
      rw [hmap, List.getElem?_append_left (List.getElem?_eq_some_iff.mp hid).1]
      exact hid
    have hcases : ∀ c' id : Nat,
        (resizeTo g.compactToInternal ((c + 1) % 2 ^ 32) uint32Max)[c']? = some id →
          g.compactToInternal[c']? = some id ∨ id = uint32Max := by
      intro c' id hid
      rw [hmap] at hid
      rcases getElem?_append_cases hid with hin | ⟨_, hnew⟩
      · exact .inl hin
      · exact .inr (List.eq_of_mem_replicate (List.mem_of_getElem? hnew))
    refine ⟨?_, by rw [hlength]; exact Nat.lt_succ_self c⟩
    exact { h with
      pointers := fun c' id hid => (hcases c' id hid).elim (h.pointers c' id) .inl
      reached := fun id node hnode hlive => hold _ _ (h.reached id node hnode hlive)
      holds := fun c' => by
        rw [← h.holds c']
        apply Option.ext
        intro v
        rw [liveVector_eq_some, liveVector_eq_some]
        constructor
        · rintro ⟨id, node, hid, hnode, hlive, hv⟩
          rcases hcases c' id hid with hin | rfl
          · exact ⟨id, node, hin, hnode, hlive, hv⟩
          · exact nomatch (h.no_node ▸ hnode : none = some node)
        · rintro ⟨id, node, hid, hrest⟩
          exact ⟨id, node, hold c' id hid, hrest⟩
      fewIndices := by
        show (resizeTo g.compactToInternal ((c + 1) % 2 ^ 32) uint32Max).length ≤ uint32Max
        rw [hlength]
        exact hc }
  · rename_i hlen
    exact ⟨h, Nat.lt_of_not_le hlen⟩

/-- How many nodes are live when one of them is retired. -/
theorem countP_retire {nodes : List HnswNode} {node : HnswNode} (h : nodes[id]? = some node)
    (hlive : node.deleted = false) :
    (nodes.modify id fun node => { node with deleted := true }).countP
      (fun node => !node.deleted) + 1 = nodes.countP fun node => !node.deleted := by
  induction nodes generalizing id with
  | nil => cases h
  | cons m nodes ih =>
    cases id with
    | zero =>
      obtain rfl := Option.some.inj h
      rw [List.modify_zero_cons, List.countP_cons, List.countP_cons]
      simp [hlive]
    | succ id =>
      rw [List.modify_succ_cons, List.countP_cons, List.countP_cons, Nat.add_right_comm, ih h]

/-- **The node of a compact index is retired**: the index is not live any more. -/
theorem Directory.retire (h : g.Directory live) (hid : g.compactToInternal[c]? = some id) :
    (g.retire id).Directory (Function.update live c none) := by
  have hgone : g.liveVector c = none → g.Directory (Function.update live c none) := by
    intro hnone
    refine { h with holds := fun c' => ?_ }
    by_cases he : c' = c
    · subst he
      rw [Function.update_self, hnone]
    · rw [Function.update_of_ne he]
      exact h.holds c'
  unfold HnswIndex.retire
  split
  · rename_i node hnode
    split
    · rename_i hcond
      obtain ⟨hreal, hlive⟩ := hcond
      have hindex : node.compactIndex = c := by
        obtain ⟨node', hnode', hc⟩ := (h.pointers c id hid).resolve_left hreal
        rw [hnode] at hnode'
        exact (Option.some.inj hnode') ▸ hc
      have hother : ∀ j ≠ id, (g.nodes.modify id fun node => { node with deleted := true })[j]? =
          g.nodes[j]? := fun j hj => by
        rw [List.getElem?_modify]
        simp [Ne.symm hj]
      have hself : (g.nodes.modify id fun node => { node with deleted := true })[id]? =
          some { node with deleted := true } := by
        rw [List.getElem?_modify_eq, hnode]
        rfl
      constructor
      case active =>
        show g.activeCount - 1 = _
        rw [h.active, ← countP_retire hnode hlive, Nat.add_sub_cancel]
      case rows =>
        show g.vectors.length = _
        rw [h.rows, List.length_modify]
      case pointers =>
        intro c' id' hid'
        refine (h.pointers c' id' hid').imp_right fun ⟨m, hm, hc'⟩ => ?_
        by_cases he : id' = id
        · subst he
          rw [hnode] at hm
          exact ⟨_, hself, (Option.some.inj hm) ▸ hc'⟩
        · exact ⟨m, by rw [hother id' he]; exact hm, hc'⟩
      case reached =>
        intro id' m hm hm'
        by_cases he : id' = id
        · subst he
          rw [hself] at hm
          obtain rfl := Option.some.inj hm
          cases hm'
        · rw [hother id' he] at hm
          exact h.reached id' m hm hm'
      case holds =>
        intro c'
        apply Option.ext
        intro v
        rw [liveVector_eq_some]
        by_cases hc' : c' = c
        · -- it leads to the node that is deleted now
          subst hc'
          rw [Function.update_self]
          refine ⟨?_, fun hv => nomatch hv⟩
          rintro ⟨id', m, hid', hm, hm', -⟩
          rw [hid] at hid'
          obtain rfl := Option.some.inj hid'
          rw [hself] at hm
          obtain rfl := Option.some.inj hm
          cases hm'
        · rw [Function.update_of_ne hc', ← h.holds c', liveVector_eq_some]
          -- another compact index leads to another node
          have hne : ∀ id' m, g.compactToInternal[c']? = some id' → g.nodes[id']? = some m →
              id' ≠ id := by
            rintro id' m hid' hm rfl
            obtain rfl | ⟨m', hm', hmc⟩ := h.pointers c' id' hid'
            · exact hreal rfl
            · rw [hnode] at hm'
              obtain rfl := Option.some.inj hm'
              exact hc' (hmc.symm.trans hindex)
          constructor
          · rintro ⟨id', m, hid', hm, hm', hv⟩
            obtain ⟨m₀, hm₀⟩ : ∃ m₀, g.nodes[id']? = some m₀ := by
              refine ⟨_, List.getElem?_eq_getElem ?_⟩
              have := (List.getElem?_eq_some_iff.mp hm).1
              rwa [List.length_modify] at this
            rw [hother id' (hne id' m₀ hid' hm₀)] at hm
            exact ⟨id', m, hid', hm, hm', hv⟩
          · rintro ⟨id', m, hid', hm, hm', hv⟩
            refine ⟨id', m, hid', ?_, hm', hv⟩
            rw [hother id' (hne id' m hid' hm)]
            exact hm
      case fewNodes =>
        show (g.nodes.modify id _).length ≤ uint32Max
        rw [List.length_modify]
        exact h.fewNodes
      case fewIndices => exact h.fewIndices
    · rename_i hcond
      refine hgone ?_
      rw [liveVector, hid, Option.bind_some, hnode, Option.bind_some]
      by_cases hmax : id = uint32Max
      · exact nomatch (h.no_node ▸ hmax ▸ hnode : none = some node)
      · rw [if_pos]
        by_contra hlive
        exact hcond ⟨hmax, Bool.eq_false_iff.mpr hlive⟩
  · rename_i hnode
    refine hgone ?_
    rw [liveVector, hid, Option.bind_some, hnode, Option.bind_none]

/-- **A vector is stored** for a compact index that is not live. -/
theorem Directory.store (h : g.Directory live) (hdead : live c = none)
    (hc : c < g.compactToInternal.length) (hfew : g.nodes.length < uint32Max) {v : List F}
    (hv : v.length = g.dimension) (norm : F) :
    (g.store c g.nodes.length v norm level).Directory (Function.update live c (some v)) := by
  have hold : ∀ {j : Nat} {m : HnswNode}, g.nodes[j]? = some m →
      (g.store c g.nodes.length v norm level).nodes[j]? = some m := by
    intro j m hm
    show (g.nodes ++ [_])[j]? = some m
    rw [List.getElem?_append_left (List.getElem?_eq_some_iff.mp hm).1]
    exact hm
  have hnew : (g.store c g.nodes.length v norm level).nodes[g.nodes.length]? =
      some { compactIndex := c, level := level, neighbors := List.replicate (level + 1) [] } := by
    show (g.nodes ++ [_])[g.nodes.length]? = _
    rw [List.getElem?_append_right (Nat.le_refl _), Nat.sub_self]
    rfl
  have hcases : ∀ {j : Nat} {m : HnswNode},
      (g.store c g.nodes.length v norm level).nodes[j]? = some m →
        g.nodes[j]? = some m ∨ j = g.nodes.length ∧
          m = { compactIndex := c, level := level, neighbors := List.replicate (level + 1) [] } := by
    intro j m hm
    rcases getElem?_append_cases hm with hin | ⟨hge, hlast⟩
    · exact .inl hin
    · have hj : j - g.nodes.length = 0 := by
        have := (List.getElem?_eq_some_iff.mp hlast).1
        rw [List.length_singleton] at this
        omega
      rw [hj] at hlast
      exact .inr ⟨by omega, (Option.some.inj hlast).symm⟩
  have hmap : (g.store c g.nodes.length v norm level).compactToInternal[c]? =
      some g.nodes.length := List.getElem?_set_self hc
  have hmap' : ∀ c' ≠ c, (g.store c g.nodes.length v norm level).compactToInternal[c']? =
      g.compactToInternal[c']? := fun c' hne => List.getElem?_set_ne hne.symm
  have hvector : ∀ {j : Nat} {m : HnswNode}, g.nodes[j]? = some m →
      (g.store c g.nodes.length v norm level).getNodeVector j = g.getNodeVector j := by
    intro j m hm
    refine rowAt_append_left ?_
    rw [h.rows]
    exact Nat.mul_le_mul_right g.dimension (List.getElem?_eq_some_iff.mp hm).1
  constructor
  case active =>
    show g.activeCount + 1 = (g.nodes ++ [_]).countP _
    rw [List.countP_append, h.active]
    rfl
  case rows =>
    show (g.vectors ++ v).length = (g.nodes ++ [_]).length * g.dimension
    rw [List.length_append, List.length_append, h.rows, hv, List.length_singleton, Nat.add_mul,
      Nat.one_mul]
  case pointers =>
    intro c' id' hid'
    by_cases he : c' = c
    · subst he
      rw [hmap] at hid'
      obtain rfl := Option.some.inj hid'
      exact .inr ⟨_, hnew, rfl⟩
    · rw [hmap' c' he] at hid'
      exact (h.pointers c' id' hid').imp_right fun ⟨m, hm, hmc⟩ => ⟨m, hold hm, hmc⟩
  case reached =>
    intro j m hm hlive
    rcases hcases hm with hin | ⟨rfl, rfl⟩
    · have hthere := h.reached j m hin hlive
      by_cases he : m.compactIndex = c
      · rw [he] at hthere
        have hv' := h.holds c
        rw [hdead, liveVector_eq_some.2 ⟨j, m, hthere, hin, hlive, rfl⟩] at hv'
        cases hv'
      · rw [hmap' _ he]
        exact hthere
    · exact hmap
  case holds =>
    intro c'
    by_cases he : c' = c
    · subst he
      rw [Function.update_self, liveVector_eq_some]
      exact ⟨_, _, hmap, hnew, rfl, rowAt_append_self h.rows hv⟩
    · rw [Function.update_of_ne he, ← h.holds c']
      apply Option.ext
      intro w
      rw [liveVector_eq_some, liveVector_eq_some, hmap' c' he]
      constructor
      · rintro ⟨j, m, hj, hm, hlive, hw⟩
        rcases hcases hm with hin | ⟨rfl, rfl⟩
        · exact ⟨j, m, hj, hin, hlive, (hvector hin) ▸ hw⟩
        · -- no other compact index leads to the place the node comes to
          rcases h.pointers c' _ hj with hmax | ⟨m, hm, _⟩
          · omega
          · exact absurd (List.getElem?_eq_some_iff.mp hm).1 (Nat.lt_irrefl _)
      · rintro ⟨j, m, hj, hm, hlive, hw⟩
        exact ⟨j, m, hj, hold hm, hlive, (hvector hm).trans hw⟩
  case fewNodes =>
    show (g.nodes ++ [_]).length ≤ uint32Max
    rw [List.length_append, List.length_singleton]
    exact hfew
  case fewIndices =>
    show (g.compactToInternal.set c g.nodes.length).length ≤ uint32Max
    rw [List.length_set]
    exact h.fewIndices

/-- The directory does not depend on the links. -/
theorem Directory.relink (h : g.Directory live) {nodes : List HnswNode}
    (hbare : nodes.map HnswNode.bare = g.nodes.map HnswNode.bare) :
    { g with nodes := nodes }.Directory live := by
  have hlen := length_of_bare hbare
  have hdeleted : nodes.map HnswNode.deleted = g.nodes.map HnswNode.deleted := by
    have := congrArg (List.map HnswNode.deleted) hbare
    rwa [List.map_map, List.map_map] at this
  constructor
  case active =>
    show g.activeCount = nodes.countP (fun node => !node.deleted)
    have hcount : ∀ l : List HnswNode, l.countP (fun node => !node.deleted) =
        (l.map HnswNode.deleted).countP (fun d => !d) := fun l => by
      rw [List.countP_map]
      rfl
    rw [h.active, hcount, hcount, hdeleted]
  case rows =>
    show g.vectors.length = nodes.length * g.dimension
    rw [hlen]
    exact h.rows
  case pointers =>
    intro c' id' hid'
    refine (h.pointers c' id' hid').imp_right fun ⟨m, hm, hc⟩ => ?_
    obtain ⟨m', hm', he⟩ := getElem?_of_bare hbare.symm hm
    exact ⟨m', hm', (HnswNode.compactIndex_of_bare he).trans hc⟩
  case reached =>
    intro id' m hm hlive
    obtain ⟨m', hm', he⟩ := getElem?_of_bare hbare hm
    have hthere := h.reached id' m' hm' ((HnswNode.deleted_of_bare he).trans hlive)
    rwa [HnswNode.compactIndex_of_bare he] at hthere
  case holds =>
    intro c'
    rw [← h.holds c']
    apply Option.ext
    intro v
    rw [liveVector_eq_some, liveVector_eq_some]
    constructor
    · rintro ⟨id', m, hid', hm, hlive, hv⟩
      obtain ⟨m', hm', he⟩ := getElem?_of_bare hbare hm
      exact ⟨id', m', hid', hm', (HnswNode.deleted_of_bare he).trans hlive, hv⟩
    · rintro ⟨id', m, hid', hm, hlive, hv⟩
      obtain ⟨m', hm', he⟩ := getElem?_of_bare hbare.symm hm
      exact ⟨id', m', hid', hm', (HnswNode.deleted_of_bare he).trans hlive, hv⟩
  case fewNodes =>
    show nodes.length ≤ uint32Max
    rw [hlen]
    exact h.fewNodes
  case fewIndices => exact h.fewIndices

/-! ## 2. One more vector -/

/-- **The invariant of an index.** -/
structure Inv (g : HnswIndex F) (live : Nat → Option (List F)) : Prop where
  directory : g.Directory live
  linked : Linked g.config.maxNeighbors g.nodes
  noEntry : g.nodes = [] → g.entryPoint = uint32Max
  entry : g.nodes ≠ [] → ∃ node, g.nodes[g.entryPoint]? = some node ∧ node.level = g.maxLevel
  highest : ∀ node ∈ g.nodes, node.level ≤ g.maxLevel

theorem Inv.cleared (g : HnswIndex F) : g.cleared.Inv fun _ => none where
  directory := .cleared g
  linked := linked_nil
  noEntry _ := rfl
  entry h := absurd rfl h
  highest := by simp [HnswIndex.cleared]

/-- The entry point of an index with nodes is not the mark of an empty one. -/
theorem Inv.entry_ne (h : g.Inv live) (hne : g.nodes ≠ []) : g.entryPoint ≠ uint32Max := by
  obtain ⟨node, hnode, _⟩ := h.entry hne
  intro he
  rw [he, h.directory.no_node] at hnode
  cases hnode

theorem nodes_retire (g : HnswIndex F) (id : Nat) : g.retire id = g ∨
    g.retire id = { g with
      nodes := g.nodes.modify id fun node => { node with deleted := true }
      activeCount := g.activeCount - 1 } := by
  unfold HnswIndex.retire
  split
  · split
    · exact .inr rfl
    · exact .inl rfl
  · exact .inl rfl

/-- **A node is retired** for good. -/
theorem Inv.retire (h : g.Inv live) (hid : g.compactToInternal[c]? = some id) :
    (g.retire id).Inv (Function.update live c none) := by
  have hdirectory := h.directory.retire hid
  rcases nodes_retire g id with he | he
  · rw [he] at hdirectory ⊢
    exact { h with directory := hdirectory }
  · rw [he] at hdirectory ⊢
    have hnil : g.nodes.modify id (fun node => { node with deleted := true }) = [] →
        g.nodes = [] := by
      intro hnil
      rw [← List.length_eq_zero_iff, List.length_modify] at hnil
      exact List.length_eq_zero_iff.mp hnil
    refine ⟨hdirectory, h.linked.retire id, fun hn => h.noEntry (hnil hn), fun hn => ?_, ?_⟩
    · obtain ⟨node, hnode, hlevel⟩ := h.entry fun hnil' => hn (by
        show g.nodes.modify id _ = []
        rw [hnil', List.modify_nil])
      show ∃ node, (g.nodes.modify id _)[g.entryPoint]? = some node ∧ node.level = g.maxLevel
      rw [List.getElem?_modify, hnode]
      refine ⟨_, rfl, ?_⟩
      split
      · exact hlevel
      · exact hlevel
    · intro node hnode
      obtain ⟨j, hj⟩ := List.mem_iff_getElem?.mp hnode
      obtain ⟨m, hm, rfl⟩ := Option.map_eq_some_iff.mp (List.getElem?_modify .. ▸ hj)
      have hle := h.highest m (List.mem_of_getElem? hm)
      split
      · exact hle
      · exact hle

/-- **A node that is stored is linked in.** -/
theorem link_spec (fl : HnswMetric F) {k : Nat} (hdir : g.Directory live)
    (hlinked : Linked g.config.maxNeighbors g.nodes)
    (hnew : ∀ l j, k ∉ neighborsAt g.nodes l j) {node : HnswNode} (hk : g.nodes[k]? = some node)
    (hhighest : ∀ j m, g.nodes[j]? = some m → j ≠ k → m.level ≤ g.maxLevel)
    (hentry : g.entryPoint = uint32Max ∧ (∀ j m, g.nodes[j]? = some m → j = k) ∨
      g.entryPoint ≠ uint32Max ∧ g.entryPoint ≠ k ∧
        ∃ m, g.nodes[g.entryPoint]? = some m ∧ m.level = g.maxLevel)
    (vector : List F) (norm : F) :
    ∃ g', g.link fl vector norm k node.level = some g' ∧ g'.Inv live ∧
      g'.dimension = g.dimension ∧ g'.config = g.config ∧ g'.nodes.length = g.nodes.length := by
  have hne : g.nodes ≠ [] := List.ne_nil_of_mem (List.mem_of_getElem? hk)
  unfold HnswIndex.link
  rcases hentry with ⟨he, honly⟩ | ⟨he, hek, m, hm, hlevel⟩
  · rw [if_pos he]
    refine ⟨_, rfl, ⟨⟨hdir.1, hdir.2, hdir.3, hdir.4, hdir.5, hdir.6, hdir.7⟩, hlinked,
      fun hn => absurd hn hne, fun _ => ⟨node, hk, rfl⟩, ?_⟩, rfl, rfl, rfl⟩
    intro m hm
    obtain ⟨j, hj⟩ := List.mem_iff_getElem?.mp hm
    obtain rfl := honly j m hj
    rw [hk] at hj
    exact Nat.le_of_eq (congrArg HnswNode.level (Option.some.inj hj).symm)
  · rw [if_neg he]
    obtain ⟨cur, hcur, hin⟩ := descend_spec fl.ranking (g.computeDistance fl vector norm)
      hlinked hnew node.level
      (show InLayer g.nodes g.maxLevel k g.entryPoint from ⟨hek, m, hm, Nat.le_of_eq hlevel.symm⟩)
    have hbelow : ∀ {l' : Nat}, l' < min node.level g.maxLevel + 1 →
        l' ≤ min node.level g.maxLevel := fun h => Nat.le_of_lt_succ h
    obtain ⟨nodes, hconnect, hlinked', hbare⟩ :=
      Linking.connectDown_spec (k := g.linking fl vector norm k)
        (l := min node.level g.maxLevel + 1) hlinked
        (fun l' hl' => ⟨node, hk, Nat.le_trans (hbelow hl') (Nat.min_le_left _ _)⟩)
        (fun l' _ => hnew l') (fun l' hl' => ⟨hin.1, hin.2.mono (hbelow hl')⟩)
    have hdir' := hdir.relink hbare
    have hlength := length_of_bare hbare
    have hne' : nodes ≠ [] := by
      intro hnil
      rw [hnil] at hlength
      exact hne (List.length_eq_zero_iff.mp hlength.symm)
    obtain ⟨node', hk', hek'⟩ := getElem?_of_bare hbare.symm hk
    obtain ⟨m', hm', hem'⟩ := getElem?_of_bare hbare.symm hm
    have hlevel' : ∀ j n, nodes[j]? = some n → j ≠ k → n.level ≤ g.maxLevel := by
      intro j n hn hj
      obtain ⟨n₀, hn₀, hen⟩ := getElem?_of_bare hbare hn
      exact Nat.le_trans (Nat.le_of_eq (HnswNode.level_of_bare hen).symm) (hhighest j n₀ hn₀ hj)
    have hnode : node'.level = node.level := HnswNode.level_of_bare hek'
    rw [hcur]
    simp only [hconnect]
    split
    · rename_i hhigher
      refine ⟨_, rfl, ⟨⟨hdir'.1, hdir'.2, hdir'.3, hdir'.4, hdir'.5, hdir'.6, hdir'.7⟩, hlinked',
        fun hn => absurd hn hne', fun _ => ⟨node', hk', hnode⟩, ?_⟩, rfl, rfl, hlength⟩
      intro n hn
      obtain ⟨j, hj⟩ := List.mem_iff_getElem?.mp hn
      by_cases hjk : j = k
      · subst hjk
        rw [hk'] at hj
        obtain rfl := Option.some.inj hj
        exact Nat.le_of_eq hnode
      · exact Nat.le_trans (hlevel' j n hj hjk) (Nat.le_of_lt hhigher)
    · rename_i hnot
      refine ⟨_, rfl, ⟨hdir', hlinked', fun hn => absurd hn hne',
        fun _ => ⟨m', hm', (HnswNode.level_of_bare hem').trans hlevel⟩, ?_⟩, rfl, rfl, hlength⟩
      intro n hn
      obtain ⟨j, hj⟩ := List.mem_iff_getElem?.mp hn
      by_cases hjk : j = k
      · subst hjk
        rw [hk'] at hj
        obtain rfl := Option.some.inj hj
        exact Nat.le_trans (Nat.le_of_eq hnode) (Nat.le_of_not_lt hnot)
      · exact hlevel' j n hj hjk

theorem length_readFloats (p : Nat → F) (n : Nat) : (readFloats p n).length = n := by
  rw [readFloats, List.length_map, List.length_range]

/-- What retiring a node leaves as it is. -/
theorem retire_frame (g : HnswIndex F) (id : Nat) :
    (g.retire id).nodes.length = g.nodes.length ∧ (g.retire id).dimension = g.dimension ∧
      (g.retire id).config = g.config ∧
      (g.retire id).compactToInternal = g.compactToInternal := by
  rcases nodes_retire g id with he | he
  · rw [he]
    exact ⟨rfl, rfl, rfl, rfl⟩
  · rw [he]
    exact ⟨List.length_modify _ _ _, rfl, rfl, rfl⟩

/-- The node that is stored is the last. -/
theorem getElem?_store_self (g : HnswIndex F) (c level : Nat) (v : List F) (norm : F) :
    (g.store c g.nodes.length v norm level).nodes[g.nodes.length]? =
      some { compactIndex := c, level := level, neighbors := List.replicate (level + 1) [] } := by
  show (g.nodes ++ [_])[g.nodes.length]? = _
  rw [List.getElem?_append_right (Nat.le_refl _), Nat.sub_self]
  rfl

theorem getElem?_store_cases {v : List F} {norm : F} {j : Nat} {m : HnswNode}
    (hm : (g.store c g.nodes.length v norm level).nodes[j]? = some m) :
    g.nodes[j]? = some m ∨ j = g.nodes.length := by
  refine (getElem?_append_cases hm).imp_right fun ⟨hge, hone⟩ => ?_
  have := (List.getElem?_eq_some_iff.mp hone).1
  rw [List.length_singleton] at this
  omega

theorem neighborsAt_store (g : HnswIndex F) (c id level : Nat) (v : List F) (norm : F)
    (l j : Nat) :
    neighborsAt (g.store c id v norm level).nodes l j = neighborsAt g.nodes l j :=
  neighborsAt_snoc (fun _ hl => List.eq_of_mem_replicate hl) l j

/-- No one lists the node that comes next. -/
theorem Inv.not_listed (h : g.Inv live) (l j : Nat) :
    g.nodes.length ∉ neighborsAt g.nodes l j := by
  intro hin
  obtain ⟨m, hm, -⟩ := h.linked.ends l j _ hin
  exact Nat.lt_irrefl _ (List.getElem?_eq_some_iff.mp hm).1

/-- The node that is stored is the only one, or there is an entry point before it. -/
theorem Inv.entry_store (h : g.Inv live) (c level : Nat) (v : List F) (norm : F) :
    g.entryPoint = uint32Max ∧
        (∀ j m, (g.store c g.nodes.length v norm level).nodes[j]? = some m →
          j = g.nodes.length) ∨
      g.entryPoint ≠ uint32Max ∧ g.entryPoint ≠ g.nodes.length ∧
        ∃ m, (g.store c g.nodes.length v norm level).nodes[g.entryPoint]? = some m ∧
          m.level = g.maxLevel := by
  by_cases hnil : g.nodes = []
  · refine .inl ⟨h.noEntry hnil, fun j m hm =>
      (getElem?_store_cases hm).resolve_left fun hin => ?_⟩
    rw [hnil] at hin
    cases hin
  · obtain ⟨m, hm, hlevel⟩ := h.entry hnil
    have hlt := (List.getElem?_eq_some_iff.mp hm).1
    refine .inr ⟨h.entry_ne hnil, Nat.ne_of_lt hlt, m, ?_, hlevel⟩
    show (g.nodes ++ [_])[g.entryPoint]? = some m
    rw [List.getElem?_append_left hlt]
    exact hm

/-- **A vector is stored and its node linked in**, for a compact index that is not live. -/
theorem Inv.storeLink (fl : HnswMetric F) (h : g.Inv live) (hdead : live c = none)
    (hc : c < g.compactToInternal.length) (hfew : g.nodes.length < uint32Max) {v : List F}
    (hv : v.length = g.dimension) (norm : F) (level : Nat) :
    ∃ g', (g.store c g.nodes.length v norm level).link fl v norm g.nodes.length level = some g' ∧
      g'.Inv (Function.update live c (some v)) ∧ g'.dimension = g.dimension ∧
      g'.config = g.config ∧ g'.nodes.length = g.nodes.length + 1 := by
  obtain ⟨g', hlink, hinv, hdim, hcfg, hlen⟩ := link_spec fl
    (h.directory.store hdead hc hfew hv norm)
    (h.linked.snoc (List.length_replicate ..) fun _ hl => List.eq_of_mem_replicate hl)
    (fun l j => by
      rw [neighborsAt_store]
      exact h.not_listed l j)
    (getElem?_store_self g c level v norm)
    (fun j m hm hj =>
      h.highest m (List.mem_of_getElem? ((getElem?_store_cases hm).resolve_right hj)))
    (h.entry_store c level v norm) v norm
  refine ⟨g', hlink, hinv, hdim, hcfg, hlen.trans ?_⟩
  show (g.nodes ++ [_]).length = g.nodes.length + 1
  rw [List.length_append, List.length_singleton]

/-- **`AddLocked`**: the compact index has the new vector, and the others keep theirs. -/
theorem Inv.addLocked (fl : HnswMetric F) (h : g.Inv live) (hc : c < uint32Max)
    (hfew : g.nodes.length < uint32Max)
    (vector : Nat → F) :
    ∃ g', g.addLocked fl c vector = some g' ∧
      g'.Inv (Function.update live c (some (readFloats vector g.dimension))) ∧
      g'.dimension = g.dimension ∧ g'.config = g.config ∧
      g'.nodes.length = g.nodes.length + 1 := by
  obtain ⟨hgrown, hlt⟩ := h.directory.growMap hc
  have hinv : { g with compactToInternal := g.growMap c }.Inv live :=
    ⟨hgrown, h.linked, h.noEntry, h.entry, h.highest⟩
  obtain ⟨previous, hprev⟩ : ∃ p, (g.growMap c)[c]? = some p :=
    ⟨_, List.getElem?_eq_getElem hlt⟩
  have hretired := hinv.retire hprev
  obtain ⟨hlen, hdim, hcfg, hmap⟩ :=
    retire_frame { g with compactToInternal := g.growMap c } previous
  have hid : g.nodes.length % 2 ^ 32 = g.nodes.length :=
    Nat.mod_eq_of_lt (by unfold uint32Max at hfew; omega)
  obtain ⟨g', hlink, hinv', hdim', hcfg', hlen'⟩ := hretired.storeLink fl
    (v := readFloats vector g.dimension) (Function.update_self c none live)
    (by rw [hmap]; exact hlt) (by rw [hlen]; exact hfew)
    ((length_readFloats vector g.dimension).trans hdim.symm)
    (queryNormOf fl (readFloats vector g.dimension)) (randomLevel (g.levelDraws 0))
  rw [Function.update_idem] at hinv'
  refine ⟨g', ?_, hinv', hdim'.trans hdim, hcfg'.trans hcfg, by rw [hlen', hlen]⟩
  unfold HnswIndex.addLocked
  simp only [hprev, hid]
  rw [hlen] at hlink
  exact hlink

/-! ## 3. Compacting and rebuilding -/

/-- The contents after one vector after the other. -/
def addedAll (dimension : Nat) (live : Nat → Option (List F)) (l : List (Nat × (Nat → F))) :
    Nat → Option (List F) :=
  l.foldl (fun live p => Function.update live p.1 (some (readFloats p.2 dimension))) live

theorem Inv.addAll (fl : HnswMetric F) {l : List (Nat × (Nat → F))} (h : g.Inv live)
    (hl : ∀ p ∈ l, p.1 < uint32Max) (hfew : g.nodes.length + l.length ≤ uint32Max) :
    ∃ g', g.addAll fl l = some g' ∧ g'.Inv (addedAll g.dimension live l) ∧
      g'.dimension = g.dimension ∧ g'.config = g.config := by
  induction l generalizing g live with
  | nil => exact ⟨g, rfl, h, rfl, rfl⟩
  | cons p l ih =>
    rw [List.length_cons] at hfew
    obtain ⟨g₁, hadd, hinv, hdim, hcfg, hlen⟩ :=
      h.addLocked fl (hl p List.mem_cons_self) (by omega) p.2
    obtain ⟨g', hall, hinv', hdim', hcfg'⟩ :=
      ih hinv (fun q hq => hl q (List.mem_cons_of_mem p hq)) (by omega)
    refine ⟨g', ?_, ?_, hdim'.trans hdim, hcfg'.trans hcfg⟩
    · simp only [HnswIndex.addAll, hadd]
      exact hall
    · rw [hdim] at hinv'
      exact hinv'

/-- Vectors that are added to an empty index, one for each of the first `n` indices that has
    one. -/
theorem addedAll_gathered (dimension n : Nat) (f : Nat → Option (Nat → F)) :
    addedAll dimension (fun _ => none)
      ((List.range n).filterMap fun i => (f i).map fun p => (i, p)) =
      fun i => if i < n then (f i).map (readFloats · dimension) else none := by
  induction n with
  | zero => rfl
  | succ n ih =>
    rw [List.range_succ, List.filterMap_append, addedAll, List.foldl_append]
    rw [addedAll] at ih
    rw [ih]
    funext i
    cases hn : f n with
    | none =>
      simp only [List.filterMap_cons, hn, Option.map_none, List.filterMap_nil, List.foldl_nil]
      by_cases hi : i = n
      · subst hi
        simp [hn]
      · have : i < n + 1 ↔ i < n := by omega
        simp [this]
    | some p =>
      simp only [List.filterMap_cons, hn, Option.map_some, List.filterMap_nil, List.foldl_cons,
        List.foldl_nil]
      by_cases hi : i = n
      · subst hi
        rw [Function.update_self, if_pos (Nat.lt_succ_self i), hn]
        rfl
      · rw [Function.update_of_ne hi]
        have : i < n + 1 ↔ i < n := by omega
        simp [this]

theorem length_filterMap_range_le {α : Type} (n : Nat) (f : Nat → Option α) :
    ((List.range n).filterMap f).length ≤ n :=
  Nat.le_trans (List.length_filterMap_le f _) (Nat.le_of_eq List.length_range)

/-- A vector read from where it is kept. -/
theorem readFloats_getD (v : List F) (zero : F) :
    readFloats (fun i => (v[i]?).getD zero) v.length = v := by
  apply List.ext_getElem?
  intro i
  rw [readFloats, List.getElem?_map]
  by_cases hi : i < v.length
  · rw [List.getElem?_range hi, List.getElem?_eq_getElem hi]
    simp [hi]
  · rw [List.getElem?_eq_none (Nat.le_of_not_lt hi),
      List.getElem?_eq_none (by rw [List.length_range]; exact Nat.le_of_not_lt hi)]
    rfl

theorem Directory.liveVectors_lt (h : g.Directory live) :
    ∀ p ∈ g.liveVectors fl, p.1 < uint32Max := by
  intro p hp
  obtain ⟨i, hi, hmap⟩ := List.mem_filterMap.mp hp
  obtain ⟨v, _, rfl⟩ := Option.map_eq_some_iff.mp hmap
  exact Nat.lt_of_lt_of_le (List.mem_range.mp hi) h.fewIndices

/-- **`MaybeCompactLocked`** keeps the contents. -/
theorem Inv.maybeCompactLocked (fl : HnswMetric F) (h : g.Inv live) :
    ∃ g', g.maybeCompactLocked fl = some g' ∧ g'.Inv live ∧ g'.dimension = g.dimension ∧
      g'.config = g.config := by
  unfold HnswIndex.maybeCompactLocked
  split
  · exact ⟨g, rfl, h, rfl, rfl⟩
  · split
    · exact ⟨g, rfl, h, rfl, rfl⟩
    · have hgather : addedAll g.dimension (fun _ => none) (g.liveVectors fl) = live := by
        have hgathered := addedAll_gathered g.dimension g.compactToInternal.length
          fun i => (g.liveVector i).map fun v k => (v[k]?).getD fl.zero
        simp only [Option.map_map] at hgathered
        refine hgathered.trans ?_
        funext i
        rw [h.directory.holds i]
        cases hi : live i with
        | none => simp
        | some v =>
          rw [if_pos (h.directory.lt_of_live hi), Option.map_some, Function.comp_apply,
            ← h.directory.length_vector hi, readFloats_getD]
      obtain ⟨g', hall, hinv, hdim, hcfg⟩ := (Inv.cleared g).addAll fl h.directory.liveVectors_lt (by
        show 0 + _ ≤ uint32Max
        rw [Nat.zero_add]
        exact Nat.le_trans (length_filterMap_range_le _ _) h.directory.fewIndices)
      refine ⟨g', hall, ?_, hdim, hcfg⟩
      rw [show g.cleared.dimension = g.dimension from rfl, hgather] at hinv
      exact hinv

theorem Inv.add (fl : HnswMetric F) (h : g.Inv live) (hc : c < uint32Max)
    (hfew : g.nodes.length < uint32Max)
    (vector : Nat → F) :
    ∃ g', g.add fl c vector = some g' ∧
      g'.Inv (Function.update live c (some (readFloats vector g.dimension))) ∧
      g'.dimension = g.dimension ∧ g'.config = g.config := by
  obtain ⟨g₁, hadd, hinv, hdim, hcfg, _⟩ := h.addLocked fl hc hfew vector
  obtain ⟨g', hcompact, hinv', hdim', hcfg'⟩ := hinv.maybeCompactLocked fl
  refine ⟨g', ?_, hinv', hdim'.trans hdim, hcfg'.trans hcfg⟩
  simp only [HnswIndex.add, hadd]
  exact hcompact

/-- Every vector that is added is one more node. -/
theorem Inv.length_addAll (h : g.Inv live) {l : List (Nat × (Nat → F))}
    (hl : ∀ p ∈ l, p.1 < uint32Max) (hfew : g.nodes.length + l.length ≤ uint32Max)
    {g' : HnswIndex F} (hall : g.addAll fl l = some g') :
    g'.nodes.length = g.nodes.length + l.length := by
  induction l generalizing g live with
  | nil => rw [← Option.some.inj hall, List.length_nil, Nat.add_zero]
  | cons p l ih =>
    rw [List.length_cons] at hfew ⊢
    obtain ⟨g₁, hadd, hinv, -, -, hlen⟩ :=
      h.addLocked fl (hl p List.mem_cons_self) (by omega) p.2
    simp only [HnswIndex.addAll, hadd] at hall
    rw [ih hinv (fun q hq => hl q (List.mem_cons_of_mem p hq)) (by omega) hall]
    omega

/-- There are at most as many live vectors as there are indices that may be live. -/
theorem Inv.length_liveVectors (h : g.Inv live) {n : Nat}
    (hlive : ∀ c v, live c = some v → c < n) : (g.liveVectors fl).length ≤ n := by
  rw [liveVectors, List.length_filterMap_eq_countP, List.countP_eq_length_filter]
  refine (List.subperm_of_subset (List.nodup_range.filter _) fun c hc => ?_).length_le.trans_eq
    List.length_range
  obtain ⟨v, hv⟩ := Option.isSome_iff_exists.mp
    ((Option.isSome_map ..).symm.trans (List.mem_filter.mp hc).2)
  rw [h.directory.holds c] at hv
  exact List.mem_range.mpr (hlive c v hv)

/-- The nodes after a vector is added, if the live indices are below a bound. -/
theorem Inv.length_add (h : g.Inv live) {n : Nat} (hc : c < n) (hn : n ≤ uint32Max)
    (hnodes : g.nodes.length < n) (hlive : ∀ c v, live c = some v → c < n)
    {vector : Nat → F} {g' : HnswIndex F} (hadd : g.add fl c vector = some g') :
    g'.nodes.length ≤ n := by
  obtain ⟨g₁, hadd₁, hinv, -, -, hlen⟩ :=
    h.addLocked fl (Nat.lt_of_lt_of_le hc hn) (Nat.lt_of_lt_of_le hnodes hn) vector
  simp only [HnswIndex.add, hadd₁, HnswIndex.maybeCompactLocked] at hadd
  split at hadd
  · rw [← Option.some.inj hadd, hlen]
    exact hnodes
  · split at hadd
    · rw [← Option.some.inj hadd, hlen]
      exact hnodes
    · have hbound : ∀ c' v, Function.update live c (some (readFloats vector g.dimension)) c' =
          some v → c' < n := by
        intro c' v hv
        by_cases hcc : c' = c
        · exact hcc ▸ hc
        · rw [Function.update_of_ne hcc] at hv
          exact hlive c' v hv
      have hcount : (g₁.liveVectors fl).length ≤ n := hinv.length_liveVectors hbound
      have hlength := (Inv.cleared g₁).length_addAll hinv.directory.liveVectors_lt (by
        show 0 + _ ≤ uint32Max
        omega) hadd
      rw [hlength]
      show 0 + _ ≤ n
      omega

/-- **`MarkDeleted`**: the compact index is not live any more. -/
theorem Inv.markDeleted (fl : HnswMetric F) (h : g.Inv live) (c : Nat) :
    ∃ g', g.markDeleted fl c = some g' ∧ g'.Inv (Function.update live c none) ∧
      g'.dimension = g.dimension ∧ g'.config = g.config := by
  -- an index that was not live stays so
  have hdead : g.liveVector c = none → Function.update live c none = live := by
    intro hnone
    rw [h.directory.holds c] at hnone
    rw [← hnone, Function.update_eq_self]
  unfold HnswIndex.markDeleted
  cases hid : g.compactToInternal[c]? with
  | none =>
    refine ⟨g, rfl, ?_, rfl, rfl⟩
    rw [hdead (by rw [liveVector, hid, Option.bind_none])]
    exact h
  | some id =>
    simp only
    split
    · rename_i hmax
      refine ⟨g, rfl, ?_, rfl, rfl⟩
      rw [hdead (by rw [liveVector, hid, Option.bind_some, hmax, h.directory.no_node,
        Option.bind_none])]
      exact h
    · rename_i hreal
      obtain ⟨node, hnode, _⟩ := (h.directory.pointers c id hid).resolve_left hreal
      rw [hnode]
      simp only
      split
      · rename_i hdel
        refine ⟨g, rfl, ?_, rfl, rfl⟩
        rw [hdead (by rw [liveVector, hid, Option.bind_some, hnode, Option.bind_some, hdel]; rfl)]
        exact h
      · obtain ⟨_, hdim, hcfg, _⟩ := retire_frame g id
        obtain ⟨g', hcompact, hinv, hdim', hcfg'⟩ := (h.retire hid).maybeCompactLocked fl
        exact ⟨g', hcompact, hinv, hdim'.trans hdim, hcfg'.trans hcfg⟩

/-- Places for vectors that are still to come. -/
theorem Inv.reserve (g : HnswIndex F) (dimension count : Nat) (h : count ≤ uint32Max) :
    { g.cleared with
      dimension := dimension
      compactToInternal := List.replicate count uint32Max }.Inv fun _ => none where
  directory := {
    active := rfl
    rows := by simp [HnswIndex.cleared]
    pointers := fun c id hid => .inl (List.eq_of_mem_replicate (List.mem_of_getElem? hid))
    reached := by simp [HnswIndex.cleared]
    holds := fun c => by
      cases hv : HnswIndex.liveVector _ c with
      | none => rfl
      | some v =>
        obtain ⟨_, _, _, hnode, _⟩ := liveVector_eq_some.1 hv
        cases hnode
    fewNodes := Nat.zero_le _
    fewIndices := by
      show (List.replicate count uint32Max).length ≤ uint32Max
      rw [List.length_replicate]
      exact h }
  linked := linked_nil
  noEntry _ := rfl
  entry h := absurd rfl h
  highest := by simp [HnswIndex.cleared]

/-- **`Rebuild`**: the rows of the matrix, and nothing else. -/
theorem Inv.rebuild (fl : HnswMetric F) (g : HnswIndex F) (allVectors : Nat → F) {count : Nat} (dimension : Nat)
    (hcount : count ≤ uint32Max) :
    ∃ g', g.rebuild fl allVectors count dimension = some g' ∧
      g'.Inv (fun i => if i < count then
        some (readFloats (fun k => allVectors (i * dimension + k)) dimension) else none) ∧
      g'.dimension = dimension ∧ g'.config = g.config := by
  unfold HnswIndex.rebuild
  simp only
  split
  · rename_i hzero
    subst hzero
    refine ⟨_, rfl, ?_, rfl, rfl⟩
    have hempty := Inv.reserve g dimension 0 (Nat.zero_le _)
    simp only [Nat.not_lt_zero, if_false]
    exact hempty
  · obtain ⟨g', hall, hinv, hdim, hcfg⟩ := (Inv.reserve g dimension count hcount).addAll fl
      (l := (List.range count).map fun i => (i, fun k => allVectors (i * dimension + k)))
      (by
        intro p hp
        obtain ⟨i, hi, rfl⟩ := List.mem_map.mp hp
        exact Nat.lt_of_lt_of_le (List.mem_range.mp hi) hcount)
      (by
        show 0 + _ ≤ uint32Max
        rw [Nat.zero_add, List.length_map, List.length_range]
        exact hcount)
    refine ⟨g', hall, ?_, hdim, hcfg⟩
    have hgathered := addedAll_gathered dimension count
      fun i => some fun k => allVectors (i * dimension + k)
    simp only [Option.map_some, List.filterMap_eq_map'] at hgathered
    rw [show HnswIndex.dimension { g.cleared with
      dimension := dimension
      compactToInternal := List.replicate count uint32Max } = dimension from rfl, hgathered] at hinv
    exact hinv

end HnswIndex

/-! ## 4. Every run -/

/-- The numbers of the step are numbers of nodes and of places: `UINT32_MAX` is neither. -/
def HnswIndex.BelowMax (g : HnswIndex F) : HnswOp F → Prop
  | .add compactIndex _ => compactIndex.toNat < uint32Max ∧ g.nodes.length < uint32Max
  | .markDeleted _ => True
  | .rebuild .. => True

/-- A node that is not deleted, with its compact index. -/
def HnswIndex.LiveNode (g : HnswIndex F) (compactIndex internalId : Nat) : Prop :=
  ∃ node, g.nodes[internalId]? = some node ∧ node.deleted = false ∧
    node.compactIndex = compactIndex

/-- **The structure of an index**, with `vectorOf` the vector last added for each compact index
    that is live. -/
structure HnswIndex.Structure (g : HnswIndex F) (vectorOf : Nat → Option (List F)) : Prop where
  neighbor : ∀ layer id j, j ∈ neighborsAt g.nodes layer id →
    j ≠ id ∧ ∃ node, g.nodes[j]? = some node ∧ layer ≤ node.level
  noRepetition : ∀ layer id, (neighborsAt g.nodes layer id).Nodup
  atMost : ∀ layer id, (neighborsAt g.nodes layer id).length ≤ g.config.maxNeighbors layer
  entryPoint : g.nodes ≠ [] →
    ∃ node, g.nodes[g.entryPoint]? = some node ∧ node.level = g.maxLevel
  highest : ∀ node ∈ g.nodes, node.level ≤ g.maxLevel
  activeCount : g.activeCount = g.nodes.countP fun node => !node.deleted
  /-- A live compact index leads to its one live node, and that has its vector. -/
  live : ∀ c v, vectorOf c = some v → ∃ id, g.compactToInternal[c]? = some id ∧
    g.getNodeVector id = v ∧ ∀ id', g.LiveNode c id' ↔ id' = id
  dead : ∀ c, vectorOf c = none → ∀ id, ¬g.LiveNode c id

theorem HnswIndex.Inv.structure {live : Nat → Option (List F)} (h : g.Inv live) :
    g.Structure live where
  neighbor layer id j hj :=
    ⟨fun e => h.linked.other layer id (e ▸ hj), h.linked.ends layer id j hj⟩
  noRepetition := h.linked.nodup
  atMost := h.linked.short
  entryPoint := h.entry
  highest := h.highest
  activeCount := h.directory.active
  live c v hv := by
    rw [← h.directory.holds c] at hv
    obtain ⟨id, node, hid, hnode, hlive, hvector⟩ := liveVector_eq_some.1 hv
    refine ⟨id, hid, hvector, fun id' => ⟨?_, ?_⟩⟩
    · rintro ⟨node', hnode', hlive', rfl⟩
      have hthere := h.directory.reached id' node' hnode' hlive'
      rw [hid] at hthere
      exact (Option.some.inj hthere).symm
    · rintro rfl
      refine ⟨node, hnode, hlive, ?_⟩
      obtain rfl | ⟨node', hnode', hc⟩ := h.directory.pointers c id' hid
      · rw [h.directory.no_node] at hnode
        cases hnode
      · rw [hnode] at hnode'
        exact (Option.some.inj hnode') ▸ hc
  dead c hc id := by
    rintro ⟨node, hnode, hlive, rfl⟩
    have hthere := h.directory.reached id node hnode hlive
    have hv := liveVector_eq_some.2 ⟨id, node, hthere, hnode, hlive, rfl⟩
    rw [h.directory.holds, hc] at hv
    cases hv

/-- The contents of an index, with their dimension. -/
def HnswIndex.Holds (g : HnswIndex F) (s : HnswContents F) : Prop :=
  g.Inv s.vectorOf ∧ g.dimension = s.dimension

/-- **One operation.** -/
theorem HnswIndex.Holds.step (fl : HnswMetric F) {s : HnswContents F} (h : g.Holds s) (op : HnswOp F)
    (hop : g.BelowMax op) : ∃ g', g.step fl op = some g' ∧ g'.Holds (s.apply op) := by
  obtain ⟨hinv, hdim⟩ := h
  cases op with
  | add compactIndex vector =>
    obtain ⟨g', hadd, hinv', hdim', _⟩ := hinv.add fl hop.1 hop.2 vector
    rw [hdim] at hinv'
    exact ⟨g', hadd, hinv', hdim'.trans hdim⟩
  | markDeleted compactIndex =>
    obtain ⟨g', hmark, hinv', hdim', _⟩ := hinv.markDeleted fl compactIndex.toNat
    exact ⟨g', hmark, hinv', hdim'.trans hdim⟩
  | rebuild allVectors count dimension =>
    have hcount : count.toNat ≤ uint32Max := Nat.le_of_lt_succ count.toNat_lt
    obtain ⟨g', hrebuild, hinv', hdim', _⟩ :=
      HnswIndex.Inv.rebuild fl g allVectors dimension.toNat hcount
    exact ⟨g', hrebuild, hinv', hdim'⟩

theorem HnswIndex.holds_new (config : HnswConfig) (dimension : Nat) (levelDraws : Nat → Nat) :
    (HnswIndex.new config dimension levelDraws : HnswIndex F).Holds
      { dimension := dimension, vectorOf := fun _ => none } :=
  ⟨HnswIndex.Inv.cleared (HnswIndex.new config dimension levelDraws), rfl⟩

/-- **The structure of the graph**: whatever the levels that are drawn and however vectors are
    compared, after every sequence of operations whose numbers stay below `UINT32_MAX`. -/
theorem hnsw_structure (fl : HnswMetric F) (config : HnswConfig) (dimension : Nat)
    (levelDraws : Nat → Nat) (ops : List (HnswOp F))
    (hops : Meets (HnswIndex.step fl) HnswIndex.BelowMax
      (HnswIndex.new config dimension levelDraws) ops) :
    ∃ g, run (HnswIndex.step fl) (HnswIndex.new config dimension levelDraws) ops = some g ∧
      g.Structure (hnswContents dimension ops).vectorOf := by
  obtain ⟨g, hrun, hinv, _⟩ := run_simulates
    (fun g s op (h : g.Holds s) hop => h.step fl op hop)
    (HnswIndex.holds_new config dimension levelDraws) hops
  exact ⟨g, hrun, hinv.structure⟩

instance (g : HnswIndex F) : DecidablePred g.BelowMax
  | .add .. => inferInstanceAs (Decidable (_ ∧ _))
  | .markDeleted _ => isTrue trivial
  | .rebuild .. => isTrue trivial

/-- Vectors of one integer; the closer two are, the more similar. -/
def exampleMetric : HnswMetric Int where
  ranking := .sorted (fun a b => decide (b < a)) (by simp)
    (fun a b c hab hbc => by simp only [decide_eq_true_eq] at *; omega)
  distanceFunc a b := -((a.headD 0 - b.headD 0).natAbs : Int)
  useCosinePrenorm := false
  cosineSimilarityPreNorm _ _ _ _ := 0
  l2Norm _ := 0
  zero := 0
  belowTombstoneRatio _ tombstones nodes := tombstones * 4 < nodes

/-- Two vectors, the second again, one deleted, and what the compaction of that left rebuilt. -/
def exampleHnswRun : List (HnswOp Int) :=
  [.add 0 fun _ => 5, .add 1 fun _ => 7, .add 1 fun _ => 9, .add 2 fun _ => 6, .markDeleted 0,
    .rebuild (fun i => i) 3 1]

def exampleHnsw : HnswIndex Int :=
  .new { m := 1, efConstruction := 2, rebuildMinNodes := 3 } 1 fun i => i % 2

theorem hnsw_structure_exampleRun :
    Meets (HnswIndex.step exampleMetric) HnswIndex.BelowMax exampleHnsw exampleHnswRun ∧
      ∃ g, run (HnswIndex.step exampleMetric) exampleHnsw exampleHnswRun = some g ∧
        g.Structure (hnswContents 1 exampleHnswRun).vectorOf := by
  have hmeets : Meets (HnswIndex.step exampleMetric) HnswIndex.BelowMax exampleHnsw
      exampleHnswRun := by decide +kernel
  exact ⟨hmeets, hnsw_structure exampleMetric _ 1 _ exampleHnswRun hmeets⟩

/-- **The last compact index**: the map is resized to `UINT32_MAX + 1`, which is 0, and the place
    that is read then is not there. -/
theorem last_index_out_of_range :
    ¬∃ g, run (HnswIndex.step exampleMetric) exampleHnsw [.add 4294967295 fun _ => 5] = some g ∧
      g.Structure (hnswContents 1 [.add 4294967295 fun _ => 5]).vectorOf := by
  rintro ⟨g, hrun, _⟩
  have hnone : run (HnswIndex.step exampleMetric) exampleHnsw [.add 4294967295 fun _ => 5] =
      none := rfl
  rw [hnone] at hrun
  cases hrun

end Nvecd.Vectors
