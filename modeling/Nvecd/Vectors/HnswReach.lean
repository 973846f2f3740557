/-
  File:      Nvecd/Vectors/HnswReach.lean
  Subject:   When every node of an HNSW index can be found.

  A node lists some of those before it, and they list it back. As long as no list is so full that
  a reverse link would be cut, all nodes can be reached from all at layer 0; so a search finds as
  many as are asked for, or all that are live. A compaction and a rebuild add to an empty index,
  and have to leave room as well.

  * `Linking.linkBack_room`, `Linking.connectDown_joins` -- a node is linked in where there is room;
  * `Connected`, `HasRoom`, `RoomFor` -- all can be reached; no list is full, throughout a step;
  * `Connected.step` -- one operation;
  * `search_full_of_room` -- every run.
-/
import Nvecd.Vectors.HnswCount

namespace Nvecd.Vectors

open Nvecd.Lib

variable {F : Type} {fl : HnswMetric F}

/-! ## 1. Linking where there is room -/

namespace Linking

variable {k : Linking F} {nodes nodes' : List HnswNode} {layer id cur : Nat}

/-- A reverse link that is not cut. -/
theorem linkBack_room (h : Linked k.maxNeighbors nodes) (hid : HasLayer nodes layer id)
    (hroom : (neighborsAt nodes layer id).length < k.maxNeighbors layer) :
    neighborsAt (k.linkBack layer nodes id) layer id =
      neighborsAt nodes layer id ++ [k.internalId] := by
  obtain ⟨node, hnode, hlevel⟩ := hid
  have hlt : layer < node.neighbors.length := by
    rw [h.layers node (List.mem_of_getElem? hnode)]
    omega
  have hshort : ¬k.maxNeighbors layer < (neighborsAt nodes layer id ++ [k.internalId]).length := by
    rw [List.length_append, List.length_singleton]
    omega
  unfold linkBack
  simp only [hnode, if_neg (Nat.not_le_of_lt hlt), if_neg hshort]
  exact neighborsAt_setLinks_self _ hnode hlt

/-- **The reverse links of a layer**, where none is cut: those that are selected list the new
    node, and the others what they listed. -/
theorem foldl_linkBack_room {selected : List Nat} (h : Linked k.maxNeighbors nodes)
    (hk : HasLayer nodes layer k.internalId) (hnodup : selected.Nodup)
    (hin : ∀ id ∈ selected, InLayer nodes layer k.internalId id)
    (hnew : ∀ id ∈ selected, k.internalId ∉ neighborsAt nodes layer id)
    (hroom : ∀ id ∈ selected, (neighborsAt nodes layer id).length < k.maxNeighbors layer)
    (j : Nat) :
    neighborsAt (selected.foldl (k.linkBack layer) nodes) layer j =
      neighborsAt nodes layer j ++ if j ∈ selected then [k.internalId] else [] := by
  induction selected generalizing nodes with
  | nil => simp
  | cons id selected ih =>
    obtain ⟨hnotin, hnodup⟩ := List.nodup_cons.mp hnodup
    have hhead := hin id List.mem_cons_self
    obtain ⟨hlinked, hbare, hsame⟩ := linkBack_spec h hk hhead (hnew id List.mem_cons_self)
    have hrest : ∀ i ∈ selected,
        neighborsAt (k.linkBack layer nodes id) layer i = neighborsAt nodes layer i :=
      fun i hi => hsame layer i (.inl fun he => hnotin (he ▸ hi))
    have htail := ih hlinked (hk.congr hbare) hnodup
      (fun i hi => ⟨(hin i (List.mem_cons_of_mem id hi)).1,
        (hin i (List.mem_cons_of_mem id hi)).2.congr hbare⟩)
      (fun i hi => by
        rw [hrest i hi]
        exact hnew i (List.mem_cons_of_mem id hi))
      (fun i hi => by
        rw [hrest i hi]
        exact hroom i (List.mem_cons_of_mem id hi))
    rw [List.foldl_cons, htail]
    by_cases he : j = id
    · rw [he, linkBack_room h hhead.2 (hroom id List.mem_cons_self), if_neg hnotin,
        if_pos List.mem_cons_self, List.append_nil]
    · rw [hsame layer j (.inl he)]
      simp [he]

/-- **Layer 0**: the new node is joined to the others. -/
theorem connectLayer_joins {P : Nat → Prop} (h : Linked k.maxNeighbors nodes)
    (hk : HasLayer nodes 0 k.internalId) (hnew : ∀ j, k.internalId ∉ neighborsAt nodes 0 j)
    (hcur : InLayer nodes 0 k.internalId cur)
    (hroom : ∀ j, InLayer nodes 0 k.internalId j →
      (neighborsAt nodes 0 j).length < k.maxNeighbors 0)
    (hP : ∀ id, InLayer nodes 0 k.internalId id → P id)
    (hjoined : Joined (neighborsAt nodes 0) P) {cur' : Nat}
    (hconnect : k.connectLayer 0 nodes cur = some (nodes', cur')) :
    Joined (neighborsAt nodes' 0) fun id => P id ∨ id = k.internalId := by
  obtain ⟨best, rest, hsearch, -, hnodup, hsel, hforward⟩ := forward_spec h hk hnew hcur
  have hne : selectNeighbors (best :: rest) (k.maxNeighbors 0) ≠ [] := by
    have hpos : 0 < k.maxNeighbors 0 := Nat.zero_lt_of_lt (hroom cur hcur)
    obtain ⟨max, hmax⟩ : ∃ max, k.maxNeighbors 0 = max + 1 := ⟨_, (Nat.succ_pred hpos.ne').symm⟩
    rw [hmax]
    exact List.cons_ne_nil _ _
  simp only [connectLayer, hsearch, Option.some.injEq, Prod.mk.injEq] at hconnect
  obtain ⟨rfl, -⟩ := hconnect
  generalize selectNeighbors (best :: rest) (k.maxNeighbors 0) = selected at *
  have hlisted : ∀ j, j ≠ k.internalId →
      neighborsAt (setLinks nodes 0 k.internalId selected) 0 j = neighborsAt nodes 0 j :=
    fun j hj => neighborsAt_setLinks_of_ne (.inl hj)
  have hself : neighborsAt (setLinks nodes 0 k.internalId selected) 0 k.internalId = selected := by
    obtain ⟨node, hnode, -⟩ := hk
    refine neighborsAt_setLinks_self _ hnode ?_
    rw [h.layers node (List.mem_of_getElem? hnode)]
    exact Nat.succ_pos _
  have hlists := foldl_linkBack_room hforward (hk.congr bare_setLinks) hnodup
    (fun id hid => ⟨(hsel id hid).1, (hsel id hid).2.congr bare_setLinks⟩)
    (fun id hid => by
      rw [hlisted id (hsel id hid).1]
      exact hnew id)
    (fun id hid => by
      rw [hlisted id (hsel id hid).1]
      exact hroom id (hsel id hid))
  refine hjoined.link hnew ?_ ?_ (fun s hs => ⟨(hsel s hs).1, hP s (hsel s hs)⟩) hne
  · rw [hlists, hself, if_neg fun hin => (hsel _ hin).1 rfl, List.append_nil]
  · intro a ha b
    rw [hlists, hlisted a ha, List.mem_append]
    split
    · rename_i hin
      rw [List.mem_singleton, and_iff_left hin]
    · rename_i hout
      simp [hout]

/-- **The layers from the top down**: those above layer 0 leave it alone. -/
theorem connectDown_joins {P : Nat → Prop} {l : Nat} (h : Linked k.maxNeighbors nodes)
    (hk : ∀ l' ≤ l, HasLayer nodes l' k.internalId)
    (hnew : ∀ l' ≤ l, ∀ j, k.internalId ∉ neighborsAt nodes l' j)
    (hcur : ∀ l' ≤ l, InLayer nodes l' k.internalId cur)
    (hroom : ∀ j, InLayer nodes 0 k.internalId j →
      (neighborsAt nodes 0 j).length < k.maxNeighbors 0)
    (hP : ∀ id, InLayer nodes 0 k.internalId id → P id)
    (hjoined : Joined (neighborsAt nodes 0) P)
    (hconnect : k.connectDown (l + 1) nodes cur = some nodes') :
    Joined (neighborsAt nodes' 0) fun id => P id ∨ id = k.internalId := by
  induction l generalizing nodes cur with
  | zero =>
    unfold connectDown at hconnect
    split at hconnect
    · rename_i nodes₁ cur₁ hlayer
      obtain rfl := Option.some.inj hconnect
      exact connectLayer_joins h (hk 0 (Nat.le_refl 0)) (hnew 0 (Nat.le_refl 0))
        (hcur 0 (Nat.le_refl 0)) hroom hP hjoined hlayer
    · cases hconnect
  | succ l ih =>
    obtain ⟨nodes₁, cur₁, hlayer, hlinked, hbare, hsame, hcur₁⟩ := connectLayer_spec h
      (hk (l + 1) (Nat.le_refl _)) hnew (hcur (l + 1) (Nat.le_refl _))
    have hzero : neighborsAt nodes₁ 0 = neighborsAt nodes 0 :=
      funext fun j => hsame 0 j (Nat.succ_ne_zero l).symm
    unfold connectDown at hconnect
    rw [hlayer] at hconnect
    refine ih hlinked (fun l' hl' => (hk l' (by omega)).congr hbare) ?_ ?_ ?_ ?_ ?_ hconnect
    · intro l' hl' j
      rw [hsame l' j (by omega)]
      exact hnew l' (by omega) j
    · exact fun l' hl' => ⟨hcur₁.1, hcur₁.2.mono (by omega)⟩
    · intro j hj
      rw [hzero]
      exact hroom j ⟨hj.1, hj.2.congr hbare.symm⟩
    · exact fun id hid => hP id ⟨hid.1, hid.2.congr hbare.symm⟩
    · rw [hzero]
      exact hjoined

end Linking

/-! ## 2. One operation -/

namespace HnswIndex

variable {g g' : HnswIndex F} {live : Nat → Option (List F)} {c level : Nat} {v : List F}
  {norm : F}

/-- **All nodes can be reached from all** at layer 0. -/
def Connected (g : HnswIndex F) : Prop := Joined g.layer0 fun id => id < g.nodes.length

/-- **No list of layer 0 is full.** -/
def HasRoom (g : HnswIndex F) : Prop :=
  ∀ id < g.nodes.length, (g.layer0 id).length < g.config.maxNeighbors 0

/-- There is room as one vector after the other is added. -/
def RoomThroughout (fl : HnswMetric F) : HnswIndex F → List (Nat × (Nat → F)) → Prop
  | _, [] => True
  | g, (compactIndex, vector) :: rest =>
    g.HasRoom ∧
      match g.addLocked fl compactIndex vector with
      | some g => RoomThroughout fl g rest
      | none => True

/-- There is room in a compaction, if the index is compacted. -/
def CompactionRoom (fl : HnswMetric F) (g : HnswIndex F) : Prop :=
  (g.nodes.length < g.config.rebuildMinNodes ∨ g.nodes = []) ∨
    fl.belowTombstoneRatio g.config.rebuildTombstoneRatio (g.nodes.length - g.activeCount)
      g.nodes.length = true ∨ g.cleared.RoomThroughout fl (g.liveVectors fl)

/-- **There is room for the operation**, wherever it adds a node. -/
def RoomFor (fl : HnswMetric F) (g : HnswIndex F) : HnswOp F → Prop
  | .add compactIndex vector =>
    g.HasRoom ∧
      match g.addLocked fl compactIndex.toNat vector with
      | some g => g.CompactionRoom fl
      | none => True
  | .markDeleted compactIndex =>
    match g.compactToInternal[compactIndex.toNat]? with
    | some id => (g.retire id).CompactionRoom fl
    | none => True
  | .rebuild allVectors count dimension =>
    RoomThroughout fl { g.cleared with
      dimension := dimension.toNat
      compactToInternal := List.replicate count.toNat uint32Max }
      ((List.range count.toNat).map fun i =>
        (i, fun k => allVectors (i * dimension.toNat + k)))

instance (g : HnswIndex F) : Decidable g.HasRoom :=
  inferInstanceAs (Decidable (∀ id < g.nodes.length, _))

instance RoomThroughout.decidable (fl : HnswMetric F) :
    ∀ (g : HnswIndex F) l, Decidable (g.RoomThroughout fl l)
  | _, [] => isTrue trivial
  | g, (compactIndex, vector) :: rest =>
    have : Decidable (match g.addLocked fl compactIndex vector with
        | some g => RoomThroughout fl g rest
        | none => True) :=
      match g.addLocked fl compactIndex vector with
      | some g => RoomThroughout.decidable fl g rest
      | none => isTrue trivial
    inferInstanceAs (Decidable (_ ∧ _))

instance (fl : HnswMetric F) (g : HnswIndex F) : Decidable (g.CompactionRoom fl) :=
  inferInstanceAs (Decidable (_ ∨ _ ∨ _))

instance (fl : HnswMetric F) (g : HnswIndex F) : DecidablePred (g.RoomFor fl)
  | .add compactIndex vector =>
    have : Decidable (match g.addLocked fl compactIndex.toNat vector with
        | some g => g.CompactionRoom fl
        | none => True) :=
      match g.addLocked fl compactIndex.toNat vector with
      | some _ => inferInstance
      | none => isTrue trivial
    inferInstanceAs (Decidable (_ ∧ _))
  | .markDeleted compactIndex =>
    match h : g.compactToInternal[compactIndex.toNat]? with
    | some id => decidable_of_iff ((g.retire id).CompactionRoom fl) (by rw [RoomFor, h])
    | none => decidable_of_iff True (by rw [RoomFor, h])
  | .rebuild .. => RoomThroughout.decidable fl _ _

theorem connected_nil (h : g.nodes = []) : g.Connected where
  back a b hb := by simp [layer0, neighborsAt, h] at hb
  ways a b ha := by simp [h] at ha

theorem layer0_retire (g : HnswIndex F) (id : Nat) : (g.retire id).layer0 = g.layer0 := by
  rcases nodes_retire g id with he | he
  · rw [he]
  · rw [he]
    exact funext fun j => neighborsAt_retire g.nodes id 0 j

theorem Connected.retire (h : g.Connected) (id : Nat) : (g.retire id).Connected := by
  unfold Connected
  rw [layer0_retire, (retire_frame g id).1]
  exact h

theorem HasRoom.retire (h : g.HasRoom) (id : Nat) : (g.retire id).HasRoom := by
  intro j hj
  rw [(retire_frame g id).1] at hj
  rw [layer0_retire, (retire_frame g id).2.2.1]
  exact h j hj

/-- **A node is linked in** where no list is full. -/
theorem link_joins {k : Nat} {P : Nat → Prop} (hlinked : Linked g.config.maxNeighbors g.nodes)
    (hnew : ∀ l j, k ∉ neighborsAt g.nodes l j) {node : HnswNode} (hk : g.nodes[k]? = some node)
    (hentry : g.entryPoint = uint32Max ∧ (∀ j m, g.nodes[j]? = some m → j = k) ∨
      g.entryPoint ≠ uint32Max ∧ g.entryPoint ≠ k ∧
        ∃ m, g.nodes[g.entryPoint]? = some m ∧ m.level = g.maxLevel)
    (hroom : ∀ id, P id → (g.layer0 id).length < g.config.maxNeighbors 0)
    (hP : ∀ id, P id ↔ InLayer g.nodes 0 k id) (hjoined : Joined g.layer0 P)
    {vector : List F} (hlink : g.link fl vector norm k node.level = some g') :
    Joined g'.layer0 fun id => P id ∨ id = k := by
  unfold HnswIndex.link at hlink
  rcases hentry with ⟨he, honly⟩ | ⟨he, hek, m, hm, hlevel⟩
  · rw [if_pos he] at hlink
    obtain rfl := Option.some.inj hlink
    -- there is no other node to be reached
    have hall : ∀ id, P id ∨ id = k → id = k := by
      intro id hid
      cases hid with
      | inl hid =>
        obtain ⟨-, m, hm, -⟩ := (hP id).mp hid
        exact honly id m hm
      | inr hid => exact hid
    refine ⟨hjoined.back, fun a b ha hb => ?_⟩
    rw [hall a ha, hall b hb]
    exact Relation.ReflTransGen.refl
  · rw [if_neg he] at hlink
    obtain ⟨cur, hcur, hin⟩ := descend_spec fl.ranking (g.computeDistance fl vector norm)
      hlinked hnew node.level
      (show InLayer g.nodes g.maxLevel k g.entryPoint from ⟨hek, m, hm, Nat.le_of_eq hlevel.symm⟩)
    rw [hcur] at hlink
    dsimp only at hlink
    split at hlink
    · cases hlink
    · rename_i nodes hconnect
      have hnodes : Joined (neighborsAt nodes 0) fun id => P id ∨ id = k :=
        Linking.connectDown_joins (k := g.linking fl vector norm k) hlinked
          (fun l' hl' => ⟨node, hk, Nat.le_trans hl' (Nat.min_le_left _ _)⟩)
          (fun l' _ => hnew l') (fun l' hl' => ⟨hin.1, hin.2.mono hl'⟩)
          (fun id hid => hroom id ((hP id).mpr hid)) (fun id hid => (hP id).mpr hid) hjoined
          hconnect
      split at hlink
      · obtain rfl := Option.some.inj hlink
        exact hnodes
      · obtain rfl := Option.some.inj hlink
        exact hnodes

/-- The node that is stored can be reached, and the others from it. -/
theorem Connected.storeLink (hconn : g.Connected) (h : g.Inv live) (hroom : g.HasRoom)
    (hlink : (g.store c g.nodes.length v norm level).link fl v norm g.nodes.length level =
      some g') (hlen : g'.nodes.length = g.nodes.length + 1) : g'.Connected := by
  have hlists : (g.store c g.nodes.length v norm level).layer0 = g.layer0 :=
    funext fun j => neighborsAt_store g c _ level v norm 0 j
  have hjoined := link_joins (P := fun id => id < g.nodes.length)
    (h.linked.snoc (List.length_replicate ..) fun _ hl => List.eq_of_mem_replicate hl)
    (fun l j => by
      rw [neighborsAt_store]
      exact h.not_listed l j)
    (getElem?_store_self g c level v norm) (h.entry_store c level v norm)
    (fun id hid => by
      rw [hlists]
      exact hroom id hid)
    (fun id => ?_) (hlists ▸ hconn) hlink
  · refine ⟨hjoined.back, fun a b ha hb => hjoined.ways a b ?_ ?_⟩
    · omega
    · omega
  · constructor
    · intro hid
      obtain ⟨m, hm⟩ : ∃ m, g.nodes[id]? = some m := ⟨_, List.getElem?_eq_getElem hid⟩
      refine ⟨hid.ne, m, ?_, Nat.zero_le _⟩
      show (g.nodes ++ [_])[id]? = some m
      rw [List.getElem?_append_left hid]
      exact hm
    · rintro ⟨hne, m, hm, -⟩
      exact (List.getElem?_eq_some_iff.mp ((getElem?_store_cases hm).resolve_right hne)).1

/-- **`AddLocked`** -/
theorem Connected.addLocked (hconn : g.Connected) (h : g.Inv live) (hroom : g.HasRoom)
    (hc : c < uint32Max) (hfew : g.nodes.length < uint32Max) {vector : Nat → F}
    (hadd : g.addLocked fl c vector = some g') : g'.Connected := by
  obtain ⟨hgrown, hlt⟩ := h.directory.growMap hc
  have hinv : { g with compactToInternal := g.growMap c }.Inv live :=
    ⟨hgrown, h.linked, h.noEntry, h.entry, h.highest⟩
  obtain ⟨previous, hprev⟩ : ∃ p, (g.growMap c)[c]? = some p :=
    ⟨_, List.getElem?_eq_getElem hlt⟩
  have hlen := (retire_frame { g with compactToInternal := g.growMap c } previous).1
  have hid : g.nodes.length % 2 ^ 32 = g.nodes.length :=
    Nat.mod_eq_of_lt (by unfold uint32Max at hfew; omega)
  obtain ⟨g₁, hadd₁, -, -, -, hlen₁⟩ := h.addLocked fl hc hfew vector
  obtain rfl : g₁ = g' := Option.some.inj (hadd₁.symm.trans hadd)
  have hgrownConn : Connected { g with compactToInternal := g.growMap c } := hconn
  have hgrownRoom : HasRoom { g with compactToInternal := g.growMap c } := hroom
  unfold HnswIndex.addLocked at hadd
  simp only [hprev, hid] at hadd
  rw [← show ({ g with compactToInternal := g.growMap c }.retire previous).nodes.length =
    g.nodes.length from hlen] at hadd
  exact (hgrownConn.retire previous).storeLink (hinv.retire hprev) (hgrownRoom.retire previous) hadd
    (hlen₁.trans (congrArg (· + 1) hlen.symm))

theorem Connected.addAll {l : List (Nat × (Nat → F))} (hconn : g.Connected) (h : g.Inv live)
    (hroom : g.RoomThroughout fl l) (hl : ∀ p ∈ l, p.1 < uint32Max)
    (hfew : g.nodes.length + l.length ≤ uint32Max) (hall : g.addAll fl l = some g') :
    g'.Connected := by
  induction l generalizing g live with
  | nil => exact Option.some.inj hall ▸ hconn
  | cons p l ih =>
    rw [List.length_cons] at hfew
    have hp := hl p List.mem_cons_self
    obtain ⟨g₁, hadd, hinv, -, -, hlen⟩ := h.addLocked fl hp (by omega) p.2
    simp only [HnswIndex.addAll, hadd] at hall
    have hrest := hroom.2
    rw [hadd] at hrest
    exact ih (hconn.addLocked h hroom.1 hp (by omega) hadd) hinv hrest
      (fun q hq => hl q (List.mem_cons_of_mem p hq)) (by omega) hall

/-- **`MaybeCompactLocked`** -/
theorem Connected.maybeCompactLocked (hconn : g.Connected) (h : g.Inv live)
    (hroom : g.CompactionRoom fl) (hcompact : g.maybeCompactLocked fl = some g') :
    g'.Connected := by
  unfold HnswIndex.maybeCompactLocked at hcompact
  split at hcompact
  · exact Option.some.inj hcompact ▸ hconn
  · rename_i hmany
    split at hcompact
    · exact Option.some.inj hcompact ▸ hconn
    · rename_i hratio
      have hthroughout := (hroom.resolve_left hmany).resolve_left hratio
      refine (connected_nil rfl).addAll (Inv.cleared g) hthroughout h.directory.liveVectors_lt ?_
        hcompact
      show 0 + _ ≤ uint32Max
      rw [Nat.zero_add]
      exact Nat.le_trans (length_filterMap_range_le _ _) h.directory.fewIndices

/-- **One operation** for which there is room. -/
theorem Connected.step (hconn : g.Connected) (h : g.Inv live) (op : HnswOp F)
    (hop : g.BelowMax op) (hroom : g.RoomFor fl op) (hstep : g.step fl op = some g') :
    g'.Connected := by
  cases op with
  | add compactIndex vector =>
    obtain ⟨g₁, hadd, hinv, -, -, -⟩ := h.addLocked fl hop.1 hop.2 vector
    simp only [HnswIndex.step, HnswIndex.add, hadd] at hstep
    have hrest := hroom.2
    rw [hadd] at hrest
    exact (hconn.addLocked h hroom.1 hop.1 hop.2 hadd).maybeCompactLocked hinv hrest hstep
  | markDeleted compactIndex =>
    simp only [HnswIndex.step, HnswIndex.markDeleted] at hstep
    cases hid : g.compactToInternal[compactIndex.toNat]? with
    | none =>
      rw [hid] at hstep
      exact Option.some.inj hstep ▸ hconn
    | some id =>
      rw [hid] at hstep
      dsimp only at hstep
      split at hstep
      · exact Option.some.inj hstep ▸ hconn
      · split at hstep
        · cases hstep
        · split at hstep
          · exact Option.some.inj hstep ▸ hconn
          · simp only [RoomFor, hid] at hroom
            exact (hconn.retire id).maybeCompactLocked (h.retire hid) hroom hstep
  | rebuild allVectors count dimension =>
    have hcount : count.toNat ≤ uint32Max := Nat.le_of_lt_succ count.toNat_lt
    simp only [HnswIndex.step, HnswIndex.rebuild] at hstep
    split at hstep
    · obtain rfl := Option.some.inj hstep
      exact connected_nil rfl
    · refine (connected_nil rfl).addAll (Inv.reserve g dimension.toNat count.toNat hcount) hroom
        ?_ ?_ hstep
      · intro p hp
        obtain ⟨i, hi, rfl⟩ := List.mem_map.mp hp
        exact Nat.lt_of_lt_of_le (List.mem_range.mp hi) hcount
      · show 0 + _ ≤ uint32Max
        rw [Nat.zero_add, List.length_map, List.length_range]
        exact hcount

/-- **A search of a connected index** finds as many as are asked for, or all that are live. -/
theorem Connected.search_full (hconn : g.Connected) (h : g.Inv live) (hsorts : fl.ranking.Sorts)
    (query : List F) {topK : Nat} (hk : 0 < topK) :
    ∃ results, g.search fl query topK = some results ∧
      results.length = min topK g.activeCount := by
  rcases h.search_spec query hsorts hk with
    ⟨-, hzero, hsearch⟩ | ⟨cur, results, -, hcur, hsearch, hfinds⟩
  · refine ⟨[], hsearch, ?_⟩
    rw [hzero, Nat.min_zero, List.length_nil]
  · have hall : (g.liveReached cur).length = g.liveNodes.length := by
      refine (length_liveReached_eq g cur).mpr fun id hid => ?_
      obtain ⟨node, hnode, -⟩ := isLive_iff.1 hid
      exact hconn.ways cur id (List.mem_range.mp hcur.mem_range)
        (List.getElem?_eq_some_iff.mp hnode).1
    refine ⟨results, hsearch, ?_⟩
    rw [hfinds.length, hall, length_liveNodes, h.directory.active]

end HnswIndex

/-! ## 3. Every run -/

/-- **As long as no list is full**, whatever the levels that are drawn and however vectors are
    compared, every node can be reached from every other, and no search misses one. -/
theorem search_full_of_room (fl : HnswMetric F) (hsorts : fl.ranking.Sorts) (config : HnswConfig)
    (dimension : Nat) (levelDraws : Nat → Nat) (ops : List (HnswOp F))
    (hops : Meets (HnswIndex.step fl) (fun g op => g.BelowMax op ∧ g.RoomFor fl op)
      (HnswIndex.new config dimension levelDraws) ops) :
    ∃ g, run (HnswIndex.step fl) (HnswIndex.new config dimension levelDraws) ops = some g ∧
      (∀ a b, a < g.nodes.length → b < g.nodes.length → Reaches g.layer0 a b) ∧
      ∀ (query : List F) (topK : Nat), 0 < topK →
        ∃ results, g.search fl query topK = some results ∧
          results.length = min topK g.activeCount := by
  obtain ⟨g, hrun, ⟨hinv, -⟩, hconn⟩ := run_simulates
    (R := fun g s => g.Holds s ∧ g.Connected)
    (fun g s op h hop => by
      obtain ⟨g', hstep, hholds⟩ := h.1.step fl op hop.1
      exact ⟨g', hstep, hholds, h.2.step h.1.1 op hop.1 hop.2 hstep⟩)
    ⟨HnswIndex.holds_new config dimension levelDraws, HnswIndex.connected_nil rfl⟩ hops
  exact ⟨g, hrun, hconn.ways, fun query topK hk => hconn.search_full hinv hsorts query hk⟩

-- the run that loses a vector has room up to its last step
example : Meets (HnswIndex.step exampleMetric)
    (fun g op => g.BelowMax op ∧ g.RoomFor exampleMetric op) outlierIndex
    (outlierRun.take 5) := by decide +kernel

example : ¬Meets (HnswIndex.step exampleMetric)
    (fun g op => g.BelowMax op ∧ g.RoomFor exampleMetric op) outlierIndex outlierRun := by
  decide +kernel

end Nvecd.Vectors
