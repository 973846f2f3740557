/-
  File:      Nvecd/Vectors/HnswSizes.lean
  Subject:   The numbers of an HNSW index: how large they are in every index that is reached.

  * `Sized` -- the levels of the nodes are cut off, and the compact indices are `uint32_t`;
  * `connectDown_bare`, `Sized.link`, `Sized.addAll` -- it does not depend on the links;
  * `Reached`, `Reached.sized` -- the indices that runs lead to.
-/
import Nvecd.Vectors.HnswInvariant

namespace Nvecd.Vectors

open Nvecd.Lib

variable {F : Type}

/-! ## 1. Linking changes links only -/

section Bare

variable {k : Linking F} {layer id cur cur' l : Nat} {nodes nodes' : List HnswNode}

theorem linkBack_bare :
    (k.linkBack layer nodes id).map HnswNode.bare = nodes.map HnswNode.bare := by
  unfold Linking.linkBack
  split
  · rfl
  · split
    · rfl
    · exact bare_setLinks

theorem foldl_linkBack_bare (selected : List Nat) (nodes : List HnswNode) :
    (selected.foldl (k.linkBack layer) nodes).map HnswNode.bare = nodes.map HnswNode.bare := by
  induction selected generalizing nodes with
  | nil => rfl
  | cons id selected ih => exact (ih _).trans linkBack_bare

theorem connectLayer_bare (h : k.connectLayer layer nodes cur = some (nodes', cur')) :
    nodes'.map HnswNode.bare = nodes.map HnswNode.bare := by
  unfold Linking.connectLayer at h
  split at h
  · cases h
  · cases h
    exact (foldl_linkBack_bare _ _).trans bare_setLinks

theorem connectDown_bare (h : k.connectDown l nodes cur = some nodes') :
    nodes'.map HnswNode.bare = nodes.map HnswNode.bare := by
  induction l generalizing nodes cur with
  | zero =>
    cases h
    rfl
  | succ l ih =>
    unfold Linking.connectDown at h
    split at h
    · rename_i hlayer
      exact (ih h).trans (connectLayer_bare hlayer)
    · cases h

end Bare

/-! ## 2. Sizes -/

/-- The levels are at most `kMaxNodeLevel`, the compact indices are `uint32_t`. -/
structure HnswIndex.Sized (g : HnswIndex F) : Prop where
  node : ∀ node ∈ g.nodes, node.level ≤ kMaxNodeLevel ∧ node.compactIndex < 256 ^ 4
  maxLevel : g.maxLevel ≤ kMaxNodeLevel

namespace HnswIndex

variable {fl : HnswMetric F} {g g' : HnswIndex F} {c id level : Nat}

theorem Sized.of_bare (h : g.Sized) {nodes : List HnswNode}
    (hbare : nodes.map HnswNode.bare = g.nodes.map HnswNode.bare) :
    ∀ node ∈ nodes, node.level ≤ kMaxNodeLevel ∧ node.compactIndex < 256 ^ 4 := by
  intro node hnode
  obtain ⟨i, hi⟩ := List.mem_iff_getElem?.mp hnode
  obtain ⟨old, hold, heq⟩ := getElem?_of_bare hbare hi
  rw [← HnswNode.level_of_bare heq, ← HnswNode.compactIndex_of_bare heq]
  exact h.node old (List.mem_of_getElem? hold)

theorem Sized.cleared (g : HnswIndex F) : g.cleared.Sized := ⟨nofun, Nat.zero_le _⟩

theorem Sized.retire (h : g.Sized) : (g.retire id).Sized := by
  rcases nodes_retire g id with heq | heq
  · rw [heq]
    exact h
  · rw [heq]
    refine ⟨fun node hnode => ?_, h.maxLevel⟩
    obtain ⟨i, hi⟩ := List.mem_iff_getElem?.mp hnode
    obtain ⟨old, hold, rfl⟩ := Option.map_eq_some_iff.mp (List.getElem?_modify .. ▸ hi)
    have hsize := h.node old (List.mem_of_getElem? hold)
    split
    · exact hsize
    · exact hsize

theorem Sized.store (h : g.Sized) (hc : c < 256 ^ 4) (hlevel : level ≤ kMaxNodeLevel)
    (vector : List F) (norm : F) : (g.store c id vector norm level).Sized := by
  refine ⟨fun node hnode => ?_, h.maxLevel⟩
  cases List.mem_append.mp hnode with
  | inl hold => exact h.node node hold
  | inr hnew =>
    rw [List.mem_singleton.mp hnew]
    exact ⟨hlevel, hc⟩

theorem Sized.link (h : g.Sized) (hlevel : level ≤ kMaxNodeLevel) {vector : List F} {norm : F}
    (hlink : g.link fl vector norm id level = some g') : g'.Sized := by
  unfold HnswIndex.link at hlink
  split at hlink
  · cases hlink
    exact ⟨h.node, hlevel⟩
  · split at hlink
    · cases hlink
    · split at hlink
      · cases hlink
      · rename_i hconnect
        have hnodes := h.of_bare (connectDown_bare hconnect)
        split at hlink
        · cases hlink
          exact ⟨hnodes, hlevel⟩
        · cases hlink
          exact ⟨hnodes, h.maxLevel⟩

theorem randomLevel_le (draw : Nat) : randomLevel draw ≤ kMaxNodeLevel := by
  unfold randomLevel
  split <;> omega

theorem Sized.addLocked (h : g.Sized) (hc : c < 256 ^ 4) {vector : Nat → F}
    (hadd : g.addLocked fl c vector = some g') : g'.Sized := by
  unfold HnswIndex.addLocked at hadd
  dsimp only at hadd
  split at hadd
  · cases hadd
  · have hgrown : { g with compactToInternal := g.growMap c }.Sized := ⟨h.node, h.maxLevel⟩
    exact (hgrown.retire.store hc (randomLevel_le _) _ _).link (randomLevel_le _) hadd

theorem Sized.addAll {l : List (Nat × (Nat → F))} (h : g.Sized) (hl : ∀ p ∈ l, p.1 < 256 ^ 4)
    (hadd : g.addAll fl l = some g') : g'.Sized := by
  induction l generalizing g with
  | nil =>
    cases hadd
    exact h
  | cons p l ih =>
    unfold HnswIndex.addAll at hadd
    split at hadd
    · rename_i hone
      exact ih (h.addLocked (hl p List.mem_cons_self) hone)
        (fun q hq => hl q (List.mem_cons_of_mem p hq)) hadd
    · cases hadd

theorem Sized.maybeCompactLocked (h : g.Sized) (hmap : g.compactToInternal.length ≤ 256 ^ 4)
    (hcompact : g.maybeCompactLocked fl = some g') : g'.Sized := by
  unfold HnswIndex.maybeCompactLocked at hcompact
  split at hcompact
  · cases hcompact
    exact h
  · split at hcompact
    · cases hcompact
      exact h
    · refine (Sized.cleared g).addAll (fun p hp => ?_) hcompact
      obtain ⟨i, hi, heq⟩ := List.mem_filterMap.mp hp
      obtain ⟨v, -, rfl⟩ := Option.map_eq_some_iff.mp heq
      exact Nat.lt_of_lt_of_le (List.mem_range.mp hi) hmap

end HnswIndex

/-! ## 3. The indices that are reached -/

theorem uint32Max_lt : uint32Max < 256 ^ 4 := by decide

variable {fl : HnswMetric F} {g g' : HnswIndex F} {s : HnswContents F}

/-- The members are `uint32_t`. -/
structure HnswConfig.Sized (config : HnswConfig) : Prop where
  m : config.m < 256 ^ 4
  efConstruction : config.efConstruction < 256 ^ 4
  efSearch : config.efSearch < 256 ^ 4

/-- The contents of an index, and its sizes. -/
structure HnswIndex.SizedHolds (g : HnswIndex F) (s : HnswContents F) : Prop where
  holds : g.Holds s
  sized : g.Sized
  config : g.config.Sized

theorem HnswIndex.SizedHolds.step (fl : HnswMetric F) (h : g.SizedHolds s) (op : HnswOp F)
    (hop : g.BelowMax op) : ∃ g', g.step fl op = some g' ∧ g'.SizedHolds (s.apply op) := by
  obtain ⟨g', hstep, hholds⟩ := h.holds.step fl op hop
  have hinv := h.holds.1
  have hsmall : ∀ {g : HnswIndex F} {live : Nat → Option (List F)}, g.Inv live →
      g.compactToInternal.length ≤ 256 ^ 4 :=
    fun hinv => hinv.directory.fewIndices.trans uint32Max_lt.le
  refine ⟨g', hstep, hholds, ?_, ?_⟩
  · cases op with
    | add compactIndex vector =>
      obtain ⟨g₁, hadd, hinv₁, -⟩ := hinv.addLocked fl hop.1 hop.2 vector
      have hcompact : g₁.maybeCompactLocked fl = some g' := by
        simpa only [HnswIndex.step, HnswIndex.add, hadd] using hstep
      exact (h.sized.addLocked (hop.1.trans uint32Max_lt) hadd).maybeCompactLocked (hsmall hinv₁)
        hcompact
    | markDeleted compactIndex =>
      simp only [HnswIndex.step, HnswIndex.markDeleted] at hstep
      split at hstep
      · cases hstep
        exact h.sized
      · rename_i internalId hid
        split at hstep
        · cases hstep
          exact h.sized
        · split at hstep
          · cases hstep
          · split at hstep
            · cases hstep
              exact h.sized
            · exact h.sized.retire.maybeCompactLocked (hsmall (hinv.retire hid)) hstep
    | rebuild allVectors count dimension =>
      simp only [HnswIndex.step, HnswIndex.rebuild] at hstep
      split at hstep
      · cases hstep
        exact ⟨(HnswIndex.Sized.cleared g).1, Nat.zero_le _⟩
      · refine HnswIndex.Sized.addAll (g := { g.cleared with
          dimension := dimension.toNat
          compactToInternal := List.replicate count.toNat uint32Max })
            ⟨(HnswIndex.Sized.cleared g).1, Nat.zero_le _⟩ (fun p hp => ?_) hstep
        obtain ⟨i, hi, rfl⟩ := List.mem_map.mp hp
        exact (List.mem_range.mp hi).trans count.toNat_lt
  · suffices hconfig : g'.config = g.config by
      rw [hconfig]
      exact h.config
    cases op with
    | add compactIndex vector =>
      obtain ⟨g'', hadd, -, -, hconfig⟩ := hinv.add fl hop.1 hop.2 vector
      obtain rfl := Option.some.inj (hstep.symm.trans hadd)
      exact hconfig
    | markDeleted compactIndex =>
      obtain ⟨g'', hmark, -, -, hconfig⟩ := hinv.markDeleted fl compactIndex.toNat
      obtain rfl := Option.some.inj (hstep.symm.trans hmark)
      exact hconfig
    | rebuild allVectors count dimension =>
      obtain ⟨g'', hrebuild, -, -, hconfig⟩ := HnswIndex.Inv.rebuild fl g allVectors
        dimension.toNat (show count.toNat ≤ uint32Max from Nat.le_of_lt_succ count.toNat_lt)
      obtain rfl := Option.some.inj (hstep.symm.trans hrebuild)
      exact hconfig

/-- `SetEfSearch`. -/
def HnswIndex.setEfSearch (g : HnswIndex F) (efSearch : Nat) : HnswIndex F :=
  { g with config := { g.config with efSearch := efSearch } }

/-- What an index is called with between two streams. -/
inductive HnswCall (F : Type) where
  | op (op : HnswOp F)
  | setEfSearch (efSearch : UInt32)

def HnswIndex.call (fl : HnswMetric F) (g : HnswIndex F) : HnswCall F → Option (HnswIndex F)
  | .op op => g.step fl op
  | .setEfSearch efSearch => some (g.setEfSearch efSearch.toNat)

def HnswIndex.CallBelowMax (g : HnswIndex F) : HnswCall F → Prop
  | .op op => g.BelowMax op
  | .setEfSearch _ => True

instance (g : HnswIndex F) : DecidablePred g.CallBelowMax
  | .op op => inferInstanceAs (Decidable (g.BelowMax op))
  | .setEfSearch _ => isTrue trivial

/-- **The indices that are reached** by calls whose numbers stay below `UINT32_MAX`. -/
def HnswIndex.Reached (fl : HnswMetric F) (g : HnswIndex F) : Prop :=
  ∃ (config : HnswConfig) (dimension : Nat) (levelDraws : Nat → Nat) (calls : List (HnswCall F)),
    config.Sized ∧
      Meets (HnswIndex.call fl) HnswIndex.CallBelowMax (.new config dimension levelDraws) calls ∧
      run (HnswIndex.call fl) (.new config dimension levelDraws) calls = some g

/-- The width of the search is not part of the structure. -/
theorem HnswIndex.SizedHolds.setEfSearch (h : g.SizedHolds s) {efSearch : Nat}
    (hef : efSearch < 256 ^ 4) : (g.setEfSearch efSearch).SizedHolds s := by
  obtain ⟨⟨⟨hdir, hlinked, hno, hentry, hhigh⟩, hdim⟩, ⟨hnode, hmax⟩, hconfig⟩ := h
  exact ⟨⟨⟨⟨hdir.1, hdir.2, hdir.3, hdir.4, hdir.5, hdir.6, hdir.7⟩, hlinked, hno, hentry, hhigh⟩,
    hdim⟩, ⟨hnode, hmax⟩, ⟨hconfig.m, hconfig.efConstruction, hef⟩⟩

/-- An index that holds something, with its sizes. -/
def HnswIndex.Consistent (g : HnswIndex F) : Prop := ∃ s, g.SizedHolds s

theorem HnswIndex.Consistent.call (h : g.Consistent) {call : HnswCall F} (hok : g.CallBelowMax call)
    (hcall : g.call fl call = some g') : g'.Consistent := by
  obtain ⟨s, hs⟩ := h
  cases call with
  | op op =>
    obtain ⟨g'', hstep, hs'⟩ := hs.step fl op hok
    obtain rfl := Option.some.inj (hcall.symm.trans hstep)
    exact ⟨_, hs'⟩
  | setEfSearch efSearch =>
    cases hcall
    exact ⟨s, hs.setEfSearch efSearch.toNat_lt⟩

/-- **Every index that is reached has its sizes.** -/
theorem HnswIndex.Reached.consistent (h : g.Reached fl) : g.Consistent := by
  obtain ⟨config, dimension, levelDraws, calls, hconfig, hmeets, hrun⟩ := h
  have hnew : (HnswIndex.new config dimension levelDraws : HnswIndex F).Consistent :=
    ⟨_, HnswIndex.holds_new config dimension levelDraws, ⟨nofun, Nat.zero_le _⟩, hconfig⟩
  exact run_inv_of_meets (fun _ _ _ h hok hcall => h.call hok hcall) hnew hmeets hrun

end Nvecd.Vectors
