/-
  File:      Nvecd/Vectors/HnswNorms.lean
  Subject:   The norms that `vectors/hnsw_index.cpp` keeps beside the vectors.

  A search with the shortcut for the cosine does not compute the norm of a vector again, it reads
  it. Every vector is stored with its norm, and nothing else writes norms; so the score of a node
  is that of its vector (`Normed.computeDistance_eq`).
-/
import Nvecd.Vectors.HnswInvariant

namespace Nvecd.Vectors

open Nvecd.Lib

variable {F : Type} {fl : HnswMetric F} {g g' : HnswIndex F} {live : Nat → Option (List F)}
  {c : Nat}

/-- The score of a vector that is kept with its norm. -/
def HnswMetric.scoreOf (fl : HnswMetric F) (query vector : List F) : F :=
  if fl.useCosinePrenorm then
    fl.cosineSimilarityPreNorm query vector (fl.l2Norm query) (fl.l2Norm vector)
  else fl.distanceFunc query vector

namespace HnswIndex

/-- **Beside each vector is its norm.** -/
structure Normed (fl : HnswMetric F) (g : HnswIndex F) : Prop where
  length : g.vectorNorms.length = g.nodes.length
  norm : ∀ id, id < g.nodes.length → g.normOf fl id = queryNormOf fl (g.getNodeVector id)

theorem Normed.computeDistance_eq (h : g.Normed fl) {id : Nat} (hid : id < g.nodes.length)
    (query : List F) :
    g.computeDistance fl query (queryNormOf fl query) id =
      fl.scoreOf query (g.getNodeVector id) := by
  have hnorm := h.norm id hid
  unfold computeDistance HnswMetric.scoreOf
  unfold queryNormOf at hnorm ⊢
  split
  · rename_i hcosine
    rw [if_pos hcosine] at hnorm
    rw [hnorm]
  · rfl

theorem Normed.cleared (g : HnswIndex F) : g.cleared.Normed fl := ⟨rfl, nofun⟩

/-- Retiring a node leaves its vector. -/
theorem Normed.retire (h : g.Normed fl) (id : Nat) : (g.retire id).Normed fl := by
  rcases nodes_retire g id with he | he
  · rw [he]
    exact h
  · rw [he]
    refine ⟨h.length.trans (List.length_modify _ _ _).symm, fun i hi => ?_⟩
    rw [List.length_modify] at hi
    exact h.norm i hi

/-- Linking leaves the vectors. -/
theorem link_vectors {vector : List F} {norm : F} {id level : Nat}
    (h : g.link fl vector norm id level = some g') :
    g'.vectors = g.vectors ∧ g'.vectorNorms = g.vectorNorms := by
  unfold link at h
  split at h
  · obtain rfl := Option.some.inj h
    exact ⟨rfl, rfl⟩
  · split at h
    · cases h
    · split at h
      · cases h
      · split at h
        · obtain rfl := Option.some.inj h
          exact ⟨rfl, rfl⟩
        · obtain rfl := Option.some.inj h
          exact ⟨rfl, rfl⟩

/-- A vector is stored behind the others, with its norm. -/
theorem addLocked_vectors {vector : Nat → F} (h : g.addLocked fl c vector = some g') :
    g'.vectors = g.vectors ++ readFloats vector g.dimension ∧
      g'.vectorNorms = g.vectorNorms ++ [queryNormOf fl (readFloats vector g.dimension)] := by
  unfold addLocked at h
  dsimp only at h
  split at h
  · cases h
  · rename_i previous _
    obtain ⟨hvectors, hnorms⟩ := link_vectors h
    rw [hvectors, hnorms]
    rcases nodes_retire { g with compactToInternal := g.growMap c } previous with he | he
    · rw [he]
      exact ⟨rfl, rfl⟩
    · rw [he]
      exact ⟨rfl, rfl⟩

theorem Normed.addLocked (hn : g.Normed fl) (h : g.Inv live) (hc : c < uint32Max)
    (hfew : g.nodes.length < uint32Max) {vector : Nat → F}
    (hadd : g.addLocked fl c vector = some g') : g'.Normed fl := by
  obtain ⟨g₁, hadd₁, -, hdim, -, hlen⟩ := h.addLocked fl hc hfew vector
  obtain rfl := Option.some.inj (hadd.symm.trans hadd₁)
  obtain ⟨hvectors, hnorms⟩ := addLocked_vectors hadd
  have hrows := h.directory.rows
  refine ⟨by rw [hnorms, hlen, List.length_append, hn.length, List.length_singleton], ?_⟩
  intro id hid
  unfold normOf getNodeVector
  rw [hnorms, hvectors, hdim]
  rcases Nat.lt_or_eq_of_le (Nat.le_of_lt_succ (hlen ▸ hid)) with hold | rfl
  · rw [List.getElem?_append_left (by rw [hn.length]; exact hold), rowAt_append_left]
    · exact hn.norm id hold
    · rw [hrows]
      exact Nat.mul_le_mul_right g.dimension hold
  · rw [List.getElem?_append_right hn.length.le, hn.length, Nat.sub_self,
      rowAt_append_self hrows (length_readFloats vector g.dimension)]
    rfl

theorem Normed.addAll (hn : g.Normed fl) (h : g.Inv live) {l : List (Nat × (Nat → F))}
    (hl : ∀ p ∈ l, p.1 < uint32Max) (hfew : g.nodes.length + l.length ≤ uint32Max)
    (hall : g.addAll fl l = some g') : g'.Normed fl := by
  induction l generalizing g live with
  | nil => exact Option.some.inj hall ▸ hn
  | cons p l ih =>
    rw [List.length_cons] at hfew
    have hp := hl p List.mem_cons_self
    obtain ⟨g₁, hadd, hinv, -, -, hlen⟩ := h.addLocked fl hp (by omega) p.2
    simp only [HnswIndex.addAll, hadd] at hall
    exact ih (hn.addLocked h hp (by omega) hadd) hinv
      (fun q hq => hl q (List.mem_cons_of_mem p hq)) (by omega) hall

theorem Normed.maybeCompactLocked (hn : g.Normed fl) (h : g.Inv live)
    (hcompact : g.maybeCompactLocked fl = some g') : g'.Normed fl := by
  unfold HnswIndex.maybeCompactLocked at hcompact
  split at hcompact
  · exact Option.some.inj hcompact ▸ hn
  · split at hcompact
    · exact Option.some.inj hcompact ▸ hn
    · refine (Normed.cleared g).addAll (Inv.cleared g) h.directory.liveVectors_lt ?_ hcompact
      show 0 + _ ≤ uint32Max
      rw [Nat.zero_add]
      exact Nat.le_trans (length_filterMap_range_le _ _) h.directory.fewIndices

/-- **`Add`** stores the norm of the vector. -/
theorem Normed.add (hn : g.Normed fl) (h : g.Inv live) (hc : c < uint32Max)
    (hfew : g.nodes.length < uint32Max) {vector : Nat → F}
    (hadd : g.add fl c vector = some g') : g'.Normed fl := by
  obtain ⟨g₁, hadd₁, hinv, -⟩ := h.addLocked fl hc hfew vector
  simp only [HnswIndex.add, hadd₁] at hadd
  exact (hn.addLocked h hc hfew hadd₁).maybeCompactLocked hinv hadd

/-- **`MarkDeleted`** leaves the norms. -/
theorem Normed.markDeleted (hn : g.Normed fl) (h : g.Inv live)
    (hmark : g.markDeleted fl c = some g') : g'.Normed fl := by
  unfold HnswIndex.markDeleted at hmark
  split at hmark
  · exact Option.some.inj hmark ▸ hn
  · rename_i id hid
    split at hmark
    · exact Option.some.inj hmark ▸ hn
    · split at hmark
      · cases hmark
      · split at hmark
        · exact Option.some.inj hmark ▸ hn
        · exact (hn.retire id).maybeCompactLocked (h.retire hid) hmark

end HnswIndex

end Nvecd.Vectors
