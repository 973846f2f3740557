/-
  File:      Nvecd/Vectors/VectorMap.lean
  Subject:   The vector store as what it is for: a map from ids to vectors.

  Slots, free lists and the numbering of ids are how the store keeps its vectors; `getVector` sees
  none of it. Here every operation is described by what it does to `getVector` and to the
  dimension, and two stores that agree on both are shown to answer alike from then on.

  * `slotOf` -- the slot of an id, and what the operations do to it;
  * `getVector_setVector`, `getVector_deleteVector`, `getVector_defragment`;
  * `Valid` -- what the store holds would be accepted again;
  * `SameVectors` -- one map and one dimension, with a lemma per operation.
-/
import Nvecd.Vectors.VectorStore

namespace Nvecd.Vectors.VectorStore

open Nvecd.Lib Nvecd.Storage Nvecd.Utils

variable {s t : VectorStore} {id : Bytes} {vec : List UInt32} {l2Norm : List UInt32 → UInt32}

/-! ## 1. What the operations do to the map -/

/-- The slot of an id. -/
def slotOf (s : VectorStore) (id : Bytes) : Option Slot :=
  (s.idToIdx.find? id).bind fun idx => s.slots[idx]?

theorem getVector_eq_slotOf (s : VectorStore) (id : Bytes) :
    s.getVector id = (s.slotOf id).bind fun e => if e.deleted then none else some e.row := by
  unfold getVector slotOf
  cases s.idToIdx.find? id with
  | none => rfl
  | some idx => cases h : s.slots[idx]? <;> simp [h]

/-- An id whose entry and slot stay keeps its slot. -/
theorem slotOf_congr (hmap : t.idToIdx.find? id = s.idToIdx.find? id)
    (hslots : ∀ j, s.idToIdx.find? id = some j → t.slots[j]? = s.slots[j]?) :
    t.slotOf id = s.slotOf id := by
  unfold slotOf
  rw [hmap]
  cases hf : s.idToIdx.find? id with
  | none => rfl
  | some j => simp only [Option.bind_some, hslots j hf]

/-- The slots of ids are the live ones. -/
theorem Inv.slotOf_eq_some (h : s.Inv) {e : Slot} :
    s.slotOf id = some e ↔ e ∈ s.liveSlots ∧ e.id = id := by
  constructor
  · intro hs
    obtain ⟨idx, hf, hslot⟩ := Option.bind_eq_some_iff.mp hs
    obtain ⟨e', he', hdel, hid⟩ := (h.live id idx).mp hf
    rw [hslot, Option.some.injEq] at he'
    subst he'
    exact ⟨mem_liveSlots.2 ⟨List.mem_of_getElem? hslot, hdel⟩, hid⟩
  · rintro ⟨he, hid⟩
    obtain ⟨hmem, hdel⟩ := mem_liveSlots.1 he
    obtain ⟨idx, hidx⟩ := List.mem_iff_getElem?.mp hmem
    have hf : s.idToIdx.find? id = some idx := (h.live id idx).mpr ⟨e, hidx, hdel, hid⟩
    exact Option.bind_eq_some_iff.mpr ⟨idx, hf, hidx⟩

/-- The vectors are those of the live slots. -/
theorem Inv.getVector_eq_some (h : s.Inv) :
    s.getVector id = some vec ↔ ∃ sl ∈ s.liveSlots, sl.id = id ∧ sl.row = vec := by
  rw [getVector_eq_slotOf, Option.bind_eq_some_iff]
  constructor
  · rintro ⟨e, hs, hrow⟩
    obtain ⟨he, hid⟩ := h.slotOf_eq_some.mp hs
    rw [(mem_liveSlots.1 he).2] at hrow
    exact ⟨e, he, hid, Option.some.inj hrow⟩
  · rintro ⟨e, he, hid, hrow⟩
    refine ⟨e, h.slotOf_eq_some.mpr ⟨he, hid⟩, ?_⟩
    rw [(mem_liveSlots.1 he).2, hrow]
    rfl

theorem Inv.mem_ids_iff_getVector (h : s.Inv) : id ∈ s.ids ↔ ∃ vec, s.getVector id = some vec := by
  rw [← h.mem_map_liveSlots, List.mem_map]
  constructor
  · rintro ⟨sl, hsl, hid⟩
    exact ⟨sl.row, h.getVector_eq_some.mpr ⟨sl, hsl, hid, rfl⟩⟩
  · rintro ⟨vec, hvec⟩
    obtain ⟨sl, hsl, hid, -⟩ := h.getVector_eq_some.mp hvec
    exact ⟨sl, hsl, hid⟩

theorem Inv.getVector_eq_none (h : s.Inv) : s.getVector id = none ↔ id ∉ s.ids := by
  rw [h.mem_ids_iff_getVector, Option.eq_none_iff_forall_ne_some, not_exists]

/-- Two ids do not share a slot. -/
theorem Inv.slot_injective (h : s.Inv) {id' : Bytes} {idx : Nat}
    (hf : s.idToIdx.find? id = some idx) (hf' : s.idToIdx.find? id' = some idx) : id' = id := by
  obtain ⟨sl, hsl, -, hid⟩ := (h.live id idx).mp hf
  obtain ⟨sl', hsl', -, hid'⟩ := (h.live id' idx).mp hf'
  rw [hsl, Option.some.injEq] at hsl'
  rw [← hid, ← hid', hsl']

/-- **A placed vector is in the slot of its id**, and the other ids keep theirs. -/
theorem Inv.slotOf_place (h : s.Inv) {norm : UInt32} {normalized : Bool} (id' : Bytes) :
    (s.place id vec norm normalized).slotOf id' =
      if id' = id then some ⟨id, vec, norm, normalized, false⟩ else s.slotOf id' := by
  unfold VectorStore.place
  cases hf : s.idToIdx.find? id with
  | some idx =>
    obtain ⟨sl, hsl, hdel, hid⟩ := (h.live id idx).mp hf
    by_cases hsame : id' = id
    · subst hsame
      rw [if_pos rfl]
      simp [slotOf, hf, hsl, hid, hdel]
    · rw [if_neg hsame]
      refine slotOf_congr rfl fun j hj => ?_
      have hne : idx ≠ j := fun he => hsame (h.slot_injective hf (he ▸ hj))
      simp [hne]
  | none =>
    cases hfree : s.freeSlots with
    | cons idx rest =>
      have hbur : s.Buried idx := (h.free idx).mp (by simp [hfree])
      by_cases hsame : id' = id
      · subst hsame
        obtain ⟨old, hold, -⟩ := hbur
        rw [if_pos rfl]
        simp [slotOf, hold]
      · rw [if_neg hsame]
        refine slotOf_congr (AssocMap.find?_insert_of_ne _ _ hsame) fun j hj => ?_
        have hne : idx ≠ j := fun he =>
          not_live_of_buried hbur (he ▸ (h.live id' j).mp hj)
        simp [hne]
    | nil =>
      by_cases hsame : id' = id
      · subst hsame
        rw [if_pos rfl]
        simp [slotOf]
      · rw [if_neg hsame]
        refine slotOf_congr (AssocMap.find?_insert_of_ne _ _ hsame) fun j hj => ?_
        obtain ⟨sl, hsl, -⟩ := (h.live id' j).mp hj
        exact List.getElem?_append_left (List.getElem?_eq_some_iff.mp hsl).1

theorem Inv.getVector_writeVector (h : s.Inv) (id' : Bytes) :
    (s.writeVector l2Norm id vec).getVector id' = if id' = id then some vec else s.getVector id' := by
  rw [writeVector_eq_place, getVector_eq_slotOf, getVector_eq_slotOf, h.slotOf_place]
  split <;> rfl

/-- An accepted vector fixes the dimension to its length. -/
theorem setVector_eq (h : s.validateVector l2Norm id vec = .ok ()) :
    s.setVector l2Norm id vec =
      ({ s with dimension := vec.length }.writeVector l2Norm id vec, .ok ()) := by
  obtain ⟨-, -, -, -, -, hdim⟩ := validateVector_ok h
  have heq : (if s.dimension = 0 then vec.length else s.dimension) = vec.length := by
    split <;> omega
  simp only [setVector, h, heq, ne_eq, not_true_eq_false, if_false]

theorem Inv.withDimension (h : s.Inv) {n : Nat} (hn : n ≠ 0) : Inv { s with dimension := n } :=
  ⟨h.live, h.free, h.nodupFree, h.active, h.tombstones, fun _ => hn⟩

/-- **`SetVector` assigns the vector**, if it accepts it, and fixes the dimension. -/
theorem Inv.getVector_setVector (h : s.Inv) (hok : s.validateVector l2Norm id vec = .ok ())
    (id' : Bytes) : (s.setVector l2Norm id vec).1.getVector id' =
      if id' = id then some vec else s.getVector id' := by
  obtain ⟨-, hlen, -⟩ := validateVector_ok hok
  rw [setVector_eq hok]
  exact (h.withDimension hlen).getVector_writeVector id'

theorem dimension_place {norm : UInt32} {normalized : Bool} :
    (s.place id vec norm normalized).dimension = s.dimension := by
  unfold place
  cases s.idToIdx.find? id with
  | some idx => rfl
  | none => cases s.freeSlots <;> rfl

theorem dimension_writeVector : (s.writeVector l2Norm id vec).dimension = s.dimension :=
  dimension_place

theorem dimension_setVector (h : s.validateVector l2Norm id vec = .ok ()) :
    (s.setVector l2Norm id vec).1.dimension = vec.length := by
  rw [setVector_eq h]
  exact dimension_writeVector

/-- Compaction moves slots, and changes none. -/
theorem Inv.slotOf_defragmentLocked (h : s.Inv) (id' : Bytes) :
    s.defragmentLocked.slotOf id' = s.slotOf id' := by
  have hlive : s.defragmentLocked.liveSlots = s.liveSlots := by
    unfold VectorStore.defragmentLocked
    split
    · rename_i h0
      symm
      show s.liveSlots = []
      rw [List.eq_nil_iff_forall_not_mem]
      intro sl hsl
      have hin : sl.id ∈ s.ids := h.mem_map_liveSlots.mp (List.mem_map_of_mem hsl)
      rw [h.ids_eq_nil h0] at hin
      cases hin
    · simp [liveSlots]
  ext e
  rw [h.defragmentLocked.slotOf_eq_some, h.slotOf_eq_some, hlive]

theorem Inv.getVector_defragmentLocked (h : s.Inv) (id' : Bytes) :
    s.defragmentLocked.getVector id' = s.getVector id' := by
  rw [getVector_eq_slotOf, getVector_eq_slotOf, h.slotOf_defragmentLocked]

theorem dimension_defragmentLocked : s.defragmentLocked.dimension = s.dimension := by
  unfold defragmentLocked
  split <;> rfl

/-- **Compaction changes no vector.** -/
theorem Inv.getVector_defragment (h : s.Inv) (id' : Bytes) :
    s.defragment.getVector id' = s.getVector id' := h.getVector_defragmentLocked id'

theorem dimension_defragment : s.defragment.dimension = s.dimension := dimension_defragmentLocked

theorem Inv.slotOf_bury (h : s.Inv) {idx : Nat} (hf : s.idToIdx.find? id = some idx)
    (id' : Bytes) : (s.bury id idx).slotOf id' = if id' = id then none else s.slotOf id' := by
  by_cases hid : id' = id
  · subst hid
    rw [if_pos rfl]
    simp [slotOf, VectorStore.bury, AssocMap.find?_erase]
  · rw [if_neg hid]
    refine slotOf_congr ((AssocMap.find?_erase _ _ _).trans (if_neg hid)) fun j hj => ?_
    have hne : idx ≠ j := fun he => hid (h.slot_injective hf (he ▸ hj))
    show (s.slots.modify idx _)[j]? = _
    simp [hne]

/-- **`DeleteVector` removes the slot of the id** and leaves the others. -/
theorem Inv.slotOf_deleteVector (h : s.Inv) (id' : Bytes) :
    (s.deleteVector id).1.slotOf id' = if id' = id then none else s.slotOf id' := by
  unfold VectorStore.deleteVector
  cases hf : s.idToIdx.find? id with
  | none =>
    by_cases hid : id' = id
    · subst hid
      rw [if_pos rfl]
      simp [slotOf, hf]
    · rw [if_neg hid]
  | some idx =>
    show slotOf { (if _ then _ else _ : VectorStore) with generation := _ } id' = _
    split
    · exact ((h.bury hf).slotOf_defragmentLocked id').trans (h.slotOf_bury hf id')
    · exact h.slotOf_bury hf id'

/-- **`DeleteVector` removes the vector** and leaves the others. -/
theorem Inv.getVector_deleteVector (h : s.Inv) (id' : Bytes) :
    (s.deleteVector id).1.getVector id' = if id' = id then none else s.getVector id' := by
  rw [getVector_eq_slotOf, getVector_eq_slotOf, h.slotOf_deleteVector]
  split <;> rfl

/-- An emptied store keeps its dimension. -/
theorem dimension_deleteVector : (s.deleteVector id).1.dimension = s.dimension := by
  unfold deleteVector
  cases s.idToIdx.find? id with
  | none => rfl
  | some idx =>
    show (if _ then _ else _ : VectorStore).dimension = _
    split
    · exact dimension_defragmentLocked
    · rfl

/-! ## 2. What is held would be accepted again -/

/-- What `ValidateVector` accepts, the other way round. -/
theorem validateVector_eq_ok (hid : id ≠ []) (hvec : vec.length ≠ 0)
    (hlen : vec.length ≤ kMaxVectorDimension) (hall : vec.all isFiniteFloat = true)
    (hnorm : isFiniteFloat (l2Norm vec) = true)
    (hdim : s.dimension = 0 ∨ vec.length = s.dimension) :
    s.validateVector l2Norm id vec = .ok () := by
  have hne : vec ≠ [] := fun he => hvec (he ▸ rfl)
  have hd : ¬ (s.dimension > 0 ∧ vec.length ≠ s.dimension) := by omega
  unfold validateVector
  rw [if_neg hid, if_neg hne, if_neg (Nat.not_lt.mpr hlen), if_neg (not_not.mpr hall),
    if_neg (not_not.mpr hnorm), if_neg hd]

/-- The vectors of the store are of its dimension, finite and of finite norm, under an id. -/
structure Valid (l2Norm : List UInt32 → UInt32) (s : VectorStore) : Prop where
  id : ∀ id vec, s.getVector id = some vec → id ≠ []
  length : ∀ id vec, s.getVector id = some vec → vec.length = s.dimension
  finite : ∀ id vec, s.getVector id = some vec → vec.all isFiniteFloat = true
  norm : ∀ id vec, s.getVector id = some vec → isFiniteFloat (l2Norm vec) = true
  bounded : s.dimension ≤ kMaxVectorDimension

theorem Valid.empty : Valid l2Norm {} :=
  ⟨nofun, nofun, nofun, nofun, Nat.zero_le _⟩

theorem Inv.clear (s : VectorStore) : s.clear.Inv where
  live := by simp [Live, VectorStore.clear]
  free := by simp [Buried, VectorStore.clear]
  nodupFree := List.nodup_nil
  active := rfl
  tombstones := rfl
  dimensioned := by simp [AssocMap.size, AssocMap.empty, VectorStore.clear]

theorem Valid.clear (s : VectorStore) : s.clear.Valid l2Norm :=
  ⟨nofun, nofun, nofun, nofun, Nat.zero_le _⟩

/-- Fewer vectors of the same dimension. -/
theorem Valid.shrink (h : s.Valid l2Norm) (hdim : t.dimension = s.dimension)
    (hmap : ∀ id vec, t.getVector id = some vec → s.getVector id = some vec) :
    t.Valid l2Norm where
  id i v hv := h.id i v (hmap i v hv)
  length i v hv := hdim ▸ h.length i v (hmap i v hv)
  finite i v hv := h.finite i v (hmap i v hv)
  norm i v hv := h.norm i v (hmap i v hv)
  bounded := hdim ▸ h.bounded

theorem Valid.setVector (h : s.Valid l2Norm) (hi : s.Inv) :
    (s.setVector l2Norm id vec).1.Valid l2Norm := by
  cases hv : s.validateVector l2Norm id vec with
  | error e => rw [setVector_error hv]; exact h
  | ok u =>
    obtain ⟨hid, hpos, hlen, hall, hnorm, hdim⟩ := validateVector_ok hv
    -- what is there afterwards is the new vector, or was there and so fixed the dimension
    have hcases : ∀ i v, (s.setVector l2Norm id vec).1.getVector i = some v →
        i = id ∧ v = vec ∨ s.getVector i = some v := by
      intro i v hg
      rw [hi.getVector_setVector hv] at hg
      split at hg
      · exact .inl ⟨‹_›, (Option.some.inj hg).symm⟩
      · exact .inr hg
    have hkept : ∀ i v, s.getVector i = some v → vec.length = s.dimension := by
      intro i v hg
      have hin : i ∈ s.ids := hi.mem_ids_iff_getVector.mpr ⟨v, hg⟩
      refine hdim.resolve_left fun h0 => ?_
      rw [hi.ids_eq_nil (.inl h0)] at hin
      cases hin
    constructor
    · intro i v hg
      obtain ⟨rfl, -⟩ | hg := hcases i v hg
      · exact hid
      · exact h.id i v hg
    · intro i v hg
      rw [dimension_setVector hv]
      obtain ⟨-, rfl⟩ | hg := hcases i v hg
      · rfl
      · rw [hkept i v hg, h.length i v hg]
    · intro i v hg
      obtain ⟨-, rfl⟩ | hg := hcases i v hg
      · exact hall
      · exact h.finite i v hg
    · intro i v hg
      obtain ⟨-, rfl⟩ | hg := hcases i v hg
      · exact hnorm
      · exact h.norm i v hg
    · rw [dimension_setVector hv]
      exact hlen

theorem Valid.deleteVector (h : s.Valid l2Norm) (hi : s.Inv) :
    (s.deleteVector id).1.Valid l2Norm := by
  refine h.shrink dimension_deleteVector fun i v hg => ?_
  rw [hi.getVector_deleteVector] at hg
  split at hg
  · cases hg
  · exact hg

theorem Valid.defragment (h : s.Valid l2Norm) (hi : s.Inv) : s.defragment.Valid l2Norm :=
  h.shrink dimension_defragment fun i _ hg => hi.getVector_defragment i ▸ hg

/-! ## 3. Stores with one map -/

/-- Two stores with the same vectors and the same dimension, however they keep them. -/
structure SameVectors (s t : VectorStore) : Prop where
  invLeft : s.Inv
  invRight : t.Inv
  vectors : ∀ id, t.getVector id = s.getVector id
  dimension : t.dimension = s.dimension

theorem SameVectors.mem_ids (h : SameVectors s t) : id ∈ t.ids ↔ id ∈ s.ids := by
  rw [h.invRight.mem_ids_iff_getVector, h.invLeft.mem_ids_iff_getVector, h.vectors]

theorem SameVectors.getVectorCount (h : SameVectors s t) :
    t.getVectorCount = s.getVectorCount := by
  show t.activeCount = s.activeCount
  rw [h.invRight.active, h.invLeft.active]
  exact AssocMap.size_eq_of_mem_keys fun id => h.mem_ids

/-- The dimension is all that `ValidateVector` knows of the store. -/
theorem SameVectors.validateVector (h : SameVectors s t) :
    t.validateVector l2Norm id vec = s.validateVector l2Norm id vec := by
  unfold VectorStore.validateVector
  rw [h.dimension]

theorem SameVectors.setVector (h : SameVectors s t) :
    (t.setVector l2Norm id vec).2 = (s.setVector l2Norm id vec).2 ∧
      SameVectors (s.setVector l2Norm id vec).1 (t.setVector l2Norm id vec).1 := by
  cases hv : s.validateVector l2Norm id vec with
  | error e =>
    have hv' : t.validateVector l2Norm id vec = .error e := h.validateVector.trans hv
    rw [setVector_error hv, setVector_error hv']
    exact ⟨rfl, h⟩
  | ok u =>
    have hv' : t.validateVector l2Norm id vec = .ok () := h.validateVector.trans hv
    refine ⟨by rw [setVector_eq hv, setVector_eq hv'], h.invLeft.setVector, h.invRight.setVector,
      fun id' => ?_, ?_⟩
    · rw [h.invRight.getVector_setVector hv', h.invLeft.getVector_setVector hv, h.vectors]
    · rw [dimension_setVector hv', dimension_setVector hv]

theorem SameVectors.deleteVector (h : SameVectors s t) :
    (t.deleteVector id).2 = (s.deleteVector id).2 ∧
      SameVectors (s.deleteVector id).1 (t.deleteVector id).1 := by
  constructor
  · rw [Bool.eq_iff_iff, deleteVector_snd, deleteVector_snd, h.mem_ids]
  · refine ⟨h.invLeft.deleteVector, h.invRight.deleteVector, fun id' => ?_, ?_⟩
    · rw [h.invRight.getVector_deleteVector, h.invLeft.getVector_deleteVector, h.vectors]
    · rw [dimension_deleteVector, dimension_deleteVector, h.dimension]

theorem SameVectors.defragment (h : SameVectors s t) : SameVectors s.defragment t.defragment where
  invLeft := h.invLeft.defragment
  invRight := h.invRight.defragment
  vectors id' := by
    rw [h.invRight.getVector_defragment, h.invLeft.getVector_defragment, h.vectors]
  dimension := by rw [dimension_defragment, dimension_defragment, h.dimension]

end Nvecd.Vectors.VectorStore
