/-
  File:      Nvecd/Vectors/CompactStore.lean
  Subject:   `vectors/vector_store.cpp` on its own arrays, and the finite map it implements.

  Three levels: the arrays of the source (`CompactStore`), a list of slots with the same ids, rows
  and marks (`VectorStore`, of which the invariant is known), and a map from ids to vectors
  (`MapStore`). `Represents` connects the first two, `Refines` all three.

  * `CompactStore`, its operations and `copySlot`, the body of the loop that compacts;
  * `Represents.store`, `Represents.deleteVector`, `Represents.defragmentLocked` -- the arrays do
    what the slots do;
  * `MapStore` -- what the store is for;
  * `Consistent` -- what the arrays owe one another;
  * `store_refines_map`.
-/
import Nvecd.Lib.FlatMatrix
import Nvecd.Lib.Machine
import Nvecd.Vectors.VectorMap

namespace Nvecd.Vectors

open Nvecd.Lib Nvecd.Storage Nvecd.Utils

/-! ## 1. The arrays -/

/-- The members of `VectorStore`; `free_slots_` as it is, its back last. -/
structure CompactStore where
  matrix : List UInt32 := []
  norms : List UInt32 := []
  normalized : List Bool := []
  idToIdx : AssocMap Bytes Nat := .empty
  idxToId : List Bytes := []
  deleted : List Bool := []
  freeSlots : List Nat := []
  activeCount : Nat := 0
  tombstoneCount : Nat := 0
  dimension : Nat := 0
  generation : Nat := 0

/-- The `float` operations of `SetVector`. -/
structure VectorFloats where
  /-- `simd::GetOptimalImpl().l2_norm`. -/
  l2Norm : List UInt32 → UInt32
  /-- `norm < 1e-7F`. -/
  tiny : UInt32 → Bool
  divide : UInt32 → UInt32 → UInt32

/-- `Normalize`. -/
def VectorFloats.normalize (fl : VectorFloats) (vec : List UInt32) : Option (List UInt32) :=
  let norm := fl.l2Norm vec
  if fl.tiny norm then none else some (vec.map fun x => fl.divide x norm)

/-- The new arrays of a compaction, and the index of the next slot in them. -/
structure Compaction where
  matrix : List UInt32
  norms : List UInt32
  normalized : List Bool
  idToIdx : AssocMap Bytes Nat
  idxToId : List Bytes
  newIdx : Nat

namespace CompactStore

/-- `ValidateVector`; of the store it reads the dimension. -/
def validateVector (fl : VectorFloats) (c : CompactStore) (id : Bytes) (vec : List UInt32) :
    Except Error Unit :=
  VectorStore.validateVector fl.l2Norm { dimension := c.dimension } id vec

/-- What `SetVector` writes once the dimension is settled. -/
def store (fl : VectorFloats) (c : CompactStore) (id : Bytes) (data : List UInt32)
    (normalize : Bool) : CompactStore :=
  match c.idToIdx.find? id with
  | some idx =>
    { c with
      matrix := overwrite (idx * c.dimension) data c.matrix
      norms := c.norms.set idx (fl.l2Norm data)
      normalized := c.normalized.set idx normalize
      generation := c.generation + 1 }
  | none =>
    match c.freeSlots.getLast? with
    | some idx =>
      { c with
        freeSlots := c.freeSlots.dropLast
        deleted := c.deleted.set idx false
        tombstoneCount := c.tombstoneCount - 1
        matrix := overwrite (idx * c.dimension) data c.matrix
        norms := c.norms.set idx (fl.l2Norm data)
        normalized := c.normalized.set idx normalize
        idxToId := c.idxToId.set idx id
        idToIdx := c.idToIdx.insert id idx
        activeCount := c.activeCount + 1
        generation := c.generation + 1 }
    | none =>
      let idx := c.idxToId.length
      { c with
        matrix := overwrite (idx * c.dimension) data
          (c.matrix ++ List.replicate c.dimension 0)
        norms := c.norms ++ [fl.l2Norm data]
        normalized := c.normalized ++ [normalize]
        idxToId := c.idxToId ++ [id]
        deleted := c.deleted ++ [false]
        idToIdx := c.idToIdx.insert id idx
        activeCount := c.activeCount + 1
        generation := c.generation + 1 }

/-- `SetVector`. -/
def setVector (fl : VectorFloats) (c : CompactStore) (id : Bytes) (vec : List UInt32)
    (normalize : Bool) : CompactStore × Except Error Unit :=
  match c.validateVector fl id vec with
  | .error e => (c, .error e)
  | .ok () =>
    match if normalize then fl.normalize vec else some vec with
    | none => (c, .error (makeError .kInvalidArgument "Cannot normalize zero vector"))
    | some data =>
      let c := if c.dimension = 0 then { c with dimension := data.length } else c
      if data.length ≠ c.dimension then (c, .error (dimensionMismatch c.dimension data.length))
      else (c.store fl id data normalize, .ok ())

/-- `GetVector`: the components and the mark. -/
def getVector (c : CompactStore) (id : Bytes) : Option (List UInt32 × Bool) :=
  match c.idToIdx.find? id with
  | none => none
  | some idx =>
    if c.deleted.getD idx false then none
    else some (rowAt c.dimension c.matrix idx, c.normalized.getD idx false)

/-- `HasVector`. -/
def hasVector (c : CompactStore) (id : Bytes) : Bool := c.idToIdx.contains id

/-- `GetAllIds`, in the order of the hash map. -/
def getAllIds (c : CompactStore) : List Bytes := c.idToIdx.keys

/-- `GetVectorCount`. -/
def getVectorCount (c : CompactStore) : Nat := c.activeCount

/-- One turn of the loop of `DefragmentLocked`. -/
def copySlot (c : CompactStore) (d : Compaction) (oldIdx : Nat) : Compaction :=
  if c.deleted.getD oldIdx false then d
  else
    { matrix := overwrite (d.newIdx * c.dimension) (rowAt c.dimension c.matrix oldIdx) d.matrix
      norms := d.norms.set d.newIdx (c.norms.getD oldIdx 0)
      normalized := d.normalized.set d.newIdx (c.normalized.getD oldIdx false)
      idxToId := d.idxToId ++ [c.idxToId.getD oldIdx []]
      idToIdx := d.idToIdx.insert (c.idxToId.getD oldIdx []) d.newIdx
      newIdx := d.newIdx + 1 }

/-- `DefragmentLocked`. -/
def defragmentLocked (c : CompactStore) : CompactStore :=
  if c.dimension = 0 ∨ c.activeCount = 0 then
    { c with
      matrix := [], norms := [], normalized := [], idToIdx := .empty, idxToId := [], deleted := []
      freeSlots := [], activeCount := 0, tombstoneCount := 0 }
  else
    let newN := c.activeCount
    let d := (List.range c.idxToId.length).foldl c.copySlot
      { matrix := List.replicate (newN * c.dimension) 0
        norms := List.replicate newN 0
        normalized := List.replicate newN false
        idToIdx := .empty
        idxToId := []
        newIdx := 0 }
    { c with
      matrix := d.matrix
      norms := d.norms
      normalized := d.normalized
      idToIdx := d.idToIdx
      idxToId := d.idxToId
      deleted := List.replicate newN false
      freeSlots := []
      tombstoneCount := 0 }

/-- `Defragment`. -/
def defragment (c : CompactStore) : CompactStore :=
  let c := c.defragmentLocked
  { c with generation := c.generation + 1 }

/-- The slot of a vector becomes a tombstone. -/
def bury (c : CompactStore) (id : Bytes) (idx : Nat) : CompactStore :=
  { c with
    deleted := c.deleted.set idx true
    freeSlots := c.freeSlots ++ [idx]
    idToIdx := c.idToIdx.erase id
    activeCount := c.activeCount - 1
    tombstoneCount := c.tombstoneCount + 1 }

/-- `DeleteVector`. -/
def deleteVector (c : CompactStore) (id : Bytes) : CompactStore × Bool :=
  match c.idToIdx.find? id with
  | none => (c, false)
  | some idx =>
    let c := c.bury id idx
    let c :=
      if c.idxToId.length > 0 ∧ c.tombstoneCount * 4 > c.idxToId.length then c.defragmentLocked
      else c
    ({ c with generation := c.generation + 1 }, true)

/-- `Clear`. -/
def clear (c : CompactStore) : CompactStore := { generation := c.generation + 1 }

/-- `SwapState` of two stores; the generations stay where they are. -/
def swapState (c other : CompactStore) : CompactStore × CompactStore :=
  ({ other with generation := c.generation + 1 }, { c with generation := other.generation + 1 })

end CompactStore

/-! ## 2. Arrays and slots -/

/-- **The arrays hold the slots.** -/
structure Represents (c : CompactStore) (s : VectorStore) : Prop where
  matrix : c.matrix = (s.slots.map Slot.row).flatten
  norms : c.norms = s.slots.map Slot.norm
  normalized : c.normalized = s.slots.map Slot.normalized
  idxToId : c.idxToId = s.slots.map Slot.id
  deleted : c.deleted = s.slots.map Slot.deleted
  idToIdx : c.idToIdx = s.idToIdx
  freeSlots : c.freeSlots = s.freeSlots.reverse
  activeCount : c.activeCount = s.activeCount
  tombstoneCount : c.tombstoneCount = s.tombstoneCount
  dimension : c.dimension = s.dimension
  generation : c.generation = s.generation
  rows : ∀ sl ∈ s.slots, sl.row.length = s.dimension

namespace Represents

variable {c : CompactStore} {s : VectorStore} {fl : VectorFloats} {id : Bytes}
  {data : List UInt32} {normalize : Bool}

theorem empty : Represents {} {} :=
  ⟨rfl, rfl, rfl, rfl, rfl, rfl, rfl, rfl, rfl, rfl, rfl, nofun⟩

theorem row_length (h : Represents c s) : ∀ r ∈ s.slots.map Slot.row, r.length = s.dimension := by
  intro r hr
  obtain ⟨sl, hsl, rfl⟩ := List.mem_map.mp hr
  exact h.rows sl hsl

theorem length_idxToId (h : Represents c s) : c.idxToId.length = s.slots.length := by
  rw [h.idxToId, List.length_map]

theorem rowAt_matrix (h : Represents c s) {idx : Nat} {e : Slot} (he : s.slots[idx]? = some e) :
    rowAt c.dimension c.matrix idx = e.row := by
  rw [h.matrix, h.dimension]
  exact rowAt_flatten h.row_length (by rw [List.getElem?_map, he]; rfl)

theorem getD_deleted (h : Represents c s) {idx : Nat} {e : Slot} (he : s.slots[idx]? = some e) :
    c.deleted.getD idx false = e.deleted := by
  rw [h.deleted, List.getD_eq_getElem?_getD, List.getElem?_map, he]
  rfl

theorem getD_normalized (h : Represents c s) {idx : Nat} {e : Slot}
    (he : s.slots[idx]? = some e) : c.normalized.getD idx false = e.normalized := by
  rw [h.normalized, List.getD_eq_getElem?_getD, List.getElem?_map, he]
  rfl

/-- A slot that is overwritten in place, in all arrays. -/
theorem overwrite_matrix (h : Represents c s) {idx : Nat} (hidx : idx < s.slots.length)
    {f : Slot → Slot} (hf : ∀ e, (f e).row = data) (hlen : data.length = s.dimension) :
    overwrite (idx * c.dimension) data c.matrix =
      ((s.slots.modify idx f).map Slot.row).flatten := by
  rw [h.matrix, h.dimension, map_modify_field hf]
  exact overwrite_flatten h.row_length (by rwa [List.length_map]) hlen

theorem rows_modify (h : Represents c s) {idx : Nat} {f : Slot → Slot}
    (hf : ∀ e, (f e).row = data) (hlen : data.length = s.dimension) :
    ∀ e ∈ s.slots.modify idx f, e.row.length = s.dimension := by
  intro e he
  obtain ⟨j, hj⟩ := List.mem_iff_getElem?.mp he
  rw [VectorStore.modify_getElem?] at hj
  split at hj
  · obtain ⟨e', -, rfl⟩ := Option.map_eq_some_iff.mp hj
    rw [hf, hlen]
  · exact h.rows e (List.mem_of_getElem? hj)

/-- **`SetVector` writes the arrays as a slot is written.** -/
theorem store (h : Represents c s) (hinv : s.Inv) (hlen : data.length = s.dimension) :
    Represents (c.store fl id data normalize)
      (s.place id data (fl.l2Norm data) normalize) := by
  cases hf : s.idToIdx.find? id with
  | some idx =>
    obtain ⟨e, he, -⟩ := (hinv.live id idx).mp hf
    have hidx : idx < s.slots.length := (List.getElem?_eq_some_iff.mp he).1
    have hc : c.idToIdx.find? id = some idx := by rw [h.idToIdx, hf]
    simp only [CompactStore.store, VectorStore.place, hc, hf]
    exact {
      h with
      matrix := h.overwrite_matrix hidx (fun _ => rfl) hlen
      norms := by
        rw [h.norms, ← map_modify_field]
        exact fun _ => rfl
      normalized := by
        rw [h.normalized, ← map_modify_field]
        exact fun _ => rfl
      idxToId := by
        rw [h.idxToId, map_modify_other]
        exact fun _ => rfl
      deleted := by
        rw [h.deleted, map_modify_other]
        exact fun _ => rfl
      generation := congrArg (· + 1) h.generation
      rows := h.rows_modify (fun _ => rfl) hlen }
  | none =>
    have hc : c.idToIdx.find? id = none := by rw [h.idToIdx, hf]
    cases hfree : s.freeSlots with
    | cons idx rest =>
      obtain ⟨e, he, -⟩ : s.Buried idx := (hinv.free idx).mp (by simp [hfree])
      have hidx : idx < s.slots.length := (List.getElem?_eq_some_iff.mp he).1
      have hlast : c.freeSlots.getLast? = some idx := by
        rw [h.freeSlots, hfree, List.getLast?_reverse, List.head?_cons]
      simp only [CompactStore.store, VectorStore.place, hc, hf, hfree, hlast]
      exact {
        h with
        matrix := h.overwrite_matrix hidx (fun _ => rfl) hlen
        norms := by
          rw [h.norms, ← map_modify_field]
          exact fun _ => rfl
        normalized := by
          rw [h.normalized, ← map_modify_field]
          exact fun _ => rfl
        idxToId := by
          rw [h.idxToId, ← map_modify_field]
          exact fun _ => rfl
        deleted := by
          rw [h.deleted, ← map_modify_field]
          exact fun _ => rfl
        idToIdx := congrArg (AssocMap.insert · id idx) h.idToIdx
        freeSlots := by
          show c.freeSlots.dropLast = rest.reverse
          rw [h.freeSlots, hfree, List.reverse_cons, List.dropLast_concat]
        activeCount := congrArg (· + 1) h.activeCount
        tombstoneCount := congrArg (· - 1) h.tombstoneCount
        generation := congrArg (· + 1) h.generation
        rows := h.rows_modify (fun _ => rfl) hlen }
    | nil =>
      have hlast : c.freeSlots.getLast? = none := by
        rw [h.freeSlots, hfree]
        rfl
      simp only [CompactStore.store, VectorStore.place, hc, hf, hfree, hlast]
      exact {
        h with
        matrix := by
          have hzeros := overwrite_zeros h.row_length hlen (0 : UInt32) 0
          rw [List.length_map, Nat.zero_add, Nat.one_mul, Nat.zero_mul, List.replicate_zero,
            List.append_nil] at hzeros
          rw [h.length_idxToId, h.matrix, h.dimension, hzeros, List.map_append]
          rfl
        norms := by
          rw [h.norms, List.map_append]
          rfl
        normalized := by
          rw [h.normalized, List.map_append]
          rfl
        idxToId := by
          rw [h.idxToId, List.map_append]
          rfl
        deleted := by
          rw [h.deleted, List.map_append]
          rfl
        idToIdx := by
          rw [h.idToIdx, h.length_idxToId]
        freeSlots := by
          rw [h.freeSlots, hfree]
        activeCount := congrArg (· + 1) h.activeCount
        generation := congrArg (· + 1) h.generation
        rows := by
          intro e he
          rcases List.mem_append.mp he with he | he
          · exact h.rows e he
          · rw [List.mem_singleton] at he
            subst he
            exact hlen }

end Represents

/-! ## 3. Compaction -/

theorem indexSlots_concat (l : List Slot) (e : Slot) (n : Nat) (m : AssocMap Bytes Nat) :
    indexSlots n (l ++ [e]) m = (indexSlots n l m).insert e.id (n + l.length) := by
  induction l generalizing n m with
  | nil => rfl
  | cons e' l ih =>
    rw [List.cons_append, indexSlots, ih, indexSlots, List.length_cons, Nat.add_assoc,
      Nat.add_comm 1]

/-- The store counts its live slots. -/
theorem VectorStore.Inv.length_liveSlots {s : VectorStore} (h : s.Inv) :
    s.liveSlots.length = s.activeCount := by
  have hperm : (s.liveSlots.map Slot.id).Perm s.ids :=
    (List.perm_ext_iff_of_nodup h.nodup_liveSlots s.idToIdx.nodupKeys).mpr
      fun id => h.mem_map_liveSlots
  rw [h.active, ← AssocMap.length_keys, ← List.length_map Slot.id]
  exact hperm.length_eq

/-- **The loop invariant**: the live slots so far, and zeros up to `n` slots. -/
def compactionOf (dim n : Nat) (live : List Slot) : Compaction where
  matrix := (live.map Slot.row).flatten ++ List.replicate ((n - live.length) * dim) 0
  norms := live.map Slot.norm ++ List.replicate (n - live.length) 0
  normalized := live.map Slot.normalized ++ List.replicate (n - live.length) false
  idToIdx := indexSlots 0 live .empty
  idxToId := live.map Slot.id
  newIdx := live.length

section Compaction

variable {c : CompactStore} {s : VectorStore} {n : Nat} {live : List Slot}

theorem copySlot_eq (h : Represents c s) {idx : Nat} {e : Slot} (he : s.slots[idx]? = some e)
    (hrows : ∀ e ∈ live, e.row.length = s.dimension) (hroom : e.deleted = false → live.length < n) :
    c.copySlot (compactionOf s.dimension n live) idx =
      compactionOf s.dimension n (if e.deleted then live else live ++ [e]) := by
  unfold CompactStore.copySlot
  rw [h.getD_deleted he]
  cases hdel : e.deleted with
  | true => rfl
  | false =>
    obtain ⟨k, hk⟩ : ∃ k, n - live.length = k + 1 := ⟨n - live.length - 1, by have := hroom hdel; omega⟩
    have hk' : n - (live.length + 1) = k := by omega
    have hflat : ∀ r ∈ live.map Slot.row, r.length = s.dimension := by
      intro r hr
      obtain ⟨e', he', rfl⟩ := List.mem_map.mp hr
      exact hrows e' he'
    have hmatrix := overwrite_zeros hflat (h.rows e (List.mem_of_getElem? he)) (0 : UInt32) k
    have hnorms := set_zeros (live.map Slot.norm) e.norm 0 k
    have hnormalized := set_zeros (live.map Slot.normalized) e.normalized false k
    rw [List.length_map] at hmatrix hnorms hnormalized
    have hid : c.idxToId.getD idx [] = e.id := by
      rw [h.idxToId, List.getD_eq_getElem?_getD, List.getElem?_map, he]
      rfl
    have hnorm : c.norms.getD idx 0 = e.norm := by
      rw [h.norms, List.getD_eq_getElem?_getD, List.getElem?_map, he]
      rfl
    have hrow := h.rowAt_matrix he
    rw [h.dimension] at hrow
    simp only [Bool.false_eq_true, if_false, compactionOf, hrow, h.getD_normalized he, hid, hnorm, hk,
      List.length_append, List.length_singleton, hk', List.map_append, List.map_cons, List.map_nil,
      h.dimension]
    rw [hmatrix, hnorms, hnormalized, indexSlots_concat, Nat.zero_add]

theorem foldl_copySlot (h : Represents c s) (hn : s.liveSlots.length ≤ n) {k : Nat}
    (hk : k ≤ s.slots.length) :
    (List.range k).foldl c.copySlot (compactionOf s.dimension n []) =
      compactionOf s.dimension n ((s.slots.take k).filter fun e => !e.deleted) := by
  induction k with
  | zero => rfl
  | succ k ih =>
    have hlt : k < s.slots.length := hk
    have he : s.slots[k]? = some s.slots[k] := List.getElem?_eq_getElem hlt
    have htake : s.slots.take (k + 1) = s.slots.take k ++ [s.slots[k]] := by
      rw [List.take_add_one, he]
      rfl
    rw [List.range_succ, List.foldl_append, ih hlt.le, List.foldl_cons, List.foldl_nil,
      copySlot_eq h he ?_ ?_]
    · congr 1
      rw [htake, List.filter_append, List.filter_singleton]
      cases s.slots[k].deleted
      · rfl
      · exact (List.append_nil _).symm
    · intro e hmem
      exact h.rows e (List.mem_of_mem_take (List.mem_of_mem_filter hmem))
    · intro hdel
      -- the slot is live and behind those counted so far
      have hsub : ((s.slots.take k ++ [s.slots[k]]).filter fun e => !e.deleted).length ≤
          s.liveSlots.length := by
        rw [← htake]
        exact ((List.take_sublist _ _).filter _).length_le
      rw [List.filter_append, List.filter_singleton, hdel, List.length_append] at hsub
      exact Nat.lt_of_lt_of_le (Nat.lt_succ_self _) (Nat.le_trans hsub hn)

/-- **Compaction of the arrays** is that of the slots. -/
theorem Represents.defragmentLocked (h : Represents c s) (hinv : s.Inv) :
    Represents c.defragmentLocked s.defragmentLocked := by
  by_cases h0 : s.dimension = 0 ∨ s.activeCount = 0
  · have hc0 : c.dimension = 0 ∨ c.activeCount = 0 := by rwa [h.dimension, h.activeCount]
    rw [CompactStore.defragmentLocked, VectorStore.defragmentLocked, if_pos h0, if_pos hc0]
    exact ⟨rfl, rfl, rfl, rfl, rfl, rfl, rfl, rfl, rfl, h.dimension, h.generation, nofun⟩
  · have hc0 : ¬ (c.dimension = 0 ∨ c.activeCount = 0) := by rwa [h.dimension, h.activeCount]
    rw [CompactStore.defragmentLocked, VectorStore.defragmentLocked, if_neg h0, if_neg hc0]
    have hstart : ({ matrix := List.replicate (c.activeCount * c.dimension) 0
                     norms := List.replicate c.activeCount 0
                     normalized := List.replicate c.activeCount false
                     idToIdx := .empty
                     idxToId := []
                     newIdx := 0 } : Compaction) = compactionOf s.dimension s.activeCount [] := by
      rw [h.dimension, h.activeCount]
      rfl
    have hlive := hinv.length_liveSlots
    have hloop := foldl_copySlot h hlive.le (Nat.le_of_eq h.length_idxToId)
    rw [h.length_idxToId, List.take_length] at hloop
    have hfull : s.activeCount - s.liveSlots.length = 0 := by omega
    simp only [hstart, h.length_idxToId, hloop]
    unfold VectorStore.liveSlots at hfull hlive
    exact {
      h with
      matrix := by
        show (List.map Slot.row _).flatten ++ List.replicate (_ * _) 0 = _
        rw [hfull, Nat.zero_mul, List.replicate_zero, List.append_nil]
      norms := by
        show List.map Slot.norm _ ++ List.replicate _ 0 = _
        rw [hfull, List.replicate_zero, List.append_nil]
      normalized := by
        show List.map Slot.normalized _ ++ List.replicate _ false = _
        rw [hfull, List.replicate_zero, List.append_nil]
      idxToId := rfl
      deleted := by
        symm
        rw [List.eq_replicate_iff]
        refine ⟨by rw [List.length_map, hlive, h.activeCount], fun b hb => ?_⟩
        obtain ⟨e, he, rfl⟩ := List.mem_map.mp hb
        simpa using List.of_mem_filter he
      idToIdx := rfl
      freeSlots := rfl
      tombstoneCount := rfl
      rows := fun e he => h.rows e (List.mem_of_mem_filter he) }

/-- The generation is one of both. -/
theorem Represents.nextGeneration (h : Represents c s) :
    Represents { c with generation := c.generation + 1 }
      { s with generation := s.generation + 1 } :=
  { h with generation := congrArg (· + 1) h.generation }

theorem Represents.bury (h : Represents c s) (id : Bytes) (idx : Nat) :
    Represents (c.bury id idx) (s.bury id idx) where
  matrix := by
    show c.matrix = ((s.slots.modify idx _).map Slot.row).flatten
    rw [h.matrix, map_modify_other]
    exact fun _ => rfl
  norms := by
    show c.norms = (s.slots.modify idx _).map Slot.norm
    rw [h.norms, map_modify_other]
    exact fun _ => rfl
  normalized := by
    show c.normalized = (s.slots.modify idx _).map Slot.normalized
    rw [h.normalized, map_modify_other]
    exact fun _ => rfl
  idxToId := by
    show c.idxToId = (s.slots.modify idx _).map Slot.id
    rw [h.idxToId, map_modify_other]
    exact fun _ => rfl
  deleted := by
    show c.deleted.set idx true = (s.slots.modify idx _).map Slot.deleted
    rw [h.deleted, ← map_modify_field]
    exact fun _ => rfl
  idToIdx := congrArg (AssocMap.erase · id) h.idToIdx
  freeSlots := by
    show c.freeSlots ++ [idx] = (idx :: s.freeSlots).reverse
    rw [h.freeSlots, List.reverse_cons]
  activeCount := congrArg (· - 1) h.activeCount
  tombstoneCount := congrArg (· + 1) h.tombstoneCount
  dimension := h.dimension
  generation := h.generation
  rows := by
    intro e he
    obtain ⟨j, hj⟩ := List.mem_iff_getElem?.mp he
    rw [VectorStore.bury, VectorStore.modify_getElem?] at hj
    split at hj
    · obtain ⟨e', he', rfl⟩ := Option.map_eq_some_iff.mp hj
      exact h.rows e' (List.mem_of_getElem? he')
    · exact h.rows e (List.mem_of_getElem? hj)

/-- **`DeleteVector` marks the arrays as the slot is marked.** -/
theorem Represents.deleteVector (h : Represents c s) (hinv : s.Inv) (id : Bytes) :
    (c.deleteVector id).2 = (s.deleteVector id).2 ∧
      Represents (c.deleteVector id).1 (s.deleteVector id).1 := by
  cases hf : s.idToIdx.find? id with
  | none =>
    have hc : c.idToIdx.find? id = none := by rw [h.idToIdx, hf]
    simp only [CompactStore.deleteVector, VectorStore.deleteVector, hc, hf]
    exact ⟨trivial, h⟩
  | some idx =>
    have hc : c.idToIdx.find? id = some idx := by rw [h.idToIdx, hf]
    have hbury := h.bury id idx
    simp only [CompactStore.deleteVector, VectorStore.deleteVector, hc, hf, hbury.length_idxToId,
      hbury.tombstoneCount]
    refine ⟨trivial, ?_⟩
    split
    · exact (hbury.defragmentLocked (hinv.bury hf)).nextGeneration
    · exact hbury.nextGeneration

end Compaction

/-! ## 4. The map -/

/-- A map from ids to vectors, each with its mark, all of one dimension. -/
structure MapStore where
  dimension : Nat := 0
  vectors : AssocMap Bytes (List UInt32 × Bool) := .empty

/-- The requests of one store. -/
inductive StoreOp where
  | setVector (id : Bytes) (vec : List UInt32) (normalize : Bool)
  | deleteVector (id : Bytes)
  | defragment
  | clear

inductive StoreReply where
  | set (result : Except Error Unit)
  | deleted (found : Bool)
  | done

/-- Something was changed. -/
def StoreReply.succeeds : StoreReply → Bool
  | set (.ok ()) => true
  | set (.error _) => false
  | deleted found => found
  | done => true

variable (fl : VectorFloats)

def CompactStore.apply (c : CompactStore) : StoreOp → CompactStore × StoreReply
  | .setVector id vec normalize =>
    let (c, result) := c.setVector fl id vec normalize
    (c, .set result)
  | .deleteVector id =>
    let (c, found) := c.deleteVector id
    (c, .deleted found)
  | .defragment => (c.defragment, .done)
  | .clear => (c.clear, .done)

/-- What a request does to the slots. -/
def VectorStore.apply (s : VectorStore) : StoreOp → VectorStore
  | .setVector id vec normalize =>
    match VectorStore.validateVector fl.l2Norm s id vec with
    | .error _ => s
    | .ok () =>
      match if normalize then fl.normalize vec else some vec with
      | none => s
      | some data => { s with dimension := vec.length }.place id data (fl.l2Norm data) normalize
  | .deleteVector id => (s.deleteVector id).1
  | .defragment => s.defragment
  | .clear => s.clear

/-- An accepted vector is assigned to its id. -/
def MapStore.setVector (m : MapStore) (id : Bytes) (vec : List UInt32) (normalize : Bool) :
    MapStore × Except Error Unit :=
  match VectorStore.validateVector fl.l2Norm { dimension := m.dimension } id vec with
  | .error e => (m, .error e)
  | .ok () =>
    match if normalize then fl.normalize vec else some vec with
    | none => (m, .error (makeError .kInvalidArgument "Cannot normalize zero vector"))
    | some data => (⟨vec.length, m.vectors.insert id (data, normalize)⟩, .ok ())

/-- **What the store is for.** Compaction is nothing to a map. -/
def MapStore.apply (m : MapStore) : StoreOp → MapStore × StoreReply
  | .setVector id vec normalize =>
    let (m, result) := m.setVector fl id vec normalize
    (m, .set result)
  | .deleteVector id =>
    ({ m with vectors := m.vectors.erase id }, .deleted (m.vectors.contains id))
  | .defragment => (m, .done)
  | .clear => ({}, .done)

/-- **The arrays, the slots and the map.** -/
structure RefinesBy (c : CompactStore) (s : VectorStore) (m : MapStore) : Prop where
  represents : Represents c s
  inv : s.Inv
  slots : s.dimension = 0 → s.slots = []
  dimension : m.dimension = s.dimension
  vectors : ∀ id, m.vectors.find? id = (s.slotOf id).map fun e => (e.row, e.normalized)

def Refines (c : CompactStore) (m : MapStore) : Prop := ∃ s, RefinesBy c s m

variable {fl} {c : CompactStore} {s : VectorStore} {m : MapStore}

theorem Refines.empty : Refines {} {} :=
  ⟨{}, .empty, .empty, fun _ => rfl, rfl, fun _ => rfl⟩

theorem VectorFloats.length_normalize {vec data : List UInt32} {normalize : Bool}
    (h : (if normalize then fl.normalize vec else some vec) = some data) :
    data.length = vec.length := by
  split at h
  · unfold VectorFloats.normalize at h
    simp only at h
    split at h
    · cases h
    · cases h
      exact List.length_map _
  · cases h
    rfl

/-- `SetVector` after its checks: the dimension is settled, the vector stored. -/
theorem CompactStore.setVector_eq {id : Bytes} {vec data : List UInt32} {normalize : Bool}
    (hv : c.validateVector fl id vec = .ok ())
    (hdata : (if normalize then fl.normalize vec else some vec) = some data) :
    c.setVector fl id vec normalize =
      ({ c with dimension := vec.length }.store fl id data normalize, .ok ()) := by
  have hlen := VectorFloats.length_normalize hdata
  obtain ⟨-, -, -, -, -, hdim⟩ := VectorStore.validateVector_ok hv
  have hsettled : (if c.dimension = 0 then { c with dimension := data.length } else c) =
      { c with dimension := vec.length } := by
    split
    · rw [hlen]
    · rename_i hne
      rw [hdim.resolve_left hne]
  have hok : ¬ data.length ≠ ({ c with dimension := vec.length } : CompactStore).dimension :=
    not_not_intro hlen
  simp only [CompactStore.setVector, hv, hdata, hsettled, if_neg hok]

theorem RefinesBy.setVector (h : RefinesBy c s m) (id : Bytes) (vec : List UInt32)
    (normalize : Bool) :
    (c.setVector fl id vec normalize).2 = (m.setVector fl id vec normalize).2 ∧
      RefinesBy (c.setVector fl id vec normalize).1 (s.apply fl (.setVector id vec normalize))
        (m.setVector fl id vec normalize).1 := by
  have hsdim : c.validateVector fl id vec = VectorStore.validateVector fl.l2Norm s id vec := by
    unfold CompactStore.validateVector VectorStore.validateVector
    rw [h.represents.dimension]
  have hmdim : VectorStore.validateVector fl.l2Norm { dimension := m.dimension } id vec =
      VectorStore.validateVector fl.l2Norm s id vec := by
    unfold VectorStore.validateVector
    rw [h.dimension]
  cases hv : VectorStore.validateVector fl.l2Norm s id vec with
  | error e =>
    simp only [CompactStore.setVector, MapStore.setVector, VectorStore.apply, hsdim, hmdim, hv]
    exact ⟨trivial, h⟩
  | ok u =>
    cases hdata : if normalize then fl.normalize vec else some vec with
    | none =>
      simp only [CompactStore.setVector, MapStore.setVector, VectorStore.apply, hsdim, hmdim, hv,
        hdata]
      exact ⟨trivial, h⟩
    | some data =>
      have hlen := VectorFloats.length_normalize hdata
      obtain ⟨-, hpos, -, -, -, hdimension⟩ := VectorStore.validateVector_ok hv
      rw [CompactStore.setVector_eq (hsdim.trans hv) hdata]
      simp only [MapStore.setVector, VectorStore.apply, hmdim, hv, hdata]
      -- the rows there have the dimension of the vector, or there are none
      have hrows : ∀ e ∈ s.slots, e.row.length = vec.length := by
        intro e he
        rw [h.represents.rows e he]
        refine (hdimension.resolve_left fun h0 => ?_).symm
        rw [h.slots h0] at he
        cases he
      have hset : Represents { c with dimension := vec.length } { s with dimension := vec.length } :=
        { h.represents with dimension := rfl, rows := hrows }
      have hinv := h.inv.withDimension hpos
      refine ⟨trivial, hset.store hinv hlen, hinv.place hpos, fun h0 => ?_, ?_, fun id' => ?_⟩
      · rw [VectorStore.dimension_place] at h0
        exact absurd h0 hpos
      · rw [VectorStore.dimension_place]
      · rw [AssocMap.find?_insert, hinv.slotOf_place]
        split
        · rfl
        · exact h.vectors id'

theorem RefinesBy.contains (h : RefinesBy c s m) (id : Bytes) :
    m.vectors.contains id = true ↔ id ∈ s.ids := by
  rw [AssocMap.contains, h.vectors, Option.isSome_map, h.inv.mem_ids_iff]
  constructor
  · intro hs
    obtain ⟨e, he⟩ := Option.isSome_iff_exists.mp hs
    obtain ⟨idx, hf, -⟩ := Option.bind_eq_some_iff.mp he
    exact ⟨idx, (h.inv.live id idx).mp hf⟩
  · rintro ⟨idx, hlive⟩
    have hf := (h.inv.live id idx).mpr hlive
    obtain ⟨e, he, -⟩ := hlive
    exact Option.isSome_iff_exists.mpr ⟨e, Option.bind_eq_some_iff.mpr ⟨idx, hf, he⟩⟩

/-- **Every request of the store is one of the slots and of the map.** -/
theorem RefinesBy.apply (h : RefinesBy c s m) (op : StoreOp) :
    (c.apply fl op).2 = (m.apply fl op).2 ∧
      RefinesBy (c.apply fl op).1 (s.apply fl op) (m.apply fl op).1 := by
  cases op with
  | setVector id vec normalize =>
    obtain ⟨hreply, hnext⟩ := @RefinesBy.setVector fl c s m h id vec normalize
    exact ⟨congrArg StoreReply.set hreply, hnext⟩
  | deleteVector id =>
    obtain ⟨hreply, hnext⟩ := h.represents.deleteVector h.inv id
    refine ⟨congrArg StoreReply.deleted ?_, hnext, h.inv.deleteVector, fun h0 => ?_, ?_,
      fun id' => ?_⟩
    · show (c.deleteVector id).2 = m.vectors.contains id
      rw [hreply, Bool.eq_iff_iff, VectorStore.deleteVector_snd, h.contains]
    · have h0 : (s.deleteVector id).1.dimension = 0 := h0
      rw [VectorStore.dimension_deleteVector] at h0
      have hnone : s.idToIdx.find? id = none := by
        cases hf : s.idToIdx.find? id with
        | none => rfl
        | some idx =>
          obtain ⟨e, he, -⟩ := (h.inv.live id idx).mp hf
          rw [h.slots h0] at he
          cases he
      simp only [VectorStore.apply, VectorStore.deleteVector, hnone]
      exact h.slots h0
    · show m.dimension = (s.deleteVector id).1.dimension
      rw [VectorStore.dimension_deleteVector]
      exact h.dimension
    · show (m.vectors.erase id).find? id' = ((s.deleteVector id).1.slotOf id').map _
      rw [h.inv.slotOf_deleteVector, AssocMap.find?_erase]
      split
      · rfl
      · exact h.vectors id'
  | defragment =>
    have hnext := (h.represents.defragmentLocked h.inv).nextGeneration
    refine ⟨rfl, hnext, h.inv.defragment, fun h0 => ?_, ?_, fun id' => ?_⟩
    · have h0 : s.defragment.dimension = 0 := h0
      rw [VectorStore.dimension_defragment] at h0
      show s.defragmentLocked.slots = []
      rw [VectorStore.defragmentLocked, if_pos (.inl h0)]
    · show m.dimension = s.defragment.dimension
      rw [VectorStore.dimension_defragment]
      exact h.dimension
    · exact (h.vectors id').trans (congrArg _ (h.inv.slotOf_defragmentLocked id').symm)
  | clear =>
    exact ⟨rfl, ⟨rfl, rfl, rfl, rfl, rfl, rfl, rfl, rfl, rfl, rfl,
      congrArg (· + 1) h.represents.generation, fun _ hsl => absurd hsl List.not_mem_nil⟩,
      .clear s, fun _ => rfl, rfl, fun _ => rfl⟩

theorem Refines.apply (h : Refines c m) (op : StoreOp) :
    (c.apply fl op).2 = (m.apply fl op).2 ∧ Refines (c.apply fl op).1 (m.apply fl op).1 := by
  obtain ⟨s, h⟩ := h
  obtain ⟨hreply, hnext⟩ := @RefinesBy.apply fl c s m h op
  exact ⟨hreply, _, hnext⟩

/-! ## 5. Answers and arrays -/

/-- The store answers every question as the map does. -/
structure Answers (c : CompactStore) (m : MapStore) : Prop where
  getVector : ∀ id, c.getVector id = m.vectors.find? id
  hasVector : ∀ id, c.hasVector id = m.vectors.contains id
  getAllIds : c.getAllIds.Perm m.vectors.keys
  getVectorCount : c.getVectorCount = m.vectors.size

theorem RefinesBy.answers (h : RefinesBy c s m) : Answers c m := by
  have hkeys : ∀ id, id ∈ c.getAllIds ↔ id ∈ m.vectors.keys := by
    intro id
    rw [← AssocMap.contains_iff, h.contains]
    show id ∈ c.idToIdx.keys ↔ id ∈ s.idToIdx.keys
    rw [h.represents.idToIdx]
  have hperm : c.getAllIds.Perm m.vectors.keys :=
    (List.perm_ext_iff_of_nodup c.idToIdx.nodupKeys m.vectors.nodupKeys).mpr hkeys
  refine ⟨fun id => ?_, fun id => ?_, hperm, ?_⟩
  · rw [h.vectors, CompactStore.getVector, h.represents.idToIdx, VectorStore.slotOf]
    cases hf : s.idToIdx.find? id with
    | none => rfl
    | some idx =>
      obtain ⟨e, he, hdel, -⟩ := (h.inv.live id idx).mp hf
      rw [Option.bind_some, he]
      simp only [h.represents.getD_deleted he, hdel, h.represents.rowAt_matrix he,
        h.represents.getD_normalized he, Bool.false_eq_true, if_false, Option.map_some]
  · rw [Bool.eq_iff_iff, AssocMap.contains_iff]
    exact AssocMap.contains_iff.trans (hkeys id)
  · show c.activeCount = m.vectors.size
    rw [h.represents.activeCount, h.inv.active, ← h.represents.idToIdx, ← AssocMap.length_keys,
      ← AssocMap.length_keys]
    exact hperm.length_eq

/-- **What the arrays owe one another.** -/
structure Consistent (c : CompactStore) : Prop where
  matrix : c.matrix.length = c.idxToId.length * c.dimension
  norms : c.norms.length = c.idxToId.length
  normalized : c.normalized.length = c.idxToId.length
  deleted : c.deleted.length = c.idxToId.length
  inverse : ∀ id idx, c.idToIdx.find? id = some idx ↔
    c.idxToId[idx]? = some id ∧ c.deleted[idx]? = some false
  nodupFree : c.freeSlots.Nodup
  free : ∀ idx, idx ∈ c.freeSlots ↔ c.deleted[idx]? = some true
  tombstoneCount : c.tombstoneCount = c.deleted.count true
  activeCount : c.activeCount = c.deleted.count false

theorem RefinesBy.consistent (h : RefinesBy c s m) : Consistent c := by
  have hr := h.represents
  have hfree : ∀ idx, idx ∈ c.freeSlots ↔ c.deleted[idx]? = some true := by
    intro idx
    rw [hr.freeSlots, List.mem_reverse, h.inv.free, hr.deleted, List.getElem?_map,
      Option.map_eq_some_iff]
    rfl
  have hnodup : c.freeSlots.Nodup := by
    rw [hr.freeSlots]
    exact List.nodup_reverse.mpr h.inv.nodupFree
  have hactive : c.activeCount = c.deleted.count false := by
    rw [hr.activeCount, ← h.inv.length_liveSlots, hr.deleted, List.count, List.countP_map,
      List.countP_eq_length_filter]
    refine congrArg List.length (List.filter_congr fun e _ => ?_)
    cases h : e.deleted <;> simp [h]
  refine ⟨?_, ?_, ?_, ?_, ?_, hnodup, hfree, ?_, hactive⟩
  · rw [hr.matrix, length_flatten_rows hr.row_length, hr.length_idxToId, List.length_map,
      hr.dimension]
  · rw [hr.norms, hr.length_idxToId, List.length_map]
  · rw [hr.normalized, hr.length_idxToId, List.length_map]
  · rw [hr.deleted, hr.length_idxToId, List.length_map]
  · intro id idx
    rw [hr.idToIdx, h.inv.live, hr.idxToId, hr.deleted, List.getElem?_map, List.getElem?_map]
    unfold VectorStore.Live
    cases s.slots[idx]? with
    | none => simp
    | some e => simp [and_comm]
  · -- the free slots are the tombstones, each once
    rw [hr.tombstoneCount, h.inv.tombstones]
    have hlen : s.freeSlots.length = c.freeSlots.length := by rw [hr.freeSlots, List.length_reverse]
    have hperm : c.freeSlots.Perm
        ((List.range c.deleted.length).filter fun idx => c.deleted[idx]? = some true) := by
      refine (List.perm_ext_iff_of_nodup hnodup (List.nodup_range.filter _)).mpr fun idx => ?_
      rw [hfree, List.mem_filter, List.mem_range, decide_eq_true_eq]
      constructor
      · intro hd
        exact ⟨(List.getElem?_eq_some_iff.mp hd).1, hd⟩
      · exact fun hd => hd.2
    rw [hlen, hperm.length_eq]
    exact length_filter_range_eq_count c.deleted true

/-! ## 6. Runs -/

/-- A request of one store or the other, or the exchange of their contents. -/
inductive StoreAction where
  | this (op : StoreOp)
  | other (op : StoreOp)
  | swapState

variable (fl) in
def respondStores (p : CompactStore × CompactStore) :
    StoreAction → (CompactStore × CompactStore) × StoreReply
  | .this op => (((p.1.apply fl op).1, p.2), (p.1.apply fl op).2)
  | .other op => ((p.1, (p.2.apply fl op).1), (p.2.apply fl op).2)
  | .swapState => (p.1.swapState p.2, .done)

variable (fl) in
def respondMaps (p : MapStore × MapStore) : StoreAction → (MapStore × MapStore) × StoreReply
  | .this op => (((p.1.apply fl op).1, p.2), (p.1.apply fl op).2)
  | .other op => ((p.1, (p.2.apply fl op).1), (p.2.apply fl op).2)
  | .swapState => ((p.2, p.1), .done)

/-- The content of a store under another generation. -/
theorem Refines.withGeneration (h : Refines c m) (n : Nat) :
    Refines { c with generation := n } m := by
  obtain ⟨s, h⟩ := h
  exact ⟨{ s with generation := n }, { h.represents with generation := rfl },
    h.inv.generation n, h.slots, h.dimension, h.vectors⟩

/-- Two stores and two maps. -/
def BothRefine (p : CompactStore × CompactStore) (q : MapStore × MapStore) : Prop :=
  Refines p.1 q.1 ∧ Refines p.2 q.2

theorem respondStores_refines (p : CompactStore × CompactStore) (q : MapStore × MapStore)
    (a : StoreAction) (h : BothRefine p q) :
    (respondStores fl p a).2 = (respondMaps fl q a).2 ∧
      BothRefine (respondStores fl p a).1 (respondMaps fl q a).1 := by
  cases a with
  | this op =>
    obtain ⟨hreply, hnext⟩ := h.1.apply op
    exact ⟨hreply, hnext, h.2⟩
  | other op =>
    obtain ⟨hreply, hnext⟩ := h.2.apply op
    exact ⟨hreply, h.1, hnext⟩
  | swapState => exact ⟨rfl, h.2.withGeneration _, h.1.withGeneration _⟩

theorem CompactStore.generation_store (id : Bytes) (data : List UInt32) (normalize : Bool) :
    (c.store fl id data normalize).generation = c.generation + 1 := by
  unfold CompactStore.store
  cases c.idToIdx.find? id with
  | some idx => rfl
  | none => cases c.freeSlots.getLast? <;> rfl

theorem CompactStore.generation_defragmentLocked :
    c.defragmentLocked.generation = c.generation := by
  unfold CompactStore.defragmentLocked
  split <;> rfl

/-- A request that fails changes nothing, one that succeeds gives the store a new generation. -/
theorem CompactStore.generation_apply (c : CompactStore) (op : StoreOp) :
    ((c.apply fl op).2.succeeds = false → (c.apply fl op).1 = c) ∧
      ((c.apply fl op).2.succeeds = true → c.generation < (c.apply fl op).1.generation) := by
  cases op with
  | setVector id vec normalize =>
    cases hv : c.validateVector fl id vec with
    | error e =>
      simp only [CompactStore.apply, CompactStore.setVector, hv]
      exact ⟨fun _ => trivial, fun hok => by cases hok⟩
    | ok u =>
      cases hdata : if normalize then fl.normalize vec else some vec with
      | none =>
        simp only [CompactStore.apply, CompactStore.setVector, hv, hdata]
        exact ⟨fun _ => trivial, fun hok => by cases hok⟩
      | some data =>
        simp only [CompactStore.apply, CompactStore.setVector_eq hv hdata]
        refine ⟨fun hno => (by cases hno), fun _ => ?_⟩
        rw [CompactStore.generation_store]
        exact Nat.lt_succ_self _
  | deleteVector id =>
    cases hf : c.idToIdx.find? id with
    | none =>
      simp only [CompactStore.apply, CompactStore.deleteVector, hf]
      exact ⟨fun _ => trivial, fun hok => by cases hok⟩
    | some idx =>
      simp only [CompactStore.apply, CompactStore.deleteVector, hf]
      refine ⟨fun hno => (by cases hno), fun _ => ?_⟩
      split
      · rw [CompactStore.generation_defragmentLocked]
        exact Nat.lt_succ_self _
      · exact Nat.lt_succ_self _
  | defragment =>
    refine ⟨fun hno => (by cases hno), fun _ => ?_⟩
    show c.generation < c.defragmentLocked.generation + 1
    rw [CompactStore.generation_defragmentLocked]
    exact Nat.lt_succ_self _
  | clear => exact ⟨fun hno => (by cases hno), fun _ => Nat.lt_succ_self _⟩

variable (fl) in
/-- **The store is a finite map.** In every run of two stores, every request and every question is
    answered as by the map, the arrays stay consistent, a failed request changes nothing and a
    successful one gives the store, or both of two exchanged ones, a greater generation. -/
theorem store_refines_map (actions : List StoreAction) :
    answers (respondStores fl) ({}, {}) actions = answers (respondMaps fl) ({}, {}) actions ∧
    (Answers (after (respondStores fl) ({}, {}) actions).1
        (after (respondMaps fl) ({}, {}) actions).1 ∧
      Answers (after (respondStores fl) ({}, {}) actions).2
        (after (respondMaps fl) ({}, {}) actions).2) ∧
    (Consistent (after (respondStores fl) ({}, {}) actions).1 ∧
      Consistent (after (respondStores fl) ({}, {}) actions).2) ∧
    ∀ c other : CompactStore,
      (∀ op, ((c.apply fl op).2.succeeds = false → (c.apply fl op).1 = c) ∧
        ((c.apply fl op).2.succeeds = true → c.generation < (c.apply fl op).1.generation)) ∧
      c.generation < (c.swapState other).1.generation ∧
      other.generation < (c.swapState other).2.generation := by
  have hempty : BothRefine ({}, {}) ({}, {}) := ⟨.empty, .empty⟩
  obtain ⟨hreplies, ⟨s, hthis⟩, ⟨s', hother⟩⟩ :=
    refines_of_simulation respondStores_refines hempty actions
  exact ⟨hreplies, ⟨hthis.answers, hother.answers⟩, ⟨hthis.consistent, hother.consistent⟩,
    fun c other => ⟨fun op => c.generation_apply op, Nat.lt_succ_self _, Nat.lt_succ_self _⟩⟩

/-- The norm of a vector with one component; nothing is normalised. -/
def plainFloats : VectorFloats where
  l2Norm vec := UInt32.ofNat ((vec.headD 0).toNat % 2 ^ 31)
  tiny norm := decide (norm.toNat < 0x33D6BF95)
  divide _ _ := 0x3F800000

/-- Two vectors, of which the first is deleted and its slot compacted away, one of a wrong
    dimension, and the exchange with a store that holds another. -/
def compacted : List StoreAction :=
  [.this (.setVector [97] [0x3F800000] false), .this (.setVector [98] [0x40000000] true),
    .this (.deleteVector [97]), .this (.setVector [99] [0x3F800000, 0] false),
    .other (.setVector [100] [0x40400000] false), .swapState]

/-- After `compacted` the vector `98`, normalised, is in the other store, in its first slot. -/
theorem store_refines_map_compacted :
    (after (respondStores plainFloats) ({}, {}) compacted).2.getVector [98] =
        some ([0x3F800000], true) ∧
      (after (respondStores plainFloats) ({}, {}) compacted).2.idToIdx.find? [98] = some 0 ∧
      (after (respondStores plainFloats) ({}, {}) compacted).1.getVectorCount = 1 ∧
      Consistent (after (respondStores plainFloats) ({}, {}) compacted).2 := by
  obtain ⟨-, ⟨hthis, hother⟩, ⟨-, hconsistent⟩, -⟩ := store_refines_map plainFloats compacted
  refine ⟨(hother.getVector [98]).trans ?_, ?_, hthis.getVectorCount.trans ?_, hconsistent⟩
  · decide +kernel
  · decide +kernel
  · decide +kernel

end Nvecd.Vectors
