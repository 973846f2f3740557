/-
  File:      Nvecd/Vectors/VectorStore.lean
  Subject:   `vectors/vector_store.cpp`: vectors by id, in slots that are reused and compacted.

  A slot is one index of the store's parallel arrays (`matrix_`, `norms_`, `normalized_`,
  `idx_to_id_`, `deleted_`). Deleting marks the slot and remembers it for reuse; compaction
  copies the live slots together and numbers them anew.

  * `VectorStore`, `validateVector`, `setVector`, `deleteVector`, `defragment`;
  * `VectorStore.Inv` -- `id_to_idx_` names exactly the live slots, `free_slots_` exactly the
    deleted ones, and the counters count them;
  * `Inv.setVector`, `Inv.deleteVector`, `Inv.defragment` -- the operations keep it;
  * `mem_ids_setVector`, `mem_ids_deleteVector`, `mem_ids_defragment` -- and do to the set of ids
    what they are for.

  `SetVector` is modelled without its option to normalise, which no caller modelled here uses.
-/
import Nvecd.Lib.AssocMap
import Nvecd.Lib.Ieee754
import Nvecd.Storage.WalFormat
import Nvecd.Utils.Error

namespace Nvecd.Vectors

open Nvecd.Lib Nvecd.Storage Nvecd.Utils

/-! ## 1. The store -/

/-- Components and norms are the bits of `float`s. -/
structure Slot where
  id : Bytes
  row : List UInt32
  norm : UInt32
  normalized : Bool := false
  deleted : Bool := false
  deriving DecidableEq, Repr

structure VectorStore where
  slots : List Slot := []
  idToIdx : AssocMap Bytes Nat := .empty
  /-- `free_slots_`, its back first. -/
  freeSlots : List Nat := []
  activeCount : Nat := 0
  tombstoneCount : Nat := 0
  dimension : Nat := 0
  generation : Nat := 0

def kMaxVectorDimension : Nat := 4096

/-- Bytes as they appear in a message. -/
def textOf (bytes : Bytes) : String := String.ofList (bytes.map fun b => Char.ofNat b.toNat)

def dimensionMismatch (expected got : Nat) : Error :=
  makeError .kVectorDimensionMismatch
    ("Vector dimension mismatch: expected " ++ toString expected ++ ", got " ++ toString got)

/-- The id map of a list of live slots, numbered from `n`. -/
def indexSlots : Nat → List Slot → AssocMap Bytes Nat → AssocMap Bytes Nat
  | _, [], m => m
  | n, sl :: slots, m => indexSlots (n + 1) slots (m.insert sl.id n)

namespace VectorStore

/-- The ids with a vector. -/
def ids (s : VectorStore) : List Bytes := s.idToIdx.keys

/-- `HasVector`. -/
def hasVector (s : VectorStore) (id : Bytes) : Bool := s.idToIdx.contains id

/-- `GetCompactIndex`. -/
def getCompactIndex (s : VectorStore) (id : Bytes) : Option Nat := s.idToIdx.find? id

/-- `GetVector`. -/
def getVector (s : VectorStore) (id : Bytes) : Option (List UInt32) :=
  match s.idToIdx.find? id with
  | none => none
  | some idx =>
    match s.slots[idx]? with
    | none => none
    | some sl => if sl.deleted then none else some sl.row

section Norm

-- `simd::GetOptimalImpl().l2_norm`
variable (l2Norm : List UInt32 → UInt32)

/-- `ValidateVector`. -/
def validateVector (s : VectorStore) (id : Bytes) (vec : List UInt32) : Except Error Unit :=
  if id = [] then .error (makeError .kInvalidArgument "ID cannot be empty")
  else if vec = [] then .error (makeError .kInvalidArgument "Vector cannot be empty")
  else if vec.length > kMaxVectorDimension then
    .error (makeError .kVectorDimensionMismatch
      ("Vector dimension exceeds maximum of " ++ toString kMaxVectorDimension))
  else if ¬ vec.all isFiniteFloat then
    .error (makeError .kInvalidArgument "Vector components must be finite")
  else if ¬ isFiniteFloat (l2Norm vec) then
    .error (makeError .kInvalidArgument "Vector norm must be finite")
  else if s.dimension > 0 ∧ vec.length ≠ s.dimension then
    .error (dimensionMismatch s.dimension vec.length)
  else .ok ()

/-- The critical section of `SetVector`. -/
def writeVector (s : VectorStore) (id : Bytes) (vec : List UInt32) : VectorStore :=
  match s.idToIdx.find? id with
  | some idx =>
    { s with
      slots := s.slots.modify idx fun sl =>
        { sl with row := vec, norm := l2Norm vec, normalized := false }
      generation := s.generation + 1 }
  | none =>
    match s.freeSlots with
    | idx :: rest =>
      { s with
        freeSlots := rest
        tombstoneCount := s.tombstoneCount - 1
        slots := s.slots.modify idx fun _ => ⟨id, vec, l2Norm vec, false, false⟩
        idToIdx := s.idToIdx.insert id idx
        activeCount := s.activeCount + 1
        generation := s.generation + 1 }
    | [] =>
      { s with
        slots := s.slots ++ [⟨id, vec, l2Norm vec, false, false⟩]
        idToIdx := s.idToIdx.insert id s.slots.length
        activeCount := s.activeCount + 1
        generation := s.generation + 1 }

/-- `SetVector`. -/
def setVector (s : VectorStore) (id : Bytes) (vec : List UInt32) :
    VectorStore × Except Error Unit :=
  match s.validateVector l2Norm id vec with
  | .error e => (s, .error e)
  | .ok () =>
    let dim := if s.dimension = 0 then vec.length else s.dimension
    let s := { s with dimension := dim }
    if vec.length ≠ dim then (s, .error (dimensionMismatch dim vec.length))
    else (s.writeVector l2Norm id vec, .ok ())

end Norm

/-- `DefragmentLocked`. -/
def defragmentLocked (s : VectorStore) : VectorStore :=
  if s.dimension = 0 ∨ s.activeCount = 0 then
    { s with
      slots := [], idToIdx := .empty, freeSlots := [], activeCount := 0, tombstoneCount := 0 }
  else
    let live := s.slots.filter fun sl => !sl.deleted
    { s with
      slots := live, idToIdx := indexSlots 0 live .empty, freeSlots := [], tombstoneCount := 0 }

/-- `Defragment`. -/
def defragment (s : VectorStore) : VectorStore :=
  let s := s.defragmentLocked
  { s with generation := s.generation + 1 }

/-- The slot of a vector becomes a tombstone. -/
def bury (s : VectorStore) (id : Bytes) (idx : Nat) : VectorStore :=
  { s with
    slots := s.slots.modify idx fun sl => { sl with deleted := true }
    freeSlots := idx :: s.freeSlots
    idToIdx := s.idToIdx.erase id
    activeCount := s.activeCount - 1
    tombstoneCount := s.tombstoneCount + 1 }

/-- `DeleteVector`. -/
def deleteVector (s : VectorStore) (id : Bytes) : VectorStore × Bool :=
  match s.idToIdx.find? id with
  | none => (s, false)
  | some idx =>
    let s := s.bury id idx
    let s := if s.slots.length > 0 ∧ s.tombstoneCount * 4 > s.slots.length then s.defragmentLocked
      else s
    ({ s with generation := s.generation + 1 }, true)

/-- `GetVectorCount`. -/
def getVectorCount (s : VectorStore) : Nat := s.activeCount

/-- `Clear`. -/
def clear (s : VectorStore) : VectorStore := { generation := s.generation + 1 }

/-- `SwapState`: this store and the other afterwards. -/
def swapState (s other : VectorStore) : VectorStore × VectorStore :=
  ({ other with generation := s.generation + 1 }, { s with generation := other.generation + 1 })

/-! ## 2. The invariant -/

/-- Slot `idx` holds the vector of `id`. -/
def Live (s : VectorStore) (id : Bytes) (idx : Nat) : Prop :=
  ∃ sl, s.slots[idx]? = some sl ∧ sl.deleted = false ∧ sl.id = id

/-- Slot `idx` is a tombstone. -/
def Buried (s : VectorStore) (idx : Nat) : Prop :=
  ∃ sl, s.slots[idx]? = some sl ∧ sl.deleted = true

structure Inv (s : VectorStore) : Prop where
  live : ∀ id idx, s.idToIdx.find? id = some idx ↔ s.Live id idx
  free : ∀ idx, idx ∈ s.freeSlots ↔ s.Buried idx
  nodupFree : s.freeSlots.Nodup
  active : s.activeCount = s.idToIdx.size
  tombstones : s.tombstoneCount = s.freeSlots.length
  dimensioned : s.idToIdx.size ≠ 0 → s.dimension ≠ 0

theorem Inv.empty : Inv {} where
  live := by simp [Live]
  free := by simp [Buried]
  nodupFree := List.nodup_nil
  active := rfl
  tombstones := rfl
  dimensioned := by simp [AssocMap.size, AssocMap.empty]

variable {s : VectorStore} {id : Bytes} {vec : List UInt32} {l2Norm : List UInt32 → UInt32}

theorem mem_ids {id : Bytes} : id ∈ s.ids ↔ ∃ idx, s.getCompactIndex id = some idx :=
  AssocMap.mem_keys

theorem Inv.mem_ids_iff (h : s.Inv) {id : Bytes} : id ∈ s.ids ↔ ∃ idx, s.Live id idx := by
  rw [mem_ids]
  exact exists_congr fun idx => h.live id idx

theorem Inv.not_live (h : s.Inv) {id : Bytes} (hnone : s.idToIdx.find? id = none) (idx : Nat) :
    ¬ s.Live id idx := fun hl => by
  rw [← h.live, hnone] at hl
  cases hl

theorem not_live_of_buried {id : Bytes} {idx : Nat} (h : s.Buried idx) : ¬ s.Live id idx := by
  rintro ⟨sl, hsl, hdel, -⟩
  obtain ⟨sl', hsl', hdel'⟩ := h
  rw [hsl] at hsl'
  cases hsl'
  rw [hdel] at hdel'
  cases hdel'

/-! ## 3. `SetVector` -/

/-- What a modified slot does to the slots. -/
theorem modify_getElem? {slots : List Slot} {idx : Nat} {f : Slot → Slot} {j : Nat} :
    (slots.modify idx f)[j]? = if idx = j then slots[j]?.map f else slots[j]? := by
  rw [List.getElem?_modify]
  by_cases h : idx = j
  · subst h
    cases slots[idx]? <;> simp
  · cases slots[j]? <;> simp [h]

/-- A slot whose id and mark stay is live, or a tombstone, as before. -/
theorem Inv.overwrite (h : s.Inv) {s' : VectorStore} {idx : Nat} {f : Slot → Slot}
    (hid : ∀ sl, (f sl).id = sl.id) (hdel : ∀ sl, (f sl).deleted = sl.deleted)
    (hslots : s'.slots = s.slots.modify idx f) (hmap : s'.idToIdx = s.idToIdx)
    (hfree : s'.freeSlots = s.freeSlots) (hactive : s'.activeCount = s.activeCount)
    (htomb : s'.tombstoneCount = s.tombstoneCount)
    (hdim : s.idToIdx.size ≠ 0 → s'.dimension ≠ 0) : s'.Inv := by
  have hlive : ∀ id j, s'.Live id j ↔ s.Live id j := by
    intro id j
    unfold Live
    rw [hslots, modify_getElem?]
    by_cases hj : idx = j
    · subst hj
      cases s.slots[idx]? <;> simp [hid, hdel]
    · simp [hj]
  have hburied : ∀ j, s'.Buried j ↔ s.Buried j := by
    intro j
    unfold Buried
    rw [hslots, modify_getElem?]
    by_cases hj : idx = j
    · subst hj
      cases s.slots[idx]? <;> simp [hdel]
    · simp [hj]
  exact {
    live := fun id j => by rw [hmap, hlive, h.live]
    free := fun j => by rw [hfree, hburied, h.free]
    nodupFree := hfree ▸ h.nodupFree
    active := by rw [hactive, hmap, h.active]
    tombstones := by rw [htomb, hfree, h.tombstones]
    dimensioned := fun hsize => hdim (hmap ▸ hsize) }

/-- A tombstone is used again for a new id. -/
theorem Inv.reuse (h : s.Inv) {s' : VectorStore} {idx : Nat} {rest : List Nat} {sl : Slot}
    (hfree : s.freeSlots = idx :: rest) (hnone : s.idToIdx.find? sl.id = none)
    (hdel : sl.deleted = false) (hslots : s'.slots = s.slots.modify idx fun _ => sl)
    (hmap : s'.idToIdx = s.idToIdx.insert sl.id idx) (hfree' : s'.freeSlots = rest)
    (hactive : s'.activeCount = s.activeCount + 1)
    (htomb : s'.tombstoneCount = s.tombstoneCount - 1) (hdim : s'.dimension ≠ 0) : s'.Inv := by
  have hbur : s.Buried idx := (h.free idx).mp (by simp [hfree])
  obtain ⟨old, hold, -⟩ := hbur
  have hnd := h.nodupFree
  rw [hfree, List.nodup_cons] at hnd
  have hlive : ∀ id j, s'.Live id j ↔ if idx = j then id = sl.id else s.Live id j := by
    intro id j
    unfold Live
    rw [hslots, modify_getElem?]
    by_cases hj : idx = j
    · subst hj
      simp only [if_true, hold, Option.map_some, Option.some.injEq, exists_eq_left', hdel,
        true_and]
      exact eq_comm
    · simp [hj]
  have hburied : ∀ j, s'.Buried j ↔ idx ≠ j ∧ s.Buried j := by
    intro j
    unfold Buried
    rw [hslots, modify_getElem?]
    by_cases hj : idx = j
    · subst hj
      simp [hold, hdel]
    · simp [hj]
  exact {
    live := by
      intro id j
      rw [hmap, hlive, AssocMap.find?_insert]
      by_cases hid : id = sl.id
      · subst hid
        by_cases hj : idx = j
        · simp [hj]
        · simp [hj, h.not_live hnone]
      · by_cases hj : idx = j
        · subst hj
          simp only [hid, if_false, if_true, iff_false]
          rw [h.live]
          exact not_live_of_buried ((h.free idx).mp (by simp [hfree]))
        · simp only [hid, hj, if_false, h.live]
    free := by
      intro j
      rw [hfree', hburied, ← h.free, hfree, List.mem_cons]
      constructor
      · intro hj
        exact ⟨fun he => hnd.1 (he ▸ hj), .inr hj⟩
      · rintro ⟨hne, he | hj⟩
        · exact absurd he.symm hne
        · exact hj
    nodupFree := hfree' ▸ hnd.2
    active := by
      have hk : sl.id ∉ s.idToIdx.keys := AssocMap.find?_eq_none.mp hnone
      rw [hactive, hmap, AssocMap.size_insert_of_not_mem hk, h.active]
    tombstones := by
      rw [htomb, hfree', h.tombstones, hfree]
      rfl
    dimensioned := fun _ => hdim }

/-- A new slot at the end. -/
theorem Inv.append (h : s.Inv) {s' : VectorStore} {sl : Slot}
    (hnone : s.idToIdx.find? sl.id = none) (hdel : sl.deleted = false)
    (hslots : s'.slots = s.slots ++ [sl])
    (hmap : s'.idToIdx = s.idToIdx.insert sl.id s.slots.length)
    (hfree : s'.freeSlots = s.freeSlots) (hactive : s'.activeCount = s.activeCount + 1)
    (htomb : s'.tombstoneCount = s.tombstoneCount) (hdim : s'.dimension ≠ 0) : s'.Inv := by
  have hget : ∀ j, s'.slots[j]? = if s.slots.length = j then some sl else s.slots[j]? := by
    intro j
    rw [hslots, List.getElem?_append]
    by_cases hj : j < s.slots.length
    · rw [if_pos hj, if_neg (by omega)]
    · rw [if_neg hj]
      by_cases he : s.slots.length = j
      · simp [he]
      · rw [if_neg he, List.getElem?_eq_none (by simp; omega),
          List.getElem?_eq_none (by omega)]
  have hend : s.slots[s.slots.length]? = none := List.getElem?_eq_none le_rfl
  have hlive : ∀ id j, s'.Live id j ↔
      if s.slots.length = j then id = sl.id else s.Live id j := by
    intro id j
    unfold Live
    rw [hget]
    by_cases hj : s.slots.length = j
    · simp only [hj, if_true, Option.some.injEq, exists_eq_left', hdel, true_and]
      exact eq_comm
    · simp [hj]
  have hburied : ∀ j, s'.Buried j ↔ s.Buried j := by
    intro j
    unfold Buried
    rw [hget]
    by_cases hj : s.slots.length = j
    · subst hj
      simp [hdel]
    · simp [hj]
  exact {
    live := by
      intro id j
      rw [hmap, hlive, AssocMap.find?_insert]
      by_cases hid : id = sl.id
      · subst hid
        by_cases hj : s.slots.length = j
        · simp [hj]
        · simp [hj, h.not_live hnone]
      · by_cases hj : s.slots.length = j
        · subst hj
          simp only [hid, if_false, if_true, iff_false]
          rw [h.live]
          rintro ⟨sl', hsl', -⟩
          rw [hend] at hsl'
          cases hsl'
        · simp only [hid, hj, if_false, h.live]
    free := fun j => by rw [hfree, hburied, h.free]
    nodupFree := hfree ▸ h.nodupFree
    active := by
      have hk : sl.id ∉ s.idToIdx.keys := AssocMap.find?_eq_none.mp hnone
      rw [hactive, hmap, AssocMap.size_insert_of_not_mem hk, h.active]
    tombstones := by rw [htomb, hfree, h.tombstones]
    dimensioned := fun _ => hdim }

/-- A vector with its norm and its mark goes to the slot of its id, to a tombstone or to the
    end. -/
def place (s : VectorStore) (id : Bytes) (row : List UInt32) (norm : UInt32) (normalized : Bool) :
    VectorStore :=
  match s.idToIdx.find? id with
  | some idx =>
    { s with
      slots := s.slots.modify idx fun sl =>
        { sl with row := row, norm := norm, normalized := normalized }
      generation := s.generation + 1 }
  | none =>
    match s.freeSlots with
    | idx :: rest =>
      { s with
        freeSlots := rest
        tombstoneCount := s.tombstoneCount - 1
        slots := s.slots.modify idx fun _ => ⟨id, row, norm, normalized, false⟩
        idToIdx := s.idToIdx.insert id idx
        activeCount := s.activeCount + 1
        generation := s.generation + 1 }
    | [] =>
      { s with
        slots := s.slots ++ [⟨id, row, norm, normalized, false⟩]
        idToIdx := s.idToIdx.insert id s.slots.length
        activeCount := s.activeCount + 1
        generation := s.generation + 1 }

theorem writeVector_eq_place :
    s.writeVector l2Norm id vec = s.place id vec (l2Norm vec) false := rfl

theorem Inv.place (h : s.Inv) (hdim : s.dimension ≠ 0) {norm : UInt32} {normalized : Bool} :
    (s.place id vec norm normalized).Inv := by
  unfold VectorStore.place
  cases hf : s.idToIdx.find? id with
  | some idx =>
    exact h.overwrite
      (f := fun sl => { sl with row := vec, norm := norm, normalized := normalized })
      (fun _ => rfl) (fun _ => rfl) rfl rfl rfl rfl rfl fun _ => hdim
  | none =>
    have hnone : s.idToIdx.find? (⟨id, vec, norm, normalized, false⟩ : Slot).id = none := hf
    cases hfree : s.freeSlots with
    | cons idx rest => apply h.reuse hfree hnone <;> first | rfl | exact hdim
    | nil => apply h.append hnone <;> first | rfl | exact hfree.symm | exact hdim

theorem Inv.writeVector (h : s.Inv) (hdim : s.dimension ≠ 0) :
    (s.writeVector l2Norm id vec).Inv := h.place hdim

theorem ids_writeVector : ∀ id', id' ∈ (s.writeVector l2Norm id vec).ids ↔
    id' = id ∨ id' ∈ s.ids := by
  intro id'
  unfold VectorStore.writeVector
  cases hf : s.idToIdx.find? id with
  | some idx =>
    have hin : id ∈ s.ids := AssocMap.mem_keys.mpr ⟨idx, hf⟩
    constructor
    · exact .inr
    · rintro (rfl | h)
      · exact hin
      · exact h
  | none =>
    cases hfree : s.freeSlots <;> exact AssocMap.mem_keys_insert

/-- What `ValidateVector` accepts. -/
theorem validateVector_ok (h : s.validateVector l2Norm id vec = .ok ()) :
    id ≠ [] ∧ vec.length ≠ 0 ∧ vec.length ≤ kMaxVectorDimension ∧ vec.all isFiniteFloat = true ∧
      isFiniteFloat (l2Norm vec) = true ∧ (s.dimension = 0 ∨ vec.length = s.dimension) := by
  unfold validateVector at h
  by_cases hid : id = []
  · simp [hid] at h
  by_cases hvec : vec = []
  · simp [hid, hvec] at h
  by_cases hlen : vec.length > kMaxVectorDimension
  · simp [hid, hvec, hlen] at h
  by_cases hall : vec.all isFiniteFloat = true
  swap
  · simp only [if_neg hid, if_neg hvec, if_neg hlen, if_pos hall] at h
    cases h
  by_cases hnorm : isFiniteFloat (l2Norm vec) = true
  swap
  · simp only [if_neg hid, if_neg hvec, if_neg hlen, if_neg (not_not.mpr hall), if_pos hnorm] at h
    cases h
  by_cases hdim : s.dimension > 0 ∧ vec.length ≠ s.dimension
  · simp only [if_neg hid, if_neg hvec, if_neg hlen, if_neg (not_not.mpr hall),
      if_neg (not_not.mpr hnorm), if_pos hdim] at h
    cases h
  have hpos : vec.length ≠ 0 := fun h0 => hvec (List.eq_nil_of_length_eq_zero h0)
  exact ⟨hid, hpos, by omega, hall, hnorm, by omega⟩

/-- `SetVector` succeeds exactly on what `ValidateVector` accepts. -/
theorem setVector_ok (h : s.validateVector l2Norm id vec = .ok ()) :
    ∃ dim, dim ≠ 0 ∧ s.setVector l2Norm id vec =
      ({ s with dimension := dim }.writeVector l2Norm id vec, .ok ()) := by
  obtain ⟨-, hvec, -, -, -, hdim⟩ := validateVector_ok h
  refine ⟨if s.dimension = 0 then vec.length else s.dimension, ?_, ?_⟩
  · split <;> assumption
  · have heq : ¬ vec.length ≠ if s.dimension = 0 then vec.length else s.dimension := by
      split <;> omega
    simp only [setVector, h, if_neg heq]

theorem setVector_error {e : Error} (h : s.validateVector l2Norm id vec = .error e) :
    s.setVector l2Norm id vec = (s, .error e) := by
  simp [setVector, h]

theorem Inv.setVector (h : s.Inv) : (s.setVector l2Norm id vec).1.Inv := by
  cases hv : s.validateVector l2Norm id vec with
  | error e => rw [setVector_error hv]; exact h
  | ok u =>
    obtain ⟨dim, hdim, heq⟩ := setVector_ok hv
    rw [heq]
    have hs : Inv { s with dimension := dim } :=
      ⟨h.live, h.free, h.nodupFree, h.active, h.tombstones, fun _ => hdim⟩
    exact hs.writeVector hdim

/-- **The id of an accepted vector is there afterwards**, and the others stay. -/
theorem mem_ids_setVector (h : s.validateVector l2Norm id vec = .ok ()) {id' : Bytes} :
    id' ∈ (s.setVector l2Norm id vec).1.ids ↔ id' = id ∨ id' ∈ s.ids := by
  obtain ⟨dim, -, heq⟩ := setVector_ok h
  rw [heq]
  exact ids_writeVector id'

/-! ## 4. `Defragment` and `DeleteVector` -/

theorem find?_indexSlots {l : List Slot} (hnd : (l.map Slot.id).Nodup) (n : Nat)
    (m : AssocMap Bytes Nat) (id : Bytes) (i : Nat) :
    (indexSlots n l m).find? id = some i ↔
      (∃ k sl, l[k]? = some sl ∧ sl.id = id ∧ i = n + k) ∨
        (id ∉ l.map Slot.id ∧ m.find? id = some i) := by
  induction l generalizing n m with
  | nil => simp [indexSlots]
  | cons sl l ih =>
    rw [List.map_cons, List.nodup_cons] at hnd
    rw [indexSlots, ih hnd.2, AssocMap.find?_insert]
    constructor
    · rintro (⟨k, sl', hk, hid, rfl⟩ | ⟨hno, hf⟩)
      · exact .inl ⟨k + 1, sl', by simpa using hk, hid, by omega⟩
      · split at hf
        · rename_i he
          exact .inl ⟨0, sl, rfl, he.symm, by cases hf; rfl⟩
        · rename_i he
          exact .inr ⟨by simp [he, hno], hf⟩
    · rintro (⟨k, sl', hk, hid, rfl⟩ | ⟨hno, hf⟩)
      · cases k with
        | zero =>
          simp only [List.getElem?_cons_zero, Option.some.injEq] at hk
          subst hk
          exact .inr ⟨hid ▸ hnd.1, by simp [hid]⟩
        | succ k =>
          exact .inl ⟨k, sl', by simpa using hk, hid, by omega⟩
      · rw [List.map_cons, List.mem_cons, not_or] at hno
        exact .inr ⟨hno.2, by rw [if_neg hno.1]; exact hf⟩

/-- The live slots. -/
def liveSlots (s : VectorStore) : List Slot := s.slots.filter fun sl => !sl.deleted

theorem mem_liveSlots {sl : Slot} : sl ∈ s.liveSlots ↔ sl ∈ s.slots ∧ sl.deleted = false := by
  simp [liveSlots]

theorem Inv.nodup_liveSlots (h : s.Inv) : (s.liveSlots.map Slot.id).Nodup := by
  rw [List.Nodup, List.pairwise_map, liveSlots, List.pairwise_filter, List.pairwise_iff_getElem]
  intro i j hi hj hij hli hlj he
  have hfi : s.Live s.slots[i].id i := ⟨_, List.getElem?_eq_getElem hi, by simpa using hli, rfl⟩
  have hfj : s.Live s.slots[i].id j :=
    ⟨_, List.getElem?_eq_getElem hj, by simpa using hlj, he.symm⟩
  rw [← h.live] at hfi hfj
  rw [hfi, Option.some.injEq] at hfj
  omega

theorem Inv.mem_map_liveSlots (h : s.Inv) : id ∈ s.liveSlots.map Slot.id ↔ id ∈ s.ids := by
  rw [h.mem_ids_iff, List.mem_map]
  constructor
  · rintro ⟨sl, hsl, hid⟩
    obtain ⟨hmem, hdel⟩ := mem_liveSlots.1 hsl
    obtain ⟨idx, hidx⟩ := List.mem_iff_getElem?.mp hmem
    exact ⟨idx, sl, hidx, hdel, hid⟩
  · rintro ⟨idx, sl, hsl, hdel, hid⟩
    exact ⟨sl, mem_liveSlots.2 ⟨List.mem_of_getElem? hsl, hdel⟩, hid⟩

/-- The id map of the compacted store has the ids it had. -/
theorem Inv.mem_keys_indexSlots (h : s.Inv) :
    id ∈ (indexSlots 0 s.liveSlots .empty).keys ↔ id ∈ s.ids := by
  rw [AssocMap.mem_keys, ← h.mem_map_liveSlots]
  simp only [find?_indexSlots h.nodup_liveSlots, AssocMap.find?_empty, reduceCtorEq, and_false,
    or_false]
  constructor
  · rintro ⟨i, k, sl, hk, hid, -⟩
    exact List.mem_map.mpr ⟨sl, List.mem_of_getElem? hk, hid⟩
  · intro hm
    obtain ⟨sl, hsl, hid⟩ := List.mem_map.mp hm
    obtain ⟨k, hk⟩ := List.mem_iff_getElem?.mp hsl
    exact ⟨0 + k, k, sl, hk, hid, rfl⟩

theorem Inv.ids_eq_nil (h : s.Inv) (h0 : s.dimension = 0 ∨ s.activeCount = 0) : s.ids = [] := by
  have hsize : s.idToIdx.size = 0 := by
    rcases h0 with h0 | h0
    · by_contra hne
      exact h.dimensioned hne h0
    · rw [← h.active, h0]
  rw [← AssocMap.length_keys] at hsize
  exact List.eq_nil_of_length_eq_zero hsize

theorem Inv.mem_ids_defragmentLocked (h : s.Inv) :
    id ∈ s.defragmentLocked.ids ↔ id ∈ s.ids := by
  unfold defragmentLocked
  split
  · rename_i h0
    rw [h.ids_eq_nil h0]
    rfl
  · exact h.mem_keys_indexSlots

theorem Inv.defragmentLocked (h : s.Inv) : s.defragmentLocked.Inv := by
  unfold VectorStore.defragmentLocked
  split
  · exact ⟨by simp [Live], by simp [Buried], List.nodup_nil, rfl, rfl,
      by simp [AssocMap.size, AssocMap.empty]⟩
  · rename_i h0
    have hsize : (indexSlots 0 s.liveSlots .empty).size = s.idToIdx.size :=
      AssocMap.size_eq_of_mem_keys fun id => h.mem_keys_indexSlots
    exact {
      live := by
        intro id idx
        show (indexSlots 0 s.liveSlots .empty).find? id = some idx ↔
          ∃ sl, s.liveSlots[idx]? = some sl ∧ sl.deleted = false ∧ sl.id = id
        rw [find?_indexSlots h.nodup_liveSlots]
        simp only [AssocMap.find?_empty, reduceCtorEq, and_false, or_false, Nat.zero_add]
        constructor
        · rintro ⟨k, sl, hk, hid, rfl⟩
          exact ⟨sl, hk, (mem_liveSlots.1 (List.mem_of_getElem? hk)).2, hid⟩
        · rintro ⟨sl, hk, -, hid⟩
          exact ⟨idx, sl, hk, hid, rfl⟩
      free := by
        intro idx
        show idx ∈ [] ↔ ∃ sl, s.liveSlots[idx]? = some sl ∧ sl.deleted = true
        constructor
        · intro hm
          cases hm
        · rintro ⟨sl, hk, hdel⟩
          rw [(mem_liveSlots.1 (List.mem_of_getElem? hk)).2] at hdel
          cases hdel
      nodupFree := List.nodup_nil
      active := h.active.trans hsize.symm
      tombstones := rfl
      dimensioned := fun _ hd => h0 (.inl hd) }

theorem Inv.generation (h : s.Inv) (n : Nat) : Inv { s with generation := n } :=
  ⟨h.live, h.free, h.nodupFree, h.active, h.tombstones, h.dimensioned⟩

theorem Inv.defragment (h : s.Inv) : s.defragment.Inv := h.defragmentLocked.generation _

/-- **Compaction changes no id.** -/
theorem Inv.mem_ids_defragment (h : s.Inv) {id : Bytes} : id ∈ s.defragment.ids ↔ id ∈ s.ids :=
  h.mem_ids_defragmentLocked

theorem Inv.bury (h : s.Inv) {idx : Nat} (hf : s.idToIdx.find? id = some idx) :
    (s.bury id idx).Inv := by
  obtain ⟨sl, hsl, hdel, hid⟩ := (h.live id idx).mp hf
  have hlive : ∀ id' j, (s.bury id idx).Live id' j ↔ idx ≠ j ∧ s.Live id' j := by
    intro id' j
    unfold Live VectorStore.bury
    rw [modify_getElem?]
    by_cases hj : idx = j
    · subst hj
      simp [hsl]
    · simp [hj]
  have hburied : ∀ j, (s.bury id idx).Buried j ↔ idx = j ∨ s.Buried j := by
    intro j
    unfold Buried VectorStore.bury
    rw [modify_getElem?]
    by_cases hj : idx = j
    · subst hj
      simp [hsl]
    · simp [hj]
  have hnot : idx ∉ s.freeSlots := fun hm =>
    not_live_of_buried ((h.free idx).mp hm) ⟨sl, hsl, hdel, hid⟩
  have hk : id ∈ s.idToIdx.keys := AssocMap.mem_keys.mpr ⟨idx, hf⟩
  exact {
    live := by
      intro id' j
      rw [hlive]
      show (s.idToIdx.erase id).find? id' = some j ↔ _
      rw [AssocMap.find?_erase]
      by_cases he : id' = id
      · subst he
        rw [if_pos rfl, ← h.live, hf]
        simp only [reduceCtorEq, Option.some.injEq, false_iff, not_and]
        exact fun hne hj => hne hj
      · rw [if_neg he, h.live]
        constructor
        · intro hl
          refine ⟨fun hj => he ?_, hl⟩
          subst hj
          obtain ⟨sl', hsl', -, hid'⟩ := hl
          rw [hsl, Option.some.injEq] at hsl'
          rw [← hid', ← hid, hsl']
        · exact And.right
    free := by
      intro j
      rw [hburied, ← h.free]
      show j ∈ idx :: s.freeSlots ↔ _
      rw [List.mem_cons, eq_comm]
    nodupFree := List.nodup_cons.mpr ⟨hnot, h.nodupFree⟩
    active := by
      show s.activeCount - 1 = (s.idToIdx.erase id).size
      rw [AssocMap.size_erase_of_mem hk, h.active]
    tombstones := by
      show s.tombstoneCount + 1 = (idx :: s.freeSlots).length
      rw [List.length_cons, h.tombstones]
    dimensioned := by
      intro hsize
      apply h.dimensioned
      intro h0
      apply hsize
      show (s.idToIdx.erase id).size = 0
      rw [AssocMap.size_erase_of_mem hk, h0] }

theorem mem_ids_bury (idx : Nat) {id' : Bytes} :
    id' ∈ (s.bury id idx).ids ↔ id' ≠ id ∧ id' ∈ s.ids := AssocMap.mem_keys_erase

theorem Inv.deleteVector (h : s.Inv) : (s.deleteVector id).1.Inv := by
  unfold VectorStore.deleteVector
  cases hf : s.idToIdx.find? id with
  | none => exact h
  | some idx =>
    show Inv { (if _ then _ else _ : VectorStore) with generation := _ }
    split
    · exact (h.bury hf).defragmentLocked.generation _
    · exact (h.bury hf).generation _

/-- `DeleteVector` succeeds exactly on the ids that are there. -/
theorem deleteVector_snd : (s.deleteVector id).2 = true ↔ id ∈ s.ids := by
  unfold deleteVector
  rw [mem_ids]
  cases hf : s.idToIdx.find? id with
  | none => simp [getCompactIndex, hf]
  | some idx => simp [getCompactIndex, hf]

/-- **After `DeleteVector` the id is gone**, and the others stay. -/
theorem Inv.mem_ids_deleteVector (h : s.Inv) {id' : Bytes} :
    id' ∈ (s.deleteVector id).1.ids ↔ id' ≠ id ∧ id' ∈ s.ids := by
  unfold VectorStore.deleteVector
  cases hf : s.idToIdx.find? id with
  | none =>
    refine ⟨fun hm => ⟨fun he => ?_, hm⟩, And.right⟩
    exact AssocMap.find?_eq_none.mp hf (he ▸ hm)
  | some idx =>
    show id' ∈ VectorStore.ids { (if _ then _ else _ : VectorStore) with generation := _ } ↔ _
    split
    · exact (h.bury hf).mem_ids_defragmentLocked.trans (mem_ids_bury idx)
    · exact mem_ids_bury idx

end VectorStore

end Nvecd.Vectors
