/-
  File:      Nvecd/Vectors/TieredStore.lean
  Subject:   `vectors/tiered_vector_store.cpp`: vectors in a main tier with an HNSW index and a
             delta tier without one.

  Where an id is, is written in a map. In the main tier a slot that is given up is only marked, in
  the delta tier the last slot takes its place; a merge appends the delta to the main tier, and a
  rebuild moves what is left of the main tier together. A slot is one index of `matrix` and `ids`;
  the norms, which nothing reads, are left out. An operation answers `none` when the source leaves
  an array.

  * `add`, `delete`, `mergeDeltaToMain`, `rebuildMain`, `TieredOp`, `step`;
  * `TieredContents` -- what a store is for: a vector for each id;
  * `TieredVectorStore.Inv` -- the map leads to every slot that is not given up, and the index has
    the vector of each of them;
  * `Holds.step` -- every operation keeps it, and does to the contents what it is for.
-/
import Mathlib.Data.Finset.Card
import Nvecd.Lib.AssocMap
import Nvecd.Lib.Located
import Nvecd.Vectors.HnswNorms
import Nvecd.Vectors.VectorStore

namespace Nvecd.Vectors

open Nvecd.Lib Nvecd.Storage Nvecd.Utils

/-! ## 1. The tiers -/

structure TierSlot (F : Type) where
  id : Bytes
  row : List F
  deriving DecidableEq

inductive StoreLocation where
  | kMain
  | kDelta
  deriving DecidableEq, Repr

structure IdLocation where
  store : StoreLocation
  compactIndex : Nat
  deriving DecidableEq, Repr

/-- What `TieredVectorStore::Config` says about the index. -/
structure TieredConfig where
  hnswM : Nat := 16
  hnswEfConstruction : Nat := 200
  hnswEfSearch : Nat := 50

structure MainStore (F : Type) where
  slots : List (TierSlot F) := []
  index : Option (HnswIndex F) := none
  deleted : Finset Nat := ∅

/-- The members of `TieredVectorStore`. -/
structure TieredVectorStore (F : Type) where
  config : TieredConfig
  dimension : Nat := 0
  main : MainStore F := {}
  delta : List (TierSlot F) := []
  idLocation : AssocMap Bytes IdLocation := .empty

variable {F : Type}

namespace MainStore

variable (main : MainStore F)

/-- `ActiveSize`. -/
def activeSize : Nat := main.slots.length - main.deleted.card

/-- `TotalSlots`. -/
def totalSlots : Nat := main.slots.length % 2 ^ 32

/-- The slot, unless it is given up. -/
def liveSlot (i : Nat) : Option (TierSlot F) := if i ∈ main.deleted then none else main.slots[i]?

end MainStore

/-- `TotalSize`. -/
def TieredVectorStore.totalSize (s : TieredVectorStore F) : Nat :=
  s.main.activeSize + s.delta.length

/-- The slots from the `i`-th on that are not given up. -/
def keptSlots (deleted : Finset Nat) : Nat → List (TierSlot F) → List (TierSlot F)
  | _, [] => []
  | i, slot :: rest =>
    if i ∈ deleted then keptSlots deleted (i + 1) rest else slot :: keptSlots deleted (i + 1) rest

/-- `id_location_` for slots that come to the main tier, from the `n`-th on. -/
def relocate : Nat → List (TierSlot F) → AssocMap Bytes IdLocation → AssocMap Bytes IdLocation
  | _, [], m => m
  | n, slot :: rest, m => relocate (n + 1) rest (m.insert slot.id ⟨.kMain, n % 2 ^ 32⟩)

/-- `Add` of the index for the slots from the `i`-th on that are not given up. -/
def indexSlotsFrom (fl : HnswMetric F) (deleted : Finset Nat) :
    Nat → List (TierSlot F) → HnswIndex F → Option (HnswIndex F)
  | _, [], g => some g
  | i, slot :: rest, g =>
    if i ∈ deleted then indexSlotsFrom fl deleted (i + 1) rest g
    else
      match g.add fl i fun k => (slot.row[k]?).getD fl.zero with
      | none => none
      | some g => indexSlotsFrom fl deleted (i + 1) rest g

namespace TieredVectorStore

variable (fl : HnswMetric F) (s : TieredVectorStore F)

/-! ## 2. The operations -/

/-- `RemoveFromDelta`. -/
def removeFromDelta (deltaIdx : Nat) : Option (TieredVectorStore F) :=
  match s.delta[deltaIdx]?, s.delta.getLast? with
  | some _, some last =>
    if deltaIdx ≠ s.delta.length - 1 then
      some { s with
        delta := (s.delta.set deltaIdx last).dropLast
        idLocation := s.idLocation.insert last.id ⟨.kDelta, deltaIdx⟩ }
    else some { s with delta := s.delta.dropLast }
  | _, _ => none

/-- An id that is there is deleted first; the index of the main tier is not told. -/
def deleteFirst (id : Bytes) : Option (TieredVectorStore F) :=
  match s.idLocation.find? id with
  | none => some s
  | some ⟨.kMain, i⟩ =>
    some { s with
      main := { s.main with deleted := insert i s.main.deleted }
      idLocation := s.idLocation.erase id }
  | some ⟨.kDelta, i⟩ =>
    (s.removeFromDelta i).map fun s => { s with idLocation := s.idLocation.erase id }

/-- The new slot at the end of the delta tier. -/
def appendToDelta (id : Bytes) (vec : List F) : TieredVectorStore F :=
  { s with
    delta := s.delta ++ [⟨id, vec⟩]
    idLocation := s.idLocation.insert id ⟨.kDelta, s.delta.length % 2 ^ 32⟩ }

/-- `Add`. -/
def add (id : Bytes) (vec : List F) : Option (TieredVectorStore F × Except Error Unit) :=
  if s.dimension = 0 ∧ vec = [] then
    some (s, .error (makeError .kVectorInvalidDimension "Cannot add empty vector"))
  else
    let dim := if s.dimension = 0 then vec.length % 2 ^ 32 else s.dimension
    let s := { s with dimension := dim }
    if vec.length ≠ dim then
      some (s, .error (makeError .kVectorDimensionMismatch
        ("Expected dimension " ++ toString dim ++ ", got " ++ toString vec.length)))
    else (s.deleteFirst id).map fun s => (s.appendToDelta id vec, .ok ())

/-- `Update`. -/
def update (id : Bytes) (vec : List F) : Option (TieredVectorStore F × Except Error Unit) :=
  s.add id vec

/-- `MarkDeleted` of the index, if there is one. -/
def markInIndex (i : Nat) : Option (Option (HnswIndex F)) :=
  match s.main.index with
  | none => some none
  | some g => (g.markDeleted fl i).map some

/-- `Delete`. -/
def delete (id : Bytes) : Option (TieredVectorStore F × Except Error Unit) :=
  match s.idLocation.find? id with
  | none => some (s, .error (makeError .kNotFound ("Vector not found: " ++ textOf id)))
  | some ⟨.kMain, i⟩ =>
    (s.markInIndex fl i).map fun index =>
      ({ s with
        main := { s.main with index := index, deleted := insert i s.main.deleted }
        idLocation := s.idLocation.erase id }, .ok ())
  | some ⟨.kDelta, i⟩ =>
    (s.removeFromDelta i).map fun s => ({ s with idLocation := s.idLocation.erase id }, .ok ())

/-- `RebuildMainIndex`; what the new index will draw is given. -/
def rebuildMainIndex (levelDraws : Nat → Nat) : Option (TieredVectorStore F) :=
  if s.main.activeSize = 0 then some { s with main := { s.main with index := none } }
  else
    let config : HnswConfig := {
      m := s.config.hnswM
      efConstruction := s.config.hnswEfConstruction
      efSearch := s.config.hnswEfSearch }
    (indexSlotsFrom fl s.main.deleted 0 s.main.slots (.new config s.dimension levelDraws)).map
      fun g => { s with main := { s.main with index := some g } }

/-- `MergeDeltaToMain`. -/
def mergeDeltaToMain (levelDraws : Nat → Nat) : Option (TieredVectorStore F) :=
  if s.delta = [] then some s
  else
    { s with
      main := { s.main with slots := s.main.slots ++ s.delta }
      delta := []
      idLocation := relocate s.main.slots.length s.delta s.idLocation }.rebuildMainIndex fl
        levelDraws

/-- `RebuildMain`. -/
def rebuildMain (levelDraws : Nat → Nat) : Option (TieredVectorStore F) :=
  if s.main.deleted = ∅ then some s
  else
    let kept := keptSlots s.main.deleted 0 s.main.slots
    { s with
      main := { s.main with slots := kept, deleted := ∅ }
      idLocation := relocate 0 kept s.idLocation }.rebuildMainIndex fl levelDraws

end TieredVectorStore

/-- An operation on the store; a merge and a rebuild come with what the new index will draw. -/
inductive TieredOp (F : Type) where
  | add (id : Bytes) (vec : List F)
  | update (id : Bytes) (vec : List F)
  | delete (id : Bytes)
  | mergeDeltaToMain (levelDraws : Nat → Nat)
  | rebuildMain (levelDraws : Nat → Nat)

namespace TieredVectorStore

def new (config : TieredConfig) : TieredVectorStore F := { config := config }

def step (fl : HnswMetric F) (s : TieredVectorStore F) : TieredOp F → Option (TieredVectorStore F)
  | .add id vec => (s.add id vec).map Prod.fst
  | .update id vec => (s.update id vec).map Prod.fst
  | .delete id => (s.delete fl id).map Prod.fst
  | .mergeDeltaToMain levelDraws => s.mergeDeltaToMain fl levelDraws
  | .rebuildMain levelDraws => s.rebuildMain fl levelDraws

/-- Slots keep numbers below `UINT32_MAX`. -/
def BelowMax (s : TieredVectorStore F) (_ : TieredOp F) : Prop :=
  s.main.slots.length + s.delta.length < uint32Max

instance (s : TieredVectorStore F) (op : TieredOp F) : Decidable (s.BelowMax op) :=
  inferInstanceAs (Decidable (_ < _))

/-! ## 3. What a store is for -/

/-- The slot at a location, unless it is given up. -/
def slotAt (s : TieredVectorStore F) (loc : IdLocation) : Option (TierSlot F) :=
  match loc.store with
  | .kMain => s.main.liveSlot loc.compactIndex
  | .kDelta => s.delta[loc.compactIndex]?

/-- The vector of an id, where the map leads. -/
def vectorOf (s : TieredVectorStore F) (id : Bytes) : Option (List F) :=
  (held s.idLocation.find? s.slotAt id).map TierSlot.row

end TieredVectorStore

/-- **What a store is for**: a vector for each id, all of one dimension that the first one sets. -/
structure TieredContents (F : Type) where
  dimension : Nat := 0
  vectorOf : Bytes → Option (List F) := fun _ => none

namespace TieredContents

def set (t : TieredContents F) (id : Bytes) (vec : List F) : TieredContents F :=
  if t.dimension = 0 ∧ vec = [] then t
  else
    let dim := if t.dimension = 0 then vec.length % 2 ^ 32 else t.dimension
    if vec.length ≠ dim then { t with dimension := dim }
    else { dimension := dim, vectorOf := Function.update t.vectorOf id (some vec) }

/-- Merging and rebuilding leave everything as it is. -/
def apply (t : TieredContents F) : TieredOp F → TieredContents F
  | .add id vec => t.set id vec
  | .update id vec => t.set id vec
  | .delete id => { t with vectorOf := Function.update t.vectorOf id none }
  | .mergeDeltaToMain _ => t
  | .rebuildMain _ => t

end TieredContents

/-! ## 4. The invariant -/

namespace TieredVectorStore

/-- **The index of the main tier** has the vector of every slot that is not given up, and of the
    others at most the one they had. -/
inductive Indexed (fl : HnswMetric F) (dimension : Nat) (main : MainStore F) :
    Option (HnswIndex F) → Prop
  | empty (h : ∀ i, main.liveSlot i = none) : Indexed fl dimension main none
  | built {g : HnswIndex F} {live : Nat → Option (List F)} (inv : g.Inv live)
      (normed : g.Normed fl) (dim : g.dimension = dimension)
      (held : ∀ c v, live c = some v → ∃ slot, main.slots[c]? = some slot ∧ slot.row = v)
      (covers : ∀ i slot, main.liveSlot i = some slot → live i = some slot.row) :
      Indexed fl dimension main (some g)

/-- **What the store keeps.** -/
structure Inv (fl : HnswMetric F) (s : TieredVectorStore F) : Prop where
  /-- The map leads to the slots that are not given up, to each from its id. -/
  located : Located TierSlot.id s.idLocation.find? s.slotAt
  tombs : ∀ i ∈ s.main.deleted, i < s.main.slots.length
  mainRows : ∀ slot ∈ s.main.slots, slot.row.length = s.dimension
  deltaRows : ∀ slot ∈ s.delta, slot.row.length = s.dimension
  unset : s.dimension = 0 → s.main.slots = [] ∧ s.delta = [] ∧ s.main.index = none
  indexed : Indexed fl s.dimension s.main s.main.index
  fewSlots : s.main.slots.length + s.delta.length ≤ uint32Max

/-- The store keeps its invariant and has these contents. -/
structure Holds (fl : HnswMetric F) (s : TieredVectorStore F) (t : TieredContents F) : Prop where
  inv : s.Inv fl
  dimension : s.dimension = t.dimension
  vectorOf : s.vectorOf = t.vectorOf

variable {s : TieredVectorStore F} {t : TieredContents F} {fl : HnswMetric F}

theorem holds_new (config : TieredConfig) : (new config : TieredVectorStore F).Holds fl {} where
  inv := {
    located := fun id loc => by
      constructor
      · nofun
      · rintro ⟨slot, hslot, -⟩
        cases hstore : loc.store <;> simp [slotAt, new, MainStore.liveSlot, hstore] at hslot
    tombs := nofun
    mainRows := nofun
    deltaRows := nofun
    unset := fun _ => ⟨rfl, rfl, rfl⟩
    indexed := .empty fun i => rfl
    fewSlots := Nat.zero_le _ }
  dimension := rfl
  vectorOf := rfl

/-! ## 5. Giving a slot up -/

theorem nodup_of_located {find : Bytes → Option IdLocation}
    {place : IdLocation → Option (TierSlot F)} (h : Located TierSlot.id find place)
    {slots : List (TierSlot F)} (locOf : Nat → IdLocation)
    (hinj : Function.Injective locOf) (hplace : ∀ i, place (locOf i) = slots[i]?) :
    (slots.map TierSlot.id).Nodup := by
  refine List.nodup_iff_injective_get.mpr fun i j hij => Fin.ext (hinj ?_)
  have hi : i.1 < slots.length := by simpa using i.2
  have hj : j.1 < slots.length := by simpa using j.2
  exact h.unique ((hplace i).trans (List.getElem?_eq_getElem hi))
    ((hplace j).trans (List.getElem?_eq_getElem hj)) (by simpa using hij)

/-- **What is left** when the slot of an id is given up. -/
structure Dropped (fl : HnswMetric F) (s : TieredVectorStore F) (id : Bytes)
    (s' : TieredVectorStore F) : Prop where
  inv : s'.Inv fl
  gone : s'.idLocation.find? id = none
  dimension : s'.dimension = s.dimension
  vectorOf : s'.vectorOf = Function.update s.vectorOf id none
  fewer : s'.main.slots.length + s'.delta.length ≤ s.main.slots.length + s.delta.length

theorem find?_erase_eq (m : AssocMap Bytes IdLocation) (id : Bytes) :
    (m.erase id).find? = Function.update m.find? id none := by
  funext id'
  rw [AssocMap.find?_erase, Function.update_apply]

theorem find?_insert_eq (m : AssocMap Bytes IdLocation) (id : Bytes) (loc : IdLocation) :
    (m.insert id loc).find? = Function.update m.find? id (some loc) := by
  funext id'
  rw [AssocMap.find?_insert, Function.update_apply]

theorem vectorOf_of_not_found (s : TieredVectorStore F) {id : Bytes}
    (h : s.idLocation.find? id = none) : s.vectorOf id = none := by
  rw [vectorOf, held, h]
  rfl

/-- The vectors after a change that drops an id. -/
theorem vectorOf_dropped {id : Bytes} {s' : TieredVectorStore F}
    (h : held s'.idLocation.find? s'.slotAt =
      Function.update (held s.idLocation.find? s.slotAt) id none) :
    s'.vectorOf = Function.update s.vectorOf id none := by
  funext id'
  unfold vectorOf
  rw [h, Function.update_apply, Function.update_apply]
  split
  · rfl
  · rfl

theorem liveSlot_insert (main : MainStore F) (i : Nat) (index : Option (HnswIndex F)) :
    MainStore.liveSlot { main with index := index, deleted := insert i main.deleted } =
      Function.update main.liveSlot i none := by
  funext j
  rw [Function.update_apply]
  by_cases hj : j = i
  · simp [MainStore.liveSlot, hj]
  · simp [MainStore.liveSlot, hj]

/-- **A slot of the main tier is given up**; the index may be told or not. -/
theorem Inv.dropMain (h : s.Inv fl) {id : Bytes} {i : Nat}
    (hfind : s.idLocation.find? id = some ⟨.kMain, i⟩) {index : Option (HnswIndex F)}
    (hindex : Indexed fl s.dimension
      { s.main with index := index, deleted := insert i s.main.deleted } index) :
    s.Dropped fl id { s with
      main := { s.main with index := index, deleted := insert i s.main.deleted }
      idLocation := s.idLocation.erase id } := by
  have hplace : slotAt { s with
      main := { s.main with index := index, deleted := insert i s.main.deleted },
      idLocation := s.idLocation.erase id } = Function.update s.slotAt ⟨.kMain, i⟩ none := by
    funext loc
    obtain ⟨store, j⟩ := loc
    cases store with
    | kMain =>
      refine (congrFun (liveSlot_insert s.main i index) j).trans ?_
      rw [Function.update_apply, Function.update_apply]
      simp [slotAt]
    | kDelta =>
      rw [Function.update_of_ne (by simp)]
      rfl
  obtain ⟨slot, hslot, -⟩ := h.located.place_eq hfind
  refine ⟨{ h with
    located := ?_
    tombs := fun j hj => ?_
    unset := fun hzero => ?_
    indexed := hindex }, ?_, rfl, ?_, le_rfl⟩
  · rw [hplace]
    show Located TierSlot.id (s.idLocation.erase id).find? _
    rw [find?_erase_eq]
    exact h.located.drop hfind
  · rcases Finset.mem_insert.mp hj with rfl | hj
    · have hsome : s.main.liveSlot j = some slot := hslot
      unfold MainStore.liveSlot at hsome
      split at hsome
      · cases hsome
      · exact (List.getElem?_eq_some_iff.mp hsome).1
    · exact h.tombs j hj
  · -- there is a slot, so the dimension is set
    have hsome : s.main.liveSlot i = some slot := hslot
    unfold MainStore.liveSlot at hsome
    rw [(h.unset hzero).1] at hsome
    split at hsome <;> cases hsome
  · show (s.idLocation.erase id).find? id = none
    rw [find?_erase_eq, Function.update_self]
  · refine vectorOf_dropped ?_
    rw [hplace]
    show held (s.idLocation.erase id).find? _ = _
    rw [find?_erase_eq]
    exact held_drop h.located hfind

/-- A change of the delta tier and of the map that drops an id. -/
theorem Inv.dropped (h : s.Inv fl) {id : Bytes} {delta : List (TierSlot F)}
    {m : AssocMap Bytes IdLocation} (hsub : ∀ x ∈ delta, x ∈ s.delta)
    (hlen : delta.length ≤ s.delta.length) {place : IdLocation → Option (TierSlot F)}
    (hplace : slotAt { s with delta := delta, idLocation := m } = place)
    (hlocated : Located TierSlot.id m.find? place) (hgone : m.find? id = none)
    (hheld : held m.find? place = Function.update (held s.idLocation.find? s.slotAt) id none) :
    s.Dropped fl id { s with delta := delta, idLocation := m } where
  inv := { h with
    located := hplace ▸ hlocated
    deltaRows := fun x hx => h.deltaRows x (hsub x hx)
    unset := fun hzero => by
      obtain ⟨hmain, hdelta, hindex⟩ := h.unset hzero
      refine ⟨hmain, List.eq_nil_iff_forall_not_mem.mpr fun x hx => ?_, hindex⟩
      have hold := hsub x hx
      rw [hdelta] at hold
      cases hold
    fewSlots := (Nat.add_le_add_left hlen _).trans h.fewSlots }
  gone := hgone
  dimension := rfl
  vectorOf := vectorOf_dropped (hplace ▸ hheld)
  fewer := Nat.add_le_add_left hlen _

/-- The slots when a tier loses its last one. -/
theorem slotAt_dropLast (s : TieredVectorStore F) (m : AssocMap Bytes IdLocation) :
    slotAt { s with delta := s.delta.dropLast, idLocation := m } =
      Function.update s.slotAt ⟨.kDelta, s.delta.length - 1⟩ none := by
  funext loc
  obtain ⟨store, j⟩ := loc
  cases store with
  | kMain =>
    rw [Function.update_of_ne (by simp)]
    rfl
  | kDelta =>
    show s.delta.dropLast[j]? = _
    rw [List.getElem?_dropLast, Function.update_apply]
    simp only [IdLocation.mk.injEq, true_and]
    by_cases hj : j = s.delta.length - 1
    · rw [if_neg (by omega), if_pos hj]
    · rw [if_neg hj]
      show _ = s.delta[j]?
      split
      · rfl
      · rw [List.getElem?_eq_none (by omega)]

/-- The slots when the last one takes the place of another. -/
theorem slotAt_moveLast (s : TieredVectorStore F) (m : AssocMap Bytes IdLocation) {i : Nat}
    (hi : i < s.delta.length - 1) (last : TierSlot F) :
    slotAt { s with delta := (s.delta.set i last).dropLast, idLocation := m } =
      Function.update (Function.update (Function.update s.slotAt ⟨.kDelta, i⟩ none)
        ⟨.kDelta, s.delta.length - 1⟩ none) ⟨.kDelta, i⟩ (some last) := by
  have hset : slotAt { s with delta := s.delta.set i last } =
      Function.update s.slotAt ⟨.kDelta, i⟩ (some last) := by
    funext loc
    obtain ⟨store, j⟩ := loc
    cases store with
    | kMain =>
      rw [Function.update_of_ne (by simp)]
      rfl
    | kDelta =>
      show (s.delta.set i last)[j]? = _
      rw [List.getElem?_set, Function.update_apply]
      simp only [IdLocation.mk.injEq, true_and, if_pos (Nat.lt_of_lt_of_le hi (Nat.sub_le _ 1)),
        eq_comm (a := j)]
      rfl
  have hdrop := slotAt_dropLast { s with delta := s.delta.set i last } m
  rw [hset, List.length_set] at hdrop
  have hne : (⟨.kDelta, i⟩ : IdLocation) ≠ ⟨.kDelta, s.delta.length - 1⟩ := by simpa using hi.ne
  refine hdrop.trans ?_
  have hcomm := fun v =>
    Function.update_comm (β := fun _ => Option (TierSlot F)) hne v none s.slotAt
  rw [hcomm (some last), hcomm none, Function.update_idem]

/-- **A slot of the delta tier is given up**, and the last one takes its place. -/
theorem Inv.dropDelta (h : s.Inv fl) {id : Bytes} {i : Nat}
    (hfind : s.idLocation.find? id = some ⟨.kDelta, i⟩) :
    ∃ s', s.removeFromDelta i = some s' ∧
      s.Dropped fl id { s' with idLocation := s'.idLocation.erase id } := by
  obtain ⟨slot, hslot, rfl⟩ := h.located.place_eq hfind
  have hslot' : s.delta[i]? = some slot := hslot
  have hi : i < s.delta.length := (List.getElem?_eq_some_iff.mp hslot').1
  obtain ⟨last, hlast⟩ : ∃ last, s.delta[s.delta.length - 1]? = some last :=
    ⟨_, List.getElem?_eq_getElem (by omega)⟩
  have hget : s.delta.getLast? = some last := by rw [List.getLast?_eq_getElem?, hlast]
  have hdrop := h.located.drop hfind
  have hheld := held_drop h.located hfind
  unfold removeFromDelta
  rw [hslot', hget]
  dsimp only
  split
  · rename_i hne
    have hatLast : s.slotAt ⟨.kDelta, s.delta.length - 1⟩ = some last := hlast
    have hids : last.id ≠ slot.id := by
      intro heq
      have hsame := h.located.unique hatLast hslot heq
      injection hsame with _ hsame
      exact hne hsame.symm
    have hlastPlace : Function.update s.slotAt ⟨.kDelta, i⟩ none ⟨.kDelta, s.delta.length - 1⟩ =
        some last := by
      rw [Function.update_of_ne (by simpa using Ne.symm hne), hatLast]
    have hempty : Function.update s.slotAt ⟨.kDelta, i⟩ none ⟨.kDelta, i⟩ = none :=
      Function.update_self ..
    have hfind' : ((s.idLocation.insert last.id ⟨.kDelta, i⟩).erase slot.id).find? =
        Function.update (Function.update s.idLocation.find? slot.id none) last.id
          (some ⟨.kDelta, i⟩) := by
      rw [find?_erase_eq, find?_insert_eq, Function.update_comm hids]
    refine ⟨_, rfl, h.dropped (fun x hx => ?_) (by simp)
      (slotAt_moveLast s _ (by omega) last) ?_ ?_ ?_⟩
    · rcases List.mem_or_eq_of_mem_set (List.mem_of_mem_dropLast hx) with hx | rfl
      · exact hx
      · exact List.mem_of_getElem? hlast
    · rw [hfind']
      exact hdrop.move hlastPlace hempty
    · rw [find?_erase_eq, Function.update_self]
    · rw [hfind', held_move hdrop hlastPlace hempty, hheld]
  · rename_i heq
    have heq : i = s.delta.length - 1 := not_not.mp heq
    refine ⟨_, rfl, h.dropped (fun x hx => List.mem_of_mem_dropLast hx) (by simp)
      (heq ▸ slotAt_dropLast s _) ?_ ?_ ?_⟩
    · rw [find?_erase_eq]
      exact hdrop
    · rw [find?_erase_eq, Function.update_self]
    · rw [find?_erase_eq, hheld]

/-! ## 6. Adding and deleting -/

/-- A slot that is given up is not told to the index. -/
theorem Indexed.insert {dimension : Nat} {main : MainStore F} {index : Option (HnswIndex F)}
    (h : Indexed fl dimension main index) (i : Nat) :
    Indexed fl dimension { main with index := index, deleted := insert i main.deleted } index := by
  have hlive : ∀ {j slot}, Function.update main.liveSlot i none j = some slot →
      main.liveSlot j = some slot := by
    intro j slot hj
    rw [Function.update_apply] at hj
    split at hj
    · cases hj
    · exact hj
  cases h with
  | empty h =>
    refine .empty fun j => ?_
    rw [liveSlot_insert, Function.update_apply, h j, ite_self]
  | built inv normed dim held covers =>
    refine .built inv normed dim held fun j slot hj => covers j slot (hlive ?_)
    rwa [liveSlot_insert] at hj

/-- A slot that is given up is told to the index. -/
theorem Inv.markInIndex (h : s.Inv fl) (i : Nat) :
    ∃ index, s.markInIndex fl i = some index ∧ Indexed fl s.dimension
      { s.main with index := index, deleted := insert i s.main.deleted } index := by
  have hindexed := h.indexed
  unfold TieredVectorStore.markInIndex
  cases hindex : s.main.index with
  | none =>
    rw [hindex] at hindexed
    exact ⟨none, rfl, hindexed.insert i⟩
  | some g =>
    rw [hindex] at hindexed
    cases hindexed with
    | built inv normed dim held covers =>
      obtain ⟨g', hmark, hinv, hdim, -⟩ := inv.markDeleted fl i
      refine ⟨some g', congrArg (Option.map some) hmark, .built hinv
        (normed.markDeleted inv hmark) (hdim.trans dim) ?_ ?_⟩
      · intro c v hv
        rw [Function.update_apply] at hv
        split at hv
        · cases hv
        · exact held c v hv
      · intro j slot hj
        rw [liveSlot_insert, Function.update_apply] at hj
        split at hj
        · cases hj
        · rename_i hne
          rw [Function.update_of_ne hne]
          exact covers j slot hj

/-- **`Delete`.** -/
theorem Holds.delete (h : s.Holds fl t) (id : Bytes) :
    ∃ s', (s.delete fl id).map Prod.fst = some s' ∧
      s'.Holds fl { t with vectorOf := Function.update t.vectorOf id none } := by
  have hdropped : ∀ {s'}, s.Dropped fl id s' →
      s'.Holds fl { t with vectorOf := Function.update t.vectorOf id none } := fun hd =>
    ⟨hd.inv, hd.dimension.trans h.dimension, by rw [hd.vectorOf, h.vectorOf]⟩
  unfold TieredVectorStore.delete
  cases hfind : s.idLocation.find? id with
  | none =>
    refine ⟨s, rfl, h.inv, h.dimension, ?_⟩
    have hnone := s.vectorOf_of_not_found hfind
    show s.vectorOf = Function.update t.vectorOf id none
    rw [← h.vectorOf, ← hnone, Function.update_eq_self]
  | some loc =>
    obtain ⟨store, i⟩ := loc
    cases store with
    | kMain =>
      obtain ⟨index, hmark, hindexed⟩ := h.inv.markInIndex i
      dsimp only
      rw [hmark]
      exact ⟨_, rfl, hdropped (h.inv.dropMain hfind hindexed)⟩
    | kDelta =>
      obtain ⟨s₁, hremove, hdrop⟩ := h.inv.dropDelta hfind
      dsimp only
      rw [hremove]
      exact ⟨_, rfl, hdropped hdrop⟩

/-- **An id that is there is deleted first.** -/
theorem Inv.deleteFirst (h : s.Inv fl) (id : Bytes) :
    ∃ s', s.deleteFirst id = some s' ∧ s.Dropped fl id s' := by
  unfold TieredVectorStore.deleteFirst
  cases hfind : s.idLocation.find? id with
  | none =>
    have hnone := s.vectorOf_of_not_found hfind
    refine ⟨s, rfl, h, hfind, rfl, ?_, le_rfl⟩
    rw [← hnone, Function.update_eq_self]
  | some loc =>
    obtain ⟨store, i⟩ := loc
    cases store with
    | kMain => exact ⟨_, rfl, h.dropMain hfind (h.indexed.insert i)⟩
    | kDelta =>
      obtain ⟨s₁, hremove, hdrop⟩ := h.dropDelta hfind
      dsimp only
      rw [hremove]
      exact ⟨_, rfl, hdrop⟩

theorem slotAt_append (s : TieredVectorStore F) (x : TierSlot F) (m : AssocMap Bytes IdLocation) :
    slotAt { s with delta := s.delta ++ [x], idLocation := m } =
      Function.update s.slotAt ⟨.kDelta, s.delta.length⟩ (some x) := by
  funext loc
  obtain ⟨store, j⟩ := loc
  cases store with
  | kMain =>
    rw [Function.update_of_ne (by simp)]
    rfl
  | kDelta =>
    show (s.delta ++ [x])[j]? = _
    simp only [Function.update_apply, IdLocation.mk.injEq, true_and]
    split
    · rename_i hj
      rw [hj, List.getElem?_append_right le_rfl, Nat.sub_self]
      rfl
    · rename_i hj
      show _ = s.delta[j]?
      rcases Nat.lt_or_gt_of_ne hj with hlt | hgt
      · rw [List.getElem?_append_left hlt]
      · rw [List.getElem?_eq_none (by simp; omega), List.getElem?_eq_none hgt.le]

/-- **The new slot at the end of the delta tier.** -/
theorem Inv.appendToDelta (h : s.Inv fl) {id : Bytes} (hnew : s.idLocation.find? id = none)
    (vec : List F) (hvec : vec.length = s.dimension) (hdim : s.dimension ≠ 0)
    (hfew : s.main.slots.length + s.delta.length < uint32Max) :
    (s.appendToDelta id vec).Inv fl ∧
      (s.appendToDelta id vec).vectorOf = Function.update s.vectorOf id (some vec) := by
  have hsize : s.delta.length % 2 ^ 32 = s.delta.length := by
    refine Nat.mod_eq_of_lt ?_
    unfold uint32Max at hfew
    omega
  have hplace : (s.appendToDelta id vec).slotAt =
      Function.update s.slotAt ⟨.kDelta, s.delta.length⟩ (some ⟨id, vec⟩) := slotAt_append s _ _
  have hfind : (s.appendToDelta id vec).idLocation.find? =
      Function.update s.idLocation.find? id (some ⟨.kDelta, s.delta.length⟩) := by
    rw [← hsize]
    exact find?_insert_eq _ _ _
  have hempty : s.slotAt ⟨.kDelta, s.delta.length⟩ = none := List.getElem?_eq_none le_rfl
  refine ⟨{ h with
    located := ?_
    deltaRows := fun x hx => ?_
    unset := fun hzero => absurd hzero hdim
    fewSlots := ?_ }, ?_⟩
  · rw [hplace, hfind]
    exact h.located.put (x := ⟨id, vec⟩) hempty hnew
  · rcases List.mem_append.mp hx with hx | hx
    · exact h.deltaRows x hx
    · rw [List.mem_singleton.mp hx]
      exact hvec
  · show s.main.slots.length + (s.delta ++ [_]).length ≤ uint32Max
    rw [List.length_append, List.length_singleton]
    omega
  · have hheld := held_put (x := ⟨id, vec⟩) h.located hempty
    funext id'
    unfold vectorOf
    rw [hplace, hfind, hheld, Function.update_apply, Function.update_apply]
    split
    · rfl
    · rfl

/-- The first vector sets the dimension. -/
theorem Inv.setDimension (h : s.Inv fl) (hzero : s.dimension = 0) (dim : Nat) :
    Inv fl { s with dimension := dim } := by
  obtain ⟨hmain, hdelta, hindex⟩ := h.unset hzero
  refine { h with
    mainRows := fun x hx => ?_
    deltaRows := fun x hx => ?_
    unset := fun _ => ⟨hmain, hdelta, hindex⟩
    indexed := ?_ }
  · rw [hmain] at hx
    cases hx
  · rw [hdelta] at hx
    cases hx
  · show Indexed fl dim s.main s.main.index
    rw [hindex]
    refine .empty fun i => ?_
    unfold MainStore.liveSlot
    rw [hmain]
    split
    · rfl
    · rfl

/-- **`Add`**, and `Update`. -/
theorem Holds.add (h : s.Holds fl t) (hfew : s.main.slots.length + s.delta.length < uint32Max)
    (id : Bytes) (vec : List F) :
    ∃ s', (s.add id vec).map Prod.fst = some s' ∧ s'.Holds fl (t.set id vec) := by
  unfold TieredVectorStore.add TieredContents.set
  rw [h.dimension]
  split
  · exact ⟨s, rfl, h⟩
  · rename_i hnonempty
    dsimp only
    generalize hdim : (if t.dimension = 0 then vec.length % 2 ^ 32 else t.dimension) = dim
    -- the dimension may be new, and then there is nothing in the store
    have hinv : Inv fl { s with dimension := dim } := by
      by_cases hzero : t.dimension = 0
      · exact h.inv.setDimension (h.dimension.trans hzero) dim
      · rw [if_neg hzero, ← h.dimension] at hdim
        subst hdim
        exact h.inv
    split
    · exact ⟨_, rfl, hinv, rfl, h.vectorOf⟩
    · rename_i hlen
      have hlen : vec.length = dim := not_not.mp hlen
      have hset : dim ≠ 0 := by
        rintro rfl
        refine hnonempty ⟨?_, List.eq_nil_of_length_eq_zero hlen⟩
        by_contra hne
        rw [if_neg hne] at hdim
        exact hne hdim
      obtain ⟨s₁, hfirst, hdrop⟩ := hinv.deleteFirst id
      have hdim₁ : s₁.dimension = dim := hdrop.dimension
      obtain ⟨hinv', hvector⟩ := hdrop.inv.appendToDelta hdrop.gone vec
        (hlen.trans hdim₁.symm) (hdim₁ ▸ hset) (hdrop.fewer.trans_lt hfew)
      rw [hfirst]
      refine ⟨_, rfl, hinv', hdim₁, ?_⟩
      rw [hvector, hdrop.vectorOf, Function.update_idem]
      show Function.update s.vectorOf id (some vec) = _
      rw [h.vectorOf]

/-! ## 7. Merging and rebuilding -/

/-- **The new index** has the vectors of the slots that are not given up. -/
theorem indexSlotsFrom_spec (fl : HnswMetric F) (deleted : Finset Nat)
    {slots : List (TierSlot F)} {i : Nat} {g : HnswIndex F} {live : Nat → Option (List F)}
    (h : g.Inv live) (hnormed : g.Normed fl)
    (hrows : ∀ slot ∈ slots, slot.row.length = g.dimension)
    (hlive : ∀ c v, live c = some v → c < i) (hnodes : g.nodes.length ≤ i)
    (hfew : i + slots.length ≤ uint32Max) :
    ∃ g', indexSlotsFrom fl deleted i slots g = some g' ∧ g'.dimension = g.dimension ∧
      g'.Normed fl ∧ g'.Inv fun c => if c < i then live c else
        if c ∈ deleted then none else (slots[c - i]?).map TierSlot.row := by
  induction slots generalizing i g live with
  | nil =>
    refine ⟨g, rfl, rfl, hnormed, ?_⟩
    have hsame : (fun c => if c < i then live c else if c ∈ deleted then none else
        (([] : List (TierSlot F))[c - i]?).map TierSlot.row) = live := by
      funext c
      split
      · rfl
      · rename_i hc
        have hnone : live c = none := by
          by_contra hsome
          obtain ⟨v, hv⟩ := Option.ne_none_iff_exists'.mp hsome
          exact hc (hlive c v hv)
        rw [hnone]
        simp
    rw [hsame]
    exact h
  | cons slot rest ih =>
    rw [List.length_cons] at hfew
    have hrow := hrows slot List.mem_cons_self
    have hrest : ∀ x ∈ rest, x.row.length = g.dimension := fun x hx =>
      hrows x (List.mem_cons_of_mem slot hx)
    have hbehind : ∀ {c}, i < c → (slot :: rest)[c - i]? = rest[c - (i + 1)]? := by
      intro c hc
      rw [show c - i = c - (i + 1) + 1 by omega, List.getElem?_cons_succ]
    unfold indexSlotsFrom
    split
    · rename_i hdel
      obtain ⟨g', hall, hdim, hnormed', hinv⟩ := ih (i := i + 1) h hnormed hrest
        (fun c v hv => (hlive c v hv).trans (Nat.lt_succ_self i)) (by omega) (by omega)
      refine ⟨g', hall, hdim, hnormed', ?_⟩
      convert hinv using 2 with c
      rcases Nat.lt_trichotomy c i with hc | rfl | hc
      · rw [if_pos hc, if_pos (hc.trans (Nat.lt_succ_self i))]
      · rw [if_neg (Nat.lt_irrefl c), if_pos hdel, if_pos (Nat.lt_succ_self c)]
        by_contra hsome
        obtain ⟨v, hv⟩ := Option.ne_none_iff_exists'.mp (Ne.symm hsome)
        exact Nat.lt_irrefl c (hlive c v hv)
      · rw [if_neg hc.asymm, if_neg (Nat.not_lt.mpr hc), hbehind hc]
    · rename_i hkept
      have hhere : i < i + 1 := Nat.lt_succ_self i
      obtain ⟨g₁, hadd, hinv₁, hdim₁, -⟩ := h.add fl (c := i) (by omega) (by omega)
        fun k => (slot.row[k]?).getD fl.zero
      have hnodes₁ : g₁.nodes.length ≤ i + 1 := h.length_add hhere (by omega) (by omega)
        (fun c v hv => (hlive c v hv).trans hhere) hadd
      have hnormed₁ : g₁.Normed fl := hnormed.add h (by omega) (by omega) hadd
      rw [← hrow, HnswIndex.readFloats_getD] at hinv₁
      have hlive₁ : ∀ c v, Function.update live i (some slot.row) c = some v → c < i + 1 := by
        intro c v hv
        rw [Function.update_apply] at hv
        split at hv
        · rename_i hci
          exact hci ▸ hhere
        · exact (hlive c v hv).trans hhere
      obtain ⟨g', hall, hdim, hnormed', hinv⟩ := ih hinv₁ hnormed₁
        (fun x hx => (hrest x hx).trans hdim₁.symm) hlive₁ hnodes₁ (by omega)
      rw [hadd]
      refine ⟨g', hall, hdim.trans hdim₁, hnormed', ?_⟩
      convert hinv using 2 with c
      rcases Nat.lt_trichotomy c i with hc | rfl | hc
      · rw [if_pos hc, if_pos (hc.trans hhere), Function.update_of_ne hc.ne]
      · rw [if_neg (Nat.lt_irrefl c), if_neg hkept, if_pos hhere, Function.update_self,
          Nat.sub_self]
        rfl
      · rw [if_neg hc.asymm, if_neg (Nat.not_lt.mpr hc), hbehind hc]

theorem holds_newIndex (config : HnswConfig) (dimension : Nat) (levelDraws : Nat → Nat) :
    (HnswIndex.new config dimension levelDraws : HnswIndex F).Inv fun _ => none :=
  HnswIndex.Inv.cleared (HnswIndex.new config dimension levelDraws)

/-- Nothing is active if and only if every slot is given up. -/
theorem activeSize_eq_zero (main : MainStore F) (h : ∀ i ∈ main.deleted, i < main.slots.length) :
    main.activeSize = 0 ↔ ∀ i, main.liveSlot i = none := by
  have hsub : main.deleted ⊆ Finset.range main.slots.length := fun i hi =>
    Finset.mem_range.mpr (h i hi)
  unfold MainStore.activeSize MainStore.liveSlot
  constructor
  · intro hzero i
    have heq := Finset.eq_of_subset_of_card_le hsub (by rw [Finset.card_range]; omega)
    split
    · rfl
    · rename_i hi
      rw [heq, Finset.mem_range] at hi
      exact List.getElem?_eq_none (Nat.le_of_not_lt hi)
  · intro hall
    have hle : Finset.range main.slots.length ⊆ main.deleted := by
      intro i hi
      by_contra hnot
      have hnone := hall i
      rw [if_neg hnot, List.getElem?_eq_none_iff] at hnone
      exact absurd (Finset.mem_range.mp hi) (Nat.not_lt.mpr hnone)
    have hcard := Finset.card_le_card hle
    rw [Finset.card_range] at hcard
    omega

/-- **`RebuildMainIndex`**: whatever index there was, the new one has the vectors. -/
theorem rebuildMainIndex_spec (fl : HnswMetric F) (levelDraws : Nat → Nat)
    (htombs : ∀ i ∈ s.main.deleted, i < s.main.slots.length)
    (hrows : ∀ slot ∈ s.main.slots, slot.row.length = s.dimension)
    (hfew : s.main.slots.length ≤ uint32Max) :
    ∃ index, s.rebuildMainIndex fl levelDraws =
        some { s with main := { s.main with index := index } } ∧
      Indexed fl s.dimension { s.main with index := index } index := by
  unfold rebuildMainIndex
  split
  · rename_i hzero
    exact ⟨none, rfl, .empty ((activeSize_eq_zero s.main htombs).mp hzero)⟩
  · let config : HnswConfig := {
      m := s.config.hnswM
      efConstruction := s.config.hnswEfConstruction
      efSearch := s.config.hnswEfSearch }
    obtain ⟨g, hall, hdim, hnormed, hinv⟩ := indexSlotsFrom_spec fl s.main.deleted (i := 0)
      (holds_newIndex config s.dimension levelDraws)
      (HnswIndex.Normed.cleared (.new config s.dimension levelDraws)) hrows (by nofun)
      (Nat.zero_le _) (by omega)
    refine ⟨some g, ?_, .built hinv hnormed hdim ?_ ?_⟩
    · dsimp only
      rw [hall]
      rfl
    · intro c v hv
      rw [if_neg (Nat.not_lt_zero c), Nat.sub_zero] at hv
      split at hv
      · cases hv
      · exact Option.map_eq_some_iff.mp hv
    · intro i slot hi
      rw [if_neg (Nat.not_lt_zero i), Nat.sub_zero]
      unfold MainStore.liveSlot at hi
      split at hi
      · cases hi
      · rename_i hkept
        rw [if_neg hkept, hi]
        rfl

/-- **`id_location_` for slots of different ids.** -/
theorem find?_relocate {slots : List (TierSlot F)} {n : Nat} {m : AssocMap Bytes IdLocation}
    (hids : (slots.map TierSlot.id).Nodup) (hfew : n + slots.length ≤ uint32Max) (id : Bytes)
    (loc : IdLocation) :
    (relocate n slots m).find? id = some loc ↔
      (∃ j, ∃ slot, slots[j]? = some slot ∧ slot.id = id ∧ loc = ⟨.kMain, n + j⟩) ∨
        id ∉ slots.map TierSlot.id ∧ m.find? id = some loc := by
  induction slots generalizing n m with
  | nil => simp [relocate]
  | cons slot rest ih =>
    obtain ⟨hnot, hids⟩ := List.nodup_cons.mp hids
    rw [List.length_cons] at hfew
    have hn : n % 2 ^ 32 = n := by
      refine Nat.mod_eq_of_lt ?_
      unfold uint32Max at hfew
      omega
    unfold relocate
    rw [ih hids (by omega), AssocMap.find?_insert, hn, List.map_cons, List.mem_cons, not_or]
    constructor
    · rintro (⟨j, x, hj, hx, rfl⟩ | ⟨hrest, hfind⟩)
      · refine .inl ⟨j + 1, x, ?_, hx, ?_⟩
        · rw [List.getElem?_cons_succ, hj]
        · rw [Nat.add_right_comm]
          rfl
      · split at hfind
        · rename_i hid
          exact .inl ⟨0, slot, rfl, hid.symm, (Option.some.inj hfind).symm⟩
        · rename_i hid
          exact .inr ⟨⟨hid, hrest⟩, hfind⟩
    · rintro (⟨j, x, hj, hx, rfl⟩ | ⟨⟨hid, hrest⟩, hfind⟩)
      · cases j with
        | zero =>
          obtain rfl := Option.some.inj hj
          exact .inr ⟨hx ▸ hnot, by rw [if_pos hx.symm]; rfl⟩
        | succ j =>
          rw [List.getElem?_cons_succ] at hj
          exact .inl ⟨j, x, hj, hx, by rw [Nat.add_right_comm]; rfl⟩
      · exact .inr ⟨hrest, by rw [if_neg hid]; exact hfind⟩

/-- Where the kept slots were. -/
theorem mem_keptSlots (deleted : Finset Nat) (i : Nat) (slots : List (TierSlot F))
    (x : TierSlot F) : x ∈ keptSlots deleted i slots ↔
      ∃ j, i ≤ j ∧ j ∉ deleted ∧ slots[j - i]? = some x := by
  induction slots generalizing i with
  | nil => simp [keptSlots]
  | cons slot rest ih =>
    have hstep : (∃ j, i ≤ j ∧ j ∉ deleted ∧ (slot :: rest)[j - i]? = some x) ↔
        i ∉ deleted ∧ slot = x ∨ ∃ j, i + 1 ≤ j ∧ j ∉ deleted ∧ rest[j - (i + 1)]? = some x := by
      constructor
      · rintro ⟨j, hij, hj, hx⟩
        rcases Nat.eq_or_lt_of_le hij with rfl | hlt
        · rw [Nat.sub_self] at hx
          exact .inl ⟨hj, Option.some.inj hx⟩
        · rw [show j - i = j - (i + 1) + 1 by omega, List.getElem?_cons_succ] at hx
          exact .inr ⟨j, hlt, hj, hx⟩
      · rintro (⟨hi, rfl⟩ | ⟨j, hij, hj, hx⟩)
        · exact ⟨i, le_rfl, hi, by rw [Nat.sub_self]; rfl⟩
        · refine ⟨j, by omega, hj, ?_⟩
          rw [show j - i = j - (i + 1) + 1 by omega, List.getElem?_cons_succ]
          exact hx
    rw [hstep]
    unfold keptSlots
    split
    · rename_i hi
      rw [ih]
      simp [hi]
    · rename_i hi
      rw [List.mem_cons, ih, eq_comm]
      simp [hi]

/-- **Slots that come to the main tier**, and the others where they were. -/
theorem located_relocate {m : AssocMap Bytes IdLocation}
    {place place' : IdLocation → Option (TierSlot F)} (h : Located TierSlot.id m.find? place)
    {slots : List (TierSlot F)} {n : Nat}
    (hids : (slots.map TierSlot.id).Nodup) (hfew : n + slots.length ≤ uint32Max)
    (hold : ∀ x ∈ slots, ∃ loc, place loc = some x)
    (hnew : ∀ loc x, place' loc = some x ↔
      (∃ j, slots[j]? = some x ∧ loc = ⟨.kMain, n + j⟩) ∨
        x.id ∉ slots.map TierSlot.id ∧ place loc = some x) :
    Located TierSlot.id (relocate n slots m).find? place' ∧
      held (relocate n slots m).find? place' = held m.find? place := by
  have hlocated : Located TierSlot.id (relocate n slots m).find? place' := by
    intro id loc
    rw [find?_relocate hids hfew]
    constructor
    · rintro (⟨j, x, hj, hx, hloc⟩ | ⟨hnot, hfind⟩)
      · exact ⟨x, (hnew loc x).mpr (.inl ⟨j, hj, hloc⟩), hx⟩
      · obtain ⟨x, hx, rfl⟩ := h.place_eq hfind
        exact ⟨x, (hnew loc x).mpr (.inr ⟨hnot, hx⟩), rfl⟩
    · rintro ⟨x, hx, rfl⟩
      rcases (hnew loc x).mp hx with ⟨j, hj, hloc⟩ | ⟨hnot, hplace⟩
      · exact .inl ⟨j, x, hj, rfl, hloc⟩
      · exact .inr ⟨hnot, h.find_eq hplace⟩
  refine ⟨hlocated, held_eq_of_kept h hlocated fun x => ⟨?_, ?_⟩⟩
  · rintro ⟨loc, hx⟩
    rcases (hnew loc x).mp hx with ⟨j, hj, -⟩ | ⟨-, hplace⟩
    · exact hold x (List.mem_of_getElem? hj)
    · exact ⟨loc, hplace⟩
  · rintro ⟨loc, hx⟩
    by_cases hmem : x.id ∈ slots.map TierSlot.id
    · obtain ⟨y, hy, hid⟩ := List.mem_map.mp hmem
      obtain ⟨loc', hy'⟩ := hold y hy
      have hsame := h.unique hy' hx hid
      rw [hsame, hx] at hy'
      obtain rfl := Option.some.inj hy'
      obtain ⟨j, hj⟩ := List.mem_iff_getElem?.mp hy
      exact ⟨⟨.kMain, n + j⟩, (hnew _ _).mpr (.inl ⟨j, hj, rfl⟩)⟩
    · exact ⟨loc, (hnew loc x).mpr (.inr ⟨hmem, hx⟩)⟩

/-- The kept slots have different ids, if the slots that are not given up have. -/
theorem nodup_keptSlots {deleted : Finset Nat} {i : Nat} {slots : List (TierSlot F)}
    (h : ∀ j j' x x', i ≤ j → i ≤ j' → j ∉ deleted → j' ∉ deleted → slots[j - i]? = some x →
      slots[j' - i]? = some x' → x.id = x'.id → j = j') :
    ((keptSlots deleted i slots).map TierSlot.id).Nodup := by
  induction slots generalizing i with
  | nil => exact List.nodup_nil
  | cons slot rest ih =>
    have hshift : ∀ {j}, i + 1 ≤ j → (slot :: rest)[j - i]? = rest[j - (i + 1)]? := by
      intro j hj
      rw [show j - i = j - (i + 1) + 1 by omega, List.getElem?_cons_succ]
    have hrest := ih (i := i + 1) fun j j' x x' hj hj' hd hd' hx hx' hid =>
      h j j' x x' (by omega) (by omega) hd hd' ((hshift hj).trans hx) ((hshift hj').trans hx') hid
    unfold keptSlots
    split
    · exact hrest
    · rename_i hi
      refine List.nodup_cons.mpr ⟨fun hmem => ?_, hrest⟩
      obtain ⟨x, hx, hid⟩ := List.mem_map.mp hmem
      obtain ⟨j, hj, hd, hget⟩ := (mem_keptSlots _ _ _ _).mp hx
      have heq := h j i x slot (by omega) le_rfl hd hi ((hshift hj).trans hget)
        (by rw [Nat.sub_self]; rfl) hid
      omega

theorem length_keptSlots_le (deleted : Finset Nat) (i : Nat) (slots : List (TierSlot F)) :
    (keptSlots deleted i slots).length ≤ slots.length := by
  induction slots generalizing i with
  | nil => exact le_rfl
  | cons slot rest ih =>
    unfold keptSlots
    split
    · exact (ih (i + 1)).trans (Nat.le_succ _)
    · exact Nat.succ_le_succ (ih (i + 1))

/-- The contents after a change that leaves the slots of all ids. -/
theorem vectorOf_eq {s' : TieredVectorStore F}
    (h : held s'.idLocation.find? s'.slotAt = held s.idLocation.find? s.slotAt) :
    s'.vectorOf = s.vectorOf := by
  funext id
  unfold vectorOf
  rw [h]

/-- **`MergeDeltaToMain`** leaves the contents. -/
theorem Holds.mergeDeltaToMain (h : s.Holds fl t) (levelDraws : Nat → Nat) :
    ∃ s', s.mergeDeltaToMain fl levelDraws = some s' ∧ s'.Holds fl t := by
  have hfew := h.inv.fewSlots
  unfold TieredVectorStore.mergeDeltaToMain
  split
  · exact ⟨s, rfl, h⟩
  · rename_i hdelta
    have hrows : ∀ slot ∈ s.main.slots ++ s.delta, slot.row.length = s.dimension := fun x hx =>
      (List.mem_append.mp hx).elim (h.inv.mainRows x) (h.inv.deltaRows x)
    have hlength : (s.main.slots ++ s.delta).length ≤ uint32Max := by
      rw [List.length_append]
      exact hfew
    have htombs : ∀ i ∈ s.main.deleted, i < (s.main.slots ++ s.delta).length := fun i hi => by
      rw [List.length_append]
      exact (h.inv.tombs i hi).trans_le (Nat.le_add_right _ _)
    obtain ⟨index, hrebuild, hindexed⟩ := rebuildMainIndex_spec fl levelDraws
      (s := { s with
        main := { s.main with slots := s.main.slots ++ s.delta }
        delta := []
        idLocation := relocate s.main.slots.length s.delta s.idLocation }) htombs hrows hlength
    refine ⟨_, hrebuild, ?_⟩
    have hids : (s.delta.map TierSlot.id).Nodup :=
      nodup_of_located h.inv.located (fun j => ⟨.kDelta, j⟩)
        (fun i j hij => by injection hij) fun j => rfl
    have hnew : ∀ loc x, slotAt { s with
        main := { s.main with slots := s.main.slots ++ s.delta, index := index },
        delta := [],
        idLocation := relocate s.main.slots.length s.delta s.idLocation } loc = some x ↔
          (∃ j, s.delta[j]? = some x ∧ loc = ⟨.kMain, s.main.slots.length + j⟩) ∨
            x.id ∉ s.delta.map TierSlot.id ∧ s.slotAt loc = some x := by
      intro loc x
      -- a slot of the main tier has no id of the delta tier
      have hother : ∀ {c}, s.slotAt ⟨.kMain, c⟩ = some x → x.id ∉ s.delta.map TierSlot.id := by
        intro c hc hmem
        obtain ⟨y, hy, hid⟩ := List.mem_map.mp hmem
        obtain ⟨j, hj⟩ := List.mem_iff_getElem?.mp hy
        have hat : s.slotAt ⟨.kDelta, j⟩ = some y := hj
        cases h.inv.located.unique hat hc hid
      obtain ⟨store, c⟩ := loc
      cases store with
      | kMain =>
        show (if c ∈ s.main.deleted then none else (s.main.slots ++ s.delta)[c]?) = some x ↔ _
        rcases Nat.lt_or_ge c s.main.slots.length with hc | hc
        · have hhere : (if c ∈ s.main.deleted then none else (s.main.slots ++ s.delta)[c]?) =
              s.slotAt ⟨.kMain, c⟩ := by
            rw [List.getElem?_append_left hc]
            rfl
          rw [hhere]
          constructor
          · exact fun hx => .inr ⟨hother hx, hx⟩
          · rintro (⟨j, -, hloc⟩ | ⟨-, hx⟩)
            · injection hloc with _ hloc
              omega
            · exact hx
        · have hnot : c ∉ s.main.deleted := fun hd => absurd (h.inv.tombs c hd) (Nat.not_lt.mpr hc)
          have hbeyond : s.slotAt ⟨.kMain, c⟩ = none := by
            show (if c ∈ s.main.deleted then none else s.main.slots[c]?) = none
            rw [if_neg hnot, List.getElem?_eq_none hc]
          rw [if_neg hnot, List.getElem?_append_right hc, hbeyond]
          constructor
          · exact fun hx => .inl ⟨_, hx, by rw [Nat.add_sub_cancel' hc]⟩
          · rintro (⟨j, hj, hloc⟩ | ⟨-, hx⟩)
            · injection hloc with _ hloc
              rw [hloc, Nat.add_sub_cancel_left, hj]
            · cases hx
      | kDelta =>
        constructor
        · nofun
        · rintro (⟨j, -, hloc⟩ | ⟨hnot, hx⟩)
          · cases hloc
          · exact absurd (List.mem_map_of_mem (List.mem_of_getElem? hx)) hnot
    obtain ⟨hlocated, hheld⟩ := located_relocate h.inv.located hids hfew
      (fun x hx => (List.mem_iff_getElem?.mp hx).imp' (fun j => ⟨.kDelta, j⟩) fun j hj => hj) hnew
    exact ⟨⟨hlocated, htombs, hrows, nofun, fun hzero => absurd (h.inv.unset hzero).2.1 hdelta,
      hindexed, hlength⟩, h.dimension, (vectorOf_eq hheld).trans h.vectorOf⟩

/-- **`RebuildMain`** leaves the contents. -/
theorem Holds.rebuildMain (h : s.Holds fl t) (levelDraws : Nat → Nat) :
    ∃ s', s.rebuildMain fl levelDraws = some s' ∧ s'.Holds fl t := by
  have hfew := h.inv.fewSlots
  unfold TieredVectorStore.rebuildMain
  split
  · exact ⟨s, rfl, h⟩
  · rename_i hdeleted
    have hkept : ∀ x, x ∈ keptSlots s.main.deleted 0 s.main.slots ↔
        ∃ c, s.slotAt ⟨.kMain, c⟩ = some x := by
      intro x
      rw [mem_keptSlots]
      refine exists_congr fun c => ?_
      show _ ↔ (if c ∈ s.main.deleted then none else s.main.slots[c]?) = some x
      by_cases hc : c ∈ s.main.deleted
      · simp [hc]
      · simp [hc]
    have hlength : (keptSlots s.main.deleted 0 s.main.slots).length ≤ s.main.slots.length :=
      length_keptSlots_le _ _ _
    have hrows : ∀ slot ∈ keptSlots s.main.deleted 0 s.main.slots,
        slot.row.length = s.dimension := by
      intro x hx
      obtain ⟨j, -, -, hj⟩ := (mem_keptSlots _ _ _ _).mp hx
      exact h.inv.mainRows x (List.mem_of_getElem? hj)
    obtain ⟨index, hrebuild, hindexed⟩ := rebuildMainIndex_spec fl levelDraws
      (s := { s with
        main := { s.main with slots := keptSlots s.main.deleted 0 s.main.slots, deleted := ∅ }
        idLocation := relocate 0 (keptSlots s.main.deleted 0 s.main.slots) s.idLocation })
      (by simp) hrows (by dsimp only; omega)
    refine ⟨_, hrebuild, ?_⟩
    have hids : ((keptSlots s.main.deleted 0 s.main.slots).map TierSlot.id).Nodup := by
      refine nodup_keptSlots fun j j' x x' _ _ hd hd' hx hx' hid => ?_
      have hat : ∀ {c y}, c ∉ s.main.deleted → s.main.slots[c - 0]? = some y →
          s.slotAt ⟨.kMain, c⟩ = some y := fun hc hy => (if_neg hc).trans hy
      have heq := h.inv.located.unique (hat hd hx) (hat hd' hx') hid
      injection heq
    have hnew : ∀ loc x, slotAt { s with
        main := { slots := keptSlots s.main.deleted 0 s.main.slots, index := index, deleted := ∅ },
        idLocation := relocate 0 (keptSlots s.main.deleted 0 s.main.slots) s.idLocation } loc =
          some x ↔
          (∃ j, (keptSlots s.main.deleted 0 s.main.slots)[j]? = some x ∧ loc = ⟨.kMain, 0 + j⟩) ∨
            x.id ∉ (keptSlots s.main.deleted 0 s.main.slots).map TierSlot.id ∧
              s.slotAt loc = some x := by
      intro loc x
      obtain ⟨store, c⟩ := loc
      cases store with
      | kMain =>
        show (if c ∈ (∅ : Finset Nat) then none else
          (keptSlots s.main.deleted 0 s.main.slots)[c]?) = some x ↔ _
        rw [if_neg (Finset.notMem_empty c)]
        constructor
        · exact fun hx => .inl ⟨c, hx, by rw [Nat.zero_add]⟩
        · rintro (⟨j, hj, hloc⟩ | ⟨hnot, hx⟩)
          · injection hloc with _ hloc
            rw [hloc, Nat.zero_add, hj]
          · exact absurd (List.mem_map_of_mem ((hkept x).mpr ⟨c, hx⟩)) hnot
      | kDelta =>
        constructor
        · refine fun hx => .inr ⟨fun hmem => ?_, hx⟩
          -- a slot of the delta tier has no id of the main tier
          obtain ⟨y, hy, hid⟩ := List.mem_map.mp hmem
          obtain ⟨j, hj⟩ := (hkept y).mp hy
          have hat : s.slotAt ⟨.kDelta, c⟩ = some x := hx
          cases h.inv.located.unique hj hat hid
        · rintro (⟨j, -, hloc⟩ | ⟨-, hx⟩)
          · cases hloc
          · exact hx
    obtain ⟨hlocated, hheld⟩ := located_relocate h.inv.located hids (by omega)
      (fun x hx => ((hkept x).mp hx).imp' (fun j => ⟨.kMain, j⟩) fun j hj => hj) hnew
    refine ⟨⟨hlocated, by simp, hrows, h.inv.deltaRows, fun hzero => ?_, hindexed, ?_⟩, h.dimension,
      (vectorOf_eq hheld).trans h.vectorOf⟩
    · -- something is given up, so the dimension is set
      obtain ⟨i, hi⟩ := Finset.nonempty_iff_ne_empty.mpr hdeleted
      have hlt := h.inv.tombs i hi
      rw [(h.inv.unset hzero).1] at hlt
      exact absurd hlt (Nat.not_lt_zero i)
    · dsimp only
      omega

/-! ## 8. Runs -/

/-- **Every operation** ends, keeps the invariant and does to the contents what it is for. -/
theorem Holds.step (h : s.Holds fl t) (op : TieredOp F) (hfew : s.BelowMax op) :
    ∃ s', s.step fl op = some s' ∧ s'.Holds fl (t.apply op) := by
  cases op with
  | add id vec => exact h.add hfew id vec
  | update id vec => exact h.add hfew id vec
  | delete id => exact h.delete id
  | mergeDeltaToMain levelDraws => exact h.mergeDeltaToMain levelDraws
  | rebuildMain levelDraws => exact h.rebuildMain levelDraws

end TieredVectorStore

end Nvecd.Vectors
