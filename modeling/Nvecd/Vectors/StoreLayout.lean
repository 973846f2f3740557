/-
  File:      Nvecd/Vectors/StoreLayout.lean
  Subject:   In which slots a run leaves the vectors of the store.

  The map a store implements says which vectors it holds; which slot holds which, and which are
  tombstones, depends on the requests that led there. Whatever these were, a slot has the norm of
  its row, and every vector of the map would be accepted again. So the same vectors can be had in
  any order of slots.

  * `Held` -- arrays, slots and map after a run, with what every run keeps;
  * `held_after` -- every run keeps it;
  * `InOrder`, `exists_layout` -- a run that leaves the vectors of a map in a given order.
-/
import Mathlib.Data.List.Induction
import Nvecd.Vectors.CompactStore

namespace Nvecd.Vectors

open Nvecd.Lib Nvecd.Storage Nvecd.Utils

variable (fl : VectorFloats)

/-- The vector of an entry can be stored in a store of the dimension, and comes out as it is. -/
def Restorable (dimension : Nat) (id : Bytes) (row : List UInt32) (normalized : Bool) : Prop :=
  ∃ vec, VectorStore.validateVector fl.l2Norm { dimension := dimension } id vec = .ok () ∧
    vec.length = dimension ∧ (if normalized then fl.normalize vec else some vec) = some row

/-- **Arrays, slots and map**, the norms of the slots, and where the vectors come from. -/
structure Held (c : CompactStore) (s : VectorStore) (m : MapStore) : Prop extends
    RefinesBy c s m where
  norms : ∀ e ∈ s.slots, e.norm = fl.l2Norm e.row
  restorable : ∀ id row normalized, m.vectors.find? id = some (row, normalized) →
    Restorable fl m.dimension id row normalized

variable {fl} {c : CompactStore} {s : VectorStore} {m : MapStore}

/-- Slots that are old ones, or one of them rewritten. -/
theorem norms_place (h : ∀ e ∈ s.slots, e.norm = fl.l2Norm e.row) (id : Bytes)
    (row : List UInt32) (normalized : Bool) :
    ∀ e ∈ (s.place id row (fl.l2Norm row) normalized).slots, e.norm = fl.l2Norm e.row := by
  have hmodify : ∀ (idx : Nat) (f : Slot → Slot), (∀ e, (f e).norm = fl.l2Norm (f e).row) →
      ∀ e ∈ s.slots.modify idx f, e.norm = fl.l2Norm e.row := by
    intro idx f hf e he
    obtain ⟨j, hj⟩ := List.mem_iff_getElem?.mp he
    rw [VectorStore.modify_getElem?] at hj
    split at hj
    · obtain ⟨e', -, rfl⟩ := Option.map_eq_some_iff.mp hj
      exact hf e'
    · exact h e (List.mem_of_getElem? hj)
  unfold VectorStore.place
  cases s.idToIdx.find? id with
  | some idx => exact hmodify idx _ fun _ => rfl
  | none =>
    cases s.freeSlots with
    | cons idx rest => exact hmodify idx _ fun _ => rfl
    | nil =>
      intro e he
      cases List.mem_append.mp he with
      | inl he => exact h e he
      | inr he => rw [List.mem_singleton.mp he]

/-- What `SetVector` does once it has accepted. -/
theorem VectorStore.apply_setVector {id : Bytes} {vec data : List UInt32} {normalize : Bool}
    (hv : s.validateVector fl.l2Norm id vec = .ok ())
    (hdata : (if normalize then fl.normalize vec else some vec) = some data) :
    s.apply fl (.setVector id vec normalize) =
      { s with dimension := vec.length }.place id data (fl.l2Norm data) normalize := by
  simp only [VectorStore.apply, hv, hdata]

/-- Or it has refused, and nothing is done. -/
theorem VectorStore.apply_setVector_cases (fl : VectorFloats) (s : VectorStore) (id : Bytes) (vec : List UInt32)
    (normalize : Bool) :
    s.apply fl (.setVector id vec normalize) = s ∨
      ∃ data, s.validateVector fl.l2Norm id vec = .ok () ∧
        (if normalize then fl.normalize vec else some vec) = some data := by
  cases hv : s.validateVector fl.l2Norm id vec with
  | error e => exact .inl (by simp only [VectorStore.apply, hv])
  | ok u =>
    cases hdata : if normalize then fl.normalize vec else some vec with
    | none => exact .inl (by simp only [VectorStore.apply, hv, hdata])
    | some data => exact .inr ⟨data, rfl, rfl⟩

theorem norms_apply (h : ∀ e ∈ s.slots, e.norm = fl.l2Norm e.row) (op : StoreOp) :
    ∀ e ∈ (s.apply fl op).slots, e.norm = fl.l2Norm e.row := by
  have hdefragment : ∀ t : VectorStore, (∀ e ∈ t.slots, e.norm = fl.l2Norm e.row) →
      ∀ e ∈ t.defragmentLocked.slots, e.norm = fl.l2Norm e.row := by
    intro t ht e he
    unfold VectorStore.defragmentLocked at he
    split at he
    · cases he
    · exact ht e (List.mem_of_mem_filter he)
  cases op with
  | setVector id vec normalize =>
    rcases s.apply_setVector_cases fl id vec normalize with hsame | ⟨data, hv, hdata⟩
    · rwa [hsame]
    · rw [VectorStore.apply_setVector hv hdata]
      exact norms_place (s := { s with dimension := vec.length }) h id data normalize
  | deleteVector id =>
    have hbury : ∀ idx, ∀ e ∈ (s.bury id idx).slots, e.norm = fl.l2Norm e.row := by
      intro idx e he
      obtain ⟨j, hj⟩ := List.mem_iff_getElem?.mp he
      rw [VectorStore.bury, VectorStore.modify_getElem?] at hj
      split at hj
      · obtain ⟨e', he', rfl⟩ := Option.map_eq_some_iff.mp hj
        exact h e' (List.mem_of_getElem? he')
      · exact h e (List.mem_of_getElem? hj)
    show ∀ e ∈ (s.deleteVector id).1.slots, e.norm = fl.l2Norm e.row
    cases hf : s.idToIdx.find? id with
    | none => simpa only [VectorStore.deleteVector, hf] using h
    | some idx =>
      simp only [VectorStore.deleteVector, hf]
      split
      · exact hdefragment _ (hbury idx)
      · exact hbury idx
  | defragment => exact hdefragment s h
  | clear => exact fun e he => absurd he List.not_mem_nil

/-- A map without dimension has no restorable entry. -/
theorem Restorable.dimension_ne_zero {dimension : Nat} {id : Bytes} {row : List UInt32}
    {normalized : Bool} (h : Restorable fl dimension id row normalized) : dimension ≠ 0 := by
  obtain ⟨vec, hv, hlen, -⟩ := h
  obtain ⟨-, hpos, -⟩ := VectorStore.validateVector_ok hv
  exact hlen ▸ hpos

theorem restorable_apply (h : ∀ id row normalized, m.vectors.find? id = some (row, normalized) →
      Restorable fl m.dimension id row normalized) (op : StoreOp) :
    ∀ id row normalized, (m.apply fl op).1.vectors.find? id = some (row, normalized) →
      Restorable fl (m.apply fl op).1.dimension id row normalized := by
  cases op with
  | setVector id vec normalize =>
    cases hv : VectorStore.validateVector fl.l2Norm { dimension := m.dimension } id vec with
    | error e => simpa only [MapStore.apply, MapStore.setVector, hv] using h
    | ok u =>
      cases hdata : if normalize then fl.normalize vec else some vec with
      | none => simpa only [MapStore.apply, MapStore.setVector, hv, hdata] using h
      | some data =>
        simp only [MapStore.apply, MapStore.setVector, hv, hdata]
        obtain ⟨hid, hpos, hmax, hall, hnorm, hdim⟩ := VectorStore.validateVector_ok hv
        intro id' row normalized hfind
        rw [AssocMap.find?_insert] at hfind
        split at hfind
        · rename_i heq
          cases hfind
          rw [heq]
          exact ⟨vec, VectorStore.validateVector_eq_ok hid hpos hmax hall hnorm (.inr rfl), rfl,
            hdata⟩
        · have hold := h id' row normalized hfind
          rwa [hdim.resolve_left hold.dimension_ne_zero]
  | deleteVector id =>
    intro id' row normalized hfind
    have hfind : (m.vectors.erase id).find? id' = some (row, normalized) := hfind
    rw [AssocMap.find?_erase] at hfind
    split at hfind
    · cases hfind
    · exact h id' row normalized hfind
  | defragment => exact h
  | clear => exact fun id row normalized hfind => by cases hfind

theorem Held.empty : Held fl {} {} {} :=
  ⟨⟨.empty, .empty, fun _ => rfl, rfl, fun _ => rfl⟩, nofun, nofun⟩

/-- **Every request keeps it.** -/
theorem Held.apply (h : Held fl c s m) (op : StoreOp) :
    Held fl (c.apply fl op).1 (s.apply fl op) (m.apply fl op).1 :=
  ⟨(h.toRefinesBy.apply op).2, norms_apply h.norms op, restorable_apply h.restorable op⟩

/-! ## Runs -/

variable (fl) in
/-- Both stores, by their slots. -/
def BothHeld (p : CompactStore × CompactStore) (q : MapStore × MapStore) : Prop :=
  (∃ s, Held fl p.1 s q.1) ∧ ∃ s, Held fl p.2 s q.2

theorem Held.withGeneration (h : Held fl c s m) (n : Nat) :
    Held fl { c with generation := n } { s with generation := n } m :=
  ⟨⟨{ h.represents with generation := rfl }, h.inv.generation n, h.slots, h.dimension, h.vectors⟩,
    h.norms, h.restorable⟩

variable (fl) in
/-- **After every run** the stores hold what the maps hold. -/
theorem held_after (actions : List StoreAction) :
    ∃ s, Held fl (after (respondStores fl) ({}, {}) actions).1 s
      (after (respondMaps fl) ({}, {}) actions).1 := by
  have hboth : answers (respondStores fl) ({}, {}) actions =
        answers (respondMaps fl) ({}, {}) actions ∧
      BothHeld fl (after (respondStores fl) ({}, {}) actions)
        (after (respondMaps fl) ({}, {}) actions) := by
    refine refines_of_simulation (fun p q a hpq => ?_) ⟨⟨{}, .empty⟩, ⟨{}, .empty⟩⟩ actions
    obtain ⟨⟨s, hthis⟩, ⟨t, hother⟩⟩ := hpq
    cases a with
    | this op => exact ⟨(hthis.toRefinesBy.apply op).1, ⟨_, hthis.apply op⟩, ⟨t, hother⟩⟩
    | other op => exact ⟨(hother.toRefinesBy.apply op).1, ⟨s, hthis⟩, ⟨_, hother.apply op⟩⟩
    | swapState => exact ⟨rfl, ⟨_, hother.withGeneration _⟩, ⟨_, hthis.withGeneration _⟩⟩
  exact hboth.2.1

/-! ## Any order -/

/-- The slots hold the entries of the map, one after the other, and nothing else. -/
structure InOrder (s : VectorStore) (m : MapStore) : Prop where
  freeSlots : s.freeSlots = []
  entries : s.slots.map (fun e => (e.id, e.row, e.normalized)) = m.vectors.entries
  live : ∀ e ∈ s.slots, e.deleted = false

/-- **A new vector** goes behind the others. -/
theorem InOrder.setVector (h : InOrder s m) (hheld : Held fl c s m) {id : Bytes}
    {vec data : List UInt32} {normalize : Bool} (hnew : id ∉ m.vectors.keys)
    (hdim : m.dimension = 0 ∨ m.dimension = vec.length)
    (hv : VectorStore.validateVector fl.l2Norm { dimension := vec.length } id vec = .ok ())
    (hdata : (if normalize then fl.normalize vec else some vec) = some data) :
    InOrder (s.apply fl (.setVector id vec normalize))
        (m.apply fl (.setVector id vec normalize)).1 ∧
      (m.apply fl (.setVector id vec normalize)).1.vectors.entries =
        m.vectors.entries ++ [(id, data, normalize)] ∧
      (m.apply fl (.setVector id vec normalize)).1.dimension = vec.length := by
  obtain ⟨hid, hpos, hmax, hall, hnorm, -⟩ := VectorStore.validateVector_ok hv
  have hsdim : s.dimension = 0 ∨ vec.length = s.dimension := by
    rw [← hheld.dimension]
    exact hdim.imp_right Eq.symm
  have hvs : s.validateVector fl.l2Norm id vec = .ok () :=
    VectorStore.validateVector_eq_ok hid hpos hmax hall hnorm hsdim
  have hvm : VectorStore.validateVector fl.l2Norm { dimension := m.dimension } id vec = .ok () :=
    VectorStore.validateVector_eq_ok hid hpos hmax hall hnorm (hdim.imp_right Eq.symm)
  have hnone : s.idToIdx.find? id = none := by
    refine AssocMap.find?_eq_none.mpr fun hin => hnew ?_
    rw [← AssocMap.contains_iff, hheld.contains]
    exact hin
  rw [VectorStore.apply_setVector hvs hdata]
  have hentries : (m.vectors.insert id (data, normalize)).entries =
      m.vectors.entries ++ [(id, data, normalize)] := AssocMap.entries_insert_of_not_mem hnew
  simp only [MapStore.apply, MapStore.setVector, hvm, hdata, VectorStore.place, hnone, h.freeSlots]
  refine ⟨⟨rfl, ?_, fun e he => ?_⟩, hentries, trivial⟩
  · rw [List.map_append, h.entries, hentries]
    rfl
  · cases List.mem_append.mp he with
    | inl he => exact h.live e he
    | inr he => rw [List.mem_singleton.mp he]

theorem after_concat {σ ρ β : Type*} (respond : σ → ρ → σ × β) (s : σ) (rs : List ρ) (r : ρ) :
    after respond s (rs ++ [r]) = (respond (after respond s rs) r).1 := by
  rw [after, List.foldl_append]
  rfl

variable (fl) in
/-- **Restorable entries in any order**: a run leaves a store with just them, in this order. -/
theorem exists_layout (dimension : Nat) (es : List (Bytes × List UInt32 × Bool))
    (hnd : (es.map Prod.fst).Nodup)
    (h : ∀ e ∈ es, Restorable fl dimension e.1 e.2.1 e.2.2) :
    ∃ actions s, Held fl (after (respondStores fl) ({}, {}) actions).1 s
        (after (respondMaps fl) ({}, {}) actions).1 ∧
      InOrder s (after (respondMaps fl) ({}, {}) actions).1 ∧
      (after (respondMaps fl) ({}, {}) actions).1.vectors.entries = es ∧
      ((after (respondMaps fl) ({}, {}) actions).1.dimension = 0 ∨
        (after (respondMaps fl) ({}, {}) actions).1.dimension = dimension) := by
  induction es using List.reverseRecOn with
  | nil => exact ⟨[], {}, .empty, ⟨rfl, rfl, nofun⟩, rfl, .inl rfl⟩
  | append_singleton es e ih =>
    obtain ⟨id, row, normalized⟩ := e
    rw [List.map_append] at hnd
    obtain ⟨hnd, -, hnew⟩ := List.nodup_append.mp hnd
    obtain ⟨actions, s, hheld, horder, hentries, hdim⟩ :=
      ih hnd fun e he => h e (List.mem_append_left _ he)
    obtain ⟨vec, hv, rfl, hdata⟩ : Restorable fl dimension id row normalized :=
      h _ (List.mem_append_right _ (List.mem_singleton.mpr rfl))
    have hfresh : id ∉ (after (respondMaps fl) ({}, {}) actions).1.vectors.keys := by
      intro hin
      rw [AssocMap.keys, hentries] at hin
      exact hnew id hin id (List.mem_singleton.mpr rfl) rfl
    obtain ⟨hnext, hmore, hlast⟩ := horder.setVector hheld hfresh hdim hv hdata
    refine ⟨actions ++ [.this (.setVector id vec normalized)],
      s.apply fl (.setVector id vec normalized), ?_⟩
    rw [after_concat, after_concat]
    exact ⟨hheld.apply _, hnext, hmore.trans (by rw [hentries]), .inr hlast⟩

end Nvecd.Vectors
