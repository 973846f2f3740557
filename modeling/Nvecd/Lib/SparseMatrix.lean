/-
  File:      Nvecd/Lib/SparseMatrix.lean
  Subject:   A matrix as a map of rows, each a map of entries.

  An entry that is not there is not a zero: the matrix stores what was put into it. The
  symmetric ones (`SymmetricMatrix`) have no diagonal and no empty row.

  * `entry` -- what is stored at a place, and how the maps' operations change it;
  * `RowsFull`, `RowsFullBut` -- no empty row, but for one;
  * `SymmetricMatrix` -- the invariant;
  * `neighborKeys`, `Shrinks` -- the length of a row, and removals.
-/
import Nvecd.Lib.AssocMap

namespace Nvecd.Lib

universe u v

variable {κ : Type u} {ν : Type v} [DecidableEq κ]

abbrev SparseMatrix (κ : Type u) (ν : Type v) := AssocMap κ (AssocMap κ ν)

namespace SparseMatrix

/-- What is stored at `(a, b)`. -/
def entry (m : SparseMatrix κ ν) (a b : κ) : Option ν := (m.find? a).bind fun row => row.find? b

@[simp] theorem entry_empty (a b : κ) : entry (AssocMap.empty : SparseMatrix κ ν) a b = none := rfl

theorem entry_of_row {m : SparseMatrix κ ν} {a : κ} {row : AssocMap κ ν} (h : m.find? a = some row)
    (b : κ) : entry m a b = row.find? b := by
  simp [entry, h]

theorem entry_of_no_row {m : SparseMatrix κ ν} {a : κ} (h : m.find? a = none) (b : κ) :
    entry m a b = none := by
  simp [entry, h]

theorem find?_row (m : SparseMatrix κ ν) (a b : κ) :
    ((m.find? a).getD .empty).find? b = entry m a b := by
  cases h : m.find? a with
  | none => simp [entry, h]
  | some row => simp [entry, h]

theorem entry_insert (m : SparseMatrix κ ν) (a : κ) (row : AssocMap κ ν) (a' b' : κ) :
    entry (m.insert a row) a' b' = if a' = a then row.find? b' else entry m a' b' := by
  rw [entry, AssocMap.find?_insert]
  split <;> rfl

theorem entry_erase (m : SparseMatrix κ ν) (a a' b' : κ) :
    entry (m.erase a) a' b' = if a' = a then none else entry m a' b' := by
  rw [entry, AssocMap.find?_erase]
  split <;> rfl

/-- The row `a` apart, no row is empty. -/
def RowsFullBut (a : κ) (m : SparseMatrix κ ν) : Prop :=
  ∀ a' row, a' ≠ a → m.find? a' = some row → row.size ≠ 0

/-- No row is empty. -/
def RowsFull (m : SparseMatrix κ ν) : Prop := ∀ a row, m.find? a = some row → row.size ≠ 0

/-- **The invariant of a symmetric matrix** without diagonal. -/
structure SymmetricMatrix (m : SparseMatrix κ ν) : Prop where
  symm : ∀ a b, entry m a b = entry m b a
  diagonal : ∀ a, entry m a a = none
  rows : RowsFull m

theorem symmetricMatrix_empty : SymmetricMatrix (AssocMap.empty : SparseMatrix κ ν) :=
  ⟨fun _ _ => rfl, fun _ => rfl, fun a row h => by cases h⟩

/-- What is stored in the row `a`. -/
def neighborKeys (m : SparseMatrix κ ν) (a : κ) : List κ := ((m.find? a).getD .empty).keys

theorem nodup_neighborKeys (m : SparseMatrix κ ν) (a : κ) : (neighborKeys m a).Nodup :=
  ((m.find? a).getD .empty).nodupKeys

theorem mem_neighborKeys {m : SparseMatrix κ ν} {a b : κ} :
    b ∈ neighborKeys m a ↔ ∃ v, entry m a b = some v := by
  rw [neighborKeys, AssocMap.mem_keys, find?_row]

/-- A row is no longer than any list of what may stand in it. -/
theorem length_neighborKeys_le {m : SparseMatrix κ ν} {a : κ} {l : List κ}
    (h : ∀ b v, entry m a b = some v → b ∈ l) : (neighborKeys m a).length ≤ l.length := by
  refine (nodup_neighborKeys m a).length_le_of_subset fun b hb => ?_
  obtain ⟨v, hv⟩ := mem_neighborKeys.1 hb
  exact h b v hv

/-- Entries are removed only. -/
def Shrinks (m' m : SparseMatrix κ ν) : Prop :=
  ∀ a b v, entry m' a b = some v → entry m a b = some v

theorem Shrinks.refl (m : SparseMatrix κ ν) : Shrinks m m := fun _ _ _ h => h

theorem Shrinks.trans {m₁ m₂ m₃ : SparseMatrix κ ν} (h : Shrinks m₁ m₂) (h' : Shrinks m₂ m₃) :
    Shrinks m₁ m₃ := fun a b v hv => h' a b v (h a b v hv)

end SparseMatrix

end Nvecd.Lib
