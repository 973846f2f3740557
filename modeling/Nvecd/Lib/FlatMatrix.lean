/-
  File:      Nvecd/Lib/FlatMatrix.lean
  Subject:   Rows of one length in one flat array, and parallel arrays.

  A matrix that is kept row after row in one array is the concatenation of its rows; reading the
  row `i` and copying over it are then what they are for a list of rows. The same is said of
  arrays that are kept side by side: one of them is a field of the records at the same index.

  * `rowAt`, `rowAt_flatten`, `rowAt_append_left` -- reading a row;
  * `overwrite_flatten`, `overwrite_zeros`, `set_zeros` -- copying over a row;
  * `map_modify_field`, `map_modify_other` -- a record that is modified, in its arrays.
-/
import Mathlib.Data.List.Basic
import Nvecd.Lib.Codec

namespace Nvecd.Lib

universe u v

variable {α : Type u} {β : Type v} {dim i : Nat} {rows : List (List α)}

/-- The row `i` of a flat matrix. -/
def rowAt (dim : Nat) (matrix : List α) (i : Nat) : List α := (matrix.drop (i * dim)).take dim

theorem length_flatten_rows (h : ∀ r ∈ rows, r.length = dim) :
    rows.flatten.length = rows.length * dim := by
  induction rows with
  | nil => simp
  | cons r rows ih =>
    rw [List.flatten_cons, List.length_append, h r List.mem_cons_self,
      ih fun r' hr' => h r' (List.mem_cons_of_mem r hr'), List.length_cons, Nat.succ_mul,
      Nat.add_comm]

/-- The rows before a row, the row and those behind it. -/
theorem flatten_split {r : List α} (hi : rows[i]? = some r) :
    rows.flatten = (rows.take i).flatten ++ (r ++ (rows.drop (i + 1)).flatten) := by
  obtain ⟨hlt, rfl⟩ := List.getElem?_eq_some_iff.mp hi
  conv_lhs => rw [← List.take_append_drop i rows, List.drop_eq_getElem_cons hlt]
  rw [List.flatten_append, List.flatten_cons]

theorem length_flatten_take (h : ∀ r ∈ rows, r.length = dim) (hi : i ≤ rows.length) :
    (rows.take i).flatten.length = i * dim := by
  rw [length_flatten_rows fun r hr => h r (List.mem_of_mem_take hr), List.length_take,
    Nat.min_eq_left hi]

theorem rowAt_flatten (h : ∀ r ∈ rows, r.length = dim) {r : List α} (hi : rows[i]? = some r) :
    rowAt dim rows.flatten i = r := by
  have hlt : i < rows.length := (List.getElem?_eq_some_iff.mp hi).1
  have hfront := length_flatten_take h hlt.le
  rw [rowAt, flatten_split hi, List.drop_left' hfront,
    List.take_left' (h r (List.mem_of_getElem? hi))]

/-- The rows of a matrix that grows at its end stay. -/
theorem rowAt_append_left {m more : List α} (h : (i + 1) * dim ≤ m.length) :
    rowAt dim (m ++ more) i = rowAt dim m i := by
  have hstart : i * dim ≤ m.length := Nat.le_trans (Nat.mul_le_mul_right dim (Nat.le_succ i)) h
  rw [Nat.succ_mul] at h
  rw [rowAt, rowAt, List.drop_append_of_le_length hstart,
    List.take_append_of_le_length (by rw [List.length_drop]; omega)]

/-- The row at the end. -/
theorem rowAt_append_self {m row : List α} (h : m.length = i * dim) (hrow : row.length = dim) :
    rowAt dim (m ++ row) i = row := by
  rw [rowAt, List.drop_left' h, List.take_of_length_le (Nat.le_of_eq hrow)]

theorem length_rowAt {m : List α} (h : (i + 1) * dim ≤ m.length) :
    (rowAt dim m i).length = dim := by
  rw [Nat.succ_mul] at h
  rw [rowAt, List.length_take, List.length_drop]
  omega

/-- **A row that is copied over** is replaced. -/
theorem overwrite_flatten (h : ∀ r ∈ rows, r.length = dim) (hi : i < rows.length) {row : List α}
    (hrow : row.length = dim) :
    overwrite (i * dim) row rows.flatten = (rows.set i row).flatten := by
  have hold : rows[i]? = some rows[i] := List.getElem?_eq_getElem hi
  have hlen : row.length = rows[i].length := by rw [hrow, h _ (List.getElem_mem hi)]
  rw [flatten_split hold, overwrite_append _ _ (length_flatten_take h hi.le) hlen,
    List.set_eq_take_append_cons_drop, if_pos hi, List.flatten_append, List.flatten_cons]

/-- A row that is copied to the first of the rows still zero. -/
theorem overwrite_zeros (h : ∀ r ∈ rows, r.length = dim) {row : List α} (hrow : row.length = dim)
    (zero : α) (n : Nat) :
    overwrite (rows.length * dim) row (rows.flatten ++ List.replicate ((n + 1) * dim) zero) =
      (rows ++ [row]).flatten ++ List.replicate (n * dim) zero := by
  have hzeros : List.replicate ((n + 1) * dim) zero =
      List.replicate dim zero ++ List.replicate (n * dim) zero := by
    rw [List.replicate_append_replicate, Nat.succ_mul, Nat.add_comm]
  have hlen : row.length = (List.replicate dim zero).length := by
    rw [hrow, List.length_replicate]
  rw [hzeros, overwrite_append _ _ (length_flatten_rows h) hlen, List.flatten_append,
    List.flatten_singleton, List.append_assoc]

/-- A value that is written to the first of the places still free. -/
theorem set_zeros (l : List α) (a zero : α) (n : Nat) :
    (l ++ List.replicate (n + 1) zero).set l.length a = (l ++ [a]) ++ List.replicate n zero := by
  rw [List.set_append_right _ _ le_rfl, Nat.sub_self, List.replicate_succ, List.set_cons_zero,
    List.append_assoc, List.singleton_append]

/-- A place of two arrays that stand one after the other. -/
theorem getElem?_append_cases {l more : List α} {a : α} (h : (l ++ more)[i]? = some a) :
    l[i]? = some a ∨ l.length ≤ i ∧ more[i - l.length]? = some a := by
  by_cases hlt : i < l.length
  · rw [List.getElem?_append_left hlt] at h
    exact .inl h
  · rw [List.getElem?_append_right (Nat.le_of_not_lt hlt)] at h
    exact .inr ⟨Nat.le_of_not_lt hlt, h⟩

/-- How many places of an array hold a value. -/
theorem length_filter_range_eq_count [DecidableEq α] (l : List α) (a : α) :
    ((List.range l.length).filter fun i => l[i]? = some a).length = l.count a := by
  induction l with
  | nil => rfl
  | cons b l ih =>
    have htail : ((List.range l.length).map Nat.succ).filter
        (fun i => (b :: l)[i]? = some a) =
        ((List.range l.length).filter fun i => l[i]? = some a).map Nat.succ := by
      rw [List.filter_map]
      rfl
    rw [List.length_cons, List.range_succ_eq_map, List.filter_cons, htail, List.count_cons, ← ih]
    by_cases h : b = a
    · simp [h]
    · simp [h]

/-- The array of a field that is given a value. -/
theorem map_modify_field {l : List α} {f : α → α} {g : α → β} {b : β} (h : ∀ a, g (f a) = b) :
    (l.modify i f).map g = (l.map g).set i b := by
  apply List.ext_getElem?
  intro j
  rw [List.getElem?_map, List.getElem?_modify, List.getElem?_set, List.getElem?_map,
    List.length_map]
  by_cases hij : i = j
  · subst hij
    by_cases hlt : i < l.length
    · simp [hlt, h]
    · simp [hlt]
  · simp [hij]

/-- The array of a field that stays. -/
theorem map_modify_other {l : List α} {f : α → α} {g : α → β} (h : ∀ a, g (f a) = g a) :
    (l.modify i f).map g = l.map g := by
  apply List.ext_getElem?
  intro j
  rw [List.getElem?_map, List.getElem?_modify, List.getElem?_map]
  by_cases hij : i = j
  · subst hij
    cases l[i]? <;> simp [h]
  · cases l[j]? <;> simp [hij]

end Nvecd.Lib
