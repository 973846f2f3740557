/-
  File:      Nvecd/Lib/Ranked.lean
  Subject:   Lists ranked by a comparison, and the first `k` of a ranking that pass a filter.

  * `Sorter` -- a sort by a comparison, which leaves open how it orders items that the comparison
    does not tell apart; `Sorter.byKey` -- there is one;
  * `firstPassing` -- the first `k` that pass. A stretch from the front of the ranking has them
    if `k` of it pass, or if the ranking is no longer.
-/
import Mathlib.Data.List.Sort

namespace Nvecd.Lib

universe u v

/-! ## 1. Sorting -/

/-- `std::sort`: the same items, and none behind one it comes before. -/
structure Sorter (α : Type u) (first : α → α → Bool) where
  sort : List α → List α
  perm : ∀ l, (sort l).Perm l
  sorted : ∀ l, (sort l).Pairwise fun a b => first b a = false

/-- The largest keys first; the same key in the order of the list. -/
def Sorter.byKey {α : Type u} {K : Type v} [LinearOrder K] (key : α → K) :
    Sorter α fun a b => decide (key b < key a) where
  sort := List.insertionSort fun a b => key b ≤ key a
  perm := List.perm_insertionSort _
  sorted l := by
    have : Std.Total fun a b : α => key b ≤ key a := ⟨fun a b => le_total (key b) (key a)⟩
    have : IsTrans α fun a b => key b ≤ key a := ⟨fun _ _ _ hab hbc => hbc.trans hab⟩
    refine (List.pairwise_insertionSort (fun a b => key b ≤ key a) l).imp fun h => ?_
    exact decide_eq_false (not_lt.mpr h)

/-! ## 2. The first that pass -/

variable {α : Type u} {p : α → Bool} {k n : Nat} {l : List α}

/-- The first `k` items that pass. -/
def firstPassing (p : α → Bool) (k : Nat) (l : List α) : List α := (l.filter p).take k

theorem length_firstPassing : (firstPassing p k l).length = min k (l.filter p).length :=
  List.length_take

theorem filter_take_prefix (p : α → Bool) (n : Nat) (l : List α) :
    (l.take n).filter p <+: l.filter p :=
  ((List.take_prefix n l).filter p)

/-- Fewer pass in a shorter stretch. -/
theorem length_filter_take_le (h : n ≤ k) :
    ((l.take n).filter p).length ≤ ((l.take k).filter p).length := by
  refine List.Sublist.length_le (List.Sublist.filter p ?_)
  exact (List.take_prefix_take_left h).sublist

/-- `k` of the first `n` pass: no later item is among the first `k` that pass. -/
theorem firstPassing_take_of_enough (h : k ≤ ((l.take n).filter p).length) :
    firstPassing p k (l.take n) = firstPassing p k l := by
  obtain ⟨rest, hrest⟩ := filter_take_prefix p n l
  unfold firstPassing
  rw [← hrest, List.take_append_of_le_length h]

/-- There is no later item. -/
theorem firstPassing_take_of_length (h : l.length ≤ n) :
    firstPassing p k (l.take n) = firstPassing p k l := by
  rw [List.take_of_length_le h]

/-- Every item passes. -/
theorem firstPassing_take_of_all (h : ∀ x ∈ l, p x = true) (hk : k ≤ n) :
    firstPassing p k (l.take n) = firstPassing p k l := by
  unfold firstPassing
  rw [List.filter_eq_self.mpr h,
    List.filter_eq_self.mpr fun x hx => h x (List.mem_of_mem_take hx), List.take_take,
    Nat.min_eq_left hk]

end Nvecd.Lib
