/-
  File:      Nvecd/Lib/Checked.lean
  Subject:   Computations that read at computed places, with `none` for a read out of range.

  * `mapM_total` -- a loop over a list each of whose steps succeeds;
  * `mapM_eq_some_map` -- one whose steps compute a function;
  * `mapM_eq_none` -- one that has a step that fails;
  * `flatten_set_append` -- an item put at the end of one list of several.
-/
import Mathlib.Data.List.Basic
import Mathlib.Data.List.Perm.Basic

namespace Nvecd.Lib

universe u v

variable {α : Type u} {β : Type u}

/-- **A loop whose steps all succeed.** -/
theorem mapM_total {f : α → Option β} {P : β → Prop} {l : List α}
    (h : ∀ a ∈ l, ∃ b, f a = some b ∧ P b) :
    ∃ bs, l.mapM f = some bs ∧ bs.length = l.length ∧ ∀ b ∈ bs, P b := by
  induction l with
  | nil => exact ⟨[], rfl, rfl, nofun⟩
  | cons a l ih =>
    obtain ⟨b, hb, hPb⟩ := h a List.mem_cons_self
    obtain ⟨bs, hbs, hlen, hPbs⟩ := ih fun c hc => h c (List.mem_cons_of_mem a hc)
    refine ⟨b :: bs, ?_, congrArg Nat.succ hlen, List.forall_mem_cons.mpr ⟨hPb, hPbs⟩⟩
    rw [List.mapM_cons, hb, hbs]
    rfl

/-- A loop whose steps compute a function. -/
theorem mapM_eq_some_map {f : α → Option β} {e : α → β} {l : List α}
    (h : ∀ a ∈ l, f a = some (e a)) : l.mapM f = some (l.map e) := by
  induction l with
  | nil => rfl
  | cons a l ih =>
    rw [List.mapM_cons, h a List.mem_cons_self, ih fun b hb => h b (List.mem_cons_of_mem a hb)]
    rfl

theorem mapM_eq_none {f : α → Option β} {l : List α} {a : α} (ha : a ∈ l) (h : f a = none) :
    l.mapM f = none := by
  induction l with
  | nil => exact absurd ha List.not_mem_nil
  | cons b l ih =>
    rw [List.mapM_cons]
    cases List.mem_cons.mp ha with
    | inl heq =>
      rw [← heq, h]
      rfl
    | inr hmem =>
      rw [ih hmem]
      cases f b <;> rfl

/-- **One more item in one of several lists.** -/
theorem flatten_set_append {lists : List (List α)} {i : Nat} {list : List α} (x : α)
    (h : lists[i]? = some list) :
    (lists.set i (list ++ [x])).flatten.Perm (lists.flatten ++ [x]) := by
  induction lists generalizing i with
  | nil => cases h
  | cons head lists ih =>
    cases i with
    | zero =>
      obtain rfl : head = list := Option.some.inj h
      rw [List.set_cons_zero, List.flatten_cons, List.flatten_cons, List.append_assoc,
        List.append_assoc]
      exact List.Perm.append_left head List.perm_append_comm
    | succ i =>
      rw [List.set_cons_succ, List.flatten_cons, List.flatten_cons, List.append_assoc]
      exact List.Perm.append_left head (ih h)

end Nvecd.Lib
