/-
  File:      Nvecd/Lib/Fusion.lean
  Subject:   Scores of items from two sources, brought into the unit interval and added with
             weights.

  A source is a list of scores and items, no item twice. The numbers are those of an ordered
  field.

  * `InUnit` -- between zero and one; `clamp01`, `inUnit_spread` and `InUnit.mix` keep scores
    there;
  * `addScore` -- a weighted score added to what a map has for the item;
  * `fused` -- the items of both sources, each with the weighted sum of its scores;
    `entries_addScores_perm` -- the map has these entries.
-/
import Mathlib.Algebra.Order.Field.Basic
import Mathlib.Data.List.Dedup
import Mathlib.Tactic.Linarith
import Nvecd.Lib.AssocMap

namespace Nvecd.Lib

universe u v

variable {K : Type u} [Field K] [LinearOrder K] [IsStrictOrderedRing K]

/-! ## 1. The unit interval -/

/-- A score between zero and one. -/
def InUnit (x : K) : Prop := 0 ≤ x ∧ x ≤ 1

/-- The nearest score between zero and one. -/
def clamp01 (x : K) : K := max 0 (min 1 x)

theorem inUnit_clamp01 (x : K) : InUnit (clamp01 x) :=
  ⟨le_max_left _ _, max_le zero_le_one (min_le_left _ _)⟩

/-- A number between two others, as a part of their distance. -/
theorem inUnit_spread {lo hi x : K} (hlo : lo ≤ x) (hhi : x ≤ hi) (h : 0 < hi - lo) :
    InUnit ((x - lo) / (hi - lo)) :=
  ⟨div_nonneg (sub_nonneg.mpr hlo) h.le, (div_le_one h).mpr (sub_le_sub_right hhi lo)⟩

/-- Two weights that make one. -/
theorem InUnit.mix {a b x y : K} (ha : 0 ≤ a) (hb : 0 ≤ b) (hab : a + b = 1) (hx : InUnit x)
    (hy : InUnit y) : InUnit (a * x + b * y) := by
  refine ⟨add_nonneg (mul_nonneg ha hx.1) (mul_nonneg hb hy.1), ?_⟩
  calc
    a * x + b * y ≤ a * 1 + b * 1 :=
      add_le_add (mul_le_mul_of_nonneg_left hx.2 ha) (mul_le_mul_of_nonneg_left hy.2 hb)
    _ = 1 := by rw [mul_one, mul_one, hab]

/-- A point between two others. -/
theorem InUnit.between {lo hi t : K} (hlo : InUnit lo) (hhi : InUnit hi) (h : lo ≤ hi)
    (ht : InUnit t) : InUnit (hi - t * (hi - lo)) := by
  have hstep : 0 ≤ t * (hi - lo) := mul_nonneg ht.1 (sub_nonneg.mpr h)
  have hmost : t * (hi - lo) ≤ hi - lo := mul_le_of_le_one_left (sub_nonneg.mpr h) ht.2
  have := hlo.1
  have := hhi.2
  exact ⟨by linarith, by linarith⟩

/-! ## 2. The least and the greatest of a list -/

section Extremes

variable {ν : Type v}

omit [Field K] [IsStrictOrderedRing K] in
theorem foldl_min_le (l : List (K × ν)) (first : K) : l.foldl (fun m x => min m x.1) first ≤ first ∧
    ∀ x ∈ l, l.foldl (fun m x => min m x.1) first ≤ x.1 := by
  induction l generalizing first with
  | nil => exact ⟨le_rfl, nofun⟩
  | cons y l ih =>
    obtain ⟨hfirst, hall⟩ := ih (min first y.1)
    refine ⟨hfirst.trans (min_le_left _ _), fun x hx => ?_⟩
    cases List.mem_cons.mp hx with
    | inl heq => exact heq ▸ hfirst.trans (min_le_right _ _)
    | inr hx => exact hall x hx

omit [Field K] [IsStrictOrderedRing K] in
theorem le_foldl_max (l : List (K × ν)) (first : K) : first ≤ l.foldl (fun m x => max m x.1) first ∧
    ∀ x ∈ l, x.1 ≤ l.foldl (fun m x => max m x.1) first := by
  induction l generalizing first with
  | nil => exact ⟨le_rfl, nofun⟩
  | cons y l ih =>
    obtain ⟨hfirst, hall⟩ := ih (max first y.1)
    refine ⟨(le_max_left _ _).trans hfirst, fun x hx => ?_⟩
    cases List.mem_cons.mp hx with
    | inl heq =>
      rw [heq]
      exact (le_max_right _ _).trans hfirst
    | inr hx => exact hall x hx

end Extremes

/-! ## 3. Sums of scores -/

variable {ν : Type v} [DecidableEq ν]

/-- `scores[item] += weight * score`; a score that is not there begins as zero. -/
def addScore (weight : K) (scores : AssocMap ν K) (x : K × ν) : AssocMap ν K :=
  scores.insert x.2 ((scores.find? x.2).getD 0 + weight * x.1)

/-- The score of an item, zero if it is not in the list. -/
def scoreIn (l : List (K × ν)) (item : ν) : K :=
  ((l.find? fun x => decide (x.2 = item)).map Prod.fst).getD 0

/-- **The items of both lists, each with its weighted sum.** -/
def fused (a b : K) (left right : List (K × ν)) : List (K × ν) :=
  (left.map Prod.snd ++ right.map Prod.snd).dedup.map fun item =>
    (a * scoreIn left item + b * scoreIn right item, item)

section Sums

variable {a b : K} {left right l : List (K × ν)} {item : ν}

omit [LinearOrder K] [IsStrictOrderedRing K] in
theorem scoreIn_of_mem {x : K × ν} (hnd : (l.map Prod.snd).Nodup) (hx : x ∈ l) :
    scoreIn l x.2 = x.1 := by
  unfold scoreIn
  cases hfind : l.find? fun y => decide (y.2 = x.2) with
  | none => simpa using List.find?_eq_none.mp hfind x hx
  | some y =>
    have hy := List.mem_of_find?_eq_some hfind
    have heq : y.2 = x.2 := by simpa using List.find?_some hfind
    rw [List.inj_on_of_nodup_map hnd hy hx heq]
    rfl

omit [LinearOrder K] [IsStrictOrderedRing K] in
theorem scoreIn_of_not_mem (h : item ∉ l.map Prod.snd) : scoreIn l item = 0 := by
  unfold scoreIn
  rw [List.find?_eq_none.mpr fun x hx => ?_]
  · rfl
  · intro heq
    exact h (List.mem_map.mpr ⟨x, hx, of_decide_eq_true heq⟩)

omit [IsStrictOrderedRing K] in
theorem inUnit_scoreIn [IsStrictOrderedRing K] (h : ∀ x ∈ l, InUnit x.1) (item : ν) :
    InUnit (scoreIn l item) := by
  unfold scoreIn
  cases hfind : l.find? fun x => decide (x.2 = item) with
  | none => exact ⟨le_rfl, zero_le_one⟩
  | some x => exact h x (List.mem_of_find?_eq_some hfind)

omit [LinearOrder K] [IsStrictOrderedRing K] in
theorem scoreIn_cons_self (x : K × ν) (l : List (K × ν)) : scoreIn (x :: l) x.2 = x.1 := by
  unfold scoreIn
  rw [List.find?_cons_of_pos (by simp)]
  rfl

omit [LinearOrder K] [IsStrictOrderedRing K] in
theorem scoreIn_cons_of_ne {x : K × ν} (h : item ≠ x.2) : scoreIn (x :: l) item = scoreIn l item := by
  unfold scoreIn
  rw [List.find?_cons_of_neg (by simpa using h.symm)]

omit [LinearOrder K] [IsStrictOrderedRing K] in
/-- What the map has after the scores of one list are added. -/
theorem find?_addScores (hnd : (l.map Prod.snd).Nodup) (scores : AssocMap ν K) (item : ν) :
    (l.foldl (addScore a) scores).find? item =
      if item ∈ l.map Prod.snd then some ((scores.find? item).getD 0 + a * scoreIn l item)
      else scores.find? item := by
  induction l generalizing scores with
  | nil => simp
  | cons x l ih =>
    obtain ⟨hx, hnd⟩ := List.nodup_cons.mp hnd
    rw [List.foldl_cons, ih hnd]
    rw [List.map_cons, addScore]
    by_cases heq : item = x.2
    · subst heq
      rw [if_neg hx, if_pos List.mem_cons_self, AssocMap.find?_insert_self, scoreIn_cons_self]
    · rw [AssocMap.find?_insert_of_ne _ _ heq, scoreIn_cons_of_ne heq]
      simp only [List.mem_cons, heq, false_or]

omit [LinearOrder K] [IsStrictOrderedRing K] in
/-- **The map has the items of both lists with their weighted sums.** -/
theorem entries_addScores_perm (hleft : (left.map Prod.snd).Nodup)
    (hright : (right.map Prod.snd).Nodup) :
    ((right.foldl (addScore b) (left.foldl (addScore a) .empty)).entries.map fun e =>
      (e.2, e.1)).Perm (fused a b left right) := by
  have hfind : ∀ item, (right.foldl (addScore b) (left.foldl (addScore a) .empty)).find? item =
      if item ∈ left.map Prod.snd ∨ item ∈ right.map Prod.snd then
        some (a * scoreIn left item + b * scoreIn right item) else none := by
    intro item
    rw [find?_addScores hright, find?_addScores hleft, AssocMap.find?_empty]
    by_cases hl : item ∈ left.map Prod.snd <;> by_cases hr : item ∈ right.map Prod.snd
    · simp [hl, hr]
    · simp [hl, hr, scoreIn_of_not_mem hr]
    · simp [hl, hr, scoreIn_of_not_mem hl]
    · simp [hl, hr]
  refine (List.perm_ext_iff_of_nodup ?_ ?_).mpr fun x => ?_
  · refine List.Nodup.of_map Prod.snd ?_
    rw [List.map_map]
    exact AssocMap.nodupKeys _
  · refine List.Nodup.of_map Prod.snd ?_
    unfold fused
    rw [List.map_map]
    exact (List.nodup_dedup _).map fun _ _ h => h
  · obtain ⟨score, item⟩ := x
    have hentry : (score, item) ∈ (right.foldl (addScore b)
          (left.foldl (addScore a) .empty)).entries.map (fun e => (e.2, e.1)) ↔
        (right.foldl (addScore b) (left.foldl (addScore a) .empty)).find? item = some score := by
      rw [List.mem_map, ← AssocMap.mem_entries]
      constructor
      · rintro ⟨e, he, heq⟩
        cases heq
        exact he
      · exact fun he => ⟨_, he, rfl⟩
    rw [hentry, hfind]
    refine Iff.trans ?_ List.mem_map.symm
    constructor
    · intro h
      split at h
      · rename_i hmem
        exact ⟨item, List.mem_dedup.mpr (List.mem_append.mpr hmem), by rw [← Option.some.inj h]⟩
      · cases h
    · rintro ⟨_, hmem, heq⟩
      cases heq
      rw [if_pos (List.mem_append.mp (List.mem_dedup.mp hmem))]

omit [LinearOrder K] [IsStrictOrderedRing K] in
/-- The sums of scores of one list alone. -/
theorem fused_left (hnd : (left.map Prod.snd).Nodup) : fused 1 b left [] = left := by
  unfold fused
  rw [List.map_nil, List.append_nil, hnd.dedup, List.map_map]
  refine (List.map_congr_left fun x hx => ?_).trans (List.map_id left)
  show (1 * scoreIn left x.2 + b * 0, x.2) = x
  rw [scoreIn_of_mem hnd hx, one_mul, mul_zero, add_zero]

omit [LinearOrder K] [IsStrictOrderedRing K] in
theorem fused_right (hnd : (right.map Prod.snd).Nodup) : fused a 1 [] right = right := by
  unfold fused
  rw [List.map_nil, List.nil_append, hnd.dedup, List.map_map]
  refine (List.map_congr_left fun x hx => ?_).trans (List.map_id right)
  show (a * 0 + 1 * scoreIn right x.2, x.2) = x
  rw [scoreIn_of_mem hnd hx, one_mul, mul_zero, zero_add]

omit [LinearOrder K] [IsStrictOrderedRing K] in
theorem nodup_fused : ((fused a b left right).map Prod.snd).Nodup := by
  unfold fused
  rw [List.map_map]
  exact (List.nodup_dedup _).map fun _ _ h => h

/-- Weights that make one keep the sums between zero and one. -/
theorem inUnit_fused (ha : 0 ≤ a) (hb : 0 ≤ b) (hab : a + b = 1) (hl : ∀ x ∈ left, InUnit x.1)
    (hr : ∀ x ∈ right, InUnit x.1) : ∀ x ∈ fused a b left right, InUnit x.1 := by
  intro x hx
  obtain ⟨item, -, rfl⟩ := List.mem_map.mp hx
  exact (inUnit_scoreIn hl item).mix ha hb hab (inUnit_scoreIn hr item)

end Sums

end Nvecd.Lib
