/-
  File:      Nvecd/Lib/Merge.lean
  Subject:   Merging two lists, the best first, when a list that is used up counts as a mark.

  The merge compares the heads of the lists and takes the mark for the head of an empty one. It
  goes wrong where the mark wins: there is nothing to take then. For sorted lists that is a
  statement about the two collections of scores.

  * `mergeTop` -- the merge; `none` where it takes from an empty list;
  * `Overruns` -- one list is used up while the next of the other is below the mark;
  * `mergeTop_eq_none` -- the merge goes wrong if and only if the lists overrun;
  * `mergeTop_some` -- what it returns otherwise;
  * `overruns_of_selects`, `overruns_of_selects_main` -- for the first of a list and the whole
    list the same.
-/
import Mathlib.Data.List.Perm.Subperm
import Mathlib.Order.Lattice
import Mathlib.Tactic.Push

namespace Nvecd.Lib

universe u v

variable {α : Type u} {K : Type v} [LinearOrder K]

/-! ## 1. The merge -/

/-- The first `n` of two lists; the answer of `mainFirst` says from which the next one is taken. -/
def mergeTop (mainFirst : Option α → Option α → Bool) : Nat → List α → List α → Option (List α)
  | 0, _, _ => some []
  | _ + 1, [], [] => some []
  | n + 1, main, delta =>
    if mainFirst main.head? delta.head? then
      match main with
      | [] => none
      | x :: main => (mergeTop mainFirst n main delta).map (x :: ·)
    else
      match delta with
      | [] => none
      | y :: delta => (mergeTop mainFirst n main delta).map (y :: ·)

/-- How many values are above one. -/
def above (l : List K) (x : K) : Nat := l.countP fun y => decide (x < y)

/-- **Where a merge goes wrong**: one list is used up, and the next value of the other one is at
    most (the second list) or below (the first list) the mark. -/
def Overruns (mark : K) (n : Nat) (main delta : List K) : Prop :=
  (∃ y ∈ delta, y ≤ mark ∧ (∀ x ∈ main, y ≤ x) ∧ main.length + above delta y < n) ∨
    ∃ x ∈ main, x < mark ∧ (∀ y ∈ delta, x < y) ∧ delta.length + above main x < n

/-- The best comes first. -/
def Descending (l : List K) : Prop := l.Pairwise fun x y => y ≤ x

section Above

variable {l l' : List K} {x y : K}

theorem above_cons_of_lt (h : x < y) : above (y :: l) x = above l x + 1 := by
  rw [above, List.countP_cons, if_pos (decide_eq_true h)]
  rfl

theorem above_cons_of_le (h : y ≤ x) : above (y :: l) x = above l x := by
  rw [above, List.countP_cons, if_neg (by simpa using h)]
  rfl

theorem above_eq_zero (h : ∀ y ∈ l, y ≤ x) : above l x = 0 := by
  rw [above, List.countP_eq_zero]
  intro y hy
  simpa using h y hy

theorem above_perm (h : l.Perm l') : above l x = above l' x := h.countP_eq _

theorem above_append : above (l ++ l') x = above l x + above l' x := List.countP_append

end Above

/-! ## 2. When it goes wrong -/

section Overrun

variable {mark x y : K} {n : Nat} {main delta : List K}

theorem not_overruns_zero : ¬ Overruns mark 0 main delta := by
  rintro (⟨_, -, -, -, h⟩ | ⟨_, -, -, -, h⟩)
  · exact Nat.not_lt_zero _ h
  · exact Nat.not_lt_zero _ h

theorem not_overruns_nil : ¬ Overruns mark n ([] : List K) [] := by
  rintro (⟨_, h, -⟩ | ⟨_, h, -⟩)
  · cases h
  · cases h

/-- The first list is used up. -/
theorem overruns_nil_cons (hdelta : Descending (y :: delta)) :
    Overruns mark (n + 1) [] (y :: delta) ↔ y ≤ mark ∨ Overruns mark n [] delta := by
  have hle := (List.pairwise_cons.mp hdelta).1
  constructor
  · rintro (⟨y', hy', hmark, -, hcount⟩ | ⟨x, hx, -⟩)
    · refine or_iff_not_imp_left.mpr fun hy => .inl ?_
      have hlt : y' < y := hmark.trans_lt (not_le.mp hy)
      refine ⟨y', (List.mem_cons.mp hy').resolve_left hlt.ne, hmark, nofun, ?_⟩
      rw [above_cons_of_lt hlt] at hcount
      exact Nat.lt_of_succ_lt_succ hcount
    · cases hx
  · rintro (hy | ⟨y', hy', hmark, -, hcount⟩ | ⟨x, hx, -⟩)
    · refine .inl ⟨y, List.mem_cons_self, hy, nofun, ?_⟩
      rw [above_cons_of_le le_rfl, above_eq_zero hle]
      exact Nat.succ_pos n
    · by_cases hy : y ≤ mark
      · refine .inl ⟨y, List.mem_cons_self, hy, nofun, ?_⟩
        rw [above_cons_of_le le_rfl, above_eq_zero hle]
        exact Nat.succ_pos n
      · refine .inl ⟨y', List.mem_cons_of_mem y hy', hmark, nofun, ?_⟩
        rw [above_cons_of_lt (hmark.trans_lt (not_le.mp hy))]
        exact Nat.succ_lt_succ hcount
    · cases hx

/-- The second list is used up. -/
theorem overruns_cons_nil (hmain : Descending (x :: main)) :
    Overruns mark (n + 1) (x :: main) [] ↔ x < mark ∨ Overruns mark n main [] := by
  have hle := (List.pairwise_cons.mp hmain).1
  have hfirst : x < mark → Overruns mark (n + 1) (x :: main) [] := by
    refine fun hx => .inr ⟨x, List.mem_cons_self, hx, nofun, ?_⟩
    rw [above_cons_of_le le_rfl, above_eq_zero hle]
    exact Nat.succ_pos n
  constructor
  · rintro (⟨y, hy, -⟩ | ⟨x', hx', hmark, -, hcount⟩)
    · cases hy
    · refine or_iff_not_imp_left.mpr fun hx => .inr ?_
      have hlt : x' < x := hmark.trans_le (not_lt.mp hx)
      refine ⟨x', (List.mem_cons.mp hx').resolve_left hlt.ne, hmark, nofun, ?_⟩
      rw [above_cons_of_lt hlt] at hcount
      exact Nat.lt_of_succ_lt_succ hcount
  · rintro (hx | ⟨y, hy, -⟩ | ⟨x', hx', hmark, -, hcount⟩)
    · exact hfirst hx
    · cases hy
    · by_cases hx : x < mark
      · exact hfirst hx
      · refine .inr ⟨x', List.mem_cons_of_mem x hx', hmark, nofun, ?_⟩
        rw [above_cons_of_lt (hmark.trans_le (not_lt.mp hx))]
        exact Nat.succ_lt_succ hcount

/-- The head of the first list comes first. -/
theorem overruns_take_main (hdelta : Descending (y :: delta)) (hyx : y ≤ x) :
    Overruns mark (n + 1) (x :: main) (y :: delta) ↔ Overruns mark n main (y :: delta) := by
  have hle : ∀ y' ∈ y :: delta, y' ≤ x := fun y' hy' =>
    (List.mem_cons.mp hy').elim (fun h => h ▸ hyx) fun h =>
      ((List.pairwise_cons.mp hdelta).1 y' h).trans hyx
  refine or_congr (exists_congr fun y' => and_congr_right fun hy' => and_congr_right fun _ => ?_) ?_
  · rw [List.forall_mem_cons, List.length_cons]
    constructor
    · exact fun h => ⟨h.1.2, by omega⟩
    · exact fun h => ⟨⟨hle y' hy', h.1⟩, by omega⟩
  · constructor
    · rintro ⟨x', hx', hmark, hall, hcount⟩
      have hlt : x' < x := (hall y List.mem_cons_self).trans_le hyx
      refine ⟨x', (List.mem_cons.mp hx').resolve_left hlt.ne, hmark, hall, ?_⟩
      rw [above_cons_of_lt hlt] at hcount
      exact Nat.lt_of_succ_lt_succ hcount
    · rintro ⟨x', hx', hmark, hall, hcount⟩
      refine ⟨x', List.mem_cons_of_mem x hx', hmark, hall, ?_⟩
      rw [above_cons_of_lt ((hall y List.mem_cons_self).trans_le hyx)]
      exact Nat.succ_lt_succ hcount

/-- The head of the second list comes first. -/
theorem overruns_take_delta (hmain : Descending (x :: main)) (hxy : x < y) :
    Overruns mark (n + 1) (x :: main) (y :: delta) ↔ Overruns mark n (x :: main) delta := by
  have hlt : ∀ x' ∈ x :: main, x' < y := fun x' hx' =>
    (List.mem_cons.mp hx').elim (fun h => h ▸ hxy) fun h =>
      ((List.pairwise_cons.mp hmain).1 x' h).trans_lt hxy
  refine or_congr ?_ (exists_congr fun x' => and_congr_right fun hx' => and_congr_right fun _ => ?_)
  · constructor
    · rintro ⟨y', hy', hmark, hall, hcount⟩
      have hlt' : y' < y := (hall x List.mem_cons_self).trans_lt hxy
      refine ⟨y', (List.mem_cons.mp hy').resolve_left hlt'.ne, hmark, hall, ?_⟩
      rw [above_cons_of_lt hlt'] at hcount
      omega
    · rintro ⟨y', hy', hmark, hall, hcount⟩
      refine ⟨y', List.mem_cons_of_mem y hy', hmark, hall, ?_⟩
      rw [above_cons_of_lt ((hall x List.mem_cons_self).trans_lt hxy)]
      omega
  · rw [List.forall_mem_cons, List.length_cons]
    constructor
    · exact fun h => ⟨h.1.2, by omega⟩
    · exact fun h => ⟨⟨hlt x' hx', h.1⟩, by omega⟩

end Overrun

/-! ## 3. What it returns -/

/-- Heads are compared by their values, and for the head of an empty list the mark is taken. -/
structure ComparesBy (mainFirst : Option α → Option α → Bool) (value : α → K) (mark : K)
    (main delta : List α) : Prop where
  both : ∀ x ∈ main, ∀ y ∈ delta, mainFirst (some x) (some y) = decide (value y ≤ value x)
  mainOnly : ∀ x ∈ main, mainFirst (some x) none = decide (mark ≤ value x)
  deltaOnly : ∀ y ∈ delta, mainFirst none (some y) = decide (value y ≤ mark)

section Merge

variable {mainFirst : Option α → Option α → Bool} {value : α → K} {mark : K} {n : Nat}
  {main delta r : List α} {x y : α}

theorem ComparesBy.tail_main (h : ComparesBy mainFirst value mark (x :: main) delta) :
    ComparesBy mainFirst value mark main delta :=
  ⟨fun x' hx' => h.both x' (List.mem_cons_of_mem x hx'),
    fun x' hx' => h.mainOnly x' (List.mem_cons_of_mem x hx'), h.deltaOnly⟩

theorem ComparesBy.tail_delta (h : ComparesBy mainFirst value mark main (y :: delta)) :
    ComparesBy mainFirst value mark main delta :=
  ⟨fun x' hx' y' hy' => h.both x' hx' y' (List.mem_cons_of_mem y hy'), h.mainOnly,
    fun y' hy' => h.deltaOnly y' (List.mem_cons_of_mem y hy')⟩

theorem descending_tail {l : List α} (h : Descending ((x :: l).map value)) :
    Descending (l.map value) := (List.pairwise_cons.mp h).2

/-- **A merge of sorted lists goes wrong** if and only if they overrun. -/
theorem mergeTop_eq_none (h : ComparesBy mainFirst value mark main delta)
    (hmain : Descending (main.map value)) (hdelta : Descending (delta.map value)) :
    mergeTop mainFirst n main delta = none ↔
      Overruns mark n (main.map value) (delta.map value) := by
  induction n generalizing main delta with
  | zero =>
    rw [mergeTop]
    exact iff_of_false nofun not_overruns_zero
  | succ n ih =>
    cases main with
    | nil =>
      cases delta with
      | nil =>
        rw [mergeTop]
        exact iff_of_false nofun not_overruns_nil
      | cons y delta =>
        have hmark := h.deltaOnly y List.mem_cons_self
        have hrest := ih h.tail_delta hmain (descending_tail hdelta)
        rw [List.map_cons, List.map_nil, overruns_nil_cons hdelta]
        simp only [mergeTop, List.head?_nil, List.head?_cons, hmark, decide_eq_true_eq]
        split
        · rename_i hy
          exact iff_of_true rfl (.inl hy)
        · rename_i hy
          rw [Option.map_eq_none_iff, hrest, or_iff_right hy]
          rfl
    | cons x main =>
      cases delta with
      | nil =>
        have hmark := h.mainOnly x List.mem_cons_self
        have hrest := ih h.tail_main (descending_tail hmain) hdelta
        rw [List.map_cons, List.map_nil, overruns_cons_nil hmain]
        simp only [mergeTop, List.head?_nil, List.head?_cons, hmark, decide_eq_true_eq]
        split
        · rename_i hx
          rw [Option.map_eq_none_iff, hrest, or_iff_right (not_lt.mpr hx)]
          rfl
        · rename_i hx
          exact iff_of_true rfl (.inl (not_le.mp hx))
      | cons y delta =>
        have hboth := h.both x List.mem_cons_self y List.mem_cons_self
        simp only [mergeTop, List.head?_cons, hboth, decide_eq_true_eq, List.map_cons]
        split
        · rename_i hyx
          rw [Option.map_eq_none_iff, ih h.tail_main (descending_tail hmain) hdelta,
            overruns_take_main hdelta hyx]
          rfl
        · rename_i hyx
          rw [Option.map_eq_none_iff, ih h.tail_delta hmain (descending_tail hdelta),
            overruns_take_delta hmain (not_le.mp hyx)]
          rfl

/-- Above the mark a merge goes well, sorted or not. -/
theorem mergeTop_isSome (h : ComparesBy mainFirst value mark main delta)
    (hmain : ∀ x ∈ main, mark ≤ value x) (hdelta : ∀ y ∈ delta, mark < value y) :
    (mergeTop mainFirst n main delta).isSome := by
  induction n generalizing main delta with
  | zero => rw [mergeTop, Option.isSome_some]
  | succ n ih =>
    cases main with
    | nil =>
      cases delta with
      | nil => rw [mergeTop, Option.isSome_some]
      | cons y delta =>
        have hmark := h.deltaOnly y List.mem_cons_self
        simp only [mergeTop, List.head?_nil, List.head?_cons, hmark, decide_eq_true_eq]
        rw [if_neg (not_le.mpr (hdelta y List.mem_cons_self)), Option.isSome_map]
        exact ih h.tail_delta hmain fun y' hy' => hdelta y' (List.mem_cons_of_mem y hy')
    | cons x main =>
      have hrest := fun x' hx' => hmain x' (List.mem_cons_of_mem x hx')
      cases delta with
      | nil =>
        have hmark := h.mainOnly x List.mem_cons_self
        simp only [mergeTop, List.head?_nil, List.head?_cons, hmark, decide_eq_true_eq]
        rw [if_pos (hmain x List.mem_cons_self), Option.isSome_map]
        exact ih h.tail_main hrest hdelta
      | cons y delta =>
        simp only [mergeTop]
        split
        · rw [Option.isSome_map]
          exact ih h.tail_main hrest hdelta
        · rw [Option.isSome_map]
          exact ih h.tail_delta hmain fun y' hy' => hdelta y' (List.mem_cons_of_mem y hy')

/-- **What a merge returns**: as many as there are or are asked for, from the two lists. -/
theorem mergeTop_some (h : mergeTop mainFirst n main delta = some r) :
    r.length = min n (main.length + delta.length) ∧
      ∃ rest, (r ++ rest).Perm (main ++ delta) := by
  induction n generalizing main delta r with
  | zero =>
    rw [mergeTop] at h
    obtain rfl := Option.some.inj h
    exact ⟨(Nat.zero_min _).symm, _, List.Perm.refl _⟩
  | succ n ih =>
    have hmain : ∀ {x main}, (mergeTop mainFirst n main delta).map (x :: ·) = some r →
        r.length = min (n + 1) ((x :: main).length + delta.length) ∧
          ∃ rest, (r ++ rest).Perm (x :: main ++ delta) := by
      intro x main h
      obtain ⟨r', hr', rfl⟩ := Option.map_eq_some_iff.mp h
      obtain ⟨hlen, rest, hperm⟩ := ih hr'
      refine ⟨?_, rest, hperm.cons x⟩
      rw [List.length_cons, List.length_cons]
      omega
    have hdelta : ∀ {y delta}, (mergeTop mainFirst n main delta).map (y :: ·) = some r →
        r.length = min (n + 1) (main.length + (y :: delta).length) ∧
          ∃ rest, (r ++ rest).Perm (main ++ y :: delta) := by
      intro y delta h
      obtain ⟨r', hr', rfl⟩ := Option.map_eq_some_iff.mp h
      obtain ⟨hlen, rest, hperm⟩ := ih hr'
      refine ⟨?_, rest, (hperm.cons y).trans List.perm_middle.symm⟩
      rw [List.length_cons, List.length_cons]
      omega
    cases main with
    | nil =>
      cases delta with
      | nil =>
        rw [mergeTop] at h
        obtain rfl := Option.some.inj h
        exact ⟨rfl, [], List.Perm.refl _⟩
      | cons y delta =>
        simp only [mergeTop] at h
        split at h
        · cases h
        · exact hdelta h
    | cons x main =>
      simp only [mergeTop] at h
      split at h
      · exact hmain h
      · cases delta with
        | nil => cases h
        | cons y delta => exact hdelta h

/-- What a merge of sorted lists returns is sorted. -/
theorem mergeTop_descending (h : ComparesBy mainFirst value mark main delta)
    (hmain : Descending (main.map value)) (hdelta : Descending (delta.map value))
    (hr : mergeTop mainFirst n main delta = some r) : Descending (r.map value) := by
  induction n generalizing main delta r with
  | zero =>
    rw [mergeTop] at hr
    obtain rfl := Option.some.inj hr
    exact List.Pairwise.nil
  | succ n ih =>
    -- the rest comes from what is left of the two lists
    have hcons : ∀ {z : α} {main' delta' : List α},
        (mergeTop mainFirst n main' delta').map (z :: ·) = some r →
        ComparesBy mainFirst value mark main' delta' → Descending (main'.map value) →
        Descending (delta'.map value) → (∀ x ∈ main', value x ≤ value z) →
        (∀ y ∈ delta', value y ≤ value z) → Descending (r.map value) := by
      intro z main' delta' hr h' hmain' hdelta' hx hy
      obtain ⟨r', hr', rfl⟩ := Option.map_eq_some_iff.mp hr
      obtain ⟨-, rest, hperm⟩ := mergeTop_some hr'
      refine List.pairwise_cons.mpr ⟨fun k hk => ?_, ih h' hmain' hdelta' hr'⟩
      obtain ⟨a, ha, rfl⟩ := List.mem_map.mp hk
      have hin := hperm.mem_iff.mp (List.mem_append_left rest ha)
      exact (List.mem_append.mp hin).elim (hx a) (hy a)
    have hhead : ∀ {a : α} {l : List α}, Descending ((a :: l).map value) →
        ∀ b ∈ l, value b ≤ value a := fun hl b hb =>
      (List.pairwise_cons.mp hl).1 _ (List.mem_map_of_mem hb)
    cases main with
    | nil =>
      cases delta with
      | nil =>
        rw [mergeTop] at hr
        obtain rfl := Option.some.inj hr
        exact List.Pairwise.nil
      | cons y delta =>
        simp only [mergeTop] at hr
        split at hr
        · cases hr
        · exact hcons hr h.tail_delta hmain (descending_tail hdelta) nofun (hhead hdelta)
    | cons x main =>
      cases delta with
      | nil =>
        simp only [mergeTop] at hr
        split at hr
        · exact hcons hr h.tail_main (descending_tail hmain) hdelta (hhead hmain) nofun
        · cases hr
      | cons y delta =>
        have hboth := h.both x List.mem_cons_self y List.mem_cons_self
        simp only [mergeTop, List.head?_cons, hboth, decide_eq_true_eq] at hr
        split at hr
        · rename_i hyx
          refine hcons hr h.tail_main (descending_tail hmain) hdelta (hhead hmain) fun b hb => ?_
          exact (List.mem_cons.mp hb).elim (fun he => he ▸ hyx) fun hb =>
            (hhead hdelta b hb).trans hyx
        · rename_i hyx
          have hxy := (not_le.mp hyx).le
          refine hcons hr h.tail_delta hmain (descending_tail hdelta) (fun b hb => ?_)
            (hhead hdelta)
          exact (List.mem_cons.mp hb).elim (fun he => he ▸ hxy) fun hb =>
            (hhead hmain b hb).trans hxy

end Merge

/-! ## 4. The first of a list -/

/-- **The first `n` of the second list** overrun as the whole list does. -/
theorem overruns_of_selects {mark : K} {n : Nat} {main kept all : List K} (omitted : List K)
    (hlen : kept.length = min n all.length) (hall : (kept ++ omitted).Perm all)
    (hbest : ∀ x ∈ omitted, ∀ y ∈ kept, x ≤ y) :
    Overruns mark n main kept ↔ Overruns mark n main all := by
  have htotal := hall.length_eq
  rw [List.length_append] at htotal
  have habove : ∀ y ∈ kept, above all y = above kept y := by
    intro y hy
    rw [← above_perm hall, above_append, above_eq_zero fun x hx => hbest x hx y hy, Nat.add_zero]
  have hsub : ∀ x ∈ kept, x ∈ all := fun x hx => hall.mem_iff.mp (List.mem_append_left omitted hx)
  constructor
  · rintro (⟨y, hy, hmark, hmain, hcount⟩ | ⟨x, hx, hmark, hdelta, hcount⟩)
    · exact .inl ⟨y, hsub y hy, hmark, hmain, (habove y hy).symm ▸ hcount⟩
    · -- the first list is read only if the whole second list was
      have hnil : omitted = [] := List.eq_nil_of_length_eq_zero (by omega)
      rw [hnil, List.append_nil] at hall
      refine .inr ⟨x, hx, hmark, fun y hy => hdelta y (hall.mem_iff.mpr hy), ?_⟩
      rwa [← hall.length_eq]
  · rintro (⟨y, hy, hmark, hmain, hcount⟩ | ⟨x, hx, hmark, hdelta, hcount⟩)
    · by_cases hkept : y ∈ kept
      · exact .inl ⟨y, hkept, hmark, hmain, habove y hkept ▸ hcount⟩
      · -- a value of the same size is among the first
        have hout : y ∈ omitted :=
          (List.mem_append.mp (hall.mem_iff.mpr hy)).resolve_left hkept
        have hpos := List.length_pos_of_mem hout
        obtain ⟨y', hy', hle⟩ : ∃ y' ∈ kept, y' ≤ y := by
          by_contra hnone
          push Not at hnone
          have hcountKept : above kept y = kept.length :=
            List.countP_eq_length.mpr fun x hx => decide_eq_true (hnone x hx)
          rw [← above_perm hall, above_append, hcountKept] at hcount
          omega
        have heq : y' = y := le_antisymm hle (hbest y hout y' hy')
        refine .inl ⟨y', hy', heq ▸ hmark, heq ▸ hmain, ?_⟩
        rw [← habove y' hy', heq]
        exact hcount
    · refine .inr ⟨x, hx, hmark, fun y hy => hdelta y (hsub y hy), ?_⟩
      omega

/-- The first `n` of the first list do so too. -/
theorem overruns_of_selects_main {mark : K} {n : Nat} {kept all delta : List K}
    (omitted : List K) (hlen : kept.length = min n all.length)
    (hall : (kept ++ omitted).Perm all) (hbest : ∀ x ∈ omitted, ∀ y ∈ kept, x ≤ y) :
    Overruns mark n kept delta ↔ Overruns mark n all delta := by
  have htotal := hall.length_eq
  rw [List.length_append] at htotal
  have habove : ∀ x ∈ kept, above all x = above kept x := by
    intro x hx
    rw [← above_perm hall, above_append, above_eq_zero fun y hy => hbest y hy x hx, Nat.add_zero]
  have hsub : ∀ x ∈ kept, x ∈ all := fun x hx => hall.mem_iff.mp (List.mem_append_left omitted hx)
  constructor
  · rintro (⟨y, hy, hmark, hmain, hcount⟩ | ⟨x, hx, hmark, hdelta, hcount⟩)
    · -- the second list is read only if the whole first list was
      have hnil : omitted = [] := List.eq_nil_of_length_eq_zero (by omega)
      rw [hnil, List.append_nil] at hall
      refine .inl ⟨y, hy, hmark, fun x hx => hmain x (hall.mem_iff.mpr hx), ?_⟩
      rwa [← hall.length_eq]
    · exact .inr ⟨x, hsub x hx, hmark, hdelta, (habove x hx).symm ▸ hcount⟩
  · rintro (⟨y, hy, hmark, hmain, hcount⟩ | ⟨x, hx, hmark, hdelta, hcount⟩)
    · refine .inl ⟨y, hy, hmark, fun x hx => hmain x (hsub x hx), ?_⟩
      omega
    · by_cases hkept : x ∈ kept
      · exact .inr ⟨x, hkept, hmark, hdelta, habove x hkept ▸ hcount⟩
      · -- a value of the same size is among the first
        have hout : x ∈ omitted := (List.mem_append.mp (hall.mem_iff.mpr hx)).resolve_left hkept
        have hpos := List.length_pos_of_mem hout
        obtain ⟨x', hx', hle⟩ : ∃ x' ∈ kept, x' ≤ x := by
          by_contra hnone
          push Not at hnone
          have hcountKept : above kept x = kept.length :=
            List.countP_eq_length.mpr fun y hy => decide_eq_true (hnone y hy)
          rw [← above_perm hall, above_append, hcountKept] at hcount
          omega
        exact absurd (le_antisymm hle (hbest x hout x' hx') ▸ hx') hkept

end Nvecd.Lib
