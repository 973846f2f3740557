/-
  File:      Nvecd/Lib/BestFirst.lean
  Subject:   Two searches over a graph whose nodes have scores: climbing to a better neighbour as
             long as there is one, and best-first search that keeps a bounded number of nodes.

  The graph is a function `next` from nodes to lists of nodes, the scores are compared by a
  `Ranking`. Neither search assumes anything of the graph; what they return is said for every set
  `P` of nodes that the graph does not leave, and when `P` is finite they come to an end.

  * `Ranking` -- a strict comparison, priority queues and sorting, of which only that nothing is
    lost or added is known;
  * `greedy`, `greedy_spec` -- climbing;
  * `Frontier`, `bestFirst`, `bestFirst_spec` -- best-first search.
-/
import Mathlib.Data.List.Basic
import Mathlib.Data.List.Perm.Subperm
import Mathlib.Data.List.Nodup
import Mathlib.Data.List.Sort
import Mathlib.Order.Basic

namespace Nvecd.Lib

universe u v

variable {S : Type u} {ν : Type v}

/-- **How scored nodes are compared, queued and sorted.** Which of several nodes a queue gives
    first and in which order nodes come out of the sorting is left open. -/
structure Ranking (S : Type u) (ν : Type v) where
  better : S → S → Bool
  /-- The top of a queue that gives the best first, and the rest. -/
  popBest : List (S × ν) → Option ((S × ν) × List (S × ν))
  /-- The top of a queue that gives the worst first, and the rest. -/
  popWorst : List (S × ν) → Option ((S × ν) × List (S × ν))
  sort : List (S × ν) → List (S × ν)
  better_irrefl : ∀ s, better s s = false
  better_trans : ∀ a b c, better a b = true → better b c = true → better a c = true
  popBest_perm : ∀ q x rest, popBest q = some (x, rest) → (x :: rest).Perm q
  popBest_none : ∀ q, popBest q = none → q = []
  popWorst_perm : ∀ q x rest, popWorst q = some (x, rest) → (x :: rest).Perm q
  popWorst_none : ∀ q, popWorst q = none → q = []
  sort_perm : ∀ l, (sort l).Perm l

namespace Ranking

/-- The first of a list that is sorted, and the rest. -/
def popSorted (first : S × ν → S × ν → Prop) [DecidableRel first] (q : List (S × ν)) :
    Option ((S × ν) × List (S × ν)) :=
  match q.insertionSort first with
  | [] => none
  | x :: rest => some (x, rest)

theorem popSorted_perm {first : S × ν → S × ν → Prop} [DecidableRel first] {q : List (S × ν)}
    {x : S × ν} {rest : List (S × ν)} (h : popSorted first q = some (x, rest)) :
    (x :: rest).Perm q := by
  have hperm := List.perm_insertionSort first q
  unfold popSorted at h
  split at h
  · cases h
  · rename_i y ys hsort
    rw [hsort] at hperm
    obtain ⟨rfl, rfl⟩ := Prod.mk.inj (Option.some.inj h)
    exact hperm

theorem popSorted_none {first : S × ν → S × ν → Prop} [DecidableRel first] {q : List (S × ν)}
    (h : popSorted first q = none) : q = [] := by
  have hperm := List.perm_insertionSort first q
  unfold popSorted at h
  split at h
  · rename_i hsort
    rw [hsort] at hperm
    exact hperm.nil_eq.symm
  · cases h

/-- What is popped comes before the rest. -/
theorem popSorted_first {first : S × ν → S × ν → Prop} [DecidableRel first] [Std.Total first]
    [IsTrans (S × ν) first] {q : List (S × ν)} {x : S × ν} {rest : List (S × ν)}
    (h : popSorted first q = some (x, rest)) : ∀ y ∈ rest, first x y := by
  have hsorted := List.pairwise_insertionSort first q
  unfold popSorted at h
  split at h
  · cases h
  · rename_i hsort
    rw [hsort] at hsorted
    obtain ⟨rfl, rfl⟩ := Prod.mk.inj (Option.some.inj h)
    exact (List.pairwise_cons.mp hsorted).1

/-- Queues and sorting by insertion. -/
def sorted (better : S → S → Bool) (irrefl : ∀ s, better s s = false)
    (trans : ∀ a b c, better a b = true → better b c = true → better a c = true) :
    Ranking S ν where
  better := better
  popBest := popSorted fun x y => better y.1 x.1 = false
  popWorst := popSorted fun x y => better x.1 y.1 = false
  sort := List.insertionSort fun x y => better y.1 x.1 = false
  better_irrefl := irrefl
  better_trans := trans
  popBest_perm _ _ _ := popSorted_perm
  popBest_none _ := popSorted_none
  popWorst_perm _ _ _ := popSorted_perm
  popWorst_none _ := popSorted_none
  sort_perm := List.perm_insertionSort _

variable (R : Ranking S ν)

/-- The score is better than the worst of the queue. -/
def beatsWorst (s : S) (q : List (S × ν)) : Bool :=
  match R.popWorst q with
  | some (x, _) => R.better s x.1
  | none => false

/-- The worst of the queue is better than the score. -/
def worstBeats (q : List (S × ν)) (s : S) : Bool :=
  match R.popWorst q with
  | some (x, _) => R.better x.1 s
  | none => false

/-- The queue without its worst. -/
def dropWorst (q : List (S × ν)) : List (S × ν) :=
  match R.popWorst q with
  | some (_, rest) => rest
  | none => []

/-- What is left has the one that went beside it. -/
theorem dropWorst_cons (q : List (S × ν)) (hne : q ≠ []) :
    ∃ x, (x :: R.dropWorst q).Perm q := by
  unfold dropWorst
  cases h : R.popWorst q with
  | none => exact absurd (R.popWorst_none q h) hne
  | some p => exact ⟨p.1, R.popWorst_perm q p.1 p.2 h⟩

theorem mem_of_mem_dropWorst {q : List (S × ν)} {x : S × ν} (h : x ∈ R.dropWorst q) : x ∈ q := by
  by_cases hq : q = []
  · subst hq
    unfold dropWorst at h
    cases hp : R.popWorst [] with
    | none => rw [hp] at h; cases h
    | some p => exact absurd (R.popWorst_perm [] p.1 p.2 hp).length_eq (by simp)
  · obtain ⟨y, hy⟩ := R.dropWorst_cons q hq
    exact hy.mem_iff.mp (List.mem_cons_of_mem y h)

theorem length_dropWorst (q : List (S × ν)) (hne : q ≠ []) :
    (R.dropWorst q).length + 1 = q.length := by
  obtain ⟨y, hy⟩ := R.dropWorst_cons q hne
  rw [← hy.length_eq, List.length_cons]

theorem nodup_dropWorst {q : List (S × ν)} (h : (q.map Prod.snd).Nodup) :
    ((R.dropWorst q).map Prod.snd).Nodup := by
  by_cases hq : q = []
  · subst hq
    have hnil : R.dropWorst [] = [] :=
      List.eq_nil_iff_forall_not_mem.mpr fun x hx => nomatch R.mem_of_mem_dropWorst hx
    rw [hnil]
    exact List.nodup_nil
  · obtain ⟨y, hy⟩ := R.dropWorst_cons q hq
    exact (List.nodup_cons.mp ((hy.map Prod.snd).nodup_iff.mpr h)).2

/-- One more in a queue that holds at most `ef`. -/
def keep (ef : Nat) (x : S × ν) (q : List (S × ν)) : List (S × ν) :=
  if ef < (x :: q).length then R.dropWorst (x :: q) else x :: q

variable {R} {ef : Nat} {x : S × ν} {q : List (S × ν)}

theorem mem_of_mem_keep {y : S × ν} (h : y ∈ R.keep ef x q) : y ∈ x :: q := by
  unfold keep at h
  split at h
  · exact R.mem_of_mem_dropWorst h
  · exact h

theorem nodup_keep (h : ((x :: q).map Prod.snd).Nodup) : ((R.keep ef x q).map Prod.snd).Nodup := by
  unfold keep
  split
  · exact R.nodup_dropWorst h
  · exact h

/-- The worst goes only from a queue that held one before. -/
theorem keep_ne_nil (h : q ≠ []) : R.keep ef x q ≠ [] := by
  unfold keep
  split
  · intro hnil
    have hlen := R.length_dropWorst (x :: q) (List.cons_ne_nil x q)
    rw [hnil, List.length_cons] at hlen
    exact h (List.length_eq_zero_iff.mp (by simpa using hlen.symm))
  · exact List.cons_ne_nil x q

end Ranking

variable (R : Ranking S ν) (score : ν → S) (next : ν → List ν)

/-! ## 1. Climbing -/

/-- One neighbour: the climber goes there when it is better, and remembers that it moved. -/
def improve (at_ : ν × Bool) (n : ν) : ν × Bool :=
  if R.better (score n) (score at_.1) then (n, true) else at_

/-- **Climbing**: through the neighbours of the node, and again from where that led as long as it
    led anywhere. -/
def greedy : Nat → ν → Option ν
  | 0, _ => none
  | fuel + 1, cur =>
    let (goal, changed) := (next cur).foldl (improve R score) (cur, false)
    if changed then greedy fuel goal else some goal

section Climbing

variable {R score next} {P : ν → Prop} {cur : ν}

/-- A pass through neighbours ends at one of them, better than the start, or where it began. -/
theorem foldl_improve (R : Ranking S ν) (score : ν → S) (ns : List ν) (start : ν × Bool) :
    ns.foldl (improve R score) start = start ∨
      ∃ n ∈ ns, ns.foldl (improve R score) start = (n, true) ∧
        R.better (score n) (score start.1) = true := by
  induction ns generalizing start with
  | nil => exact .inl rfl
  | cons m ns ih =>
    rw [List.foldl_cons]
    by_cases hm : R.better (score m) (score start.1) = true
    · have hgo : improve R score start m = (m, true) := by simp [improve, hm]
      rw [hgo]
      rcases ih (m, true) with h | ⟨n, hn, h, hb⟩
      · exact .inr ⟨m, List.mem_cons_self, h, hm⟩
      · exact .inr ⟨n, List.mem_cons_of_mem m hn, h, R.better_trans _ _ _ hb hm⟩
    · have hstay : improve R score start m = start := by simp [improve, hm]
      rw [hstay]
      rcases ih start with h | ⟨n, hn, h⟩
      · exact .inl h
      · exact .inr ⟨n, List.mem_cons_of_mem m hn, h⟩

/-- The nodes that are better than one grow fewer when a better one is taken. -/
theorem countP_better_lt {univ : List ν} {n : ν} (hn : n ∈ univ)
    (h : R.better (score n) (score cur) = true) :
    univ.countP (fun x => R.better (score x) (score n)) <
      univ.countP fun x => R.better (score x) (score cur) := by
  induction univ with
  | nil => cases hn
  | cons x univ ih =>
    have hmono : univ.countP (fun x => R.better (score x) (score n)) ≤
        univ.countP fun x => R.better (score x) (score cur) :=
      List.countP_mono_left fun y _ hy => R.better_trans _ _ _ hy h
    rw [List.countP_cons, List.countP_cons]
    rcases List.mem_cons.mp hn with rfl | hin
    · rw [if_neg (by simp [R.better_irrefl]), if_pos h]
      omega
    · by_cases hx : R.better (score x) (score n) = true
      · rw [if_pos hx, if_pos (R.better_trans _ _ _ hx h)]
        have := ih hin
        omega
      · rw [if_neg hx]
        have := ih hin
        split
        · omega
        · omega

/-- **Climbing comes to an end** in a finite set of nodes that the graph does not leave, and in
    it. -/
theorem greedy_spec {univ : List ν} (huniv : ∀ n, P n → n ∈ univ)
    (hclosed : ∀ c, P c → ∀ n ∈ next c, P n) (hcur : P cur) {fuel : Nat}
    (hfuel : univ.countP (fun x => R.better (score x) (score cur)) < fuel) :
    ∃ goal, greedy R score next fuel cur = some goal ∧ P goal := by
  induction fuel generalizing cur with
  | zero => omega
  | succ fuel ih =>
    rcases foldl_improve R score (next cur) (cur, false) with h | ⟨n, hn, h, hb⟩
    · refine ⟨cur, ?_, hcur⟩
      simp only [greedy, h]
      rfl
    · have hin : P n := hclosed cur hcur n hn
      have hless : univ.countP (fun x => R.better (score x) (score n)) <
          univ.countP fun x => R.better (score x) (score cur) :=
        countP_better_lt (huniv n hin) hb
      obtain ⟨goal, hgoal, hP⟩ := ih hin (by omega)
      refine ⟨goal, ?_, hP⟩
      simp only [greedy, h, if_true]
      exact hgoal

end Climbing

/-! ## 2. Best-first search -/

/-- What the search keeps: the nodes found so far, those still to visit, and all it has seen. -/
structure Frontier (S : Type u) (ν : Type v) where
  found : List (S × ν)
  toVisit : List (S × ν)
  visited : List ν

def Frontier.start (entry : ν) : Frontier S ν :=
  { found := [(score entry, entry)], toVisit := [(score entry, entry)], visited := [entry] }

variable [DecidableEq ν] (ef : Nat)

/-- A neighbour: it is kept when there is room or it is better than the worst that is kept. -/
def Frontier.meet (f : Frontier S ν) (n : ν) : Frontier S ν :=
  if n ∈ f.visited then f
  else if f.found.length < ef ∨ R.beatsWorst (score n) f.found then
    { found := R.keep ef (score n, n) f.found
      toVisit := (score n, n) :: f.toVisit
      visited := n :: f.visited }
  else { f with visited := n :: f.visited }

/-- One node: `none` when there is none left, or the best one left is worse than all that is
    kept. -/
def Frontier.expand (f : Frontier S ν) : Option (Frontier S ν) :=
  match R.popBest f.toVisit with
  | none => none
  | some (c, rest) =>
    if R.worstBeats f.found c.1 ∧ ef ≤ f.found.length then none
    else some ((next c.2).foldl (Frontier.meet R score ef) { f with toVisit := rest })

/-- **Best-first search**: the nodes kept when there is nothing left to expand, the best first. -/
def bestFirst : Nat → Frontier S ν → Option (List (S × ν))
  | 0, _ => none
  | fuel + 1, f =>
    match f.expand R score next ef with
    | some f' => bestFirst fuel f'
    | none => some (R.sort f.found)

section Search

variable {R score next ef} {P : ν → Prop}

/-- What every stage of a search inside `P` has kept. -/
structure Frontier.Sound (score : ν → S) (P : ν → Prop) (f : Frontier S ν) : Prop where
  scored : ∀ x ∈ f.found, x.1 = score x.2
  kept : ∀ x ∈ f.found, x.2 ∈ f.visited
  distinct : (f.found.map Prod.snd).Nodup
  nonempty : f.found ≠ []
  reached : ∀ x ∈ f.toVisit, P x.2
  inside : ∀ n ∈ f.visited, P n
  once : f.visited.Nodup

omit [DecidableEq ν] in
theorem Frontier.sound_start {entry : ν} (h : P entry) :
    (Frontier.start score entry).Sound score P where
  scored := by simp [Frontier.start]
  kept := by simp [Frontier.start]
  distinct := by simp [Frontier.start]
  nonempty := by simp [Frontier.start]
  reached := by simpa [Frontier.start] using h
  inside := by simpa [Frontier.start] using h
  once := by simp [Frontier.start]

variable {f : Frontier S ν}

theorem Frontier.Sound.meet (h : f.Sound score P) {n : ν} (hn : P n) :
    (f.meet R score ef n).Sound score P := by
  unfold Frontier.meet
  split
  · exact h
  · rename_i hnew
    have hinside : ∀ m ∈ n :: f.visited, P m := fun m hm =>
      (List.mem_cons.mp hm).elim (fun e => e ▸ hn) (h.inside m)
    have honce : (n :: f.visited).Nodup := List.nodup_cons.mpr ⟨hnew, h.once⟩
    have hkept : ∀ x ∈ f.found, x.2 ∈ n :: f.visited := fun x hx =>
      List.mem_cons_of_mem n (h.kept x hx)
    split
    · have hfound : ∀ x ∈ (score n, n) :: f.found, x.1 = score x.2 ∧ x.2 ∈ n :: f.visited := by
        intro x hx
        rcases List.mem_cons.mp hx with rfl | hin
        · exact ⟨rfl, List.mem_cons_self⟩
        · exact ⟨h.scored x hin, hkept x hin⟩
      have hdistinct : (((score n, n) :: f.found).map Prod.snd).Nodup := by
        refine List.nodup_cons.mpr ⟨?_, h.distinct⟩
        intro hin
        obtain ⟨x, hx, rfl⟩ := List.mem_map.mp hin
        exact hnew (h.kept x hx)
      exact {
        scored := fun x hx => (hfound x (Ranking.mem_of_mem_keep hx)).1
        kept := fun x hx => (hfound x (Ranking.mem_of_mem_keep hx)).2
        distinct := Ranking.nodup_keep hdistinct
        nonempty := Ranking.keep_ne_nil h.nonempty
        reached := fun x hx => (List.mem_cons.mp hx).elim (fun e => e ▸ hn) (h.reached x)
        inside := hinside
        once := honce }
    · exact { h with kept := hkept, inside := hinside, once := honce }

theorem Frontier.Sound.foldl_meet (h : f.Sound score P) {ns : List ν} (hns : ∀ n ∈ ns, P n) :
    (ns.foldl (Frontier.meet R score ef) f).Sound score P := by
  induction ns generalizing f with
  | nil => exact h
  | cons n ns ih =>
    exact ih (h.meet (hns n List.mem_cons_self)) fun m hm => hns m (List.mem_cons_of_mem n hm)

/-- What is still to be done: a node that is seen for the first time comes to the queue once. -/
def Frontier.work (univ : List ν) (f : Frontier S ν) : Nat :=
  f.toVisit.length + (univ.length - f.visited.length)

theorem Frontier.work_foldl_meet {univ : List ν} (huniv : ∀ n, P n → n ∈ univ)
    (h : f.Sound score P) {ns : List ν} (hns : ∀ n ∈ ns, P n) :
    (ns.foldl (Frontier.meet R score ef) f).work univ ≤ f.work univ := by
  induction ns generalizing f with
  | nil => exact Nat.le_refl _
  | cons n ns ih =>
    have hn := hns n List.mem_cons_self
    refine Nat.le_trans (ih (h.meet hn) fun m hm => hns m (List.mem_cons_of_mem n hm)) ?_
    unfold Frontier.meet
    split
    · exact Nat.le_refl _
    · rename_i hnew
      -- the new node takes a place among the nodes there are
      have hroom : f.visited.length + 1 ≤ univ.length := by
        have hsub : n :: f.visited ⊆ univ := fun m hm =>
          huniv m ((List.mem_cons.mp hm).elim (fun e => e ▸ hn) (h.inside m))
        exact (List.subperm_of_subset (List.nodup_cons.mpr ⟨hnew, h.once⟩) hsub).length_le
      split
      · simp only [Frontier.work, List.length_cons]
        omega
      · simp only [Frontier.work, List.length_cons]
        omega

theorem Frontier.Sound.expand {univ : List ν} (huniv : ∀ n, P n → n ∈ univ)
    (hclosed : ∀ c, P c → ∀ n ∈ next c, P n) (h : f.Sound score P) {f' : Frontier S ν}
    (he : f.expand R score next ef = some f') :
    f'.Sound score P ∧ f'.work univ < f.work univ := by
  unfold Frontier.expand at he
  split at he
  · cases he
  · rename_i c rest hpop
    split at he
    · cases he
    · obtain rfl := Option.some.inj he
      have hperm := R.popBest_perm _ _ _ hpop
      have hc : P c.2 := h.reached c (hperm.mem_iff.mp List.mem_cons_self)
      have hrest : Frontier.Sound score P { f with toVisit := rest } :=
        { h with reached := fun x hx => h.reached x (hperm.mem_iff.mp (List.mem_cons_of_mem c hx)) }
      refine ⟨hrest.foldl_meet (hclosed c.2 hc), ?_⟩
      refine Nat.lt_of_le_of_lt (Frontier.work_foldl_meet huniv hrest (hclosed c.2 hc)) ?_
      have hlen := hperm.length_eq
      simp only [Frontier.work, List.length_cons] at hlen ⊢
      omega

theorem Frontier.Sound.bestFirst {univ : List ν} (huniv : ∀ n, P n → n ∈ univ)
    (hclosed : ∀ c, P c → ∀ n ∈ next c, P n) {fuel : Nat} (h : f.Sound score P)
    (hfuel : f.work univ < fuel) :
    ∃ l, Lib.bestFirst R score next ef fuel f = some l ∧ l ≠ [] ∧ (l.map Prod.snd).Nodup ∧
      ∀ x ∈ l, P x.2 ∧ x.1 = score x.2 := by
  induction fuel generalizing f with
  | zero => omega
  | succ fuel ih =>
    unfold Lib.bestFirst
    cases he : f.expand R score next ef with
    | some f' =>
      obtain ⟨hsound, hless⟩ := h.expand huniv hclosed he
      exact ih hsound (by omega)
    | none =>
      have hperm := R.sort_perm f.found
      refine ⟨R.sort f.found, rfl, ?_, (hperm.map Prod.snd).nodup_iff.mpr h.distinct, ?_⟩
      · intro hnil
        exact h.nonempty (hnil ▸ hperm).nil_eq.symm
      · intro x hx
        have hin := hperm.mem_iff.mp hx
        exact ⟨h.inside x.2 (h.kept x hin), h.scored x hin⟩

/-- **What a search returns**, begun inside a finite set that the graph does not leave: some
    nodes of that set, each once and with its score. -/
theorem bestFirst_spec (R : Ranking S ν) (score : ν → S) (ef : Nat) {univ : List ν}
    (huniv : ∀ n, P n → n ∈ univ)
    (hclosed : ∀ c, P c → ∀ n ∈ next c, P n) {entry : ν} (hentry : P entry) :
    ∃ l, bestFirst R score next ef (univ.length + 1) (Frontier.start score entry) = some l ∧
      l ≠ [] ∧ (l.map Prod.snd).Nodup ∧ ∀ x ∈ l, P x.2 ∧ x.1 = score x.2 := by
  refine (Frontier.sound_start hentry).bestFirst huniv hclosed ?_
  have hpos : 0 < univ.length := List.length_pos_of_mem (huniv entry hentry)
  simp only [Frontier.work, Frontier.start, List.length_singleton]
  omega

end Search

end Nvecd.Lib
