/-
  File:      Nvecd/Lib/Reached.lean
  Subject:   How much of a graph best-first search finds.

  A search that keeps at most `ef` nodes keeps `ef` of those it has seen, or all of them; and as
  long as it has seen fewer than `ef`, it has left none of them out of its queue. So it returns as
  many nodes as can be reached from where it began, or `ef` of them.

  * `Reaches` -- there is a way in the graph;
  * `Joined`, `Joined.link` -- all can be reached from all, and a node that is linked in;
  * `Frontier.Explored` -- what every stage of a search has explored;
  * `Reached`, `bestFirst_reached` -- what a search returns;
  * `Ranking.Sorts` -- the sorting leaves no item behind a worse one.
-/
import Mathlib.Logic.Relation
import Nvecd.Lib.BestFirst

namespace Nvecd.Lib

universe u v

variable {S : Type u} {ν : Type v}

/-- There is a way from one node to the other. -/
def Reaches (next : ν → List ν) : ν → ν → Prop := Relation.ReflTransGen fun a b => b ∈ next a

/-- **The nodes of a set are joined**: whoever is listed lists back, and there is a way from each
    to each. -/
structure Joined (next : ν → List ν) (P : ν → Prop) : Prop where
  back : ∀ a b, b ∈ next a → a ∈ next b
  ways : ∀ a b, P a → P b → Reaches next a b

/-- **A node is linked in**: it lists some of the others, and they list it beside what they listed
    before. -/
theorem Joined.link {next next' : ν → List ν} {P : ν → Prop} {new : ν} {selected : List ν}
    (h : Joined next P) (hfresh : ∀ a, new ∉ next a) (hnew : next' new = selected)
    (hothers : ∀ a, a ≠ new → ∀ b, b ∈ next' a ↔ b ∈ next a ∨ b = new ∧ a ∈ selected)
    (hselected : ∀ s ∈ selected, s ≠ new ∧ P s) (hne : selected ≠ []) :
    Joined next' fun a => P a ∨ a = new := by
  -- the new node has no list of its own before
  have hold : ∀ a b, b ∈ next a → b ∈ next' a := by
    intro a b hb
    have ha : a ≠ new := fun he => hfresh b (he ▸ h.back a b hb)
    exact (hothers a ha b).mpr (.inl hb)
  have hways : ∀ a b, P a → P b → Reaches next' a b := fun a b ha hb =>
    Relation.ReflTransGen.mono hold a b (h.ways a b ha hb)
  obtain ⟨s, hs⟩ := List.exists_mem_of_ne_nil selected hne
  have hto : s ∈ next' new := hnew ▸ hs
  have hfrom : new ∈ next' s := (hothers s (hselected s hs).1 new).mpr (.inr ⟨rfl, hs⟩)
  constructor
  case back =>
    intro a b hb
    by_cases ha : a = new
    · rw [ha, hnew] at hb
      rw [ha]
      exact (hothers b (hselected b hb).1 new).mpr (.inr ⟨rfl, hb⟩)
    · cases (hothers a ha b).mp hb with
      | inl hb => exact hold b a (h.back a b hb)
      | inr hb =>
        rw [hb.1, hnew]
        exact hb.2
  case ways =>
    intro a b ha hb
    cases ha with
    | inl ha =>
      cases hb with
      | inl hb => exact hways a b ha hb
      | inr hb => exact hb ▸ (hways a s ha (hselected s hs).2).tail hfrom
    | inr ha =>
      cases hb with
      | inl hb => exact ha ▸ (hways s b (hselected s hs).2 hb).head hto
      | inr hb => exact ha ▸ hb ▸ Relation.ReflTransGen.refl

/-- What comes later is not better. -/
def Ranking.Sorts (R : Ranking S ν) : Prop :=
  ∀ l, (R.sort l).Pairwise fun x y => R.better y.1 x.1 = false

/-- Sorting by insertion, where what is not better than a score is not better than what that is
    not better than. -/
theorem Ranking.sorted_sorts {better : S → S → Bool} {irrefl : ∀ s, better s s = false}
    {trans : ∀ a b c, better a b = true → better b c = true → better a c = true}
    (hweak : ∀ a b c, better b a = false → better c b = false → better c a = false) :
    (Ranking.sorted better irrefl trans : Ranking S ν).Sorts := by
  intro l
  have hasymm : ∀ a b, better b a = false ∨ better a b = false := by
    intro a b
    by_contra h
    push Not at h
    have := trans b a b (by simpa using h.1) (by simpa using h.2)
    rw [irrefl] at this
    cases this
  have : Std.Total fun x y : S × ν => better y.1 x.1 = false := ⟨fun x y => hasymm x.1 y.1⟩
  have : IsTrans (S × ν) fun x y => better y.1 x.1 = false :=
    ⟨fun x y z hxy hyz => hweak x.1 y.1 z.1 hxy hyz⟩
  exact List.pairwise_insertionSort (fun x y : S × ν => better y.1 x.1 = false) l

theorem Ranking.length_keep {R : Ranking S ν} {ef : Nat} {x : S × ν} {q : List (S × ν)}
    (h : q.length ≤ ef) : (R.keep ef x q).length = min ef (q.length + 1) := by
  unfold keep
  split
  · rename_i hfull
    have hdrop := R.length_dropWorst (x :: q) (List.cons_ne_nil x q)
    rw [List.length_cons] at hfull hdrop
    omega
  · rename_i hroom
    rw [List.length_cons] at hroom ⊢
    omega

variable [DecidableEq ν] {R : Ranking S ν} {score : ν → S} {next : ν → List ν} {ef : Nat}

/-- **What a stage of a search has explored**: it keeps as many nodes as it has seen, up to `ef`;
    and while it has seen fewer, each of them waits in the queue, or is the one at hand, or all
    its neighbours are seen. -/
structure Frontier.Explored (next : ν → List ν) (ef : Nat) (entry : ν) (atHand : Option ν)
    (f : Frontier S ν) : Prop where
  count : f.found.length = min ef f.visited.length
  done : f.visited.length < ef → ∀ v ∈ f.visited,
    v ∈ f.toVisit.map Prod.snd ∨ atHand = some v ∨ ∀ n ∈ next v, n ∈ f.visited
  entry : entry ∈ f.visited

section Stages

variable {f : Frontier S ν} {entry : ν} {atHand : Option ν}

omit [DecidableEq ν] in
theorem Frontier.explored_start (hef : 0 < ef) :
    (Frontier.start score entry).Explored next ef entry none where
  count := by simp [Frontier.start]; omega
  done _ v hv := .inl (by simpa [Frontier.start] using hv)
  entry := List.mem_cons_self

theorem Frontier.subset_meet (n : ν) : ∀ v ∈ f.visited, v ∈ (f.meet R score ef n).visited := by
  intro v hv
  unfold Frontier.meet
  split
  · exact hv
  · split
    · exact List.mem_cons_of_mem n hv
    · exact List.mem_cons_of_mem n hv

theorem Frontier.mem_meet (n : ν) : n ∈ (f.meet R score ef n).visited := by
  unfold Frontier.meet
  split
  · assumption
  · split
    · exact List.mem_cons_self
    · exact List.mem_cons_self

theorem Frontier.Explored.meet (h : f.Explored next ef entry atHand) (n : ν) :
    (f.meet R score ef n).Explored next ef entry atHand := by
  have hcount := h.count
  unfold Frontier.meet
  split
  · exact h
  · split
    · refine ⟨?_, fun hlt v hv => ?_, List.mem_cons_of_mem n h.entry⟩
      · rw [Ranking.length_keep (hcount.trans_le (Nat.min_le_left _ _)), hcount, List.length_cons]
        omega
      · rw [List.length_cons] at hlt
        cases List.mem_cons.mp hv with
        | inl heq => exact .inl (heq ▸ List.mem_cons_self)
        | inr hv =>
          rcases h.done (by omega) v hv with hwait | hhand | hseen
          · exact .inl (List.mem_cons_of_mem n hwait)
          · exact .inr (.inl hhand)
          · exact .inr (.inr fun m hm => List.mem_cons_of_mem n (hseen m hm))
    · -- a node that is not kept is one too many
      rename_i hfull
      have hroom : ¬ f.found.length < ef := fun hlt => hfull (.inl hlt)
      refine ⟨?_, fun hlt => ?_, List.mem_cons_of_mem n h.entry⟩
      · show f.found.length = min ef (f.visited.length + 1)
        omega
      · rw [List.length_cons] at hlt
        omega

theorem Frontier.Explored.foldl_meet (R : Ranking S ν) (score : ν → S)
    (h : f.Explored next ef entry atHand) (ns : List ν) :
    (ns.foldl (Frontier.meet R score ef) f).Explored next ef entry atHand ∧
      (∀ v ∈ f.visited, v ∈ (ns.foldl (Frontier.meet R score ef) f).visited) ∧
      ∀ n ∈ ns, n ∈ (ns.foldl (Frontier.meet R score ef) f).visited := by
  induction ns generalizing f with
  | nil => exact ⟨h, fun _ hv => hv, nofun⟩
  | cons n ns ih =>
    obtain ⟨hall, hold, hnew⟩ := ih (h.meet n)
    refine ⟨hall, fun v hv => hold v (Frontier.subset_meet n v hv), fun m hm => ?_⟩
    cases List.mem_cons.mp hm with
    | inl heq =>
      rw [heq]
      exact hold n (Frontier.mem_meet n)
    | inr hm => exact hnew m hm

/-- The node at hand is done when its neighbours are met. -/
theorem Frontier.Explored.expand (h : f.Explored next ef entry none) {f' : Frontier S ν}
    (he : f.expand R score next ef = some f') : f'.Explored next ef entry none := by
  unfold Frontier.expand at he
  split at he
  · cases he
  · rename_i c rest hpop
    split at he
    · cases he
    · obtain rfl := Option.some.inj he
      have hperm := R.popBest_perm _ _ _ hpop
      have hhand : Frontier.Explored next ef entry (some c.2) { f with toVisit := rest } := by
        refine ⟨h.count, fun hlt v hv => ?_, h.entry⟩
        rcases h.done hlt v hv with hwait | hnone | hseen
        · obtain ⟨x, hx, rfl⟩ := List.mem_map.mp hwait
          cases List.mem_cons.mp (hperm.mem_iff.mpr hx) with
          | inl heq => exact .inr (.inl (heq ▸ rfl))
          | inr hx => exact .inl (List.mem_map_of_mem hx)
        · cases hnone
        · exact .inr (.inr hseen)
      obtain ⟨hall, -, hmet⟩ := hhand.foldl_meet R score (next c.2)
      refine ⟨hall.count, fun hlt v hv => ?_, hall.entry⟩
      rcases hall.done hlt v hv with hwait | heq | hseen
      · exact .inl hwait
      · exact .inr (.inr fun n hn => hmet n (Option.some.inj heq ▸ hn))
      · exact .inr (.inr hseen)

/-- A search that has stopped early has seen `ef` nodes; otherwise it has seen all that can be
    reached. -/
theorem Frontier.Explored.stopped (h : f.Explored next ef entry none)
    (he : f.expand R score next ef = none) (hlt : f.visited.length < ef) :
    ∀ n, Reaches next entry n → n ∈ f.visited := by
  have hempty : f.toVisit = [] := by
    unfold Frontier.expand at he
    split at he
    · rename_i hpop
      exact R.popBest_none _ hpop
    · split at he
      · rename_i hstop
        have := hstop.2
        have := h.count
        omega
      · cases he
  intro n hn
  induction hn with
  | refl => exact h.entry
  | tail _ hstep ih =>
    rcases h.done hlt _ ih with hwait | hnone | hseen
    · rw [hempty] at hwait
      cases hwait
    · cases hnone
    · exact hseen _ hstep

end Stages

/-- **What is found** from a node: nodes that can be reached, each once with its score, `ef` of
    them or all. -/
structure Reached (R : Ranking S ν) (next : ν → List ν) (score : ν → S) (ef : Nat) (entry : ν)
    (l : List (S × ν)) : Prop where
  reached : ∀ x ∈ l, Reaches next entry x.2
  scored : ∀ x ∈ l, x.1 = score x.2
  nodup : (l.map Prod.snd).Nodup
  full : l.length = ef ∨ ∀ n, Reaches next entry n → n ∈ l.map Prod.snd
  short : l.length ≤ ef
  ranked : ∃ found, l = R.sort found

theorem Frontier.Sound.bestFirst_reached {univ : List ν} {entry : ν}
    (huniv : ∀ n, Reaches next entry n → n ∈ univ) {f : Frontier S ν} {fuel : Nat}
    (h : f.Sound score (Reaches next entry)) (hex : f.Explored next ef entry none)
    (hfuel : f.work univ < fuel) :
    ∃ l, Lib.bestFirst R score next ef fuel f = some l ∧ Reached R next score ef entry l := by
  have hclosed : ∀ c, Reaches next entry c → ∀ n ∈ next c, Reaches next entry n :=
    fun c hc n hn => Relation.ReflTransGen.tail hc hn
  induction fuel generalizing f with
  | zero => omega
  | succ fuel ih =>
    unfold Lib.bestFirst
    cases he : f.expand R score next ef with
    | some f' =>
      obtain ⟨hsound, hless⟩ := h.expand huniv hclosed he
      exact ih hsound (hex.expand he) (by omega)
    | none =>
      have hperm := R.sort_perm f.found
      have hcount := hex.count
      refine ⟨R.sort f.found, rfl, ?_, ?_, ?_, ?_, ?_, f.found, rfl⟩
      · exact fun x hx => h.inside x.2 (h.kept x (hperm.mem_iff.mp hx))
      · exact fun x hx => h.scored x (hperm.mem_iff.mp hx)
      · exact (hperm.map Prod.snd).nodup_iff.mpr h.distinct
      · rw [hperm.length_eq]
        by_cases hlt : f.visited.length < ef
        · -- all that is seen is kept
          refine .inr fun n hn => ?_
          have hsub : f.found.map Prod.snd ⊆ f.visited := by
            intro v hv
            obtain ⟨x, hx, rfl⟩ := List.mem_map.mp hv
            exact h.kept x hx
          have hlen : f.visited.length ≤ (f.found.map Prod.snd).length := by
            rw [List.length_map]
            omega
          have hsame := (List.subperm_of_subset h.distinct hsub).perm_of_length_le hlen
          exact ((hperm.map Prod.snd).trans hsame).mem_iff.mpr (hex.stopped he hlt n hn)
        · exact .inl (by omega)
      · rw [hperm.length_eq]
        omega

/-- **A search finds what can be reached, up to its width.** -/
theorem bestFirst_reached (R : Ranking S ν) (score : ν → S) (hef : 0 < ef) {univ : List ν}
    {entry : ν} (huniv : ∀ n, Reaches next entry n → n ∈ univ) :
    ∃ l, bestFirst R score next ef (univ.length + 1) (Frontier.start score entry) = some l ∧
      Reached R next score ef entry l := by
  have hentry : Reaches next entry entry := Relation.ReflTransGen.refl
  refine (Frontier.sound_start hentry).bestFirst_reached huniv (Frontier.explored_start hef) ?_
  have hpos : 0 < univ.length := List.length_pos_of_mem (huniv entry hentry)
  simp only [Frontier.work, Frontier.start, List.length_singleton]
  omega

end Nvecd.Lib
