/-
  File:      Nvecd/Lib/TopK.lean
  Subject:   The best `k` of a list of scored items, chosen by a queue that never holds more.

  A score has a key in a linear order, or it is no number and compares with nothing. The queue is
  a `Ranking`; of several items that are equally bad it drops any.

  * `betterScore`, `before` -- by the keys, and by the items where the keys are the same;
  * `Ranking.offer`, `Ranking.drain` -- the bounded queue, and how it is emptied;
  * `Selects` -- no item left out is better than one kept; `foldl_offer_selects`;
  * `Top` -- the first `k` in the order `before`;
  * `Settled` -- no group of ties lies across the `k`-th place; `Selects.top`, and
    `exists_perm_not_top` -- otherwise the items can come in an order in which the queue keeps
    other ones.
-/
import Mathlib.Data.List.Count
import Mathlib.Data.List.Induction
import Mathlib.Data.Prod.Lex
import Mathlib.Order.MinMax
import Nvecd.Lib.BestFirst

namespace Nvecd.Lib

universe u v w

variable {S : Type u} {ν : Type v} {K : Type w} [LinearOrder K]

/-! ## 1. Scores -/

variable (key : S → Option K)

/-- `a > b` of two numbers. -/
def betterScore (a b : S) : Bool := (key a).any fun x => (key b).any fun y => decide (y < x)

/-- `a == b` of two numbers. -/
def sameScore (a b : S) : Bool := (key a).any fun x => (key b).any fun y => decide (x = y)

/-- Better scores come first, the same score by the items. -/
def before [LinearOrder ν] (x y : S × ν) : Bool :=
  if sameScore key x.1 y.1 then decide (x.2 < y.2) else betterScore key x.1 y.1

/-- Where an item stands among the others; the best key is the least. -/
def place [LinearOrder ν] (x : S × ν) : Option (Kᵒᵈ ×ₗ ν) :=
  (key x.1).map fun k => toLex (OrderDual.toDual k, x.2)

section Scores

variable {key}

theorem betterScore_iff {a b : S} :
    betterScore key a b = true ↔ ∃ x y, key a = some x ∧ key b = some y ∧ y < x := by
  unfold betterScore
  cases key a <;> cases key b <;> simp

theorem betterScore_of_key {a b : S} {x y : K} (ha : key a = some x) (hb : key b = some y) :
    betterScore key a b = decide (y < x) := by
  unfold betterScore
  rw [ha, hb]
  rfl

theorem betterScore_eq_false {a b : S} {x y : K} (ha : key a = some x) (hb : key b = some y) :
    betterScore key a b = false ↔ x ≤ y := by
  rw [betterScore_of_key ha hb, decide_eq_false_iff_not, not_lt]

theorem betterScore_irrefl (s : S) : betterScore key s s = false := by
  unfold betterScore
  cases key s <;> simp

theorem betterScore_trans (a b c : S) (hab : betterScore key a b = true)
    (hbc : betterScore key b c = true) : betterScore key a c = true := by
  obtain ⟨x, y, ha, hb, hyx⟩ := betterScore_iff.1 hab
  obtain ⟨y', z, hb', hc, hzy⟩ := betterScore_iff.1 hbc
  obtain rfl := Option.some.inj (hb'.symm.trans hb)
  exact betterScore_iff.2 ⟨x, z, ha, hc, hzy.trans hyx⟩

theorem betterScore_asymm {a b : S} (h : betterScore key a b = true) :
    betterScore key b a = false := by
  obtain ⟨x, y, ha, hb, hlt⟩ := betterScore_iff.1 h
  exact (betterScore_eq_false hb ha).mpr hlt.le

/-- Nothing is better than what a number is not better than. -/
theorem not_better_trans {a b c : S} (hb : (key b).isSome) (hab : betterScore key a b = false)
    (hbc : betterScore key b c = false) : betterScore key a c = false := by
  obtain ⟨y, hy⟩ := Option.isSome_iff_exists.mp hb
  by_contra hac
  obtain ⟨x, z, hx, hz, hlt⟩ := betterScore_iff.1 (Bool.eq_true_of_not_eq_false hac)
  exact absurd hlt (not_lt.mpr (((betterScore_eq_false hx hy).mp hab).trans
    ((betterScore_eq_false hy hz).mp hbc)))

variable [LinearOrder ν] {x y z : S × ν}

theorem before_iff :
    before key x y = true ↔ ∃ p q, place key x = some p ∧ place key y = some q ∧ p < q := by
  unfold before sameScore betterScore place
  cases key x.1 with
  | none => simp
  | some a =>
    cases key y.1 with
    | none => simp
    | some b =>
      have hlex : (toLex (OrderDual.toDual a, x.2) : Kᵒᵈ ×ₗ ν) < toLex (OrderDual.toDual b, y.2) ↔
          b < a ∨ a = b ∧ x.2 < y.2 :=
        Prod.Lex.toLex_lt_toLex.trans Iff.rfl
      simp only [Option.any_some, Option.map_some, Option.some.injEq, decide_eq_true_eq]
      constructor
      · intro h
        refine ⟨_, _, rfl, rfl, hlex.mpr ?_⟩
        split at h
        · exact .inr ⟨‹_›, of_decide_eq_true h⟩
        · exact .inl (of_decide_eq_true h)
      · rintro ⟨p, q, rfl, rfl, hlt⟩
        cases hlex.mp hlt with
        | inl hba => rw [if_neg hba.ne', decide_eq_true hba]
        | inr hid => rw [if_pos hid.1, decide_eq_true hid.2]

theorem before_of_better (h : betterScore key x.1 y.1 = true) : before key x y = true := by
  obtain ⟨a, b, ha, hb, hlt⟩ := betterScore_iff.1 h
  unfold before sameScore
  rw [ha, hb, h]
  simp [hlt.ne']

theorem before_asymm (h : before key x y = true) : before key y x = false := by
  by_contra hyx
  obtain ⟨p, q, hp, hq, hpq⟩ := before_iff.1 h
  obtain ⟨q', p', hq', hp', hqp⟩ := before_iff.1 (Bool.eq_true_of_not_eq_false hyx)
  rw [hp] at hp'
  rw [hq] at hq'
  cases hp'
  cases hq'
  exact lt_asymm hpq hqp

/-- Of two different items with numbers one comes before the other. -/
theorem before_total (hx : (key x.1).isSome) (hy : (key y.1).isSome) (hne : x.2 ≠ y.2) :
    before key x y = true ∨ before key y x = true := by
  obtain ⟨a, ha⟩ := Option.isSome_iff_exists.mp hx
  obtain ⟨b, hb⟩ := Option.isSome_iff_exists.mp hy
  have hplace : ∀ {u : S × ν} {c : K}, key u.1 = some c →
      place key u = some (toLex (OrderDual.toDual c, u.2)) := by
    intro u c hc
    rw [place, hc]
    rfl
  rw [before_iff, before_iff, hplace ha, hplace hb]
  have hpne : toLex (OrderDual.toDual a, x.2) ≠ toLex (OrderDual.toDual b, y.2) :=
    fun h => hne (congrArg (fun p => (ofLex p).2) h)
  rcases lt_or_gt_of_ne hpne with h | h
  · exact .inl ⟨_, _, rfl, rfl, h⟩
  · exact .inr ⟨_, _, rfl, rfl, h⟩

theorem not_before_trans (hy : (key y.1).isSome) (hxy : (!before key y x) = true)
    (hyz : (!before key z y) = true) : (!before key z x) = true := by
  obtain ⟨b, hb⟩ := Option.isSome_iff_exists.mp hy
  by_contra hzx
  obtain ⟨r, p, hr, hp, hlt⟩ := before_iff.1 (by simpa using hzx)
  have hq : place key y = some (toLex (OrderDual.toDual b, y.2)) := by
    rw [place, hb]
    rfl
  rcases lt_or_ge r (toLex (OrderDual.toDual b, y.2)) with h | h
  · rw [before_iff.2 ⟨_, _, hr, hq, h⟩] at hyz
    cases hyz
  · rw [before_iff.2 ⟨_, _, hq, hp, h.trans_lt hlt⟩] at hxy
    cases hxy

/-- What has no number comes neither before nor after anything. -/
theorem num_of_before (h : before key x y = true) : (key x.1).isSome ∧ (key y.1).isSome := by
  obtain ⟨p, q, hp, hq, -⟩ := before_iff.1 h
  unfold place at hp hq
  obtain ⟨a, ha, -⟩ := Option.map_eq_some_iff.mp hp
  obtain ⟨b, hb, -⟩ := Option.map_eq_some_iff.mp hq
  exact ⟨Option.isSome_iff_exists.mpr ⟨a, ha⟩, Option.isSome_iff_exists.mpr ⟨b, hb⟩⟩

end Scores

/-! ## 2. The queue -/

namespace Ranking

/-- Numbers are compared by their keys, and of a queue of numbers the top is the worst. -/
structure Orders (R : Ranking S ν) : Prop where
  better : R.better = betterScore key
  worst : ∀ q x rest, (∀ y ∈ q, (key y.1).isSome) → R.popWorst q = some (x, rest) →
    ∀ y ∈ rest, R.better x.1 y.1 = false

/-- The number is at most the other; what is no number is above all. -/
def atMost (a b : S) : Bool := (key b).all fun y => (key a).any fun x => decide (x ≤ y)

/-- Queues and sorting by insertion. -/
def byKey : Ranking S ν where
  better := betterScore key
  popBest := popSorted fun x y => atMost key y.1 x.1 = true
  popWorst := popSorted fun x y => atMost key x.1 y.1 = true
  sort := List.insertionSort fun x y => atMost key y.1 x.1 = true
  better_irrefl := betterScore_irrefl
  better_trans := betterScore_trans
  popBest_perm _ _ _ := popSorted_perm
  popBest_none _ := popSorted_none
  popWorst_perm _ _ _ := popSorted_perm
  popWorst_none _ := popSorted_none
  sort_perm := List.perm_insertionSort _

theorem byKey_orders : (byKey key : Ranking S ν).Orders key where
  better := rfl
  worst := by
    intro q x rest hq hpop y hy
    have htotal : Std.Total fun x y : S × ν => atMost key x.1 y.1 = true := by
      constructor
      intro x y
      unfold atMost
      cases key x.1 <;> cases key y.1 <;> simp [le_total]
    have htrans : IsTrans (S × ν) fun x y => atMost key x.1 y.1 = true := by
      constructor
      intro x y z
      unfold atMost
      cases key x.1 <;> cases key y.1 <;> cases key z.1 <;> simp
      exact le_trans
    have hperm := popSorted_perm hpop
    have hx := hq x (hperm.mem_iff.mp List.mem_cons_self)
    obtain ⟨a, ha⟩ := Option.isSome_iff_exists.mp hx
    have hyq := hq y (hperm.mem_iff.mp (List.mem_cons_of_mem x hy))
    obtain ⟨b, hb⟩ := Option.isSome_iff_exists.mp hyq
    have hxy := popSorted_first hpop y hy
    unfold atMost at hxy
    rw [ha, hb] at hxy
    exact (betterScore_eq_false ha hb).mpr (by simpa using hxy)

variable (R : Ranking S ν)

/-- One more item for a queue of at most `k`: a full queue takes it in place of its worst, if it
    is better than that. -/
def offer (k : Nat) (heap : List (S × ν)) (x : S × ν) : List (S × ν) :=
  if heap.length < k then x :: heap
  else if R.beatsWorst x.1 heap then x :: R.dropWorst heap
  else heap

/-- What comes out of a queue of `n` items, the worst first. -/
def drain : Nat → List (S × ν) → List (S × ν)
  | 0, _ => []
  | n + 1, heap =>
    match R.popWorst heap with
    | none => []
    | some (x, rest) => x :: drain n rest

variable {R}

theorem drain_perm (heap : List (S × ν)) : (R.drain heap.length heap).Perm heap := by
  generalize hn : heap.length = n
  induction n generalizing heap with
  | zero =>
    rw [List.length_eq_zero_iff.mp hn]
    exact List.Perm.nil
  | succ n ih =>
    unfold drain
    cases hp : R.popWorst heap with
    | none => rw [R.popWorst_none heap hp]
    | some p =>
      have hperm := R.popWorst_perm heap p.1 p.2 hp
      have hlen : p.2.length = n := by
        have h := hperm.length_eq
        rw [List.length_cons] at h
        omega
      exact ((ih p.2 hlen).cons p.1).trans hperm

/-- A queue of numbers comes out with the worst first. -/
theorem drain_sorted {key : S → Option K} (hR : R.Orders key) {heap : List (S × ν)}
    (hheap : ∀ x ∈ heap, (key x.1).isSome) :
    (R.drain heap.length heap).Pairwise fun x y => R.better x.1 y.1 = false := by
  generalize hn : heap.length = n
  induction n generalizing heap with
  | zero => exact List.Pairwise.nil
  | succ n ih =>
    unfold drain
    cases hp : R.popWorst heap with
    | none => exact List.Pairwise.nil
    | some p =>
      have hperm := R.popWorst_perm heap p.1 p.2 hp
      have hlen : p.2.length = n := by
        have h := hperm.length_eq
        rw [List.length_cons] at h
        omega
      have hrest : ∀ y ∈ p.2, (key y.1).isSome := fun y hy =>
        hheap y (hperm.mem_iff.mp (List.mem_cons_of_mem p.1 hy))
      have hdrain : (R.drain n p.2).Perm p.2 := hlen ▸ drain_perm p.2
      refine List.pairwise_cons.mpr ⟨fun y hy => ?_, ih hrest hlen⟩
      exact hR.worst heap p.1 p.2 hheap hp y (hdrain.mem_iff.mp hy)

/-- As long as there is room everything is taken. -/
theorem foldl_offer_of_length_le {k : Nat} (l : List (S × ν)) {heap : List (S × ν)}
    (h : heap.length + l.length ≤ k) : l.foldl (R.offer k) heap = l.reverse ++ heap := by
  induction l generalizing heap with
  | nil => rfl
  | cons x l ih =>
    rw [List.length_cons] at h
    have hroom : heap.length < k := by omega
    have hnext : R.offer k heap x = x :: heap := by rw [offer, if_pos hroom]
    rw [List.foldl_cons, hnext, ih (by rw [List.length_cons]; omega), List.reverse_cons,
      List.append_assoc]
    rfl

/-- A full queue takes nothing that is better than none of its items. -/
theorem foldl_offer_of_not_better {k : Nat} {l heap : List (S × ν)} (hfull : k ≤ heap.length)
    (h : ∀ x ∈ l, ∀ y ∈ heap, R.better x.1 y.1 = false) : l.foldl (R.offer k) heap = heap := by
  induction l with
  | nil => rfl
  | cons x l ih =>
    have hstays : R.offer k heap x = heap := by
      have hworst : R.beatsWorst x.1 heap = false := by
        unfold beatsWorst
        cases hp : R.popWorst heap with
        | none => rfl
        | some p =>
          have hmem : p.1 ∈ heap :=
            (R.popWorst_perm heap p.1 p.2 hp).mem_iff.mp List.mem_cons_self
          exact h x List.mem_cons_self p.1 hmem
      rw [offer, if_neg (Nat.not_lt.mpr hfull), hworst, if_neg Bool.false_ne_true]
    rw [List.foldl_cons, hstays]
    exact ih fun y hy => h y (List.mem_cons_of_mem x hy)

theorem mem_offer {k : Nat} {heap : List (S × ν)} {x y : S × ν} (h : y ∈ R.offer k heap x) :
    y = x ∨ y ∈ heap := by
  unfold offer at h
  split at h
  · exact List.mem_cons.mp h
  · split at h
    · exact (List.mem_cons.mp h).imp_right R.mem_of_mem_dropWorst
    · exact .inr h

theorem nodup_offer {k : Nat} {heap : List (S × ν)} {x : S × ν}
    (h : ((x :: heap).map Prod.snd).Nodup) : ((R.offer k heap x).map Prod.snd).Nodup := by
  obtain ⟨hx, hheap⟩ := List.nodup_cons.mp h
  unfold offer
  split
  · exact h
  · split
    · refine List.nodup_cons.mpr ⟨fun hmem => hx ?_, R.nodup_dropWorst hheap⟩
      obtain ⟨y, hy, heq⟩ := List.mem_map.mp hmem
      exact List.mem_map.mpr ⟨y, R.mem_of_mem_dropWorst hy, heq⟩
    · exact hheap

/-- The queue holds what was offered, and nothing twice. -/
theorem foldl_offer_nodup {k : Nat} {l heap : List (S × ν)}
    (h : ((l ++ heap).map Prod.snd).Nodup) :
    ((l.foldl (R.offer k) heap).map Prod.snd).Nodup ∧
      ∀ x ∈ l.foldl (R.offer k) heap, x ∈ l ∨ x ∈ heap := by
  induction l generalizing heap with
  | nil => exact ⟨h, fun x hx => .inr hx⟩
  | cons y l ih =>
    rw [List.cons_append, List.map_cons, List.nodup_cons, List.map_append] at h
    obtain ⟨hy, hrest⟩ := h
    obtain ⟨hl, hheap, hdisj⟩ := List.nodup_append.mp hrest
    have hone : ((y :: heap).map Prod.snd).Nodup :=
      List.nodup_cons.mpr ⟨fun hmem => hy (List.mem_append_right _ hmem), hheap⟩
    have hnext : ((l ++ R.offer k heap y).map Prod.snd).Nodup := by
      rw [List.map_append]
      refine List.nodup_append.mpr ⟨hl, nodup_offer hone, fun a ha b hb => ?_⟩
      obtain ⟨z, hz, rfl⟩ := List.mem_map.mp hb
      cases mem_offer hz with
      | inl heq =>
        rintro rfl
        exact hy (List.mem_append_left _ (heq ▸ ha))
      | inr hz => exact hdisj a ha z.2 (List.mem_map_of_mem hz)
    obtain ⟨hnd, hsub⟩ := ih hnext
    refine ⟨hnd, fun x hx => ?_⟩
    cases hsub x hx with
    | inl hx => exact .inl (List.mem_cons_of_mem y hx)
    | inr hx =>
      cases mem_offer hx with
      | inl heq => exact .inl (heq ▸ List.mem_cons_self)
      | inr hx => exact .inr hx

end Ranking

/-- **A selection of `k`**: as many as there are, and nothing better is left out. -/
structure Selects (k : Nat) (l kept : List (S × ν)) : Prop where
  length : kept.length = min k l.length
  omitted : ∃ omitted, (kept ++ omitted).Perm l ∧
    ∀ x ∈ omitted, ∀ y ∈ kept, betterScore key x.1 y.1 = false

section Selection

variable {key} {R : Ranking S ν} {k : Nat} {l kept : List (S × ν)}

theorem Selects.perm_left {kept' : List (S × ν)} (h : Selects key k l kept)
    (hperm : kept'.Perm kept) : Selects key k l kept' := by
  obtain ⟨omitted, hall, hbetter⟩ := h.omitted
  exact ⟨hperm.length_eq.trans h.length, omitted, (hperm.append_right omitted).trans hall,
    fun x hx y hy => hbetter x hx y (hperm.mem_iff.mp hy)⟩

theorem Selects.perm_right {l' : List (S × ν)} (h : Selects key k l kept) (hperm : l.Perm l') :
    Selects key k l' kept := by
  obtain ⟨omitted, hall, hbetter⟩ := h.omitted
  exact ⟨hperm.length_eq ▸ h.length, omitted, hall.trans hperm, hbetter⟩

/-- The items are the same under other names. -/
theorem Selects.map {μ : Type*} (h : Selects key k l kept) (f : ν → μ) :
    Selects key k (l.map fun x => (x.1, f x.2)) (kept.map fun x => (x.1, f x.2)) := by
  obtain ⟨omitted, hall, hbetter⟩ := h.omitted
  refine ⟨by rw [List.length_map, List.length_map, h.length],
    omitted.map fun x => (x.1, f x.2), ?_, fun x hx y hy => ?_⟩
  · rw [← List.map_append]
    exact hall.map _
  · obtain ⟨o, ho, rfl⟩ := List.mem_map.mp hx
    obtain ⟨w, hw, rfl⟩ := List.mem_map.mp hy
    exact hbetter o ho w hw

theorem Selects.subset (h : Selects key k l kept) : ∀ x ∈ kept, x ∈ l := by
  obtain ⟨omitted, hall, -⟩ := h.omitted
  exact fun x hx => hall.mem_iff.mp (List.mem_append_left omitted hx)

/-- **One more item.** -/
theorem Selects.offer (hR : R.Orders key) (h : Selects key k l kept)
    (hl : ∀ y ∈ l, (key y.1).isSome) (x : S × ν) :
    Selects key k (l ++ [x]) (R.offer k kept x) := by
  obtain ⟨omitted, hall, hbetter⟩ := h.omitted
  have hlen := h.length
  have htotal := hall.length_eq
  rw [List.length_append] at htotal
  unfold Ranking.offer
  split
  · rename_i hroom
    have hnil : omitted = [] := List.length_eq_zero_iff.mp (by omega)
    subst hnil
    refine ⟨?_, [], ?_, nofun⟩
    · rw [List.length_cons, List.length_append, List.length_singleton]
      omega
    · rw [List.append_nil] at hall ⊢
      exact (hall.cons x).trans (List.perm_append_singleton x l).symm
  · rename_i hfull
    have hlen' : (l ++ [x]).length = l.length + 1 := by
      rw [List.length_append, List.length_singleton]
    have hmem : ∀ y ∈ kept, (key y.1).isSome := fun y hy => hl y (h.subset y hy)
    cases hp : R.popWorst kept with
    | none =>
      have hnil : kept = [] := R.popWorst_none kept hp
      have hstays : R.beatsWorst x.1 kept = false := by rw [Ranking.beatsWorst, hp]
      rw [hstays, if_neg Bool.false_ne_true]
      subst hnil
      rw [List.length_nil] at hlen hfull
      exact ⟨by rw [List.length_nil]; omega, l ++ [x], List.Perm.refl _, nofun⟩
    | some p =>
      obtain ⟨worst, rest⟩ := p
      have hperm := R.popWorst_perm kept worst rest hp
      have hplen := hperm.length_eq
      rw [List.length_cons] at hplen
      have hworst : ∀ y ∈ kept, betterScore key worst.1 y.1 = false := by
        intro y hy
        cases List.mem_cons.mp (hperm.mem_iff.mpr hy) with
        | inl heq => rw [heq]; exact betterScore_irrefl _
        | inr hrest => exact hR.better ▸ hR.worst kept worst rest hmem hp y hrest
      have hwmem : worst ∈ kept := hperm.mem_iff.mp List.mem_cons_self
      have hbeats : R.beatsWorst x.1 kept = betterScore key x.1 worst.1 := by
        rw [Ranking.beatsWorst, hp, hR.better]
      have hdrop : R.dropWorst kept = rest := by rw [Ranking.dropWorst, hp]
      rw [hbeats, hdrop]
      split
      · rename_i hbw
        refine ⟨?_, worst :: omitted, ?_, ?_⟩
        · rw [List.length_cons, hlen']
          omega
        · -- the new item takes the place of the worst
          have hswap : (rest ++ worst :: omitted).Perm (kept ++ omitted) :=
            List.perm_middle.trans (hperm.append_right omitted)
          exact ((hswap.trans hall).cons x).trans (List.perm_append_singleton x l).symm
        · intro o ho y hy
          have hnot : ∀ y ∈ kept, betterScore key o.1 y.1 = false := by
            cases List.mem_cons.mp ho with
            | inl heq => rw [heq]; exact hworst
            | inr ho => exact hbetter o ho
          cases List.mem_cons.mp hy with
          | inl heq =>
            rw [heq]
            exact not_better_trans (hmem worst hwmem) (hnot worst hwmem) (betterScore_asymm hbw)
          | inr hrest => exact hnot y (hperm.mem_iff.mp (List.mem_cons_of_mem worst hrest))
      · rename_i hnot
        refine ⟨by rw [hlen']; omega, omitted ++ [x], ?_, ?_⟩
        · rw [← List.append_assoc]
          exact hall.append_right [x]
        · intro o ho y hy
          cases List.mem_append.mp ho with
          | inl ho => exact hbetter o ho y hy
          | inr ho =>
            rw [List.mem_singleton.mp ho]
            exact not_better_trans (hmem worst hwmem) (Bool.eq_false_of_not_eq_true hnot)
              (hworst y hy)

/-- **The bounded queue selects.** -/
theorem foldl_offer_selects (hR : R.Orders key) (k : Nat) {l : List (S × ν)}
    (hl : ∀ x ∈ l, (key x.1).isSome) : Selects key k l (l.foldl (R.offer k) []) := by
  induction l using List.reverseRec with
  | nil => exact ⟨(Nat.min_zero k).symm, [], List.Perm.refl _, nofun⟩
  | append_singleton l x ih =>
    have hl' : ∀ y ∈ l, (key y.1).isSome := fun y hy => hl y (List.mem_append_left _ hy)
    rw [List.foldl_append, List.foldl_cons, List.foldl_nil]
    exact (ih hl').offer hR hl' x

end Selection

/-! ## 3. The first of an order -/

variable [LinearOrder ν]

/-- **The first `k`** in the order `before`. -/
def Top (k : Nat) (l r : List (S × ν)) : Prop :=
  ∃ all : List (S × ν), all.Perm l ∧ all.Pairwise (fun x y => before key x y = true) ∧ r = all.take k

/-- Of the items that are the same as one of them, all are among the first `k` or none is. -/
def Settled (k : Nat) (l : List (S × ν)) : Prop :=
  ∀ x ∈ l, k ≤ l.countP (fun y => betterScore key y.1 x.1) ∨
    l.countP (fun y => !betterScore key x.1 y.1) ≤ k

/-- The items as `std::sort` leaves them. -/
def sortItems (l : List (S × ν)) : List (S × ν) := l.mergeSort fun x y => !before key y x

section Order

variable {key} {k : Nat} {l kept r : List (S × ν)}

theorem sortItems_perm : (sortItems key l).Perm l := List.mergeSort_perm l _

/-- **Sorting by an order that is total on the items of the list.** -/
theorem pairwise_mergeSort_of_forall {α : Type*} {P : α → Prop} {le : α → α → Bool}
    (htrans : ∀ {x y z}, P y → le x y = true → le y z = true → le x z = true)
    (htotal : ∀ {x y}, P x → P y → (le x y || le y x) = true) {l : List α} (hl : ∀ x ∈ l, P x) :
    (l.mergeSort le).Pairwise fun x y => le x y = true := by
  let items := l.attachWith P hl
  have hsub : (items.mergeSort fun x y => le x.1 y.1).map Subtype.val = l.mergeSort le := by
    rw [List.map_mergeSort (s := le) fun _ _ _ _ => rfl, List.attachWith_map_subtype_val]
  rw [← hsub]
  refine List.pairwise_map.mpr (List.pairwise_mergeSort ?_ ?_ items)
  · rintro ⟨x, hx⟩ ⟨y, hy⟩ ⟨z, hz⟩ hxy hyz
    exact htrans hy hxy hyz
  · rintro ⟨x, hx⟩ ⟨y, hy⟩
    exact htotal hx hy

/-- Different items with numbers are sorted. -/
theorem pairwise_sortItems (hl : ∀ x ∈ l, (key x.1).isSome) (hnd : (l.map Prod.snd).Nodup) :
    (sortItems key l).Pairwise fun x y => before key x y = true := by
  have hsorted : (sortItems key l).Pairwise fun x y => (!before key y x) = true := by
    refine pairwise_mergeSort_of_forall (P := fun x => (key x.1).isSome = true)
      (fun hy => not_before_trans hy) (fun {x y} _ _ => ?_) hl
    cases h : before key y x
    · rfl
    · rw [before_asymm h]
      rfl
  have hnd' : ((sortItems key l).map Prod.snd).Nodup :=
    (sortItems_perm.map Prod.snd).nodup_iff.mpr hnd
  have hmem : ∀ x ∈ sortItems key l, (key x.1).isSome :=
    fun x hx => hl x (sortItems_perm.mem_iff.mp hx)
  refine ((hsorted.and (List.pairwise_map.mp hnd')).imp_of_mem ?_)
  intro x y hx hy h
  exact (before_total (hmem x hx) (hmem y hy) h.2).resolve_right (by simpa using h.1)

theorem Top.perm_left {l' : List (S × ν)} (h : Top key k l r) (hperm : l'.Perm l) :
    Top key k l' r := by
  obtain ⟨all, hall, hsorted, hr⟩ := h
  exact ⟨all, hall.trans hperm.symm, hsorted, hr⟩

/-- There is one list of the first `k`. -/
theorem Top.unique {r' : List (S × ν)} (h : Top key k l r) (h' : Top key k l r') : r' = r := by
  obtain ⟨all, hall, hsorted, rfl⟩ := h
  obtain ⟨all', hall', hsorted', rfl⟩ := h'
  have heq : all' = all := by
    refine (hall'.trans hall.symm).eq_of_pairwise (fun x y _ _ hxy hyx => ?_) hsorted' hsorted
    rw [before_asymm hxy] at hyx
    cases hyx
  rw [heq]

omit [LinearOrder ν] in
theorem Settled.perm {l' : List (S × ν)} (h : Settled key k l) (hperm : l'.Perm l) :
    Settled key k l' := by
  intro x hx
  rw [hperm.countP_eq, hperm.countP_eq]
  exact h x (hperm.mem_iff.mp hx)

theorem Top.length (h : Top key k l r) : r.length = min k l.length := by
  obtain ⟨all, hperm, -, rfl⟩ := h
  rw [List.length_take, hperm.length_eq]

/-- Several items have an order only if they have numbers. -/
theorem Top.num (h : Top key k l r) : l.length ≤ 1 ∨ ∀ x ∈ l, (key x.1).isSome := by
  obtain ⟨all, hperm, hsorted, -⟩ := h
  rw [← hperm.length_eq]
  have hall : all.length ≤ 1 ∨ ∀ x ∈ all, (key x.1).isSome := by
    cases hsorted with
    | nil => exact .inl (Nat.zero_le _)
    | @cons x rest hx hrest =>
      cases hrest with
      | nil => exact .inl (Nat.le_refl _)
      | @cons y rest hy hrest =>
        refine .inr fun z hz => ?_
        cases List.mem_cons.mp hz with
        | inl heq => exact heq ▸ (num_of_before (hx y List.mem_cons_self)).1
        | inr hz => exact (num_of_before (hx z hz)).2
  exact hall.imp_right fun hnum x hx => hnum x (hperm.mem_iff.mpr hx)

/-- **A selection that is settled, in order, is the first `k`.** -/
theorem Selects.top (h : Selects key k l kept) (hl : ∀ x ∈ l, (key x.1).isSome)
    (hnd : (l.map Prod.snd).Nodup) (hsettled : Settled key k l) (hperm : r.Perm kept)
    (hsorted : r.Pairwise fun x y => before key x y = true) : Top key k l r := by
  obtain ⟨omitted, hall, hbetter⟩ := h.omitted
  have hout : ∀ x ∈ omitted, x ∈ l := fun x hx => hall.mem_iff.mp (List.mem_append_right _ hx)
  have hndall := (hall.map Prod.snd).nodup_iff.mpr hnd
  rw [List.map_append] at hndall
  obtain ⟨-, hndout, hdisj⟩ := List.nodup_append.mp hndall
  have hlen := hall.length_eq
  rw [List.length_append] at hlen
  -- what is kept is better than what is not
  have hstrict : ∀ y ∈ kept, ∀ x ∈ omitted, betterScore key y.1 x.1 = true := by
    intro y hy x hx
    by_contra hyx
    have hyx' := Bool.eq_false_of_not_eq_true hyx
    have hxy := hbetter x hx y hy
    have hykey := hl y (hall.mem_iff.mp (List.mem_append_left _ hy))
    have hpos := List.length_pos_of_mem hy
    have hcount : ∀ p : S × ν → Bool, l.countP p = kept.countP p + omitted.countP p :=
      fun p => by rw [← hall.countP_eq, List.countP_append]
    cases hsettled y (hall.mem_iff.mp (List.mem_append_left _ hy)) with
    | inl hbehind =>
      -- what is better than `y` is kept, and `y` itself too
      have hnone : omitted.countP (fun z => betterScore key z.1 y.1) = 0 :=
        List.countP_eq_zero.mpr fun z hz => by simp [hbetter z hz y hy]
      have hlt : kept.countP (fun z => betterScore key z.1 y.1) < kept.length :=
        List.countP_lt_length_iff.mpr ⟨y, hy, by simp [betterScore_irrefl]⟩
      have := hcount fun z => betterScore key z.1 y.1
      have := h.length
      omega
    | inr hbefore =>
      -- nothing kept is worse than `y`, since `x` is not
      have hkept : kept.countP (fun z => !betterScore key y.1 z.1) = kept.length := by
        refine List.countP_eq_length.mpr fun z hz => ?_
        rw [not_better_trans (hl x (hout x hx)) hyx' (hbetter x hx z hz)]
        rfl
      have hone : 0 < omitted.countP (fun z => !betterScore key y.1 z.1) :=
        List.countP_pos_iff.mpr ⟨x, hx, by rw [hyx']; rfl⟩
      have := hcount fun z => !betterScore key y.1 z.1
      have := List.length_pos_of_mem hx
      have hmin : kept.length = k ∨ kept.length = l.length := by
        rw [h.length]
        exact min_choice k l.length
      omega
  refine ⟨r ++ sortItems key omitted, ?_, ?_, ?_⟩
  · exact ((hperm.append_right _).trans (sortItems_perm.append_left kept)).trans hall
  · refine List.pairwise_append.mpr ⟨hsorted,
      pairwise_sortItems (fun x hx => hl x (hout x hx)) hndout, fun y hy x hx => ?_⟩
    exact before_of_better (hstrict y (hperm.mem_iff.mp hy) x (sortItems_perm.mem_iff.mp hx))
  · have hkept := h.length
    have hr := hperm.length_eq
    by_cases hk : k ≤ l.length
    · rw [List.take_left' (by omega)]
    · have hnil : omitted = [] := List.length_eq_zero_iff.mp (by omega)
      have hsort : sortItems key omitted = [] := by
        rw [hnil]
        exact List.mergeSort_nil
      rw [hsort, List.append_nil, List.take_of_length_le (by omega)]

end Order

/-! ## 4. Ties -/

theorem mem_drop_of_not_mem_take {α : Type*} {l : List α} {k : Nat} {x : α} (hx : x ∈ l)
    (h : x ∉ l.take k) : x ∈ l.drop k := by
  rw [← List.take_append_drop k l] at hx
  exact (List.mem_append.mp hx).resolve_left h

/-- What comes first in a sorted list comes before what comes later. -/
theorem rel_of_take_of_drop {α : Type*} {rel : α → α → Prop} {l : List α} (h : l.Pairwise rel)
    {k : Nat} {x y : α} (hx : x ∈ l.take k) (hy : y ∈ l.drop k) : rel x y := by
  rw [← List.take_append_drop k l] at h
  exact (List.pairwise_append.mp h).2.2 x hx y hy

/-- By falling scores, of the same score the greatest item first. -/
def reversedTies (l : List (S × ν)) : List (S × ν) := @sortItems S νᵒᵈ K _ key _ l

section Ties

variable {key} {k : Nat} {l r : List (S × ν)}

theorem reversedTies_perm : (reversedTies key l).Perm l := @sortItems_perm S νᵒᵈ K _ key _ l

/-- Among items of the same score the greater one comes first. -/
theorem pairwise_reversedTies (hl : ∀ x ∈ l, (key x.1).isSome) (hnd : (l.map Prod.snd).Nodup) :
    (reversedTies key l).Pairwise fun x y =>
      betterScore key y.1 x.1 = false ∧ (sameScore key x.1 y.1 = true → y.2 < x.2) := by
  refine (@pairwise_sortItems S νᵒᵈ K _ key _ l hl hnd).imp fun {x y} h => ⟨?_, fun hsame => ?_⟩
  · by_contra hyx
    have hback := @before_of_better S νᵒᵈ K _ key _ _ _ (Bool.eq_true_of_not_eq_false hyx)
    rw [@before_asymm S νᵒᵈ K _ key _ _ _ h] at hback
    cases hback
  · unfold before at h
    rw [if_pos hsame] at h
    exact of_decide_eq_true h

theorem sameScore_of_not_better {a b : S} (ha : (key a).isSome) (hb : (key b).isSome)
    (hab : betterScore key a b = false) (hba : betterScore key b a = false) :
    sameScore key a b = true := by
  obtain ⟨x, hx⟩ := Option.isSome_iff_exists.mp ha
  obtain ⟨y, hy⟩ := Option.isSome_iff_exists.mp hb
  have heq := le_antisymm ((betterScore_eq_false hx hy).mp hab) ((betterScore_eq_false hy hx).mp hba)
  unfold sameScore
  rw [hx, hy]
  simp [heq]

/-- **Ties across the `k`-th place**: the first `k` by falling scores need not be the first
    `k`. -/
theorem not_top_of_not_settled (hl : ∀ x ∈ l, (key x.1).isSome) (hnd : (l.map Prod.snd).Nodup)
    (h : ¬ Settled key k l) (hr : r.Perm ((reversedTies key l).take k)) : ¬ Top key k l r := by
  rintro ⟨all, hall, hsorted, rfl⟩
  have hrev := pairwise_reversedTies hl hnd
  obtain ⟨x, hx, hlt, hgt⟩ : ∃ x ∈ l, l.countP (fun y => betterScore key y.1 x.1) < k ∧
      k < l.countP (fun y => !betterScore key x.1 y.1) := by
    unfold Settled at h
    push Not at h
    exact h
  have hcount : ∀ p : S × ν → Bool, l.countP p =
      ((reversedTies key l).take k).countP p + ((reversedTies key l).drop k).countP p := by
    intro p
    rw [← List.countP_append, List.take_append_drop, reversedTies_perm.countP_eq]
  have hlen : ((reversedTies key l).take k).length = k := by
    have hle := List.countP_le_length (p := fun y : S × ν => !betterScore key x.1 y.1) (l := l)
    rw [List.length_take, reversedTies_perm.length_eq]
    exact Nat.min_eq_left (by omega)
  -- one of the first that is not better than `x`, and one of the others that is not worse
  obtain ⟨a, ha, hax⟩ : ∃ a ∈ (reversedTies key l).take k, betterScore key a.1 x.1 = false := by
    by_contra hnone
    push Not at hnone
    have hfull : ((reversedTies key l).take k).countP (fun y => betterScore key y.1 x.1) =
        ((reversedTies key l).take k).length :=
      List.countP_eq_length.mpr fun a ha => Bool.eq_true_of_not_eq_false (hnone a ha)
    have := hcount fun y => betterScore key y.1 x.1
    omega
  obtain ⟨b, hb, hxb⟩ : ∃ b ∈ (reversedTies key l).drop k, betterScore key x.1 b.1 = false := by
    have hle := List.countP_le_length (p := fun y : S × ν => !betterScore key x.1 y.1)
      (l := (reversedTies key l).take k)
    have := hcount fun y => !betterScore key x.1 y.1
    obtain ⟨b, hb, hxb⟩ := List.countP_pos_iff.mp
      (show 0 < ((reversedTies key l).drop k).countP fun y => !betterScore key x.1 y.1 by omega)
    exact ⟨b, hb, by simpa using hxb⟩
  have hal : a ∈ l := reversedTies_perm.mem_iff.mp (List.mem_of_mem_take ha)
  have hbl : b ∈ l := reversedTies_perm.mem_iff.mp (List.mem_of_mem_drop hb)
  -- in the right order `a` comes before `b` as well, so they are the same
  have hball : b ∈ all.drop k := by
    refine mem_drop_of_not_mem_take (hall.mem_iff.mpr hbl) fun hbin => ?_
    have hnd' : (reversedTies key l).Nodup :=
      (reversedTies_perm.nodup_iff.mpr (List.Nodup.of_map _ hnd))
    rw [← List.take_append_drop k (reversedTies key l)] at hnd'
    exact (List.nodup_append.mp hnd').2.2 b (hr.mem_iff.mp hbin) b hb rfl
  have hab := rel_of_take_of_drop hsorted (hr.mem_iff.mpr ha) hball
  obtain ⟨hba, hgreater⟩ := rel_of_take_of_drop hrev ha hb
  have hsame := sameScore_of_not_better (hl a hal) (hl b hbl)
    (not_better_trans (hl x hx) hax hxb) hba
  unfold before at hab
  rw [if_pos hsame] at hab
  exact lt_asymm (of_decide_eq_true hab) (hgreater hsame)

end Ties

end Nvecd.Lib
