/-
  File:      Nvecd/Lib/Covers.lean
  Subject:   The best `k` of a list that is made of parts, chosen from the best of each part.

  The parts may share items, and a part may have an item several times. What is kept of a part
  covers it if whatever is left out is beaten, or equalled, by `k` different items that are kept.

  * `Covers`, `Covers.append` -- of a list, and of two;
  * `Selects.covers` -- a selection from different items covers them;
  * `Uncrowded`, `Selects.covers_of_uncrowded` -- repeated items take no place that another needs;
  * `Selects.of_covers` -- a selection from what is kept is one from everything.
-/
import Nvecd.Lib.TopK

namespace Nvecd.Lib

universe u v w

variable {S : Type u} {ν : Type v} {K : Type w} [LinearOrder K] (key : S → Option K)

/-- **What is kept**: an item is left out only if `k` others are as good. -/
structure Covers (k : Nat) (l kept : List (S × ν)) : Prop where
  subset : ∀ x ∈ kept, x ∈ l
  beaten : ∀ d ∈ l, d ∉ kept → ∃ s : List (S × ν), s.Nodup ∧ (∀ x ∈ s, x ∈ kept) ∧ k ≤ s.length ∧
    ∀ x ∈ s, betterScore key d.1 x.1 = false

/-- An item that is there several times leaves room for no more than one of it, or there is room
    for all the different items. -/
def Uncrowded [DecidableEq ν] (k : Nat) (l : List (S × ν)) : Prop :=
  (∀ x ∈ l, 1 < (l.map Prod.snd).count x.2 → k ≤ l.countP (fun y => betterScore key y.1 x.1) + 1) ∨
    ∀ x ∈ l, l.countP (fun y => decide (y.2 ≠ x.2) && !betterScore key x.1 y.1) < k

variable {key} {k : Nat} {l l' kept kept' r : List (S × ν)}

theorem Covers.append (h : Covers key k l kept) (h' : Covers key k l' kept') :
    Covers key k (l ++ l') (kept ++ kept') where
  subset x hx := List.mem_append.mpr ((List.mem_append.mp hx).imp (h.subset x) (h'.subset x))
  beaten d hd hout := by
    have hnot : d ∉ kept ∧ d ∉ kept' := ⟨fun hin => hout (List.mem_append_left _ hin),
      fun hin => hout (List.mem_append_right _ hin)⟩
    cases List.mem_append.mp hd with
    | inl hd =>
      obtain ⟨s, hnd, hs, hrest⟩ := h.beaten d hd hnot.1
      exact ⟨s, hnd, fun x hx => List.mem_append_left _ (hs x hx), hrest⟩
    | inr hd =>
      obtain ⟨s, hnd, hs, hrest⟩ := h'.beaten d hd hnot.2
      exact ⟨s, hnd, fun x hx => List.mem_append_right _ (hs x hx), hrest⟩

/-- Only which items there are counts. -/
theorem Covers.congr (h : Covers key k l kept) (hl : ∀ x, x ∈ l' ↔ x ∈ l)
    (hkept : ∀ x, x ∈ kept' ↔ x ∈ kept) : Covers key k l' kept' where
  subset x hx := (hl x).mpr (h.subset x ((hkept x).mp hx))
  beaten d hd hout := by
    obtain ⟨s, hnd, hs, hrest⟩ := h.beaten d ((hl d).mp hd) fun hin => hout ((hkept d).mpr hin)
    exact ⟨s, hnd, fun x hx => (hkept x).mpr (hs x hx), hrest⟩

/-- Everything is kept. -/
theorem Covers.of_subset (hkept : ∀ x ∈ kept, x ∈ l) (hl : ∀ x ∈ l, x ∈ kept) :
    Covers key k l kept :=
  ⟨hkept, fun d hd hout => absurd (hl d hd) hout⟩

/-- What a selection leaves out is not better than what it keeps, and then it is full. -/
theorem Selects.of_not_mem (h : Selects key k l kept) {d : S × ν} (hd : d ∈ l) (hout : d ∉ kept) :
    kept.length = k ∧ ∀ x ∈ kept, betterScore key d.1 x.1 = false := by
  obtain ⟨omitted, hall, hbetter⟩ := h.omitted
  have hd' : d ∈ omitted :=
    (List.mem_append.mp (hall.mem_iff.mpr hd)).resolve_left hout
  have hlen := hall.length_eq
  have hpos := List.length_pos_of_mem hd'
  have hkept := h.length
  rw [List.length_append] at hlen
  exact ⟨by omega, hbetter d hd'⟩

/-- **A selection from different items.** -/
theorem Selects.covers (h : Selects key k l kept) (hnd : kept.Nodup) : Covers key k l kept where
  subset := h.subset
  beaten d hd hout := by
    obtain ⟨hlen, hnot⟩ := h.of_not_mem hd hout
    exact ⟨kept, hnd, fun _ hx => hx, hlen.ge, hnot⟩

/-- A short list is its own selection. -/
theorem Selects.of_length_le (h : l.length ≤ k) : Selects key k l l :=
  ⟨(Nat.min_eq_right h).symm, [], by rw [List.append_nil], nofun⟩

/-- **A selection from what is kept of a list of different items.** -/
theorem Selects.of_covers (hl : ∀ x ∈ l, (key x.1).isSome) (hnd : l.Nodup) (hkept : kept.Nodup)
    (hcov : Covers key k l kept) (h : Selects key k kept r) : Selects key k l r := by
  classical
  obtain ⟨omitted, hall, hbetter⟩ := h.omitted
  let extra := l.filter fun d => decide (d ∉ kept)
  have hperm : (kept ++ extra).Perm l := by
    refine (List.perm_ext_iff_of_nodup ?_ hnd).mpr fun x => ?_
    · refine List.nodup_append.mpr ⟨hkept, hnd.filter _, fun a ha b hb heq => ?_⟩
      exact of_decide_eq_true (List.mem_filter.mp hb).2 (heq ▸ ha)
    · rw [List.mem_append, List.mem_filter, decide_eq_true_eq]
      constructor
      · rintro (hx | hx)
        · exact hcov.subset x hx
        · exact hx.1
      · exact fun hx => or_iff_not_imp_left.mpr fun hout => ⟨hx, hout⟩
  -- what is not kept is not better than anything that is chosen
  have hextra : ∀ d ∈ extra, r.length = k ∧ ∀ y ∈ r, betterScore key d.1 y.1 = false := by
    intro d hd
    obtain ⟨hdl, hdout⟩ := List.mem_filter.mp hd
    obtain ⟨s, hsnd, hsin, hslen, hsbeaten⟩ := hcov.beaten d hdl (of_decide_eq_true hdout)
    have hsub : s.Subperm kept := List.subperm_of_subset hsnd hsin
    have hrlen : r.length = k := by
      have := hsub.length_le
      have := h.length
      omega
    refine ⟨hrlen, fun y hy => ?_⟩
    by_contra hdy
    have hdy := Bool.eq_true_of_not_eq_false hdy
    have hyl := hl y (hcov.subset y (h.subset y hy))
    have hdkey := hl d hdl
    -- then all of `s` are better than `y`, and they are chosen
    have hsy : ∀ x ∈ s, betterScore key x.1 y.1 = true := by
      intro x hx
      by_contra hxy
      have hlost := not_better_trans (hl x (hcov.subset x (hsin x hx))) (hsbeaten x hx)
        (Bool.eq_false_of_not_eq_true hxy)
      rw [hdy] at hlost
      cases hlost
    have hcount : k ≤ r.countP fun x => betterScore key x.1 y.1 := by
      have hnone : omitted.countP (fun x => betterScore key x.1 y.1) = 0 :=
        List.countP_eq_zero.mpr fun z hz => by rw [hbetter z hz y hy]; exact Bool.false_ne_true
      have hsplit := hall.countP_eq fun x => betterScore key x.1 y.1
      have hfull : s.countP (fun x => betterScore key x.1 y.1) = s.length :=
        List.countP_eq_length.mpr hsy
      have := hsub.countP_le fun x => betterScore key x.1 y.1
      rw [List.countP_append] at hsplit
      omega
    have hlt : r.countP (fun x => betterScore key x.1 y.1) < r.length :=
      List.countP_lt_length_iff.mpr ⟨y, hy, by simp [betterScore_irrefl]⟩
    omega
  refine ⟨?_, omitted ++ extra, ?_, fun x hx y hy => ?_⟩
  · have hlen := hperm.length_eq
    have hr := h.length
    rw [List.length_append] at hlen
    cases hne : extra with
    | nil =>
      rw [hne, List.length_nil] at hlen
      omega
    | cons d rest =>
      have hfull := (hextra d (by rw [hne]; exact List.mem_cons_self)).1
      omega
  · rw [← List.append_assoc]
    exact (hall.append_right extra).trans hperm
  · cases List.mem_append.mp hx with
    | inl hx => exact hbetter x hx y hy
    | inr hx => exact (hextra x hx).2 y hy

variable [DecidableEq ν]

/-- **A selection from items some of which are repeated.** -/
theorem Selects.covers_of_uncrowded (h : Selects key k l kept)
    (hsame : ∀ x ∈ l, ∀ y ∈ l, x.2 = y.2 → x = y) (huncrowded : Uncrowded key k l) :
    Covers key k l kept := by
  classical
  obtain ⟨omitted, hall, hbetter⟩ := h.omitted
  cases huncrowded with
  | inl hrepeated =>
    -- no item is chosen twice
    refine h.covers (List.nodup_iff_count_le_one.mpr fun x => ?_)
    by_contra htwo
    push Not at htwo
    have hx : x ∈ kept := List.count_pos_iff.mp (by omega)
    have htimes : 1 < (l.map Prod.snd).count x.2 := by
      have hle := List.count_le_count_map (f := Prod.snd) (x := x) (l := l)
      have hsplit := hall.count_eq x
      rw [List.count_append] at hsplit
      omega
    have hcount := hrepeated x (h.subset x hx) htimes
    have hnone : omitted.countP (fun y => betterScore key y.1 x.1) = 0 :=
      List.countP_eq_zero.mpr fun z hz => by simp [hbetter z hz x hx]
    have hsplit := hall.countP_eq fun y => betterScore key y.1 x.1
    rw [List.countP_append] at hsplit
    have hnot : kept.count x ≤ kept.countP fun y => !betterScore key y.1 x.1 := by
      refine List.countP_mono_left fun y _ hy => ?_
      rw [eq_of_beq hy, betterScore_irrefl]
      rfl
    have htotal := List.length_eq_countP_add_countP (fun y => betterScore key y.1 x.1) (l := kept)
    have := h.length
    simp only [Bool.not_eq_true, Bool.decide_eq_false] at htotal
    omega
  | inr hroom =>
    -- every item is chosen
    refine Covers.of_subset h.subset fun d hd => ?_
    by_contra hout
    obtain ⟨hlen, hnot⟩ := h.of_not_mem hd hout
    have hcount : kept.countP (fun y => decide (y.2 ≠ d.2) && !betterScore key d.1 y.1) =
        kept.length := by
      refine List.countP_eq_length.mpr fun y hy => ?_
      have hne : y.2 ≠ d.2 := fun heq => hout (hsame y (h.subset y hy) d hd heq ▸ hy)
      simp [hne, hnot y hy]
    have hsplit := hall.countP_eq fun y => decide (y.2 ≠ d.2) && !betterScore key d.1 y.1
    rw [List.countP_append] at hsplit
    have := hroom d hd
    omega

end Nvecd.Lib
