/-
  File:      Nvecd/Lib/Generations.lean
  Subject:   Data in parts, each with a generation counter, and readers that remember the counters
             they have seen before they read.

  A writer changes a part and raises its counter afterwards; or it closes the part to readers,
  raises the counter at any moment, and opens the part again with the change made. All parts can
  be replaced at once, which begins a new epoch. A reader first captures counters and then reads.
  Whatever was settled when a counter had the captured value, the reader has seen.

  * `Ledger` -- the changes of each part in order, and how many of them are behind a raised
    counter;
  * `View`, `View.Valid` -- what a reader has captured and read;
  * `Owes` -- what a later reader may demand, by the counters it has captured itself;
  * `View.Valid.seen` -- a view with the same counters has seen it.
-/
import Mathlib.Logic.Function.Basic

namespace Nvecd.Lib

/-- What is known of the parts: the writers that changed them, oldest first, how many of these
    changes are settled, the counters, and for each value of the counters the settled changes
    under it. A part is closed at a value of its counter. -/
structure Ledger (π : Type) where
  generation : π → Nat
  epoch : Nat
  changes : π → List Nat := fun _ => []
  settled : π → Nat := fun _ => 0
  closed : π → Option Nat := fun _ => none
  reached : π → Nat × Nat → Nat := fun _ _ => 0

/-- What a reader has captured and read: of each reading, how many changes it has seen. -/
structure View (π : Type) where
  epoch : Nat
  captured : π → Option Nat := fun _ => none
  reads : List (π × Nat) := []

section Ledger

variable {π : Type} [DecidableEq π]

namespace Ledger

/-! ## 1. Writers -/

/-- The writer `t` has changed the part. -/
def change (L : Ledger π) (p : π) (t : Nat) : Ledger π :=
  { L with changes := Function.update L.changes p (L.changes p ++ [t]) }

/-- All changes of the part are settled at the counter as it is. -/
def settle (L : Ledger π) (p : π) : Ledger π :=
  { L with
    settled := Function.update L.settled p (L.changes p).length
    reached := Function.update L.reached p
      (Function.update (L.reached p) (L.epoch, L.generation p) (L.changes p).length) }

/-- The counter is raised. -/
def bump (L : Ledger π) (p : π) : Ledger π :=
  { L with generation := Function.update L.generation p (L.generation p + 1) }.settle p

/-- No reader reads the part from now on. -/
def close (L : Ledger π) (p : π) : Ledger π :=
  { L with closed := Function.update L.closed p (some (L.generation p)) }

/-- The part has been changed by `t` while it was closed, and is open again. -/
def reopen (L : Ledger π) (p : π) (t : Nat) : Ledger π :=
  { L.change p t with closed := Function.update L.closed p none }.settle p

/-- All parts are replaced, with other counters, in a new epoch. -/
def replace (L : Ledger π) (t : Nat) (generation : π → Nat) : Ledger π :=
  { L with
    generation := generation
    epoch := L.epoch + 1
    changes := fun p => L.changes p ++ [t]
    settled := fun p => (L.changes p).length + 1
    reached := fun p => Function.update (L.reached p) (L.epoch + 1, generation p)
      ((L.changes p).length + 1) }

/-- **The invariant** of the ledger. -/
structure Inv (L : Ledger π) : Prop where
  settled_le : ∀ p, L.settled p ≤ (L.changes p).length
  reached_le : ∀ p k, L.reached p k ≤ L.settled p
  reached_now : ∀ p, L.reached p (L.epoch, L.generation p) = L.settled p
  closed_le : ∀ p n, L.closed p = some n → n ≤ L.generation p

/-- What is settled stays so. -/
structure Le (L L' : Ledger π) : Prop where
  settled : ∀ p, L.settled p ≤ L'.settled p
  reached : ∀ p k, L.reached p k ≤ L'.reached p k

variable {L : Ledger π} {p : π} {t : Nat}

omit [DecidableEq π] in
theorem inv_new (generation : π → Nat) (epoch : Nat) :
    Inv { generation := generation, epoch := epoch } where
  settled_le _ := Nat.le_refl 0
  reached_le _ _ := Nat.le_refl 0
  reached_now _ := rfl
  closed_le := nofun

theorem Inv.change (h : L.Inv) (p : π) (t : Nat) : (L.change p t).Inv where
  settled_le q := by
    show L.settled q ≤ (Function.update L.changes p (L.changes p ++ [t]) q).length
    rw [Function.update_apply]
    split
    · rename_i hq
      subst hq
      rw [List.length_append]
      exact Nat.le_trans (h.settled_le q) (Nat.le_add_right _ _)
    · exact h.settled_le q
  reached_le := h.reached_le
  reached_now := h.reached_now
  closed_le := h.closed_le

theorem Inv.close (h : L.Inv) (p : π) : (L.close p).Inv where
  settled_le := h.settled_le
  reached_le := h.reached_le
  reached_now := h.reached_now
  closed_le q n hn := by
    simp only [Ledger.close, Function.update_apply] at hn
    split at hn
    · rename_i hq
      subst hq
      cases hn
      exact Nat.le_refl _
    · exact h.closed_le q n hn

theorem settled_settle (L : Ledger π) (p q : π) :
    (L.settle p).settled q = if q = p then (L.changes q).length else L.settled q := by
  simp only [Ledger.settle, Function.update_apply]
  split
  · rename_i hq
    rw [hq]
  · rfl

theorem reached_settle (L : Ledger π) (p q : π) (k : Nat × Nat) :
    (L.settle p).reached q k =
      if q = p ∧ k = (L.epoch, L.generation q) then (L.changes q).length else L.reached q k := by
  simp only [Ledger.settle, Function.update_apply]
  by_cases hq : q = p
  · subst hq
    simp only [if_true, true_and, Function.update_apply]
  · simp only [hq, if_false, false_and]

/-- Settling: the part's own counter may have been raised before. -/
theorem settle_inv {L' : Ledger π} (h : L.Inv) (p : π) (hepoch : L'.epoch = L.epoch)
    (hgen : ∀ q ≠ p, L'.generation q = L.generation q)
    (hlen : (L.changes p).length ≤ (L'.changes p).length)
    (hchanges : ∀ q ≠ p, L'.changes q = L.changes q) (hsettled : L'.settled = L.settled)
    (hreached : L'.reached = L.reached)
    (hclosed : ∀ q n, L'.closed q = some n → n ≤ L'.generation q) : (L'.settle p).Inv where
  settled_le q := by
    rw [settled_settle]
    split
    · exact Nat.le_refl _
    · rename_i hq
      rw [hsettled]
      show L.settled q ≤ (L'.changes q).length
      rw [hchanges q hq]
      exact h.settled_le q
  reached_le q k := by
    have hold : L'.reached q k ≤ (L'.settle p).settled q := by
      rw [settled_settle, hreached]
      split
      · rename_i hq
        subst hq
        exact Nat.le_trans (h.reached_le q k) (Nat.le_trans (h.settled_le q) hlen)
      · rw [hsettled]
        exact h.reached_le q k
    rw [reached_settle]
    split
    · rename_i hq
      exact Nat.le_of_eq (by rw [settled_settle, if_pos hq.1])
    · exact hold
  reached_now q := by
    show (L'.settle p).reached q (L'.epoch, L'.generation q) = _
    rw [reached_settle, settled_settle]
    by_cases hq : q = p
    · rw [if_pos ⟨hq, rfl⟩, if_pos hq]
    · rw [if_neg fun h => hq h.1, if_neg hq, hsettled, hreached, hepoch, hgen q hq]
      exact h.reached_now q
  closed_le := hclosed

theorem settle_le {L' : Ledger π} (h : L.Inv) (p : π)
    (hlen : (L.changes p).length ≤ (L'.changes p).length) (hsettled : L'.settled = L.settled)
    (hreached : L'.reached = L.reached) : L.Le (L'.settle p) where
  settled q := by
    rw [settled_settle]
    split
    · rename_i hq
      subst hq
      exact Nat.le_trans (h.settled_le q) hlen
    · exact Nat.le_of_eq (by rw [hsettled])
  reached q k := by
    rw [reached_settle]
    split
    · rename_i hq
      obtain ⟨rfl, -⟩ := hq
      exact Nat.le_trans (h.reached_le q k) (Nat.le_trans (h.settled_le q) hlen)
    · exact Nat.le_of_eq (by rw [hreached])

theorem Inv.bump (h : L.Inv) (p : π) : (L.bump p).Inv := by
  refine settle_inv h p rfl (fun q hq => Function.update_of_ne hq _ _) (Nat.le_refl _)
    (fun _ _ => rfl) rfl rfl fun q n hn => ?_
  show n ≤ Function.update L.generation p (L.generation p + 1) q
  have hle := h.closed_le q n hn
  rw [Function.update_apply]
  split
  · rename_i hq
    subst hq
    omega
  · exact hle

theorem length_change (L : Ledger π) (p : π) (t : Nat) :
    ((L.change p t).changes p).length = (L.changes p).length + 1 := by
  simp [Ledger.change]

theorem changes_change_of_ne {q : π} (hq : q ≠ p) : (L.change p t).changes q = L.changes q :=
  Function.update_of_ne hq _ _

theorem Inv.reopen (h : L.Inv) (p : π) (t : Nat) : (L.reopen p t).Inv := by
  refine settle_inv h p rfl (fun _ _ => rfl) ?_ (fun q hq => changes_change_of_ne hq) rfl rfl
    fun q n hn => ?_
  · exact Nat.le_trans (Nat.le_succ _) (Nat.le_of_eq (length_change L p t).symm)
  · simp only [Function.update_apply] at hn
    split at hn
    · cases hn
    · exact h.closed_le q n hn

omit [DecidableEq π] in
theorem Inv.replace (h : L.Inv) (t : Nat) {generation : π → Nat}
    (hopen : ∀ p, L.closed p = none) : (L.replace t generation).Inv where
  settled_le q := by simp [Ledger.replace]
  reached_le q k := by
    simp only [Ledger.replace, Function.update_apply]
    split
    · exact Nat.le_refl _
    · exact Nat.le_trans (h.reached_le q k) (Nat.le_succ_of_le (h.settled_le q))
  reached_now q := by simp [Ledger.replace]
  closed_le q n hn := by
    rw [show (L.replace t generation).closed q = L.closed q from rfl, hopen q] at hn
    cases hn

omit [DecidableEq π] in
theorem Le.refl (L : Ledger π) : L.Le L := ⟨fun _ => Nat.le_refl _, fun _ _ => Nat.le_refl _⟩

theorem le_bump (h : L.Inv) (p : π) : L.Le (L.bump p) :=
  settle_le h p (Nat.le_refl _) rfl rfl

theorem le_reopen (h : L.Inv) (p : π) (t : Nat) : L.Le (L.reopen p t) :=
  settle_le h p (Nat.le_trans (Nat.le_succ _) (Nat.le_of_eq (length_change L p t).symm)) rfl rfl

omit [DecidableEq π] in
theorem le_replace (h : L.Inv) (t : Nat) (generation : π → Nat) :
    L.Le (L.replace t generation) where
  settled p := Nat.le_succ_of_le (h.settled_le p)
  reached p k := by
    simp only [Ledger.replace, Function.update_apply]
    split
    · exact Nat.le_trans (h.reached_le p k) (Nat.le_succ_of_le (h.settled_le p))
    · exact Nat.le_refl _

end Ledger

/-! ## 2. Readers -/

namespace View

open Ledger

/-- The counter of the part is captured. -/
def capture (L : Ledger π) (V : View π) (p : π) : View π :=
  { V with captured := Function.update V.captured p (some (L.generation p)) }

/-- The part is read. -/
def read (L : Ledger π) (V : View π) (p : π) : View π :=
  { V with reads := (p, (L.changes p).length) :: V.reads }

/-- **A view that can be relied on**: its counters are not ahead, and a reading of a part has
    seen what was settled while the counter had the captured value. -/
structure Valid (L : Ledger π) (V : View π) : Prop where
  epoch_le : V.epoch ≤ L.epoch
  captured_le : V.epoch = L.epoch → ∀ p g, V.captured p = some g → g ≤ L.generation p
  seen : ∀ p n, (p, n) ∈ V.reads → ∀ g, V.captured p = some g → L.reached p (V.epoch, g) ≤ n
  closed : V.epoch = L.epoch → ∀ p n, (p, n) ∈ V.reads → ∀ g m, V.captured p = some g →
    L.closed p = some m → g ≤ m

variable {L : Ledger π} {V : View π} {p : π} {t : Nat}

omit [DecidableEq π] in
theorem valid_new (L : Ledger π) : Valid L { epoch := L.epoch } where
  epoch_le := Nat.le_refl _
  captured_le := nofun
  seen := nofun
  closed := nofun

theorem Valid.capture (h : Valid L V) (hreads : V.reads = []) (p : π) :
    Valid L (V.capture L p) where
  epoch_le := h.epoch_le
  captured_le he q g hg := by
    simp only [View.capture, Function.update_apply] at hg
    split at hg
    · rename_i hq
      subst hq
      cases hg
      exact Nat.le_refl _
    · exact h.captured_le he q g hg
  seen q n hn := by
    simp only [View.capture, hreads, List.not_mem_nil] at hn
  closed _ q n hn := by
    simp only [View.capture, hreads, List.not_mem_nil] at hn

omit [DecidableEq π] in
/-- A reading of an open part. -/
theorem Valid.read (h : Valid L V) (hL : L.Inv) {p : π} (hopen : L.closed p = none) :
    Valid L (V.read L p) where
  epoch_le := h.epoch_le
  captured_le := h.captured_le
  seen q n hn g hg := by
    rcases List.mem_cons.mp hn with heq | hn
    · obtain ⟨rfl, rfl⟩ := Prod.mk.inj heq
      exact Nat.le_trans (hL.reached_le q _) (hL.settled_le q)
    · exact h.seen q n hn g hg
  closed he q n hn g m hg hm := by
    rcases List.mem_cons.mp hn with heq | hn
    · obtain ⟨rfl, rfl⟩ := Prod.mk.inj heq
      rw [hopen] at hm
      cases hm
    · exact h.closed he q n hn g m hg hm

theorem Valid.change (h : Valid L V) (p : π) (t : Nat) : Valid (L.change p t) V :=
  ⟨h.epoch_le, h.captured_le, h.seen, h.closed⟩

theorem Valid.close (h : Valid L V) (p : π) : Valid (L.close p) V where
  epoch_le := h.epoch_le
  captured_le := h.captured_le
  seen := h.seen
  closed he q n hn g m hg hm := by
    simp only [Ledger.close, Function.update_apply] at hm
    split at hm
    · rename_i hq
      subst hq
      cases hm
      exact h.captured_le he q g hg
    · exact h.closed he q n hn g m hg hm

theorem Valid.bump (h : Valid L V) (p : π) : Valid (L.bump p) V where
  epoch_le := h.epoch_le
  captured_le he q g hg := by
    have hle := h.captured_le he q g hg
    show g ≤ Function.update L.generation p (L.generation p + 1) q
    rw [Function.update_apply]
    split
    · rename_i hq
      subst hq
      omega
    · exact hle
  seen q n hn g hg := by
    unfold Ledger.bump
    rw [reached_settle]
    split
    · -- nobody has captured the value the counter has only now
      rename_i hk
      obtain ⟨rfl, hk⟩ := hk
      obtain ⟨he, hnew⟩ := Prod.mk.inj hk
      have hle := h.captured_le he q g hg
      simp only [Function.update_self] at hnew
      omega
    · exact h.seen q n hn g hg
  closed := h.closed

/-- The part is opened with its counter raised since it was closed. -/
theorem Valid.reopen (h : Valid L V) {n : Nat} (hclosed : L.closed p = some n)
    (hraised : n < L.generation p) (t : Nat) : Valid (L.reopen p t) V where
  epoch_le := h.epoch_le
  captured_le := h.captured_le
  seen q m hm g hg := by
    unfold Ledger.reopen
    rw [reached_settle]
    split
    · -- whoever has read the part did so before it was closed
      rename_i hk
      obtain ⟨rfl, hk⟩ := hk
      obtain ⟨he, hnow⟩ := Prod.mk.inj hk
      have hle := h.closed he q m hm g n hg hclosed
      exact absurd (Nat.lt_of_le_of_lt hle hraised) (by rw [hnow]; exact Nat.lt_irrefl _)
    · exact h.seen q m hm g hg
  closed he q m hm g k hg hk := by
    simp only [Ledger.reopen, Ledger.settle, Function.update_apply] at hk
    split at hk
    · cases hk
    · exact h.closed he q m hm g k hg hk

omit [DecidableEq π] in
theorem Valid.replace (h : Valid L V) (t : Nat) (generation : π → Nat) :
    Valid (L.replace t generation) V where
  epoch_le := Nat.le_succ_of_le h.epoch_le
  captured_le he := by
    have := h.epoch_le
    simp only [Ledger.replace] at he
    omega
  seen q n hn g hg := by
    have := h.epoch_le
    simp only [Ledger.replace, Function.update_apply]
    split
    · rename_i hk
      have := (Prod.mk.inj hk).1
      omega
    · exact h.seen q n hn g hg
  closed he := by
    have := h.epoch_le
    simp only [Ledger.replace] at he
    omega

end View

/-! ## 3. What a reader may demand -/

/-- The reader with view `V` may demand `owed p` changes of the part `p`: they are settled, under
    the counters it has captured too. -/
structure Owes (L : Ledger π) (V : View π) (owed : π → Nat) : Prop where
  settled : ∀ p, owed p ≤ L.settled p
  captured : ∀ p g, V.captured p = some g → owed p ≤ L.reached p (V.epoch, g)

namespace Owes

variable {L L' : Ledger π} {V : View π} {owed : π → Nat}

omit [DecidableEq π] in
theorem begin (L : Ledger π) : Owes L { epoch := L.epoch } L.settled :=
  ⟨fun _ => Nat.le_refl _, nofun⟩

omit [DecidableEq π] in
theorem mono (h : Owes L V owed) (hle : L.Le L') : Owes L' V owed where
  settled p := Nat.le_trans (h.settled p) (hle.settled p)
  captured p g hg := Nat.le_trans (h.captured p g hg) (hle.reached p _)

theorem capture (h : Owes L V owed) (hL : L.Inv) (he : V.epoch = L.epoch) (p : π) :
    Owes L (V.capture L p) owed where
  settled := h.settled
  captured q g hg := by
    simp only [View.capture, Function.update_apply] at hg
    split at hg
    · rename_i hq
      subst hq
      cases hg
      rw [show (V.capture L q).epoch = V.epoch from rfl, he, hL.reached_now q]
      exact h.settled q
    · exact h.captured q g hg

omit [DecidableEq π] in
/-- **Same counters, same data**: a view with the counters the reader has captured has seen what
    the reader may demand. -/
theorem seen (h : Owes L V owed) {E : View π} (hE : E.Valid L) (he : E.epoch = V.epoch) {p : π}
    {g n : Nat} (hg : V.captured p = some g) (hg' : E.captured p = some g)
    (hn : (p, n) ∈ E.reads) : owed p ≤ n := by
  have hseen := hE.seen p n hn g hg'
  rw [he] at hseen
  exact Nat.le_trans (h.captured p g hg) hseen

end Owes

/-- All changes by one of the writers `acked` are among the first `owed`. -/
def Within (L : Ledger π) (acked : List Nat) (owed : π → Nat) : Prop :=
  ∀ t ∈ acked, ∀ p i, (L.changes p)[i]? = some t → i < owed p

/-- What is not settled is the writer's at work. -/
def OnlyPending (L : Ledger π) (writer : Nat) : Prop :=
  ∀ p i t, L.settled p ≤ i → (L.changes p)[i]? = some t → t = writer

section Tickets

omit [DecidableEq π]

variable {L L' : Ledger π} {t : Nat}

theorem getElem?_snoc_of_ne {l : List Nat} {i u : Nat} (h : (l ++ [t])[i]? = some u) (hne : u ≠ t) :
    l[i]? = some u := by
  rcases Nat.lt_or_ge i l.length with hlt | hge
  · rwa [List.getElem?_append_left hlt] at h
  · rw [List.getElem?_append_right hge, List.getElem?_singleton] at h
    split at h
    · exact absurd (Option.some.inj h).symm hne
    · cases h

/-- What is not by the writer `t` stood there before. -/
theorem Ledger.getElem?_changes_of_ne {p : π} {i u : Nat}
    (hchanges : L'.changes p = L.changes p ∨ L'.changes p = L.changes p ++ [t])
    (h : (L'.changes p)[i]? = some u) (hne : u ≠ t) : (L.changes p)[i]? = some u := by
  rcases hchanges with hc | hc
  · rwa [hc] at h
  · rw [hc] at h
    exact getElem?_snoc_of_ne h hne

/-- A change by a writer that is not acknowledged is none of those demanded. -/
theorem Within.append {acked : List Nat} {owed : π → Nat} (h : Within L acked owed)
    (ht : t ∉ acked)
    (hchanges : ∀ p, L'.changes p = L.changes p ∨ L'.changes p = L.changes p ++ [t]) :
    Within L' acked owed := by
  intro u hu p i hi
  refine h u hu p i (Ledger.getElem?_changes_of_ne (hchanges p) hi ?_)
  rintro rfl
  exact ht hu

theorem OnlyPending.append (h : OnlyPending L t) (hle : L.Le L')
    (hchanges : ∀ p, L'.changes p = L.changes p ∨ L'.changes p = L.changes p ++ [t]) :
    OnlyPending L' t := by
  intro p i u hi hu
  by_contra hne
  have hsettled := hle.settled p
  exact hne (h p i u (by omega) (Ledger.getElem?_changes_of_ne (hchanges p) hu hne))

end Tickets

end Ledger

end Nvecd.Lib
