/-
  File:      Nvecd/Lib/Machine.lean
  Subject:   Runs of a machine given by a partial step function, and the rules that carry an
             invariant along a run.

  A machine is a function `step : σ → α → Option σ`: the action `a` is enabled in `s` exactly
  when `step s a` is a state. A run is a list of actions; interleavings of several threads are
  runs whose actions name the thread that moves.

  * `run` -- the state a list of actions leads to, if every one of them is enabled;
  * `Meets` -- every step of the run satisfies a condition on the action and on the state it is
    taken from;
  * `run_inv`, `run_inv_of_meets` -- the invariant rules, without and with such a condition;
  * `run_total` -- the rule for machines that can always go on;
  * `run_simulates` -- the simulation rule under such a condition;
  * `run_snoc`, `meets_snoc` -- one more step at the end, the form in which a property of a
    step (not of a state) is read off a run;
  * `answers`, `after`, `refines_of_simulation` -- machines that answer every request, and one
    that does what another is specified to;
  * `after_filter` -- requests that can be left out;
  * `Alike`, `Alike.of_simulation` -- states that no list of requests tells apart.
-/
import Mathlib.Data.List.Basic
import Mathlib.Data.Option.Basic

namespace Nvecd.Lib

universe u v

variable {σ : Type u} {α : Type v}

/-- **A run**: the actions one after the other, `none` as soon as one is not enabled. -/
def run (step : σ → α → Option σ) : σ → List α → Option σ
  | s, [] => some s
  | s, a :: as =>
    match step s a with
    | some s' => run step s' as
    | none => none

/-- Every action of the run meets `ok` in the state it is taken from. -/
def Meets (step : σ → α → Option σ) (ok : σ → α → Prop) : σ → List α → Prop
  | _, [] => True
  | s, a :: as =>
    ok s a ∧
      match step s a with
      | some s' => Meets step ok s' as
      | none => True

/-- Whether a concrete run meets a decidable condition can be computed. -/
instance Meets.decidable (step : σ → α → Option σ) (ok : σ → α → Prop)
    [∀ s a, Decidable (ok s a)] : ∀ s as, Decidable (Meets step ok s as)
  | _, [] => isTrue trivial
  | s, a :: as =>
    have : Decidable (match step s a with
        | some s' => Meets step ok s' as
        | none => True) :=
      match step s a with
      | some s' => Meets.decidable step ok s' as
      | none => isTrue trivial
    inferInstanceAs (Decidable (_ ∧ _))

section Runs

variable {step : σ → α → Option σ} {ok : σ → α → Prop} {Inv : σ → Prop}

@[simp] theorem run_nil (s : σ) : run step s [] = some s := rfl

theorem run_cons_eq_some {s s' : σ} {a : α} {as : List α} :
    run step s (a :: as) = some s' ↔ ∃ t, step s a = some t ∧ run step t as = some s' := by
  cases h : step s a with
  | none => simp [run, h]
  | some t => simp [run, h]

theorem run_append {s t : σ} {as bs : List α} (h : run step s as = some t) :
    run step s (as ++ bs) = run step t bs := by
  induction as generalizing s with
  | nil => simp only [run_nil, Option.some.injEq] at h; rw [h]; rfl
  | cons a as ih =>
    obtain ⟨r, hr, hrun⟩ := run_cons_eq_some.1 h
    simp only [List.cons_append, run, hr]
    exact ih hrun

/-- The last step of a run, split off. -/
theorem run_snoc {s s' : σ} {as : List α} {a : α} :
    run step s (as ++ [a]) = some s' ↔ ∃ t, run step s as = some t ∧ step t a = some s' := by
  induction as generalizing s with
  | nil => simp [run_cons_eq_some]
  | cons b as ih =>
    rw [List.cons_append, run_cons_eq_some]
    constructor
    · rintro ⟨r, hr, h⟩
      obtain ⟨t, ht, hs⟩ := ih.mp h
      exact ⟨t, run_cons_eq_some.2 ⟨r, hr, ht⟩, hs⟩
    · rintro ⟨t, ht, hs⟩
      obtain ⟨r, hr, h⟩ := run_cons_eq_some.1 ht
      exact ⟨r, hr, ih.mpr ⟨t, h, hs⟩⟩

theorem meets_snoc {s t : σ} {as : List α} {a : α} (hr : run step s as = some t) :
    Meets step ok s (as ++ [a]) ↔ Meets step ok s as ∧ ok t a := by
  induction as generalizing s with
  | nil =>
    simp only [run_nil, Option.some.injEq] at hr
    subst hr
    cases h : step s a <;> simp [Meets, h]
  | cons b as ih =>
    obtain ⟨r, hr, hrun⟩ := run_cons_eq_some.1 hr
    simp only [List.cons_append, Meets, hr, ih hrun, and_assoc]

/-- The beginning of a run that meets a condition meets it. -/
theorem Meets.of_append {s : σ} {as bs : List α} (h : Meets step ok s (as ++ bs)) :
    Meets step ok s as := by
  induction as generalizing s with
  | nil => exact trivial
  | cons a as ih =>
    rw [List.cons_append, Meets] at h
    refine ⟨h.1, ?_⟩
    cases hs : step s a with
    | none => exact trivial
    | some t =>
      rw [hs] at h
      exact ih h.2

/-- **The invariant rule**: what every enabled step keeps holds after every run. -/
theorem run_inv (hstep : ∀ s a s', Inv s → step s a = some s' → Inv s') {s s' : σ}
    {as : List α} (h0 : Inv s) (h : run step s as = some s') : Inv s' := by
  induction as generalizing s with
  | nil => simp only [run_nil, Option.some.injEq] at h; exact h ▸ h0
  | cons a as ih =>
    obtain ⟨t, ht, hrun⟩ := run_cons_eq_some.1 h
    exact ih (hstep s a t h0 ht) hrun

/-- **The invariant rule under a condition**: what every enabled step that meets `ok` keeps
    holds after every run all of whose steps meet `ok`. -/
theorem run_inv_of_meets (hstep : ∀ s a s', Inv s → ok s a → step s a = some s' → Inv s')
    {s s' : σ} {as : List α} (h0 : Inv s) (hm : Meets step ok s as)
    (h : run step s as = some s') : Inv s' := by
  induction as generalizing s with
  | nil => simp only [run_nil, Option.some.injEq] at h; exact h ▸ h0
  | cons a as ih =>
    obtain ⟨t, ht, hrun⟩ := run_cons_eq_some.1 h
    simp only [Meets, ht] at hm
    exact ih (hstep s a t h0 hm.1 ht) hm.2 hrun

/-- **The rule for machines that can always go on**: with the invariant, every action that meets
    `Ok` can be taken and keeps it. -/
theorem run_total {Ok : α → Prop} (hstep : ∀ s a, Inv s → Ok a → ∃ s', step s a = some s' ∧ Inv s')
    {s : σ} {as : List α} (h0 : Inv s) (has : ∀ a ∈ as, Ok a) :
    ∃ s', run step s as = some s' ∧ Inv s' := by
  induction as generalizing s with
  | nil => exact ⟨s, rfl, h0⟩
  | cons a as ih =>
    obtain ⟨t, ht, hinv⟩ := hstep s a h0 (has a List.mem_cons_self)
    obtain ⟨s', hrun, hlast⟩ := ih hinv fun b hb => has b (List.mem_cons_of_mem a hb)
    exact ⟨s', run_cons_eq_some.2 ⟨t, ht, hrun⟩, hlast⟩

/-- **The simulation rule under a condition**: a machine that can take every action that meets
    `ok`, and then does what is specified of it. -/
theorem run_simulates {τ : Type u} {spec : τ → α → τ} {R : σ → τ → Prop}
    (hstep : ∀ s t a, R s t → ok s a → ∃ s', step s a = some s' ∧ R s' (spec t a)) {s : σ} {t : τ}
    {as : List α} (h : R s t) (hm : Meets step ok s as) :
    ∃ s', run step s as = some s' ∧ R s' (as.foldl spec t) := by
  induction as generalizing s t with
  | nil => exact ⟨s, rfl, h⟩
  | cons a as ih =>
    obtain ⟨s₁, hs, hnext⟩ := hstep s t a h hm.1
    have hrest := hm.2
    rw [hs] at hrest
    obtain ⟨s', hrun, hlast⟩ := ih hnext hrest
    exact ⟨s', run_cons_eq_some.2 ⟨s₁, hs, hrun⟩, hlast⟩

end Runs

section Answers

universe w

variable {ρ : Type v} {β : Type w}

/-- The answers of a machine that takes every request. -/
def answers (respond : σ → ρ → σ × β) : σ → List ρ → List β
  | _, [] => []
  | s, r :: rs => (respond s r).2 :: answers respond (respond s r).1 rs

/-- The state after the requests. -/
def after (respond : σ → ρ → σ × β) (s : σ) (rs : List ρ) : σ :=
  rs.foldl (fun s r => (respond s r).1) s

/-- No requests tell the two states apart. -/
def Alike (respond : σ → ρ → σ × β) (s t : σ) : Prop :=
  ∀ rs, answers respond s rs = answers respond t rs

variable {respond : σ → ρ → σ × β} {s t : σ}

/-- What the requests of a list keep holds behind them. -/
theorem after_inv_of_mem {Inv : σ → Prop} {rs : List ρ}
    (hstep : ∀ s, ∀ r ∈ rs, Inv s → Inv (respond s r).1) (h : Inv s) :
    Inv (after respond s rs) := by
  induction rs generalizing s with
  | nil => exact h
  | cons r rs ih =>
    exact ih (fun s r' hr' => hstep s r' (List.mem_cons_of_mem r hr'))
      (hstep s r List.mem_cons_self h)

theorem after_inv {Inv : σ → Prop} (hstep : ∀ s r, Inv s → Inv (respond s r).1) (h : Inv s)
    (rs : List ρ) : Inv (after respond s rs) := after_inv_of_mem (fun s r _ => hstep s r) h

theorem after_append_singleton (rs : List ρ) (r : ρ) :
    after respond s (rs ++ [r]) = (respond (after respond s rs) r).1 := by
  rw [after, List.foldl_append]
  rfl

/-- **The rule for leaving requests out**: a relation between states that a kept request keeps, and
    that a request left out does not see. -/
theorem after_filter {R : σ → σ → Prop} {keep : ρ → Bool} {rs : List ρ}
    (hkept : ∀ s t, ∀ r ∈ rs, keep r = true → R s t → R (respond s r).1 (respond t r).1)
    (hleft : ∀ s t, ∀ r ∈ rs, keep r = false → R s t → R (respond s r).1 t) (h : R s t) :
    R (after respond s rs) (after respond t (rs.filter keep)) := by
  induction rs generalizing s t with
  | nil => exact h
  | cons r rs ih =>
    have hkept' := fun s t r' hr' => hkept s t r' (List.mem_cons_of_mem r hr')
    have hleft' := fun s t r' hr' => hleft s t r' (List.mem_cons_of_mem r hr')
    cases hr : keep r with
    | true =>
      rw [List.filter_cons_of_pos hr]
      exact ih hkept' hleft' (hkept s t r List.mem_cons_self hr h)
    | false =>
      rw [List.filter_cons_of_neg (by rw [hr]; exact Bool.false_ne_true)]
      exact ih hkept' hleft' (hleft s t r List.mem_cons_self hr h)

/-- **The refinement rule**: two machines, and a relation between their states that every request
    keeps and under which it is answered alike. -/
theorem refines_of_simulation {τ : Type u} {spec : τ → ρ → τ × β} {R : σ → τ → Prop}
    (hstep : ∀ s t r, R s t → (respond s r).2 = (spec t r).2 ∧ R (respond s r).1 (spec t r).1)
    {t : τ} (h : R s t) (rs : List ρ) :
    answers respond s rs = answers spec t rs ∧ R (after respond s rs) (after spec t rs) := by
  induction rs generalizing s t with
  | nil => exact ⟨rfl, h⟩
  | cons r rs ih =>
    obtain ⟨hanswer, hnext⟩ := hstep s t r h
    obtain ⟨hanswers, hafter⟩ := ih hnext
    refine ⟨?_, hafter⟩
    simp only [answers]
    rw [hanswer, hanswers]

/-- **States in a relation that every request keeps, and under which it is answered alike, are
    alike.** -/
theorem Alike.of_simulation {R : σ → σ → Prop}
    (hstep : ∀ s t r, R s t → (respond s r).2 = (respond t r).2 ∧
      R (respond s r).1 (respond t r).1) (h : R s t) : Alike respond s t :=
  fun rs => (refines_of_simulation hstep h rs).1

theorem Alike.answer (h : Alike respond s t) (r : ρ) : (respond s r).2 = (respond t r).2 :=
  List.head_eq_of_cons_eq (h [r])

end Answers

end Nvecd.Lib
