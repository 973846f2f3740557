/-
  File:      Nvecd/Lib/Located.lean
  Subject:   Things kept in places, and a map from their keys to the places.

  The map leads from each key to the one place that holds a thing with the key. Taking a thing
  out, putting one into an empty place and moving one are each one change of the map and of the
  places; what they do to the things, found by their keys, does not mention places any more.

  * `Located`, `held` -- the map is right, and the thing with a key;
  * `Located.drop`, `Located.put`, `Located.move` -- the changes keep it;
  * `held_drop`, `held_put`, `held_move`, `held_eq_of_kept` -- and what they do to the things.
-/
import Mathlib.Logic.Function.Basic

namespace Nvecd.Lib

universe u v w

variable {κ : Type u} {Λ : Type v} {σ : Type w} {idOf : σ → κ} {find : κ → Option Λ}
  {place : Λ → Option σ} {k : κ} {l : Λ} {x : σ}

/-- **The map leads from a key to the place of the thing with it**, if there is one. -/
def Located (idOf : σ → κ) (find : κ → Option Λ) (place : Λ → Option σ) : Prop :=
  ∀ k l, find k = some l ↔ ∃ x, place l = some x ∧ idOf x = k

/-- The thing with a key. -/
def held (find : κ → Option Λ) (place : Λ → Option σ) (k : κ) : Option σ := (find k).bind place

theorem Located.find_eq (h : Located idOf find place) (hx : place l = some x) :
    find (idOf x) = some l := (h (idOf x) l).mpr ⟨x, hx, rfl⟩

theorem Located.place_eq (h : Located idOf find place) (hk : find k = some l) :
    ∃ x, place l = some x ∧ idOf x = k := (h k l).mp hk

/-- No two places hold things with one key. -/
theorem Located.unique (h : Located idOf find place) {l' : Λ} {x' : σ} (hx : place l = some x)
    (hx' : place l' = some x') (hid : idOf x = idOf x') : l = l' := by
  have hfind := h.find_eq hx
  rw [hid, h.find_eq hx'] at hfind
  exact (Option.some.inj hfind).symm

theorem Located.held_eq_some (h : Located idOf find place) :
    held find place k = some x ↔ (∃ l, place l = some x) ∧ idOf x = k := by
  unfold held
  rw [Option.bind_eq_some_iff]
  constructor
  · rintro ⟨l, hl, hx⟩
    obtain ⟨y, hy, rfl⟩ := h.place_eq hl
    obtain rfl := Option.some.inj (hx.symm.trans hy)
    exact ⟨⟨l, hx⟩, rfl⟩
  · rintro ⟨⟨l, hx⟩, rfl⟩
    exact ⟨l, h.find_eq hx, hx⟩

/-- The things are the same if the same things are kept, wherever. -/
theorem held_eq_of_kept (h : Located idOf find place) {find' : κ → Option Λ}
    {place' : Λ → Option σ} (h' : Located idOf find' place')
    (hkept : ∀ x, (∃ l, place' l = some x) ↔ ∃ l, place l = some x) :
    held find' place' = held find place := by
  funext k
  apply Option.ext
  intro x
  rw [h.held_eq_some, h'.held_eq_some, hkept]

variable [DecidableEq κ] [DecidableEq Λ]

/-- **Taking out.** -/
theorem Located.drop (h : Located idOf find place) (hk : find k = some l) :
    Located idOf (Function.update find k none) (Function.update place l none) := by
  obtain ⟨x, hx, rfl⟩ := h.place_eq hk
  intro k' l'
  rw [Function.update_apply, Function.update_apply]
  constructor
  · intro hfind
    split at hfind
    · cases hfind
    · rename_i hne
      obtain ⟨y, hy, rfl⟩ := h.place_eq hfind
      refine ⟨y, ?_, rfl⟩
      rw [if_neg fun heq => hne ?_]
      · exact hy
      · rw [heq, hx] at hy
        rw [Option.some.inj hy]
  · rintro ⟨y, hy, rfl⟩
    split at hy
    · cases hy
    · rename_i hne
      rw [if_neg fun heq => hne (h.unique hy hx heq)]
      exact h.find_eq hy

theorem held_drop (h : Located idOf find place) (hk : find k = some l) :
    held (Function.update find k none) (Function.update place l none) =
      Function.update (held find place) k none := by
  funext k'
  unfold held
  by_cases hne : k' = k
  · rw [hne, Function.update_self, Function.update_self]
    rfl
  · rw [Function.update_of_ne hne, Function.update_of_ne hne]
    cases hk' : find k' with
    | none => rfl
    | some l' =>
      rw [Option.bind_some, Option.bind_some, Function.update_of_ne]
      rintro rfl
      obtain ⟨x, hx, rfl⟩ := h.place_eq hk
      obtain ⟨y, hy, rfl⟩ := h.place_eq hk'
      exact hne (by rw [Option.some.inj (hx.symm.trans hy)])

/-- **Putting in.** -/
theorem Located.put (h : Located idOf find place) (hl : place l = none)
    (hx : find (idOf x) = none) :
    Located idOf (Function.update find (idOf x) (some l)) (Function.update place l (some x)) := by
  intro k' l'
  rw [Function.update_apply, Function.update_apply]
  by_cases hl' : l' = l
  · rw [if_pos hl', hl']
    constructor
    · intro hfind
      split at hfind
      · rename_i heq
        exact ⟨x, rfl, heq.symm⟩
      · obtain ⟨y, hy, -⟩ := h.place_eq hfind
        rw [hl] at hy
        cases hy
    · rintro ⟨y, hy, rfl⟩
      rw [Option.some.inj hy, if_pos rfl]
  · rw [if_neg hl', ← h k' l']
    by_cases hk' : k' = idOf x
    · rw [if_pos hk', hk', hx]
      simp [Ne.symm hl']
    · rw [if_neg hk']

theorem held_put (h : Located idOf find place) (hl : place l = none) :
    held (Function.update find (idOf x) (some l)) (Function.update place l (some x)) =
      Function.update (held find place) (idOf x) (some x) := by
  funext k'
  unfold held
  by_cases hne : k' = idOf x
  · rw [hne, Function.update_self, Function.update_self, Option.bind_some, Function.update_self]
  · rw [Function.update_of_ne hne, Function.update_of_ne hne]
    cases hk' : find k' with
    | none => rfl
    | some l' =>
      rw [Option.bind_some, Option.bind_some, Function.update_of_ne]
      rintro rfl
      obtain ⟨y, hy, -⟩ := h.place_eq hk'
      rw [hl] at hy
      cases hy

/-- **Moving.** -/
theorem Located.move (h : Located idOf find place) {l' : Λ} (hx : place l = some x)
    (hl' : place l' = none) :
    Located idOf (Function.update find (idOf x) (some l'))
      (Function.update (Function.update place l none) l' (some x)) := by
  have hdrop := h.drop (h.find_eq hx)
  have hne : l' ≠ l := by
    rintro rfl
    rw [hl'] at hx
    cases hx
  have hput := hdrop.put (x := x) (l := l') (by rw [Function.update_of_ne hne, hl'])
    (Function.update_self ..)
  rwa [Function.update_idem] at hput

theorem held_move (h : Located idOf find place) {l' : Λ} (hx : place l = some x)
    (hl' : place l' = none) :
    held (Function.update find (idOf x) (some l'))
        (Function.update (Function.update place l none) l' (some x)) = held find place := by
  have hne : l' ≠ l := by
    rintro rfl
    rw [hl'] at hx
    cases hx
  refine held_eq_of_kept h (h.move hx hl') fun y => ⟨?_, ?_⟩
  · rintro ⟨m, hm⟩
    rw [Function.update_apply, Function.update_apply] at hm
    split at hm
    · exact ⟨l, hx.trans hm⟩
    · split at hm
      · cases hm
      · exact ⟨m, hm⟩
  · rintro ⟨m, hm⟩
    by_cases hml : m = l
    · refine ⟨l', ?_⟩
      rw [Function.update_self, ← hm, hml, hx]
    · refine ⟨m, ?_⟩
      rw [Function.update_of_ne, Function.update_of_ne hml, hm]
      rintro rfl
      rw [hl'] at hm
      cases hm

end Nvecd.Lib
