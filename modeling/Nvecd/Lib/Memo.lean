/-
  File:      Nvecd/Lib/Memo.lean
  Subject:   Answers that are kept under keys made of a question and of the version of the state.

  The version of a state never goes back. A question tags a version with itself and with what it
  sees of the version; its value stays as long as its tag does. An answer is kept under the key of
  its tag, with the version it was computed at. Whoever finds something under the key of a tag that
  is the present one has the value of the present state.

  * `Memo` -- questions, their tags and their values;
  * `Memo.Advances` -- a step of the state: with an equal tag the value is the same;
  * `Memo.Kept`, `Memo.Sound` -- an answer, and a table of answers, computed at a version gone by;
  * `Memo.Sound.advance`, `Memo.Sound.insert`, `Memo.Sound.value_eq` -- the state moves on, an
    answer is put in, an answer is found.
-/
import Mathlib.Order.Basic

namespace Nvecd.Lib

/-- Questions about a state. Versions with one tag have no other tag in between, and equal tags
    come from questions that see the same. -/
structure Memo (σ ν ρ τ α : Type*) [Preorder ν] where
  version : σ → ν
  tag : ρ → ν → τ
  value : ρ → σ → α
  convex : ∀ r ⦃u v w : ν⦄, u ≤ v → v ≤ w → tag r u = tag r w → tag r v = tag r u
  value_of_tag : ∀ ⦃r r' u w⦄, tag r u = tag r' w → value r = value r'
  tag_of_tag : ∀ ⦃r r' u w⦄, tag r u = tag r' w → tag r u = tag r w

namespace Memo

variable {σ ν ρ τ α κ δ : Type*} [Preorder ν] (m : Memo σ ν ρ τ α)

/-- **A step of the state**, for the questions that may be asked. -/
structure Advances (Asked : ρ → Prop) (s t : σ) : Prop where
  le : m.version s ≤ m.version t
  value_eq : ∀ r, Asked r → m.tag r (m.version s) = m.tag r (m.version t) →
    m.value r t = m.value r s

/-- `a` is what the question had for an answer at a version gone by. -/
structure Kept (r : ρ) (v : ν) (a : α) (s : σ) : Prop where
  le : v ≤ m.version s
  value_eq : m.tag r v = m.tag r (m.version s) → m.value r s = a

/-- **Everything in the table** is the packed answer of a question that was asked. -/
def Sound (Asked : ρ → Prop) (key : τ → κ) (Packed : α → δ → Prop) (entries : κ → Option δ)
    (s : σ) : Prop :=
  ∀ k d, entries k = some d →
    ∃ r v a, Asked r ∧ key (m.tag r v) = k ∧ Packed a d ∧ m.Kept r v a s

variable {m} {Asked : ρ → Prop} {s t : σ}

theorem Kept.now (m : Memo σ ν ρ τ α) (r : ρ) (s : σ) : m.Kept r (m.version s) (m.value r s) s :=
  ⟨le_refl _, fun _ => rfl⟩

theorem Kept.advance {r : ρ} {v : ν} {a : α} (h : m.Kept r v a s) (hr : Asked r)
    (hs : m.Advances Asked s t) : m.Kept r v a t := by
  refine ⟨h.le.trans hs.le, fun heq => ?_⟩
  have hmid := m.convex r h.le hs.le heq
  exact (hs.value_eq r hr (hmid.trans heq)).trans (h.value_eq hmid.symm)

variable {key : τ → κ} {Packed : α → δ → Prop} {entries entries' : κ → Option δ}

theorem Sound.empty (h : ∀ k, entries k = none) : m.Sound Asked key Packed entries s := by
  intro k d hd
  rw [h k] at hd
  cases hd

/-- A table that has lost entries. -/
theorem Sound.mono (h : m.Sound Asked key Packed entries s)
    (hsub : ∀ k d, entries' k = some d → entries k = some d) :
    m.Sound Asked key Packed entries' s :=
  fun k d hd => h k d (hsub k d hd)

/-- **The state moves on.** -/
theorem Sound.advance (h : m.Sound Asked key Packed entries s) (hs : m.Advances Asked s t) :
    m.Sound Asked key Packed entries t := by
  intro k d hd
  obtain ⟨r, v, a, hr, hkey, hpacked, hkept⟩ := h k d hd
  exact ⟨r, v, a, hr, hkey, hpacked, hkept.advance hr hs⟩

/-- **An answer is put in**, under the key of the present tag. -/
theorem Sound.insert (h : m.Sound Asked key Packed entries s) {r : ρ} (hr : Asked r)
    (hsub : ∀ k d, entries' k = some d →
      entries k = some d ∨ k = key (m.tag r (m.version s)) ∧ Packed (m.value r s) d) :
    m.Sound Asked key Packed entries' s := by
  intro k d hd
  rcases hsub k d hd with hold | ⟨rfl, hpacked⟩
  · exact h k d hold
  · exact ⟨r, m.version s, m.value r s, hr, rfl, hpacked, .now m r s⟩

/-- **An answer is found**: keys that tell the tags apart lead to the present value. -/
theorem Sound.value_eq (h : m.Sound Asked key Packed entries s)
    (hkeys : ∀ ⦃r r' v w⦄, Asked r → Asked r' → key (m.tag r v) = key (m.tag r' w) →
      m.tag r v = m.tag r' w)
    {r : ρ} (hr : Asked r) {d : δ} (hd : entries (key (m.tag r (m.version s))) = some d) :
    Packed (m.value r s) d := by
  obtain ⟨r', v, a, hr', hkey, hpacked, hkept⟩ := h _ d hd
  have htag := hkeys hr' hr hkey
  rwa [← hkept.value_eq (m.tag_of_tag htag), m.value_of_tag htag] at hpacked

end Memo

end Nvecd.Lib
