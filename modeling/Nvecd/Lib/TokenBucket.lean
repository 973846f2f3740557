/-
  File:      Nvecd/Lib/TokenBucket.lean
  Subject:   A bucket of tokens that fills at a constant rate up to a capacity.

  What a bucket can give at a time is its level then. The level is the potential of a run: what is
  taken is paid by the level before and by what flows in meanwhile.

  * `TokenBucket`, `level`, `refill`, `take`;
  * `level_le`, `level_advance`, `level_self_le` -- how the level moves with the clock;
  * `refill_within`, `take_within` -- the tokens stay between none and the capacity.
-/
import Mathlib.Algebra.Order.Field.Basic
import Mathlib.Tactic.Linarith
import Mathlib.Tactic.Ring

namespace Nvecd.Lib

universe u

/-- The tokens at the time of the last refill. -/
structure TokenBucket (K : Type u) where
  tokens : K
  lastRefill : K
  deriving DecidableEq, Repr

namespace TokenBucket

section Levels

variable {K : Type u} [Field K] [LinearOrder K]

/-- What a bucket holds at a time. -/
def level (capacity rate : K) (bucket : TokenBucket K) (now : K) : K :=
  min capacity (bucket.tokens + (now - bucket.lastRefill) * rate)

/-- The bucket, brought up to date. -/
def refill (capacity rate : K) (bucket : TokenBucket K) (now : K) : TokenBucket K where
  tokens := level capacity rate bucket now
  lastRefill := now

/-- One token less. -/
def take (bucket : TokenBucket K) : TokenBucket K := { bucket with tokens := bucket.tokens - 1 }

variable {capacity rate : K} {bucket : TokenBucket K} {now : K}

theorem level_le : level capacity rate bucket now ≤ capacity := min_le_left _ _

/-- Just after a refill the level is not more than the bucket holds. -/
theorem level_self_le : level capacity rate bucket bucket.lastRefill ≤ bucket.tokens := by
  unfold level
  rw [sub_self, zero_mul, add_zero]
  exact min_le_right _ _

/-- The tokens are none at least and the capacity at most. -/
def Within (capacity : K) (bucket : TokenBucket K) : Prop :=
  0 ≤ bucket.tokens ∧ bucket.tokens ≤ capacity

end Levels

variable {K : Type u} [Field K] [LinearOrder K] [IsStrictOrderedRing K] {capacity rate : K}
  {bucket : TokenBucket K} {now later : K}

/-- **No more flows in than the rate allows.** -/
theorem level_advance (hrate : 0 ≤ rate) (h : now ≤ later) :
    level capacity rate bucket later ≤ level capacity rate bucket now + rate * (later - now) := by
  have hflow : 0 ≤ rate * (later - now) := mul_nonneg hrate (sub_nonneg.mpr h)
  have hsplit : bucket.tokens + (later - bucket.lastRefill) * rate =
      bucket.tokens + (now - bucket.lastRefill) * rate + rate * (later - now) := by ring
  unfold level
  rw [hsplit, ← min_add_add_right]
  exact min_le_min_right _ (le_add_of_nonneg_right hflow)

theorem level_nonneg (hcapacity : 0 ≤ capacity) (hrate : 0 ≤ rate) (h : Within capacity bucket)
    (hnow : bucket.lastRefill ≤ now) : 0 ≤ level capacity rate bucket now :=
  le_min hcapacity (add_nonneg h.1 (mul_nonneg (sub_nonneg.mpr hnow) hrate))

theorem refill_within (hcapacity : 0 ≤ capacity) (hrate : 0 ≤ rate) (h : Within capacity bucket)
    (hnow : bucket.lastRefill ≤ now) : Within capacity (refill capacity rate bucket now) :=
  ⟨level_nonneg hcapacity hrate h hnow, level_le⟩

theorem take_within (h : Within capacity bucket) (hone : 1 ≤ bucket.tokens) :
    Within capacity bucket.take :=
  ⟨sub_nonneg.mpr hone, (sub_le_self _ zero_le_one).trans h.2⟩

end TokenBucket

end Nvecd.Lib
