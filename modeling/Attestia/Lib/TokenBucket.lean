import Mathlib.Algebra.Order.Field.Basic
import Mathlib.Algebra.Order.Ring.Rat
import Mathlib.Tactic.Linarith
import Mathlib.Tactic.Ring

/-!
# Token buckets

A bucket holds tokens up to a capacity and gains them at a rate. Its level at a time is what it
holds then; between two times a level rises by at most what the rate gives.
-/

namespace Attestia.Lib

structure TokenBucket (K : Type*) where
  tokens : K
  lastRefill : K

namespace TokenBucket

variable {K : Type*} [Field K] [LinearOrder K] (capacity rate : K)

def level (b : TokenBucket K) (t : K) : K := min capacity (b.tokens + (t - b.lastRefill) * rate)

/-- A bucket that is missing is full. -/
def levelOf (b : Option (TokenBucket K)) (t : K) : K :=
  b.elim capacity fun b => b.level capacity rate t

variable {capacity rate} {b : TokenBucket K} {s t : K}

theorem levelOf_le_capacity {b : Option (TokenBucket K)} :
    levelOf capacity rate b t ≤ capacity := by
  cases b with
  | none => exact le_rfl
  | some b => exact min_le_left _ _

theorem level_self (tokens : K) (h : tokens ≤ capacity) :
    level capacity rate ⟨tokens, t⟩ t = tokens := by
  show min capacity (tokens + (t - t) * rate) = tokens
  rw [sub_self, zero_mul, add_zero, min_eq_right h]

variable [IsStrictOrderedRing K]

/-- A refill in between makes no difference. -/
theorem level_refill (hrate : 0 ≤ rate) (hst : s ≤ t) :
    level capacity rate ⟨b.level capacity rate s, s⟩ t = b.level capacity rate t := by
  have hgain : 0 ≤ (t - s) * rate := mul_nonneg (sub_nonneg.mpr hst) hrate
  have hsplit : b.tokens + (t - b.lastRefill) * rate =
      b.tokens + (s - b.lastRefill) * rate + (t - s) * rate := by ring
  show min capacity (min capacity (b.tokens + (s - b.lastRefill) * rate) + (t - s) * rate) =
    min capacity (b.tokens + (t - b.lastRefill) * rate)
  rw [hsplit, min_add, ← min_assoc, min_eq_left (le_add_of_nonneg_right hgain)]

theorem levelOf_le_add {b : Option (TokenBucket K)} (hrate : 0 ≤ rate) (hst : s ≤ t) :
    levelOf capacity rate b t ≤ levelOf capacity rate b s + (t - s) * rate := by
  cases b with
  | none => exact le_add_of_nonneg_right (mul_nonneg (sub_nonneg.mpr hst) hrate)
  | some b =>
    show b.level capacity rate t ≤ b.level capacity rate s + (t - s) * rate
    rw [← level_refill hrate hst]
    exact min_le_right _ _

/-- A bucket that has had the time for a full refill is full. -/
theorem level_eq_capacity (hrate : 0 < rate) (htokens : min 0 capacity ≤ b.tokens)
    (hrefill : b.lastRefill ≤ t) (hidle : capacity / rate ≤ t - b.lastRefill) :
    b.level capacity rate t = capacity := by
  have hgain : max 0 capacity ≤ (t - b.lastRefill) * rate := by
    apply max_le
    · exact mul_nonneg (sub_nonneg.mpr hrefill) hrate.le
    · exact (div_le_iff₀ hrate).mp hidle
  have hsum := add_le_add htokens hgain
  rw [min_add_max, zero_add] at hsum
  exact min_eq_left hsum

theorem le_levelOf {b : Option (TokenBucket K)} (hrate : 0 ≤ rate)
    (hb : ∀ a ∈ b, min 0 capacity ≤ a.tokens ∧ a.lastRefill ≤ t) :
    min 0 capacity ≤ levelOf capacity rate b t := by
  cases b with
  | none => exact min_le_right _ _
  | some b =>
    obtain ⟨htokens, hrefill⟩ := hb b rfl
    apply le_min (min_le_right _ _)
    exact le_add_of_le_of_nonneg htokens (mul_nonneg (sub_nonneg.mpr hrefill) hrate)

end TokenBucket

end Attestia.Lib
