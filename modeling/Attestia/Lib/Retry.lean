import Attestia.Lib.Effect

/-!
# Computations that are tried again

A computation that throws is run again from the state that it has left. What holds in the states
that failed attempts leave holds in the state that the last attempt starts from.
-/

namespace Attestia.Lib.Effect

variable {σ ε α : Type}

/-- What follows an attempt: its result, or `next` from the state that a retryable throw leaves. -/
def afterAttempt (retryable : ε → Bool) (next : Effect σ ε α) :
    Except ε α × σ → Except ε α × σ
  | (.ok a, t) => (.ok a, t)
  | (.error e, t) => if retryable e then outcome next t else (.error e, t)

/-- The computation of attempt `attempt`, and at most `n` more while what is thrown is retryable. -/
def retrying (retryable : ε → Bool) (f : ℕ → Effect σ ε α) : ℕ → ℕ → Effect σ ε α
  | 0, attempt => f attempt
  | n + 1, attempt => fun s =>
    afterAttempt retryable (retrying retryable f n (attempt + 1)) (outcome (f attempt) s)

variable {retryable : ε → Bool} {f : ℕ → Effect σ ε α} {n attempt : ℕ} {s t : σ} {a : α}

theorem outcome_retrying_succ (retryable : ε → Bool) (f : ℕ → Effect σ ε α) (n attempt : ℕ)
    (s : σ) :
    outcome (retrying retryable f (n + 1) attempt) s =
      afterAttempt retryable (retrying retryable f n (attempt + 1)) (outcome (f attempt) s) := rfl

theorem outcome_retrying_of_ok (h : outcome (f attempt) s = (.ok a, t)) :
    outcome (retrying retryable f n attempt) s = (.ok a, t) := by
  cases n with
  | zero => exact h
  | succ n =>
    rw [outcome_retrying_succ, h]
    rfl

theorem outcome_retrying_of_error {e : ε} (h : outcome (f attempt) s = (.error e, t))
    (he : retryable e = true) :
    outcome (retrying retryable f (n + 1) attempt) s =
      outcome (retrying retryable f n (attempt + 1)) t := by
  rw [outcome_retrying_succ, h]
  exact if_pos he

/-- The rule of the invariant: `P` holds where the attempt starts that returns. -/
theorem retrying_ok {P : ℕ → σ → Prop}
    (hstep : ∀ i s e t, P i s → outcome (f i) s = (.error e, t) → P (i + 1) t) (hP : P attempt s)
    (h : outcome (retrying retryable f n attempt) s = (.ok a, t)) :
    ∃ i u, P i u ∧ outcome (f i) u = (.ok a, t) := by
  induction n generalizing attempt s with
  | zero => exact ⟨attempt, s, hP, h⟩
  | succ n ih =>
    rcases hout : outcome (f attempt) s with ⟨e | b, u⟩
    · by_cases he : retryable e = true
      · rw [outcome_retrying_of_error hout he] at h
        exact ih (hstep attempt s e u hP hout) h
      · rw [outcome_retrying_succ, hout, afterAttempt, if_neg he] at h
        cases h
    · rw [outcome_retrying_of_ok hout] at h
      exact ⟨attempt, s, hP, hout.trans h⟩

end Attestia.Lib.Effect
