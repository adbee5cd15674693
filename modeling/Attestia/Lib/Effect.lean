import Attestia.Lib.Except

/-!
# Computations that write and can throw

A throw keeps what was written before it: an outcome holds the state in both cases. A
computation is atomic in a state where a throw leaves that state as it was.
-/

namespace Attestia.Lib

abbrev Effect (σ ε α : Type) := ExceptT ε (StateM σ) α

namespace Effect

variable {σ ε α β : Type}

/-- What a computation returns or throws, and the state that it leaves. -/
def outcome (x : Effect σ ε α) (s : σ) : Except ε α × σ := x.run.run s

/-- A check writes nothing. -/
def check (x : Except ε α) : Effect σ ε α := fun s => (x, s)

/-- The outcome of a computation that writes only where it returns. -/
def settle (s : σ) : Except ε (σ × α) → Except ε α × σ
  | .ok (t, a) => (.ok a, t)
  | .error e => (.error e, s)

/-- A computation on a part of a state. -/
def zoom {τ : Type} (get : τ → σ) (set : σ → τ → τ) (x : Effect σ ε α) : Effect τ ε α := fun t =>
  ((outcome x (get t)).1, set (outcome x (get t)).2 t)

/-- The errors of a computation, as those of another one. -/
def mapError {δ : Type} (f : ε → δ) (x : Effect σ ε α) : Effect σ δ α := fun s =>
  ((outcome x s).1.mapError f, (outcome x s).2)

@[simp] theorem outcome_pure (a : α) (s : σ) :
    outcome (pure a : Effect σ ε α) s = (.ok a, s) := rfl

@[simp] theorem outcome_throw (e : ε) (s : σ) :
    outcome (throw e : Effect σ ε α) s = (.error e, s) := rfl

@[simp] theorem outcome_check (x : Except ε α) (s : σ) :
    outcome (check x : Effect σ ε α) s = (x, s) := rfl

@[simp] theorem outcome_modify (f : σ → σ) (s : σ) :
    outcome (modify f : Effect σ ε PUnit) s = (.ok ⟨⟩, f s) := rfl

@[simp] theorem outcome_zoom {τ : Type} (get : τ → σ) (set : σ → τ → τ) (x : Effect σ ε α) (t : τ) :
    outcome (zoom get set x) t = ((outcome x (get t)).1, set (outcome x (get t)).2 t) := rfl

theorem outcome_bind (x : Effect σ ε α) (f : α → Effect σ ε β) (s : σ) :
    outcome (x >>= f) s = match outcome x s with
      | (.ok a, t) => outcome (f a) t
      | (.error e, t) => (.error e, t) := by
  unfold outcome
  rw [ExceptT.run_bind, StateT.run_bind]
  rcases x.run.run s with ⟨_ | a, t⟩ <;> rfl

/-- A computation that returns has returned in its parts. -/
theorem outcome_bind_eq_ok {x : Effect σ ε α} {f : α → Effect σ ε β} {s : σ} {b : β}
    (h : (outcome (x >>= f) s).1 = .ok b) :
    ∃ a t, outcome x s = (.ok a, t) ∧ (outcome (f a) t).1 = .ok b := by
  rw [outcome_bind] at h
  rcases hx : outcome x s with ⟨_ | a, t⟩
  · rw [hx] at h
    cases h
  · rw [hx] at h
    exact ⟨a, t, rfl, h⟩

theorem outcome_bind_eq_ok_iff {x : Effect σ ε α} {f : α → Effect σ ε β} {s s' : σ} {b : β} :
    outcome (x >>= f) s = (.ok b, s') ↔
      ∃ a t, outcome x s = (.ok a, t) ∧ outcome (f a) t = (.ok b, s') := by
  rw [outcome_bind]
  rcases outcome x s with ⟨e | a, t⟩ <;> simp

theorem outcome_map (f : α → β) (x : Effect σ ε α) (s : σ) :
    outcome (f <$> x) s = ((outcome x s).1.map f, (outcome x s).2) := by
  rw [map_eq_pure_bind, outcome_bind]
  rcases outcome x s with ⟨e | a, t⟩ <;> rfl

theorem outcome_map_eq_ok_iff {x : Effect σ ε α} {f : α → β} {s s' : σ} {b : β} :
    outcome (f <$> x) s = (.ok b, s') ↔ ∃ a, outcome x s = (.ok a, s') ∧ b = f a := by
  rw [outcome_map]
  rcases outcome x s with ⟨e | a, t⟩ <;> simp [Except.map, eq_comm, and_comm]

theorem outcome_zoom_eq_ok_iff {τ : Type} {get : τ → σ} {set : σ → τ → τ} {x : Effect σ ε α}
    {t t' : τ} {a : α} : outcome (zoom get set x) t = (.ok a, t') ↔
      ∃ s, outcome x (get t) = (.ok a, s) ∧ t' = set s t := by
  rw [outcome_zoom]
  rcases outcome x (get t) with ⟨e | b, s⟩ <;> simp [eq_comm]

theorem outcome_mapError {δ : Type} (f : ε → δ) (x : Effect σ ε α) (s : σ) :
    outcome (mapError f x) s = ((outcome x s).1.mapError f, (outcome x s).2) := rfl

theorem outcome_mapError_eq_ok_iff {δ : Type} {f : ε → δ} {x : Effect σ ε α} {s s' : σ} {a : α} :
    outcome (mapError f x) s = (.ok a, s') ↔ outcome x s = (.ok a, s') := by
  rw [outcome_mapError]
  rcases outcome x s with ⟨e | b, t⟩ <;> simp [Except.mapError]

theorem outcome_get_bind (f : σ → Effect σ ε β) (s : σ) :
    outcome (get >>= f) s = outcome (f s) s := rfl

theorem outcome_bind_of_ok {x : Effect σ ε α} {s t : σ} {a : α} (h : outcome x s = (.ok a, t))
    (f : α → Effect σ ε β) : outcome (x >>= f) s = outcome (f a) t := by
  rw [outcome_bind, h]

theorem outcome_bind_of_error {x : Effect σ ε α} {s t : σ} {e : ε}
    (h : outcome x s = (.error e, t)) (f : α → Effect σ ε β) :
    outcome (x >>= f) s = (.error e, t) := by
  rw [outcome_bind, h]

theorem outcome_check_bind (x : Except ε α) (f : α → Effect σ ε β) (s : σ) :
    outcome (check x >>= f) s = match x with
      | .ok a => outcome (f a) s
      | .error e => (.error e, s) := by
  rw [outcome_bind, outcome_check]
  cases x <;> rfl

theorem outcome_throwIf_bind (c : Prop) [Decidable c] (e : ε) (f : Unit → Effect σ ε β) (s : σ) :
    outcome (check (throwIf c e) >>= f) s = if c then (.error e, s) else outcome (f ()) s := by
  rw [outcome_check_bind, throwIf]
  by_cases hc : c
  · rw [if_pos hc, if_pos hc]
  · rw [if_neg hc, if_neg hc]

/-- A check before a computation that writes only where it returns. -/
theorem outcome_check_bind_eq_settle {x : Except ε α} {f : α → Effect σ ε β}
    {g : α → Except ε (σ × β)} {s : σ}
    (h : ∀ a, x = .ok a → outcome (f a) s = settle s (g a)) :
    outcome (check x >>= f) s = settle s (x >>= g) := by
  rw [outcome_check_bind]
  cases x with
  | error e => rfl
  | ok a => exact h a rfl

/-- A computation that changes nothing is a check. -/
theorem outcome_bind_of_check {x : Effect σ ε α} {s : σ} {y : Except ε α}
    (h : outcome x s = (y, s)) (f : α → Effect σ ε β) :
    outcome (x >>= f) s = outcome (check y >>= f) s := by
  rw [outcome_bind, outcome_bind, h, outcome_check]

/-- A loop of checks is a check. -/
theorem outcome_forM_check {f : α → Effect σ ε PUnit} {g : α → Except ε PUnit} {l : List α} {s : σ}
    (h : ∀ a ∈ l, outcome (f a) s = (g a, s)) : outcome (forM l f) s = (forM l g, s) := by
  induction l with
  | nil => rfl
  | cons a l ih =>
    rw [List.forM_cons, List.forM_cons, outcome_bind_of_check (h a (.head _)), outcome_check_bind]
    cases g a with
    | error e => rfl
    | ok u => exact ih fun b hb => h b (.tail _ hb)

/-- A loop of writes is a fold. -/
theorem outcome_forM_modify (f : α → σ → σ) (l : List α) (s : σ) :
    outcome (forM l fun a => (modify (f a) : Effect σ ε PUnit)) s =
      (.ok ⟨⟩, l.foldl (fun s a => f a s) s) := by
  induction l generalizing s with
  | nil => rfl
  | cons a l ih => rw [List.forM_cons, outcome_bind_of_ok (outcome_modify (f a) s), ih, List.foldl_cons]

end Effect

end Attestia.Lib
