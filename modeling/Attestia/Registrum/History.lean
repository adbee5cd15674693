import Attestia.Lib.Except
import Attestia.Registrum.StructuralRegistrar

/-!
# Runs of the registrar

What a call of `register` can do, and what every run of calls keeps.
-/

namespace Attestia.Registrum

open Lib

/-- The order index of an accepted transition. -/
def acceptedIndex : Except RegisterError RegistrationResult → Option ℤ
  | .ok (.accepted _ orderIndex _) => some orderIndex
  | _ => none

namespace Registrar

/-- The version that an accepted transition becomes. -/
def nextVersion (r : Registrar) (t : Transition) : RegisteredState :=
  ⟨t.toState.id, t.fromId, r.currentOrderIndex, makeVersionKey t.toState.id r.currentOrderIndex,
    (t.fromId.bind r.latestById.get?).map RegisteredState.versionKey⟩

/-- The registrar after a call that reaches the guard of the keys and is stopped there. -/
def advanced (r : Registrar) : Registrar :=
  { r with currentOrderIndex := roundDouble (r.currentOrderIndex + 1) }

/-- The registrar after an accepted transition. -/
def appended (r : Registrar) (t : Transition) : Registrar :=
  { r.advanced with
    versionsByKey := r.versionsByKey.set (r.nextVersion t).versionKey (r.nextVersion t),
    latestById := r.latestById.set t.toState.id (r.nextVersion t) }

def withStatus (r : Registrar) (status : Option ParityStatus) : Registrar :=
  { r with lastParityStatus := status }

/-! ## Decisions -/

/-- What the engines say of a transition, with the parity status they record. -/
inductive Decision where
  | refuse (recorded : Option ParityStatus) (result : Except RegisterError RegistrationResult)
  | accept (recorded : Option ParityStatus) (appliedInvariants : List JsString)

def Decision.ofEvaluation (recorded : Option ParityStatus) (evaluation : Evaluation) : Decision :=
  if evaluation.verdict.kind = .accepted then .accept recorded evaluation.appliedInvariants
  else .refuse recorded (.ok evaluation.result)

/-- The decision on a transition, which reads the engine, the cursor and the registered ids. -/
def decision (r : Registrar) (t : Transition) : Decision :=
  match r.engine with
  | .legacy invariants => .ofEvaluation none (r.evaluateLegacyRegistration invariants t)
  | .registry registry =>
    match r.evaluateRegistryRegistration registry t with
    | .error _ => .refuse none (.error .typeError)
    | .ok evaluation => .ofEvaluation none evaluation
  | .dual registry invariants =>
    match r.evaluateRegistryRegistration registry t with
    | .error _ => .refuse none (.error .typeError)
    | .ok evaluation =>
      let legacy := r.evaluateLegacyRegistration invariants t
      if evaluation.verdict ≠ legacy.verdict then
        .refuse (some .HALTED) (.error (.parityViolation (fmt evaluation.verdict)
          (fmt legacy.verdict)))
      else .ofEvaluation (some .AGREED) evaluation

def record (r : Registrar) : Option ParityStatus → Registrar
  | none => r
  | some status => r.withStatus (some status)

def carryOut (r : Registrar) (t : Transition) :
    Decision → Registrar × Except RegisterError RegistrationResult
  | .refuse recorded result => (r.record recorded, result)
  | .accept recorded applied => (r.record recorded).acceptTransition t applied

theorem carryOut_ofEvaluation (r : Registrar) (t : Transition) (recorded : Option ParityStatus)
    (evaluation : Evaluation) :
    r.carryOut t (.ofEvaluation recorded evaluation) =
      (r.record recorded).conclude t evaluation := by
  rw [Decision.ofEvaluation, conclude]
  split <;> rfl

/-- A call carries out the decision. -/
theorem register_eq_carryOut (r : Registrar) (t : Transition) :
    r.register t = r.carryOut t (r.decision t) := by
  rw [register, decision]
  cases r.engine with
  | legacy invariants => exact (r.carryOut_ofEvaluation t none _).symm
  | registry registry =>
    dsimp only
    rw [registerWithRegistry]
    cases r.evaluateRegistryRegistration registry t with
    | error e => rfl
    | ok evaluation => exact (r.carryOut_ofEvaluation t none _).symm
  | dual registry invariants =>
    dsimp only
    rw [registerWithDualWitness]
    cases r.evaluateRegistryRegistration registry t with
    | error e => rfl
    | ok evaluation =>
      dsimp only
      split
      · rfl
      · exact (r.carryOut_ofEvaluation t (some .AGREED) _).symm

theorem acceptedIndex_buildRegistrationOutcome {r : Registrar} {vs : List InvariantViolation}
    {halt : Bool} {applied : List JsString} {t : Transition}
    (h : (r.buildRegistrationOutcome vs halt applied t).verdict.kind ≠ .accepted) :
    acceptedIndex (.ok (r.buildRegistrationOutcome vs halt applied t).result) = none := by
  unfold buildRegistrationOutcome at h ⊢
  split
  · rfl
  · rename_i hvs
    rw [if_neg hvs] at h
    exact absurd rfl h

theorem acceptedIndex_evaluateRegistryRegistration {r : Registrar} {t : Transition}
    {registry : CompiledInvariantRegistry} {evaluation : Evaluation}
    (h : r.evaluateRegistryRegistration registry t = .ok evaluation)
    (hkind : evaluation.verdict.kind ≠ .accepted) :
    acceptedIndex (.ok evaluation.result) = none := by
  obtain ⟨violated, -, h⟩ := bind_eq_ok.mp h
  cases h
  exact acceptedIndex_buildRegistrationOutcome hkind

theorem ofEvaluation_refuse {recorded recorded' : Option ParityStatus} {evaluation : Evaluation}
    {result : Except RegisterError RegistrationResult}
    (hrejected : evaluation.verdict.kind ≠ .accepted →
      acceptedIndex (.ok evaluation.result) = none)
    (h : Decision.ofEvaluation recorded evaluation = .refuse recorded' result) :
    acceptedIndex result = none := by
  rw [Decision.ofEvaluation] at h
  split at h
  · cases h
  · rename_i hkind
    cases h
    exact hrejected hkind

/-- A refusal accepts nothing. -/
theorem acceptedIndex_of_decision {r : Registrar} {t : Transition}
    {recorded : Option ParityStatus} {result : Except RegisterError RegistrationResult}
    (h : r.decision t = .refuse recorded result) : acceptedIndex result = none := by
  unfold decision at h
  split at h
  · exact ofEvaluation_refuse acceptedIndex_buildRegistrationOutcome h
  · split at h
    · cases h
      rfl
    · rename_i hevaluation
      exact ofEvaluation_refuse (acceptedIndex_evaluateRegistryRegistration hevaluation) h
  · split at h
    · cases h
      rfl
    · rename_i hevaluation
      dsimp only at h
      split at h
      · cases h
        rfl
      · exact ofEvaluation_refuse (acceptedIndex_evaluateRegistryRegistration hevaluation) h

/-! ## Outcomes -/

/-- What a call can do. Its verdict decides whether it reaches the guard of the keys. -/
inductive Outcome (r : Registrar) (t : Transition) : Prop where
  | refused (status : Option ParityStatus) (h : (r.register t).1 = r.withStatus status)
      (hindex : acceptedIndex (r.register t).2 = none)
  | guarded (status : Option ParityStatus) (h : (r.register t).1 = r.advanced.withStatus status)
      (hindex : acceptedIndex (r.register t).2 = none)
      (hkey : (r.nextVersion t).versionKey ∈ r.versionsByKey.keys)
  | accepted (status : Option ParityStatus) (h : (r.register t).1 = (r.appended t).withStatus status)
      (hindex : acceptedIndex (r.register t).2 = some r.currentOrderIndex)
      (hkey : (r.nextVersion t).versionKey ∉ r.versionsByKey.keys)

theorem exists_record (r : Registrar) (recorded : Option ParityStatus) :
    ∃ status, r.record recorded = r.withStatus status := by
  cases recorded with
  | none => exact ⟨r.lastParityStatus, rfl⟩
  | some status => exact ⟨some status, rfl⟩

/-- The end of a call that accepts, by whether its key is new. -/
theorem acceptTransition_withStatus (r : Registrar) (status : Option ParityStatus) (t : Transition)
    (applied : List JsString) :
    (r.withStatus status).acceptTransition t applied =
      if (r.nextVersion t).versionKey ∈ r.versionsByKey.keys then
        (r.advanced.withStatus status,
          .error (.appendOnlyViolation (r.nextVersion t).versionKey))
      else
        ((r.appended t).withStatus status,
          .ok (.accepted t.toState.id r.currentOrderIndex applied)) := by
  rw [acceptTransition]
  simp only [← JsMap.has_eq_true]
  rfl

theorem outcome_register (r : Registrar) (t : Transition) : Outcome r t := by
  have h := r.register_eq_carryOut t
  cases hdecision : r.decision t with
  | refuse recorded result =>
    obtain ⟨status, hstatus⟩ := r.exists_record recorded
    rw [hdecision, carryOut, hstatus] at h
    exact .refused status (by rw [h]) (by rw [h]; exact acceptedIndex_of_decision hdecision)
  | accept recorded applied =>
    obtain ⟨status, hstatus⟩ := r.exists_record recorded
    rw [hdecision, carryOut, hstatus, acceptTransition_withStatus] at h
    split at h
    · rename_i hkey
      exact .guarded status (by rw [h]) (by rw [h]; rfl) hkey
    · rename_i hkey
      exact .accepted status (by rw [h]) (by rw [h]; rfl) hkey

end Registrar

/-- The calls of `register` on one registrar. -/
def registrarSystem (engine : Engine) : System Registrar Transition where
  init := (· = .new engine)
  next r t := some (r.register t).1

namespace Registrar

theorem engine_register (r : Registrar) (t : Transition) : (r.register t).1.engine = r.engine := by
  rcases r.outcome_register t with ⟨_, h, _⟩ | ⟨_, h, _, _⟩ | ⟨_, h, _, _⟩ <;> rw [h] <;> rfl

theorem currentOrderIndex_register (r : Registrar) (t : Transition) :
    (r.register t).1.currentOrderIndex = r.currentOrderIndex ∨
      (r.register t).1.currentOrderIndex = roundDouble (r.currentOrderIndex + 1) := by
  rcases r.outcome_register t with ⟨_, h, _⟩ | ⟨_, h, _, _⟩ | ⟨_, h, _, _⟩ <;> rw [h]
  · exact .inl rfl
  · exact .inr rfl
  · exact .inr rfl

/-- The cursor counts, and it stops at the bound of the exact integers. -/
def InRange (r : Registrar) : Prop := 0 ≤ r.currentOrderIndex ∧ r.currentOrderIndex ≤ safeBound

theorem roundDouble_safeBound_add_one : roundDouble (safeBound + 1) = safeBound := by
  decide +kernel

theorem InRange.advance {n : ℤ} (h : 0 ≤ n ∧ n ≤ safeBound) :
    0 ≤ roundDouble (n + 1) ∧ roundDouble (n + 1) ≤ safeBound := by
  rcases h.2.lt_or_eq with hlt | rfl
  · rw [roundDouble_add_one h.1 hlt]
    omega
  · rw [roundDouble_safeBound_add_one]
    exact ⟨by decide, le_rfl⟩

theorem InRange.register {r : Registrar} (h : r.InRange) (t : Transition) :
    (r.register t).1.InRange := by
  rcases r.currentOrderIndex_register t with hindex | hindex
  · rw [InRange, hindex]
    exact h
  · rw [InRange, hindex]
    exact InRange.advance h

theorem engine_of_reachable {engine : Engine} {r : Registrar}
    (hr : (registrarSystem engine).Reachable r) : r.engine = engine := by
  apply hr.invariant (I := fun r => r.engine = engine)
  · intro r hinit
    rw [hinit]
    rfl
  · intro r t r' ih hnext
    cases hnext
    rw [engine_register, ih]

theorem inRange_of_reachable {engine : Engine} {r : Registrar}
    (hr : (registrarSystem engine).Reachable r) : r.InRange := by
  apply hr.invariant (I := InRange)
  · intro r hinit
    rw [hinit]
    exact ⟨le_rfl, show (0 : ℤ) ≤ safeBound by decide⟩
  · intro r t r' ih hnext
    cases hnext
    exact ih.register t

end Registrar

end Attestia.Registrum
