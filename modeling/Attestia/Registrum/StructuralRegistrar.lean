import Attestia.Lib.JsMap
import Attestia.Lib.System
import Attestia.Registrum.Invariants
import Attestia.Registrum.Loader

/-!
# The registrar

`structural-registrar.ts`: a transition is judged by one engine or by both, and an accepted
one is a new version of its state. A call returns the registrar it leaves behind also when
it throws.
-/

namespace Attestia.Registrum

open Lib JsonNumber

/-- The mode of a registrar, with the invariants that it needs. -/
inductive Engine where
  | legacy (invariants : List Invariant)
  | registry (compiledRegistry : CompiledInvariantRegistry)
  | dual (compiledRegistry : CompiledInvariantRegistry) (invariants : List Invariant)

inductive ParityStatus where
  | AGREED
  | HALTED
  deriving DecidableEq

structure RegisteredState where
  id : StateID
  parentId : Option StateID
  orderIndex : ℤ
  versionKey : JsString
  parentKey : Option JsString
  deriving DecidableEq

def makeVersionKey (id : StateID) (orderIndex : ℤ) : JsString :=
  id ++ js "#" ++ indexString orderIndex

structure Registrar where
  engine : Engine
  versionsByKey : JsMap JsString RegisteredState
  latestById : JsMap StateID RegisteredState
  currentOrderIndex : ℤ
  lastParityStatus : Option ParityStatus

inductive VerdictKind where
  | accepted
  | rejected
  | halted
  deriving DecidableEq

def VerdictKind.text : VerdictKind → JsString
  | accepted => js "accepted"
  | rejected => js "rejected"
  | halted => js "halted"

structure NormalizedVerdict where
  kind : VerdictKind
  invariantIds : List JsString
  deriving DecidableEq

structure Evaluation where
  verdict : NormalizedVerdict
  result : RegistrationResult
  appliedInvariants : List JsString

/-- What `register` throws. -/
inductive RegisterError where
  | parityViolation (registryOutcome legacyOutcome : JsString)
  | appendOnlyViolation (versionKey : JsString)
  | typeError
  deriving DecidableEq

namespace Registrar

def new (engine : Engine) : Registrar := ⟨engine, .empty, .empty, 0, none⟩

/-! ## Evaluation -/

def registrationOperands (r : Registrar) (transition : Transition) : ViolationOperands :=
  ⟨some transition.fromId, some transition.toState.id, some (isRootState transition.toState),
    some r.currentOrderIndex⟩

def makeViolation (invariantId description : JsString) (failureMode : FailureMode)
    (operands : ViolationOperands) : InvariantViolation :=
  let enriched := enrichViolation invariantId description operands
  ⟨invariantId, match failureMode with | .halt => .HALT | .reject => .REJECT, enriched.message,
    enriched.details⟩

def buildRegistrationOutcome (r : Registrar) (violations : List InvariantViolation)
    (shouldHalt : Bool) (appliedInvariants : List JsString) (transition : Transition) :
    Evaluation :=
  if violations ≠ [] then
    let finalViolations :=
      if shouldHalt then
        violations.map fun v =>
          match v.classification with
          | .HALT => { v with message := js "[HALT] " ++ v.message }
          | .REJECT => v
      else violations
    ⟨⟨if shouldHalt then .halted else .rejected, Json.sortStrings (violations.map (·.invariantId))⟩,
      .rejected finalViolations, appliedInvariants⟩
  else
    ⟨⟨.accepted, []⟩, .accepted transition.toState.id r.currentOrderIndex appliedInvariants,
      appliedInvariants⟩

def legacyInput (r : Registrar) (transition : Transition) (invariant : Invariant) : InvariantInput :=
  match invariant.scope with
  | .state => .state transition.toState
  | .transition => .transition transition
  | .registration => .registration transition r.latestById.keys r.currentOrderIndex

def evaluateLegacyRegistration (r : Registrar) (invariants : List Invariant)
    (transition : Transition) : Evaluation :=
  let violated := invariants.filter fun i => !i.predicate (r.legacyInput transition i)
  r.buildRegistrationOutcome
    (violated.map fun i =>
      makeViolation i.id i.description i.failureMode (r.registrationOperands transition))
    (violated.any fun i => i.failureMode = .halt) (invariants.map (·.id)) transition

def buildEvaluationContext (r : Registrar) (transition : Transition) : EvaluationContext where
  state := transition.toState
  transition := transition
  containsState id := r.latestById.has id
  maxOrderIndex := .finite (roundDouble (r.currentOrderIndex - 1))
  computeOrderIndex _ := .finite r.currentOrderIndex
  ordering := some (.finite r.currentOrderIndex)

/-- The invariants whose predicates are false. -/
def violatedInvariants (context : EvaluationContext) :
    List CompiledInvariant → Except TypeError (List CompiledInvariant)
  | [] => .ok []
  | i :: is => do
    let passed ← evaluatePredicate i.ast context
    let violated ← violatedInvariants context is
    return if passed then violated else i :: violated

def evaluateRegistryRegistration (r : Registrar) (registry : CompiledInvariantRegistry)
    (transition : Transition) : Except TypeError Evaluation := do
  let violated ← violatedInvariants (r.buildEvaluationContext transition) registry.invariants
  return r.buildRegistrationOutcome
    (violated.map fun i =>
      makeViolation i.id i.description i.failureMode (r.registrationOperands transition))
    (violated.any fun i => i.failureMode = .halt) (registry.invariants.map (·.id)) transition

/-! ## Registration -/

def acceptTransition (r : Registrar) (transition : Transition) (appliedInvariants : List JsString) :
    Registrar × Except RegisterError RegistrationResult :=
  let orderIndex := r.currentOrderIndex
  let r := { r with currentOrderIndex := roundDouble (r.currentOrderIndex + 1) }
  let id := transition.toState.id
  let versionKey := makeVersionKey id orderIndex
  let parentKey := (transition.fromId.bind r.latestById.get?).map RegisteredState.versionKey
  let registeredState : RegisteredState :=
    ⟨id, transition.fromId, orderIndex, versionKey, parentKey⟩
  -- the cursor has moved before the guard throws
  if r.versionsByKey.has versionKey then (r, .error (.appendOnlyViolation versionKey))
  else
    ({ r with
        versionsByKey := r.versionsByKey.set versionKey registeredState,
        latestById := r.latestById.set id registeredState },
      .ok (.accepted id orderIndex appliedInvariants))

/-- The end of a registration that has been evaluated. -/
def conclude (r : Registrar) (transition : Transition) (evaluation : Evaluation) :
    Registrar × Except RegisterError RegistrationResult :=
  if evaluation.verdict.kind = .accepted then
    r.acceptTransition transition evaluation.appliedInvariants
  else (r, .ok evaluation.result)

def fmt (v : NormalizedVerdict) : JsString :=
  v.kind.text ++
    if v.invariantIds = [] then [] else js "[" ++ joinWith "," v.invariantIds ++ js "]"

def registerWithLegacy (r : Registrar) (invariants : List Invariant) (transition : Transition) :
    Registrar × Except RegisterError RegistrationResult :=
  r.conclude transition (r.evaluateLegacyRegistration invariants transition)

def registerWithRegistry (r : Registrar) (registry : CompiledInvariantRegistry)
    (transition : Transition) : Registrar × Except RegisterError RegistrationResult :=
  match r.evaluateRegistryRegistration registry transition with
  | .error _ => (r, .error .typeError)
  | .ok evaluation => r.conclude transition evaluation

/-- Both engines; the verdict of the registry counts where they agree. -/
def registerWithDualWitness (r : Registrar) (registry : CompiledInvariantRegistry)
    (invariants : List Invariant) (transition : Transition) :
    Registrar × Except RegisterError RegistrationResult :=
  match r.evaluateRegistryRegistration registry transition with
  | .error _ => (r, .error .typeError)
  | .ok registry =>
    let legacy := r.evaluateLegacyRegistration invariants transition
    if registry.verdict ≠ legacy.verdict then
      ({ r with lastParityStatus := some .HALTED },
        .error (.parityViolation (fmt registry.verdict) (fmt legacy.verdict)))
    else { r with lastParityStatus := some .AGREED }.conclude transition registry

def register (r : Registrar) (transition : Transition) :
    Registrar × Except RegisterError RegistrationResult :=
  match r.engine with
  | .legacy invariants => r.registerWithLegacy invariants transition
  | .registry registry => r.registerWithRegistry registry transition
  | .dual registry invariants => r.registerWithDualWitness registry invariants transition

/-! ## Lineage -/

/-- Why a walk along the versions has stopped. -/
inductive LineageEnd where
  | root
  | missing
  | cycle
  | unfinished
  deriving DecidableEq

/-- The loop of `getLineage`, with the versions it visits and its end. -/
def lineageWalk (r : Registrar) :
    ℕ → List JsString → RegisteredState → List RegisteredState × LineageEnd
  | 0, _, _ => ([], .unfinished)
  | fuel + 1, visited, current =>
    if current.versionKey ∈ visited then ([], .cycle)
    else
      match current.parentKey with
      | none => ([current], .root)
      | some parentKey =>
        match r.versionsByKey.get? parentKey with
        | none => ([current], .missing)
        | some parent =>
          let walk := lineageWalk r fuel (current.versionKey :: visited) parent
          (current :: walk.1, walk.2)

/-- The walk from the latest version of a registered id; every version is visited at most once. -/
def lineageFrom (r : Registrar) (latest : RegisteredState) : List RegisteredState × LineageEnd :=
  r.lineageWalk (r.versionsByKey.entries.length + 2) [] latest

def getLineage (r : Registrar) (stateId : StateID) : List StateID :=
  match r.latestById.get? stateId with
  | none => []
  | some latest => (r.lineageFrom latest).1.map RegisteredState.id

/-- The loop of `resolveSnapshotParentId`. -/
def resolveWalk (r : Registrar) (id : StateID) :
    ℕ → List JsString → RegisteredState → Option StateID
  | 0, _, _ => none
  | fuel + 1, visited, current =>
    if current.versionKey ∈ visited then none
    else
      match current.parentId with
      | none => none
      | some parentId =>
        if parentId ≠ id then some parentId
        else
          match current.parentKey.bind r.versionsByKey.get? with
          | none => none
          | some parent => resolveWalk r id fuel (current.versionKey :: visited) parent

def resolveSnapshotParentId (r : Registrar) (entry : RegisteredState) : Option StateID :=
  r.resolveWalk entry.id (r.versionsByKey.entries.length + 2) [] entry

end Registrar

end Attestia.Registrum
