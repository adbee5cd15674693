import Attestia.Registrum.Types

/-!
# The initial invariants

`invariants.ts`: the eleven rules of the legacy engine.
-/

namespace Attestia.Registrum

open Lib

def getState : InvariantInput → State
  | .state state => state
  | .transition transition => transition.toState
  | .registration transition _ _ => transition.toState

def getTransition : InvariantInput → Option Transition
  | .state _ => none
  | .transition transition => some transition
  | .registration transition _ _ => some transition

def isRootState (state : State) : Bool := (state.struct (js "isRoot")).same (.boolean true)

/-- A state whose structure says that it is a root. -/
def rootState (id : StateID) : State :=
  ⟨id, fun key => if key = js "isRoot" then .boolean true else .undefined⟩

/-- A state whose structure says nothing. -/
def plainState (id : StateID) : State := ⟨id, fun _ => .undefined⟩

theorem isRootState_rootState (id : StateID) : isRootState (rootState id) = true := by
  simp [isRootState, rootState, JsValue.same]

def identityImmutableInvariant : Invariant where
  id := js "state.identity.immutable"
  scope := .transition
  failureMode := .reject
  description := js ("A registered State's identity must be immutable. " ++
    "A Transition may not alter the identity of an existing State.")
  predicate input :=
    match getTransition input with
    | none => true
    | some transition =>
      match transition.fromId with
      | none => true
      | some parent => transition.toState.id = parent

def identityExplicitInvariant : Invariant where
  id := js "state.identity.explicit"
  scope := .state
  failureMode := .reject
  description := js "Every State must declare an explicit identity."
  predicate input := 0 < (getState input).id.length

def identityUniqueInvariant : Invariant where
  id := js "state.identity.unique"
  scope := .registration
  failureMode := .halt
  description := js "No two registered States may share the same identity."
  predicate
    | .registration transition registeredIds _ =>
      match transition.fromId with
      | none => transition.toState.id ∉ registeredIds
      | some _ => true
    | _ => true

def lineageExplicitInvariant : Invariant where
  id := js "state.lineage.explicit"
  scope := .transition
  failureMode := .reject
  description := js ("Every Transition must explicitly declare its parent State, except for root " ++
    "States. Root states (from === null) MUST have isRoot === true. " ++
    "Non-root states (from !== null) MUST NOT have isRoot === true.")
  predicate input :=
    match getTransition input with
    | none => true
    | some transition =>
      let isRoot := isRootState transition.toState
      let hasParent := transition.fromId.isSome
      if !hasParent && !isRoot then false
      else if hasParent && isRoot then false
      else true

def lineageParentExistsInvariant : Invariant where
  id := js "state.lineage.parent_exists"
  scope := .registration
  failureMode := .reject
  description := js "A Transition's parent State must exist and be registered."
  predicate
    | .registration transition registeredIds _ =>
      match transition.fromId with
      | none => true
      | some parent => parent ∈ registeredIds
    | _ => true

/-- A parent is one id by its type. -/
def lineageSingleParentInvariant : Invariant where
  id := js "state.lineage.single_parent"
  scope := .transition
  failureMode := .reject
  description := js "A Transition may reference only one parent State."
  predicate _ := true

def lineageContinuousInvariant : Invariant where
  id := js "state.lineage.continuous"
  scope := .registration
  failureMode := .halt
  description := js "Every accepted Transition must extend an unbroken lineage chain."
  predicate
    | .registration transition registeredIds _ =>
      match transition.fromId with
      | none => true
      | some parent => parent ∈ registeredIds
    | _ => true

def orderingTotalInvariant : Invariant where
  id := js "ordering.total"
  scope := .registration
  failureMode := .halt
  description := js "All accepted Transitions must be totally ordered."
  predicate
    | .registration _ _ currentOrderIndex => 0 ≤ currentOrderIndex
    | _ => true

def orderingDeterministicInvariant : Invariant where
  id := js "ordering.deterministic"
  scope := .registration
  failureMode := .halt
  description := js "Ordering must be deterministic given identical inputs."
  predicate _ := true

def orderingMonotonicInvariant : Invariant where
  id := js "ordering.monotonic"
  scope := .registration
  failureMode := .reject
  description := js "Order indices must increase monotonically."
  predicate
    | .registration _ _ currentOrderIndex => 0 ≤ currentOrderIndex
    | _ => true

def orderingNonSemanticInvariant : Invariant where
  id := js "ordering.non_semantic"
  scope := .registration
  failureMode := .halt
  description := js "Ordering must not depend on State content or meaning."
  predicate _ := true

/-- `INITIAL_INVARIANTS`. -/
def initialInvariants : List Invariant := [
  identityImmutableInvariant,
  identityExplicitInvariant,
  identityUniqueInvariant,
  lineageExplicitInvariant,
  lineageParentExistsInvariant,
  lineageSingleParentInvariant,
  lineageContinuousInvariant,
  orderingTotalInvariant,
  orderingDeterministicInvariant,
  orderingMonotonicInvariant,
  orderingNonSemanticInvariant]

end Attestia.Registrum
