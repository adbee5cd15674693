import Attestia.Lib.JsonValue
import Attestia.Lib.JsValue

/-!
# States, transitions and verdicts

`types.ts` and `violation-detail.ts`: what the registrar is asked, what it answers, and the
texts of its violations. A state is its id and the reading of its structure; its data is
never read.
-/

namespace Attestia.Registrum

open Lib JsonNumber

abbrev StateID := JsString

structure State where
  id : StateID
  struct : JsString → JsValue

structure Transition where
  fromId : Option StateID
  toState : State

inductive InvariantScope where
  | state
  | transition
  | registration
  deriving DecidableEq

inductive FailureMode where
  | reject
  | halt
  deriving DecidableEq

inductive InvariantInput where
  | state (state : State)
  | transition (transition : Transition)
  | registration (transition : Transition) (registeredStateIds : List StateID)
      (currentOrderIndex : ℤ)

structure Invariant where
  id : JsString
  scope : InvariantScope
  predicate : InvariantInput → Bool
  failureMode : FailureMode
  description : JsString

inductive ViolationClassification where
  | REJECT
  | HALT
  deriving DecidableEq

/-- The values that stand in the details of a violation. -/
inductive DetailValue where
  | null
  | text (s : JsString)
  | flag (b : Bool)
  | index (n : ℤ)
  deriving DecidableEq

structure InvariantViolationDetails where
  field : JsString
  expected : DetailValue
  actual : Option DetailValue
  deriving DecidableEq

structure InvariantViolation where
  invariantId : JsString
  classification : ViolationClassification
  message : JsString
  details : Option InvariantViolationDetails
  deriving DecidableEq

inductive RegistrationResult where
  | accepted (stateId : StateID) (orderIndex : ℤ) (appliedInvariants : List JsString)
  | rejected (violations : List InvariantViolation)
  deriving DecidableEq

/-! ## The details of a violation -/

/-- What an engine knows when a rule fires; a pure state has no transition. -/
structure ViolationOperands where
  fromId : Option (Option StateID)
  toId : Option StateID
  isRoot : Option Bool
  orderIndex : Option ℤ

structure EnrichedViolation where
  message : JsString
  details : Option InvariantViolationDetails

/-- `String(id)`. -/
def idString : Option StateID → JsString
  | none => js "null"
  | some id => id

def idDetail : Option StateID → DetailValue
  | none => .null
  | some id => .text id

def describeValue : Option StateID → JsString
  | none => js "undefined"
  | some id => js "'" ++ id ++ js "'"

/-- The text of an order index. -/
def indexString (n : ℤ) : JsString := JsonValue.numberString (.ofInt n)

def enrichViolation (invariantId description : JsString) (operands : ViolationOperands) :
    EnrichedViolation :=
  let fallback : EnrichedViolation := ⟨js "Invariant violation: " ++ description, none⟩
  if invariantId = js "state.identity.immutable" then
    match operands.toId, operands.fromId with
    | some toId, some fromId =>
      ⟨js "state.identity.immutable: to.id '" ++ toId ++ js "' must equal from '" ++
        idString fromId ++ js "'", some ⟨js "to.id", idDetail fromId, some (.text toId)⟩⟩
    | _, _ => fallback
  else if invariantId = js "state.identity.explicit" then
    ⟨js "state.identity.explicit: id must be a non-empty string, got " ++
      describeValue operands.toId,
      some ⟨js "id", .text (js "non-empty string"), operands.toId.map .text⟩⟩
  else if invariantId = js "state.identity.unique" then
    match operands.toId with
    | none => fallback
    | some toId =>
      ⟨js "state.identity.unique: id '" ++ toId ++ js "' is already registered",
        some ⟨js "to.id", .text (js "unregistered id"), some (.text toId)⟩⟩
  else if invariantId = js "state.lineage.explicit" then
    match operands.fromId, operands.isRoot with
    | some fromId, some isRoot =>
      let reason :=
        match fromId with
        | some id => js "non-root transition (from '" ++ id ++ js "') must not declare isRoot=true"
        | none => js "root transition (from=null) must declare isRoot=true"
      ⟨js "state.lineage.explicit: " ++ reason,
        some ⟨js "structure.isRoot", .flag fromId.isNone, some (.flag isRoot)⟩⟩
    | _, _ => fallback
  else if invariantId = js "state.lineage.parent_exists" then
    match operands.fromId with
    | some (some id) =>
      ⟨js "state.lineage.parent_exists: parent '" ++ id ++ js "' is not registered",
        some ⟨js "from", .text (js "registered parent id"), some (.text id)⟩⟩
    | _ => fallback
  else if invariantId = js "state.lineage.continuous" then
    match operands.fromId with
    | some (some id) =>
      ⟨js "state.lineage.continuous: lineage broken — parent '" ++ id ++ js "' is not registered",
        some ⟨js "from", .text (js "registered parent id (unbroken lineage)"), some (.text id)⟩⟩
    | _ => fallback
  else if invariantId = js "ordering.monotonic" ∨ invariantId = js "ordering.total" then
    match operands.orderIndex with
    | none => fallback
    | some n =>
      ⟨invariantId ++ js ": order index " ++ indexString n ++ js " is not a valid monotonic index",
        some ⟨js "orderIndex", .text (js ">= 0"), some (.index n)⟩⟩
  else fallback

end Attestia.Registrum
