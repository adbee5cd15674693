import Attestia.Registrum.Predicate.Parser
import Attestia.Registrum.Types

/-!
# Validation and evaluation of predicates

`predicate/validator.ts` and `predicate/evaluator.ts`. An evaluation error makes a predicate
false; any other exception leaves the evaluation.
-/

namespace Attestia.Registrum

open Lib JsonNumber

/-! ## Validation -/

structure ValidationError where
  message : JsString
  deriving DecidableEq

def allowedRoots : List JsString :=
  [js "state", js "transition", js "registry", js "ordering", js "true", js "false", js "null"]

def forbiddenPathPrefixes : List (List JsString) :=
  [[js "state", js "data"], [js "state", js "content"], [js "state", js "embedding"],
    [js "state", js "score"], [js "state", js "payload"], [js "transition", js "payload"],
    [js "transition", js "data"]]

/-- The functions of the language with the number of their arguments. -/
def allowedFunctions : List (JsString × ℕ) :=
  [(js "exists", 1), (js "is_string", 1), (js "is_number", 1), (js "is_boolean", 1),
    (js "equals", 2), (js "registry.contains_state", 1), (js "registry.max_order_index", 0),
    (js "registry.compute_order_index", 1)]

def maxDepth : ℕ := 16

def numberText : JsNumber → JsString
  | .finite q => JsString.units (JsonNumber.numberText q)
  | .infinity negative => if negative then js "-Infinity" else js "Infinity"
  | .nan => js "NaN"

def validateLiteral : LiteralValue → Except ValidationError Unit
  | .number (.finite q) =>
    if q.den ≠ 1 then
      .error ⟨js "Non-integer number literal: " ++ numberText (.finite q)⟩
    else if q > safeBound - 1 ∨ q < -(safeBound - 1) then
      .error ⟨js "Number literal out of safe bounds: " ++ numberText (.finite q)⟩
    else .ok ()
  | .number x => .error ⟨js "Non-integer number literal: " ++ numberText x⟩
  | _ => .ok ()

def validateIdentifier : List JsString → Except ValidationError Unit
  | [] => .error ⟨js "Empty identifier path"⟩
  | root :: path =>
    if root ∉ allowedRoots then
      .error ⟨js "Forbidden root identifier: " ++ root⟩
    else if forbiddenPathPrefixes.any fun forbidden => forbidden.isPrefixOf (root :: path) then
      .error ⟨js "Forbidden semantic access: " ++ joinPath (root :: path)⟩
    else .ok ()

def validateFunction (fn : JsString) (arity : ℕ) : Except ValidationError Unit :=
  match allowedFunctions.find? fun e => e.1 = fn with
  | none => .error ⟨js "Forbidden function: " ++ fn⟩
  | some (_, expected) =>
    if arity ≠ expected then
      .error ⟨fn ++ js " requires exactly " ++ JsonValue.numberString (.ofNat expected) ++
        (if expected = 1 then js " argument" else js " arguments")⟩
    else .ok ()

def assertDepth (depth : ℕ) : Except ValidationError Unit :=
  if maxDepth < depth then
    .error ⟨js "Predicate exceeds maximum depth of " ++ JsonValue.numberString (.ofNat maxDepth)⟩
  else .ok ()

mutual

/-- The operators of a node are those of the language by their type. -/
def walk : ASTNode → ℕ → Except ValidationError Unit
  | .literal value, depth => do
    assertDepth depth
    validateLiteral value
  | .identifier path, depth => do
    assertDepth depth
    validateIdentifier path
  | .binary _ left right, depth => do
    assertDepth depth
    walk left (depth + 1)
    walk right (depth + 1)
  | .unary _ operand, depth => do
    assertDepth depth
    walk operand (depth + 1)
  | .call fn args, depth => do
    assertDepth depth
    validateFunction fn args.length
    walkArguments args (depth + 1)

def walkArguments : List ASTNode → ℕ → Except ValidationError Unit
  | [], _ => .ok ()
  | arg :: args, depth => do
    walk arg depth
    walkArguments args depth

end

def validatePredicate (ast : ASTNode) : Except ValidationError Unit := walk ast 0

/-! ## Evaluation -/

/-- What an evaluation throws: an error of its own, or a reading of a missing argument. -/
inductive EvaluationFailure where
  | evaluationError (message : JsString)
  | typeError
  deriving DecidableEq

structure EvaluationContext where
  state : State
  transition : Transition
  containsState : StateID → Bool
  maxOrderIndex : JsNumber
  computeOrderIndex : JsValue → JsNumber
  ordering : Option JsNumber

def idValue : Option StateID → JsValue
  | none => .null
  | some id => .string id

namespace EvaluationContext

def structureValue (state : State) : JsValue := .object (.named (js "structure")) state.struct

def stateValue (name : String) (state : State) : JsValue :=
  .literal name [(js "id", .string state.id), (js "structure", structureValue state)]

def transitionValue (context : EvaluationContext) : JsValue :=
  .literal "transition" [(js "from", idValue context.transition.fromId),
    (js "to", stateValue "transition.to" context.transition.toState)]

/-- The registry of a context, whose properties are functions. -/
def registryValue : JsValue :=
  .literal "registry" ([js "contains_state", js "max_order_index", js "compute_order_index"].map
    fun name => (name, .other .function (.named (js "registry." ++ name))))

def orderingValue (context : EvaluationContext) : JsValue :=
  match context.ordering with
  | none => .null
  | some index => .literal "ordering" [(js "index", .number index)]

/-- The root of an identifier path. -/
def root (context : EvaluationContext) (name : JsString) : Except EvaluationFailure JsValue :=
  if name = js "state" then .ok (stateValue "state" context.state)
  else if name = js "transition" then .ok context.transitionValue
  else if name = js "registry" then .ok registryValue
  else if name = js "ordering" then .ok context.orderingValue
  else .error (.evaluationError (js "Unknown root identifier: " ++ name))

end EvaluationContext

/-- The loop over the rest of a path. -/
def traverse : JsValue → List JsString → Except EvaluationFailure JsValue
  | value, [] => .ok value
  | value, key :: path =>
    match value with
    | .undefined => .ok .null
    | .null => .ok .null
    | .object _ get => traverse (get key) path
    | _ => .error (.evaluationError (js "Cannot access property '" ++ key ++ js "' of non-object"))

@[simp] theorem traverse_nil (value : JsValue) : traverse value [] = .ok value := by
  cases value <;> rfl

@[simp] theorem traverse_object (ref : Ref) (get : JsString → JsValue)
    (key : JsString) (path : List JsString) :
    traverse (.object ref get) (key :: path) = traverse (get key) path := rfl

def resolveIdentifier (path : List JsString) (context : EvaluationContext) :
    Except EvaluationFailure JsValue :=
  match path with
  | [] => .error (.evaluationError (js "Empty identifier path"))
  | root :: path =>
    if root = js "true" then .ok (.boolean true)
    else if root = js "false" then .ok (.boolean false)
    else if root = js "null" then .ok .null
    else do
      let value ← context.root root
      traverse value path

def toBoolean : JsValue → Bool
  | .boolean b => b
  | .null => false
  | .undefined => false
  | .number x => !x.same (.finite 0)
  | .string s => s ≠ []
  | _ => true

def strictEquals (a b : JsValue) : Bool :=
  if a.isNullish then b.isNullish
  else if b.isNullish then false
  else if a.typeOf ≠ b.typeOf then false
  else a.same b

def compareNumbers (a b : JsValue) (comparator : JsNumber → JsNumber → Bool) :
    Except EvaluationFailure JsValue :=
  match a, b with
  | .number x, .number y => .ok (.boolean (comparator x y))
  | _, _ => .error (.evaluationError (js "Comparison operators require numeric operands"))

def literalValue : LiteralValue → JsValue
  | .boolean b => .boolean b
  | .number x => .number x
  | .string s => .string s
  | .null => .null

/-- An operator on evaluated operands. -/
def applyOperator : BinaryOperator → JsValue → JsValue → Except EvaluationFailure JsValue
  | .eq, a, b => .ok (.boolean (strictEquals a b))
  | .neq, a, b => .ok (.boolean (!strictEquals a b))
  | .gt, a, b => compareNumbers a b fun x y => y.lt x
  | .lt, a, b => compareNumbers a b fun x y => x.lt y
  | .gte, a, b => compareNumbers a b fun x y => y.le x
  | .lte, a, b => compareNumbers a b fun x y => x.le y
  -- a logical operator that its first operand has not decided
  | .and, a, b => .ok (.boolean (toBoolean a && toBoolean b))
  | .or, a, b => .ok (.boolean (toBoolean a || toBoolean b))

/-- The evaluation of an operator: the logical ones leave out their second operand. -/
def evaluateBinary (op : BinaryOperator) (left right : Except EvaluationFailure JsValue) :
    Except EvaluationFailure JsValue := do
  let leftVal ← left
  if op = .and ∧ !toBoolean leftVal then
    return .boolean false
  else if op = .or ∧ toBoolean leftVal then
    return .boolean true
  else
    let rightVal ← right
    applyOperator op leftVal rightVal

/-- The argument of a call at a place; a missing one is no node. -/
def argument (args : List (Except EvaluationFailure JsValue)) (i : ℕ) :
    Except EvaluationFailure JsValue :=
  (args[i]?).getD (.error .typeError)

def evaluateCall (fn : JsString) (args : List (Except EvaluationFailure JsValue))
    (context : EvaluationContext) : Except EvaluationFailure JsValue :=
  if fn = js "exists" then
    (argument args 0).map fun val => .boolean !val.isNullish
  else if fn = js "is_string" then
    (argument args 0).map fun val => .boolean (val.typeOf = .string)
  else if fn = js "is_number" then
    (argument args 0).map fun val => .boolean (val.typeOf = .number)
  else if fn = js "is_boolean" then
    (argument args 0).map fun val => .boolean (val.typeOf = .boolean)
  else if fn = js "equals" then do
    let a ← argument args 0
    let b ← argument args 1
    return .boolean (strictEquals a b)
  else if fn = js "registry.contains_state" then do
    match ← argument args 0 with
    | .null => return .boolean false
    | .string id => return .boolean (context.containsState id)
    | _ => throw (.evaluationError (js "registry.contains_state requires string argument"))
  else if fn = js "registry.max_order_index" then
    .ok (.number context.maxOrderIndex)
  else if fn = js "registry.compute_order_index" then do
    let transition ← argument args 0
    return .number (context.computeOrderIndex transition)
  else
    .error (.evaluationError (js "Unknown function: " ++ fn))

mutual

def evaluate : ASTNode → EvaluationContext → Except EvaluationFailure JsValue
  | .literal value, _ => .ok (literalValue value)
  | .identifier path, context => resolveIdentifier path context
  | .binary op left right, context =>
    evaluateBinary op (evaluate left context) (evaluate right context)
  | .unary .not operand, context =>
    (evaluate operand context).map fun val => .boolean !toBoolean val
  | .call fn args, context => evaluateCall fn (evaluateArguments args context) context

def evaluateArguments : List ASTNode → EvaluationContext → List (Except EvaluationFailure JsValue)
  | [], _ => []
  | arg :: args, context => evaluate arg context :: evaluateArguments args context

end

section

variable (context : EvaluationContext)

@[simp] theorem evaluate_identifier (path : List JsString) :
    evaluate (.identifier path) context = resolveIdentifier path context := rfl

@[simp] theorem evaluate_binary (op : BinaryOperator) (left right : ASTNode) :
    evaluate (.binary op left right) context =
      evaluateBinary op (evaluate left context) (evaluate right context) := rfl

@[simp] theorem evaluate_unary (operand : ASTNode) :
    evaluate (.unary .not operand) context =
      (evaluate operand context).map fun val => .boolean !toBoolean val := rfl

@[simp] theorem evaluate_call (fn : JsString) (args : List ASTNode) :
    evaluate (.call fn args) context =
      evaluateCall fn (evaluateArguments args context) context := rfl

@[simp] theorem evaluateArguments_nil : evaluateArguments [] context = [] := rfl

@[simp] theorem evaluateArguments_cons (arg : ASTNode) (args : List ASTNode) :
    evaluateArguments (arg :: args) context =
      evaluate arg context :: evaluateArguments args context := rfl

end

/-- The exception that leaves `evaluatePredicate`. -/
structure TypeError where
  deriving DecidableEq

/-- Fail closed: an evaluation error becomes false. -/
def evaluatePredicate (ast : ASTNode) (context : EvaluationContext) : Except TypeError Bool :=
  match evaluate ast context with
  | .ok result => .ok (toBoolean result)
  | .error (.evaluationError _) => .ok false
  | .error .typeError => .error ⟨⟩

end Attestia.Registrum
