import Attestia.Lib.Except
import Attestia.Registrum.Predicate.Evaluator

/-!
# Validated predicates

What the validator accepts the evaluator can run: it knows the functions, finds their arguments and
throws nothing but errors of its own. One of those, wherever the evaluation reaches it, makes the
predicate false.
-/

namespace Attestia.Registrum

open Lib

/-! ## What is validated -/

theorem validateFunction_eq_ok {fn : JsString} {arity : ℕ}
    (h : validateFunction fn arity = .ok ()) : (fn, arity) ∈ allowedFunctions := by
  rw [validateFunction] at h
  split at h
  · cases h
  · rename_i name expected hfind
    split at h
    · cases h
    · rename_i harity
      obtain rfl : arity = expected := not_not.mp harity
      obtain rfl : name = fn :=
        of_decide_eq_true (List.find?_some (p := fun e : JsString × ℕ => decide (e.1 = fn)) hfind)
      exact List.mem_of_find?_eq_some hfind

section walk

variable {depth : ℕ}

theorem walk_binary {op : BinaryOperator} {left right : ASTNode}
    (h : walk (.binary op left right) depth = .ok ()) :
    walk left (depth + 1) = .ok () ∧ walk right (depth + 1) = .ok () := by
  rw [walk] at h
  exact bind_unit_eq_ok.mp (bind_unit_eq_ok.mp h).2

theorem walk_unary {op : UnaryOperator} {operand : ASTNode}
    (h : walk (.unary op operand) depth = .ok ()) : walk operand (depth + 1) = .ok () := by
  rw [walk] at h
  exact (bind_unit_eq_ok.mp h).2

theorem walk_call {fn : JsString} {args : List ASTNode} (h : walk (.call fn args) depth = .ok ()) :
    (fn, args.length) ∈ allowedFunctions ∧ walkArguments args (depth + 1) = .ok () := by
  rw [walk] at h
  obtain ⟨hfunction, hargs⟩ := bind_unit_eq_ok.mp (bind_unit_eq_ok.mp h).2
  exact ⟨validateFunction_eq_ok hfunction, hargs⟩

theorem walkArguments_eq_ok {args : List ASTNode} :
    walkArguments args depth = .ok () ↔ ∀ arg ∈ args, walk arg depth = .ok () := by
  induction args with
  | nil => exact iff_of_true rfl fun _ => nofun
  | cons arg args ih => rw [walkArguments, bind_unit_eq_ok, ih, List.forall_mem_cons]

end walk

theorem evaluateArguments_eq_map (args : List ASTNode) (context : EvaluationContext) :
    evaluateArguments args context = args.map fun arg => evaluate arg context := by
  induction args with
  | nil => rfl
  | cons arg args ih => rw [evaluateArguments_cons, ih, List.map_cons]

theorem length_evaluateArguments {args : List ASTNode} {context : EvaluationContext} :
    (evaluateArguments args context).length = args.length := by
  rw [evaluateArguments_eq_map, List.length_map]

/-! ## What is thrown -/

/-- An error of the evaluator itself. -/
def EvaluationFailure.IsEvaluationError : EvaluationFailure → Prop
  | evaluationError _ => True
  | typeError => False

/-- Nothing but an `EvaluationError` is thrown. -/
abbrev Safe (result : Except EvaluationFailure JsValue) : Prop :=
  Throws EvaluationFailure.IsEvaluationError result

theorem safe_evaluationError (message : JsString) : Safe (.error (.evaluationError message)) :=
  throws_error trivial

theorem safe_traverse (value : JsValue) (path : List JsString) : Safe (traverse value path) := by
  induction path generalizing value with
  | nil =>
    rw [traverse_nil]
    exact throws_ok
  | cons key path ih =>
    cases value with
    | undefined => exact throws_ok
    | null => exact throws_ok
    | object ref get => exact ih (get key)
    | boolean b => exact safe_evaluationError _
    | number x => exact safe_evaluationError _
    | string s => exact safe_evaluationError _
    | other type ref => exact safe_evaluationError _

theorem safe_resolveIdentifier (path : List JsString) (context : EvaluationContext) :
    Safe (resolveIdentifier path context) := by
  cases path with
  | nil => exact safe_evaluationError _
  | cons root path =>
    rw [resolveIdentifier]
    split
    · exact throws_ok
    · split
      · exact throws_ok
      · split
        · exact throws_ok
        · refine Throws.bind ?_ fun value => safe_traverse value path
          unfold EvaluationContext.root
          repeat' split
          all_goals first
            | exact throws_ok
            | exact safe_evaluationError _

theorem safe_compareNumbers (a b : JsValue) (comparator : JsNumber → JsNumber → Bool) :
    Safe (compareNumbers a b comparator) := by
  unfold compareNumbers
  split
  · exact throws_ok
  · exact safe_evaluationError _

theorem safe_applyOperator (op : BinaryOperator) (a b : JsValue) : Safe (applyOperator op a b) := by
  cases op with
  | eq => exact throws_ok
  | neq => exact throws_ok
  | gt => exact safe_compareNumbers a b _
  | lt => exact safe_compareNumbers a b _
  | gte => exact safe_compareNumbers a b _
  | lte => exact safe_compareNumbers a b _
  | and => exact throws_ok
  | or => exact throws_ok

theorem safe_evaluateBinary {op : BinaryOperator} {left right : Except EvaluationFailure JsValue}
    (hleft : Safe left) (hright : Safe right) : Safe (evaluateBinary op left right) := by
  refine hleft.bind fun leftVal => ?_
  split
  · exact throws_ok
  · split
    · exact throws_ok
    · exact hright.bind fun rightVal => safe_applyOperator op leftVal rightVal

/-- An argument that the validator has counted. -/
theorem safe_argument {args : List (Except EvaluationFailure JsValue)} (h : ∀ arg ∈ args, Safe arg)
    {i : ℕ} (hi : i < args.length) : Safe (argument args i) := by
  rw [argument, List.getElem?_eq_getElem hi]
  exact h _ (List.getElem_mem hi)

/-- The values of the first arguments of a call, evaluated in order. -/
def argumentValues (args : List (Except EvaluationFailure JsValue)) (arity : ℕ) :
    Except EvaluationFailure (List JsValue) :=
  (List.range arity).mapM (argument args)

section argumentValues

variable {args : List (Except EvaluationFailure JsValue)}

theorem argumentValues_one :
    argumentValues args 1 = (argument args 0).map fun a => [a] := by
  rw [argumentValues, show List.range 1 = [0] from rfl, List.mapM_cons, List.mapM_nil]
  cases argument args 0 <;> rfl

theorem argumentValues_two :
    argumentValues args 2 = (do
      let a ← argument args 0
      let b ← argument args 1
      return [a, b]) := by
  rw [argumentValues, show List.range 2 = [0, 1] from rfl, List.mapM_cons, List.mapM_cons,
    List.mapM_nil]
  cases argument args 0 <;> cases argument args 1 <;> rfl

end argumentValues

/-- `registry.contains_state` of the value of its argument. -/
def containsStateOf (context : EvaluationContext) : JsValue → Except EvaluationFailure JsValue
  | .null => .ok (.boolean false)
  | .string id => .ok (.boolean (context.containsState id))
  | _ => .error (.evaluationError (js "registry.contains_state requires string argument"))

theorem safe_containsStateOf (context : EvaluationContext) (value : JsValue) :
    Safe (containsStateOf context value) := by
  unfold containsStateOf
  split
  · exact throws_ok
  · exact throws_ok
  · exact safe_evaluationError _

/-- A known function evaluates its arguments in order and goes on with their values. -/
theorem evaluateCall_eq {fn : JsString} {arity : ℕ} (hfn : (fn, arity) ∈ allowedFunctions)
    (args : List (Except EvaluationFailure JsValue)) (context : EvaluationContext) :
    ∃ body : List JsValue → Except EvaluationFailure JsValue, (∀ values, Safe (body values)) ∧
      evaluateCall fn args context = argumentValues args arity >>= body := by
  simp only [allowedFunctions, List.mem_cons, Prod.mk.injEq, List.not_mem_nil, or_false] at hfn
  obtain ⟨rfl, rfl⟩ | ⟨rfl, rfl⟩ | ⟨rfl, rfl⟩ | ⟨rfl, rfl⟩ | ⟨rfl, rfl⟩ | ⟨rfl, rfl⟩ | ⟨rfl, rfl⟩ |
    ⟨rfl, rfl⟩ := hfn
  · refine ⟨fun values => .ok (.boolean !(values.headD .null).isNullish), fun _ => throws_ok, ?_⟩
    rw [evaluateCall, if_pos rfl, argumentValues_one]
    cases argument args 0 <;> rfl
  · refine ⟨fun values => .ok (.boolean ((values.headD .null).typeOf = .string)),
      fun _ => throws_ok, ?_⟩
    rw [evaluateCall, if_neg (by decide), if_pos rfl, argumentValues_one]
    cases argument args 0 <;> rfl
  · refine ⟨fun values => .ok (.boolean ((values.headD .null).typeOf = .number)),
      fun _ => throws_ok, ?_⟩
    rw [evaluateCall, if_neg (by decide), if_neg (by decide), if_pos rfl, argumentValues_one]
    cases argument args 0 <;> rfl
  · refine ⟨fun values => .ok (.boolean ((values.headD .null).typeOf = .boolean)),
      fun _ => throws_ok, ?_⟩
    rw [evaluateCall, if_neg (by decide), if_neg (by decide), if_neg (by decide), if_pos rfl,
      argumentValues_one]
    cases argument args 0 <;> rfl
  · refine ⟨fun values => .ok (.boolean (strictEquals (values.headD .null) (values.getD 1 .null))),
      fun _ => throws_ok, ?_⟩
    rw [evaluateCall, if_neg (by decide), if_neg (by decide), if_neg (by decide),
      if_neg (by decide), if_pos rfl, argumentValues_two]
    cases argument args 0 <;> cases argument args 1 <;> rfl
  · refine ⟨fun values => containsStateOf context (values.headD .null),
      fun values => safe_containsStateOf context _, ?_⟩
    rw [evaluateCall, if_neg (by decide), if_neg (by decide), if_neg (by decide),
      if_neg (by decide), if_neg (by decide), if_pos rfl, argumentValues_one]
    cases argument args 0 with
    | error e => rfl
    | ok value => cases value <;> rfl
  · refine ⟨fun _ => .ok (.number context.maxOrderIndex), fun _ => throws_ok, ?_⟩
    rw [evaluateCall, if_neg (by decide), if_neg (by decide), if_neg (by decide),
      if_neg (by decide), if_neg (by decide), if_neg (by decide), if_pos rfl]
    rfl
  · refine ⟨fun values => .ok (.number (context.computeOrderIndex (values.headD .null))),
      fun _ => throws_ok, ?_⟩
    rw [evaluateCall, if_neg (by decide), if_neg (by decide), if_neg (by decide),
      if_neg (by decide), if_neg (by decide), if_neg (by decide), if_neg (by decide), if_pos rfl,
      argumentValues_one]
    cases argument args 0 <;> rfl

theorem safe_evaluateCall {fn : JsString} {args : List (Except EvaluationFailure JsValue)}
    (hfn : (fn, args.length) ∈ allowedFunctions) (h : ∀ arg ∈ args, Safe arg)
    (context : EvaluationContext) : Safe (evaluateCall fn args context) := by
  obtain ⟨body, hbody, heq⟩ := evaluateCall_eq hfn args context
  rw [heq]
  refine Throws.bind (throws_mapM fun i hi => ?_) hbody
  exact safe_argument h (List.mem_range.mp hi)

mutual

/-- The validator's promise, for every context. -/
theorem safe_evaluate : ∀ {ast : ASTNode} {depth : ℕ}, walk ast depth = .ok () →
    ∀ context : EvaluationContext, Safe (evaluate ast context)
  | .literal _, _, _, _ => throws_ok
  | .identifier path, _, _, context => safe_resolveIdentifier path context
  | .binary _ _ _, _, h, context =>
    safe_evaluateBinary (safe_evaluate (walk_binary h).1 context)
      (safe_evaluate (walk_binary h).2 context)
  | .unary .not _, _, h, context => (safe_evaluate (walk_unary h) context).map
  | .call fn args, _, h, context => by
    obtain ⟨hfn, hargs⟩ := walk_call h
    apply safe_evaluateCall
    · rwa [length_evaluateArguments]
    · exact safe_evaluateArguments hargs context

theorem safe_evaluateArguments : ∀ {args : List ASTNode} {depth : ℕ},
    walkArguments args depth = .ok () → ∀ context : EvaluationContext,
      ∀ result ∈ evaluateArguments args context, Safe result
  | [], _, _, _ => fun _ => nofun
  | arg :: args, _, h, context => by
    rw [walkArguments, bind_unit_eq_ok] at h
    rw [evaluateArguments_cons, List.forall_mem_cons]
    exact ⟨safe_evaluate h.1 context, safe_evaluateArguments h.2 context⟩

end

/-! ## What is reached -/

/-- The nodes that the evaluation of a predicate evaluates. -/
inductive Reached (context : EvaluationContext) : ASTNode → ASTNode → Prop
  | refl (ast : ASTNode) : Reached context ast ast
  | left {op : BinaryOperator} {left right node : ASTNode} (h : Reached context left node) :
      Reached context (.binary op left right) node
  | right {op : BinaryOperator} {left right node : ASTNode} {value : JsValue}
      (hleft : evaluate left context = .ok value) (hand : op = .and → toBoolean value = true)
      (hor : op = .or → toBoolean value = false) (h : Reached context right node) :
      Reached context (.binary op left right) node
  | operand {op : UnaryOperator} {operand node : ASTNode} (h : Reached context operand node) :
      Reached context (.unary op operand) node
  | argument {fn : JsString} {arity i : ℕ} {args : List ASTNode} {arg node : ASTNode}
      (hfn : (fn, arity) ∈ allowedFunctions) (hi : i < arity) (harg : args[i]? = some arg)
      (hbefore : ∀ j < i, ∀ earlier, args[j]? = some earlier →
        ∃ value, evaluate earlier context = .ok value) (h : Reached context arg node) :
      Reached context (.call fn args) node

section reached

variable {context : EvaluationContext} {ast node : ASTNode} {e : EvaluationFailure}

theorem argument_evaluateArguments {args : List ASTNode} {i : ℕ} {arg : ASTNode}
    (h : args[i]? = some arg) :
    argument (evaluateArguments args context) i = evaluate arg context := by
  rw [argument, evaluateArguments_eq_map, List.getElem?_map, h]
  rfl

/-- The first argument that throws. -/
theorem argumentValues_eq_error {args : List (Except EvaluationFailure JsValue)} {arity i : ℕ}
    (hi : i < arity) (hbefore : ∀ j < i, ∃ value, argument args j = .ok value)
    (h : argument args i = .error e) : argumentValues args arity = .error e := by
  apply mapM_eq_error (List.getElem?_range hi) _ h
  intro j hj k hk
  rw [List.getElem?_range (Nat.lt_trans hj hi)] at hk
  obtain rfl : j = k := Option.some.inj hk
  exact hbefore j hj

theorem evaluateBinary_error_right {op : BinaryOperator} {value : JsValue}
    (hand : op = .and → toBoolean value = true) (hor : op = .or → toBoolean value = false) :
    evaluateBinary op (.ok value) (.error e) = .error e := by
  show (if op = .and ∧ !toBoolean value then _ else _) = _
  rw [if_neg (by rintro ⟨hop, h⟩; simp [hand hop] at h),
    if_neg (by rintro ⟨hop, h⟩; simp [hor hop] at h)]
  rfl

/-- What a reached node throws leaves the evaluation: nothing on the way catches it. -/
theorem evaluate_eq_error_of_reached (h : Reached context ast node)
    (herror : evaluate node context = .error e) : evaluate ast context = .error e := by
  induction h with
  | refl => exact herror
  | left h ih =>
    rw [evaluate_binary, ih herror]
    rfl
  | right hleft hand hor h ih =>
    rw [evaluate_binary, ih herror, hleft]
    exact evaluateBinary_error_right hand hor
  | @operand op operand node h ih =>
    cases op
    rw [evaluate_unary, ih herror]
    rfl
  | @argument fn arity i args arg node hfn hi harg hbefore h ih =>
    obtain ⟨body, -, heq⟩ := evaluateCall_eq hfn (evaluateArguments args context) context
    have hthrows := (argument_evaluateArguments harg).trans (ih herror)
    rw [evaluate_call, heq, argumentValues_eq_error hi _ hthrows]
    · rfl
    · intro j hj
      have hlength := (List.getElem?_eq_some_iff.mp harg).1
      have hearlier := List.getElem?_eq_getElem (Nat.lt_trans hj hlength)
      rw [argument_evaluateArguments hearlier]
      exact hbefore j hj _ hearlier

/-- The nodes of a validated predicate that are reached are validated. -/
theorem walk_of_reached (h : Reached context ast node) {depth : ℕ}
    (hwalk : walk ast depth = .ok ()) : ∃ depth', walk node depth' = .ok () := by
  induction h generalizing depth with
  | refl => exact ⟨depth, hwalk⟩
  | left h ih => exact ih (walk_binary hwalk).1
  | right _ _ _ h ih => exact ih (walk_binary hwalk).2
  | operand h ih => exact ih (walk_unary hwalk)
  | argument _ _ harg _ h ih =>
    exact ih (walkArguments_eq_ok.mp (walk_call hwalk).2 _ (List.mem_of_getElem? harg))

end reached

/-- Validated predicates are safe and fail closed: in every context a validated predicate is true or
false, nothing but an `EvaluationError` is thrown at any node that its evaluation reaches, every
call reached is one of a known function with all of its arguments, and where a reached node throws,
the predicate is false and so is its negation. -/
theorem validated_predicate_failsClosed {ast : ASTNode} (h : validatePredicate ast = .ok ())
    (context : EvaluationContext) :
    (∃ b, evaluatePredicate ast context = .ok b) ∧
      (∀ node, Reached context ast node → evaluate node context ≠ .error .typeError) ∧
      (∀ fn args, Reached context ast (.call fn args) → (fn, args.length) ∈ allowedFunctions) ∧
      ∀ node message, Reached context ast node →
        evaluate node context = .error (.evaluationError message) →
        evaluatePredicate ast context = .ok false ∧
          evaluatePredicate (.unary .not ast) context = .ok false := by
  refine ⟨?_, ?_, ?_, ?_⟩
  · have hsafe := safe_evaluate h context
    rw [evaluatePredicate]
    cases hresult : evaluate ast context with
    | ok value => exact ⟨_, rfl⟩
    | error e =>
      cases e with
      | evaluationError message => exact ⟨false, rfl⟩
      | typeError => exact (hsafe _ hresult).elim
  · intro node hreached hnode
    obtain ⟨depth, hwalk⟩ := walk_of_reached hreached h
    exact safe_evaluate hwalk context _ hnode
  · intro fn args hreached
    obtain ⟨depth, hwalk⟩ := walk_of_reached hreached h
    exact (walk_call hwalk).1
  · intro node message hreached hnode
    have hast := evaluate_eq_error_of_reached hreached hnode
    have hreachedNot : Reached context (.unary .not ast) node := .operand hreached
    have hnot := evaluate_eq_error_of_reached hreachedNot hnode
    exact ⟨by rw [evaluatePredicate, hast], by rw [evaluatePredicate, hnot]⟩

/-- A number looked up among the states. -/
def numberLookup : ASTNode :=
  .call (js "registry.contains_state") [.literal (.number (.finite 0))]

/-- The registration of a first state. -/
def firstContext : EvaluationContext where
  state := ⟨js "A", fun _ => .undefined⟩
  transition := ⟨none, ⟨js "A", fun _ => .undefined⟩⟩
  containsState _ := false
  maxOrderIndex := .finite (-1)
  computeOrderIndex _ := .finite 0
  ordering := some (.finite 0)

theorem validated_predicate_failsClosed_numberLookup :
    validatePredicate (.unary .not numberLookup) = .ok () ∧
      evaluatePredicate (.unary .not numberLookup) firstContext = .ok false := by
  have hvalid : validatePredicate (.unary .not numberLookup) = .ok () := by decide +kernel
  obtain ⟨-, -, -, hfalse⟩ := validated_predicate_failsClosed hvalid firstContext
  have hthrows : evaluate numberLookup firstContext = .error (.evaluationError
      (js "registry.contains_state requires string argument")) := rfl
  exact ⟨hvalid, (hfalse numberLookup _ (.operand (.refl _)) hthrows).1⟩

end Attestia.Registrum
