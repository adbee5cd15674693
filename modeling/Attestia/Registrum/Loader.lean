import Attestia.Lib.Except
import Attestia.Lib.Jcs
import Attestia.Registrum.Predicate.Evaluator

/-!
# The registry

`registry/loader.ts`: the invariants of a registry are compiled all or none, and
`registry.json` is the registry of the constitution.
-/

namespace Attestia.Registrum

open Lib JsonNumber

structure CompiledInvariant where
  id : JsString
  scope : InvariantScope
  description : JsString
  ast : ASTNode
  failureMode : FailureMode
  deriving DecidableEq

structure CompiledInvariantRegistry where
  version : JsString
  registryId : JsString
  invariants : List CompiledInvariant
  deriving DecidableEq

structure RawInvariantDefinition where
  id : JsString
  scope : InvariantScope
  description : JsString
  expression : JsString
  failureMode : FailureMode

structure RawInvariantRegistry where
  version : JsString
  registryId : JsString
  invariants : List RawInvariantDefinition

structure RegistryError where
  message : JsString
  deriving DecidableEq

def joinWith (separator : String) (texts : List JsString) : JsString :=
  List.intercalate (js separator) texts

/-! ## The shape of a registry -/

def assertString (value : Option Json) (name : JsString) : Except RegistryError JsString :=
  match value with
  | some (.str s) => .ok s
  | _ => .error ⟨name ++ js " must be a string"⟩

def assertArray (value : Option Json) (name : JsString) : Except RegistryError (List Json) :=
  match value with
  | some (.arr es) => .ok es
  | _ => .error ⟨name ++ js " must be an array"⟩

/-- One of the given texts, which stands for a value. -/
def assertOneOf {α : Type} (value : Option Json) (allowed : List (JsString × α)) (name : JsString) :
    Except RegistryError α :=
  let failure : Except RegistryError α :=
    .error ⟨name ++ js " must be one of: " ++ joinWith ", " (allowed.map Prod.fst)⟩
  match value with
  | some (.str s) =>
    match allowed.find? fun e => e.1 = s with
    | some e => .ok e.2
    | none => failure
  | _ => failure

/-- `typeof` is object, and the value is not `null`. -/
def isObject : Json → Bool
  | .arr _ => true
  | .obj _ => true
  | _ => false

def groupNames : List (JsString × Unit) :=
  [(js "identity", ()), (js "lineage", ()), (js "ordering", ())]

def scopeNames : List (JsString × InvariantScope) :=
  [(js "state", .state), (js "transition", .transition), (js "registration", .registration)]

def failureModeNames : List (JsString × FailureMode) := [(js "reject", .reject), (js "halt", .halt)]

def validateCondition (condition : Option Json) (path : JsString) : Except RegistryError JsString :=
  match condition with
  | none => .error ⟨path ++ js ".condition must be an object"⟩
  | some condition =>
    if !isObject condition then .error ⟨path ++ js ".condition must be an object"⟩
    else
      match condition.get? (js "type") with
      | some (.str s) =>
        if s = js "predicate" then
          assertString (condition.get? (js "expression")) (path ++ js ".condition.expression")
        else .error ⟨path ++ js ".condition.type must be \"predicate\""⟩
      | _ => .error ⟨path ++ js ".condition.type must be \"predicate\""⟩

def validateInvariantShape (raw : Json) (path : JsString) :
    Except RegistryError RawInvariantDefinition := do
  if !isObject raw then
    throw ⟨path ++ js " must be an object"⟩
  let id ← assertString (raw.get? (js "id")) (path ++ js ".id")
  assertOneOf (raw.get? (js "group")) groupNames (path ++ js ".group")
  let scope ← assertOneOf (raw.get? (js "scope")) scopeNames (path ++ js ".scope")
  let description ← assertString (raw.get? (js "description")) (path ++ js ".description")
  let _ ← assertArray (raw.get? (js "applies_to")) (path ++ js ".applies_to")
  let failureMode ←
    assertOneOf (raw.get? (js "failure_mode")) failureModeNames (path ++ js ".failure_mode")
  let expression ← validateCondition (raw.get? (js "condition")) path
  return ⟨id, scope, description, expression, failureMode⟩

def validateRegistryShape (raw : Json) : Except RegistryError RawInvariantRegistry := do
  if !isObject raw then
    throw ⟨js "Registry must be an object"⟩
  let version ← assertString (raw.get? (js "version")) (js "version")
  let registryId ← assertString (raw.get? (js "registry_id")) (js "registry_id")
  let invariants ← assertArray (raw.get? (js "invariants")) (js "invariants")
  let definitions ← invariants.zipIdx.mapM fun e =>
    validateInvariantShape e.1
      (js "invariants[" ++ JsonValue.numberString (.ofNat e.2) ++ js "]")
  return ⟨version, registryId, definitions⟩

/-! ## Compilation -/

/-- A definition, compiled, or the message of the error that refuses it. -/
def compileInvariant (raw : RawInvariantDefinition) : Except JsString CompiledInvariant :=
  match parsePredicate raw.expression with
  | .error e => .error e.message
  | .ok ast =>
    match validatePredicate ast with
    | .error e => .error e.message
    | .ok () => .ok ⟨raw.id, raw.scope, raw.description, ast, raw.failureMode⟩

/-- The lines of the definitions that are refused. -/
def compileErrors (definitions : List RawInvariantDefinition) : List JsString :=
  definitions.filterMap fun raw =>
    match compileInvariant raw with
    | .ok _ => none
    | .error message => some (js "[" ++ raw.id ++ js "] " ++ message)

def duplicates : List JsString → List JsString → List JsString
  | _, [] => []
  | seen, id :: ids => if id ∈ seen then id :: duplicates seen ids else duplicates (id :: seen) ids

def loadInvariantRegistry (raw : Json) : Except RegistryError CompiledInvariantRegistry := do
  let registry ← validateRegistryShape raw
  let compiled := registry.invariants.filterMap fun raw => (compileInvariant raw).toOption
  let errors := compileErrors registry.invariants
  if errors ≠ [] then
    throw ⟨js "Registry contains invalid invariants:\n" ++ joinWith "\n" errors⟩
  let duplicateIds := duplicates [] (compiled.map CompiledInvariant.id)
  if duplicateIds ≠ [] then
    throw ⟨js "Registry contains duplicate invariant id(s): " ++
      joinWith ", " (Json.sortStrings duplicateIds.eraseDups) ++
      js ". Each invariant id must be unique — one id identifies exactly one rule. " ++
      js "Hint: check registry.json for a copy-pasted invariant whose 'id' was not changed."⟩
  return ⟨registry.version, registry.registryId, compiled⟩

theorem compileErrors_eq_nil {definitions : List RawInvariantDefinition}
    {compiled : List CompiledInvariant}
    (h : definitions.map compileInvariant = compiled.map .ok) : compileErrors definitions = [] := by
  apply List.filterMap_eq_nil_iff.mpr
  intro raw hraw
  have hmem := h ▸ List.mem_map_of_mem (f := compileInvariant) hraw
  obtain ⟨c, -, hc⟩ := List.mem_map.mp hmem
  rw [← hc]

/-- What the loader does when every definition compiles and no id stands twice. -/
theorem loadInvariantRegistry_eq_ok {raw : Json} {registry : RawInvariantRegistry}
    {compiled : List CompiledInvariant} (hshape : validateRegistryShape raw = .ok registry)
    (hcompiled : registry.invariants.map compileInvariant = compiled.map .ok)
    (hids : duplicates [] (compiled.map CompiledInvariant.id) = []) :
    loadInvariantRegistry raw = .ok ⟨registry.version, registry.registryId, compiled⟩ := by
  have hfilter : registry.invariants.filterMap (fun raw => (compileInvariant raw).toOption) =
      compiled := by
    have hmap : registry.invariants.filterMap (fun raw => (compileInvariant raw).toOption) =
        (registry.invariants.map compileInvariant).filterMap Except.toOption := by
      rw [List.filterMap_map]
      rfl
    rw [hmap, hcompiled, List.filterMap_map]
    exact List.filterMap_some
  rw [loadInvariantRegistry, hshape]
  simp only [bind, Except.bind, hfilter, compileErrors_eq_nil hcompiled, hids]
  rfl

/-! ## The canonical registry -/

/-- An object literal. -/
def jsonObject (entries : List (String × Json)) : Json :=
  .obj (Json.ofEntries (entries.map fun e => (js e.1, e.2)))

def InvariantScope.text : InvariantScope → JsString
  | state => js "state"
  | transition => js "transition"
  | registration => js "registration"

def FailureMode.text : FailureMode → JsString
  | reject => js "reject"
  | halt => js "halt"

def invariantJson (definition : RawInvariantDefinition) (group : String) (appliesTo : List String) :
    Json :=
  jsonObject [("id", .str definition.id), ("group", .str (js group)),
    ("scope", .str definition.scope.text), ("description", .str definition.description),
    ("applies_to", .arr (appliesTo.map fun field => .str (js field))),
    ("condition",
      jsonObject [("type", .str (js "predicate")), ("expression", .str definition.expression)]),
    ("failure_mode", .str definition.failureMode.text)]

/-- The invariants of `registry.json`, each with its group and the fields it applies to. -/
def canonicalDefinitions : List (RawInvariantDefinition × String × List String) := [
  (⟨js "state.identity.explicit", .state, js "Every State must declare an explicit identity.",
    js "exists(state.id) && state.id != \"\"", .reject⟩, "identity", ["state.id"]),
  (⟨js "state.identity.immutable", .transition,
    js "State identity may not change across a transition.",
    js "transition.from == null || transition.to.id == transition.from", .reject⟩,
    "identity", ["transition.from", "transition.to.id"]),
  (⟨js "state.identity.unique", .registration,
    js "No two registered States may share the same identity.",
    js "transition.from != null || !registry.contains_state(transition.to.id)", .halt⟩,
    "identity", ["state.id"]),
  (⟨js "state.lineage.explicit", .transition,
    js "Every transition must explicitly declare its parent unless root.",
    js "transition.from != null || state.structure.isRoot == true", .reject⟩,
    "lineage", ["transition.from", "state.structure.isRoot"]),
  (⟨js "state.lineage.parent_exists", .registration,
    js "A transition's parent must exist and be registered.",
    js "transition.from == null || registry.contains_state(transition.from)", .reject⟩,
    "lineage", ["transition.from"]),
  (⟨js "state.lineage.single_parent", .transition, js "Transitions may reference only one parent.",
    js "transition.from == null || is_string(transition.from)", .reject⟩,
    "lineage", ["transition.from"]),
  (⟨js "state.lineage.continuous", .registration,
    js "Every accepted Transition must extend an unbroken lineage chain.",
    js "transition.from == null || registry.contains_state(transition.from)", .halt⟩,
    "lineage", ["transition.from"]),
  (⟨js "ordering.total", .registration, js "All accepted states must have a total ordering.",
    js "exists(ordering.index) && ordering.index >= 0", .halt⟩, "ordering", ["ordering.index"]),
  (⟨js "ordering.monotonic", .registration, js "Ordering must be strictly increasing.",
    js "ordering.index > registry.max_order_index()", .reject⟩, "ordering", ["ordering.index"]),
  (⟨js "ordering.deterministic", .registration,
    js "Ordering must be deterministic given identical inputs.",
    js "ordering.index == registry.compute_order_index(transition)", .halt⟩,
    "ordering", ["ordering.index"]),
  (⟨js "ordering.non_semantic", .registration,
    js "Ordering must not depend on State content or meaning.", js "true", .halt⟩,
    "ordering", ["ordering.index"])]

/-- `registry.json`. -/
def registryJson : Json :=
  jsonObject [("version", .str (js "1.0")), ("registry_id", .str (js "registrum.core.invariants")),
    ("status", .str (js "experimental")),
    ("invariants", .arr (canonicalDefinitions.map fun d => invariantJson d.1 d.2.1 d.2.2))]

def path (names : List String) : ASTNode := .identifier (names.map js)

def isNull (node : ASTNode) : ASTNode := .binary .eq node (.literal .null)

def isPresent (node : ASTNode) : ASTNode := .binary .neq node (.literal .null)

def fromPath : ASTNode := path ["transition", "from"]

def toIdPath : ASTNode := path ["transition", "to", "id"]

def indexPath : ASTNode := path ["ordering", "index"]

def callOf (fn : String) (args : List ASTNode) : ASTNode := .call (js fn) args

/-- The trees of the conditions of `registry.json`, in their order. -/
def canonicalTrees : List ASTNode := [
  .binary .and (callOf "exists" [path ["state", "id"]])
    (.binary .neq (path ["state", "id"]) (.literal (.string (js "")))),
  .binary .or (isNull fromPath) (.binary .eq toIdPath fromPath),
  .binary .or (isPresent fromPath) (.unary .not (callOf "registry.contains_state" [toIdPath])),
  .binary .or (isPresent fromPath)
    (.binary .eq (path ["state", "structure", "isRoot"]) (.literal (.boolean true))),
  .binary .or (isNull fromPath) (callOf "registry.contains_state" [fromPath]),
  .binary .or (isNull fromPath) (callOf "is_string" [fromPath]),
  .binary .or (isNull fromPath) (callOf "registry.contains_state" [fromPath]),
  .binary .and (callOf "exists" [indexPath])
    (.binary .gte indexPath (.literal (.number (.finite 0)))),
  .binary .gt indexPath (callOf "registry.max_order_index" []),
  .binary .eq indexPath (callOf "registry.compute_order_index" [path ["transition"]]),
  .literal (.boolean true)]

def compiledWith (raw : RawInvariantDefinition) (ast : ASTNode) : CompiledInvariant :=
  ⟨raw.id, raw.scope, raw.description, ast, raw.failureMode⟩

/-- What `registry.json` compiles to. -/
def canonicalRegistry : CompiledInvariantRegistry where
  version := js "1.0"
  registryId := js "registrum.core.invariants"
  invariants := canonicalDefinitions.zipWith (fun d ast => compiledWith d.1 ast) canonicalTrees

/-- A property of an object literal. -/
theorem get?_jsonObject (entries : List (String × Json)) (key : String) :
    (jsonObject entries).get? (js key) =
      (entries.reverse.find? fun e => e.1 = key).map Prod.snd := by
  have hkey : (fun e : JsString × Json => decide (e.1 = js key)) ∘
      (fun e : String × Json => (js e.1, e.2)) = fun e => decide (e.1 = key) := by
    funext e
    simp
  rw [jsonObject, JsonValue.get?_ofEntries, ← List.map_reverse, List.find?_map, hkey, Option.map_map]
  rfl

theorem validateInvariantShape_invariantJson (definition : RawInvariantDefinition) {group : String}
    (hgroup : group = "identity" ∨ group = "lineage" ∨ group = "ordering")
    (appliesTo : List String) (path : JsString) :
    validateInvariantShape (invariantJson definition group appliesTo) path = .ok definition := by
  have hobject : isObject (invariantJson definition group appliesTo) = true := rfl
  have hgroup : assertOneOf (some (.str (js group))) groupNames (path ++ js ".group") = .ok () := by
    rcases hgroup with rfl | rfl | rfl <;> simp [assertOneOf, groupNames]
  have hscope : assertOneOf (some (.str definition.scope.text)) scopeNames (path ++ js ".scope") =
      .ok definition.scope := by
    cases definition.scope <;> simp [assertOneOf, scopeNames, InvariantScope.text]
  have hmode : assertOneOf (some (.str definition.failureMode.text)) failureModeNames
      (path ++ js ".failure_mode") = .ok definition.failureMode := by
    cases definition.failureMode <;> simp [assertOneOf, failureModeNames, FailureMode.text]
  have hcondition : validateCondition (some (jsonObject [("type", .str (js "predicate")),
      ("expression", .str definition.expression)])) path = .ok definition.expression := by
    simp [validateCondition, get?_jsonObject, assertString]
    rfl
  rw [validateInvariantShape, hobject]
  simp [invariantJson, get?_jsonObject, assertString, assertArray, hgroup, hscope, hmode,
    hcondition, bind, Except.bind, pure, Except.pure]

theorem mapM_validateInvariantShape
    {definitions : List (RawInvariantDefinition × String × List String)}
    (h : ∀ d ∈ definitions, d.2.1 = "identity" ∨ d.2.1 = "lineage" ∨ d.2.1 = "ordering")
    (label : ℕ → JsString) (n : ℕ) :
    ((definitions.map fun d => invariantJson d.1 d.2.1 d.2.2).zipIdx n).mapM
      (fun e => validateInvariantShape e.1 (label e.2)) = .ok (definitions.map Prod.fst) := by
  induction definitions generalizing n with
  | nil => rfl
  | cons d ds ih =>
    rw [List.map_cons, List.zipIdx_cons, List.mapM_cons,
      validateInvariantShape_invariantJson d.1 (h d (.head _)), ih fun d hd => h d (.tail _ hd)]
    rfl

theorem validateRegistryShape_registryJson :
    validateRegistryShape registryJson = .ok ⟨js "1.0", js "registrum.core.invariants",
      canonicalDefinitions.map Prod.fst⟩ := by
  have hgroups : ∀ d ∈ canonicalDefinitions,
      d.2.1 = "identity" ∨ d.2.1 = "lineage" ∨ d.2.1 = "ordering" := by
    simp [canonicalDefinitions]
  have hobject : isObject registryJson = true := rfl
  rw [validateRegistryShape, hobject]
  simp [registryJson, get?_jsonObject, assertString, assertArray, bind, Except.bind, pure,
    Except.pure]
  rw [mapM_validateInvariantShape hgroups
    fun n => js "invariants[" ++ (JsonValue.numberString (.ofNat n) ++ js "]")]

theorem parsePredicate_canonicalDefinitions :
    (canonicalDefinitions.map fun d => parsePredicate d.1.expression) = canonicalTrees.map .ok := by
  simp only [canonicalDefinitions, canonicalTrees, callOf, path, fromPath, toIdPath, indexPath,
    isNull, isPresent, List.map, js_eq_decode]
  decide +kernel

theorem validatePredicate_canonicalTrees : ∀ ast ∈ canonicalTrees, validatePredicate ast = .ok () := by
  simp [canonicalTrees, callOf, path, fromPath, toIdPath, indexPath, isNull, isPresent,
    validatePredicate, walk, walkArguments, validateIdentifier, validateFunction, validateLiteral,
    assertDepth, maxDepth, allowedRoots, forbiddenPathPrefixes, allowedFunctions, safeBound, bind,
    Except.bind]

theorem map_compileInvariant {definitions : List (RawInvariantDefinition × String × List String)}
    {trees : List ASTNode}
    (hparse : (definitions.map fun d => parsePredicate d.1.expression) = trees.map .ok)
    (hvalid : ∀ ast ∈ trees, validatePredicate ast = .ok ()) :
    (definitions.map Prod.fst).map compileInvariant =
      (definitions.zipWith (fun d ast => compiledWith d.1 ast) trees).map .ok := by
  induction definitions generalizing trees with
  | nil => rfl
  | cons d ds ih =>
    cases trees with
    | nil => cases hparse
    | cons ast trees =>
      obtain ⟨hd, hds⟩ := List.cons.inj hparse
      have hcompile : compileInvariant d.1 = .ok (compiledWith d.1 ast) := by
        simp only at hd
        simp only [compileInvariant, hd, hvalid ast (.head _)]
        rfl
      rw [List.map_cons, List.map_cons, hcompile, ih hds fun a ha => hvalid a (.tail _ ha)]
      rfl

theorem loadInvariantRegistry_registryJson :
    loadInvariantRegistry registryJson = .ok canonicalRegistry := by
  apply loadInvariantRegistry_eq_ok validateRegistryShape_registryJson
    (map_compileInvariant parsePredicate_canonicalDefinitions validatePredicate_canonicalTrees)
  simp [canonicalDefinitions, canonicalTrees, compiledWith, duplicates]

end Attestia.Registrum
