import Attestia.Registrum.History

/-!
# Parity of the engines

The conditions of the canonical registry, evaluated, are the predicates of the legacy
engine, one excepted: `state.lineage.explicit` of the registry lets a transition with a
parent declare itself a root. The two engines reach the same outcome exactly elsewhere.
-/

namespace Attestia.Registrum

open Lib EvaluationContext

/-! ## Rules of evaluation -/

section rules

variable {context : EvaluationContext} {l r : ASTNode}

theorem evaluate_and {a b : Bool} (hl : evaluate l context = .ok (.boolean a))
    (hr : evaluate r context = .ok (.boolean b)) :
    evaluate (.binary .and l r) context = .ok (.boolean (a && b)) := by
  rw [evaluate_binary, hl, hr]
  cases a <;> rfl

theorem evaluate_or {a b : Bool} (hl : evaluate l context = .ok (.boolean a))
    (hr : evaluate r context = .ok (.boolean b)) :
    evaluate (.binary .or l r) context = .ok (.boolean (a || b)) := by
  rw [evaluate_binary, hl, hr]
  cases a <;> rfl

theorem evaluate_not {a : Bool} (hl : evaluate l context = .ok (.boolean a)) :
    evaluate (.unary .not l) context = .ok (.boolean !a) := by
  rw [evaluate_unary, hl]
  rfl

/-- An operator that is not logical evaluates both of its operands. -/
theorem evaluate_operator {op : BinaryOperator} (hop : op ≠ .and ∧ op ≠ .or) {a b : JsValue}
    (hl : evaluate l context = .ok a) (hr : evaluate r context = .ok b) :
    evaluate (.binary op l r) context = applyOperator op a b := by
  rw [evaluate_binary, hl, hr]
  simp [evaluateBinary, hop, bind, Except.bind]

theorem evaluate_eq {a b : JsValue} (hl : evaluate l context = .ok a)
    (hr : evaluate r context = .ok b) :
    evaluate (.binary .eq l r) context = .ok (.boolean (strictEquals a b)) :=
  evaluate_operator (by decide) hl hr

theorem evaluate_neq {a b : JsValue} (hl : evaluate l context = .ok a)
    (hr : evaluate r context = .ok b) :
    evaluate (.binary .neq l r) context = .ok (.boolean !strictEquals a b) :=
  evaluate_operator (by decide) hl hr

theorem evaluate_gt {x y : JsNumber} (hl : evaluate l context = .ok (.number x))
    (hr : evaluate r context = .ok (.number y)) :
    evaluate (.binary .gt l r) context = .ok (.boolean (y.lt x)) := by
  rw [evaluate_operator (by decide) hl hr]
  rfl

theorem evaluate_gte {m n : ℤ} (hl : evaluate l context = .ok (.integer m))
    (hr : evaluate r context = .ok (.integer n)) :
    evaluate (.binary .gte l r) context = .ok (.boolean (decide (n ≤ m))) := by
  rw [evaluate_operator (by decide) hl hr]
  simp [applyOperator, compareNumbers, JsValue.integer, JsNumber.le, JsNumber.lt, JsNumber.same,
    le_iff_lt_or_eq]

theorem evaluate_exists {a : JsValue} (hl : evaluate l context = .ok a) :
    evaluate (callOf "exists" [l]) context = .ok (.boolean !a.isNullish) := by
  simp [callOf, evaluateCall, argument, hl, Except.map]

theorem evaluate_isString {a : JsValue} (hl : evaluate l context = .ok a) :
    evaluate (callOf "is_string" [l]) context = .ok (.boolean (a.typeOf = .string)) := by
  simp [callOf, evaluateCall, argument, hl, Except.map]

theorem evaluate_containsState {id : Option StateID} (hl : evaluate l context = .ok (idValue id)) :
    evaluate (callOf "registry.contains_state" [l]) context =
      .ok (.boolean (id.any context.containsState)) := by
  cases id <;>
    simp [callOf, evaluateCall, argument, hl, idValue, bind,
      Except.bind, pure, Except.pure]

theorem evaluate_maxOrderIndex :
    evaluate (callOf "registry.max_order_index" []) context =
      .ok (.number context.maxOrderIndex) := by
  simp [callOf, evaluateCall]

theorem evaluate_computeOrderIndex {a : JsValue} (hl : evaluate l context = .ok a) :
    evaluate (callOf "registry.compute_order_index" [l]) context =
      .ok (.number (context.computeOrderIndex a)) := by
  simp [callOf, evaluateCall, argument, hl, bind, Except.bind, pure,
    Except.pure]

/-! ## Paths -/

variable (context)

theorem evaluate_fromPath :
    evaluate fromPath context = .ok (idValue context.transition.fromId) := by
  simp [fromPath, path, resolveIdentifier, root, transitionValue, JsValue.literal,
    JsValue.literalGet, bind, Except.bind]

theorem evaluate_toIdPath :
    evaluate toIdPath context = .ok (.string context.transition.toState.id) := by
  simp [toIdPath, path, resolveIdentifier, root, transitionValue, stateValue,
    JsValue.literal, JsValue.literalGet, bind, Except.bind]

theorem evaluate_idPath :
    evaluate (path ["state", "id"]) context = .ok (.string context.state.id) := by
  simp [path, resolveIdentifier, root, stateValue, JsValue.literal,
    JsValue.literalGet, bind, Except.bind]

theorem evaluate_isRootPath :
    evaluate (path ["state", "structure", "isRoot"]) context =
      .ok (context.state.struct (js "isRoot")) := by
  simp [path, resolveIdentifier, root, stateValue, structureValue, JsValue.literal,
    JsValue.literalGet, bind, Except.bind]

theorem evaluate_transitionPath :
    evaluate (path ["transition"]) context = .ok context.transitionValue := by
  simp [path, resolveIdentifier, root, bind, Except.bind]

variable {context}

theorem evaluate_indexPath {n : ℤ} (h : context.ordering = some (.finite n)) :
    evaluate indexPath context = .ok (.integer n) := by
  simp [indexPath, path, resolveIdentifier, root, orderingValue, h, JsValue.integer, JsValue.literal,
    JsValue.literalGet, bind, Except.bind]

theorem evaluatePredicate_of_boolean {a : Bool} (h : evaluate l context = .ok (.boolean a)) :
    evaluatePredicate l context = .ok a := by
  rw [evaluatePredicate, h]
  rfl

end rules

theorem strictEquals_true (v : JsValue) : strictEquals v (.boolean true) = v.same (.boolean true) := by
  cases v <;> simp [strictEquals, JsValue.isNullish, JsValue.typeOf, JsValue.same]

theorem strictEquals_idValue_null (id : Option StateID) :
    strictEquals (idValue id) .null = id.isNone := by
  cases id <;> simp [strictEquals, idValue, JsValue.isNullish]

theorem strictEquals_string_idValue (s : JsString) (id : Option StateID) :
    strictEquals (.string s) (idValue id) = id.any fun t => s = t := by
  cases id <;> simp [strictEquals, idValue, JsValue.isNullish, JsValue.typeOf, JsValue.same]

theorem strictEquals_string (s t : JsString) :
    strictEquals (.string s) (.string t) = decide (s = t) := by
  simp [strictEquals, JsValue.isNullish, JsValue.typeOf, JsValue.same]

theorem strictEquals_number (x y : JsNumber) :
    strictEquals (.number x) (.number y) = x.same y := by
  simp [strictEquals, JsValue.isNullish, JsValue.typeOf, JsValue.same]

/-! ## The canonical conditions -/

section conditions

variable (context : EvaluationContext)

theorem evaluate_isNull_fromPath :
    evaluate (isNull fromPath) context = .ok (.boolean context.transition.fromId.isNone) := by
  rw [isNull, evaluate_eq (evaluate_fromPath context) (b := .null) rfl, strictEquals_idValue_null]

theorem evaluate_isPresent_fromPath :
    evaluate (isPresent fromPath) context = .ok (.boolean context.transition.fromId.isSome) := by
  rw [isPresent, evaluate_neq (evaluate_fromPath context) (b := .null) rfl,
    strictEquals_idValue_null, Option.not_isNone]

/-- What the canonical conditions say of a transition, in the order of the registry. -/
def canonicalPasses (n : ℤ) : List Bool :=
  let t := context.transition
  [decide (context.state.id ≠ []),
    t.fromId.all fun id => t.toState.id = id,
    t.fromId.isSome || !context.containsState t.toState.id,
    t.fromId.isSome || isRootState context.state,
    t.fromId.all context.containsState,
    true,
    t.fromId.all context.containsState,
    decide (0 ≤ n),
    context.maxOrderIndex.lt (.finite n),
    (JsNumber.finite n).same (context.computeOrderIndex context.transitionValue),
    true]

theorem evaluatePredicate_canonicalTrees {n : ℤ} (h : context.ordering = some (.finite n)) :
    (canonicalTrees.map fun ast => evaluatePredicate ast context) =
      (canonicalPasses context n).map .ok := by
  have hfrom := evaluate_fromPath context
  have hid := evaluate_idPath context
  have hindex := evaluate_indexPath h
  have hnull := evaluate_isNull_fromPath context
  have hpresent := evaluate_isPresent_fromPath context
  have hcontains := evaluate_or hnull (evaluate_containsState hfrom)
  have hexplicit := evaluate_and (evaluate_exists hid)
    (evaluate_neq hid (r := .literal (.string (js ""))) (b := .string (js "")) rfl)
  have himmutable := evaluate_or hnull (evaluate_eq (evaluate_toIdPath context) hfrom)
  have hto : evaluate toIdPath context = .ok (idValue (some context.transition.toState.id)) :=
    evaluate_toIdPath context
  have hunique := evaluate_or hpresent (evaluate_not (evaluate_containsState hto))
  have hlineage := evaluate_or hpresent (evaluate_eq (evaluate_isRootPath context)
    (r := .literal (.boolean true)) (b := .boolean true) rfl)
  have hsingle := evaluate_or hnull (evaluate_isString hfrom)
  have htotal := evaluate_and (evaluate_exists hindex)
    (evaluate_gte hindex (r := .literal (.number (.finite 0))) (n := 0) rfl)
  have hmonotonic := evaluate_gt hindex evaluate_maxOrderIndex
  have hdeterministic := evaluate_eq hindex
    (evaluate_computeOrderIndex (evaluate_transitionPath context))
  have htrue : evaluatePredicate (.literal (.boolean true)) context = .ok true := rfl
  have hempty : js "" = [] := rfl
  simp only [canonicalTrees, List.map_cons, List.map_nil, evaluatePredicate_of_boolean hcontains,
    evaluatePredicate_of_boolean hexplicit, evaluatePredicate_of_boolean himmutable,
    evaluatePredicate_of_boolean hunique, evaluatePredicate_of_boolean hlineage,
    evaluatePredicate_of_boolean hsingle, evaluatePredicate_of_boolean htotal,
    evaluatePredicate_of_boolean hmonotonic, evaluatePredicate_of_boolean hdeterministic, htrue]
  simp only [canonicalPasses, strictEquals_string_idValue, strictEquals_string,
    JsValue.integer, strictEquals_number, strictEquals_true, isRootState, hempty]
  cases context.transition.fromId <;>
    simp [idValue, JsValue.isNullish, JsValue.typeOf]

end conditions

/-! ## Outcomes of rules -/

/-- A rule as a verdict sees it. -/
structure RuleOutcome where
  id : JsString
  failureMode : FailureMode
  passed : Bool
  deriving DecidableEq

def failedRules (outcomes : List RuleOutcome) : List RuleOutcome :=
  outcomes.filter fun o => !o.passed

def failedIds (outcomes : List RuleOutcome) : List JsString := (failedRules outcomes).map (·.id)

/-- The verdict on a transition, by what its rules say. -/
def verdictOf (outcomes : List RuleOutcome) : NormalizedVerdict :=
  if failedRules outcomes = [] then ⟨.accepted, []⟩
  else
    ⟨if (failedRules outcomes).any fun o => o.failureMode = .halt then .halted else .rejected,
      Json.sortStrings (failedIds outcomes)⟩

theorem verdictOf_eq_of_perm {as bs : List RuleOutcome} (h : as.Perm bs) :
    verdictOf as = verdictOf bs := by
  have hfailed : (failedRules as).Perm (failedRules bs) := h.filter _
  have hnil : failedRules as = [] ↔ failedRules bs = [] :=
    ⟨fun ha => (ha ▸ hfailed).nil_eq.symm, fun hb => (hb ▸ hfailed).eq_nil⟩
  have hhalt : (failedRules as).any (fun o => o.failureMode = .halt) =
      (failedRules bs).any fun o => o.failureMode = .halt :=
    hfailed.any_eq
  have hids : (failedIds as).Perm (failedIds bs) := hfailed.map RuleOutcome.id
  rw [verdictOf, verdictOf, hhalt, Json.sortStrings_eq_of_perm hids]
  simp only [hnil]

/-- A verdict names the rules that have failed. -/
theorem mem_verdictOf {outcomes : List RuleOutcome} {id : JsString} :
    id ∈ (verdictOf outcomes).invariantIds ↔ id ∈ failedIds outcomes := by
  rw [verdictOf]
  split
  · rename_i h
    simp [failedIds, h]
  · exact (List.perm_insertionSort _ _).mem_iff

/-- Accepted with the same order index, or rejected with the same rules. -/
def SameOutcome : RegistrationResult → RegistrationResult → Prop
  | .accepted _ i _, .accepted _ j _ => i = j
  | .rejected vs, .rejected ws =>
    ∀ id, id ∈ vs.map (·.invariantId) ↔ id ∈ ws.map (·.invariantId)
  | _, _ => False

/-- An evaluation says what a list of rules says. -/
structure Judges (r : Registrar) (outcomes : List RuleOutcome) (evaluation : Evaluation) :
    Prop where
  verdict : evaluation.verdict = verdictOf outcomes
  accepted (h : failedIds outcomes = []) :
    ∃ id applied, evaluation.result = .accepted id r.currentOrderIndex applied
  rejected (h : failedIds outcomes ≠ []) :
    ∃ violations, evaluation.result = .rejected violations ∧
      violations.map (·.invariantId) = failedIds outcomes

theorem Judges.sameOutcome_iff {r : Registrar} {as bs : List RuleOutcome} {a b : Evaluation}
    (ha : Judges r as a) (hb : Judges r bs b) :
    SameOutcome a.result b.result ↔ ∀ id, id ∈ failedIds as ↔ id ∈ failedIds bs := by
  by_cases hanil : failedIds as = [] <;> by_cases hbnil : failedIds bs = []
  · obtain ⟨i, applied, hai⟩ := ha.accepted hanil
    obtain ⟨j, applied', hbj⟩ := hb.accepted hbnil
    simp [hai, hbj, SameOutcome, hanil, hbnil]
  · obtain ⟨i, applied, hai⟩ := ha.accepted hanil
    obtain ⟨ws, hbw, hws⟩ := hb.rejected hbnil
    obtain ⟨id, hid⟩ := List.exists_mem_of_ne_nil _ hbnil
    rw [hai, hbw, hanil]
    exact ⟨False.elim, fun h => absurd ((h id).mpr hid) List.not_mem_nil⟩
  · obtain ⟨vs, hav, hvs⟩ := ha.rejected hanil
    obtain ⟨j, applied', hbj⟩ := hb.accepted hbnil
    obtain ⟨id, hid⟩ := List.exists_mem_of_ne_nil _ hanil
    rw [hav, hbj, hbnil]
    exact ⟨False.elim, fun h => absurd ((h id).mp hid) List.not_mem_nil⟩
  · obtain ⟨vs, hav, hvs⟩ := ha.rejected hanil
    obtain ⟨ws, hbw, hws⟩ := hb.rejected hbnil
    rw [hav, hbw, SameOutcome, hvs, hws]

theorem judges_buildRegistrationOutcome (r : Registrar) (outcomes : List RuleOutcome)
    {violations : List InvariantViolation} (hids : violations.map (·.invariantId) = failedIds outcomes)
    {halt : Bool} (hhalt : halt = (failedRules outcomes).any fun o => o.failureMode = .halt)
    (applied : List JsString) (t : Transition) :
    Judges r outcomes (r.buildRegistrationOutcome violations halt applied t) := by
  have hnil : violations = [] ↔ failedRules outcomes = [] := by
    rw [← List.map_eq_nil_iff (f := (·.invariantId)), hids, failedIds, List.map_eq_nil_iff]
  have hnil' : failedIds outcomes = [] ↔ violations = [] := by rw [← hids, List.map_eq_nil_iff]
  by_cases h : violations = []
  · refine ⟨?_, fun _ => ⟨t.toState.id, applied, ?_⟩, fun hne => absurd (hnil'.mpr h) hne⟩
    · simp [Registrar.buildRegistrationOutcome, verdictOf, h, hnil.mp h]
    · simp [Registrar.buildRegistrationOutcome, h]
  · have hfailed : failedRules outcomes ≠ [] := fun hf => h (hnil.mpr hf)
    refine ⟨?_, fun hf => absurd (hnil'.mp hf) h, fun _ => ⟨_, by
      rw [Registrar.buildRegistrationOutcome, if_pos h], ?_⟩⟩
    · simp [Registrar.buildRegistrationOutcome, verdictOf, h, hfailed, hids, hhalt]
    · -- marking a violation as a halt keeps its invariant
      rw [← hids]
      split
      · rw [List.map_map]
        apply List.map_congr_left
        intro v _
        dsimp only [Function.comp]
        split <;> rfl
      · rfl

/-! ## The two engines -/

section engines

variable (r : Registrar) (t : Transition)

def legacyOutcomes (invariants : List Invariant) : List RuleOutcome :=
  invariants.map fun i => ⟨i.id, i.failureMode, i.predicate (r.legacyInput t i)⟩

theorem judges_evaluateLegacyRegistration (invariants : List Invariant) :
    Judges r (legacyOutcomes r t invariants) (r.evaluateLegacyRegistration invariants t) := by
  apply judges_buildRegistrationOutcome
  · rw [failedIds, failedRules, legacyOutcomes, List.filter_map, List.map_map, List.map_map]
    rfl
  · rw [failedRules, legacyOutcomes, List.filter_map, List.any_map]
    rfl

def registryOutcomes (invariants : List CompiledInvariant) (passes : List Bool) :
    List RuleOutcome :=
  (invariants.zip passes).map fun e => ⟨e.1.id, e.1.failureMode, e.2⟩

theorem violatedInvariants_eq_ok {context : EvaluationContext} {invariants : List CompiledInvariant}
    {passes : List Bool}
    (h : (invariants.map fun i => evaluatePredicate i.ast context) = passes.map .ok) :
    Registrar.violatedInvariants context invariants =
      .ok (((invariants.zip passes).filter fun e => !e.2).map Prod.fst) := by
  induction invariants generalizing passes with
  | nil =>
    cases passes with
    | nil => rfl
    | cons b passes => cases h
  | cons i invariants ih =>
    cases passes with
    | nil => cases h
    | cons b passes =>
      obtain ⟨hi, hrest⟩ := List.cons.inj h
      dsimp only at hi
      rw [Registrar.violatedInvariants, hi, ih hrest]
      cases b <;> rfl

theorem judges_evaluateRegistryRegistration {registry : CompiledInvariantRegistry}
    {passes : List Bool}
    (h : (registry.invariants.map fun i =>
      evaluatePredicate i.ast (r.buildEvaluationContext t)) = passes.map .ok) :
    ∃ evaluation, r.evaluateRegistryRegistration registry t = .ok evaluation ∧
      Judges r (registryOutcomes registry.invariants passes) evaluation := by
  refine ⟨_, by rw [Registrar.evaluateRegistryRegistration, violatedInvariants_eq_ok h]; rfl, ?_⟩
  apply judges_buildRegistrationOutcome
  · rw [failedIds, failedRules, registryOutcomes, List.filter_map]
    simp only [List.map_map]
    rfl
  · rw [failedRules, registryOutcomes, List.filter_map, List.any_map, List.any_map]
    rfl

/-! ## The canonical rules of both -/

/-- A transition with a parent that declares itself a root. -/
def DeclaresRoot (t : Transition) : Prop := t.fromId ≠ none ∧ isRootState t.toState = true

theorem map_evaluatePredicate_canonicalRegistry {n : ℤ} {context : EvaluationContext}
    (h : context.ordering = some (.finite n)) :
    (canonicalRegistry.invariants.map fun i => evaluatePredicate i.ast context) =
      (canonicalPasses context n).map .ok := by
  rw [← evaluatePredicate_canonicalTrees context h]
  rfl

def canonicalOutcomes : List RuleOutcome :=
  registryOutcomes canonicalRegistry.invariants
    (canonicalPasses (r.buildEvaluationContext t) r.currentOrderIndex)

variable {r t}

variable (r t) in
/-- What the legacy rules say, in their order. -/
theorem legacyOutcomes_initialInvariants :
    legacyOutcomes r t initialInvariants =
      [⟨js "state.identity.immutable", .reject, t.fromId.all fun id => t.toState.id = id⟩,
        ⟨js "state.identity.explicit", .reject, decide (t.toState.id ≠ [])⟩,
        ⟨js "state.identity.unique", .halt, t.fromId.isSome || !r.latestById.has t.toState.id⟩,
        ⟨js "state.lineage.explicit", .reject, t.fromId.isSome != isRootState t.toState⟩,
        ⟨js "state.lineage.parent_exists", .reject, t.fromId.all r.latestById.has⟩,
        ⟨js "state.lineage.single_parent", .reject, true⟩,
        ⟨js "state.lineage.continuous", .halt, t.fromId.all r.latestById.has⟩,
        ⟨js "ordering.total", .halt, decide (0 ≤ r.currentOrderIndex)⟩,
        ⟨js "ordering.deterministic", .halt, true⟩,
        ⟨js "ordering.monotonic", .reject, decide (0 ≤ r.currentOrderIndex)⟩,
        ⟨js "ordering.non_semantic", .halt, true⟩] := by
  have hhas : ∀ id, decide (id ∈ r.latestById.keys) = r.latestById.has id := by
    intro id
    rw [Bool.eq_iff_iff, decide_eq_true_iff, JsMap.has_eq_true]
  have hid : decide (0 < t.toState.id.length) = !decide (t.toState.id = []) := by
    cases t.toState.id <;> rfl
  cases hfrom : t.fromId <;> cases hroot : isRootState t.toState <;>
    simp [legacyOutcomes, initialInvariants, identityImmutableInvariant, identityExplicitInvariant,
      identityUniqueInvariant, lineageExplicitInvariant, lineageParentExistsInvariant,
      lineageSingleParentInvariant, lineageContinuousInvariant, orderingTotalInvariant,
      orderingDeterministicInvariant, orderingMonotonicInvariant, orderingNonSemanticInvariant,
      Registrar.legacyInput, getTransition, getState, hfrom, hroot, hhas] <;>
    exact hid

variable (r t) in
/-- What the registry says, in its order. -/
theorem canonicalOutcomes_eq :
    canonicalOutcomes r t =
      [⟨js "state.identity.explicit", .reject, decide (t.toState.id ≠ [])⟩,
        ⟨js "state.identity.immutable", .reject, t.fromId.all fun id => t.toState.id = id⟩,
        ⟨js "state.identity.unique", .halt, t.fromId.isSome || !r.latestById.has t.toState.id⟩,
        ⟨js "state.lineage.explicit", .reject, t.fromId.isSome || isRootState t.toState⟩,
        ⟨js "state.lineage.parent_exists", .reject, t.fromId.all r.latestById.has⟩,
        ⟨js "state.lineage.single_parent", .reject, true⟩,
        ⟨js "state.lineage.continuous", .halt, t.fromId.all r.latestById.has⟩,
        ⟨js "ordering.total", .halt, decide (0 ≤ r.currentOrderIndex)⟩,
        ⟨js "ordering.monotonic", .reject,
          decide (roundDouble (r.currentOrderIndex - 1) < r.currentOrderIndex)⟩,
        ⟨js "ordering.deterministic", .halt, decide (r.currentOrderIndex = r.currentOrderIndex)⟩,
        ⟨js "ordering.non_semantic", .halt, true⟩] := by
  have hmonotonic := JsNumber.lt_intCast (roundDouble (r.currentOrderIndex - 1)) r.currentOrderIndex
  have hdeterministic := JsNumber.same_intCast r.currentOrderIndex r.currentOrderIndex
  rw [← hmonotonic, ← hdeterministic]
  rfl

theorem legacyOutcomes_perm_canonicalOutcomes (hr : r.InRange) (h : ¬ DeclaresRoot t) :
    (legacyOutcomes r t initialInvariants).Perm (canonicalOutcomes r t) := by
  have hexplicit : (t.fromId.isSome != isRootState t.toState) =
      (t.fromId.isSome || isRootState t.toState) := by
    cases hfrom : t.fromId <;> cases hroot : isRootState t.toState
    · rfl
    · rfl
    · rfl
    · exact absurd ⟨by simp [hfrom], hroot⟩ h
  have hmonotonic : roundDouble (r.currentOrderIndex - 1) < r.currentOrderIndex := by
    rw [roundDouble_sub_one hr.1 hr.2]
    omega
  rw [legacyOutcomes_initialInvariants, canonicalOutcomes_eq, hexplicit, decide_eq_true hr.1,
    decide_eq_true hmonotonic, decide_eq_true rfl]
  -- the registry begins with the explicit identity and ends with the determinism of the order
  apply (List.Perm.swap _ _ _).trans
  iterate 8 apply List.Perm.cons
  exact List.Perm.swap _ _ _

theorem mem_failedIds_legacyOutcomes (h : DeclaresRoot t) :
    js "state.lineage.explicit" ∈ failedIds (legacyOutcomes r t initialInvariants) := by
  obtain ⟨from_, hfrom⟩ := Option.ne_none_iff_exists'.mp h.1
  rw [legacyOutcomes_initialInvariants, h.2, hfrom]
  apply List.mem_map.mpr
  exact ⟨⟨js "state.lineage.explicit", .reject, false⟩, by simp [failedRules], rfl⟩

theorem not_mem_failedIds_canonicalOutcomes (h : DeclaresRoot t) :
    js "state.lineage.explicit" ∉ failedIds (canonicalOutcomes r t) := by
  obtain ⟨parent, hfrom⟩ := Option.ne_none_iff_exists'.mp h.1
  have hpasses : ∀ o ∈ canonicalOutcomes r t, o.id = js "state.lineage.explicit" →
      o.passed = (t.fromId.isSome || isRootState t.toState) := by
    simp [canonicalOutcomes, registryOutcomes, canonicalRegistry, canonicalDefinitions,
      canonicalTrees, canonicalPasses, compiledWith]
    rfl
  intro hmem
  obtain ⟨o, ho, hid⟩ := List.mem_map.mp hmem
  obtain ⟨ho, hfailed⟩ := List.mem_filter.mp ho
  simp [hpasses o ho hid, hfrom] at hfailed

theorem judges_canonicalRegistry :
    ∃ evaluation, r.evaluateRegistryRegistration canonicalRegistry t = .ok evaluation ∧
      Judges r (canonicalOutcomes r t) evaluation :=
  judges_evaluateRegistryRegistration r t (map_evaluatePredicate_canonicalRegistry rfl)

/-- The two lists of rules name the same failures exactly where no child declares itself a root. -/
theorem failedIds_agree_iff (hr : r.InRange) :
    (∀ id, id ∈ failedIds (canonicalOutcomes r t) ↔
        id ∈ failedIds (legacyOutcomes r t initialInvariants)) ↔ ¬ DeclaresRoot t := by
  constructor
  · intro h hroot
    apply not_mem_failedIds_canonicalOutcomes (r := r) hroot
    exact (h _).mpr (mem_failedIds_legacyOutcomes hroot)
  · intro h id
    have hperm := legacyOutcomes_perm_canonicalOutcomes hr h
    rw [← mem_verdictOf, ← mem_verdictOf, verdictOf_eq_of_perm hperm]

theorem verdictOf_agree_iff (hr : r.InRange) :
    verdictOf (canonicalOutcomes r t) = verdictOf (legacyOutcomes r t initialInvariants) ↔
      ¬ DeclaresRoot t := by
  constructor
  · intro h
    apply (failedIds_agree_iff hr).mp
    intro id
    rw [← mem_verdictOf, ← mem_verdictOf, h]
  · intro h
    exact (verdictOf_eq_of_perm (legacyOutcomes_perm_canonicalOutcomes hr h)).symm

theorem sameOutcome_canonical_iff (hr : r.InRange) {evaluation : Evaluation}
    (h : Judges r (canonicalOutcomes r t) evaluation) :
    SameOutcome evaluation.result (r.evaluateLegacyRegistration initialInvariants t).result ↔
      ¬ DeclaresRoot t := by
  rw [h.sameOutcome_iff (judges_evaluateLegacyRegistration r t initialInvariants),
    failedIds_agree_iff hr]

theorem conclude_ne_parityViolation (evaluation : Evaluation) (a b : JsString) :
    (r.conclude t evaluation).2 ≠ .error (.parityViolation a b) := by
  rw [Registrar.conclude]
  split
  · rw [Registrar.acceptTransition]
    dsimp only
    split <;> simp
  · simp

theorem parityViolation_canonical_iff (hr : r.InRange)
    (hengine : r.engine = .dual canonicalRegistry initialInvariants) :
    (∃ a b, (r.register t).2 = .error (.parityViolation a b)) ↔ DeclaresRoot t := by
  obtain ⟨evaluation, hevaluation, hjudges⟩ := judges_canonicalRegistry (r := r) (t := t)
  have hlegacy := (judges_evaluateLegacyRegistration r t initialInvariants).verdict
  rw [Registrar.register, hengine]
  dsimp only
  rw [Registrar.registerWithDualWitness, hevaluation]
  dsimp only
  rw [hjudges.verdict, hlegacy]
  split
  · rename_i hne
    rw [ne_eq, verdictOf_agree_iff hr, not_not] at hne
    exact ⟨fun _ => hne, fun _ => ⟨_, _, rfl⟩⟩
  · rename_i heq
    rw [ne_eq, not_not, verdictOf_agree_iff hr] at heq
    constructor
    · rintro ⟨a, b, h⟩
      exact absurd h (conclude_ne_parityViolation _ a b)
    · exact fun h => absurd h heq

end engines

/-- In every state that calls of `register` lead to, the engines reach the same outcome on the
next transition, and dual mode does not throw, exactly where no child declares itself a root. -/
theorem parity_iff {engine : Engine} {r : Registrar} (hr : (registrarSystem engine).Reachable r)
    {registry : CompiledInvariantRegistry}
    (hload : loadInvariantRegistry registryJson = .ok registry) (t : Transition) :
    ∃ evaluation, r.evaluateRegistryRegistration registry t = .ok evaluation ∧
      (SameOutcome evaluation.result (r.evaluateLegacyRegistration initialInvariants t).result ↔
        ¬ DeclaresRoot t) ∧
      (engine = .dual registry initialInvariants →
        ((∃ a b, (r.register t).2 = .error (.parityViolation a b)) ↔ DeclaresRoot t)) := by
  rw [loadInvariantRegistry_registryJson] at hload
  cases hload
  have hrange := Registrar.inRange_of_reachable hr
  obtain ⟨evaluation, hevaluation, hjudges⟩ := judges_canonicalRegistry (r := r) (t := t)
  refine ⟨evaluation, hevaluation, sameOutcome_canonical_iff hrange hjudges, fun hengine => ?_⟩
  apply parityViolation_canonical_iff hrange
  rw [Registrar.engine_of_reachable hr, hengine]

/-- Behind a root and a new version of it, the root is refused by both engines where it comes from
nothing, and by one of them where it comes from itself. -/
theorem parity_iff_versions : ∃ r,
    (registrarSystem (.dual canonicalRegistry initialInvariants)).run
        (.new (.dual canonicalRegistry initialInvariants))
        [⟨none, rootState (js "a")⟩, ⟨some (js "a"), plainState (js "a")⟩] = some r ∧
      (¬ ∃ a b, (r.register ⟨none, rootState (js "a")⟩).2 = .error (.parityViolation a b)) ∧
      ∃ a b, (r.register ⟨some (js "a"), rootState (js "a")⟩).2 = .error (.parityViolation a b) := by
  obtain ⟨r, hrun⟩ : ∃ r, (registrarSystem (.dual canonicalRegistry initialInvariants)).run
      (.new (.dual canonicalRegistry initialInvariants))
      [⟨none, rootState (js "a")⟩, ⟨some (js "a"), plainState (js "a")⟩] = some r := ⟨_, rfl⟩
  have hr := System.Reachable.run (.init rfl) hrun
  refine ⟨r, hrun, fun hviolation => ?_, ?_⟩
  · obtain ⟨_, -, -, h⟩ := parity_iff hr loadInvariantRegistry_registryJson
      ⟨none, rootState (js "a")⟩
    exact ((h rfl).mp hviolation).1 rfl
  · obtain ⟨_, -, -, h⟩ := parity_iff hr loadInvariantRegistry_registryJson
      ⟨some (js "a"), rootState (js "a")⟩
    exact (h rfl).mpr ⟨Option.some_ne_none _, isRootState_rootState _⟩

/-- A root that is registered again from itself: the registry accepts what the rules of the
legacy engine reject. -/
theorem not_parity_repeatedRoot :
    let t : Transition := ⟨some (js "a"), rootState (js "a")⟩
    ∃ r evaluation,
      (registrarSystem (.dual canonicalRegistry initialInvariants)).run
          (.new (.dual canonicalRegistry initialInvariants)) [⟨none, rootState (js "a")⟩] = some r ∧
        r.evaluateRegistryRegistration canonicalRegistry t = .ok evaluation ∧
        ¬ SameOutcome evaluation.result
          (r.evaluateLegacyRegistration initialInvariants t).result ∧
        ∃ a b, (r.register t).2 = .error (.parityViolation a b) := by
  intro t
  have hroot : DeclaresRoot t := ⟨by simp [t], isRootState_rootState _⟩
  have hreachable : (registrarSystem (.dual canonicalRegistry initialInvariants)).Reachable
      ((Registrar.new (.dual canonicalRegistry initialInvariants)).register
        ⟨none, rootState (js "a")⟩).1 := .step (.init rfl) trivial rfl
  have hrange := Registrar.inRange_of_reachable hreachable
  obtain ⟨evaluation, hevaluation, hjudges⟩ := judges_canonicalRegistry (t := t)
  refine ⟨_, evaluation, rfl, hevaluation, ?_, ?_⟩
  · rw [sameOutcome_canonical_iff hrange hjudges, not_not]
    exact hroot
  · exact (parityViolation_canonical_iff hrange
      (Registrar.engine_of_reachable hreachable)).mpr hroot

end Attestia.Registrum
