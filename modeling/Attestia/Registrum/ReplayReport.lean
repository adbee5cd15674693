import Attestia.Registrum.Replay

/-!
# What a report says of rejected calls

`persistence/replay.ts`: `replay` and the recorder tell a halt by the text of the violations, in
which ids and descriptions stand. The report and the failure modes of the violated rules
agree where no such text says more than its rule.
-/

namespace Attestia.Registrum

open Lib

/-! ## The recorder -/

/-- `createTransitionRecorder`. -/
structure TransitionRecorder where
  transitions : List Transition
  results : List RegistrationResult

namespace TransitionRecorder

def empty : TransitionRecorder := ⟨[], []⟩

def record (recorder : TransitionRecorder) (transition : Transition) (result : RegistrationResult) :
    TransitionRecorder :=
  ⟨recorder.transitions ++ [transition], recorder.results ++ [result]⟩

def toReport (recorder : TransitionRecorder) : ReplayReport :=
  let replayResults := (recorder.transitions.zip recorder.results).zipIdx.map fun e =>
    (⟨e.2, e.1.1, e.1.2, classify e.1.2⟩ : ReplayResult)
  let count (outcome : ReplayOutcome) :=
    (replayResults.filter fun e => e.outcome = outcome).length
  ⟨recorder.results.length, count .accepted, count .rejected, count .halted, replayResults⟩

end TransitionRecorder

/-- A live registrar whose calls are recorded where they return. -/
def Registrar.recordCalls (r : Registrar) (recorder : TransitionRecorder) :
    List Transition → TransitionRecorder
  | [] => recorder
  | t :: ts =>
    let call := r.register t
    match call.2 with
    | .ok result => call.1.recordCalls (recorder.record t result) ts
    | .error _ => call.1.recordCalls recorder ts

/-! ## The violated rules -/

/-- What both engines know of a rule that a transition violates. -/
structure ViolatedRule where
  id : JsString
  description : JsString
  failureMode : FailureMode

def Invariant.violated (i : Invariant) : ViolatedRule := ⟨i.id, i.description, i.failureMode⟩

def CompiledInvariant.violated (i : CompiledInvariant) : ViolatedRule :=
  ⟨i.id, i.description, i.failureMode⟩

namespace Registrar

def legacyRules (r : Registrar) (invariants : List Invariant) (t : Transition) :
    List ViolatedRule :=
  (invariants.filter fun i => !i.predicate (r.legacyInput t i)).map Invariant.violated

def registryRules (r : Registrar) (registry : CompiledInvariantRegistry) (t : Transition) :
    Except TypeError (List ViolatedRule) :=
  (violatedInvariants (r.buildEvaluationContext t) registry.invariants).map fun violated =>
    violated.map CompiledInvariant.violated

/-- The rules that an answer is about; where both engines agree it is that of the registry. -/
def violatedRules (r : Registrar) (t : Transition) : Except TypeError (List ViolatedRule) :=
  match r.engine with
  | .legacy invariants => .ok (r.legacyRules invariants t)
  | .registry registry => r.registryRules registry t
  | .dual registry _ => r.registryRules registry t

end Registrar

/-- Some violated rule halts. -/
def anyHalts (rules : List ViolatedRule) : Bool := rules.any fun rule => rule.failureMode = .halt

/-- The outcome of a result by the failure modes of the violated rules. -/
def outcomeOf (rules : List ViolatedRule) : RegistrationResult → ReplayOutcome
  | .accepted _ _ _ => .accepted
  | .rejected _ => if anyHalts rules then .halted else .rejected

/-- The text of a violation before a halt is marked. -/
def Registrar.violationText (r : Registrar) (t : Transition) (rule : ViolatedRule) : JsString :=
  (Registrar.makeViolation rule.id rule.description rule.failureMode
    (r.registrationOperands t)).message

/-- A call that returns, with the registrar it is made on. -/
structure ReturnedCall where
  registrar : Registrar
  transition : Transition
  result : RegistrationResult

/-- The calls of a list that return. -/
def Registrar.returnedCalls (r : Registrar) : List Transition → List ReturnedCall
  | [] => []
  | t :: ts =>
    let call := r.register t
    match call.2 with
    | .ok result => ⟨r, t, result⟩ :: call.1.returnedCalls ts
    | .error _ => call.1.returnedCalls ts

namespace ReturnedCall

variable (c : ReturnedCall)

def rules : List ViolatedRule := (c.registrar.violatedRules c.transition).toOption.getD []

def outcome : ReplayOutcome := outcomeOf c.rules c.result

/-- A violated rule halts, or the text of none contains the mark of a halt. -/
def Plain : Prop :=
  anyHalts c.rules = true ∨
    ∀ rule ∈ c.rules, ¬ js "[HALT]" <:+: c.registrar.violationText c.transition rule

end ReturnedCall

/-! ## One call -/

namespace Registrar

/-- The evaluation that violated rules lead to. -/
def evaluationOf (r : Registrar) (rules : List ViolatedRule) (applied : List JsString)
    (t : Transition) : Evaluation :=
  r.buildRegistrationOutcome
    (rules.map fun rule => makeViolation rule.id rule.description rule.failureMode
      (r.registrationOperands t)) (anyHalts rules) applied t

theorem evaluateLegacyRegistration_eq (r : Registrar) (invariants : List Invariant)
    (t : Transition) : r.evaluateLegacyRegistration invariants t =
      r.evaluationOf (r.legacyRules invariants t) (invariants.map (·.id)) t := by
  rw [evaluationOf, anyHalts, legacyRules, List.map_map, List.any_map]
  rfl

theorem evaluateRegistryRegistration_eq (r : Registrar) (registry : CompiledInvariantRegistry)
    (t : Transition) : r.evaluateRegistryRegistration registry t =
      (r.registryRules registry t).map fun rules =>
        r.evaluationOf rules (registry.invariants.map (·.id)) t := by
  rw [evaluateRegistryRegistration, registryRules]
  cases violatedInvariants (r.buildEvaluationContext t) registry.invariants with
  | error e => rfl
  | ok violated =>
    simp only [Except.map, evaluationOf, anyHalts, List.map_map, List.any_map]
    rfl

/-- Without a violated rule the call ends in `acceptTransition`. -/
theorem conclude_evaluationOf_nil (r s : Registrar) (applied : List JsString) (t : Transition) :
    s.conclude t (r.evaluationOf [] applied t) = s.acceptTransition t applied := rfl

theorem conclude_evaluationOf {r s : Registrar} {rules : List ViolatedRule} (hne : rules ≠ [])
    (applied : List JsString) (t : Transition) :
    ∃ violations, s.conclude t (r.evaluationOf rules applied t) = (s, .ok (.rejected violations)) ∧
      ((violations.any fun v => js "[HALT]" <:+: v.message) = true ↔
        anyHalts rules = true ∨ ∃ rule ∈ rules, js "[HALT]" <:+: r.violationText t rule) := by
  have hviolations : (rules.map fun rule => makeViolation rule.id rule.description rule.failureMode
      (r.registrationOperands t)) ≠ [] := fun hnil => hne (List.map_eq_nil_iff.mp hnil)
  rw [evaluationOf, buildRegistrationOutcome, if_pos hviolations]
  cases hhalts : anyHalts rules with
  | false =>
    refine ⟨_, rfl, ?_⟩
    simp [violationText]
  | true =>
    refine ⟨_, rfl, ?_⟩
    -- the text of the rule that halts is marked
    obtain ⟨⟨id, description, mode⟩, hrule, hmode⟩ := List.any_eq_true.mp hhalts
    obtain rfl : mode = .halt := of_decide_eq_true hmode
    simp only [if_true, true_or, iff_true, List.map_map, List.any_map, List.any_eq_true,
      Function.comp_apply, decide_eq_true_eq]
    refine ⟨_, hrule, ?_⟩
    exact List.IsInfix.trans (List.prefix_append (js "[HALT]") (js " ")).isInfix
      (List.prefix_append (js "[HALT] ") _).isInfix

/-- A mark in front of the texts of halts is found, and nothing else is where no rule halts. -/
theorem classify_conclude {r s : Registrar} {rules : List ViolatedRule} {applied : List JsString}
    {t : Transition} {result : RegistrationResult}
    (h : (s.conclude t (r.evaluationOf rules applied t)).2 = .ok result) :
    classify result = outcomeOf rules result ↔
      (anyHalts rules = true ∨ ∀ rule ∈ rules, ¬ js "[HALT]" <:+: r.violationText t rule) := by
  by_cases hne : rules = []
  · subst hne
    rw [conclude_evaluationOf_nil, acceptTransition] at h
    dsimp only at h
    split at h
    · cases h
    · cases h
      exact iff_of_true rfl (.inr fun rule hrule => absurd hrule List.not_mem_nil)
  · obtain ⟨violations, hconclude, hmarked⟩ :=
      conclude_evaluationOf (r := r) (s := s) hne applied t
    rw [hconclude] at h
    cases h
    dsimp only [classify, outcomeOf]
    cases hhalts : anyHalts rules with
    | true => simp [hmarked.mpr (.inl hhalts)]
    | false =>
      rw [hhalts] at hmarked
      cases hany : violations.any fun v => js "[HALT]" <:+: v.message with
      | true =>
        obtain ⟨rule, hrule, htext⟩ := (hmarked.mp hany).resolve_left Bool.false_ne_true
        simp only [if_true, Bool.false_eq_true, if_false, false_or, reduceCtorEq, false_iff]
        exact fun hplain => hplain rule hrule htext
      | false =>
        simp only [Bool.false_eq_true, if_false, false_or, true_iff]
        intro rule hrule htext
        rw [hmarked.mpr (.inr ⟨rule, hrule, htext⟩)] at hany
        cases hany

/-- A call that returns evaluates the violated rules of its engine. -/
theorem exists_conclude {r : Registrar} {t : Transition} {result : RegistrationResult}
    (h : (r.register t).2 = .ok result) :
    ∃ (rules : List ViolatedRule) (s : Registrar) (applied : List JsString),
      r.violatedRules t = .ok rules ∧
        (s.conclude t (r.evaluationOf rules applied t)).2 = .ok result := by
  rw [register] at h
  unfold violatedRules
  cases hengine : r.engine with
  | legacy invariants =>
    rw [hengine] at h
    dsimp only at h ⊢
    rw [registerWithLegacy, evaluateLegacyRegistration_eq] at h
    exact ⟨_, r, _, rfl, h⟩
  | registry registry =>
    rw [hengine] at h
    dsimp only at h ⊢
    rw [registerWithRegistry, evaluateRegistryRegistration_eq] at h
    cases hrules : r.registryRules registry t with
    | error e =>
      rw [hrules] at h
      cases h
    | ok rules =>
      rw [hrules] at h
      exact ⟨rules, r, _, rfl, h⟩
  | dual registry invariants =>
    rw [hengine] at h
    dsimp only at h ⊢
    rw [registerWithDualWitness, evaluateRegistryRegistration_eq] at h
    cases hrules : r.registryRules registry t with
    | error e =>
      rw [hrules] at h
      cases h
    | ok rules =>
      rw [hrules] at h
      dsimp only [Except.map] at h
      split at h
      · cases h
      · exact ⟨rules, _, _, rfl, h⟩

theorem verdict_evaluationOf (r : Registrar) (rules : List ViolatedRule) (applied : List JsString)
    (t : Transition) :
    (r.evaluationOf rules applied t).verdict.kind = .halted ↔ anyHalts rules = true := by
  rw [evaluationOf, buildRegistrationOutcome]
  cases rules with
  | nil => exact iff_of_false (fun h => by cases h) Bool.false_ne_true
  | cons rule rules =>
    rw [List.map_cons, if_pos (List.cons_ne_nil _ _)]
    cases anyHalts (rule :: rules) <;> simp

/-- Where both engines judge, the violated rules of either halt or those of neither do. -/
theorem anyHalts_legacyRules {r : Registrar} {registry : CompiledInvariantRegistry}
    {invariants : List Invariant} {t : Transition} {result : RegistrationResult}
    (hengine : r.engine = .dual registry invariants) (h : (r.register t).2 = .ok result)
    {rules : List ViolatedRule} (hrules : r.violatedRules t = .ok rules) :
    anyHalts (r.legacyRules invariants t) = anyHalts rules := by
  rw [violatedRules, hengine] at hrules
  rw [register, hengine] at h
  dsimp only at h hrules
  rw [registerWithDualWitness, evaluateRegistryRegistration_eq, hrules,
    evaluateLegacyRegistration_eq] at h
  dsimp only [Except.map] at h
  split at h
  · cases h
  · rename_i hverdict
    have hkind := congrArg NormalizedVerdict.kind (not_not.mp hverdict)
    rw [Bool.eq_iff_iff, ← verdict_evaluationOf r (r.legacyRules invariants t), ← hkind,
      verdict_evaluationOf]

end Registrar

namespace ReturnedCall

theorem classify_eq_outcome {c : ReturnedCall}
    (h : (c.registrar.register c.transition).2 = .ok c.result) :
    classify c.result = c.outcome ↔ c.Plain := by
  obtain ⟨rules, s, applied, hrules, hconclude⟩ := Registrar.exists_conclude h
  have hown : c.rules = rules := by
    rw [ReturnedCall.rules, hrules]
    rfl
  rw [outcome, Plain, hown]
  exact Registrar.classify_conclude hconclude

end ReturnedCall

/-! ## Reports -/

theorem register_of_mem_returnedCalls {r : Registrar} {ts : List Transition} {c : ReturnedCall}
    (hc : c ∈ r.returnedCalls ts) : (c.registrar.register c.transition).2 = .ok c.result := by
  induction ts generalizing r with
  | nil => cases hc
  | cons t ts ih =>
    rw [Registrar.returnedCalls] at hc
    split at hc
    · rename_i result hresult
      rcases List.mem_cons.mp hc with rfl | hc
      · exact hresult
      · exact ih hc
    · exact ih hc

/-- The classifications of a list of calls are their outcomes where every call is plain. -/
theorem map_classify_eq_iff (r : Registrar) (ts : List Transition) :
    (r.returnedCalls ts).map (fun c => classify c.result) =
        (r.returnedCalls ts).map ReturnedCall.outcome ↔
      ∀ c ∈ r.returnedCalls ts, c.Plain := by
  rw [List.map_inj_left]
  apply forall₂_congr
  intro c hc
  exact ReturnedCall.classify_eq_outcome (register_of_mem_returnedCalls hc)

/-- A replay that returns has an outcome for each call of a registrar. -/
theorem outcomes_replayFrom {r : Registrar} {i : ℕ} {ts : List Transition}
    {results : List ReplayResult} (h : replayFrom r i ts = .ok results) :
    results.map ReplayResult.outcome =
      (r.returnedCalls ts).map fun c => classify c.result := by
  induction ts generalizing r i results with
  | nil =>
    cases h
    rfl
  | cons t ts ih =>
    rw [replayFrom] at h
    obtain ⟨result, hresult, h⟩ := bind_eq_ok.mp h
    obtain ⟨rest, hrest, h⟩ := bind_eq_ok.mp h
    cases h
    rw [Registrar.returnedCalls]
    simp only [hresult, List.map_cons, ih hrest]

theorem results_recordCalls (r : Registrar) (recorder : TransitionRecorder) (ts : List Transition) :
    (r.recordCalls recorder ts).transitions =
        recorder.transitions ++ (r.returnedCalls ts).map ReturnedCall.transition ∧
      (r.recordCalls recorder ts).results =
        recorder.results ++ (r.returnedCalls ts).map ReturnedCall.result := by
  induction ts generalizing r recorder with
  | nil => exact ⟨(List.append_nil _).symm, (List.append_nil _).symm⟩
  | cons t ts ih =>
    rw [Registrar.recordCalls, Registrar.returnedCalls]
    split
    · rename_i result _
      obtain ⟨htransitions, hresults⟩ := ih (r.register t).1 (recorder.record t result)
      rw [htransitions, hresults]
      exact ⟨List.append_assoc _ _ _, List.append_assoc _ _ _⟩
    · exact ih (r.register t).1 recorder

theorem outcomes_toReport {recorder : TransitionRecorder}
    (hlength : recorder.transitions.length = recorder.results.length) :
    recorder.toReport.results.map ReplayResult.outcome = recorder.results.map classify := by
  have hsnd : (recorder.transitions.zip recorder.results).map Prod.snd = recorder.results :=
    List.map_snd_zip hlength.ge
  rw [TransitionRecorder.toReport]
  dsimp only
  rw [List.map_map]
  conv_rhs => rw [← hsnd, List.map_map]
  conv_rhs => rw [← List.zipIdx_map_fst 0 (recorder.transitions.zip recorder.results), List.map_map]
  rfl

/-- The outcomes that a replay reports, and those that a recorder of a live registrar reports, are
those of the violated rules exactly where no text of a violated rule contains the mark of a halt
while no violated rule halts. -/
theorem replay_outcomes_iff (engine : Engine) (r : Registrar) (transitions : List Transition) :
    (∀ report, replay transitions engine = .ok report →
      let calls := (Registrar.new engine).returnedCalls transitions
      (report.results.map ReplayResult.outcome = calls.map ReturnedCall.outcome ↔
        ∀ c ∈ calls, c.Plain)) ∧
    let report := (r.recordCalls .empty transitions).toReport
    let calls := r.returnedCalls transitions
    (report.results.map ReplayResult.outcome = calls.map ReturnedCall.outcome ↔
      ∀ c ∈ calls, c.Plain) := by
  constructor
  · intro report h
    obtain ⟨results, hresults, h⟩ := bind_eq_ok.mp h
    cases h
    dsimp only
    rw [outcomes_replayFrom hresults]
    exact map_classify_eq_iff _ transitions
  · obtain ⟨htransitions, hresults⟩ := results_recordCalls r .empty transitions
    have hlength : (r.recordCalls .empty transitions).transitions.length =
        (r.recordCalls .empty transitions).results.length := by
      rw [htransitions, hresults]
      simp [TransitionRecorder.empty]
    dsimp only
    rw [outcomes_toReport hlength, hresults]
    show (([] : List RegistrationResult) ++ _).map classify = _ ↔ _
    rw [List.nil_append, List.map_map]
    exact map_classify_eq_iff r transitions

/-- A root, and the same root again. -/
theorem replay_outcomes_iff_root_twice :
    let engine := Engine.legacy initialInvariants
    let t : Transition := ⟨none, rootState (js "a")⟩
    let transitions := [t, t]
    let calls := (Registrar.new engine).returnedCalls transitions
    ∃ report, replay transitions engine = .ok report ∧
      (report.results.map ReplayResult.outcome = calls.map ReturnedCall.outcome ↔
        ∀ c ∈ calls, c.Plain) := by
  intro engine t transitions calls
  have hok : (replay transitions engine).isOk = true := by decide +kernel
  cases h : replay transitions engine with
  | error e =>
    rw [h] at hok
    cases hok
  | ok report =>
    exact ⟨report, rfl, (replay_outcomes_iff engine (.new engine) transitions).1 report h⟩

/-- An id that contains the mark: a rejected transition is reported as a halt. -/
theorem replay_reports_halt :
    let engine := Engine.legacy initialInvariants
    let transitions : List Transition :=
      [⟨none, rootState (js "a")⟩, ⟨some (js "a"), ⟨js "[HALT]", fun _ => .undefined⟩⟩]
    ((replay transitions engine).map fun report => report.results.map ReplayResult.outcome) =
        .ok [.accepted, .halted] ∧
      ((Registrar.new engine).returnedCalls transitions).map ReturnedCall.outcome =
        [.accepted, .rejected] := by
  decide +kernel

end Attestia.Registrum
