import Attestia.Reconciler.Types
import Attestia.Registrum.RunInvariant

/-!
# The attestor

`attestor.ts`: a report is registered as a version of one state, the attestation of this attestor.
The attestor remembers the state that it has registered last, and its transition is a root while it
remembers none.
-/

namespace Attestia.Reconciler

open Lib JsonNumber Registrum

structure AttestationRecord where
  id : JsString
  reconciliationId : JsString
  allReconciled : Bool
  summary : ReconciliationSummary
  attestedBy : JsString
  attestedAt : JsString
  reportHash : JsString

/-- What the hash of a report covers. -/
structure IntegrityContent where
  scope : ReconciliationScope
  intentLedgerMatches : List IntentLedgerMatch
  ledgerChainMatches : List LedgerChainMatch
  intentChainMatches : List IntentChainMatch
  summary : ReconciliationSummary

/-- What an attestation throws: its message where it is rejected, or what `register` throws. -/
inductive AttestFault where
  | rejected (message : JsString)
  | register (error : RegisterError)

structure Attestor where
  attestorId : JsString
  lastStateId : Option StateID

namespace Attestor

def new (attestorId : JsString) : Attestor := ⟨attestorId, none⟩

def stateId (a : Attestor) : StateID := js "attestation:" ++ a.attestorId

section

variable (canonicalize : IntegrityContent → String)

def hashReport (report : ReconciliationReport) : JsString :=
  js (hexEncode (sha256 (Utf8.encode (canonicalize ⟨report.scope, report.intentLedgerMatches,
    report.ledgerChainMatches, report.intentChainMatches, report.summary⟩).toList)))

/-- The entries of the structure. -/
def structureOf (a : Attestor) (report : ReconciliationReport) (attestedAt : JsString) :
    List (String × JsValue) :=
  (if a.lastStateId = none then [("isRoot", .boolean true)] else []) ++
    [("type", .string (js "reconciliation-attestation")),
      ("reconciliationId", .string report.id),
      ("allReconciled", .boolean report.summary.allReconciled),
      ("matchedCount", .integer report.summary.matchedCount),
      ("mismatchCount", .integer report.summary.mismatchCount),
      ("missingCount", .integer report.summary.missingCount),
      ("reportHash", .string (hashReport canonicalize report)),
      ("attestedBy", .string a.attestorId),
      ("attestedAt", .string attestedAt)]

/-- The state of an attestation; its data is the report, which the registrar does not read. -/
def state (a : Attestor) (report : ReconciliationReport) (attestedAt : JsString) : State where
  id := a.stateId
  struct key := (((a.structureOf canonicalize report attestedAt).find? fun e => js e.1 = key).map
    Prod.snd).getD .undefined

def transition (a : Attestor) (report : ReconciliationReport) (attestedAt : JsString) :
    Transition :=
  ⟨a.lastStateId, a.state canonicalize report attestedAt⟩

def record (a : Attestor) (report : ReconciliationReport) (attestedAt : JsString) :
    AttestationRecord where
  id := js "att:" ++ report.id
  reconciliationId := report.id
  allReconciled := report.summary.allReconciled
  summary := report.summary
  attestedBy := a.attestorId
  attestedAt := attestedAt
  reportHash := hashReport canonicalize report

/-- `_attestInner`, which runs under the lock. -/
def attestInner (a : Attestor) (registrar : Registrar) (report : ReconciliationReport)
    (attestedAt : JsString) : (Registrar × Attestor) × Except AttestFault AttestationRecord :=
  match registrar.register (a.transition canonicalize report attestedAt) with
  | (registrar, .error error) => ((registrar, a), .error (.register error))
  | (registrar, .ok (.rejected violations)) =>
    ((registrar, a), .error (.rejected (js "Attestation rejected by Registrum: " ++
      joinWith "; " (violations.map InvariantViolation.message))))
  | (registrar, .ok (.accepted stateId _ _)) =>
    ((registrar, { a with lastStateId := some stateId }),
      .ok (a.record canonicalize report attestedAt))

end

/-! ## What the registrar answers -/

section

variable {canonicalize : IntegrityContent → String} {a : Attestor} {r : Registrar}
  {report : ReconciliationReport} {attestedAt : JsString}

theorem stateId_ne_nil (a : Attestor) : a.stateId ≠ [] := by
  intro h
  have htext : js "attestation:" = [] := (List.append_eq_nil_iff.mp h).1
  exact absurd htext (by decide)

theorem isRootState_state :
    isRootState (a.state canonicalize report attestedAt) = a.lastStateId.isNone := by
  rw [isRootState, state, structureOf]
  cases a.lastStateId with
  | none => rfl
  | some id =>
    have hnames : ∀ name ∈ ["type", "reconciliationId", "allReconciled", "matchedCount",
        "mismatchCount", "missingCount", "reportHash", "attestedBy", "attestedAt"],
        js name ≠ js "isRoot" := by decide +kernel
    rw [if_neg (Option.some_ne_none id), List.nil_append]
    dsimp only
    rw [List.find?_eq_none.mpr]
    · rfl
    · intro e he hname
      exact hnames e.1 (List.mem_map_of_mem he) (of_decide_eq_true hname)

/-- The attestor remembers an attestation exactly where the registrar has one. -/
def Continues (a : Attestor) (r : Registrar) : Prop :=
  (a.lastStateId = none ∧ a.stateId ∉ r.latestById.keys) ∨
    (a.lastStateId = some a.stateId ∧ a.stateId ∈ r.latestById.keys)

theorem Continues.lawful (h : a.Continues r) :
    Lawful r (a.transition canonicalize report attestedAt) := by
  rcases h with ⟨hlast, hnew⟩ | ⟨hlast, hregistered⟩
  · refine ⟨a.stateId_ne_nil, fun _ => ⟨?_, hnew⟩, fun p hp => ?_⟩
    · rw [transition, isRootState_state, hlast]
      rfl
    · rw [transition, hlast] at hp
      cases hp
  · refine ⟨a.stateId_ne_nil, fun hnone => ?_, fun p hp => ?_⟩
    · rw [transition, hlast] at hnone
      cases hnone
    · rw [transition, hlast] at hp
      cases hp
      refine ⟨rfl, hregistered, ?_⟩
      rw [transition, isRootState_state, hlast]
      rfl

/-- An attestation that continues the registrar is a new version, unless its key is used. -/
theorem attestInner_of_continues (hengine : r.engine = .legacy initialInvariants)
    (hcursor : 0 ≤ r.currentOrderIndex) (h : a.Continues r) :
    a.attestInner canonicalize r report attestedAt =
      let t := a.transition canonicalize report attestedAt
      if (r.nextVersion t).versionKey ∈ r.versionsByKey.keys then
        ((r.advanced, a), .error (.register (.appendOnlyViolation (r.nextVersion t).versionKey)))
      else
        ((r.appended t, { a with lastStateId := some a.stateId }),
          .ok (a.record canonicalize report attestedAt)) := by
  obtain ⟨applied, hdecision⟩ := h.lawful.decision hengine hcursor
  have haccept := r.acceptTransition_withStatus r.lastParityStatus
    (a.transition canonicalize report attestedAt) applied
  have hregister : r.register (a.transition canonicalize report attestedAt) = _ :=
    (r.register_eq_carryOut _).trans ((congrArg _ hdecision).trans haccept)
  rw [attestInner, hregister]
  dsimp only
  by_cases hkey : (r.nextVersion (a.transition canonicalize report attestedAt)).versionKey ∈
      r.versionsByKey.keys
  · rw [if_pos hkey, if_pos hkey]
    rfl
  · rw [if_neg hkey, if_neg hkey]
    rfl

theorem get?_latest_appended :
    (r.appended (a.transition canonicalize report attestedAt)).latestById.get? a.stateId =
      some (r.nextVersion (a.transition canonicalize report attestedAt)) :=
  (r.get?_latest_appended _ _).trans (if_pos rfl)

/-- An attestor that remembers nothing is rejected by a registrar that has its attestation. -/
theorem attestInner_of_forgotten (hengine : r.engine = .legacy initialInvariants)
    (hlast : a.lastStateId = none) (hmem : a.stateId ∈ r.latestById.keys) :
    ∃ message, a.attestInner canonicalize r report attestedAt =
      ((r, a), .error (.rejected message)) := by
  obtain ⟨violations, hdecision⟩ : ∃ violations,
      r.decision (a.transition canonicalize report attestedAt) =
        .refuse none (.ok (.rejected violations)) :=
    decision_of_registeredRoot hengine (by rw [transition, hlast]) hmem
  have hregister : r.register (a.transition canonicalize report attestedAt) =
      (r, .ok (.rejected violations)) := by
    rw [r.register_eq_carryOut, hdecision]
    rfl
  exact ⟨_, by rw [attestInner, hregister]⟩

end

end Attestor

end Attestia.Reconciler
