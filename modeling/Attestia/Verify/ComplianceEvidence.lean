import Attestia.Lib.Binary64
import Attestia.Verify.StateBundle

/-!
# Compliance evidence

`evidence-generator.ts`: every control of a framework names the types of its evidence, each of which
is checked against a state bundle and the result of its verification. A control passes with all of
its evidence. The checks look at different parts of the result, and two of them at none.
-/

namespace Attestia.Verify

open Lib

structure ComplianceFramework where
  id : JsString
  name : JsString
  version : JsString
  description : JsString

inductive EvidenceType where
  | hashChain
  | auditLog
  | replayVerification
  | merkleProof
  | multiSigGovernance
  | reconciliation
  | stateSnapshot
  | consensus

inductive ControlStatus where
  | implemented
  | partiallyImplemented
  | planned
  | notApplicable
  deriving DecidableEq

structure ControlMapping where
  controlId : JsString
  controlName : JsString
  controlDescription : JsString
  attestiaControl : JsString
  attestiaPackage : JsString
  evidenceTypes : List EvidenceType
  status : ControlStatus
  notes : Option JsString

inductive EvidenceClass where
  | verified
  | asserted
  | failed
  deriving DecidableEq

structure EvaluatedControl where
  mapping : ControlMapping
  passed : Bool
  evidenceDetail : JsString
  evidenceClass : EvidenceClass

structure ComplianceReport where
  framework : ComplianceFramework
  evaluations : List EvaluatedControl
  totalControls : ℕ
  passedControls : ℕ
  verifiedControls : ℕ
  assertedControls : ℕ
  score : JsNumber
  generatedAt : JsString

/-- A bundle with the version of its format, which no hash covers. -/
structure VersionedStateBundle extends ExportableStateBundle where
  version : JsNumber

structure EvidenceResult where
  passed : Bool
  detail : JsString
  kind : EvidenceClass

/-- The result of a check that verifies something. -/
def EvidenceResult.ofCheck (ok : Bool) (detail : JsString) : EvidenceResult :=
  ⟨ok, detail, if ok then .verified else .failed⟩

def bundleIsCorroborated (bundle : Option VersionedStateBundle)
    (bundleVerification : Option BundleVerificationResult) : Bool :=
  bundle.isSome && bundleVerification.any fun v => v.bundleHashValid

def checkArchitectural (name : String) (bundle : Option VersionedStateBundle)
    (bundleVerification : Option BundleVerificationResult) : EvidenceResult :=
  if bundleIsCorroborated bundle bundleVerification = false then
    ⟨false, js (name ++
      " is asserted but uncorroborated (no integral state bundle) \u2014 fail-closed"), .failed⟩
  else
    ⟨true, js (name ++ " present; asserted (architectural claim corroborated by an integral " ++
      "state bundle, not a cryptographic proof)"), .asserted⟩

def joinDiscrepancies (v : BundleVerificationResult) : JsString :=
  (js "; ").intercalate v.discrepancies

def checkEvidence (bundle : Option VersionedStateBundle)
    (bundleVerification : Option BundleVerificationResult) : EvidenceType → EvidenceResult
  | .hashChain =>
    match bundle, bundleVerification with
    | none, _ => ⟨false, js "No state bundle available for hash chain verification", .failed⟩
    | some _, none => ⟨false, js "Bundle verification not performed", .failed⟩
    | some _, some v =>
      .ofCheck v.bundleHashValid (if v.bundleHashValid then js "Bundle hash chain is intact"
        else js "Hash chain broken: " ++ joinDiscrepancies v)
  | .replayVerification =>
    match bundleVerification with
    | none => ⟨false, js "Replay verification not performed", .failed⟩
    | some v =>
      .ofCheck v.globalHashValid (if v.globalHashValid then
          js "State replay verification passed \u2014 global hash matches"
        else js "Replay mismatch: " ++ joinDiscrepancies v)
  | .stateSnapshot =>
    match bundle with
    | none => ⟨false, js "No state snapshot available", .failed⟩
    | some b =>
      .ofCheck ((JsNumber.finite 1).le b.version)
        (js "State snapshot v" ++ b.version.text ++ js " exported at " ++ b.exportedAt)
  | .merkleProof =>
    match bundle with
    | none => ⟨false, js "No bundle for Merkle proof verification", .failed⟩
    | some b =>
      .ofCheck (0 < b.eventHashes.length) (JsNumber.text (.finite b.eventHashes.length) ++
        js " event hashes available for Merkle tree construction")
  | .auditLog => checkArchitectural "Append-only audit log" bundle bundleVerification
  | .multiSigGovernance =>
    checkArchitectural "Multi-signature governance framework" bundle bundleVerification
  | .reconciliation =>
    checkArchitectural "Three-way reconciliation engine" bundle bundleVerification
  | .consensus =>
    checkArchitectural "Multi-verifier consensus framework" bundle bundleVerification

/-- The control of a mapping, with the results of its evidence. -/
def evaluateControl (mapping : ControlMapping) (evidenceResults : List EvidenceResult) :
    EvaluatedControl :=
  let allPassed := evidenceResults.all EvidenceResult.passed
  let passed := decide (mapping.status = .notApplicable) || allPassed
  let evidenceClass : EvidenceClass :=
    if passed = false then .failed
    else if evidenceResults.any fun r => r.kind = .verified then .verified
    else .asserted
  let evidenceDetail := (js "; ").intercalate (evidenceResults.map fun r =>
    js "[" ++ (if r.passed then js "PASS" else js "FAIL") ++ js "] " ++ r.detail)
  ⟨mapping, passed, evidenceDetail, evidenceClass⟩

/-- `Math.round`. -/
def mathRound : JsNumber → JsNumber
  | .finite q => .finite (q + 1 / 2).floor
  | x => x

def score (passedControls totalControls : ℕ) : JsNumber :=
  if 0 < totalControls then
    match JsNumber.ofRational (passedControls / totalControls) with
    | .finite ratio => mathRound (.ofRational (ratio * 100))
    | ratio => ratio
  else .finite 0

def generateComplianceEvidence (canonicalize : JsonValue → String)
    (verifiedAt generatedAt : JsString) (mappings : List ControlMapping)
    (framework : ComplianceFramework) (bundle : Option VersionedStateBundle) : ComplianceReport :=
  let bundleVerification :=
    bundle.map fun b => verifyBundleIntegrity canonicalize verifiedAt b.toExportableStateBundle
  let evaluations := mappings.map fun mapping =>
    evaluateControl mapping (mapping.evidenceTypes.map (checkEvidence bundle bundleVerification))
  let passedControls := evaluations.countP EvaluatedControl.passed
  { framework
    evaluations
    totalControls := evaluations.length
    passedControls
    verifiedControls := evaluations.countP fun e => e.evidenceClass = .verified
    assertedControls := evaluations.countP fun e => e.evidenceClass = .asserted
    score := score passedControls evaluations.length
    generatedAt }

/-! ## What is refused -/

section

variable (canonicalize : JsonValue → String) (bundle : VersionedStateBundle)

/-- What a check refuses a bundle for. -/
def Refuses : EvidenceType → Prop
  | .replayVerification => bundle.globalStateHash.hash ≠
    (computeGlobalStateHash canonicalize [] bundle.ledgerSnapshot bundle.registrumSnapshot
      bundle.chainHashes).hash
  | .stateSnapshot => (JsNumber.finite 1).le bundle.version = false
  | .merkleProof => bundle.eventHashes = []
  | _ => bundle.bundleHash ≠
    computeBundleHash canonicalize bundle.globalStateHash.hash bundle.eventHashes bundle.chainHashes

/-- The types whose evidence is a capability of the program. -/
def EvidenceType.IsArchitectural : EvidenceType → Prop
  | .auditLog | .multiSigGovernance | .reconciliation | .consensus => True
  | _ => False

/-- A control that some check of its own refuses; where it is not applicable, every check that could
verify something. -/
def RefusesControl (mapping : ControlMapping) : Prop :=
  if mapping.status = .notApplicable then
    ∀ t ∈ mapping.evidenceTypes, t.IsArchitectural ∨ Refuses canonicalize bundle t
  else mapping.evidenceTypes = [] ∨ ∃ t ∈ mapping.evidenceTypes, Refuses canonicalize bundle t

/-- A report about a bundle that fails its verification passes no control with evidence, and calls
no control verified. -/
def FailsClosed (report : ComplianceReport) : Prop :=
  ¬ Passes canonicalize bundle.toExportableStateBundle → ∀ e ∈ report.evaluations,
    (e.mapping.evidenceTypes ≠ [] → e.mapping.status ≠ .notApplicable → e.passed = false) ∧
      e.evidenceClass ≠ .verified

end

variable {canonicalize : JsonValue → String} {verifiedAt generatedAt : JsString}
  {bundle : VersionedStateBundle}

theorem passed_checkArchitectural (name : String) (v : BundleVerificationResult) :
    (checkArchitectural name (some bundle) (some v)).passed = v.bundleHashValid := by
  rw [checkArchitectural, bundleIsCorroborated, Option.isSome_some, Option.any_some, Bool.true_and]
  cases v.bundleHashValid <;> rfl

/-- The evidence of a bundle, as the report checks it. -/
def evidenceOf (canonicalize : JsonValue → String) (verifiedAt : JsString)
    (bundle : VersionedStateBundle) (t : EvidenceType) : EvidenceResult :=
  checkEvidence (some bundle)
    (some (verifyBundleIntegrity canonicalize verifiedAt bundle.toExportableStateBundle)) t

theorem passed_evidenceOf (t : EvidenceType) :
    (evidenceOf canonicalize verifiedAt bundle t).passed = true ↔
      ¬ Refuses canonicalize bundle t := by
  have hbundle : (verifyBundleIntegrity canonicalize verifiedAt
      bundle.toExportableStateBundle).bundleHashValid = true ↔ ¬ bundle.bundleHash ≠
        computeBundleHash canonicalize bundle.globalStateHash.hash bundle.eventHashes
          bundle.chainHashes := by
    rw [not_not]
    exact decide_eq_true_iff
  cases t with
  | hashChain => exact hbundle
  | auditLog => exact Bool.eq_iff_iff.mp (passed_checkArchitectural _ _) |>.trans hbundle
  | multiSigGovernance => exact Bool.eq_iff_iff.mp (passed_checkArchitectural _ _) |>.trans hbundle
  | reconciliation => exact Bool.eq_iff_iff.mp (passed_checkArchitectural _ _) |>.trans hbundle
  | consensus => exact Bool.eq_iff_iff.mp (passed_checkArchitectural _ _) |>.trans hbundle
  | replayVerification => exact decide_eq_true_iff.trans not_not.symm
  | stateSnapshot => exact (Bool.not_eq_false _).symm.to_iff
  | merkleProof =>
    show decide (0 < bundle.eventHashes.length) = true ↔ bundle.eventHashes ≠ []
    rw [decide_eq_true_eq, List.length_pos_iff]

theorem kind_checkArchitectural (name : String) (b : Option VersionedStateBundle)
    (v : Option BundleVerificationResult) : (checkArchitectural name b v).kind ≠ .verified := by
  rw [checkArchitectural]
  split <;> simp

theorem kind_ofCheck (ok : Bool) (detail : JsString) :
    (EvidenceResult.ofCheck ok detail).kind = .verified ↔
      (EvidenceResult.ofCheck ok detail).passed = true := by
  cases ok <;> simp [EvidenceResult.ofCheck]

/-- A check that passes verifies something, or it is about a capability. -/
theorem kind_evidenceOf (t : EvidenceType) :
    (evidenceOf canonicalize verifiedAt bundle t).kind = .verified ↔
      ¬ (t.IsArchitectural ∨ Refuses canonicalize bundle t) := by
  have hpassed : (evidenceOf canonicalize verifiedAt bundle t).passed = true ↔
      ¬ Refuses canonicalize bundle t := passed_evidenceOf t
  rw [not_or, ← hpassed]
  cases t with
  | hashChain => exact (kind_ofCheck _ _).trans (and_iff_right id).symm
  | replayVerification => exact (kind_ofCheck _ _).trans (and_iff_right id).symm
  | stateSnapshot => exact (kind_ofCheck _ _).trans (and_iff_right id).symm
  | merkleProof => exact (kind_ofCheck _ _).trans (and_iff_right id).symm
  | auditLog => exact iff_of_false (kind_checkArchitectural _ _ _) fun h => h.1 trivial
  | multiSigGovernance => exact iff_of_false (kind_checkArchitectural _ _ _) fun h => h.1 trivial
  | reconciliation => exact iff_of_false (kind_checkArchitectural _ _ _) fun h => h.1 trivial
  | consensus => exact iff_of_false (kind_checkArchitectural _ _ _) fun h => h.1 trivial

/-! ## Controls -/

theorem passed_evaluateControl (mapping : ControlMapping) (results : List EvidenceResult) :
    (evaluateControl mapping results).passed = true ↔
      mapping.status = .notApplicable ∨ ∀ r ∈ results, r.passed = true := by
  show (decide (mapping.status = .notApplicable) || results.all EvidenceResult.passed) = true ↔ _
  rw [Bool.or_eq_true, decide_eq_true_eq, List.all_eq_true]

theorem evidenceClass_evaluateControl (mapping : ControlMapping) (results : List EvidenceResult) :
    (evaluateControl mapping results).evidenceClass = .verified ↔
      (evaluateControl mapping results).passed = true ∧ ∃ r ∈ results, r.kind = .verified := by
  show (if (evaluateControl mapping results).passed = false then EvidenceClass.failed
    else if results.any (fun r => r.kind = .verified) then .verified else .asserted) = .verified ↔ _
  cases (evaluateControl mapping results).passed with
  | false => simp
  | true =>
    by_cases hany : ∃ r ∈ results, r.kind = .verified
    · simp [hany]
    · simp [hany]

/-- The control of a mapping in the report about a bundle. -/
def controlOf (canonicalize : JsonValue → String) (verifiedAt : JsString)
    (bundle : VersionedStateBundle) (mapping : ControlMapping) : EvaluatedControl :=
  evaluateControl mapping (mapping.evidenceTypes.map (evidenceOf canonicalize verifiedAt bundle))

theorem controlOf_failsClosed_iff (mapping : ControlMapping) :
    ((mapping.evidenceTypes ≠ [] → mapping.status ≠ .notApplicable →
        (controlOf canonicalize verifiedAt bundle mapping).passed = false) ∧
      (controlOf canonicalize verifiedAt bundle mapping).evidenceClass ≠ .verified) ↔
      RefusesControl canonicalize bundle mapping := by
  have hpassed : (controlOf canonicalize verifiedAt bundle mapping).passed = true ↔
      mapping.status = .notApplicable ∨
        ∀ t ∈ mapping.evidenceTypes, ¬ Refuses canonicalize bundle t := by
    rw [controlOf, passed_evaluateControl, List.forall_mem_map]
    simp only [passed_evidenceOf]
  have hverified : (controlOf canonicalize verifiedAt bundle mapping).evidenceClass = .verified ↔
      (controlOf canonicalize verifiedAt bundle mapping).passed = true ∧
        ∃ t ∈ mapping.evidenceTypes, ¬ (t.IsArchitectural ∨ Refuses canonicalize bundle t) := by
    rw [controlOf, evidenceClass_evaluateControl]
    simp only [List.mem_map, exists_exists_and_eq_and, kind_evidenceOf]
  rw [RefusesControl]
  split
  · rename_i hstatus
    constructor
    · intro ⟨_, hclass⟩ t ht
      by_contra hnot
      exact hclass (hverified.mpr ⟨hpassed.mpr (.inl hstatus), t, ht, hnot⟩)
    · intro hall
      refine ⟨fun _ hne => absurd hstatus hne, fun hclass => ?_⟩
      obtain ⟨_, t, ht, hnot⟩ := hverified.mp hclass
      exact hnot (hall t ht)
  · rename_i hstatus
    constructor
    · intro ⟨hfails, _⟩
      by_contra hnone
      obtain ⟨hevidence, hnone⟩ := not_or.mp hnone
      have hyes := hpassed.mpr (.inr fun t ht hrefuses => hnone ⟨t, ht, hrefuses⟩)
      rw [hfails hevidence hstatus] at hyes
      cases hyes
    · intro h
      rcases h with hnil | ⟨t, ht, hrefuses⟩
      · refine ⟨fun hevidence => absurd hnil hevidence, fun hclass => ?_⟩
        obtain ⟨_, t, ht, _⟩ := hverified.mp hclass
        rw [hnil] at ht
        cases ht
      · have hno : ¬ (controlOf canonicalize verifiedAt bundle mapping).passed = true := fun hyes =>
          (hpassed.mp hyes).resolve_left hstatus t ht hrefuses
        refine ⟨fun _ _ => Bool.eq_false_of_not_eq_true hno, fun hclass => ?_⟩
        exact hno (hverified.mp hclass).1

/-- A report about a bundle fails closed where the bundle verifies, or every control is refused by
checks of its own. -/
theorem failsClosed_iff_refusesControl (canonicalize : JsonValue → String)
    (verifiedAt generatedAt : JsString) (mappings : List ControlMapping)
    (framework : ComplianceFramework) (bundle : VersionedStateBundle) :
    FailsClosed canonicalize bundle (generateComplianceEvidence canonicalize verifiedAt generatedAt
      mappings framework (some bundle)) ↔
      Consistent canonicalize bundle.toExportableStateBundle ∨
        ∀ mapping ∈ mappings, RefusesControl canonicalize bundle mapping := by
  have hevaluations : (generateComplianceEvidence canonicalize verifiedAt generatedAt mappings
      framework (some bundle)).evaluations =
        mappings.map (controlOf canonicalize verifiedAt bundle) := rfl
  rw [FailsClosed, hevaluations, List.forall_mem_map, passes_iff, or_iff_not_imp_left]
  apply imp_congr_right
  intro _
  apply forall₂_congr
  intro mapping _
  exact controlOf_failsClosed_iff mapping

/-! ### A bundle without its hash, and one with the hash of another ledger -/

theorem sha256Hex_ne_nil (data : String) : sha256Hex data ≠ [] := by
  intro h
  have hlength := hexEncode_length (sha256 (Utf8.encode data.toList))
  have hempty : hexEncode (sha256 (Utf8.encode data.toList)) = "" := js_injective h
  rw [hempty, sha256_length] at hlength
  cases hlength

def controlWith (evidenceTypes : List EvidenceType) : ControlMapping :=
  ⟨js "PI1.4", [], [], [], js "@attestia/verify", evidenceTypes, .implemented, none⟩

def unhashedBundle : VersionedStateBundle :=
  ⟨{ timedBundle "1" with bundleHash := [] }, .finite 1⟩

/-- A bundle with another hash of its ledger. -/
def relabel (b : ExportableStateBundle) (ledger : JsString) : VersionedStateBundle :=
  ⟨{ b with globalStateHash := { b.globalStateHash with
      subsystems := { b.globalStateHash.subsystems with ledger } } }, .finite 1⟩

theorem not_refuses_relabel {b : ExportableStateBundle} (h : Consistent canonicalize b)
    (ledger : JsString) : ¬ Refuses canonicalize (relabel b ledger) .hashChain :=
  not_not.mpr h.bundleHash

theorem not_failsClosed_of_not_refuses {t : EvidenceType} (framework : ComplianceFramework)
    (hbad : ¬ Consistent canonicalize bundle.toExportableStateBundle)
    (hok : ¬ Refuses canonicalize bundle t) :
    ¬ FailsClosed canonicalize bundle (generateComplianceEvidence canonicalize verifiedAt
      generatedAt [controlWith [t]] framework (some bundle)) := by
  intro hclosed
  have hcontrol := hclosed (mt passes_iff.mp hbad) (controlOf canonicalize verifiedAt bundle
    (controlWith [t])) (.head _)
  have hrefuses := (controlOf_failsClosed_iff (controlWith [t])).mp hcontrol
  rw [RefusesControl, if_neg (by rw [controlWith]; simp)] at hrefuses
  rcases hrefuses with hnil | ⟨other, hother, hrefuses⟩
  · cases hnil
  · rw [List.mem_singleton.mp hother] at hrefuses
    exact hok hrefuses

/-- A snapshot is verified under no hash, and a hash chain under that of another ledger. -/
theorem not_failsClosed_tampered :
    ¬ FailsClosed JsonValue.canonicalText unhashedBundle (generateComplianceEvidence
      JsonValue.canonicalText [] [] [controlWith [.stateSnapshot]] ⟨[], [], [], []⟩
      (some unhashedBundle)) ∧
    ¬ FailsClosed JsonValue.canonicalText (relabel (timedBundle "1") []) (generateComplianceEvidence
      JsonValue.canonicalText [] [] [controlWith [.hashChain]] ⟨[], [], [], []⟩
      (some (relabel (timedBundle "1") []))) := by
  constructor
  · apply not_failsClosed_of_not_refuses
    · intro h
      exact sha256Hex_ne_nil _ h.bundleHash.symm
    · show ¬ (JsNumber.finite 1).le (.finite 1) = false
      decide +kernel
  · apply not_failsClosed_of_not_refuses
    · intro h
      exact sha256Hex_ne_nil _ h.ledger.symm
    · exact not_refuses_relabel (consistent_createStateBundle ..) []

end Attestia.Verify
