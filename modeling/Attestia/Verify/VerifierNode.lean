import Attestia.Verify.Consensus
import Attestia.Verify.Replay
import Attestia.Verify.StateBundle

/-!
# The verifier node

`runVerification`: the integrity of a bundle, the replay of its snapshots and the hashes of the
subsystems are checked in turn. In strict mode the global hash has to carry hashes of chains; they
are recorded in the report, and not compared with those of the bundle.
-/

namespace Attestia.Verify

open Lib JsonNumber Ledger Registrum

/-- A bundle whose snapshots can be replayed. -/
structure ReplayableBundle where
  ledgerSnapshot : LedgerSnapshot
  registrumSnapshot : RawSnapshot
  globalStateHash : GlobalStateHash
  eventHashes : List JsString
  chainHashes : Option ChainHashes
  exportedAt : JsString
  bundleHash : JsString

/-- The bundle with its snapshots as values. -/
def ReplayableBundle.exported (bundle : ReplayableBundle) : ExportableStateBundle where
  ledgerSnapshot := ledgerSnapshotObject bundle.ledgerSnapshot
  registrumSnapshot := bundle.registrumSnapshot.value
  globalStateHash := bundle.globalStateHash
  eventHashes := bundle.eventHashes
  chainHashes := bundle.chainHashes
  exportedAt := bundle.exportedAt
  bundleHash := bundle.bundleHash

structure VerifierConfig where
  verifierId : JsString
  strictMode : Option Bool

structure SubsystemCheck where
  subsystem : JsString
  expected : JsString
  actual : JsString
  matching : Bool

/-- The report of a node, of which the consensus reads a part. -/
structure NodeReport extends VerifierReport where
  reportId : JsString
  subsystemChecks : List SubsystemCheck
  discrepancies : List JsString
  verifiedAt : JsString

/-- The texts of the clock in the order in which they are read, and the random part of the id of
the report. -/
structure VerificationReadings where
  integrityAt : JsString
  originalAt : JsString
  createdAt : JsString
  replayedAt : JsString
  globalAt : JsString
  nonce : JsString
  verifiedAt : JsString

section

variable (canonicalize : JsonValue → String)

def generateReportId (verifierId bundleHash nonce : JsString) : JsString :=
  sha256Hex (canonicalize (.object [(js "verifierId", some (.str verifierId)),
    (js "bundleHash", some (.str bundleHash)), (js "nonce", some (.str nonce))]))

def replayInput (bundle : ReplayableBundle) : ReplayInput :=
  ⟨bundle.ledgerSnapshot, bundle.registrumSnapshot, none⟩

/-- The comparison of one hash. -/
def checkHash (subsystem : String) (expected actual : JsString) : SubsystemCheck :=
  ⟨js subsystem, expected, actual, expected = actual⟩

def hashDiscrepancy (title : String) (check : SubsystemCheck) : List JsString :=
  discrepancy check.matching (js title ++ js " hash mismatch: bundle claims " ++ check.expected ++
    js ", recomputed " ++ check.actual)

/-- The hashes of the chains are not compared. -/
def chainChecks (chains : Option ChainHashes) : List SubsystemCheck :=
  match chains with
  | none => []
  | some chains => chains.entries.map fun e => ⟨js "chain:" ++ e.1, e.2, e.2, true⟩

/-- The check of the strict mode. -/
def strictDiscrepancy (strictMode : Option Bool) (chains : Option ChainHashes) : List JsString :=
  if strictMode = some true then
    discrepancy (present chains).isSome
      (js "Strict mode: no chain hashes found in bundle (expected chain observer data)")
  else []

/-- The report after the replay. -/
def reportOf (readings : VerificationReadings) (bundle : ReplayableBundle) (config : VerifierConfig)
    (replayResult : ReplayResult) : NodeReport :=
  let subsystems := bundle.globalStateHash.subsystems
  let bundleResult := verifyBundleIntegrity canonicalize readings.integrityAt bundle.exported
  let ledger := checkHash "ledger" subsystems.ledger
    (hashLedgerSnapshot canonicalize bundle.exported.ledgerSnapshot)
  let registrum := checkHash "registrum" subsystems.registrum
    (hashRegistrumSnapshot canonicalize bundle.exported.registrumSnapshot)
  let global := checkHash "global" bundle.globalStateHash.hash
    (computeGlobalStateHash canonicalize readings.globalAt bundle.exported.ledgerSnapshot
      bundle.exported.registrumSnapshot bundle.chainHashes).hash
  let discrepancies :=
    (if bundleResult.verdict = .FAIL then bundleResult.discrepancies else []) ++
    (if replayResult.verdict = .FAIL then
      replayResult.discrepancies.map VerificationDiscrepancy.description else []) ++
    hashDiscrepancy "Ledger" ledger ++ hashDiscrepancy "Registrum" registrum ++
    hashDiscrepancy "Global" global ++ strictDiscrepancy config.strictMode subsystems.chains
  { verifierId := config.verifierId
    verdict := if discrepancies = [] then .PASS else .FAIL
    bundleHash := bundle.bundleHash
    reportId :=
      generateReportId canonicalize config.verifierId bundle.bundleHash readings.nonce
    subsystemChecks := [ledger, registrum, global] ++ chainChecks subsystems.chains
    discrepancies := discrepancies
    verifiedAt := readings.verifiedAt }

/-- As with the replay, none is the result of a registrar that is restored with entries of no own
properties. -/
def runVerification (readings : VerificationReadings) (bundle : ReplayableBundle)
    (config : VerifierConfig) : Except ReplayError (Option NodeReport) := do
  let replayResult ← verifyByReplay canonicalize readings.originalAt readings.createdAt
    readings.replayedAt (replayInput bundle)
  return replayResult.map (reportOf canonicalize readings bundle config)

end

/-! ## What a strict verification has checked -/

section strict

variable {canonicalize : JsonValue → String} {readings : VerificationReadings}
  {bundle : ReplayableBundle}

/-- The replay of the snapshots of a bundle finds nothing. -/
def ReplaysClean (canonicalize : JsonValue → String) (readings : VerificationReadings)
    (bundle : ReplayableBundle) : Prop :=
  ∃ result, verifyByReplay canonicalize readings.originalAt readings.createdAt readings.replayedAt
    (replayInput bundle) = .ok (some result) ∧ result.verdict = .PASS

def StrictlyPasses (canonicalize : JsonValue → String) (readings : VerificationReadings)
    (bundle : ReplayableBundle) (verifierId : JsString) : Prop :=
  ∃ report, runVerification canonicalize readings bundle ⟨verifierId, some true⟩ =
    .ok (some report) ∧ report.verdict = .PASS

/-- The chains that the global hash carries are those of the bundle, and there are some. -/
structure ChainsBound (bundle : ReplayableBundle) : Prop where
  nonempty : (present bundle.chainHashes).isSome
  chains : chainHash bundle.globalStateHash.subsystems.chains = chainHash bundle.chainHashes

/-- Every hash that the global hash carries is that of the content. -/
structure HashesBound (canonicalize : JsonValue → String) (bundle : ReplayableBundle) : Prop
    extends ChainsBound bundle where
  ledger : bundle.globalStateHash.subsystems.ledger =
    hashLedgerSnapshot canonicalize bundle.exported.ledgerSnapshot
  registrum : bundle.globalStateHash.subsystems.registrum =
    hashRegistrumSnapshot canonicalize bundle.exported.registrumSnapshot

theorem hashDiscrepancy_eq_nil {title subsystem : String} {expected actual : JsString} :
    hashDiscrepancy title (checkHash subsystem expected actual) = [] ↔ expected = actual := by
  rw [hashDiscrepancy, discrepancy_eq_nil, checkHash, decide_eq_true_eq]

theorem strictDiscrepancy_eq_nil {chains : Option ChainHashes} :
    strictDiscrepancy (some true) chains = [] ↔ (present chains).isSome := by
  rw [strictDiscrepancy, if_pos rfl, discrepancy_eq_nil]

/-- A result says that it passes exactly where it has no discrepancy. -/
def Verdicts (result : ReplayResult) : Prop := result.verdict = .PASS ↔ result.discrepancies = []

theorem verdicts_compareReplay {input : ReplayInput} {ledger : LedgerSnapshot}
    {registrum : RawSnapshot} {originalAt replayedAt : JsString} :
    Verdicts (compareReplay canonicalize input ledger registrum originalAt replayedAt) := by
  unfold Verdicts compareReplay
  dsimp only
  exact pass_iff

theorem verdicts_of_verifyByReplay {input : ReplayInput}
    {originalAt createdAt replayedAt : JsString} {result : ReplayResult}
    (h : verifyByReplay canonicalize originalAt createdAt replayedAt input = .ok (some result)) :
    Verdicts result := by
  obtain ⟨ledger, -, h⟩ := bind_eq_ok.mp h
  obtain ⟨registrar, -, h⟩ := bind_eq_ok.mp h
  cases registrar with
  | none => cases h
  | some registrar =>
    obtain rfl := Option.some.inj (Except.ok.inj h)
    exact verdicts_compareReplay

theorem ite_fail_eq_nil {α : Type} {verdict : VerificationVerdict} {l : List α}
    (h : verdict = .PASS ↔ l = []) :
    (if verdict = .FAIL then l else []) = [] ↔ verdict = .PASS := by
  cases verdict with
  | PASS => exact iff_of_true rfl rfl
  | FAIL =>
    rw [if_pos rfl]
    exact h.symm

/-- A strict report passes exactly where the bundle is consistent, the replay finds nothing and the
global hash carries a chain. -/
theorem reportOf_verdict {verifierId : JsString} {result : ReplayResult}
    (hresult : Verdicts result) :
    (reportOf canonicalize readings bundle ⟨verifierId, some true⟩ result).verdict = .PASS ↔
      result.verdict = .PASS ∧ Consistent canonicalize bundle.exported ∧
        (present bundle.globalStateHash.subsystems.chains).isSome := by
  have hreplay : result.verdict = .PASS ↔
      result.discrepancies.map VerificationDiscrepancy.description = [] := by
    rw [List.map_eq_nil_iff]
    exact hresult
  have hintegrity :
      (verifyBundleIntegrity canonicalize readings.integrityAt bundle.exported).verdict = .PASS ↔
        (verifyBundleIntegrity canonicalize readings.integrityAt
          bundle.exported).discrepancies = [] :=
    pass_iff
  rw [reportOf]
  dsimp only
  rw [pass_iff]
  simp only [List.append_eq_nil_iff, hashDiscrepancy_eq_nil, strictDiscrepancy_eq_nil,
    ite_fail_eq_nil hreplay, ite_fail_eq_nil hintegrity, verdict_eq_pass]
  dsimp only [computeGlobalStateHash]
  constructor
  · rintro ⟨⟨⟨⟨⟨hconsistent, hclean⟩, -⟩, -⟩, -⟩, hchains⟩
    exact ⟨hclean, hconsistent, hchains⟩
  · rintro ⟨hclean, hconsistent, hchains⟩
    exact ⟨⟨⟨⟨⟨hconsistent, hclean⟩, hconsistent.ledger⟩, hconsistent.registrum⟩,
      hconsistent.globalHash⟩, hchains⟩

theorem strictlyPasses_iff {verifierId : JsString} :
    StrictlyPasses canonicalize readings bundle verifierId ↔
      ReplaysClean canonicalize readings bundle ∧ Consistent canonicalize bundle.exported ∧
        (present bundle.globalStateHash.subsystems.chains).isSome := by
  constructor
  · rintro ⟨report, h, hpass⟩
    obtain ⟨replayed, hreplay, h⟩ := bind_eq_ok.mp h
    cases replayed with
    | none => cases h
    | some result =>
      cases h
      obtain ⟨hclean, hrest⟩ := (reportOf_verdict (verdicts_of_verifyByReplay hreplay)).mp hpass
      exact ⟨⟨result, hreplay, hclean⟩, hrest⟩
  · rintro ⟨⟨result, hreplay, hclean⟩, hrest⟩
    exact ⟨_, bind_eq_ok.mpr ⟨some result, hreplay, rfl⟩,
      (reportOf_verdict (verdicts_of_verifyByReplay hreplay)).mpr ⟨hclean, hrest⟩⟩

/-- A strict verification binds every hash exactly where it fails for another reason or the chains
that the global hash carries are those of the bundle. -/
theorem strict_binds_iff (canonicalize : JsonValue → String) (readings : VerificationReadings)
    (bundle : ReplayableBundle) (verifierId : JsString) :
    (StrictlyPasses canonicalize readings bundle verifierId → HashesBound canonicalize bundle) ↔
      ¬ ReplaysClean canonicalize readings bundle ∨
      ¬ Consistent canonicalize bundle.exported ∨
      (present bundle.globalStateHash.subsystems.chains).isSome = false ∨
      ChainsBound bundle := by
  rw [strictlyPasses_iff]
  constructor
  · intro h
    by_cases hclean : ReplaysClean canonicalize readings bundle
    · by_cases hconsistent : Consistent canonicalize bundle.exported
      · cases hchains : (present bundle.globalStateHash.subsystems.chains).isSome with
        | false => exact .inr (.inr (.inl rfl))
        | true => exact .inr (.inr (.inr (h ⟨hclean, hconsistent, hchains⟩).toChainsBound))
      · exact .inr (.inl hconsistent)
    · exact .inl hclean
  · rintro h ⟨hclean, hconsistent, hchains⟩
    rcases h with h | h | h | h
    · exact absurd hclean h
    · exact absurd hconsistent h
    · rw [hchains] at h
      cases h
    · exact ⟨h, hconsistent.ledger, hconsistent.registrum⟩

end strict

/-! ## Chains that nobody has observed -/

variable {canonicalize : JsonValue → String}

/-- The readings of a clock that stands still. -/
def stillReadings : VerificationReadings := ⟨[], [], [], [], [], [], []⟩

def forgedChains : ChainHashes := JsMap.empty.set (js "eip155:1") (js "forged")

/-- A bundle without chain hashes, whose global hash carries the hash of a chain. -/
def forgedBundle (ledger : LedgerSnapshot) (registrum : RawSnapshot) : ReplayableBundle :=
  let honest := createStateBundle JsonValue.canonicalText [] [] (ledgerSnapshotObject ledger)
    registrum.value [] none
  { ledgerSnapshot := ledger
    registrumSnapshot := registrum
    globalStateHash := { honest.globalStateHash with
      subsystems := { honest.globalStateHash.subsystems with chains := some forgedChains } }
    eventHashes := []
    chainHashes := none
    exportedAt := []
    bundleHash := honest.bundleHash }

theorem consistent_forgedBundle (ledger : LedgerSnapshot) (registrum : RawSnapshot) :
    Consistent JsonValue.canonicalText (forgedBundle ledger registrum).exported := by
  have honest : Consistent JsonValue.canonicalText (createStateBundle JsonValue.canonicalText [] []
      (ledgerSnapshotObject ledger) registrum.value [] none) :=
    consistent_createStateBundle [] [] (ledgerSnapshotObject ledger) registrum.value [] none
  rw [forgedBundle, ReplayableBundle.exported]
  constructor <;> dsimp only
  · exact honest.ledger
  · exact honest.registrum
  · exact honest.globalHash
  · exact honest.bundleHash

/-- An expected hash adds a discrepancy at the end. -/
theorem discrepancies_compareReplay_some {ledger replayedLedger : LedgerSnapshot}
    {registrum replayedRegistrum : RawSnapshot} {expectedHash originalAt replayedAt : JsString} :
    ∃ last, (compareReplay canonicalize ⟨ledger, registrum, some expectedHash⟩ replayedLedger
        replayedRegistrum originalAt replayedAt).discrepancies =
      (compareReplay canonicalize ⟨ledger, registrum, none⟩ replayedLedger replayedRegistrum
        originalAt replayedAt).discrepancies ++ last := by
  refine ⟨mismatch "global" expectedHash (computeGlobalStateHash canonicalize originalAt
    (ledgerSnapshotObject ledger) registrum.value none).hash
    "GlobalStateHash does not match expected hash", ?_⟩
  unfold compareReplay
  dsimp only
  rw [List.append_nil]

/-- A replay that passes with the right hash expected passes with none expected. -/
theorem replaysClean_of_passesReplay {ledger : Ledger} {registrar : Registrar}
    (h : PassesReplay JsonValue.canonicalText ledger registrar) :
    ReplaysClean JsonValue.canonicalText stillReadings
      (forgedBundle (Ledger.snapshot ledger []) registrar.snapshot) := by
  obtain ⟨result, hreplay, hpass⟩ := h [] [] [] [] []
  obtain ⟨replayed, hledger, hrest⟩ := bind_eq_ok.mp hreplay
  obtain ⟨restored, hregistrar, hresult⟩ := bind_eq_ok.mp hrest
  cases restored with
  | none => cases hresult
  | some restored =>
    obtain rfl := Option.some.inj (Except.ok.inj hresult)
    have hnil := verdicts_compareReplay.mp hpass
    obtain ⟨last, hlast⟩ := discrepancies_compareReplay_some
    rw [ownInput, hlast] at hnil
    exact ⟨_, bind_eq_ok.mpr
      ⟨replayed, hledger, bind_eq_ok.mpr ⟨some restored, hregistrar, rfl⟩⟩,
      verdicts_compareReplay.mpr (List.append_eq_nil_iff.mp hnil).1⟩

theorem forgedChains_pass : ¬ ∀ canonicalize readings bundle verifierId,
    StrictlyPasses canonicalize readings bundle verifierId → HashesBound canonicalize bundle := by
  intro hclaim
  have hpasses : StrictlyPasses JsonValue.canonicalText stillReadings
      (forgedBundle (Ledger.snapshot twoScales []) ((Registrar.new (.legacy
        initialInvariants)).register ⟨none, rootState (js "a")⟩).1.snapshot) (js "v") :=
    strictlyPasses_iff.mpr
      ⟨replaysClean_of_passesReplay replay_passes_root, consistent_forgedBundle _ _, rfl⟩
  exact absurd (hclaim _ _ _ _ hpasses).nonempty (by decide)

end Attestia.Verify
