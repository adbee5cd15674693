import Attestia.Ledger.Snapshot
import Attestia.Registrum.TemporalStability
import Attestia.Verify.GlobalStateHash

/-!
# Verification by replay

`replay.ts`: both subsystems are restored from their snapshots, and the snapshots that they
then take have to hash as the given ones do. The registrar is restored under the mode of its
snapshot and the invariants of the repository, so that a snapshot of a mode with a compiled
registry is not restored at all.
-/

namespace Attestia.Verify

open Lib JsonNumber Ledger Registrum

structure VerificationDiscrepancy where
  subsystem : JsString
  expected : JsString
  actual : JsString
  description : JsString

structure ReplayInput where
  ledgerSnapshot : LedgerSnapshot
  registrumSnapshot : RawSnapshot
  expectedHash : Option JsString

structure ReplayResult where
  verdict : VerificationVerdict
  replayedHash : GlobalStateHash
  originalHash : GlobalStateHash
  discrepancies : List VerificationDiscrepancy

/-- What the replay throws. -/
inductive ReplayError where
  | ledger (error : LedgerError)
  | registrum (error : RehydrationError)

/-! ## The ledger snapshot as a value -/

def entryTypeText : LedgerEntryType → JsString
  | .debit => js "debit"
  | .credit => js "credit"

def accountTypeText : AccountType → JsString
  | .asset => js "asset"
  | .liability => js "liability"
  | .income => js "income"
  | .expense => js "expense"
  | .equity => js "equity"

def accountJson (account : LedgerAccount) : JsonValue :=
  literalJson [("ref", literalJson [("id", .str account.ref.id),
      ("type", .str (accountTypeText account.ref.type)), ("name", .str account.ref.name)]),
    ("createdAt", .str account.createdAt)]

def moneyJson (money : Money) : JsonValue :=
  literalJson [("amount", .str money.amount), ("currency", .str money.currency),
    ("decimals", .num money.decimals)]

def entryJson (entry : LedgerEntry) : JsonValue :=
  .object [(js "id", some (.str entry.id)), (js "accountId", some (.str entry.accountId)),
    (js "type", some (.str (entryTypeText entry.type))), (js "money", some (moneyJson entry.money)),
    (js "timestamp", some (.str entry.timestamp)), (js "intentId", entry.intentId.map .str),
    (js "txHash", entry.txHash.map .str), (js "correlationId", some (.str entry.correlationId))]

def ledgerSnapshotObject (snapshot : LedgerSnapshot) : JsonObject :=
  .ofEntries ([(js "version", some (.num snapshot.version)),
    (js "accounts", some (.array (snapshot.accounts.map accountJson))),
    (js "entries", some (.array (snapshot.entries.map entryJson)))] ++
    [(js "createdAt", some (.str snapshot.createdAt))])

/-! ## The replay -/

/-- The mode of a snapshot; any other value of the property is refused by the validation. -/
def snapshotMode (snapshot : RawSnapshot) : RegistrarMode :=
  match snapshot.value.val.get? (js "mode") with
  | some (.str s) => ([RegistrarMode.legacy, .registry, .dual].find? fun m => m.text = s).getD .legacy
  | _ => .legacy

def replayOptions (snapshot : RawSnapshot) : RehydrationOptions :=
  ⟨snapshotMode snapshot, some initialInvariants, none⟩

/-- The discrepancy of two hashes, where they differ. -/
def mismatch (subsystem : String) (expected actual : JsString) (description : String) :
    List VerificationDiscrepancy :=
  if expected ≠ actual then [⟨js subsystem, expected, actual, js description⟩] else []

section

variable (canonicalize : JsonValue → String)

/-- The comparison of the given snapshots with those of the restored subsystems. -/
def compareReplay (input : ReplayInput) (replayedLedger : LedgerSnapshot)
    (replayedRegistrum : RawSnapshot) (originalAt replayedAt : JsString) : ReplayResult :=
  let originalHash := computeGlobalStateHash canonicalize originalAt
    (ledgerSnapshotObject input.ledgerSnapshot) input.registrumSnapshot.value none
  let replayedHash := computeGlobalStateHash canonicalize replayedAt
    (ledgerSnapshotObject replayedLedger) replayedRegistrum.value none
  let discrepancies :=
    mismatch "ledger" (hashLedgerSnapshot canonicalize (ledgerSnapshotObject input.ledgerSnapshot))
      (hashLedgerSnapshot canonicalize (ledgerSnapshotObject replayedLedger))
      "Ledger snapshot hash changed after replay" ++
    mismatch "registrum" (hashRegistrumSnapshot canonicalize input.registrumSnapshot.value)
      (hashRegistrumSnapshot canonicalize replayedRegistrum.value)
      "Registrum snapshot hash changed after replay" ++
    mismatch "global" originalHash.hash replayedHash.hash "GlobalStateHash changed after replay" ++
    match input.expectedHash with
    | none => []
    | some expectedHash => mismatch "global" expectedHash originalHash.hash
        "GlobalStateHash does not match expected hash"
  ⟨if discrepancies = [] then .PASS else .FAIL, replayedHash, originalHash, discrepancies⟩

/-- The texts are those of the clock; none is the result of a registrar that is restored with
entries of no own properties. -/
def verifyByReplay (originalAt createdAt replayedAt : JsString) (input : ReplayInput) :
    Except ReplayError (Option ReplayResult) := do
  let replayedLedger ← (Ledger.fromSnapshot input.ledgerSnapshot).mapError .ledger
  let replayedRegistrar ← (Registrar.fromSnapshot input.registrumSnapshot
    (replayOptions input.registrumSnapshot)).mapError .registrum
  return replayedRegistrar.map fun registrar =>
    compareReplay canonicalize input (Ledger.snapshot replayedLedger createdAt) registrar.snapshot
      originalAt replayedAt

/-- The snapshots of a ledger and of a registrar, with the hash that they have. -/
def ownInput (snapshotAt hashedAt : JsString) (ledger : Ledger) (registrar : Registrar) :
    ReplayInput where
  ledgerSnapshot := Ledger.snapshot ledger snapshotAt
  registrumSnapshot := registrar.snapshot
  expectedHash := some (computeGlobalStateHash canonicalize hashedAt
    (ledgerSnapshotObject (Ledger.snapshot ledger snapshotAt)) registrar.snapshot.value none).hash

def PassesReplay (ledger : Ledger) (registrar : Registrar) : Prop :=
  ∀ snapshotAt hashedAt originalAt createdAt replayedAt, ∃ result,
    verifyByReplay canonicalize originalAt createdAt replayedAt
      (ownInput canonicalize snapshotAt hashedAt ledger registrar) = .ok (some result) ∧
    result.verdict = .PASS

end

variable {canonicalize : JsonValue → String}

/-! ## Equal snapshots -/

@[simp] theorem mismatch_self (subsystem : String) (hash : JsString) (description : String) :
    mismatch subsystem hash hash description = [] := by
  simp [mismatch]

/-- The time of a ledger snapshot is not hashed. -/
theorem hashLedgerSnapshot_createdAt (ledger : Ledger) (createdAt createdAt' : JsString) :
    hashLedgerSnapshot canonicalize (ledgerSnapshotObject (Ledger.snapshot ledger createdAt)) =
      hashLedgerSnapshot canonicalize
        (ledgerSnapshotObject (Ledger.snapshot ledger createdAt')) := by
  rw [hashLedgerSnapshot, hashLedgerSnapshot, ledgerSnapshotObject, ledgerSnapshotObject,
    JsonObject.without_ofEntries_append, JsonObject.without_ofEntries_append]
  rfl

theorem hash_computeGlobalStateHash (computedAt : JsString) (ledger : JsonObject)
    (registrum : JsonValue) :
    (computeGlobalStateHash canonicalize computedAt ledger registrum none).hash =
      sha256Hex (canonicalize (combinedData (hashLedgerSnapshot canonicalize ledger)
        (hashRegistrumSnapshot canonicalize registrum) none)) := rfl

theorem compareReplay_verdict {ledger replayed : Ledger} {registrar : Registrar}
    {replayedRegistrum : RawSnapshot} {snapshotAt hashedAt originalAt createdAt replayedAt : JsString}
    (hledger : Ledger.snapshot replayed createdAt = Ledger.snapshot ledger createdAt)
    (hregistrum : replayedRegistrum = registrar.snapshot) :
    (compareReplay canonicalize (ownInput canonicalize snapshotAt hashedAt ledger registrar)
      (Ledger.snapshot replayed createdAt) replayedRegistrum originalAt replayedAt).verdict =
        .PASS := by
  subst hregistrum
  rw [hledger, compareReplay]
  simp only [ownInput, hash_computeGlobalStateHash,
    hashLedgerSnapshot_createdAt ledger snapshotAt createdAt, mismatch_self, List.append_nil,
    if_true]

/-! ## The restored registrar -/

/-- A registrar of another engine. -/
def withEngine (registrar : Registrar) (engine : Engine) : Registrar := { registrar with engine }

theorem resolveSnapshotParentId_withEngine (registrar : Registrar) (engine : Engine) :
    (withEngine registrar engine).resolveSnapshotParentId = registrar.resolveSnapshotParentId := by
  funext v
  exact Registrar.resolveWalk_congr registrar (withEngine registrar engine) rfl _ _ _ _

theorem lasting_withEngine {registrar : Registrar} (h : registrar.Lasting) (engine : Engine) :
    (withEngine registrar engine).Lasting where
  cursor := h.cursor
  key := h.key
  versionKey := h.versionKey
  below := h.below
  parent := h.parent
  latest := h.latest
  inRange := h.inRange
  earlier := h.earlier
  distinct := h.distinct
  top := h.top
  proto := h.proto
  grounded := by
    have hparent : (withEngine registrar engine).parentOf = registrar.parentOf := by
      funext id
      rw [Registrar.parentOf, Registrar.parentOf, resolveSnapshotParentId_withEngine]
      rfl
    rw [Registrar.Grounded, hparent]
    exact h.grounded

/-- A snapshot reads of the engine its mode and its hash. -/
theorem snapshot_withEngine {registrar : Registrar} {engine : Engine}
    (hmode : (withEngine registrar engine).mode = registrar.mode)
    (hhash : (withEngine registrar engine).registryHash = registrar.registryHash) :
    (withEngine registrar engine).snapshot = registrar.snapshot := by
  rw [Registrar.snapshot, Registrar.snapshotValue, Registrar.lineageJson, hmode, hhash,
    resolveSnapshotParentId_withEngine]
  rfl

theorem snapshotMode_snapshot (registrar : Registrar) :
    snapshotMode registrar.snapshot = registrar.mode := by
  have hget : registrar.snapshotValue.get? (js "mode") = some (.str registrar.mode.text) := by
    simp [Registrar.snapshotValue, literalJson]
  rw [snapshotMode]
  change (match registrar.snapshotValue.val.get? (js "mode") with
    | some (.str s) => _
    | _ => _) = _
  rw [JsonValue.get?_eq_some.mp hget]
  show ([RegistrarMode.legacy, .registry, .dual].find? fun m => m.text = registrar.mode.text).getD
    .legacy = registrar.mode
  cases registrar.mode <;> decide +kernel

/-- The legacy engines that a replay takes for the one of the repository. -/
def Replayable (engine : Engine) : Prop :=
  ∃ invariants, engine = .legacy invariants ∧
    computeLegacyRegistryHash (invariants.map Invariant.id) =
      computeLegacyRegistryHash (initialInvariants.map Invariant.id)

/-- A snapshot of such an engine is restored, and taken again as it was. -/
theorem fromSnapshot_replayOptions {registrar : Registrar} (h : registrar.Lasting)
    (hengine : Replayable registrar.engine) :
    ∃ restored, Registrar.fromSnapshot registrar.snapshot (replayOptions registrar.snapshot) =
      .ok (some restored) ∧ restored.snapshot = registrar.snapshot := by
  obtain ⟨invariants, hlegacy, hhash⟩ := hengine
  have hmode : registrar.mode = .legacy := by rw [Registrar.mode, hlegacy]
  have hsnapshot : (withEngine registrar (.legacy initialInvariants)).snapshot =
      registrar.snapshot := by
    apply snapshot_withEngine
    · exact hmode.symm
    · rw [Registrar.registryHash, Registrar.registryHash, hlegacy]
      exact hhash.symm
  have hlasting := lasting_withEngine h (.legacy initialInvariants)
  obtain ⟨vs, hvs, hrestored⟩ := hlasting.fromSnapshot
  rw [hsnapshot] at hrestored
  have hoptions : replayOptions registrar.snapshot =
      (withEngine registrar (.legacy initialInvariants)).engine.options := by
    rw [replayOptions, snapshotMode_snapshot, hmode]
    rfl
  rw [hoptions]
  exact ⟨_, hrestored, ((hvs.matches hlasting.toOrdered).snapshot).trans hsnapshot⟩

/-! ## Honest state -/

/-- The snapshots of a ledger whose correlation ids are used one after the other, and of a
registrar of the legacy mode that stores what it accepts, pass the replay. -/
theorem replay_passes (canonicalize : JsonValue → String) {ledger : Ledger} {engine : Engine}
    {registrar : Registrar} (hledger : ledgerSystem.ReachableVia Contiguous ledger)
    (hregistrar : engine = .legacy initialInvariants ∧
        (registrarSystem engine).ReachableVia Registrar.Named registrar ∨
      Replayable engine ∧ (registrarSystem engine).ReachableVia Registrar.Storing registrar) :
    PassesReplay canonicalize ledger registrar := by
  obtain ⟨hlasting, hengine⟩ : registrar.Lasting ∧ Replayable registrar.engine := by
    rcases hregistrar with ⟨hengine, hr⟩ | ⟨hengine, hr⟩
    · have hmem : engine ∈ canonicalEngines := by simp [canonicalEngines, hengine]
      obtain ⟨hlasting, hsame⟩ :=
        lasting_of_run (fun r t heq ht => ht.storing (heq ▸ hmem)) hr
      exact ⟨hlasting, initialInvariants, hsame.trans hengine, rfl⟩
    · obtain ⟨hlasting, hsame⟩ := lasting_of_run (fun _ _ _ ht => ht) hr
      exact ⟨hlasting, hsame ▸ hengine⟩
  obtain ⟨hrecorded, hadjacent⟩ := adjacent_of_reachableVia hledger
  obtain ⟨restored, hrestored, hsnapshot⟩ := fromSnapshot_replayOptions hlasting hengine
  intro snapshotAt hashedAt originalAt createdAt replayedAt
  refine ⟨compareReplay canonicalize (ownInput canonicalize snapshotAt hashedAt ledger registrar)
    (Ledger.snapshot (regrouped ledger) createdAt) restored.snapshot originalAt replayedAt, ?_,
    compareReplay_verdict (hadjacent.snapshot_regrouped createdAt) hsnapshot⟩
  rw [verifyByReplay]
  simp only [ownInput, hrecorded.fromSnapshot, hrestored, Except.mapError, bind, Except.bind, pure,
    Except.pure, Option.map_some]

theorem replay_passes_root : PassesReplay JsonValue.canonicalText twoScales
    ((Registrar.new (.legacy initialInvariants)).register ⟨none, rootState (js "a")⟩).1 := by
  apply @replay_passes JsonValue.canonicalText _ (.legacy initialInvariants)
  · have hnew : ∀ e ∈ fineBatch "3" "4" "b",
        ∀ t ∈ (twoAccounts.call (.append evenBatch none)).transactions,
          t.correlationId ≠ e.correlationId := by decide +kernel
    have hfirst : Contiguous twoAccounts (.append evenBatch none) :=
      fun _ _ => .inl fun _ h => (nomatch h)
    have hsecond : Contiguous (twoAccounts.call (.append evenBatch none))
        (.append (fineBatch "3" "4" "b") none) := fun e he => .inl (hnew e he)
    exact ((reachableVia_twoAccounts fun _ _ _ => trivial).step hfirst rfl).step hsecond rfl
  · refine .inl ⟨rfl, .step (.init rfl) (fun _ => ⟨?_, ?_⟩) rfl⟩
    · exact show (0 : ℤ) < safeBound by decide
    · exact fun h => absurd (js_injective h) (by decide)

/-- A registrar with a compiled registry is not restored. -/
theorem not_passes_registry : ¬ ∀ canonicalize ledger engine registrar,
    ledgerSystem.Reachable ledger → (registrarSystem engine).Reachable registrar →
      PassesReplay canonicalize ledger registrar := by
  intro h
  obtain ⟨result, hresult, -⟩ := h JsonValue.canonicalText .new _
    (.new (.registry canonicalRegistry)) (.init rfl) (.init rfl) [] [] [] [] []
  rw [verifyByReplay] at hresult
  obtain ⟨ledger, -, hresult⟩ := bind_eq_ok.mp hresult
  obtain ⟨restored, hrestored, -⟩ := bind_eq_ok.mp hresult
  rw [mapError_eq_ok] at hrestored
  obtain ⟨state, hstate, -⟩ := bind_eq_ok.mp hrestored
  obtain ⟨s, hs⟩ := Rehydrates.of_eq_ok hstate
  -- the options of the replay have no compiled registry
  have hoptions : replayOptions (Registrar.new (.registry canonicalRegistry)).snapshot =
      ⟨.registry, some initialInvariants, none⟩ := by
    rw [replayOptions, snapshotMode_snapshot]
    rfl
  have hhash := hs.hash
  change computeExpectedHash (replayOptions (Registrar.new
    (.registry canonicalRegistry)).snapshot) = _ at hhash
  rw [hoptions] at hhash
  cases hhash

end Attestia.Verify
