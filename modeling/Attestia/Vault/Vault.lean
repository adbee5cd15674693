import Attestia.Vault.IntentManager

/-!
# The vault

`vault.ts`: envelopes and intents of one owner, and their snapshot. What is observed on the chains
is left out, it is not kept.
-/

namespace Attestia

open Lib JsonNumber

structure Vault.VaultConfig where
  ownerId : JsString
  defaultCurrency : JsString
  defaultDecimals : Number

/-- A vault with its intent manager, which holds the budget engine. -/
structure Vault where
  config : Vault.VaultConfig
  intents : Vault.IntentManager

namespace Vault

open Ledger

def new (config : VaultConfig) : Vault :=
  ⟨config, .new config.ownerId config.defaultCurrency config.defaultDecimals, .empty⟩

variable (v : Vault)

/-- A call of the budget engine. -/
def onBudget {α : Type} (r : Except VaultFault (BudgetEngine × α)) :
    Except VaultFault (Vault × α) :=
  r.map fun (budget, a) => ({ v with intents := { v.intents with budget := budget } }, a)

def onIntents {α : Type} (r : Except VaultFault (IntentManager × α)) :
    Except VaultFault (Vault × α) :=
  r.map fun (intents, a) => ({ v with intents := intents }, a)

def createEnvelope (id name : JsString) (category : Option JsString) (createdAt : JsString) :=
  v.onBudget (v.intents.budget.createEnvelope id name category createdAt)

def allocateToEnvelope (envelopeId : JsString) (amount : Money) :=
  v.onBudget (v.intents.budget.allocate envelopeId amount)

def declareIntent (id kind description : JsString) (params : VaultIntentParams)
    (envelopeId : Option JsString) (declaredAt : JsString) :=
  v.onIntents
    (v.intents.declare id kind description v.config.ownerId params envelopeId declaredAt)

def approveIntent (intentId : JsString) (reason : Option JsString) (approvedAt : JsString) :=
  v.onIntents (v.intents.approve intentId v.config.ownerId reason approvedAt)

def rejectIntent (intentId reason approvedAt : JsString) :=
  v.onIntents (v.intents.reject intentId v.config.ownerId reason approvedAt)

def markIntentExecuting (intentId : JsString) := v.onIntents (v.intents.markExecuting intentId)

def recordIntentExecution (intentId chainId txHash executedAt : JsString) :=
  v.onIntents (v.intents.recordExecution intentId chainId txHash executedAt)

def verifyIntent (intentId : JsString) (isMatch : Bool) (discrepancies : Option (List JsString))
    (verifiedAt : JsString) :=
  v.onIntents (v.intents.verify intentId isMatch discrepancies verifiedAt)

def recordIntentFailure (intentId : JsString) (discrepancies : List JsString)
    (verifiedAt : JsString) :=
  v.onIntents (v.intents.recordFailure intentId discrepancies verifiedAt)

/-! ## Snapshots -/

def CURRENT_VAULT_SNAPSHOT_VERSION : Number := .ofNat 1

structure VaultSnapshot where
  version : Number
  config : VaultConfig
  envelopes : List Envelope
  intents : List VaultIntent
  savedAt : JsString

inductive VaultErrorCode where
  | unsupportedSnapshotVersion
  | restoreInvalid
  deriving DecidableEq

/-- What a restore throws. -/
inductive RestoreError where
  | vault (code : VaultErrorCode) (message hint : JsString)
  | intents (fault : VaultFault)

def snapshot (savedAt : JsString) : VaultSnapshot where
  version := CURRENT_VAULT_SNAPSHOT_VERSION
  config := v.config
  envelopes := v.intents.budget.listEnvelopes
  intents := v.intents.exportIntents
  savedAt := savedAt

def unsupportedVersion (version : Number) : RestoreError :=
  let given := JsonValue.numberString version
  let current := JsonValue.numberString CURRENT_VAULT_SNAPSHOT_VERSION
  .vault .unsupportedSnapshotVersion
    (js "Cannot restore vault snapshot version " ++ given ++ js ": this build restores version " ++
      current)
    (js "Migrate the snapshot to version " ++ current ++
      js " before restoring, or restore with a build that supports version " ++ given ++ js ".")

def inconsistent (fault : VaultFault) : RestoreError :=
  .vault .restoreInvalid
    (js "Vault snapshot is inconsistent and cannot be restored: " ++ fault.message)
    (js "Inspect the snapshot's envelopes — each must have allocated >= spent and non-negative " ++
      js "amounts. This usually indicates corruption or a failed migration.")

/-- The vault that is restored does not depend on the one that is called. -/
def restoreFromSnapshot (snapshot : VaultSnapshot) : Except RestoreError Vault := do
  throwIf (snapshot.version ≠ CURRENT_VAULT_SNAPSHOT_VERSION) (unsupportedVersion snapshot.version)
  let vault := new snapshot.config
  let budget ← (vault.intents.budget.restoreEnvelopes snapshot.envelopes).mapError inconsistent
  let imported := { vault.intents with budget := budget }.importIntents snapshot.intents
  imported.2.mapError .intents
  return { vault with intents := imported.1 }

end Vault

end Attestia
