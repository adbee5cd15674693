import Attestia.EventStore.Types
import Attestia.Vault.BudgetEngine

/-!
# Intents

`intent-manager.ts`: an intent is declared, approved or rejected, executed and verified. Executing
one spends from its envelope before its status changes.
-/

namespace Attestia.Vault

open Lib JsonNumber Ledger
open Treasury (named)

inductive IntentStatus where
  | declared
  | approved
  | rejected
  | executing
  | executed
  | verified
  | failed
  deriving DecidableEq

def IntentStatus.text : IntentStatus → JsString
  | declared => js "declared"
  | approved => js "approved"
  | rejected => js "rejected"
  | executing => js "executing"
  | executed => js "executed"
  | verified => js "verified"
  | failed => js "failed"

/-- The parameters as the caller has given them, and the amount that the manager reads. -/
structure VaultIntentParams where
  amount : Option Money
  given : EventStore.JsValue

structure VaultIntentApproval where
  approvedBy : JsString
  approvedAt : JsString
  approved : Bool
  reason : Option JsString

structure VaultIntentExecution where
  executedAt : JsString
  chainId : JsString
  txHash : JsString

structure VaultIntentVerification where
  verifiedAt : JsString
  isMatch : Bool
  discrepancies : Option (List JsString)

structure VaultIntent where
  id : JsString
  status : IntentStatus
  kind : JsString
  description : JsString
  declaredBy : JsString
  declaredAt : JsString
  params : VaultIntentParams
  envelopeId : Option JsString
  approval : Option VaultIntentApproval
  execution : Option VaultIntentExecution
  verification : Option VaultIntentVerification

/-- `VALID_TRANSITIONS`. -/
def validTransitions : IntentStatus → List IntentStatus
  | .declared => [.approved, .rejected]
  | .approved => [.executing, .rejected]
  | .rejected => []
  | .executing => [.executed, .failed]
  | .executed => [.verified, .failed]
  | .verified => []
  | .failed => []

/-- `envelopeId && params.amount`: the empty id does not count. -/
def draws (envelopeId : Option JsString) (params : VaultIntentParams) : Option (JsString × Money) :=
  match envelopeId.filter (fun id => id ≠ []), params.amount with
  | some id, some amount => some (id, amount)
  | _, _ => none

abbrev Intents := JsMap JsString VaultIntent

/-- The manager with the engine that it spends from. -/
structure IntentManager where
  budget : BudgetEngine
  intents : Intents

namespace IntentManager

variable (m : IntentManager)

def setIntent (id : JsString) (intent : VaultIntent) : IntentManager :=
  { m with intents := m.intents.set id intent }

def requireIntent (id : JsString) : Except VaultFault VaultIntent :=
  match m.intents.get? id with
  | none => .error (.intent .intentNotFound (js "Intent " ++ named id ++ js " not found"))
  | some intent => .ok intent

def assertTransition (intent : VaultIntent) (target : IntentStatus) : Except VaultFault Unit :=
  throwIf (target ∉ validTransitions intent.status) (.intent .invalidTransition
    (js "Cannot transition intent " ++ named intent.id ++ js " from " ++ named intent.status.text ++
      js " to " ++ named target.text))

/-- The check of the budget when an intent is declared. -/
def checkBudget : Option (JsString × Money) → Except VaultFault Unit
  | none => .ok ()
  | some (envelopeId, amount) => do
    let envelope ← m.budget.getEnvelope envelopeId
    let order ← (compareMoney amount ⟨envelope.available, envelope.currency, envelope.decimals⟩).mapError
      .ledger
    throwIf (order = .gt) (.intent .budgetExceeded (js "Intent requires " ++ amount.amount ++ js " " ++
      amount.currency ++ js " but envelope " ++ named envelopeId ++ js " only has " ++
      envelope.available ++ js " available"))

def declare (id kind description declaredBy : JsString) (params : VaultIntentParams)
    (envelopeId : Option JsString) (declaredAt : JsString) :
    Except VaultFault (IntentManager × VaultIntent) := do
  throwIf (m.intents.has id) (.intent .alreadyExists (js "Intent " ++ named id ++ js " already exists"))
  m.checkBudget (draws envelopeId params)
  let intent : VaultIntent := ⟨id, .declared, kind, description, declaredBy, declaredAt, params,
    envelopeId, none, none, none⟩
  return (m.setIntent id intent, intent)

/-- A transition that changes the intent alone. -/
def transition (id : JsString) (target : IntentStatus) (update : VaultIntent → VaultIntent) :
    Except VaultFault (IntentManager × VaultIntent) := do
  let intent ← m.requireIntent id
  assertTransition intent target
  let updated := { update intent with status := target }
  return (m.setIntent id updated, updated)

def approve (id approvedBy : JsString) (reason : Option JsString) (approvedAt : JsString) :=
  m.transition id .approved fun intent =>
    { intent with approval := some ⟨approvedBy, approvedAt, true, reason⟩ }

def reject (id rejectedBy reason approvedAt : JsString) :=
  m.transition id .rejected fun intent =>
    { intent with approval := some ⟨rejectedBy, approvedAt, false, some reason⟩ }

def markExecuting (id : JsString) := m.transition id .executing fun intent => intent

def recordExecution (id chainId txHash executedAt : JsString) :
    Except VaultFault (IntentManager × VaultIntent) := do
  let intent ← m.requireIntent id
  assertTransition intent .executed
  let budget ← match draws intent.envelopeId intent.params with
    | none => .ok m.budget
    | some (envelopeId, amount) => (m.budget.spend envelopeId amount).map Prod.fst
  let updated := { intent with status := .executed, execution := some ⟨executedAt, chainId, txHash⟩ }
  return ({ m with budget := budget }.setIntent id updated, updated)

def verify (id : JsString) (isMatch : Bool) (discrepancies : Option (List JsString))
    (verifiedAt : JsString) :=
  m.transition id .verified fun intent =>
    { intent with verification := some ⟨verifiedAt, isMatch, discrepancies⟩ }

def recordFailure (id : JsString) (discrepancies : List JsString) (verifiedAt : JsString) :
    Except VaultFault (IntentManager × VaultIntent) := do
  let intent ← m.requireIntent id
  assertTransition intent .failed
  let budget ← match draws intent.envelopeId intent.params with
    | none => .ok m.budget
    | some (envelopeId, amount) =>
      if intent.status = .executed then (m.budget.reverseSpend envelopeId amount).map Prod.fst
      else .ok m.budget
  let updated := { intent with
    status := .failed, verification := some ⟨verifiedAt, false, some discrepancies⟩ }
  return ({ m with budget := budget }.setIntent id updated, updated)

def exportIntents : List VaultIntent := m.intents.values

def notEmpty (size : ℕ) : VaultFault :=
  .intent .importNotEmpty (js "Cannot import intents into a non-empty manager (" ++
    EventStore.natString size ++ js " already present) — restore into a fresh IntentManager")

def duplicateId (id : JsString) : VaultFault :=
  .intent .duplicateImportId (js "Duplicate intent id " ++ named id ++ js " in imported snapshot")

/-- The intents are kept one after the other, also where a later one throws. -/
def importIntents (intents : List VaultIntent) : IntentManager × Except VaultFault Unit :=
  if m.intents.entries ≠ [] then (m, .error (notEmpty m.intents.entries.length))
  else
    let r := JsMap.importAll VaultIntent.id duplicateId m.intents [] intents
    ({ m with intents := r.1 }, r.2)

end IntentManager

end Attestia.Vault
