import Attestia.Ledger.MoneyMath
import Attestia.Lib.Except
import Attestia.Lib.JsMap
import Attestia.Treasury.Posting

/-!
# Budget envelopes

`budget.ts`: amounts are allocated to envelopes and spent from them. All arithmetic is in the
currency and the decimals of the engine, and an envelope changes only where nothing throws.
-/

namespace Attestia.Vault

open Lib JsonNumber Ledger
open Treasury (named)

inductive BudgetErrorCode where
  | envelopeExists
  | envelopeNotFound
  | insufficientBudget
  | invalidAmount
  | currencyMismatch
  | invalidEnvelopeState
  deriving DecidableEq

inductive IntentErrorCode where
  | intentNotFound
  | invalidTransition
  | alreadyExists
  | budgetExceeded
  | importNotEmpty
  | duplicateImportId
  deriving DecidableEq

/-- What the calls of a vault throw. -/
inductive VaultFault where
  | budget (code : BudgetErrorCode) (message : JsString)
  | intent (code : IntentErrorCode) (message : JsString)
  | ledger (error : LedgerError)

def VaultFault.message : VaultFault → JsString
  | budget _ message => message
  | intent _ message => message
  | ledger error => error.message

structure Envelope where
  id : JsString
  name : JsString
  currency : JsString
  decimals : Number
  allocated : JsString
  spent : JsString
  available : JsString
  category : Option JsString
  createdAt : JsString

structure BudgetEngine where
  ownerId : JsString
  currency : JsString
  decimals : Number
  envelopes : JsMap JsString Envelope

namespace BudgetEngine

def new (ownerId currency : JsString) (decimals : Number) : BudgetEngine :=
  ⟨ownerId, currency, decimals, .empty⟩

variable (b : BudgetEngine)

def setEnvelope (id : JsString) (envelope : Envelope) : BudgetEngine :=
  { b with envelopes := b.envelopes.set id envelope }

def envelopeExists (id : JsString) : VaultFault :=
  .budget .envelopeExists (js "Envelope " ++ named id ++ js " already exists")

def createEnvelope (id name : JsString) (category : Option JsString) (createdAt : JsString) :
    Except VaultFault (BudgetEngine × Envelope) := do
  throwIf (b.envelopes.has id) (envelopeExists id)
  let envelope : Envelope :=
    ⟨id, name, b.currency, b.decimals, js "0", js "0", js "0", category, createdAt⟩
  return (b.setEnvelope id envelope, envelope)

def getEnvelope (id : JsString) : Except VaultFault Envelope :=
  match b.envelopes.get? id with
  | none => .error (.budget .envelopeNotFound (js "Envelope " ++ named id ++ js " not found"))
  | some envelope => .ok envelope

def listEnvelopes : List Envelope := b.envelopes.values

/-- An amount in the unit of the engine. -/
def unit (amount : JsString) : Money := ⟨amount, b.currency, b.decimals⟩

def add (x y : JsString) : Except VaultFault JsString :=
  ((addMoney (b.unit x) (b.unit y)).map Money.amount).mapError .ledger

def subtract (x y : JsString) : Except VaultFault JsString :=
  ((subtractMoney (b.unit x) (b.unit y)).map Money.amount).mapError .ledger

def assertCurrency (amount : Money) : Except VaultFault Unit :=
  throwIf (amount.currency ≠ b.currency) (.budget .currencyMismatch (js "Expected currency " ++
    named b.currency ++ js ", got " ++ named amount.currency))

def assertPositive (amount : Money) : Except VaultFault Unit := do
  let positive ← (isPositive amount).mapError .ledger
  throwIf (positive = false) (.budget .invalidAmount (js "Amount must be positive, got " ++
    named amount.amount))

/-- The amounts of an envelope after an operation. -/
def settle (id : JsString) (envelope : Envelope) (allocated spent available : JsString) :
    BudgetEngine × Envelope :=
  let updated := { envelope with allocated := allocated, spent := spent, available := available }
  (b.setEnvelope id updated, updated)

/-! ## Operations -/

def allocate (envelopeId : JsString) (amount : Money) :
    Except VaultFault (BudgetEngine × Envelope) := do
  let envelope ← b.getEnvelope envelopeId
  b.assertCurrency amount
  assertPositive amount
  let newAllocated ← b.add envelope.allocated amount.amount
  let newAvailable ← b.subtract newAllocated envelope.spent
  return b.settle envelopeId envelope newAllocated envelope.spent newAvailable

def deallocate (envelopeId : JsString) (amount : Money) :
    Except VaultFault (BudgetEngine × Envelope) := do
  let envelope ← b.getEnvelope envelopeId
  b.assertCurrency amount
  assertPositive amount
  let newAllocated ← b.subtract envelope.allocated amount.amount
  let newAvailable ← b.subtract newAllocated envelope.spent
  let negative ← (isNegative (b.unit newAvailable)).mapError .ledger
  throwIf (negative = true) (.budget .insufficientBudget (js "Cannot deallocate " ++ amount.amount ++
    js " from " ++ named envelopeId ++ js ": would go below spent amount (" ++ envelope.spent ++
    js ")"))
  return b.settle envelopeId envelope newAllocated envelope.spent newAvailable

def spend (envelopeId : JsString) (amount : Money) :
    Except VaultFault (BudgetEngine × Envelope) := do
  let envelope ← b.getEnvelope envelopeId
  b.assertCurrency amount
  assertPositive amount
  let order ← (compareMoney amount (b.unit envelope.available)).mapError .ledger
  throwIf (order = .gt) (.budget .insufficientBudget (js "Insufficient budget in " ++
    named envelopeId ++ js ": need " ++ amount.amount ++ js ", available " ++ envelope.available))
  let newSpent ← b.add envelope.spent amount.amount
  let newAvailable ← b.subtract envelope.allocated newSpent
  return b.settle envelopeId envelope envelope.allocated newSpent newAvailable

def reverseSpend (envelopeId : JsString) (amount : Money) :
    Except VaultFault (BudgetEngine × Envelope) := do
  let envelope ← b.getEnvelope envelopeId
  b.assertCurrency amount
  assertPositive amount
  let order ← (compareMoney amount (b.unit envelope.spent)).mapError .ledger
  throwIf (order = .gt) (.budget .invalidAmount (js "Cannot reverse " ++ amount.amount ++
    js " from " ++ named envelopeId ++ js ": exceeds spent amount (" ++ envelope.spent ++ js ")"))
  let newSpent ← b.subtract envelope.spent amount.amount
  let newAvailable ← b.subtract envelope.allocated newSpent
  return b.settle envelopeId envelope envelope.allocated newSpent newAvailable

/-! ## Restoring -/

def invalidEnvelope (env : Envelope) (detail : JsString) : VaultFault :=
  .budget .invalidEnvelopeState (js "Cannot restore envelope " ++ named env.id ++ js ": " ++ detail)

/-- The committed amounts are taken over, what is available is computed from them. -/
def restoreEnvelope (env : Envelope) : Except VaultFault (BudgetEngine × Envelope) := do
  throwIf (b.envelopes.has env.id) (envelopeExists env.id)
  let allocatedNegative ← (isNegative (b.unit env.allocated)).mapError .ledger
  throwIf (allocatedNegative = true)
    (invalidEnvelope env (js "allocated " ++ named env.allocated ++ js " is negative"))
  let spentNegative ← (isNegative (b.unit env.spent)).mapError .ledger
  throwIf (spentNegative = true)
    (invalidEnvelope env (js "spent " ++ named env.spent ++ js " is negative"))
  let order ← (compareMoney (b.unit env.spent) (b.unit env.allocated)).mapError .ledger
  throwIf (order = .gt) (invalidEnvelope env (js "spent " ++ named env.spent ++
    js " exceeds allocated " ++ named env.allocated ++ js " (would yield a negative balance)"))
  let available ← b.subtract env.allocated env.spent
  let restored := { env with currency := b.currency, decimals := b.decimals, available := available }
  return (b.setEnvelope env.id restored, restored)

def restoreEnvelopes : BudgetEngine → List Envelope → Except VaultFault BudgetEngine
  | b, [] => .ok b
  | b, env :: envs => do
    let (b', _) ← b.restoreEnvelope env
    restoreEnvelopes b' envs

end BudgetEngine

end Attestia.Vault
