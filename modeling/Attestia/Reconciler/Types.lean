import Attestia.Ledger.MoneyMath

/-!
# Records of the reconciler

`types.ts` and `discrepancy.ts`: the records of the three sides, the results of the matchers, and
the report. The decimals of a chain event come from outside and may be any number.
-/

namespace Attestia.Reconciler

open Lib JsonNumber Ledger

/-! ## Records of the three sides -/

structure ReconcilableIntent where
  id : JsString
  status : JsString
  kind : JsString
  amount : Option Money
  envelopeId : Option JsString
  chainId : Option JsString
  txHash : Option JsString
  declaredAt : JsString
  correlationId : Option JsString

structure ReconcilableLedgerEntry where
  id : JsString
  accountId : JsString
  type : LedgerEntryType
  money : Money
  timestamp : JsString
  intentId : Option JsString
  txHash : Option JsString
  correlationId : JsString

/-- A number that nobody has checked. -/
inductive ChainDecimals where
  | finite (n : Number)
  | infinity (negative : Bool)
  | nan
  deriving DecidableEq

structure ReconcilableChainEvent where
  chainId : JsString
  txHash : JsString
  fromAddress : JsString
  toAddress : JsString
  amount : JsString
  decimals : ChainDecimals
  symbol : JsString
  timestamp : JsString

/-! ## Discrepancies -/

inductive DiscrepancyCode where
  | amountMismatch
  | currencyMismatch
  | decimalsMismatch
  | missingLedger
  | missingChain
  | missingIntent
  deriving DecidableEq

inductive DiscrepancyDimension where
  | amount
  | currency
  | decimals
  | presence
  deriving DecidableEq

structure Discrepancy where
  code : DiscrepancyCode
  dimension : DiscrepancyDimension
  expected : Option JsString
  actual : Option JsString
  message : JsString

def presenceDiscrepancy (code : DiscrepancyCode) (message : JsString) : Discrepancy :=
  ⟨code, .presence, none, none, message⟩

def valueDiscrepancy (code : DiscrepancyCode) (dimension : DiscrepancyDimension)
    (message expected actual : JsString) : Discrepancy :=
  ⟨code, dimension, some expected, some actual, message⟩

/-- The number of discrepancies of each code. -/
def countByCode (discrepancies : List Discrepancy) : JsMap DiscrepancyCode ℕ :=
  discrepancies.foldl (fun counts d => counts.set d.code ((counts.get? d.code).getD 0 + 1)) .empty

/-! ## Matches -/

inductive MatchStatus where
  | matched
  | amountMismatch
  | missingLedger
  | missingIntent
  | missingChain
  | unmatched
  deriving DecidableEq

structure IntentLedgerMatch where
  intentId : JsString
  correlationId : JsString
  status : MatchStatus
  intentAmount : Option Money
  ledgerAmount : Option Money
  structuredDiscrepancies : List Discrepancy

structure LedgerChainMatch where
  correlationId : JsString
  txHash : Option JsString
  chainId : Option JsString
  status : MatchStatus
  ledgerAmount : Option Money
  chainAmount : Option JsString
  chainDecimals : Option ChainDecimals
  structuredDiscrepancies : List Discrepancy

structure IntentChainMatch where
  intentId : JsString
  txHash : Option JsString
  chainId : Option JsString
  status : MatchStatus
  intentAmount : Option Money
  chainAmount : Option JsString
  chainDecimals : Option ChainDecimals
  structuredDiscrepancies : List Discrepancy

/-- The texts are those of the structured discrepancies. -/
def IntentLedgerMatch.discrepancies (m : IntentLedgerMatch) : List JsString :=
  m.structuredDiscrepancies.map Discrepancy.message

def LedgerChainMatch.discrepancies (m : LedgerChainMatch) : List JsString :=
  m.structuredDiscrepancies.map Discrepancy.message

def IntentChainMatch.discrepancies (m : IntentChainMatch) : List JsString :=
  m.structuredDiscrepancies.map Discrepancy.message

/-! ## Reports -/

structure ReconciliationScope where
  fromTime : Option JsString
  toTime : Option JsString
  intentId : Option JsString
  chainId : Option JsString
  correlationId : Option JsString

structure ReconciliationSummary where
  totalIntents : ℕ
  totalLedgerEntries : ℕ
  totalChainEvents : ℕ
  matchedCount : ℕ
  mismatchCount : ℕ
  missingCount : ℕ
  allReconciled : Bool
  discrepancies : List JsString
  structuredDiscrepancies : List Discrepancy
  discrepancyCountsByCode : JsMap DiscrepancyCode ℕ

structure ReconciliationReport where
  id : JsString
  scope : ReconciliationScope
  timestamp : JsString
  intentLedgerMatches : List IntentLedgerMatch
  ledgerChainMatches : List LedgerChainMatch
  intentChainMatches : List IntentChainMatch
  summary : ReconciliationSummary

structure ReconciliationInput where
  intents : List ReconcilableIntent
  ledgerEntries : List ReconcilableLedgerEntry
  chainEvents : List ReconcilableChainEvent
  scope : Option ReconciliationScope

/-- What the matchers throw: the error of an amount of the ledger, or that of `BigInt` of a number
that is not an integer. -/
inductive MatchFault where
  | ledger (error : LedgerError)
  | range

/-- A text that counts as true. -/
def truthy (s : Option JsString) : Option JsString := s.filter fun t => t ≠ []

theorem truthy_eq_some {s : Option JsString} {t : JsString} :
    truthy s = some t ↔ s = some t ∧ t ≠ [] := by
  rw [truthy, Option.filter_eq_some_iff, decide_eq_true_eq]

end Attestia.Reconciler
