import Attestia.Lib.Jcs
import Attestia.Reconciler.IntentChainMatcher
import Attestia.Reconciler.IntentLedgerMatcher
import Attestia.Reconciler.LedgerChainMatcher

/-!
# The reconciler

`reconciler.ts`: the three lists are filtered by the scope, each by the fields that its records
have, and the three matchers run on what is left. A report is clean where every result of theirs
is a match.
-/

namespace Attestia.Reconciler

open Lib JsonNumber Ledger

/-! ## Scopes -/

/-- A field of the scope that is set restricts a value; a record without the value is dropped. -/
def restricts (field value : Option JsString) : Bool :=
  match truthy field with
  | none => true
  | some wanted => value = some wanted

/-- `time < from` and `time > to` on strings. -/
def inTime (scope : ReconciliationScope) (time : JsString) : Bool :=
  ((truthy scope.fromTime).all fun start => Json.keyLe start time) &&
    (truthy scope.toTime).all fun stop => Json.keyLe time stop

def ReconciliationScope.hasIntent (scope : ReconciliationScope) (i : ReconcilableIntent) : Bool :=
  restricts scope.intentId (some i.id) && restricts scope.chainId i.chainId &&
    restricts scope.correlationId i.correlationId && inTime scope i.declaredAt

def ReconciliationScope.hasEntry (scope : ReconciliationScope) (e : ReconcilableLedgerEntry) : Bool :=
  restricts scope.correlationId (some e.correlationId) && inTime scope e.timestamp

def ReconciliationScope.hasEvent (scope : ReconciliationScope) (e : ReconcilableChainEvent) : Bool :=
  restricts scope.chainId (some e.chainId) && inTime scope e.timestamp

namespace ReconciliationInput

variable (input : ReconciliationInput)

def filterIntents : List ReconcilableIntent :=
  match input.scope with
  | none => input.intents
  | some scope => input.intents.filter scope.hasIntent

def filterEntries : List ReconcilableLedgerEntry :=
  match input.scope with
  | none => input.ledgerEntries
  | some scope => input.ledgerEntries.filter scope.hasEntry

def filterEvents : List ReconcilableChainEvent :=
  match input.scope with
  | none => input.chainEvents
  | some scope => input.chainEvents.filter scope.hasEvent

end ReconciliationInput

/-! ## Summaries -/

/-- What the summary reads of a match. -/
structure MatchLike where
  status : MatchStatus
  discrepancies : List JsString
  structuredDiscrepancies : List Discrepancy

def IntentLedgerMatch.toMatchLike (m : IntentLedgerMatch) : MatchLike :=
  ⟨m.status, m.discrepancies, m.structuredDiscrepancies⟩

def LedgerChainMatch.toMatchLike (m : LedgerChainMatch) : MatchLike :=
  ⟨m.status, m.discrepancies, m.structuredDiscrepancies⟩

def IntentChainMatch.toMatchLike (m : IntentChainMatch) : MatchLike :=
  ⟨m.status, m.discrepancies, m.structuredDiscrepancies⟩

def missingStatuses : List MatchStatus := [.missingLedger, .missingIntent, .missingChain, .unmatched]

def countStatus (statuses : List MatchStatus) (allMatches : List MatchLike) : ℕ :=
  (allMatches.filter fun m => m.status ∈ statuses).length

def computeSummary (intents : List ReconcilableIntent)
    (ledgerEntries : List ReconcilableLedgerEntry) (chainEvents : List ReconcilableChainEvent)
    (intentLedger ledgerChain intentChain : List MatchLike) : ReconciliationSummary :=
  let allMatches := intentLedger ++ ledgerChain ++ intentChain
  let mismatchCount := countStatus [.amountMismatch] allMatches
  let missingCount := countStatus missingStatuses allMatches
  let allStructured := allMatches.flatMap MatchLike.structuredDiscrepancies
  { totalIntents := intents.length
    totalLedgerEntries := ledgerEntries.length
    totalChainEvents := chainEvents.length
    matchedCount := countStatus [.matched] allMatches
    mismatchCount := mismatchCount
    missingCount := missingCount
    allReconciled := mismatchCount = 0 && missingCount = 0
    discrepancies := allMatches.flatMap MatchLike.discrepancies
    structuredDiscrepancies := allStructured
    discrepancyCountsByCode := countByCode allStructured }

/-! ## Reports -/

/-- The texts of the clock during a reconciliation. -/
structure ReportClock where
  millis : JsString
  timestamp : JsString

def emptyScope : ReconciliationScope := ⟨none, none, none, none, none⟩

/-- `reconcile`; `reportCounter` is the field of the reconciler behind the increment. -/
def reconcile (clock : ReportClock) (reportCounter : ℕ) (input : ReconciliationInput) :
    Except MatchFault ReconciliationReport := do
  let intents := input.filterIntents
  let ledgerEntries := input.filterEntries
  let chainEvents := input.filterEvents
  let intentLedger ← IntentLedgerMatcher.matchRecords intents ledgerEntries
  let ledgerChain ← LedgerChainMatcher.matchRecords ledgerEntries chainEvents
  let intentChain ← IntentChainMatcher.matchRecords intents chainEvents
  return {
    id := js "recon:" ++ clock.millis ++ js ":" ++ JsonValue.numberString (.ofNat reportCounter)
    scope := input.scope.getD emptyScope
    timestamp := clock.timestamp
    intentLedgerMatches := intentLedger
    ledgerChainMatches := ledgerChain
    intentChainMatches := intentChain
    summary := computeSummary intents ledgerEntries chainEvents
      (intentLedger.map IntentLedgerMatch.toMatchLike) (ledgerChain.map LedgerChainMatch.toMatchLike)
      (intentChain.map IntentChainMatch.toMatchLike) }

end Attestia.Reconciler
