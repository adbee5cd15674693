import Attestia.Lib.Except
import Attestia.Reconciler.ChainAmount

/-!
# Ledger entries and chain events

`ledger-chain-matcher.ts`: an entry that names a transaction is compared with the first event of
the transaction in its currency; the events of transactions that no entry names are reported.
-/

namespace Attestia.Reconciler

open Lib JsonNumber Ledger

def ledgerWording : Wording where
  side := js "ledger"
  differing decimals chainDecimals expected actual :=
    js "Amount mismatch (cross-decimal): ledger=" ++ expected ++ js " (" ++
      JsonValue.numberString decimals ++ js " dec) chain=" ++ actual ++ js " (" ++
      JsonValue.numberString chainDecimals ++ js " dec)"

namespace LedgerChainMatcher

def missingChain (entry : ReconcilableLedgerEntry) (txHash : JsString) : LedgerChainMatch :=
  { correlationId := entry.correlationId
    txHash := some txHash
    chainId := none
    status := .missingChain
    ledgerAmount := some entry.money
    chainAmount := none
    chainDecimals := none
    structuredDiscrepancies := [presenceDiscrepancy .missingChain (js "Ledger entry " ++ entry.id ++
      js " references txHash " ++ txHash ++ js " but no on-chain event found")] }

/-- The result of an entry that has been compared with an event. -/
def compared (entry : ReconcilableLedgerEntry) (txHash : JsString) (event : ReconcilableChainEvent)
    (discrepancy : Option Discrepancy) : LedgerChainMatch :=
  { correlationId := entry.correlationId
    txHash := some txHash
    chainId := some event.chainId
    status := if discrepancy.isNone then .matched else .amountMismatch
    ledgerAmount := some entry.money
    chainAmount := some event.amount
    chainDecimals := some event.decimals
    structuredDiscrepancies := discrepancy.toList }

def currencyMismatch (entry : ReconcilableLedgerEntry) (event : ReconcilableChainEvent) :
    Discrepancy :=
  currencyDiscrepancy (js "Currency mismatch: ledger=" ++ entry.money.currency ++ js " chain=" ++
    event.symbol) entry.money.currency event.symbol

/-- The turn of the loop for an entry; an entry without a transaction is skipped. -/
def matchEntry [Arithmetic] (index : JsMap JsString (List ReconcilableChainEvent))
    (entry : ReconcilableLedgerEntry) : Except MatchFault (Option LedgerChainMatch) :=
  match truthy entry.txHash with
  | none => .ok none
  | some txHash =>
    match eventsOf index txHash with
    | [] => .ok (some (missingChain entry txHash))
    | first :: rest =>
      match (first :: rest).find? fun e => e.symbol = entry.money.currency with
      | none => .ok (some (compared entry txHash first (some (currencyMismatch entry first))))
      | some event =>
        if !isIntegerText event.amount then do
          let discrepancy ← invalidAmount ledgerWording entry.money event
          return some (compared entry txHash event (some discrepancy))
        else do
          let discrepancy ← compareAmounts ledgerWording entry.money event
          return some (compared entry txHash event discrepancy)

/-- The transactions that an entry names and that have events. -/
def matchedTxHashes (index : JsMap JsString (List ReconcilableChainEvent))
    (ledgerEntries : List ReconcilableLedgerEntry) : List JsString :=
  (ledgerEntries.filterMap fun entry => truthy entry.txHash).filter fun txHash =>
    eventsOf index txHash ≠ []

def missingLedger (event : ReconcilableChainEvent) : LedgerChainMatch :=
  { correlationId := js "unmatched:" ++ event.txHash
    txHash := some event.txHash
    chainId := some event.chainId
    status := .missingLedger
    ledgerAmount := none
    chainAmount := some event.amount
    chainDecimals := some event.decimals
    structuredDiscrepancies := [presenceDiscrepancy .missingLedger (js "On-chain event " ++
      event.txHash ++ js " has no matching ledger entry")] }

def matchRecords [Arithmetic] (ledgerEntries : List ReconcilableLedgerEntry)
    (chainEvents : List ReconcilableChainEvent) : Except MatchFault (List LedgerChainMatch) := do
  let index := byTxHash chainEvents
  let results ← filterMapChecked (matchEntry index) ledgerEntries
  let matched := matchedTxHashes index ledgerEntries
  return results ++ (chainEvents.filter fun e => e.txHash ∉ matched).map missingLedger

end LedgerChainMatcher

end Attestia.Reconciler
