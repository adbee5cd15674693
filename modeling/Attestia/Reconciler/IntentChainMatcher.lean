import Attestia.Lib.Except
import Attestia.Reconciler.ChainAmount

/-!
# Intents and chain events

`intent-chain-matcher.ts`: an intent that names a transaction is compared with the first event of
the transaction in its currency, or with the first event where it has no amount; each
transaction that no intent names is reported once.
-/

namespace Attestia.Reconciler

open Lib JsonNumber Ledger

def intentWording : Wording where
  side := js "intent"
  differing _ _ expected actual :=
    js "Amount mismatch (cross-decimal): intent=" ++ expected ++ js " chain=" ++ actual

namespace IntentChainMatcher

def missingChain (intent : ReconcilableIntent) (txHash : JsString) : IntentChainMatch :=
  { intentId := intent.id
    txHash := some txHash
    chainId := truthy intent.chainId
    status := .missingChain
    intentAmount := intent.amount
    chainAmount := none
    chainDecimals := none
    structuredDiscrepancies := [presenceDiscrepancy .missingChain (js "Intent " ++ intent.id ++
      js " executed with txHash " ++ txHash ++ js " but no on-chain event found")] }

/-- The result of an intent that has been compared with an event. -/
def compared (intent : ReconcilableIntent) (txHash : JsString) (event : ReconcilableChainEvent)
    (discrepancy : Option Discrepancy) : IntentChainMatch :=
  { intentId := intent.id
    txHash := some txHash
    chainId := some event.chainId
    status := if discrepancy.isNone then .matched else .amountMismatch
    intentAmount := intent.amount
    chainAmount := some event.amount
    chainDecimals := some event.decimals
    structuredDiscrepancies := discrepancy.toList }

def currencyMismatch (amount : Money) (event : ReconcilableChainEvent) : Discrepancy :=
  currencyDiscrepancy (js "Currency mismatch: intent=" ++ amount.currency ++ js " chain=" ++
    event.symbol) amount.currency event.symbol

/-- The turn of the loop for an intent; an intent without a transaction is skipped. -/
def matchIntent [Arithmetic] (index : JsMap JsString (List ReconcilableChainEvent))
    (intent : ReconcilableIntent) : Except MatchFault (Option IntentChainMatch) :=
  match truthy intent.txHash with
  | none => .ok none
  | some txHash =>
    match eventsOf index txHash with
    | [] => .ok (some (missingChain intent txHash))
    | first :: rest =>
      match intent.amount with
      -- without an amount the event has to exist, no more
      | none => .ok (some (compared intent txHash first none))
      | some amount =>
        match (first :: rest).find? fun e => e.symbol = amount.currency with
        | none => .ok (some (compared intent txHash first (some (currencyMismatch amount first))))
        | some event =>
          if !isIntegerText event.amount then do
            let discrepancy ← invalidAmount intentWording amount event
            return some (compared intent txHash event (some discrepancy))
          else do
            let discrepancy ← compareAmounts intentWording amount event
            return some (compared intent txHash event discrepancy)

def matchedTxHashes (index : JsMap JsString (List ReconcilableChainEvent))
    (intents : List ReconcilableIntent) : List JsString :=
  (intents.filterMap fun intent => truthy intent.txHash).filter fun txHash =>
    eventsOf index txHash ≠ []

def missingIntent (event : ReconcilableChainEvent) : IntentChainMatch :=
  { intentId := []
    txHash := some event.txHash
    chainId := some event.chainId
    status := .missingIntent
    intentAmount := none
    chainAmount := some event.amount
    chainDecimals := some event.decimals
    structuredDiscrepancies := [presenceDiscrepancy .missingIntent (js "Chain event " ++
      event.txHash ++ js " (" ++ event.amount ++ js " " ++ event.symbol ++
      js ") has no matching intent")] }

/-- The loop over the events; a transaction is reported once. -/
def orphans (matched : List JsString) : List JsString → List ReconcilableChainEvent →
    List IntentChainMatch
  | _, [] => []
  | reported, event :: events =>
    if event.txHash ∈ matched ∨ event.txHash ∈ reported then orphans matched reported events
    else missingIntent event :: orphans matched (event.txHash :: reported) events

def matchRecords [Arithmetic] (intents : List ReconcilableIntent)
    (chainEvents : List ReconcilableChainEvent) : Except MatchFault (List IntentChainMatch) := do
  let index := byTxHash chainEvents
  let results ← filterMapChecked (matchIntent index) intents
  return results ++ orphans (matchedTxHashes index intents) [] chainEvents

end IntentChainMatcher

end Attestia.Reconciler
