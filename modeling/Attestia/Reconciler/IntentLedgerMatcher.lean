import Attestia.Lib.Except
import Attestia.Reconciler.ChainAmount

/-!
# Intents and ledger entries

`intent-ledger-matcher.ts`: the debits that name an intent are summed up and compared with its
amount, at the greatest number of decimals among them; entries that name an intent that is not
there are reported.
-/

namespace Attestia.Reconciler

open Lib JsonNumber Ledger

namespace IntentLedgerMatcher

/-- The entries of each intent. -/
def byIntentId (ledgerEntries : List ReconcilableLedgerEntry) :
    JsMap JsString (List ReconcilableLedgerEntry) :=
  JsMap.groupBy (fun entry => entry.intentId.getD [])
    (ledgerEntries.filter fun entry => (truthy entry.intentId).isSome)

def entriesOf (index : JsMap JsString (List ReconcilableLedgerEntry)) (intentId : JsString) :
    List ReconcilableLedgerEntry :=
  (index.get? intentId).getD []

def missingLedger (intent : ReconcilableIntent) : IntentLedgerMatch :=
  { intentId := intent.id
    correlationId := intent.correlationId.getD intent.id
    status := .missingLedger
    intentAmount := intent.amount
    ledgerAmount := none
    structuredDiscrepancies := [presenceDiscrepancy .missingLedger (js "Intent " ++ intent.id ++
      js " is " ++ intent.status ++ js " but has no ledger entries")] }

/-- A match without amounts. -/
def unpriced (intent : ReconcilableIntent) (first : ReconcilableLedgerEntry) : IntentLedgerMatch :=
  ⟨intent.id, first.correlationId, .matched, none, none, []⟩

/-- The entries of an intent with an amount hold no debit. -/
def noDebits (intent : ReconcilableIntent) (amount : Money) (first : ReconcilableLedgerEntry) :
    Except MatchFault IntentLedgerMatch := do
  let raw ← (parseAmount amount.amount amount.decimals).mapError .ledger
  let expected := formatAmount raw amount.decimals
  let actual := formatAmount 0 amount.decimals
  return ⟨intent.id, first.correlationId, .amountMismatch, some amount,
    some ⟨actual, amount.currency, amount.decimals⟩,
    [amountDiscrepancy (js "Amount mismatch: intent=" ++ expected ++ js " ledger=" ++ actual ++
      js " (no debit entries)") expected actual]⟩

def foreignDebit (amount : Money) (debit : ReconcilableLedgerEntry) : Discrepancy :=
  currencyDiscrepancy (js "Currency mismatch: intent=" ++ amount.currency ++ js " ledger debit " ++
    debit.id ++ js "=" ++ debit.money.currency) amount.currency debit.money.currency

/-- The greatest number of decimals. -/
def greatestDecimals (amount : Money) (debits : List ReconcilableLedgerEntry) : Number :=
  debits.foldl (fun maxDec d => maxDecimals maxDec d.money.decimals) amount.decimals

/-- The sum of the debits. -/
def sumDebits (maxDec : Number) (debits : List ReconcilableLedgerEntry) : Except MatchFault ℤ :=
  debits.foldlM (fun total d => do
    let raw ← (parseAmount d.money.amount d.money.decimals).mapError .ledger
    let norm ← rescale raw maxDec d.money.decimals
    return total + norm) 0

/-- The discrepancy of the sums, or of the numbers of decimals alone. -/
def sumDiscrepancy (amount : Money) (debits : List ReconcilableLedgerEntry) (maxDec : Number)
    (intentNorm total : ℤ) : Option Discrepancy :=
  if intentNorm ≠ total then
    let expected := formatAmount intentNorm maxDec
    let actual := formatAmount total maxDec
    some (amountDiscrepancy (js "Amount mismatch: intent=" ++ expected ++ js " ledger=" ++ actual)
      expected actual)
  else if debits.any fun d => d.money.decimals ≠ amount.decimals then
    some ⟨.decimalsMismatch, .decimals, none, none,
      js "Decimals mismatch: intent and ledger debit(s) agree on " ++
        formatAmount intentNorm maxDec ++ js " but use different decimal bases"⟩
  else none

/-- The debits are compared with the amount. -/
def compareDebits (intent : ReconcilableIntent) (amount : Money) (first : ReconcilableLedgerEntry)
    (debits : List ReconcilableLedgerEntry) : Except MatchFault IntentLedgerMatch := do
  let foreign := debits.filter fun d => d.money.currency ≠ amount.currency
  let same := debits.filter fun d => d.money.currency = amount.currency
  let maxDec := greatestDecimals amount same
  let raw ← (parseAmount amount.amount amount.decimals).mapError .ledger
  let intentNorm ← rescale raw maxDec amount.decimals
  let total ← sumDebits maxDec same
  return ⟨intent.id, first.correlationId,
    if intentNorm = total ∧ foreign = [] then .matched else .amountMismatch, some amount,
    some ⟨formatAmount total maxDec, amount.currency, maxDec⟩,
    foreign.map (foreignDebit amount) ++ (sumDiscrepancy amount same maxDec intentNorm total).toList⟩

/-- An intent that is executed or verified has to have entries. -/
def isSettled (intent : ReconcilableIntent) : Bool :=
  intent.status = js "executed" || intent.status = js "verified"

/-- The turn of the loop for an intent with its entries. -/
def matchEntries (intent : ReconcilableIntent) :
    List ReconcilableLedgerEntry → Except MatchFault (Option IntentLedgerMatch)
  | [] => .ok (if isSettled intent then some (missingLedger intent) else none)
  | first :: rest =>
    match intent.amount, (first :: rest).filter fun e => e.type = .debit with
    | some amount, [] => (noDebits intent amount first).map some
    | some amount, debit :: debits =>
      (compareDebits intent amount first (debit :: debits)).map some
    | none, _ => .ok (some (unpriced intent first))

def matchIntent (index : JsMap JsString (List ReconcilableLedgerEntry))
    (intent : ReconcilableIntent) : Except MatchFault (Option IntentLedgerMatch) :=
  matchEntries intent (entriesOf index intent.id)

/-- The ids of the entries that name one of the intents. -/
def matchedEntryIds (index : JsMap JsString (List ReconcilableLedgerEntry))
    (intents : List ReconcilableIntent) : List JsString :=
  intents.flatMap fun intent => (entriesOf index intent.id).map ReconcilableLedgerEntry.id

def missingIntent (entry : ReconcilableLedgerEntry) (intentId : JsString) : IntentLedgerMatch :=
  { intentId := intentId
    correlationId := entry.correlationId
    status := .missingIntent
    intentAmount := none
    ledgerAmount := some entry.money
    structuredDiscrepancies := [presenceDiscrepancy .missingIntent (js "Ledger entry " ++ entry.id ++
      js " references intent " ++ intentId ++ js " but intent not found")] }

/-- The loop over the entries; an intent that has a result already is not reported again. -/
def addOrphans (matched : List JsString) (results : List IntentLedgerMatch) :
    List ReconcilableLedgerEntry → List IntentLedgerMatch
  | [] => results
  | entry :: entries =>
    match truthy entry.intentId with
    | none => addOrphans matched results entries
    | some intentId =>
      if entry.id ∈ matched ∨ intentId ∈ results.map IntentLedgerMatch.intentId then
        addOrphans matched results entries
      else addOrphans matched (results ++ [missingIntent entry intentId]) entries

def matchRecords (intents : List ReconcilableIntent)
    (ledgerEntries : List ReconcilableLedgerEntry) : Except MatchFault (List IntentLedgerMatch) := do
  let index := byIntentId ledgerEntries
  let results ← filterMapChecked (matchIntent index) intents
  return addOrphans (matchedEntryIds index intents) results ledgerEntries

end IntentLedgerMatcher

end Attestia.Reconciler
