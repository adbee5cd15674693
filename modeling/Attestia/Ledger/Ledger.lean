import Attestia.Ledger.BalanceCalculator
import Attestia.Lib.System

/-!
# The ledger

`ledger.ts`: an append checks its entries and throws before anything is written. The
transactions of a reachable ledger hold its entries, all of them valid, and each of them
balances in scaled integers.
-/

namespace Attestia

open Lib JsonNumber

structure Ledger where
  accounts : Ledger.AccountRegistry
  entries : List Ledger.LedgerEntry
  entryIds : List JsString
  transactions : List Ledger.LedgerTransaction

namespace Ledger

def new : Ledger := ⟨.empty, [], [], []⟩

def registerAccount (ledger : Ledger) (ref : AccountRef) (timestamp : JsString) :
    Except LedgerError (Ledger × LedgerAccount) := do
  let (accounts, account) ← ledger.accounts.register ref timestamp
  return ({ ledger with accounts }, account)

/-! ## The rules of `append` -/

def assertCorrelationId (correlationId : JsString) (entry : LedgerEntry) : Except LedgerError Unit :=
  if entry.correlationId ≠ correlationId then
    .error ⟨.mixedCorrelationId, js "All entries must share the same correlationId. Expected " ++
      quoted correlationId ++ js ", got " ++ quoted entry.correlationId⟩
  else .ok ()

def assertUniqueIds (entryIds : List JsString) : List JsString → List LedgerEntry →
    Except LedgerError Unit
  | _, [] => .ok ()
  | batchIds, entry :: entries =>
    if entry.id ∈ entryIds then
      .error ⟨.duplicateEntryId, js "Entry ID already exists in ledger: " ++ quoted entry.id⟩
    else if entry.id ∈ batchIds then
      .error ⟨.duplicateEntryId, js "Duplicate entry ID within batch: " ++ quoted entry.id⟩
    else assertUniqueIds entryIds (batchIds ++ [entry.id]) entries

def assertPositive (entry : LedgerEntry) : Except LedgerError Unit := do
  let scaled ← parseAmount entry.money.amount entry.money.decimals
  if scaled ≤ 0 then
    throw ⟨.invalidAmount, js "Entry amounts must be positive. Entry " ++ quoted entry.id ++
      js " has amount " ++ quoted entry.money.amount⟩

/-- The body of the loop of `_assertBalanced`, which adds amounts of any number of decimals. -/
def addEntry (currencyTotals : JsMap JsString CurrencyTotals) (entry : LedgerEntry) :
    Except LedgerError (JsMap JsString CurrencyTotals) := do
  let amount ← parseAmount entry.money.amount entry.money.decimals
  return addTotals currencyTotals entry.money.currency
    (match entry.type with
      | .debit => ⟨amount, 0⟩
      | .credit => ⟨0, amount⟩)

def assertBalanced (entries : List LedgerEntry) : Except LedgerError Unit := do
  let currencyTotals ← entries.foldlM addEntry .empty
  match currencyTotals.entries.find? fun t => t.2.debits ≠ t.2.credits with
  | none => return
  | some (currency, totals) =>
    throw ⟨.unbalancedTransaction, js "Transaction is unbalanced for currency " ++
      quoted currency ++ js ": debits=" ++ bigintText totals.debits ++ js ", credits=" ++
      bigintText totals.credits⟩

def append (ledger : Ledger) (entries : List LedgerEntry) (description : Option JsString) :
    Except LedgerError (Ledger × AppendResult) :=
  match entries with
  | [] => .error ⟨.emptyTransaction, js "Cannot append an empty set of entries"⟩
  | first :: _ => do
    let correlationId := first.correlationId
    forM entries (assertCorrelationId correlationId)
    assertUniqueIds ledger.entryIds [] entries
    forM entries fun entry => (ledger.accounts.assertExists entry.accountId).map fun _ => ()
    forM entries fun entry => validateMoney entry.money
    forM entries assertPositive
    assertBalanced entries
    let timestamp := first.timestamp
    return (⟨ledger.accounts, ledger.entries ++ entries, ledger.entryIds ++ entries.map (·.id),
      ledger.transactions ++ [⟨correlationId, entries, timestamp, description⟩]⟩,
      ⟨correlationId, entries.length, timestamp⟩)

def getBalance (ledger : Ledger) (accountId : JsString) : Except LedgerError AccountBalance :=
  computeAccountBalance accountId ledger.entries ledger.accounts

def getTrialBalance (ledger : Ledger) (timestamp : JsString) : Except LedgerError TrialBalance := do
  let report ← computeTrialBalance ledger.entries ledger.accounts timestamp
  assertTrialBalanced report

/-! ## Runs -/

inductive LedgerCall where
  | registerAccount (ref : AccountRef) (timestamp : JsString)
  | append (entries : List LedgerEntry) (description : Option JsString)

/-- The ledger after a call; one that throws leaves it as it was. -/
def call (ledger : Ledger) : LedgerCall → Ledger
  | .registerAccount ref timestamp =>
    match ledger.registerAccount ref timestamp with
    | .ok (ledger', _) => ledger'
    | .error _ => ledger
  | .append entries description =>
    match ledger.append entries description with
    | .ok (ledger', _) => ledger'
    | .error _ => ledger

def ledgerSystem : System Ledger LedgerCall where
  init ledger := ledger = .new
  next ledger call := some (ledger.call call)

end Ledger

end Attestia
