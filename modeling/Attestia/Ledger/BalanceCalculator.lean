import Attestia.Ledger.MoneyMath

/-!
# Balances

`balance-calculator.ts`: entries are grouped by a key made of the account and the currency;
a group keeps the decimals of its first entry and adds the scaled amounts.
-/

namespace Attestia.Ledger

open Lib JsonNumber

def balanceKey (accountId currency : JsString) : JsString := accountId ++ js "::" ++ currency

structure BalanceAccumulator where
  accountId : JsString
  currency : JsString
  decimals : Number
  totalDebits : ℤ
  totalCredits : ℤ

namespace BalanceAccumulator

def start (entry : LedgerEntry) : BalanceAccumulator :=
  ⟨entry.accountId, entry.money.currency, entry.money.decimals, 0, 0⟩

def add (acc : BalanceAccumulator) (type : LedgerEntryType) (amount : ℤ) : BalanceAccumulator :=
  match type with
  | .debit => { acc with totalDebits := acc.totalDebits + amount }
  | .credit => { acc with totalCredits := acc.totalCredits + amount }

end BalanceAccumulator

/-- The body of the loop of `buildAccumulators`. -/
def accumulate (accumulators : JsMap JsString BalanceAccumulator) (entry : LedgerEntry) :
    Except LedgerError (JsMap JsString BalanceAccumulator) := do
  let key := balanceKey entry.accountId entry.money.currency
  let acc := (accumulators.get? key).getD (.start entry)
  let amount ← parseAmount entry.money.amount entry.money.decimals
  return accumulators.set key (acc.add entry.type amount)

def buildAccumulators (entries : List LedgerEntry) :
    Except LedgerError (JsMap JsString BalanceAccumulator) :=
  entries.foldlM accumulate .empty

def currencyBalance (normal : NormalBalance) (acc : BalanceAccumulator) : CurrencyBalance :=
  let net :=
    match normal with
    | .debit => acc.totalDebits - acc.totalCredits
    | .credit => acc.totalCredits - acc.totalDebits
  ⟨acc.currency, acc.decimals, formatAmount net acc.decimals,
    formatAmount acc.totalDebits acc.decimals, formatAmount acc.totalCredits acc.decimals⟩

def computeAccountBalance (accountId : JsString) (entries : List LedgerEntry)
    (accounts : AccountRegistry) : Except LedgerError AccountBalance := do
  let account ← accounts.assertExists accountId
  let accountEntries := entries.filter fun e => e.accountId = accountId
  let accumulators ← buildAccumulators accountEntries
  return ⟨accountId, account.ref.type,
    accumulators.values.map (currencyBalance (normalBalance account.ref.type))⟩

/-! ## The trial balance -/

structure CurrencyTotals where
  debits : ℤ
  credits : ℤ

/-- The debit and the credit column of a line. -/
def columns (normal : NormalBalance) (acc : BalanceAccumulator) : CurrencyTotals :=
  match normal with
  | .debit =>
    let netDebit := acc.totalDebits - acc.totalCredits
    if 0 ≤ netDebit then ⟨netDebit, 0⟩ else ⟨0, -netDebit⟩
  | .credit =>
    let netCredit := acc.totalCredits - acc.totalDebits
    if 0 ≤ netCredit then ⟨0, netCredit⟩ else ⟨-netCredit, 0⟩

def trialBalanceLine (accountType : AccountType) (acc : BalanceAccumulator) : TrialBalanceLine :=
  let column := columns (normalBalance accountType) acc
  ⟨acc.accountId, accountType, acc.currency, acc.decimals,
    formatAmount column.debits acc.decimals, formatAmount column.credits acc.decimals⟩

/-- Adds two columns to the totals of a currency. -/
def addTotals (totals : JsMap JsString CurrencyTotals) (currency : JsString)
    (column : CurrencyTotals) : JsMap JsString CurrencyTotals :=
  let t := (totals.get? currency).getD ⟨0, 0⟩
  totals.set currency ⟨t.debits + column.debits, t.credits + column.credits⟩

/-- The body of the loop over the accumulators. -/
def trialBalanceStep (accounts : AccountRegistry)
    (state : List TrialBalanceLine × JsMap JsString CurrencyTotals) (acc : BalanceAccumulator) :
    Except LedgerError (List TrialBalanceLine × JsMap JsString CurrencyTotals) := do
  let accountType ← accounts.getType acc.accountId
  return (state.1 ++ [trialBalanceLine accountType acc],
    addTotals state.2 acc.currency (columns (normalBalance accountType) acc))

def computeTrialBalance (entries : List LedgerEntry) (accounts : AccountRegistry)
    (timestamp : JsString) : Except LedgerError TrialBalance := do
  let accumulators ← buildAccumulators entries
  let (lines, currencyTotals) ← accumulators.values.foldlM (trialBalanceStep accounts) ([], .empty)
  return ⟨lines, timestamp, currencyTotals.values.all fun t => t.debits = t.credits⟩

/-- The body of the loop over the lines. -/
def lineTotals (totals : JsMap JsString CurrencyTotals) (line : TrialBalanceLine) :
    Except LedgerError (JsMap JsString CurrencyTotals) := do
  let debits ← parseAmount line.debitBalance line.decimals
  let credits ← parseAmount line.creditBalance line.decimals
  return addTotals totals line.currency ⟨debits, credits⟩

def assertTrialBalanced (trialBalance : TrialBalance) : Except LedgerError TrialBalance := do
  let totalsByCurrency ← trialBalance.lines.foldlM lineTotals .empty
  match totalsByCurrency.entries.find? fun t => t.2.debits ≠ t.2.credits with
  | none => return trialBalance
  | some (currency, totals) =>
    throw ⟨.unbalancedTransaction, js "Trial balance is unbalanced for currency " ++
      quoted currency ++ js ": debits=" ++ bigintText totals.debits ++ js ", credits=" ++
      bigintText totals.credits ++
      js ". A balanced ledger cannot produce this — state is corrupt."⟩

end Attestia.Ledger
