import Attestia.Lib.DecimalText
import Attestia.Lib.Except
import Attestia.Lib.JsMap
import Attestia.Lib.JsonValue

/-!
# Accounts, entries and errors of the ledger
-/

namespace Attestia.Ledger

open Lib JsonNumber

inductive LedgerErrorCode where
  | unbalancedTransaction
  | unknownAccount
  | currencyMismatch
  | invalidAmount
  | duplicateEntryId
  | duplicateAccountId
  | emptyTransaction
  | mixedCorrelationId
  | invalidMoney
  | unsupportedSnapshotVersion
  deriving DecidableEq

structure LedgerError where
  code : LedgerErrorCode
  message : JsString
  deriving DecidableEq

/-- A text between quotation marks. -/
def quoted (s : JsString) : JsString := js "\"" ++ s ++ js "\""

structure Money where
  amount : JsString
  currency : JsString
  decimals : Number
  deriving DecidableEq

inductive LedgerEntryType where
  | debit
  | credit
  deriving DecidableEq

structure LedgerEntry where
  id : JsString
  accountId : JsString
  type : LedgerEntryType
  money : Money
  timestamp : JsString
  intentId : Option JsString
  txHash : Option JsString
  correlationId : JsString
  deriving DecidableEq

inductive AccountType where
  | asset
  | liability
  | income
  | expense
  | equity
  deriving DecidableEq

abbrev NormalBalance := LedgerEntryType

/-- `NORMAL_BALANCE`. -/
def normalBalance : AccountType → NormalBalance
  | .asset => .debit
  | .expense => .debit
  | .liability => .credit
  | .income => .credit
  | .equity => .credit

structure AccountRef where
  id : JsString
  type : AccountType
  name : JsString

structure LedgerAccount where
  ref : AccountRef
  createdAt : JsString

structure LedgerTransaction where
  correlationId : JsString
  entries : List LedgerEntry
  timestamp : JsString
  description : Option JsString

structure CurrencyBalance where
  currency : JsString
  decimals : Number
  balance : JsString
  totalDebits : JsString
  totalCredits : JsString
  deriving DecidableEq

structure AccountBalance where
  accountId : JsString
  accountType : AccountType
  balances : List CurrencyBalance
  deriving DecidableEq

structure TrialBalanceLine where
  accountId : JsString
  accountType : AccountType
  currency : JsString
  decimals : Number
  debitBalance : JsString
  creditBalance : JsString
  deriving DecidableEq

structure TrialBalance where
  lines : List TrialBalanceLine
  generatedAt : JsString
  balanced : Bool
  deriving DecidableEq

structure AppendResult where
  correlationId : JsString
  entryCount : ℕ
  timestamp : JsString

/-! ## Accounts -/

abbrev AccountRegistry := JsMap JsString LedgerAccount

namespace AccountRegistry

def register (accounts : AccountRegistry) (ref : AccountRef) (timestamp : JsString) :
    Except LedgerError (AccountRegistry × LedgerAccount) :=
  if accounts.has ref.id then
    .error ⟨.duplicateAccountId, js "Account already exists: " ++ quoted ref.id⟩
  else
    let account := ⟨ref, timestamp⟩
    .ok (accounts.set ref.id account, account)

def assertExists (accounts : AccountRegistry) (id : JsString) : Except LedgerError LedgerAccount :=
  match accounts.get? id with
  | none => .error ⟨.unknownAccount, js "Unknown account: " ++ quoted id⟩
  | some account => .ok account

def getType (accounts : AccountRegistry) (id : JsString) : Except LedgerError AccountType :=
  (assertExists accounts id).map fun account => account.ref.type

theorem assertExists_eq_ok {accounts : AccountRegistry} {id : JsString} {account : LedgerAccount} :
    assertExists accounts id = .ok account ↔ accounts.get? id = some account := by
  unfold assertExists
  cases accounts.get? id <;> simp

/-- A registration adds its account and keeps the others. -/
theorem get?_of_register {accounts accounts' : AccountRegistry} {ref : AccountRef}
    {timestamp id : JsString} {account other : LedgerAccount}
    (h : register accounts ref timestamp = .ok (accounts', account))
    (hget : accounts.get? id = some other) : accounts'.get? id = some other := by
  unfold register at h
  split at h
  · cases h
  · rename_i hhas
    cases h
    rw [JsMap.get?_set_of_ne, hget]
    rintro rfl
    exact hhas (by rw [JsMap.has, hget]; rfl)

end AccountRegistry

end Attestia.Ledger
