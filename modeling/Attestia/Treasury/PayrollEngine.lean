import Attestia.Treasury.Posting

/-!
# The payroll engine

`payroll.ts`: a run is computed from the schedules of the active payees, approved, and
executed as one batch that debits an expense account and credits the payees.
-/

namespace Attestia.Treasury

open Lib JsonNumber Ledger Effect

inductive PayrollErrorCode where
  | payeeExists
  | payeeNotFound
  | payeeInactive
  | runExists
  | runNotFound
  | invalidTransition
  | noComponents
  | invalidAmount
  | importNotEmpty
  | duplicateImportId
  deriving DecidableEq

structure PayrollError where
  code : PayrollErrorCode
  message : JsString

inductive PayeeStatus where
  | active
  | inactive
  | suspended
  deriving DecidableEq

structure Payee where
  id : JsString
  name : JsString
  address : JsString
  chainId : Option JsString
  status : PayeeStatus
  registeredAt : JsString

inductive PayComponentType where
  | base
  | bonus
  | deduction
  | reimbursement
  | commission
  | allowance
  deriving DecidableEq

structure PayComponent where
  id : JsString
  name : JsString
  type : PayComponentType
  amount : Money
  recurring : Bool
  taxable : Bool

structure PayrollScheduleEntry where
  payeeId : JsString
  components : List PayComponent

structure PayPeriod where
  start : JsString
  «end» : JsString
  label : JsString

structure ResolvedPayComponent where
  componentId : JsString
  name : JsString
  type : PayComponentType
  amount : Money

structure PayrollEntry where
  payeeId : JsString
  grossPay : Money
  deductions : Money
  netPay : Money
  components : List ResolvedPayComponent

inductive PayrollRunStatus where
  | draft
  | approved
  | executed
  | failed
  deriving DecidableEq

def PayrollRunStatus.text : PayrollRunStatus → JsString
  | draft => js "draft"
  | approved => js "approved"
  | executed => js "executed"
  | failed => js "failed"

structure PayrollRun where
  id : JsString
  period : PayPeriod
  status : PayrollRunStatus
  entries : List PayrollEntry
  totalGross : Money
  totalDeductions : Money
  totalNet : Money
  createdAt : JsString
  executedAt : Option JsString

structure PayrollEngine where
  payees : JsMap JsString Payee
  schedules : JsMap JsString PayrollScheduleEntry
  runs : JsMap JsString PayrollRun
  currency : JsString
  decimals : Number

/-- The sums of the components of a payee so far. -/
structure PaySums where
  grossPay : Money
  deductions : Money

/-- The entries and the totals of a run so far. -/
structure RunTotals where
  entries : List PayrollEntry
  totalGross : Money
  totalDeductions : Money
  totalNet : Money

namespace PayrollEngine

def new (currency : JsString) (decimals : Number) : PayrollEngine :=
  ⟨.empty, .empty, .empty, currency, decimals⟩

variable (engine : PayrollEngine)

/-! ## Payees and schedules -/

def registerPayee (id name address : JsString) (chainId : Option JsString)
    (registeredAt : JsString) : Except PayrollError (PayrollEngine × Payee) :=
  if engine.payees.has id then
    .error ⟨.payeeExists, js "Payee " ++ named id ++ js " already exists"⟩
  else
    let payee : Payee := ⟨id, name, address, chainId, .active, registeredAt⟩
    .ok ({ engine with payees := engine.payees.set id payee }, payee)

def getPayee (id : JsString) : Except PayrollError Payee :=
  match engine.payees.get? id with
  | none => .error ⟨.payeeNotFound, js "Payee " ++ named id ++ js " not found"⟩
  | some payee => .ok payee

def updatePayeeStatus (id : JsString) (status : PayeeStatus) :
    Except PayrollError (PayrollEngine × Payee) := do
  let payee ← engine.getPayee id
  let updated := { payee with status := status }
  return ({ engine with payees := engine.payees.set id updated }, updated)

/-- A component is in the currency of the engine. -/
def assertCurrency (comp : PayComponent) : Except PayrollError Unit :=
  throwIf (comp.amount.currency ≠ engine.currency) ⟨.invalidAmount,
    js "Component " ++ named comp.id ++ js " has currency " ++ named comp.amount.currency ++
      js ", expected " ++ named engine.currency⟩

def setSchedule (payeeId : JsString) (components : List PayComponent) :
    Except PayrollError (PayrollEngine × PayrollScheduleEntry) := do
  let _ ← engine.getPayee payeeId
  throwIf (components = []) ⟨.noComponents,
    js "Schedule for " ++ named payeeId ++ js " must have at least one component"⟩
  forM components engine.assertCurrency
  let entry : PayrollScheduleEntry := ⟨payeeId, components⟩
  return ({ engine with schedules := engine.schedules.set payeeId entry }, entry)

/-! ## Runs -/

def zero : Money := zeroMoney engine.currency engine.decimals

def addComponent (sums : PaySums) (comp : PayComponent) : Except LedgerError PaySums :=
  if comp.type = .deduction then
    (addMoney sums.deductions comp.amount).map fun deductions => { sums with deductions }
  else (addMoney sums.grossPay comp.amount).map fun grossPay => { sums with grossPay }

def resolveComponent (comp : PayComponent) : ResolvedPayComponent :=
  ⟨comp.id, comp.name, comp.type, comp.amount⟩

def computeEntry (payeeId : JsString) (components : List PayComponent) :
    Except LedgerError PayrollEntry := do
  let sums ← components.foldlM addComponent ⟨engine.zero, engine.zero⟩
  let netPay ← subtractMoney sums.grossPay sums.deductions
  return ⟨payeeId, sums.grossPay, sums.deductions, netPay, components.map resolveComponent⟩

/-- One turn of the loop of `createRun`. -/
def addSchedule (totals : RunTotals) (schedule : JsString × PayrollScheduleEntry) :
    Except LedgerError RunTotals :=
  if (engine.payees.get? schedule.1).map Payee.status = some .active then do
    let entry ← engine.computeEntry schedule.1 schedule.2.components
    let totalGross ← addMoney totals.totalGross entry.grossPay
    let totalDeductions ← addMoney totals.totalDeductions entry.deductions
    let totalNet ← addMoney totals.totalNet entry.netPay
    return ⟨totals.entries ++ [entry], totalGross, totalDeductions, totalNet⟩
  else .ok totals

def setRun (id : JsString) (run : PayrollRun) : PayrollEngine :=
  { engine with runs := engine.runs.set id run }

def createRun (id : JsString) (period : PayPeriod) (createdAt : JsString) :
    Except (ExecutionError PayrollError) (PayrollEngine × PayrollRun) := do
  throwIf (engine.runs.has id) (.own ⟨.runExists,
    js "Payroll run " ++ named id ++ js " already exists"⟩)
  let totals ← (engine.schedules.entries.foldlM engine.addSchedule
    ⟨[], engine.zero, engine.zero, engine.zero⟩).mapError .ledger
  let run : PayrollRun := ⟨id, period, .draft, totals.entries, totals.totalGross,
    totals.totalDeductions, totals.totalNet, createdAt, none⟩
  return (engine.setRun id run, run)

def getRun (id : JsString) : Except PayrollError PayrollRun :=
  match engine.runs.get? id with
  | none => .error ⟨.runNotFound, js "Payroll run " ++ named id ++ js " not found"⟩
  | some run => .ok run

def invalidRunTransition (action id : JsString) (status : PayrollRunStatus) (must : JsString) :
    PayrollError :=
  ⟨.invalidTransition, js "Cannot " ++ action ++ js " run " ++ named id ++ js " in status " ++
    named status.text ++ js " (must be " ++ named must ++ js ")"⟩

def approveRun (id : JsString) : Except PayrollError (PayrollEngine × PayrollRun) := do
  let run ← engine.getRun id
  throwIf (run.status ≠ .draft) (invalidRunTransition (js "approve") id run.status (js "draft"))
  let approved := { run with status := .approved }
  return (engine.setRun id approved, approved)

end PayrollEngine

/-! ## Executions -/

def expenseAccountId (label : JsString) : JsString := js "payroll:expense:" ++ label

def payeeAccountId (payeeId : JsString) : JsString := js "payroll:payee:" ++ payeeId

def payrollTransfer (run : PayrollRun) (entry : PayrollEntry) : Transfer where
  base := js "payroll:" ++ run.id ++ js ":" ++ entry.payeeId
  debit := expenseAccountId run.period.label
  credit := payeeAccountId entry.payeeId
  money := entry.netPay

def payeeAccount (entry : PayrollEntry) : AccountRef :=
  ⟨payeeAccountId entry.payeeId, .liability, js "Payee: " ++ entry.payeeId⟩

def payrollPosting (run : PayrollRun) : Posting where
  accounts := ⟨expenseAccountId run.period.label, .expense,
    js "Payroll Expense: " ++ run.period.label⟩ :: run.entries.map payeeAccount
  correlationId := js "payroll:" ++ run.id
  transfers := run.entries.map (payrollTransfer run)
  description := js "Payroll: " ++ run.period.label

/-- The check of an entry before anything is written. -/
def assertPayable (run : PayrollRun) (entry : PayrollEntry) :
    Except (ExecutionError PayrollError) Unit :=
  match validateMoney entry.netPay with
  | .error _ => .error (.own ⟨.invalidAmount, js "Payee " ++ named entry.payeeId ++
      js " has a malformed net pay " ++ named entry.netPay.amount⟩)
  | .ok () => do
    let positive ← (isPositive entry.netPay).mapError .ledger
    throwIf (!positive) (.own ⟨.invalidAmount, js "Payee " ++ named entry.payeeId ++
      js " has net pay " ++ named entry.netPay.amount ++ js " " ++ entry.netPay.currency ++
      js ", which is not strictly positive \u2014 refusing to execute run " ++ named run.id⟩)

namespace PayrollEngine

/-- What `executeRun` writes and keeps. -/
def planRun (clock : Clock) (id : JsString) (engine : PayrollEngine) :
    Except (ExecutionError PayrollError) (Posting × PayrollEngine × PayrollRun) := do
  let run ← (engine.getRun id).mapError .own
  throwIf (run.status ≠ .approved)
    (.own (invalidRunTransition (js "execute") id run.status (js "approved")))
  forM run.entries (assertPayable run)
  let executed := { run with status := .executed, executedAt := some clock.executedAt }
  return (payrollPosting run, engine.setRun id executed, executed)

def executeRun (clock : Clock) (id : JsString) :
    Effect (PayrollEngine × Ledger) (ExecutionError PayrollError) PayrollRun :=
  executePlan clock (planRun clock id)

/-! ## Export and import -/

def exportPayees (engine : PayrollEngine) : List Payee := engine.payees.values

def exportRuns (engine : PayrollEngine) : List PayrollRun := engine.runs.values

def payrollImportNotEmpty (what : JsString) (size : ℕ) : PayrollError :=
  ⟨.importNotEmpty, js "Cannot import " ++ what ++ js " into a non-empty engine (" ++
    JsonValue.numberString (.ofNat size) ++
    js " already present) \u2014 restore into a fresh PayrollEngine"⟩

def duplicatePayrollId (what id : JsString) : PayrollError :=
  ⟨.duplicateImportId, js "Duplicate " ++ what ++ js " id " ++ named id ++
    js " in imported snapshot"⟩

/-- What an import has set stays where it throws. -/
def importPayees (engine : PayrollEngine) (payees : List Payee) :
    PayrollEngine × Except PayrollError Unit :=
  if engine.payees.entries ≠ [] then
    (engine, .error (payrollImportNotEmpty (js "payees") engine.payees.entries.length))
  else
    let r := engine.payees.importAll Payee.id (duplicatePayrollId (js "payee")) [] payees
    ({ engine with payees := r.1 }, r.2)

def importRuns (engine : PayrollEngine) (runs : List PayrollRun) :
    PayrollEngine × Except PayrollError Unit :=
  if engine.runs.entries ≠ [] then
    (engine, .error (payrollImportNotEmpty (js "runs") engine.runs.entries.length))
  else
    let r := engine.runs.importAll PayrollRun.id (duplicatePayrollId (js "payroll run")) [] runs
    ({ engine with runs := r.1 }, r.2)

end PayrollEngine

end Attestia.Treasury
