import Attestia.Treasury.Execution

/-!
# The treasury

`treasury.ts`: the payroll engine, the distribution engine and the funding manager write to one
ledger. A snapshot holds the records of the three, and neither the pay schedules nor the ledger.
-/

namespace Attestia

open Lib JsonNumber Effect

structure Treasury.TreasuryConfig where
  orgId : JsString
  name : JsString
  defaultCurrency : JsString
  defaultDecimals : Number
  gatekeepers : JsString × JsString

structure Treasury where
  config : Treasury.TreasuryConfig
  ledger : Ledger
  payroll : Treasury.PayrollEngine
  distributions : Treasury.DistributionEngine
  funding : Treasury.FundingGateManager

namespace Treasury

open Ledger

def new (config : TreasuryConfig) : Except FundingError Treasury := do
  let funding ← FundingGateManager.new config.gatekeepers
  return ⟨config, .new, .new config.defaultCurrency config.defaultDecimals,
    .new config.defaultCurrency config.defaultDecimals, funding⟩

/-! ## Calls -/

inductive Call where
  | registerPayee (id name address : JsString) (chainId : Option JsString) (registeredAt : JsString)
  | setPaySchedule (payeeId : JsString) (components : List PayComponent)
  | createPayrollRun (id : JsString) (period : PayPeriod) (createdAt : JsString)
  | approvePayrollRun (id : JsString)
  | executePayrollRun (clock : Clock) (id : JsString)
  | getPayrollRun (id : JsString)
  | createDistribution (id name : JsString) (strategy : DistributionStrategy) (pool : Money)
      (recipients : List DistributionRecipient) (createdAt : JsString)
  | approveDistribution (id : JsString)
  | computeDistribution (id : JsString)
  | executeDistribution (clock : Clock) (id : JsString)
  | submitFunding (id description : JsString) (amount : Money) (requestedBy createdAt : JsString)
  | approveFundingGate (id approvedBy : JsString) (reason : Option JsString) (approvedAt : JsString)
  | rejectFunding (id rejectedBy : JsString) (reason : Option JsString) (rejectedAt : JsString)
  | executeFunding (clock : Clock) (id : JsString)
  | getFundingRequest (id : JsString)
  | getBalance (accountId : JsString)
  | getTrialBalance (timestamp : JsString)

/-- What a call returns or throws. -/
inductive Reply where
  | payee (result : Except PayrollError Payee)
  | schedule (result : Except PayrollError PayrollScheduleEntry)
  | run (result : Except (ExecutionError PayrollError) PayrollRun)
  | plan (result : Except (ExecutionError DistributionFault) DistributionPlan)
  | distribution (result : Except (ExecutionError DistributionFault) DistributionResult)
  | request (result : Except (ExecutionError FundingError) FundingRequest)
  | balance (result : Except LedgerError AccountBalance)
  | trialBalance (result : Except LedgerError TrialBalance)

variable (t : Treasury)

/-- A call of the payroll engine that keeps an engine where it returns. -/
def onPayroll {ε α : Type} (reply : Except ε α → Reply) (r : Except ε (PayrollEngine × α)) :
    Treasury × Reply :=
  match r with
  | .ok (payroll, a) => ({ t with payroll := payroll }, reply (.ok a))
  | .error e => (t, reply (.error e))

def onDistributions {ε α : Type} (reply : Except ε α → Reply)
    (r : Except ε (DistributionEngine × α)) : Treasury × Reply :=
  match r with
  | .ok (distributions, a) => ({ t with distributions := distributions }, reply (.ok a))
  | .error e => (t, reply (.error e))

def onFunding {ε α : Type} (reply : Except ε α → Reply) (r : Except ε (FundingGateManager × α)) :
    Treasury × Reply :=
  match r with
  | .ok (funding, a) => ({ t with funding := funding }, reply (.ok a))
  | .error e => (t, reply (.error e))

def respond : Call → Treasury × Reply
  | .registerPayee id name address chainId registeredAt =>
    t.onPayroll .payee (t.payroll.registerPayee id name address chainId registeredAt)
  | .setPaySchedule payeeId components =>
    t.onPayroll .schedule (t.payroll.setSchedule payeeId components)
  | .createPayrollRun id period createdAt =>
    t.onPayroll .run (t.payroll.createRun id period createdAt)
  | .approvePayrollRun id => t.onPayroll (.run ∘ .mapError .own) (t.payroll.approveRun id)
  | .executePayrollRun clock id =>
    let r := (PayrollEngine.executeRun clock id).outcome (t.payroll, t.ledger)
    ({ t with payroll := r.2.1, ledger := r.2.2 }, .run r.1)
  | .getPayrollRun id => (t, .run ((t.payroll.getRun id).mapError .own))
  | .createDistribution id name strategy pool recipients createdAt =>
    t.onDistributions .plan (t.distributions.createPlan id name strategy pool recipients createdAt)
  | .approveDistribution id => t.onDistributions .plan (t.distributions.approvePlan id)
  | .computeDistribution id => (t, .distribution (t.distributions.computeDistribution id))
  | .executeDistribution clock id =>
    let r := (DistributionEngine.executeDistribution clock id).outcome (t.distributions, t.ledger)
    ({ t with distributions := r.2.1, ledger := r.2.2 }, .distribution r.1)
  | .submitFunding id description amount requestedBy createdAt =>
    t.onFunding (.request ∘ .mapError .own)
      (t.funding.submitRequest id description amount requestedBy createdAt)
  | .approveFundingGate id approvedBy reason approvedAt =>
    t.onFunding (.request ∘ .mapError .own) (t.funding.approveGate id approvedBy reason approvedAt)
  | .rejectFunding id rejectedBy reason rejectedAt =>
    t.onFunding (.request ∘ .mapError .own)
      (t.funding.rejectRequest id rejectedBy reason rejectedAt)
  | .executeFunding clock id =>
    let r := (FundingGateManager.executeRequest clock id).outcome (t.funding, t.ledger)
    ({ t with funding := r.2.1, ledger := r.2.2 }, .request r.1)
  | .getFundingRequest id => (t, .request ((t.funding.getRequest id).mapError .own))
  | .getBalance accountId => (t, .balance (t.ledger.getBalance accountId))
  | .getTrialBalance timestamp => (t, .trialBalance (t.ledger.getTrialBalance timestamp))

def call (c : Call) : Treasury := (t.respond c).1

/-- The replies to a sequence of calls. -/
def replies (t : Treasury) : List Call → List Reply
  | [] => []
  | c :: cs => (t.respond c).2 :: replies (t.call c) cs

/-! ## Snapshots -/

def CURRENT_TREASURY_SNAPSHOT_VERSION : Number := .ofNat 1

structure TreasurySnapshot where
  version : Number
  config : TreasuryConfig
  payees : List Payee
  payrollRuns : List PayrollRun
  distributionPlans : List DistributionPlan
  fundingRequests : List FundingRequest
  asOf : JsString

structure TreasuryError where
  message : JsString
  hint : JsString

/-- What a restore throws. -/
inductive RestoreError where
  | version (error : TreasuryError)
  | payroll (error : PayrollError)
  | distribution (error : DistributionError)
  | funding (error : FundingError)

def snapshot (t : Treasury) (asOf : JsString) : TreasurySnapshot where
  version := CURRENT_TREASURY_SNAPSHOT_VERSION
  config := t.config
  payees := t.payroll.exportPayees
  payrollRuns := t.payroll.exportRuns
  distributionPlans := t.distributions.exportPlans
  fundingRequests := t.funding.exportRequests
  asOf := asOf

def unsupportedVersion (version : Number) : TreasuryError where
  message := js "Cannot restore treasury snapshot version " ++ JsonValue.numberString version ++
    js ": this build restores version " ++
    JsonValue.numberString CURRENT_TREASURY_SNAPSHOT_VERSION
  hint := js "Migrate the snapshot to version " ++
    JsonValue.numberString CURRENT_TREASURY_SNAPSHOT_VERSION ++
    js " before restoring, or restore with a build that supports version " ++
    JsonValue.numberString version ++ js "."

/-- What was kept, where an import did not throw. -/
def imported {M ε δ : Type} (throws : ε → δ) (r : M × Except ε Unit) : Except δ M :=
  (r.2.map fun _ => r.1).mapError throws

def fromSnapshot (snap : TreasurySnapshot) : Except RestoreError Treasury := do
  throwIf (snap.version ≠ CURRENT_TREASURY_SNAPSHOT_VERSION) (.version (unsupportedVersion snap.version))
  let treasury ← (Treasury.new snap.config).mapError .funding
  let payroll ← imported .payroll (treasury.payroll.importPayees snap.payees)
  let payroll ← imported .payroll (payroll.importRuns snap.payrollRuns)
  let distributions ← imported .distribution
    (treasury.distributions.importPlans snap.distributionPlans)
  let funding ← imported .funding (treasury.funding.importRequests snap.fundingRequests)
  return { treasury with payroll := payroll, distributions := distributions, funding := funding }

end Treasury

end Attestia
