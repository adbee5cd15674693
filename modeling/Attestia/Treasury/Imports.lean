import Attestia.Treasury.DistributionEngine
import Attestia.Treasury.Funding
import Attestia.Treasury.PayrollEngine
import Attestia.Vault.IntentManager

/-!
# Imports into empty engines

The five imports set one record after the other, and throw at an id that comes twice. What has
been set before stays, and refuses the next import.
-/

namespace Attestia.Treasury

open Lib JsonNumber JsMap Vault

theorem importPayees_allOrNothing (engine : PayrollEngine) (payees : List Payee) :
    let r := { engine with payees := .empty }.importPayees payees
    AllOrNothing Payee.id payees (r.1.payees, r.2) ↔ (payees.map Payee.id).Nodup := by
  show AllOrNothing Payee.id payees (PayrollEngine.payees _, _) ↔ _
  rw [PayrollEngine.importPayees, if_neg not_entries_empty_ne]
  exact allOrNothing_importAll

theorem importRuns_allOrNothing (engine : PayrollEngine) (runs : List PayrollRun) :
    let r := { engine with runs := .empty }.importRuns runs
    AllOrNothing PayrollRun.id runs (r.1.runs, r.2) ↔ (runs.map PayrollRun.id).Nodup := by
  show AllOrNothing PayrollRun.id runs (PayrollEngine.runs _, _) ↔ _
  rw [PayrollEngine.importRuns, if_neg not_entries_empty_ne]
  exact allOrNothing_importAll

theorem importPlans_allOrNothing (engine : DistributionEngine) (plans : List DistributionPlan) :
    let r := { engine with plans := .empty }.importPlans plans
    AllOrNothing DistributionPlan.id plans (r.1.plans, r.2) ↔
      (plans.map DistributionPlan.id).Nodup := by
  show AllOrNothing DistributionPlan.id plans (DistributionEngine.plans _, _) ↔ _
  rw [DistributionEngine.importPlans, if_neg not_entries_empty_ne]
  exact allOrNothing_importAll

theorem importRequests_allOrNothing (m : FundingGateManager) (requests : List FundingRequest) :
    let r := { m with requests := .empty }.importRequests requests
    AllOrNothing FundingRequest.id requests (r.1.requests, r.2) ↔
      (requests.map FundingRequest.id).Nodup := by
  show AllOrNothing FundingRequest.id requests (FundingGateManager.requests _, _) ↔ _
  rw [FundingGateManager.importRequests, if_neg not_entries_empty_ne,
    FundingGateManager.importLoop_eq]
  exact allOrNothing_importAll

theorem importIntents_allOrNothing (m : IntentManager) (intents : List VaultIntent) :
    let r := { m with intents := .empty }.importIntents intents
    AllOrNothing VaultIntent.id intents (r.1.intents, r.2) ↔
      (intents.map VaultIntent.id).Nodup := by
  show AllOrNothing VaultIntent.id intents (IntentManager.intents _, _) ↔ _
  rw [IntentManager.importIntents, if_neg not_entries_empty_ne]
  exact allOrNothing_importAll

/-- Each of the imports into an empty engine installs the whole list, or throws and leaves the engine
empty, exactly where no id comes twice. -/
theorem imports_allOrNothing (payroll : PayrollEngine) (distributions : DistributionEngine)
    (funding : FundingGateManager) (manager : IntentManager) (payees : List Payee)
    (runs : List PayrollRun) (plans : List DistributionPlan) (requests : List FundingRequest)
    (intents : List VaultIntent) :
    let payeesImport := { payroll with payees := .empty }.importPayees payees
    let runsImport := { payroll with runs := .empty }.importRuns runs
    let plansImport := { distributions with plans := .empty }.importPlans plans
    let requestsImport := { funding with requests := .empty }.importRequests requests
    let intentsImport := { manager with intents := .empty }.importIntents intents
    (AllOrNothing Payee.id payees (payeesImport.1.payees, payeesImport.2) ↔
      (payees.map Payee.id).Nodup) ∧
    (AllOrNothing PayrollRun.id runs (runsImport.1.runs, runsImport.2) ↔
      (runs.map PayrollRun.id).Nodup) ∧
    (AllOrNothing DistributionPlan.id plans (plansImport.1.plans, plansImport.2) ↔
      (plans.map DistributionPlan.id).Nodup) ∧
    (AllOrNothing FundingRequest.id requests (requestsImport.1.requests, requestsImport.2) ↔
      (requests.map FundingRequest.id).Nodup) ∧
    (AllOrNothing VaultIntent.id intents (intentsImport.1.intents, intentsImport.2) ↔
      (intents.map VaultIntent.id).Nodup) :=
  ⟨importPayees_allOrNothing payroll payees, importRuns_allOrNothing payroll runs,
    importPlans_allOrNothing distributions plans, importRequests_allOrNothing funding requests,
    importIntents_allOrNothing manager intents⟩

/-- Two payees of one id: the first stays, and the corrected list is refused. -/
theorem importPayees_duplicate :
    let p : Payee := ⟨js "p", js "Ada", js "0x1", none, .active, js "2024-01-01T00:00:00.000Z"⟩
    let engine := PayrollEngine.new (js "USD") (.ofNat 2)
    let first := engine.importPayees [p, p]
    first.2 = .error (PayrollEngine.duplicatePayrollId (js "payee") (js "p")) ∧
      first.1.payees.values = [p] ∧
      (first.1.importPayees [p]).2 = .error (PayrollEngine.payrollImportNotEmpty (js "payees") 1) :=
  ⟨rfl, rfl, rfl⟩

end Attestia.Treasury
