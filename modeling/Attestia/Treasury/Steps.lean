import Attestia.Treasury.Treasury

/-!
# Steps of a treasury

What the calls do to the records of the three engines and to the ledger, and what every reachable
treasury keeps: records stand under their ids, and the ledger is one that the calls of a ledger
reach.
-/

namespace Attestia.Treasury

open Lib JsonNumber Ledger Effect

/-! ## Steps -/

/-- What a call can do. -/
inductive Step (t : Treasury) : Treasury → Prop
  | same : Step t t
  | payee {payee : Payee} (hnew : payee.id ∉ t.payroll.payees.keys)
      (hactive : payee.status = .active) : Step t { t with
        payroll := { t.payroll with payees := t.payroll.payees.set payee.id payee } }
  | schedule {entry : PayrollScheduleEntry} (hpayee : entry.payeeId ∈ t.payroll.payees.keys) :
      Step t { t with
        payroll := { t.payroll with schedules := t.payroll.schedules.set entry.payeeId entry } }
  | runCreated {run : PayrollRun} (hnew : run.id ∉ t.payroll.runs.keys)
      (hstatus : run.status = .draft)
      (hpayees : (run.entries.map PayrollEntry.payeeId).Sublist t.payroll.schedules.keys) :
      Step t { t with payroll := t.payroll.setRun run.id run }
  | runApproved {id : JsString} {run : PayrollRun} (hget : t.payroll.runs.get? id = some run)
      (hstatus : run.status = .draft) :
      Step t { t with payroll := t.payroll.setRun id { run with status := .approved } }
  | runExecuted {clock : Clock} {id : JsString} {run : PayrollRun} {ledger : Ledger}
      (hdue : t.payroll.Due id run) (hpost : (payrollPosting run).post clock t.ledger = .ok ledger) :
      Step t { t with
        payroll := t.payroll.setRun id
          { run with status := .executed, executedAt := some clock.executedAt }
        ledger := ledger }
  | planCreated {plan : DistributionPlan} (hnew : plan.id ∉ t.distributions.plans.keys)
      (hstatus : plan.status = .draft)
      (hpayees : (plan.recipients.map DistributionRecipient.payeeId).Nodup) :
      Step t { t with distributions := t.distributions.setPlan plan.id plan }
  | planApproved {id : JsString} {plan : DistributionPlan}
      (hget : t.distributions.plans.get? id = some plan) (hstatus : plan.status = .draft) :
      Step t { t with distributions := t.distributions.setPlan id { plan with status := .approved } }
  | planExecuted {clock : Clock} {id : JsString} {plan : DistributionPlan}
      {payouts : List DistributionPayout} {ledger : Ledger}
      (hdue : t.distributions.Due id plan payouts)
      (hpost : (distributionPosting plan payouts).post clock t.ledger = .ok ledger) :
      Step t { t with
        distributions := t.distributions.setPlan id
          { plan with status := .executed, executedAt := some clock.executedAt }
        ledger := ledger }
  | requestChanged {id : JsString} {request : FundingRequest}
      (hchange : t.funding.Change id request []) :
      Step t { t with funding := t.funding.set id request }
  | requestExecuted {clock : Clock} {id : JsString} {request : FundingRequest} {ledger : Ledger}
      (hget : t.funding.requests.get? id = some request) (hstatus : request.status = .approved)
      (hpost : (fundingPosting request).post clock t.ledger = .ok ledger) :
      Step t { t with
        funding := t.funding.set id
          { request with status := .executed, executedAt := some clock.executedAt }
        ledger := ledger }
  | refused (clock : Clock) (p : Posting) :
      Step t { t with ledger := withAccounts clock p.accounts t.ledger }

section calls

variable (t : Treasury)

theorem step_onPayroll {ε α : Type} {reply : Except ε α → Reply}
    {r : Except ε (PayrollEngine × α)}
    (h : ∀ engine a, r = .ok (engine, a) → t.Step { t with payroll := engine }) :
    t.Step (t.onPayroll reply r).1 := by
  rcases r with e | ⟨engine, a⟩
  · exact .same
  · exact h engine a rfl

theorem step_onDistributions {ε α : Type} {reply : Except ε α → Reply}
    {r : Except ε (DistributionEngine × α)}
    (h : ∀ engine a, r = .ok (engine, a) → t.Step { t with distributions := engine }) :
    t.Step (t.onDistributions reply r).1 := by
  rcases r with e | ⟨engine, a⟩
  · exact .same
  · exact h engine a rfl

theorem step_onFunding {ε : Type} {reply : Except ε FundingRequest → Reply} {id : JsString}
    {r : Except ε (FundingGateManager × FundingRequest)}
    (h : ∀ m request, r = .ok (m, request) →
      m = t.funding.set id request ∧ t.funding.Change id request []) :
    t.Step (t.onFunding reply r).1 := by
  rcases r with e | ⟨m, request⟩
  · exact .same
  · obtain ⟨rfl, hchange⟩ := h m request rfl
    exact .requestChanged hchange

theorem step_executePayrollRun (clock : Clock) (id : JsString) :
    t.Step (t.call (.executePayrollRun clock id)) := by
  rw [call, respond, PayrollEngine.executeRun, outcome_executePlan]
  dsimp only
  rcases hplan : PayrollEngine.planRun clock id t.payroll with e | ⟨p, engine, run⟩
  · exact .same
  · obtain ⟨r, hdue, rfl, rfl, rfl⟩ := PayrollEngine.planRun_eq_ok.mp hplan
    dsimp only
    rcases hpost : (payrollPosting r).post clock t.ledger with e | ledger
    · exact .refused clock _
    · exact .runExecuted hdue hpost

theorem step_executeDistribution (clock : Clock) (id : JsString) :
    t.Step (t.call (.executeDistribution clock id)) := by
  rw [call, respond, DistributionEngine.outcome_executeDistribution, outcome_executePlan]
  dsimp only
  rcases hplan : DistributionEngine.planDistribution clock id t.distributions with e |
    ⟨p, engine, result⟩
  · exact .same
  · obtain ⟨plan, hdue, rfl, rfl, -⟩ := DistributionEngine.planDistribution_eq_ok.mp hplan
    dsimp only
    rcases hpost : (distributionPosting plan result.payouts).post clock t.ledger with e | ledger
    · exact .refused clock _
    · exact .planExecuted hdue hpost

theorem step_executeFunding (clock : Clock) (id : JsString) :
    t.Step (t.call (.executeFunding clock id)) := by
  rw [call, respond, FundingGateManager.executeRequest, outcome_executePlan]
  dsimp only
  rcases hplan : FundingGateManager.planRequest clock id t.funding with e | ⟨p, m, request⟩
  · exact .same
  · obtain ⟨r, ⟨hget, hstatus⟩, rfl, rfl, rfl⟩ := FundingGateManager.planRequest_eq_ok.mp hplan
    dsimp only [Except.mapError]
    rcases hpost : (fundingPosting r).post clock t.ledger with e | ledger
    · exact .refused clock _
    · exact .requestExecuted hget hstatus hpost

/-- What the calls do, one case for each of them. -/
theorem step_call (c : Call) : t.Step (t.call c) := by
  cases c with
  | registerPayee id name address chainId registeredAt =>
    apply step_onPayroll
    intro engine payee h
    unfold PayrollEngine.registerPayee at h
    split at h
    · cases h
    · rename_i hhas
      rw [JsMap.has_eq_true] at hhas
      cases h
      exact @Step.payee t ⟨id, name, address, chainId, .active, registeredAt⟩ hhas rfl
  | setPaySchedule payeeId components =>
    apply step_onPayroll
    intro engine entry h
    obtain ⟨payee, hpayee, h⟩ := bind_eq_ok.mp h
    obtain ⟨-, h⟩ := bind_unit_eq_ok.mp h
    obtain ⟨-, h⟩ := bind_unit_eq_ok.mp h
    cases h
    exact @Step.schedule t ⟨payeeId, components⟩
      (JsMap.mem_keys.mpr ⟨payee, PayrollEngine.getPayee_eq_ok.mp hpayee⟩)
  | createPayrollRun id period createdAt =>
    apply step_onPayroll
    intro engine run h
    obtain ⟨rfl, hnew, hstatus, -, hpayees, rfl⟩ := PayrollEngine.createRun_eq_ok h
    refine .runCreated hnew hstatus ?_
    rw [hpayees]
    exact List.filter_sublist.map _
  | approvePayrollRun id =>
    apply step_onPayroll
    intro engine run h
    obtain ⟨r, hget, hstatus, rfl⟩ := PayrollEngine.approveRun_eq_ok h
    exact .runApproved hget hstatus
  | executePayrollRun clock id => exact t.step_executePayrollRun clock id
  | getPayrollRun id => exact .same
  | createDistribution id name strategy pool recipients createdAt =>
    apply step_onDistributions
    intro engine plan h
    obtain ⟨rfl, hnew, hstatus, hpayees, rfl⟩ := DistributionEngine.createPlan_eq_ok h
    exact .planCreated hnew hstatus hpayees
  | approveDistribution id =>
    apply step_onDistributions
    intro engine plan h
    obtain ⟨p, hget, hstatus, rfl⟩ := DistributionEngine.approvePlan_eq_ok h
    exact .planApproved hget hstatus
  | computeDistribution id => exact .same
  | executeDistribution clock id => exact t.step_executeDistribution clock id
  | submitFunding id description amount requestedBy createdAt =>
    exact t.step_onFunding fun _ _ => FundingGateManager.change_of_submitRequest
  | approveFundingGate id approvedBy reason approvedAt =>
    exact t.step_onFunding fun _ _ => FundingGateManager.change_of_approveGate
  | rejectFunding id rejectedBy reason rejectedAt =>
    exact t.step_onFunding fun _ _ => FundingGateManager.change_of_rejectRequest
  | executeFunding clock id => exact t.step_executeFunding clock id
  | getFundingRequest id => exact .same
  | getBalance accountId => exact .same
  | getTrialBalance timestamp => exact .same

end calls

/-! ## Runs -/

/-- A call, or a restart from the snapshot of the treasury. -/
inductive Event where
  | call (c : Call)
  | restart (asOf : JsString)

def treasurySystem : System Treasury Event where
  init t := ∃ config, Treasury.new config = .ok t
  next t
    | .call c => some (t.call c)
    | .restart asOf => (fromSnapshot (t.snapshot asOf)).toOption

def dollarConfig : TreasuryConfig := ⟨js "org", js "Org", js "USD", .ofNat 2, twoGatekeepers⟩

def freshTreasury : Treasury := ⟨dollarConfig, .new, .new (js "USD") (.ofNat 2),
  .new (js "USD") (.ofNat 2), emptyRun.manager⟩

theorem init_freshTreasury : treasurySystem.init freshTreasury :=
  ⟨dollarConfig, bind_eq_ok.mpr ⟨_, dif_neg emptyRun.manager.distinct, rfl⟩⟩

/-- What every reachable treasury keeps. -/
structure Coherent (t : Treasury) : Prop where
  ledger : ledgerSystem.Reachable t.ledger
  payees : ∀ id payee, t.payroll.payees.get? id = some payee →
    payee.id = id ∧ payee.status = .active
  schedules : ∀ id ∈ t.payroll.schedules.keys, id ∈ t.payroll.payees.keys
  runs : ∀ id run, t.payroll.runs.get? id = some run →
    run.id = id ∧ (run.entries.map PayrollEntry.payeeId).Nodup
  plans : ∀ id plan, t.distributions.plans.get? id = some plan →
    plan.id = id ∧ (plan.recipients.map DistributionRecipient.payeeId).Nodup
  requests : ∀ id request, t.funding.requests.get? id = some request → request.id = id
  payrollUnit : t.payroll.currency = t.config.defaultCurrency ∧
    t.payroll.decimals = t.config.defaultDecimals
  distributionUnit : t.distributions.currency = t.config.defaultCurrency ∧
    t.distributions.decimals = t.config.defaultDecimals
  gatekeepers : t.funding.gatekeepers = t.config.gatekeepers

theorem FundingGateManager.Change.id {m : FundingGateManager} {id : JsString}
    {request : FundingRequest} {paid : List LedgerTransaction} (h : m.Change id request paid)
    (hkeyed : ∀ id r, m.requests.get? id = some r → r.id = id) : request.id = id := by
  cases h with
  | submitted hnew hstatus hid => exact hid
  | gate1 hget hstatus hgate =>
    have hid := hkeyed id _ hget
    exact hid
  | gate2 hget hstatus hgate hother =>
    have hid := hkeyed id _ hget
    exact hid
  | rejected hget hstatus hupdated hid => exact hid.trans (hkeyed id _ hget)
  | executed hget hstatus hpays =>
    have hid := hkeyed id _ hget
    exact hid

theorem coherent_new {t : Treasury} {config : TreasuryConfig} (h : Treasury.new config = .ok t) :
    Coherent t := by
  obtain ⟨funding, hfunding, h⟩ := bind_eq_ok.mp h
  cases h
  unfold FundingGateManager.new at hfunding
  split at hfunding
  · cases hfunding
  · cases hfunding
    constructor
    case ledger => exact .init rfl
    case payrollUnit | distributionUnit => exact ⟨rfl, rfl⟩
    case gatekeepers => rfl
    case schedules =>
      intro id h
      cases h
    case payees | runs | plans | requests =>
      intro id record h
      cases h

theorem Coherent.step {t t' : Treasury} (h : Coherent t) (hstep : t.Step t') : Coherent t' := by
  cases hstep with
  | same => exact h
  | payee hnew hactive =>
    exact { h with
      payees := JsMap.forall_set h.payees ⟨rfl, hactive⟩
      schedules := fun id hid => JsMap.mem_keys_set.mpr (.inr (h.schedules id hid)) }
  | schedule hpayee =>
    refine { h with schedules := fun id hid => ?_ }
    rcases JsMap.mem_keys_set.mp hid with rfl | hid
    · exact hpayee
    · exact h.schedules id hid
  | runCreated hnew hstatus hpayees =>
    exact { h with runs := JsMap.forall_set h.runs ⟨rfl, t.payroll.schedules.nodup.sublist hpayees⟩ }
  | runApproved hget hstatus =>
    have hrun := h.runs _ _ hget
    exact { h with runs := JsMap.forall_set h.runs hrun }
  | runExecuted hdue hpost =>
    have hrun := h.runs _ _ hdue.get
    exact { h with
      ledger := reachable_posted h.ledger hpost
      runs := JsMap.forall_set h.runs hrun }
  | planCreated hnew hstatus hpayees =>
    exact { h with plans := JsMap.forall_set h.plans ⟨rfl, hpayees⟩ }
  | planApproved hget hstatus =>
    have hplan := h.plans _ _ hget
    exact { h with plans := JsMap.forall_set h.plans hplan }
  | planExecuted hdue hpost =>
    have hplan := h.plans _ _ hdue.get
    exact { h with
      ledger := reachable_posted h.ledger hpost
      plans := JsMap.forall_set h.plans hplan }
  | requestChanged hchange =>
    exact { h with requests := JsMap.forall_set h.requests (hchange.id h.requests) }
  | requestExecuted hget hstatus hpost =>
    have hrequest := h.requests _ _ hget
    exact { h with
      ledger := reachable_posted h.ledger hpost
      requests := JsMap.forall_set h.requests hrequest }
  | refused clock p => exact { h with ledger := reachable_withAccounts h.ledger clock p.accounts }

/-! ## Restarts -/

section imports

theorem importPayees_values {engine : PayrollEngine} {payees : JsMap JsString Payee}
    (hempty : engine.payees = .empty) (hkeyed : ∀ id p, payees.get? id = some p → p.id = id) :
    engine.importPayees payees.values = ({ engine with payees := payees }, .ok ()) := by
  rw [PayrollEngine.importPayees, hempty, if_neg JsMap.not_entries_empty_ne,
    JsMap.importAll_values hkeyed]

theorem importRuns_values {engine : PayrollEngine} {runs : JsMap JsString PayrollRun}
    (hempty : engine.runs = .empty) (hkeyed : ∀ id r, runs.get? id = some r → r.id = id) :
    engine.importRuns runs.values = ({ engine with runs := runs }, .ok ()) := by
  rw [PayrollEngine.importRuns, hempty, if_neg JsMap.not_entries_empty_ne, JsMap.importAll_values hkeyed]

theorem importPlans_values {engine : DistributionEngine} {plans : JsMap JsString DistributionPlan}
    (hempty : engine.plans = .empty) (hkeyed : ∀ id p, plans.get? id = some p → p.id = id) :
    engine.importPlans plans.values = ({ engine with plans := plans }, .ok ()) := by
  rw [DistributionEngine.importPlans, hempty, if_neg JsMap.not_entries_empty_ne,
    JsMap.importAll_values hkeyed]

theorem importRequests_values {m : FundingGateManager} {requests : JsMap JsString FundingRequest}
    (hempty : m.requests = .empty) (hkeyed : ∀ id r, requests.get? id = some r → r.id = id) :
    m.importRequests requests.values = ({ m with requests := requests }, .ok ()) := by
  rw [FundingGateManager.importRequests, if_neg (hempty ▸ JsMap.not_entries_empty_ne),
    FundingGateManager.importLoop_eq, hempty, JsMap.importAll_values hkeyed]

end imports

/-- A restart keeps neither the ledger nor the schedules. -/
def restored (t : Treasury) : Treasury :=
  { t with ledger := .new, payroll := { t.payroll with schedules := .empty } }

theorem Coherent.fromSnapshot {t : Treasury} (h : Coherent t) (asOf : JsString) :
    fromSnapshot (t.snapshot asOf) = .ok t.restored := by
  let funding : FundingGateManager :=
    ⟨.empty, t.config.gatekeepers, h.gatekeepers ▸ t.funding.distinct⟩
  let fresh : Treasury := ⟨t.config, .new, .new t.config.defaultCurrency t.config.defaultDecimals,
    .new t.config.defaultCurrency t.config.defaultDecimals, funding⟩
  have hnew : Treasury.new t.config = .ok fresh :=
    bind_eq_ok.mpr ⟨funding, dif_neg funding.distinct, rfl⟩
  have hpayees := @importPayees_values fresh.payroll t.payroll.payees rfl fun id p hp =>
    (h.payees id p hp).1
  have hruns := @importRuns_values { fresh.payroll with payees := t.payroll.payees } t.payroll.runs
    rfl fun id r hr => (h.runs id r hr).1
  have hplans := @importPlans_values fresh.distributions t.distributions.plans rfl fun id p hp =>
    (h.plans id p hp).1
  have hrequests := @importRequests_values fresh.funding t.funding.requests rfl h.requests
  rw [Treasury.fromSnapshot]
  refine bind_unit_eq_ok.mpr ⟨rfl, bind_eq_ok.mpr ⟨fresh, mapError_eq_ok.mpr hnew, ?_⟩⟩
  refine bind_eq_ok.mpr ⟨_, congrArg (imported RestoreError.payroll) hpayees, ?_⟩
  refine bind_eq_ok.mpr ⟨_, congrArg (imported RestoreError.payroll) hruns, ?_⟩
  refine bind_eq_ok.mpr ⟨_, congrArg (imported RestoreError.distribution) hplans, ?_⟩
  refine bind_eq_ok.mpr ⟨_, congrArg (imported RestoreError.funding) hrequests, ?_⟩
  -- the units and the gatekeepers are those of the configuration
  obtain ⟨hcurrency, hdecimals⟩ := h.payrollUnit
  obtain ⟨hcurrency', hdecimals'⟩ := h.distributionUnit
  have hgatekeepers := h.gatekeepers
  obtain ⟨config, ledger, ⟨payees, schedules, runs, currency, decimals⟩,
    ⟨plans, currency', decimals'⟩, ⟨requests, gatekeepers, distinct⟩⟩ := t
  dsimp only at hcurrency hdecimals hcurrency' hdecimals' hgatekeepers
  subst hcurrency hdecimals hcurrency' hdecimals' hgatekeepers
  rfl

theorem coherent_of_reachableVia {ok : Treasury → Event → Prop} {t : Treasury}
    (h : treasurySystem.ReachableVia ok t) : Coherent t := by
  apply h.invariant
  · rintro t ⟨config, hnew⟩
    exact coherent_new hnew
  · intro s e s' hs _ hnext
    cases e with
    | call c =>
      rw [← Option.some.inj hnext]
      exact hs.step (s.step_call c)
    | restart asOf =>
      change (Treasury.fromSnapshot (s.snapshot asOf)).toOption = some s' at hnext
      rw [hs.fromSnapshot] at hnext
      rw [← Option.some.inj hnext]
      exact { hs with
        ledger := .init rfl
        schedules := fun _ h => (nomatch h) }

end Attestia.Treasury
