import Attestia.Lib.System
import Attestia.Treasury.PayrollEngine
import Mathlib.Tactic.Ring

/-!
# Payroll bookkeeping

The totals of a run are exact, whatever the number of its entries and components, and a
ledger that only the engine writes to holds the entries of the executed runs.
-/

namespace Attestia.Treasury

open Lib JsonNumber Ledger Effect

/-! ## Exact sums -/

/-- The pay of a payee: gross pay, deductions and net pay are sums of the components. -/
structure PayrollEntry.Exact (currency : JsString) (decimals : Number) (e : PayrollEntry) :
    Prop where
  gross : e.grossPay.value =
    ((e.components.filter fun c => c.type ≠ .deduction).map fun c => c.amount.value).sum
  deductions : e.deductions.value =
    ((e.components.filter fun c => c.type = .deduction).map fun c => c.amount.value).sum
  net : e.netPay.value = e.grossPay.value - e.deductions.value
  unit : e.netPay.InUnit currency decimals

/-- The totals are the sums over the entries. -/
structure RunTotals.Exact (currency : JsString) (decimals : Number) (t : RunTotals) : Prop where
  entries : ∀ e ∈ t.entries, e.Exact currency decimals
  gross : t.totalGross.value = (t.entries.map fun e => e.grossPay.value).sum
  deductions : t.totalDeductions.value = (t.entries.map fun e => e.deductions.value).sum
  net : t.totalNet.value = (t.entries.map fun e => e.netPay.value).sum
  units : t.totalGross.InUnit currency decimals ∧ t.totalDeductions.InUnit currency decimals ∧
    t.totalNet.InUnit currency decimals

def PayrollRun.totals (run : PayrollRun) : RunTotals :=
  ⟨run.entries, run.totalGross, run.totalDeductions, run.totalNet⟩

/-- Net is gross without the deductions. -/
theorem RunTotals.Exact.net_eq {currency : JsString} {decimals : Number} {t : RunTotals}
    (h : t.Exact currency decimals) :
    t.totalNet.value = t.totalGross.value - t.totalDeductions.value := by
  rw [h.net, h.gross, h.deductions]
  have hentries := h.entries
  generalize t.entries = entries at hentries
  induction entries with
  | nil => simp
  | cons e es ih =>
    rw [List.map_cons, List.map_cons, List.map_cons, List.sum_cons, List.sum_cons, List.sum_cons,
      ih fun e he => hentries e (.tail _ he), (hentries e (.head _)).net]
    ring

namespace PayrollEngine

variable {engine : PayrollEngine}

theorem inUnit_zero : engine.zero.InUnit engine.currency engine.decimals := ⟨rfl, rfl⟩

/-- An entry is only computed where zero can be parsed. -/
theorem exists_decimals_of_computeEntry {payeeId : JsString} {components : List PayComponent}
    {entry : PayrollEntry} (h : engine.computeEntry payeeId components = .ok entry) :
    ∃ d, engine.decimals = .ofNat d := by
  have hparse : ∀ {op b c}, combineMoney op engine.zero b = .ok c →
      ∃ d, engine.decimals = .ofNat d := by
    intro op b c h
    obtain ⟨-, -, x, -, hx, -⟩ := combineMoney_eq_ok.mp h
    exact exists_ofNat_of_parseAmount_format hx
  obtain ⟨sums, hsums, h⟩ := bind_eq_ok.mp h
  obtain ⟨net, hnet, -⟩ := bind_eq_ok.mp h
  cases components with
  | nil =>
    cases hsums
    exact hparse hnet
  | cons comp components =>
    rw [List.foldlM_cons] at hsums
    obtain ⟨first, hfirst, -⟩ := bind_eq_ok.mp hsums
    unfold addComponent at hfirst
    split at hfirst <;> obtain ⟨sum, hsum, -⟩ := map_eq_ok.mp hfirst <;> exact hparse hsum

/-- The loop over the components adds each amount on its side. -/
theorem foldlM_addComponent {currency : JsString} {d : ℕ} {components : List PayComponent}
    {sums sums' : PaySums} (h : components.foldlM addComponent sums = .ok sums')
    (hgross : sums.grossPay.InUnit currency (.ofNat d))
    (hdeductions : sums.deductions.InUnit currency (.ofNat d)) :
    sums'.grossPay.InUnit currency (.ofNat d) ∧
      sums'.grossPay.value = sums.grossPay.value +
        ((components.filter fun c => c.type ≠ .deduction).map fun c => c.amount.value).sum ∧
      sums'.deductions.value = sums.deductions.value +
        ((components.filter fun c => c.type = .deduction).map fun c => c.amount.value).sum := by
  induction components generalizing sums with
  | nil =>
    cases h
    simp [hgross]
  | cons comp components ih =>
    rw [List.foldlM_cons] at h
    obtain ⟨first, hfirst, h⟩ := bind_eq_ok.mp h
    unfold addComponent at hfirst
    split at hfirst
    · rename_i htype
      obtain ⟨sum, hsum, rfl⟩ := map_eq_ok.mp hfirst
      obtain ⟨-, hunit, hvalue⟩ := addMoney_inUnit hdeductions hsum
      obtain ⟨hunit', hgross', hdeductions'⟩ := ih h hgross hunit
      refine ⟨hunit', ?_, ?_⟩
      · rw [hgross', List.filter_cons_of_neg (by simp [htype])]
      · rw [hdeductions', hvalue, List.filter_cons_of_pos (by simp [htype]), List.map_cons,
          List.sum_cons, add_assoc]
    · rename_i htype
      obtain ⟨sum, hsum, rfl⟩ := map_eq_ok.mp hfirst
      obtain ⟨-, hunit, hvalue⟩ := addMoney_inUnit hgross hsum
      obtain ⟨hunit', hgross', hdeductions'⟩ := ih h hunit hdeductions
      refine ⟨hunit', ?_, ?_⟩
      · rw [hgross', hvalue, List.filter_cons_of_pos (by simp [htype]), List.map_cons,
          List.sum_cons, add_assoc]
      · rw [hdeductions', List.filter_cons_of_neg (by simp [htype])]

theorem exact_of_computeEntry {payeeId : JsString} {components : List PayComponent}
    {entry : PayrollEntry} (h : engine.computeEntry payeeId components = .ok entry) :
    entry.Exact engine.currency engine.decimals := by
  obtain ⟨d, hd⟩ := exists_decimals_of_computeEntry h
  have hzero : engine.zero.InUnit engine.currency (.ofNat d) := hd ▸ inUnit_zero
  obtain ⟨sums, hsums, h⟩ := bind_eq_ok.mp h
  obtain ⟨net, hnet, h⟩ := bind_eq_ok.mp h
  cases h
  obtain ⟨hunit, hgross, hdeductions⟩ := foldlM_addComponent hsums hzero hzero
  obtain ⟨-, hnetUnit, hvalue⟩ := subtractMoney_inUnit hunit hnet
  have hresolved : ∀ p : PayComponentType → Bool,
      (((components.map resolveComponent).filter fun c => p c.type).map fun c => c.amount.value) =
        (components.filter fun c => p c.type).map fun c => c.amount.value := by
    intro p
    rw [List.filter_map, List.map_map]
    rfl
  refine ⟨?_, ?_, hvalue, hd ▸ hnetUnit⟩
  · dsimp only
    rw [hresolved fun t => t ≠ .deduction, hgross, zero, value_zeroMoney, zero_add]
  · dsimp only
    rw [hresolved fun t => t = .deduction, hdeductions, zero, value_zeroMoney, zero_add]

theorem exact_of_addSchedule {totals totals' : RunTotals}
    {schedule : JsString × PayrollScheduleEntry}
    (htotals : totals.Exact engine.currency engine.decimals)
    (h : engine.addSchedule totals schedule = .ok totals') :
    totals'.Exact engine.currency engine.decimals := by
  unfold addSchedule at h
  split at h
  · obtain ⟨entry, hentry, h⟩ := bind_eq_ok.mp h
    obtain ⟨totalGross, hgross, h⟩ := bind_eq_ok.mp h
    obtain ⟨totalDeductions, hdeductions, h⟩ := bind_eq_ok.mp h
    obtain ⟨totalNet, hnet, h⟩ := bind_eq_ok.mp h
    cases h
    obtain ⟨d, hd⟩ := exists_decimals_of_computeEntry hentry
    have hexact := exact_of_computeEntry hentry
    obtain ⟨hentries, hgrossSum, hdeductionsSum, hnetSum, hunits⟩ := htotals
    rw [hd] at hunits
    obtain ⟨-, hgrossUnit, hgrossValue⟩ := addMoney_inUnit hunits.1 hgross
    obtain ⟨-, hdeductionsUnit, hdeductionsValue⟩ := addMoney_inUnit hunits.2.1 hdeductions
    obtain ⟨-, hnetUnit, hnetValue⟩ := addMoney_inUnit hunits.2.2 hnet
    refine ⟨?_, ?_, ?_, ?_, hd ▸ ⟨hgrossUnit, hdeductionsUnit, hnetUnit⟩⟩
    · intro e he
      rcases List.mem_append.mp he with he | he
      · exact hentries e he
      · rwa [List.mem_singleton.mp he]
    · simp [hgrossValue, hgrossSum]
    · simp [hdeductionsValue, hdeductionsSum]
    · simp [hnetValue, hnetSum]
  · cases h
    exact htotals

/-- Whether the payee of a schedule is active. -/
def isActive (engine : PayrollEngine) (schedule : JsString × PayrollScheduleEntry) : Bool :=
  (engine.payees.get? schedule.1).map Payee.status = some .active

/-- The entries are those of the schedules with an active payee. -/
theorem payeeIds_of_foldlM_addSchedule {totals totals' : RunTotals}
    {schedules : List (JsString × PayrollScheduleEntry)}
    (h : schedules.foldlM engine.addSchedule totals = .ok totals') :
    totals'.entries.map PayrollEntry.payeeId =
      totals.entries.map PayrollEntry.payeeId ++ (schedules.filter engine.isActive).map Prod.fst := by
  induction schedules generalizing totals with
  | nil =>
    cases h
    simp
  | cons schedule schedules ih =>
    rw [List.foldlM_cons] at h
    obtain ⟨next, hnext, h⟩ := bind_eq_ok.mp h
    unfold addSchedule at hnext
    split at hnext
    · rename_i hactive
      obtain ⟨entry, hentry, hnext⟩ := bind_eq_ok.mp hnext
      obtain ⟨_, -, hnext⟩ := bind_eq_ok.mp hnext
      obtain ⟨_, -, hnext⟩ := bind_eq_ok.mp hnext
      obtain ⟨_, -, hnext⟩ := bind_eq_ok.mp hnext
      cases hnext
      have hpayee : entry.payeeId = schedule.1 := by
        obtain ⟨_, -, hentry⟩ := bind_eq_ok.mp hentry
        obtain ⟨_, -, hentry⟩ := bind_eq_ok.mp hentry
        cases hentry
        rfl
      rw [ih h, List.filter_cons_of_pos (by simpa [isActive] using hactive)]
      simp [hpayee]
    · rename_i hactive
      cases hnext
      rw [ih h, List.filter_cons_of_neg (by simpa [isActive] using hactive)]

theorem exact_of_foldlM_addSchedule {totals totals' : RunTotals}
    {schedules : List (JsString × PayrollScheduleEntry)}
    (htotals : totals.Exact engine.currency engine.decimals)
    (h : schedules.foldlM engine.addSchedule totals = .ok totals') :
    totals'.Exact engine.currency engine.decimals := by
  induction schedules generalizing totals with
  | nil =>
    cases h
    exact htotals
  | cons schedule schedules ih =>
    rw [List.foldlM_cons] at h
    obtain ⟨next, hnext, h⟩ := bind_eq_ok.mp h
    exact ih (exact_of_addSchedule htotals hnext) h

end PayrollEngine

/-! ## Runs of the engine -/

open PayrollEngine

inductive PayrollCall where
  | registerPayee (id name address : JsString) (chainId : Option JsString) (registeredAt : JsString)
  | updatePayeeStatus (id : JsString) (status : PayeeStatus)
  | setSchedule (payeeId : JsString) (components : List PayComponent)
  | createRun (id : JsString) (period : PayPeriod) (createdAt : JsString)
  | approveRun (id : JsString)
  | executeRun (clock : Clock) (id : JsString)

/-- An engine and a ledger that only it writes to, with the runs in the order of their
executions, and the texts of the clock then. -/
structure PayrollState where
  engine : PayrollEngine
  ledger : Ledger
  executions : List (PayrollRun × JsString)

namespace PayrollState

/-- The state after a call that keeps an engine where it returns. -/
def kept {ε α : Type} (s : PayrollState) : Except ε (PayrollEngine × α) → PayrollState
  | .ok (engine, _) => { s with engine := engine }
  | .error _ => s

def call (s : PayrollState) : PayrollCall → PayrollState
  | .registerPayee id name address chainId registeredAt =>
    s.kept (s.engine.registerPayee id name address chainId registeredAt)
  | .updatePayeeStatus id status => s.kept (s.engine.updatePayeeStatus id status)
  | .setSchedule payeeId components => s.kept (s.engine.setSchedule payeeId components)
  | .createRun id period createdAt => s.kept (s.engine.createRun id period createdAt)
  | .approveRun id => s.kept (s.engine.approveRun id)
  | .executeRun clock id =>
    let after := (executeRun clock id).outcome (s.engine, s.ledger)
    { engine := after.2.1
      ledger := after.2.2
      executions := match after.1 with
        | .ok run => s.executions ++ [(run, clock.now)]
        | .error _ => s.executions }

/-- What a call can do. -/
inductive Step (s : PayrollState) : PayrollState → Prop
  | kept {engine : PayrollEngine} (hruns : engine.runs = s.engine.runs)
      (hcurrency : engine.currency = s.engine.currency)
      (hdecimals : engine.decimals = s.engine.decimals) : Step s { s with engine := engine }
  | created {run : PayrollRun} (hnew : run.id ∉ s.engine.runs.keys) (hstatus : run.status = .draft)
      (hexact : run.totals.Exact s.engine.currency s.engine.decimals) :
      Step s { s with engine := s.engine.setRun run.id run }
  | approved {id : JsString} {run : PayrollRun} (hget : s.engine.runs.get? id = some run)
      (hstatus : run.status = .draft) :
      Step s { s with engine := s.engine.setRun id { run with status := .approved } }
  | refused (clock : Clock) (run : PayrollRun) :
      Step s { s with ledger := withAccounts clock (payrollPosting run).accounts s.ledger }
  | executed {clock : Clock} {id : JsString} {run executed : PayrollRun}
      (hget : s.engine.runs.get? id = some run) (hstatus : run.status = .approved)
      (hwritable : Writable s.ledger ((payrollPosting run).entries clock.now))
      (hexecuted : executed =
        { run with status := .executed, executedAt := some clock.executedAt }) :
      Step s ⟨s.engine.setRun id executed, (payrollPosting run).posted clock s.ledger,
        s.executions ++ [(executed, clock.now)]⟩

end PayrollState

namespace PayrollEngine

variable {engine engine' : PayrollEngine} {id : JsString}

theorem getPayee_eq_ok {payee : Payee} :
    engine.getPayee id = .ok payee ↔ engine.payees.get? id = some payee := by
  unfold getPayee
  cases engine.payees.get? id <;> simp

theorem getRun_eq_ok {run : PayrollRun} :
    engine.getRun id = .ok run ↔ engine.runs.get? id = some run := by
  unfold getRun
  cases engine.runs.get? id <;> simp

theorem createRun_eq_ok {period : PayPeriod} {createdAt : JsString} {run : PayrollRun}
    (h : engine.createRun id period createdAt = .ok (engine', run)) :
    run.id = id ∧ id ∉ engine.runs.keys ∧ run.status = .draft ∧
      run.totals.Exact engine.currency engine.decimals ∧
      run.entries.map PayrollEntry.payeeId =
        (engine.schedules.entries.filter engine.isActive).map Prod.fst ∧
      engine' = engine.setRun id run := by
  obtain ⟨hnew, h⟩ := bind_unit_eq_ok.mp h
  obtain ⟨totals, htotals, h⟩ := bind_eq_ok.mp h
  rw [throwIf_eq_ok, JsMap.has_eq_true] at hnew
  have hfold := mapError_eq_ok.mp htotals
  cases h
  have hstart : RunTotals.Exact engine.currency engine.decimals
      ⟨[], engine.zero, engine.zero, engine.zero⟩ :=
    ⟨fun _ h => (nomatch h), value_zeroMoney _ _, value_zeroMoney _ _, value_zeroMoney _ _,
      inUnit_zero, inUnit_zero, inUnit_zero⟩
  exact ⟨rfl, hnew, rfl, exact_of_foldlM_addSchedule hstart hfold,
    payeeIds_of_foldlM_addSchedule hfold, rfl⟩

theorem approveRun_eq_ok {run : PayrollRun} (h : engine.approveRun id = .ok (engine', run)) :
    ∃ r, engine.runs.get? id = some r ∧ r.status = .draft ∧
      engine' = engine.setRun id { r with status := .approved } := by
  obtain ⟨r, hget, h⟩ := bind_eq_ok.mp h
  obtain ⟨hstatus, h⟩ := bind_unit_eq_ok.mp h
  rw [throwIf_eq_ok, not_ne_iff] at hstatus
  cases h
  exact ⟨r, getRun_eq_ok.mp hget, hstatus, rfl⟩

theorem covered_payrollPosting (run : PayrollRun) : (payrollPosting run).Covered := by
  intro t ht id hid
  obtain ⟨entry, hentry, rfl⟩ := List.mem_map.mp ht
  rcases hid with rfl | rfl
  · exact ⟨_, .head _, rfl⟩
  · exact ⟨payeeAccount entry, .tail _ (List.mem_map_of_mem hentry), rfl⟩

/-- An approved run whose entries pass the checks of `executeRun`. -/
structure Due (engine : PayrollEngine) (id : JsString) (run : PayrollRun) : Prop where
  get : engine.runs.get? id = some run
  approved : run.status = .approved
  payable : ∀ e ∈ run.entries, e.netPay.Valid ∧ 0 < e.netPay.scaled

theorem assertPayable_eq_ok {run : PayrollRun} {entry : PayrollEntry} :
    assertPayable run entry = .ok () ↔ entry.netPay.Valid ∧ 0 < entry.netPay.scaled := by
  unfold assertPayable
  rcases hmoney : validateMoney entry.netPay with e | ⟨⟩
  · have hinvalid : ¬ entry.netPay.Valid := by
      rw [← validateMoney_eq_ok, hmoney]
      exact fun h => (nomatch h)
    exact ⟨fun h => (nomatch h), fun h => absurd h.1 hinvalid⟩
  · have hvalid := validateMoney_eq_ok.mp hmoney
    dsimp only
    rw [isPositive_eq_ok hvalid]
    change throwIf (!decide (0 < entry.netPay.scaled)) _ = .ok () ↔ _
    rw [throwIf_eq_ok]
    simp [hvalid]

theorem planRun_eq_ok {clock : Clock} {p : Posting} {run : PayrollRun} :
    engine.planRun clock id = .ok (p, engine', run) ↔
      ∃ r, engine.Due id r ∧ p = payrollPosting r ∧ engine' = engine.setRun id run ∧
        run = { r with status := .executed, executedAt := some clock.executedAt } := by
  constructor
  · intro h
    obtain ⟨r, hget, h⟩ := bind_eq_ok.mp h
    obtain ⟨hstatus, h⟩ := bind_unit_eq_ok.mp h
    obtain ⟨hchecks, h⟩ := bind_unit_eq_ok.mp h
    rw [throwIf_eq_ok, not_ne_iff] at hstatus
    rw [forM_eq_ok] at hchecks
    cases h
    exact ⟨r, ⟨getRun_eq_ok.mp (mapError_eq_ok.mp hget), hstatus, fun e he =>
      assertPayable_eq_ok.mp (hchecks e he)⟩, rfl, rfl, rfl⟩
  · rintro ⟨r, ⟨hget, hstatus, hpayable⟩, rfl, rfl, rfl⟩
    have hchecks : forM r.entries (assertPayable r) = .ok () :=
      forM_eq_ok.mpr fun e he => assertPayable_eq_ok.mpr (hpayable e he)
    rw [planRun, getRun_eq_ok.mpr hget]
    refine bind_unit_eq_ok.mpr ⟨throwIf_eq_ok.mpr (not_ne_iff.mpr hstatus), ?_⟩
    exact bind_unit_eq_ok.mpr ⟨hchecks, rfl⟩

end PayrollEngine

namespace PayrollState

/-- What the calls do, one case for each operation. -/
theorem step_call (s : PayrollState) (c : PayrollCall) : s.Step (s.call c) := by
  have hsame : s.Step s := .kept rfl rfl rfl
  cases c with
  | registerPayee id name address chainId registeredAt =>
    rw [call, registerPayee]
    split
    · exact hsame
    · exact .kept rfl rfl rfl
  | updatePayeeStatus id status =>
    rw [call]
    rcases h : s.engine.updatePayeeStatus id status with e | ⟨engine, payee⟩
    · exact hsame
    · obtain ⟨_, -, h⟩ := bind_eq_ok.mp h
      cases h
      exact .kept rfl rfl rfl
  | setSchedule payeeId components =>
    rw [call]
    rcases h : s.engine.setSchedule payeeId components with e | ⟨engine, entry⟩
    · exact hsame
    · obtain ⟨_, -, h⟩ := bind_eq_ok.mp h
      obtain ⟨-, h⟩ := bind_unit_eq_ok.mp h
      obtain ⟨-, h⟩ := bind_unit_eq_ok.mp h
      cases h
      exact .kept rfl rfl rfl
  | createRun id period createdAt =>
    rw [call]
    rcases h : s.engine.createRun id period createdAt with e | ⟨engine, run⟩
    · exact hsame
    · obtain ⟨rfl, hnew, hstatus, hexact, -, rfl⟩ := createRun_eq_ok h
      exact .created hnew hstatus hexact
  | approveRun id =>
    rw [call]
    rcases h : s.engine.approveRun id with e | ⟨engine, run⟩
    · exact hsame
    · obtain ⟨r, hget, hstatus, rfl⟩ := approveRun_eq_ok h
      exact .approved hget hstatus
  | executeRun clock id =>
    rw [call, executeRun, outcome_executePlan]
    dsimp only
    rcases hplan : planRun clock id s.engine with e | ⟨p, engine, run⟩
    · exact hsame
    · obtain ⟨r, ⟨hget, hstatus, -⟩, rfl, rfl, rfl⟩ := planRun_eq_ok.mp hplan
      dsimp only
      rcases hpost : (payrollPosting r).post clock s.ledger with e | ledger
      · exact .refused clock r
      · obtain ⟨hwritable, rfl⟩ := (Posting.post_eq_ok_iff (covered_payrollPosting r)).mp hpost
        exact .executed hget hstatus hwritable rfl

end PayrollState

/-! ## Bookkeeping -/

theorem expenseAccountId_ne_payeeAccountId (label payeeId : JsString) :
    payeeAccountId payeeId ≠ expenseAccountId label := by
  intro h
  have htake := congrArg (List.take 9) h
  have hpayee : (payeeAccountId payeeId).take 9 = js "payroll:p" := rfl
  have hexpense : (expenseAccountId label).take 9 = js "payroll:e" := rfl
  rw [hpayee, hexpense] at htake
  revert htake
  decide

/-- What the entries of a run add up to on an expense account. -/
theorem sideOf_payrollPosting {run : PayrollRun} {currency : JsString}
    (hcurrency : ∀ e ∈ run.entries, e.netPay.currency = currency) (now label : JsString) :
    sideOf .debit (expenseAccountId label) currency ((payrollPosting run).entries now) =
        (if run.period.label = label then (run.entries.map fun e => e.netPay.value).sum else 0) ∧
      sideOf .credit (expenseAccountId label) currency ((payrollPosting run).entries now) = 0 := by
  have htransfers : ∀ t ∈ (payrollPosting run).transfers, t.money.currency = currency := by
    intro t ht
    obtain ⟨e, he, rfl⟩ := List.mem_map.mp ht
    exact hcurrency e he
  rw [Posting.sideOf_entries _ _ _ htransfers, Posting.sideOf_entries _ _ _ htransfers,
    payrollPosting]
  dsimp only
  rw [List.map_map, List.map_map]
  constructor
  · by_cases hlabel : run.period.label = label
    · simp [Function.comp_def, payrollTransfer, Transfer.account, hlabel]
    · have hne : expenseAccountId run.period.label ≠ expenseAccountId label := fun h =>
        hlabel (List.append_cancel_left h)
      simp [Function.comp_def, payrollTransfer, Transfer.account, hlabel, hne]
  · simp [Function.comp_def, payrollTransfer, Transfer.account, expenseAccountId_ne_payeeAccountId]

/-- What holds in every state of a run. -/
structure Bookkept (currency : JsString) (decimals : Number) (s : PayrollState) : Prop where
  unit : s.engine.currency = currency ∧ s.engine.decimals = decimals
  runs : ∀ id run, s.engine.runs.get? id = some run →
    run.id = id ∧ run.totals.Exact currency decimals
  executed : ∀ x ∈ s.executions, s.engine.runs.get? x.1.id = some x.1 ∧ x.1.status = .executed ∧
    (∀ e ∈ x.1.entries, e.netPay.Valid) ∧
    expenseAccountId x.1.period.label ∈ s.ledger.accounts.keys
  complete : ∀ id run, s.engine.runs.get? id = some run → run.status = .executed →
    run ∈ s.executions.map Prod.fst
  nodup : (s.executions.map fun x => x.1.id).Nodup
  entries : s.ledger.entries = s.executions.flatMap fun x => (payrollPosting x.1).entries x.2
  expense : ∀ label account, s.ledger.accounts.get? (expenseAccountId label) = some account →
    account.ref.type = .expense

namespace PayrollState

variable {currency : JsString} {decimals : Number} {s s' : PayrollState}

/-- A run is written that was not executed, and is not executed yet. -/
theorem bookkept_setRun (h : Bookkept currency decimals s) {id : JsString} {run : PayrollRun}
    (hid : run.id = id) (hexact : run.totals.Exact currency decimals)
    (hold : ∀ r, s.engine.runs.get? id = some r → r.status ≠ .executed)
    (hstatus : run.status ≠ .executed) :
    Bookkept currency decimals { s with engine := s.engine.setRun id run } := by
  refine { h with runs := fun other r hr => ?_, executed := fun x hx => ?_, complete := ?_ }
  · rw [setRun, JsMap.get?_set] at hr
    split at hr
    · rename_i hother
      cases hr
      exact ⟨hid.trans hother, hexact⟩
    · exact h.runs other r hr
  · obtain ⟨hget, hexecuted, hrest⟩ := h.executed x hx
    have hne : id ≠ x.1.id := by
      intro heq
      rw [← heq] at hget
      exact hold x.1 hget hexecuted
    refine ⟨?_, hexecuted, hrest⟩
    rw [setRun, JsMap.get?_set_of_ne _ _ hne]
    exact hget
  · intro other r hr hexecuted
    rw [setRun, JsMap.get?_set] at hr
    split at hr
    · cases hr
      exact absurd hexecuted hstatus
    · exact h.complete other r hr hexecuted

/-- New accounts of a run are of the right type. -/
theorem expense_withAccounts (h : Bookkept currency decimals s) (clock : Clock) (run : PayrollRun)
    (label : JsString) (account : LedgerAccount)
    (hget : (withAccounts clock (payrollPosting run).accounts s.ledger).accounts.get?
      (expenseAccountId label) = some account) : account.ref.type = .expense := by
  rcases get?_withAccounts hget with hget | ⟨ref, href, hid, heq⟩
  · exact h.expense label account hget
  · rw [heq]
    rcases List.mem_cons.mp href with rfl | href
    · rfl
    · obtain ⟨e, -, rfl⟩ := List.mem_map.mp href
      exact absurd hid (expenseAccountId_ne_payeeAccountId label e.payeeId)

theorem bookkept_executed (h : Bookkept currency decimals s) {clock : Clock} {id : JsString}
    {run executed : PayrollRun} (hget : s.engine.runs.get? id = some run)
    (hstatus : run.status = .approved)
    (hwritable : Writable s.ledger ((payrollPosting run).entries clock.now))
    (hexecuted : executed =
      { run with status := .executed, executedAt := some clock.executedAt }) :
    Bookkept currency decimals ⟨s.engine.setRun id executed,
      (payrollPosting run).posted clock s.ledger, s.executions ++ [(executed, clock.now)]⟩ := by
  obtain ⟨hid, hexact⟩ := h.runs id run hget
  have hid' : executed.id = id := by rw [hexecuted]; exact hid
  have hposting : payrollPosting executed = payrollPosting run := by rw [hexecuted]; rfl
  -- the run that is executed is none of those that were
  have hne : ∀ x ∈ s.executions, id ≠ x.1.id := by
    intro x hx heq
    obtain ⟨hx, hdone, -⟩ := h.executed x hx
    rw [← heq, hget] at hx
    cases hx
    cases hstatus.symm.trans hdone
  have hkeys : ∀ key, key ∈ ((payrollPosting run).posted clock s.ledger).accounts.keys ↔
      (∃ ref ∈ (payrollPosting run).accounts, ref.id = key) ∨ key ∈ s.ledger.accounts.keys := by
    intro key
    rw [Posting.accounts_posted]
    exact mem_keys_withAccounts
  refine ⟨h.unit, fun other r hr => ?_, fun x hx => ?_, fun other r hr hdone => ?_, ?_, ?_,
    fun label account hlabel => ?_⟩
  · rw [setRun, JsMap.get?_set] at hr
    split at hr
    · rename_i hother
      cases hr
      refine ⟨hid'.trans hother, ?_⟩
      rw [hexecuted]
      exact hexact
    · exact h.runs other r hr
  · rcases List.mem_append.mp hx with hx | hx
    · obtain ⟨hx', hdone, hvalid, hregistered⟩ := h.executed x hx
      refine ⟨?_, hdone, hvalid, (hkeys _).mpr (.inr hregistered)⟩
      rw [setRun, JsMap.get?_set_of_ne _ _ (hne x hx)]
      exact hx'
    · rw [List.mem_singleton.mp hx]
      refine ⟨?_, ?_, ?_, (hkeys _).mpr (.inl ⟨_, .head _, ?_⟩)⟩
      · rw [setRun, hid', JsMap.get?_set_self]
      · rw [hexecuted]
      · rw [hexecuted]
        intro e he
        exact hwritable.valid _ (Posting.mem_entries_debit (List.mem_map_of_mem he))
      · rw [hexecuted]
  · rw [setRun, JsMap.get?_set] at hr
    rw [List.map_append, List.mem_append]
    split at hr
    · cases hr
      exact .inr (.head _)
    · exact .inl (h.complete other r hr hdone)
  · rw [List.map_append, List.nodup_append]
    refine ⟨h.nodup, List.nodup_singleton _, fun a ha b hb => ?_⟩
    obtain ⟨x, hx, rfl⟩ := List.mem_map.mp ha
    rw [List.mem_singleton.mp hb]
    exact fun heq => hne x hx (hid'.symm.trans heq.symm)
  · rw [List.flatMap_append, List.flatMap_singleton, hposting, ← h.entries]
    exact Posting.entries_posted _ _ _
  · rw [Posting.accounts_posted] at hlabel
    exact expense_withAccounts h clock run label account hlabel

theorem bookkept_step (h : Bookkept currency decimals s) (hstep : s.Step s') :
    Bookkept currency decimals s' := by
  cases hstep with
  | kept hruns hcurrency hdecimals =>
    refine { h with
      unit := ⟨hcurrency.trans h.unit.1, hdecimals.trans h.unit.2⟩, runs := ?_, executed := ?_,
      complete := ?_ }
    · rw [hruns]
      exact h.runs
    · rw [hruns]
      exact h.executed
    · rw [hruns]
      exact h.complete
  | created hnew hstatus hexact =>
    rw [h.unit.1, h.unit.2] at hexact
    refine bookkept_setRun h rfl hexact (fun r hr => ?_) (by rw [hstatus]; decide)
    exact absurd (JsMap.mem_keys.mpr ⟨r, hr⟩) hnew
  | approved hget hstatus =>
    obtain ⟨hid, hexact⟩ := h.runs _ _ hget
    refine bookkept_setRun h hid hexact (fun r hr => ?_) (fun h => (nomatch h))
    cases hget.symm.trans hr
    rw [hstatus]
    decide
  | refused clock run =>
    have haccounts := withAccounts_eq clock (payrollPosting run).accounts s.ledger
    refine { h with executed := fun x hx => ?_, entries := ?_, expense := ?_ }
    · obtain ⟨hget, hdone, hvalid, hregistered⟩ := h.executed x hx
      exact ⟨hget, hdone, hvalid, mem_keys_withAccounts.mpr (.inr hregistered)⟩
    · rw [haccounts]
      exact h.entries
    · exact expense_withAccounts h clock run
  | executed hget hstatus hwritable hexecuted =>
    exact bookkept_executed h hget hstatus hwritable hexecuted

/-- An execution that succeeds is listed. -/
theorem executions_call {clock : Clock} {id : JsString} {run : PayrollRun}
    {after : PayrollEngine × Ledger}
    (h : (executeRun clock id).outcome (s.engine, s.ledger) = (.ok run, after)) :
    s.call (.executeRun clock id) = ⟨after.1, after.2, s.executions ++ [(run, clock.now)]⟩ := by
  rw [call, h]

end PayrollState

def payrollSystem (currency : JsString) (decimals : Number) : System PayrollState PayrollCall where
  init s := s = ⟨.new currency decimals, .new, []⟩
  next s c := some (s.call c)

def PayrollEngine.executedRuns (engine : PayrollEngine) : List PayrollRun :=
  engine.runs.values.filter fun run => run.status = .executed

section bookkept

variable {currency : JsString} {decimals : Number} {s : PayrollState}

theorem bookkept_of_reachable (h : (payrollSystem currency decimals).Reachable s) :
    Bookkept currency decimals s := by
  apply h.invariant
  · rintro _ rfl
    exact ⟨⟨rfl, rfl⟩, fun _ _ h => (nomatch h), fun _ h => (nomatch h), fun _ _ h => (nomatch h),
      List.nodup_nil, rfl, fun _ _ h => (nomatch h)⟩
  · intro s c s' hs hnext
    rw [← Option.some.inj hnext]
    exact PayrollState.bookkept_step hs (s.step_call c)

theorem perm_executedRuns (h : Bookkept currency decimals s) :
    (s.executions.map Prod.fst).Perm s.engine.executedRuns := by
  have hexecutions : (s.executions.map Prod.fst).Nodup := by
    have hnodup := h.nodup
    rw [← Function.comp_def, ← List.map_map] at hnodup
    exact hnodup.of_map
  have hvalues : s.engine.runs.values.Nodup := by
    have hids : (s.engine.runs.values.map PayrollRun.id).Nodup :=
      JsMap.nodup_map_values (g := fun id => id) fun id run hget => (h.runs id run hget).1
    exact hids.of_map
  apply (List.perm_ext_iff_of_nodup hexecutions (hvalues.filter _)).mpr
  intro run
  rw [List.mem_filter, decide_eq_true_eq, JsMap.mem_values]
  constructor
  · intro hrun
    obtain ⟨x, hx, rfl⟩ := List.mem_map.mp hrun
    obtain ⟨hget, hstatus, -⟩ := h.executed x hx
    exact ⟨⟨_, hget⟩, hstatus⟩
  · rintro ⟨⟨id, hget⟩, hstatus⟩
    exact h.complete id run hget hstatus

/-- The moneys of the ledger are those of the entries of the executed runs. -/
theorem money_of_mem_entries (h : Bookkept currency decimals s) {e : LedgerEntry}
    (he : e ∈ s.ledger.entries) : e.money.Valid ∧ e.money.InUnit currency decimals := by
  rw [h.entries] at he
  obtain ⟨x, hx, he⟩ := List.mem_flatMap.mp he
  obtain ⟨-, t, ht, hmoney, -⟩ := Posting.mem_entries he
  obtain ⟨entry, hentry, rfl⟩ := List.mem_map.mp ht
  obtain ⟨hget, -, hvalid, -⟩ := h.executed x hx
  rw [hmoney]
  exact ⟨hvalid entry hentry, ((h.runs _ _ hget).2.entries entry hentry).unit⟩

/-- The balance of an expense account is the net pay of the executed runs of its label. -/
theorem balanceOf_expenseAccount (h : Bookkept currency decimals s) (label : JsString) :
    s.ledger.balanceOf (expenseAccountId label) =
      (s.executions.map fun x => if x.1.period.label = label then x.1.totalNet.value else 0).sum := by
  by_cases hregistered : expenseAccountId label ∈ s.ledger.accounts.keys
  · obtain ⟨account, haccount⟩ := JsMap.mem_keys.mp hregistered
    have hscale : OneScale s.ledger.entries := by
      intro e he f hf _ _
      rw [(money_of_mem_entries h he).2.decimals, (money_of_mem_entries h hf).2.decimals]
    rw [balanceOf_eq (fun e he => (money_of_mem_entries h he).1) hscale haccount
      fun e he _ => (money_of_mem_entries h he).2.currency, h.expense label account haccount]
    change sideOf .debit _ currency s.ledger.entries - sideOf .credit _ currency s.ledger.entries = _
    have hside : ∀ x ∈ s.executions, ∀ e ∈ x.1.entries, e.netPay.currency = currency := by
      intro x hx e he
      exact ((h.runs _ _ (h.executed x hx).1).2.entries e he).unit.currency
    rw [h.entries, sideOf_flatMap, sideOf_flatMap]
    have hdebit : (s.executions.map fun x => sideOf .debit (expenseAccountId label) currency
        ((payrollPosting x.1).entries x.2)) =
        s.executions.map fun x => if x.1.period.label = label then x.1.totalNet.value else 0 := by
      apply List.map_congr_left
      intro x hx
      rw [(sideOf_payrollPosting (hside x hx) x.2 label).1]
      split
      · exact (h.runs _ _ (h.executed x hx).1).2.net.symm
      · rfl
    have hcredit : (s.executions.map fun x => sideOf .credit (expenseAccountId label) currency
        ((payrollPosting x.1).entries x.2)) = s.executions.map fun _ => 0 :=
      List.map_congr_left fun x hx => (sideOf_payrollPosting (hside x hx) x.2 label).2
    rw [hdebit, hcredit, List.sum_map_zero, sub_zero]
  · rw [balanceOf_of_missing hregistered]
    symm
    apply List.sum_eq_zero
    intro q hq
    obtain ⟨x, hx, rfl⟩ := List.mem_map.mp hq
    refine if_neg fun hlabel => hregistered ?_
    rw [← hlabel]
    exact (h.executed x hx).2.2.2

end bookkept

/-- The totals of every run are exact; the ledger holds the entries of the executed runs and no
others; the balance of an expense account is the net pay of the executed runs of its label, and an
execution adds the net pay of its run; and no run is executed twice. -/
theorem payroll_bookkeeping {currency : JsString} {decimals : Number} {s : PayrollState}
    (h : (payrollSystem currency decimals).Reachable s) :
    (∀ run ∈ s.engine.runs.values, run.totals.Exact currency decimals ∧
      run.totalNet.value = run.totalGross.value - run.totalDeductions.value ∧
      run.totalNet.value = (run.entries.map fun e => e.netPay.value).sum) ∧
    ((s.executions.map Prod.fst).Perm s.engine.executedRuns ∧
      s.ledger.entries = s.executions.flatMap fun x => (payrollPosting x.1).entries x.2) ∧
    (∀ label, s.ledger.balanceOf (expenseAccountId label) =
      ((s.engine.executedRuns.filter fun run => run.period.label = label).map fun run =>
        run.totalNet.value).sum) ∧
    (∀ clock id run after,
      (executeRun clock id).outcome (s.engine, s.ledger) = (.ok run, after) → ∀ label,
        after.2.balanceOf (expenseAccountId label) = s.ledger.balanceOf (expenseAccountId label) +
          if run.period.label = label then run.totalNet.value else 0) ∧
    (s.executions.map fun x => x.1.id).Nodup := by
  have hkept := bookkept_of_reachable h
  refine ⟨fun run hrun => ?_, ⟨perm_executedRuns hkept, hkept.entries⟩, fun label => ?_, ?_,
    hkept.nodup⟩
  · obtain ⟨id, hget⟩ := JsMap.mem_values.mp hrun
    have hexact := (hkept.runs id run hget).2
    exact ⟨hexact, hexact.net_eq, hexact.net⟩
  · rw [balanceOf_expenseAccount hkept]
    have hsum := ((perm_executedRuns hkept).map fun run =>
      if run.period.label = label then run.totalNet.value else 0).sum_eq
    rw [List.map_map, List.sum_map_ite] at hsum
    simpa [Function.comp_def] using hsum
  · intro clock id run after hafter label
    have hnext : (payrollSystem currency decimals).Reachable (s.call (.executeRun clock id)) :=
      h.next rfl
    rw [PayrollState.executions_call hafter] at hnext
    have hbalance := balanceOf_expenseAccount (bookkept_of_reachable hnext) label
    rw [balanceOf_expenseAccount hkept]
    simpa using hbalance

/-! ### A run with a deduction -/

def dollars (amount : String) : Money := ⟨js amount, js "USD", .ofNat 2⟩

def paidPayrollCalls : List PayrollCall :=
  [.registerPayee (js "p") (js "Pat") (js "x") none (js "t"),
    .setSchedule (js "p") [⟨js "1", js "Salary", .base, dollars "100.00", true, true⟩,
      ⟨js "2", js "Tax", .deduction, dollars "30.00", true, false⟩],
    .createRun (js "r") ⟨js "t", js "t", js "june"⟩ (js "t"), .approveRun (js "r"),
    .executeRun ⟨fun _ => js "t", js "t", js "t"⟩ (js "r")]

def paidPayroll : PayrollState :=
  paidPayrollCalls.foldl PayrollState.call ⟨.new (js "USD") (.ofNat 2), .new, []⟩

theorem payroll_bookkeeping_paidPayroll : paidPayroll.engine.executedRuns.length = 1 ∧
    paidPayroll.ledger.balanceOf (expenseAccountId (js "june")) = 70 := by
  have hreach : (payrollSystem (js "USD") (.ofNat 2)).Reachable paidPayroll := by
    have hrun : (payrollSystem (js "USD") (.ofNat 2)).run ⟨.new (js "USD") (.ofNat 2), .new, []⟩
        paidPayrollCalls = some paidPayroll := rfl
    exact System.Reachable.run (.init rfl) hrun
  obtain ⟨-, -, hbalance, -⟩ := payroll_bookkeeping hreach
  refine ⟨by decide +kernel, ?_⟩
  rw [hbalance]
  decide +kernel

end Attestia.Treasury
