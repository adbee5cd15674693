import Attestia.Treasury.Distribution
import Attestia.Treasury.Funding
import Attestia.Treasury.Payroll

/-!
# Atomicity of the executions

A distribution, a payroll run and a funding request are checked by their managers before anything
is written. What the checks do not cover are the ids of the entries, and for a funding request the
amount: a batch that the ledger rejects for these leaves the accounts behind that were missing.
-/

namespace Attestia.Treasury

open Lib JsonNumber Ledger Effect

/-! ## What the ledger asks of a posting -/

namespace Posting

variable (p : Posting)

/-- The ids of the entries. -/
def entryIds : List JsString :=
  p.transfers.flatMap fun t => [t.base ++ js ":debit", t.base ++ js ":credit"]

/-- The ids are new and distinct, and the amounts are valid and positive. -/
structure Fits (ledger : Ledger) : Prop where
  fresh : ∀ id ∈ p.entryIds, id ∉ ledger.entryIds
  nodup : p.entryIds.Nodup
  amounts : ∀ t ∈ p.transfers, t.money.Valid ∧ 0 < t.money.scaled

/-- No account is missing, or the batch is accepted. -/
def Settles (ledger : Ledger) : Prop :=
  (∀ ref ∈ p.accounts, ref.id ∈ ledger.accounts.keys) ∨ p.Fits ledger

variable {p}

theorem map_id_entries (now : JsString) : (p.entries now).map LedgerEntry.id = p.entryIds := by
  rw [entries, entryIds, List.map_flatMap]
  rfl

theorem writable_iff_fits {ledger : Ledger} {now : JsString} :
    Writable ledger (p.entries now) ↔ p.Fits ledger := by
  constructor
  · intro h
    refine ⟨?_, ?_, fun t ht => ?_⟩
    · rw [← map_id_entries now, List.forall_mem_map]
      exact h.fresh
    · rw [← map_id_entries now]
      exact h.nodup
    · exact ⟨h.valid _ (mem_entries_debit ht), h.positive _ (mem_entries_debit ht)⟩
  · intro h
    have hfresh := h.fresh
    have hnodup := h.nodup
    rw [← map_id_entries now] at hfresh hnodup
    refine ⟨fun e he => hfresh _ (List.mem_map_of_mem he), hnodup, fun e he => ?_, fun e he => ?_⟩
    · obtain ⟨-, t, ht, hmoney, -⟩ := mem_entries he
      exact hmoney ▸ (h.amounts t ht).1
    · obtain ⟨-, t, ht, hmoney, -⟩ := mem_entries he
      exact hmoney ▸ (h.amounts t ht).2

end Posting

/-- An execution is atomic exactly where the postings that pass its checks settle. -/
theorem atomic_iff_settles {M ε α ι : Type} {clock : Clock}
    {plan : M → Except (ExecutionError ε) (Posting × M × α)} {s : M × Ledger} {due : ι → Prop}
    {posting : ι → Posting}
    (hdue : ∀ p, (∃ m a, plan s.1 = .ok (p, m, a)) ↔ ∃ i, due i ∧ p = posting i)
    (hcovered : ∀ i, (posting i).Covered) :
    Atomic s (outcome (executePlan clock plan) s) ↔ ∀ i, due i → (posting i).Settles s.2 := by
  have hplan : ∀ p m a, plan s.1 = .ok (p, m, a) → ∃ i, due i ∧ p = posting i :=
    fun p m a h => (hdue p).mp ⟨m, a, h⟩
  rw [atomic_executePlan_iff fun p m a h => by
    obtain ⟨i, -, rfl⟩ := hplan p m a h
    exact hcovered i]
  simp only [Posting.writable_iff_fits]
  constructor
  · intro h i hi
    obtain ⟨m, a, ha⟩ := (hdue (posting i)).mpr ⟨i, hi, rfl⟩
    exact h _ m a ha
  · intro h p m a ha
    obtain ⟨i, hi, rfl⟩ := hplan p m a ha
    exact h i hi

/-! ## The three executions -/

section executions

variable (clock : Clock) (id : JsString) (ledger : Ledger)

theorem exists_planDistribution_iff (engine : DistributionEngine) (p : Posting) :
    (∃ m a, engine.planDistribution clock id = .ok (p, m, a)) ↔
      ∃ i : DistributionPlan × List DistributionPayout,
        engine.Due id i.1 i.2 ∧ p = distributionPosting i.1 i.2 := by
  constructor
  · rintro ⟨m, a, h⟩
    obtain ⟨plan, hdue, hp, -⟩ := DistributionEngine.planDistribution_eq_ok.mp h
    exact ⟨(plan, a.payouts), hdue, hp⟩
  · rintro ⟨⟨plan, payouts⟩, hdue, rfl⟩
    obtain ⟨result, hresult, -⟩ := hdue.resolved
    exact ⟨_, { result with payouts := payouts },
      DistributionEngine.planDistribution_eq_ok.mpr ⟨plan, hdue, rfl, rfl, result, hresult, rfl⟩⟩

theorem exists_planRun_iff (engine : PayrollEngine) (p : Posting) :
    (∃ m a, engine.planRun clock id = .ok (p, m, a)) ↔
      ∃ run, engine.Due id run ∧ p = payrollPosting run := by
  constructor
  · rintro ⟨m, a, h⟩
    obtain ⟨run, hdue, hp, -⟩ := PayrollEngine.planRun_eq_ok.mp h
    exact ⟨run, hdue, hp⟩
  · rintro ⟨run, hdue, rfl⟩
    exact ⟨_, _, PayrollEngine.planRun_eq_ok.mpr ⟨run, hdue, rfl, rfl, rfl⟩⟩

theorem exists_planRequest_iff (m : FundingGateManager) (p : Posting) :
    (∃ m' a, (m.planRequest clock id).mapError ExecutionError.own = .ok (p, m', a)) ↔
      ∃ request, (m.requests.get? id = some request ∧ request.status = .approved) ∧
        p = fundingPosting request := by
  constructor
  · rintro ⟨m', a, h⟩
    obtain ⟨request, hdue, hp, -⟩ := FundingGateManager.planRequest_eq_ok.mp (mapError_eq_ok.mp h)
    exact ⟨request, hdue, hp⟩
  · rintro ⟨request, hdue, rfl⟩
    exact ⟨_, _, mapError_eq_ok.mpr
      (FundingGateManager.planRequest_eq_ok.mpr ⟨request, hdue, rfl, rfl, rfl⟩)⟩

theorem atomic_executeDistribution_iff (engine : DistributionEngine) :
    Atomic (engine, ledger)
        ((DistributionEngine.executeDistribution clock id).outcome (engine, ledger)) ↔
      ∀ plan payouts, engine.Due id plan payouts →
        (distributionPosting plan payouts).Settles ledger := by
  rw [DistributionEngine.outcome_executeDistribution, ← Prod.forall'
    (p := fun plan payouts => engine.Due id plan payouts →
      (distributionPosting plan payouts).Settles ledger)]
  exact atomic_iff_settles (exists_planDistribution_iff clock id engine) fun i =>
    DistributionEngine.covered_distributionPosting i.1 i.2

theorem atomic_executeRun_iff (engine : PayrollEngine) :
    Atomic (engine, ledger) ((PayrollEngine.executeRun clock id).outcome (engine, ledger)) ↔
      ∀ run, engine.Due id run → (payrollPosting run).Settles ledger :=
  atomic_iff_settles (exists_planRun_iff clock id engine) PayrollEngine.covered_payrollPosting

theorem atomic_executeRequest_iff (m : FundingGateManager) :
    Atomic (m, ledger) ((FundingGateManager.executeRequest clock id).outcome (m, ledger)) ↔
      ∀ request, m.requests.get? id = some request ∧ request.status = .approved →
        (fundingPosting request).Settles ledger :=
  atomic_iff_settles (exists_planRequest_iff clock id m) FundingGateManager.covered_fundingPosting

/-- An execution that throws leaves everything as it was exactly where what passes its checks
settles: no account is missing, or the ids of the entries are new and distinct and the amounts
valid and positive. -/
theorem executions_atomic_iff :
    (∀ engine : DistributionEngine, Atomic (engine, ledger)
        ((DistributionEngine.executeDistribution clock id).outcome (engine, ledger)) ↔
      ∀ plan payouts, engine.Due id plan payouts →
        (distributionPosting plan payouts).Settles ledger) ∧
    (∀ engine : PayrollEngine, Atomic (engine, ledger)
        ((PayrollEngine.executeRun clock id).outcome (engine, ledger)) ↔
      ∀ run, engine.Due id run → (payrollPosting run).Settles ledger) ∧
    ∀ m : FundingGateManager, Atomic (m, ledger)
        ((FundingGateManager.executeRequest clock id).outcome (m, ledger)) ↔
      ∀ request, m.requests.get? id = some request ∧ request.status = .approved →
        (fundingPosting request).Settles ledger :=
  ⟨atomic_executeDistribution_iff clock id ledger, atomic_executeRun_iff clock id ledger,
    atomic_executeRequest_iff clock id ledger⟩

end executions

/-! ### A request for nothing -/

/-- A request for the amount zero passes both gates. -/
def emptyRequestCalls : List FundingCall :=
  [.submitRequest (js "r") (js "desks") ⟨js "0.00", js "USD", .ofNat 2⟩ (js "carol") (js "t"),
    .approveGate (js "r") (js "bob") none (js "t"), .approveGate (js "r") (js "alice") none (js "t")]

def emptyRequestRun : FundingRun := emptyRequestCalls.foldl FundingRun.call emptyRun

theorem not_atomic_emptyRequestRun :
    ¬ ∀ gatekeepers run, (fundingSystem gatekeepers).Reachable run → ∀ ledger,
      ledgerSystem.Reachable ledger → ∀ clock id, Atomic (run.manager, ledger)
        ((FundingGateManager.executeRequest clock id).outcome (run.manager, ledger)) := by
  intro h
  have hreach : (fundingSystem twoGatekeepers).Reachable emptyRequestRun := by
    have hrun : (fundingSystem twoGatekeepers).run emptyRun emptyRequestCalls =
        some emptyRequestRun := rfl
    exact System.Reachable.run (.init init_emptyRun) hrun
  have hatomic := h _ _ hreach .new (.init rfl) ⟨fun _ => js "t", js "t", js "t"⟩ (js "r")
  have houtcome : ∃ e s', (FundingGateManager.executeRequest ⟨fun _ => js "t", js "t", js "t"⟩
      (js "r")).outcome (emptyRequestRun.manager, .new) = (.error e, s') ∧
        s'.2.accounts.has treasuryAccountId = true := ⟨_, _, rfl, by decide +kernel⟩
  obtain ⟨e, s', heq, hhas⟩ := houtcome
  rw [hatomic e s' heq] at hhas
  cases hhas

end Attestia.Treasury
