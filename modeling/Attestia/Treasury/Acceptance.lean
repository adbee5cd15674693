import Attestia.Treasury.Execution

/-!
# What a treasury accepts

When an execution or the approval of a gate returns, said of the treasury before it, and what it
leaves there.
-/

namespace Attestia.Treasury

open Lib Ledger Effect

section executions

variable {M ε α : Type} {clock : Clock} {id : JsString} {ledger : Ledger}

/-- An execution returns where what passes its checks fits the ledger. -/
theorem executePlan_eq_ok_iff {plan : M → Except (ExecutionError ε) (Posting × M × α)}
    {s s' : M × Ledger} {a : α} (hcovered : ∀ p m a, plan s.1 = .ok (p, m, a) → p.Covered) :
    outcome (executePlan clock plan) s = (.ok a, s') ↔
      ∃ p m, plan s.1 = .ok (p, m, a) ∧ p.Fits s.2 ∧ s' = (m, p.posted clock s.2) := by
  rw [outcome_executePlan]
  rcases hplan : plan s.1 with e | ⟨p, m, a'⟩ <;> dsimp only
  · constructor
    · rintro ⟨⟩
    · rintro ⟨p, m, h, -⟩
      cases h
  · have hpost : ∀ ledger', p.post clock s.2 = .ok ledger' ↔
        p.Fits s.2 ∧ ledger' = p.posted clock s.2 := by
      intro ledger'
      rw [Posting.post_eq_ok_iff (hcovered p m a' hplan), Posting.writable_iff_fits]
    constructor
    · intro h
      rcases hledger : p.post clock s.2 with e | ledger'
      · rw [hledger] at h
        cases h
      · rw [hledger] at h
        cases h
        obtain ⟨hfits, rfl⟩ := (hpost ledger').mp hledger
        exact ⟨p, m, rfl, hfits, rfl⟩
    · rintro ⟨p', m', heq, hfits, rfl⟩
      cases heq
      rw [(hpost _).mpr ⟨hfits, rfl⟩]

theorem executeRun_eq_ok_iff {engine : PayrollEngine} {run : PayrollRun}
    {s' : PayrollEngine × Ledger} :
    outcome (PayrollEngine.executeRun clock id) (engine, ledger) = (.ok run, s') ↔
      ∃ r, engine.Due id r ∧ (payrollPosting r).Fits ledger ∧
        run = { r with status := .executed, executedAt := some clock.executedAt } ∧
        s' = (engine.setRun id run, (payrollPosting r).posted clock ledger) := by
  rw [PayrollEngine.executeRun, executePlan_eq_ok_iff fun p m a h => by
    obtain ⟨r, -, rfl, -⟩ := PayrollEngine.planRun_eq_ok.mp h
    exact PayrollEngine.covered_payrollPosting r]
  constructor
  · rintro ⟨p, m, hplan, hfits, rfl⟩
    obtain ⟨r, hdue, rfl, rfl, hrun⟩ := PayrollEngine.planRun_eq_ok.mp hplan
    exact ⟨r, hdue, hfits, hrun, rfl⟩
  · rintro ⟨r, hdue, hfits, hrun, rfl⟩
    exact ⟨_, _, PayrollEngine.planRun_eq_ok.mpr ⟨r, hdue, rfl, rfl, hrun⟩, hfits, rfl⟩

theorem executeDistribution_eq_ok_iff {engine : DistributionEngine} {result : DistributionResult}
    {s' : DistributionEngine × Ledger} :
    outcome (DistributionEngine.executeDistribution clock id) (engine, ledger) =
        (.ok result, s') ↔
      ∃ plan full, engine.Due id plan result.payouts ∧
        (distributionPosting plan result.payouts).Fits ledger ∧
        engine.resolvePayouts plan = .ok full ∧ result = { full with payouts := result.payouts } ∧
        s' = (engine.setPlan id
            { plan with status := .executed, executedAt := some clock.executedAt },
          (distributionPosting plan result.payouts).posted clock ledger) := by
  rw [DistributionEngine.outcome_executeDistribution, executePlan_eq_ok_iff fun p m a h => by
    obtain ⟨plan, -, rfl, -⟩ := DistributionEngine.planDistribution_eq_ok.mp h
    exact DistributionEngine.covered_distributionPosting plan _]
  constructor
  · rintro ⟨p, m, hplan, hfits, rfl⟩
    obtain ⟨plan, hdue, rfl, rfl, full, hfull, hresult⟩ :=
      DistributionEngine.planDistribution_eq_ok.mp hplan
    exact ⟨plan, full, hdue, hfits, hfull, hresult, rfl⟩
  · rintro ⟨plan, full, hdue, hfits, hfull, hresult, rfl⟩
    exact ⟨_, _, DistributionEngine.planDistribution_eq_ok.mpr
      ⟨plan, hdue, rfl, rfl, full, hfull, hresult⟩, hfits, rfl⟩

theorem executeRequest_eq_ok_iff {m : FundingGateManager} {request : FundingRequest}
    {s' : FundingGateManager × Ledger} :
    outcome (FundingGateManager.executeRequest clock id) (m, ledger) = (.ok request, s') ↔
      ∃ r, m.requests.get? id = some r ∧ r.status = .approved ∧ (fundingPosting r).Fits ledger ∧
        request = { r with status := .executed, executedAt := some clock.executedAt } ∧
        s' = (m.set id request, (fundingPosting r).posted clock ledger) := by
  rw [FundingGateManager.executeRequest, executePlan_eq_ok_iff fun p m' a h => by
    obtain ⟨r, -, rfl, -⟩ := FundingGateManager.planRequest_eq_ok.mp (mapError_eq_ok.mp h)
    exact FundingGateManager.covered_fundingPosting r]
  constructor
  · rintro ⟨p, m', hplan, hfits, rfl⟩
    obtain ⟨r, ⟨hget, hstatus⟩, rfl, rfl, hrequest⟩ :=
      FundingGateManager.planRequest_eq_ok.mp (mapError_eq_ok.mp hplan)
    exact ⟨r, hget, hstatus, hfits, hrequest, rfl⟩
  · rintro ⟨r, hget, hstatus, hfits, hrequest, rfl⟩
    exact ⟨_, _, mapError_eq_ok.mpr (FundingGateManager.planRequest_eq_ok.mpr
      ⟨r, ⟨hget, hstatus⟩, rfl, rfl, hrequest⟩), hfits, rfl⟩

/-- A funding request is refused without a trace where it is not approved, or does not fit a ledger
that has its accounts. -/
theorem executeRequest_refused_iff (clock : Clock) {m : FundingGateManager} :
    (∃ e, outcome (FundingGateManager.executeRequest clock id) (m, ledger) =
        (.error e, (m, ledger))) ↔
      ∀ r, m.requests.get? id = some r → r.status = .approved →
        ¬ (fundingPosting r).Fits ledger ∧
          ∀ ref ∈ (fundingPosting r).accounts, ref.id ∈ ledger.accounts.keys := by
  have hatomic := atomic_executeRequest_iff clock id ledger m
  constructor
  · rintro ⟨e, he⟩ r hget hstatus
    have hunfit : ¬ (fundingPosting r).Fits ledger := by
      intro hfits
      have hok : outcome (FundingGateManager.executeRequest clock id) (m, ledger) = (.ok _, _) :=
        executeRequest_eq_ok_iff.mpr ⟨r, hget, hstatus, hfits, rfl, rfl⟩
      cases he.symm.trans hok
    refine ⟨hunfit, (hatomic.mp ?_ r ⟨hget, hstatus⟩).resolve_right hunfit⟩
    intro e' s' h
    exact (Prod.mk.inj (he.symm.trans h)).2.symm
  · intro h
    rcases houtcome : outcome (FundingGateManager.executeRequest clock id) (m, ledger) with
      ⟨e | request, s'⟩
    · have hsettles := hatomic.mpr fun r hr => .inl (h r hr.1 hr.2).2
      exact ⟨e, by rw [hsettles e s' houtcome]⟩
    · obtain ⟨r, hget, hstatus, hfits, -⟩ := executeRequest_eq_ok_iff.mp houtcome
      exact absurd hfits (h r hget hstatus).1

end executions

namespace FundingGateManager

variable {m : FundingGateManager} {id approvedBy approvedAt : JsString}
  {reason : Option JsString} {result : FundingGateManager × FundingRequest}

/-- The request behind an approval: the first one of a pending request, or a second one of another
gatekeeper. -/
inductive Gated (request : FundingRequest) (gate : FundingGate) : FundingRequest → Prop
  | first : request.status = .pending →
      Gated request gate { request with status := .gate1Approved, gate1 := some gate }
  | second : request.status = .gate1Approved →
      request.gate1.map FundingGate.approvedBy ≠ some gate.approvedBy →
      Gated request gate { request with status := .approved, gate2 := some gate }

theorem approveGate_eq_ok_iff : m.approveGate id approvedBy reason approvedAt = .ok result ↔
    ∃ request updated, m.requests.get? id = some request ∧
      Approval m.gatekeepers request ⟨approvedBy, reason, approvedAt⟩ ∧
      Gated request ⟨approvedBy, reason, approvedAt⟩ updated ∧
      result = (m.set id updated, updated) := by
  constructor
  · intro h
    obtain ⟨r, hget, h⟩ := bind_eq_ok.mp h
    obtain ⟨hkeeper, h⟩ := bind_unit_eq_ok.mp h
    obtain ⟨hrequester, h⟩ := bind_unit_eq_ok.mp h
    obtain ⟨hstatus, h⟩ := bind_unit_eq_ok.mp h
    have happroval : Approval m.gatekeepers r ⟨approvedBy, reason, approvedAt⟩ :=
      ⟨assertGatekeeper_eq_ok.mp hkeeper, throwIf_eq_ok.mp hrequester⟩
    rw [throwIf_eq_ok] at hstatus
    split at h
    · rename_i hpending
      cases h
      exact ⟨r, _, getRequest_eq_ok.mp hget, happroval, .first hpending, rfl⟩
    · rename_i hpending
      have hgate1 : r.status = .gate1Approved := by
        by_contra hne
        exact hstatus ⟨hpending, hne⟩
      obtain ⟨hother, h⟩ := bind_unit_eq_ok.mp h
      cases h
      exact ⟨r, _, getRequest_eq_ok.mp hget, happroval, .second hgate1 (throwIf_eq_ok.mp hother),
        rfl⟩
  · rintro ⟨r, updated, hget, happroval, hgated, rfl⟩
    refine bind_eq_ok.mpr ⟨r, getRequest_eq_ok.mpr hget, bind_unit_eq_ok.mpr
      ⟨assertGatekeeper_eq_ok.mpr happroval.1, bind_unit_eq_ok.mpr
        ⟨throwIf_eq_ok.mpr happroval.2, bind_unit_eq_ok.mpr ⟨throwIf_eq_ok.mpr ?_, ?_⟩⟩⟩⟩
    · rintro ⟨hpending, hgate1⟩
      cases hgated with
      | first h => exact hpending h
      | second h => exact hgate1 h
    · cases hgated with
      | first h => rw [if_pos h]; rfl
      | second h hother =>
        have hpending : ¬ r.status = .pending := by
          rw [h]
          decide
        rw [if_neg hpending]
        exact bind_unit_eq_ok.mpr ⟨throwIf_eq_ok.mpr hother, rfl⟩

end FundingGateManager

end Attestia.Treasury
