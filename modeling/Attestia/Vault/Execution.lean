import Attestia.Vault.Restoration

/-!
# Executing an intent

When an envelope of a reachable vault takes a spend, and what the two calls that execute an intent
do where the intent is in the status that they ask for.
-/

namespace Attestia.Vault

open Lib JsonNumber Ledger

namespace BudgetEngine

/-- A positive amount in the unit of the engine that the envelope still has. -/
def Covers (b : BudgetEngine) (envelopeId : JsString) (amount : Money) : Prop :=
  amount.currency = b.currency ∧ amount.decimals = b.decimals ∧
    ∃ e n z, b.envelopes.get? envelopeId = some e ∧
      parseAmount amount.amount b.decimals = .ok n ∧ parseAmount e.available b.decimals = .ok z ∧
      0 < n ∧ n ≤ z

variable {b : BudgetEngine} {envelopeId : JsString} {amount : Money}

/-- An envelope that has something available is in the unit of natural decimals. -/
theorem Kept.committed {c : JsString} {d : Number} {e : Envelope} (h : Kept c d e) {z : ℤ}
    (hz : parseAmount e.available d = .ok z) (hpos : 0 < z) :
    ∃ k x y, d = .ofNat k ∧ Amounts d e x y := by
  rcases h.amounts with hfresh | ⟨x, y, hcommitted⟩
  · have hzero := eq_zero_of_parseAmount_zero (hfresh.available ▸ hz)
    omega
  · obtain ⟨k, hk⟩ := exists_ofNat_of_parseAmount_format (hcommitted.available ▸ hz)
    exact ⟨k, x, y, hk, hcommitted.toAmounts⟩

theorem assertPositive_of_pos {n : ℤ} (hn : parseAmount amount.amount amount.decimals = .ok n)
    (hpos : 0 < n) : assertPositive amount = .ok () := by
  apply bind_eq_ok.mpr
  refine ⟨true, mapError_eq_ok.mpr (map_eq_ok.mpr ⟨n, hn, decide_eq_true hpos⟩), ?_⟩
  exact throwIf_eq_ok.mpr Bool.true_eq_false.mp

theorem Keeps.spend_isOk_iff (h : b.Keeps) :
    (∃ r, b.spend envelopeId amount = .ok r) ↔ b.Covers envelopeId amount := by
  constructor
  · rintro ⟨r, hr⟩
    obtain ⟨e, x, y, n, z, -, hcurrency, hdecimals, hn, hz, hpos, hle, hsettled⟩ := spend_eq_ok hr
    exact ⟨hcurrency, hdecimals, e, n, z, hsettled.found, hn, hz, hpos, hle⟩
  · rintro ⟨hcurrency, hdecimals, e, n, z, he, hn, hz, hpos, hle⟩
    obtain ⟨k, x, y, hk, hamounts⟩ := (h envelopeId e he).2.committed hz (hpos.trans_le hle)
    have hpositive := assertPositive_of_pos (hdecimals ▸ hn) hpos
    have horder : compareMoney amount (b.unit e.available) = .ok (compare n z) :=
      compareMoney_eq_ok.mpr ⟨hcurrency, hdecimals, n, z, hdecimals ▸ hn, hz, rfl⟩
    have hcheck : ¬ compare n z = .gt := by
      rw [compare_gt_iff_gt, not_lt]
      exact hle
    have hadd : b.add e.spent amount.amount = .ok (formatAmount (y + n) b.decimals) :=
      mapError_eq_ok.mpr (map_eq_ok.mpr
        ⟨_, combineMoney_eq_ok.mpr ⟨rfl, rfl, y, n, hamounts.spent, hn, rfl⟩, rfl⟩)
    have hspent : parseAmount (formatAmount (y + n) b.decimals) b.decimals = .ok (y + n) := by
      rw [hk]
      exact parseAmount_formatAmount (y + n) k
    have hsubtract := subtract_eq_ok.mpr ⟨x, y + n, hamounts.allocated, hspent, rfl⟩
    exact ⟨_, bind_eq_ok.mpr ⟨e, getEnvelope_eq_ok.mpr he, bind_unit_eq_ok.mpr
      ⟨throwIf_eq_ok.mpr (not_not.mpr hcurrency), bind_unit_eq_ok.mpr ⟨hpositive, bind_eq_ok.mpr
        ⟨_, mapError_eq_ok.mpr horder, bind_unit_eq_ok.mpr ⟨throwIf_eq_ok.mpr hcheck,
          bind_eq_ok.mpr ⟨_, hadd, bind_eq_ok.mpr ⟨_, hsubtract, rfl⟩⟩⟩⟩⟩⟩⟩⟩

/-- A positive amount up to what an envelope has spent can be given back. -/
theorem exists_reverseSpend {k : ℕ} {e : Envelope} {x y n : ℤ}
    (hcurrency : amount.currency = b.currency) (hdecimals : amount.decimals = b.decimals)
    (hk : b.decimals = .ofNat k) (he : b.envelopes.get? envelopeId = some e)
    (hamounts : Amounts b.decimals e x y) (hn : parseAmount amount.amount b.decimals = .ok n)
    (hpos : 0 < n) (hle : n ≤ y) : ∃ r, b.reverseSpend envelopeId amount = .ok r := by
  have horder : compareMoney amount (b.unit e.spent) = .ok (compare n y) :=
    compareMoney_eq_ok.mpr ⟨hcurrency, hdecimals, n, y, hdecimals ▸ hn, hamounts.spent, rfl⟩
  have hcheck : ¬ compare n y = .gt := by
    rw [compare_gt_iff_gt, not_lt]
    exact hle
  have hspent : parseAmount (formatAmount (y - n) b.decimals) b.decimals = .ok (y - n) := by
    rw [hk]
    exact parseAmount_formatAmount (y - n) k
  have hnew := subtract_eq_ok.mpr ⟨y, n, hamounts.spent, hn, rfl⟩
  have havailable := subtract_eq_ok.mpr ⟨x, y - n, hamounts.allocated, hspent, rfl⟩
  exact ⟨_, bind_eq_ok.mpr ⟨e, getEnvelope_eq_ok.mpr he, bind_unit_eq_ok.mpr
    ⟨throwIf_eq_ok.mpr (not_not.mpr hcurrency), bind_unit_eq_ok.mpr
      ⟨assertPositive_of_pos (hdecimals ▸ hn) hpos, bind_eq_ok.mpr
        ⟨_, mapError_eq_ok.mpr horder, bind_unit_eq_ok.mpr ⟨throwIf_eq_ok.mpr hcheck,
          bind_eq_ok.mpr ⟨_, hnew, bind_eq_ok.mpr ⟨_, havailable, rfl⟩⟩⟩⟩⟩⟩⟩⟩

end BudgetEngine

/-! ## The two calls -/

variable {v : Vault} {id : JsString} {i : VaultIntent}

theorem transition_eq {m : IntentManager} {target : IntentStatus}
    {update : VaultIntent → VaultIntent} (hget : m.intents.get? id = some i)
    (hvalid : target ∈ validTransitions i.status) :
    m.transition id target update =
      .ok (m.setIntent id { update i with status := target },
        { update i with status := target }) := by
  apply bind_eq_ok.mpr
  refine ⟨i, requireIntent_eq_ok.mpr hget, bind_unit_eq_ok.mpr ⟨?_, rfl⟩⟩
  exact throwIf_eq_ok.mpr (not_not.mpr hvalid)

theorem markIntentExecuting_of_approved (hget : v.intents.intents.get? id = some i)
    (hstatus : i.status = .approved) :
    v.markIntentExecuting id = .ok (v.withIntent id { i with status := .executing },
      { i with status := .executing }) := by
  have hvalid : .executing ∈ validTransitions i.status := by
    rw [hstatus]
    decide
  rw [markIntentExecuting, IntentManager.markExecuting, transition_eq hget hvalid]
  rfl

/-- Only an approved intent is marked as executing. -/
theorem approved_of_markIntentExecuting {r : Vault × VaultIntent}
    (h : v.markIntentExecuting id = .ok r) :
    ∃ i, v.intents.intents.get? id = some i ∧ i.status = .approved := by
  obtain ⟨a, ha, -⟩ := map_eq_ok.mp h
  obtain ⟨i, hi, ha⟩ := bind_eq_ok.mp ha
  obtain ⟨hvalid, -⟩ := bind_unit_eq_ok.mp ha
  refine ⟨i, requireIntent_eq_ok.mp hi, ?_⟩
  have hvalid := not_not.mp (throwIf_eq_ok.mp hvalid)
  cases hs : i.status <;> simp [hs, validTransitions] at hvalid ⊢

/-- What the execution of an intent takes from its envelope. -/
def charge (b : BudgetEngine) (i : VaultIntent) : Except VaultFault BudgetEngine :=
  match draws i.envelopeId i.params with
  | none => .ok b
  | some (envelopeId, amount) => (b.spend envelopeId amount).map Prod.fst

/-- The envelope of an intent has what the intent draws from it. -/
def Funded (b : BudgetEngine) (i : VaultIntent) : Prop :=
  ∀ envelopeId amount, draws i.envelopeId i.params = some (envelopeId, amount) →
    b.Covers envelopeId amount

theorem charge_isOk_iff {b : BudgetEngine} (h : b.Keeps) :
    (∃ b', charge b i = .ok b') ↔ Funded b i := by
  rw [charge, Funded]
  cases hdraws : draws i.envelopeId i.params with
  | none => exact ⟨fun _ _ _ h => (nomatch h), fun _ => ⟨b, rfl⟩⟩
  | some d =>
    obtain ⟨envelopeId, amount⟩ := d
    constructor
    · rintro ⟨b', hb'⟩ _ _ heq
      cases heq
      obtain ⟨r, hr, -⟩ := map_eq_ok.mp hb'
      exact h.spend_isOk_iff.mp ⟨r, hr⟩
    · intro hcovers
      obtain ⟨r, hr⟩ := h.spend_isOk_iff.mpr (hcovers envelopeId amount rfl)
      exact ⟨r.1, map_eq_ok.mpr ⟨r, hr, rfl⟩⟩

/-- What the failure of an executed intent gives back to its envelope. -/
def refund (b : BudgetEngine) (i : VaultIntent) : Except VaultFault BudgetEngine :=
  match draws i.envelopeId i.params with
  | none => .ok b
  | some (envelopeId, amount) => (b.reverseSpend envelopeId amount).map Prod.fst

theorem recordIntentFailure_of_executed (discrepancies : List JsString) (verifiedAt : JsString)
    (hget : v.intents.intents.get? id = some i) (hstatus : i.status = .executed) :
    v.recordIntentFailure id discrepancies verifiedAt =
      (refund v.intents.budget i).map fun b =>
        let updated :=
          { i with status := .failed, verification := some ⟨verifiedAt, false, some discrepancies⟩ }
        ((v.withBudget b).withIntent id updated, updated) := by
  have hvalid : IntentManager.assertTransition i .failed = .ok () := by
    apply throwIf_eq_ok.mpr
    rw [hstatus]
    decide
  rw [recordIntentFailure, onIntents, IntentManager.recordFailure, requireIntent_eq_ok.mpr hget]
  show Except.map _ (IntentManager.assertTransition i .failed >>= fun _ => _) = _
  rw [hvalid, refund]
  rcases draws i.envelopeId i.params with _ | d
  · rfl
  · simp only [if_pos hstatus]
    cases v.intents.budget.reverseSpend d.1 d.2 <;> rfl

theorem recordIntentExecution_of_executing (chainId txHash executedAt : JsString)
    (hget : v.intents.intents.get? id = some i) (hstatus : i.status = .executing) :
    v.recordIntentExecution id chainId txHash executedAt =
      (charge v.intents.budget i).map fun b =>
        let updated :=
          { i with status := .executed, execution := some ⟨executedAt, chainId, txHash⟩ }
        ((v.withBudget b).withIntent id updated, updated) := by
  have hvalid : IntentManager.assertTransition i .executed = .ok () := by
    apply throwIf_eq_ok.mpr
    rw [hstatus]
    decide
  rw [recordIntentExecution, onIntents, IntentManager.recordExecution,
    requireIntent_eq_ok.mpr hget]
  show Except.map _ (IntentManager.assertTransition i .executed >>= fun _ => _) = _
  rw [hvalid, charge]
  cases draws i.envelopeId i.params with
  | none => rfl
  | some d => cases hspend : v.intents.budget.spend d.1 d.2 <;> simp only [hspend] <;> rfl

end Attestia.Vault
