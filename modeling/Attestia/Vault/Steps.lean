import Attestia.Lib.System
import Attestia.Vault.Balance

/-!
# Steps of a vault

What the calls do to the envelopes and to the intents, and what every reachable vault keeps: the
records stand under their ids, and the envelopes are in the unit of the vault.
-/

namespace Attestia.Vault

open Lib JsonNumber Ledger

/-! ## Calls -/

/-- The calls of a vault, and those of its budget that only move money of an envelope. -/
inductive VaultCall where
  | createEnvelope (id name : JsString) (category : Option JsString) (createdAt : JsString)
  | allocate (envelopeId : JsString) (amount : Money)
  | deallocate (envelopeId : JsString) (amount : Money)
  | spend (envelopeId : JsString) (amount : Money)
  | reverseSpend (envelopeId : JsString) (amount : Money)
  | declare (id kind description : JsString) (params : VaultIntentParams)
      (envelopeId : Option JsString) (declaredAt : JsString)
  | approve (id : JsString) (reason : Option JsString) (approvedAt : JsString)
  | reject (id reason approvedAt : JsString)
  | markExecuting (id : JsString)
  | recordExecution (id chainId txHash executedAt : JsString)
  | verify (id : JsString) (isMatch : Bool) (discrepancies : Option (List JsString))
      (verifiedAt : JsString)
  | recordFailure (id : JsString) (discrepancies : List JsString) (verifiedAt : JsString)
  | restore (snapshot : VaultSnapshot)

variable (v : Vault)

/-- A call that throws leaves the vault as it was. -/
def kept {ε α : Type} : Except ε (Vault × α) → Vault
  | .ok r => r.1
  | .error _ => v

/-- The vault after a call. -/
def call : VaultCall → Vault
  | .createEnvelope id name category createdAt =>
    v.kept (v.createEnvelope id name category createdAt)
  | .allocate envelopeId amount => v.kept (v.allocateToEnvelope envelopeId amount)
  | .deallocate envelopeId amount =>
    v.kept (v.onBudget (v.intents.budget.deallocate envelopeId amount))
  | .spend envelopeId amount => v.kept (v.onBudget (v.intents.budget.spend envelopeId amount))
  | .reverseSpend envelopeId amount =>
    v.kept (v.onBudget (v.intents.budget.reverseSpend envelopeId amount))
  | .declare id kind description params envelopeId declaredAt =>
    v.kept (v.declareIntent id kind description params envelopeId declaredAt)
  | .approve id reason approvedAt => v.kept (v.approveIntent id reason approvedAt)
  | .reject id reason approvedAt => v.kept (v.rejectIntent id reason approvedAt)
  | .markExecuting id => v.kept (v.markIntentExecuting id)
  | .recordExecution id chainId txHash executedAt =>
    v.kept (v.recordIntentExecution id chainId txHash executedAt)
  | .verify id isMatch discrepancies verifiedAt =>
    v.kept (v.verifyIntent id isMatch discrepancies verifiedAt)
  | .recordFailure id discrepancies verifiedAt =>
    v.kept (v.recordIntentFailure id discrepancies verifiedAt)
  | .restore snapshot => v.kept ((restoreFromSnapshot snapshot).map fun restored => (restored, ()))

/-- A vault and every run of its calls. -/
def vaultSystem : System Vault VaultCall where
  init v := ∃ config, v = .new config
  next v c := some (v.call c)

/-! ## Steps -/

def withBudget (budget : BudgetEngine) : Vault :=
  { v with intents := { v.intents with budget := budget } }

def withIntent (id : JsString) (intent : VaultIntent) : Vault :=
  { v with intents := v.intents.setIntent id intent }

/-- The changes of an intent that move no money. -/
inductive Moved (i : VaultIntent) : VaultIntent → Prop
  | approved (approval : VaultIntentApproval) (h : i.status = .declared)
      (happroved : approval.approved = true) :
      Moved i { i with status := .approved, approval := some approval }
  | rejected (approval : VaultIntentApproval) (h : i.status = .declared ∨ i.status = .approved) :
      Moved i { i with status := .rejected, approval := some approval }
  | executing (h : i.status = .approved) : Moved i { i with status := .executing }
  | verified (verification : VaultIntentVerification) (h : i.status = .executed) :
      Moved i { i with status := .verified, verification := some verification }
  | failed (verification : VaultIntentVerification)
      (h : i.status = .executing ∨ (i.status = .executed ∧ draws i.envelopeId i.params = none)) :
      Moved i { i with status := .failed, verification := some verification }
  | executed (execution : VaultIntentExecution) (h : i.status = .executing)
      (hfree : draws i.envelopeId i.params = none) :
      Moved i { i with status := .executed, execution := some execution }

/-- What a call can do. -/
inductive Step : VaultCall → Vault → Prop
  | same {c : VaultCall} : Step c v
  | created {id name : JsString} {category : Option JsString} {createdAt : JsString}
      {r : BudgetEngine × Envelope}
      (h : v.intents.budget.createEnvelope id name category createdAt = .ok r) :
      Step (.createEnvelope id name category createdAt) (v.withBudget r.1)
  | allocated {id : JsString} {amount : Money} {r : BudgetEngine × Envelope}
      (h : v.intents.budget.allocate id amount = .ok r) :
      Step (.allocate id amount) (v.withBudget r.1)
  | deallocated {id : JsString} {amount : Money} {r : BudgetEngine × Envelope}
      (h : v.intents.budget.deallocate id amount = .ok r) :
      Step (.deallocate id amount) (v.withBudget r.1)
  | spent {id : JsString} {amount : Money} {r : BudgetEngine × Envelope}
      (h : v.intents.budget.spend id amount = .ok r) : Step (.spend id amount) (v.withBudget r.1)
  | reversed {id : JsString} {amount : Money} {r : BudgetEngine × Envelope}
      (h : v.intents.budget.reverseSpend id amount = .ok r) :
      Step (.reverseSpend id amount) (v.withBudget r.1)
  | declared {id kind description : JsString} {params : VaultIntentParams}
      {envelopeId : Option JsString} {declaredAt : JsString}
      (hnew : v.intents.intents.get? id = none) :
      Step (.declare id kind description params envelopeId declaredAt)
        (v.withIntent id ⟨id, .declared, kind, description, v.config.ownerId, declaredAt, params,
          envelopeId, none, none, none⟩)
  | moved {c : VaultCall} {k : JsString} {i i' : VaultIntent}
      (hget : v.intents.intents.get? k = some i) (hmoved : Moved i i') : Step c (v.withIntent k i')
  | charged {c : VaultCall} {k : JsString} {i : VaultIntent} {execution : VaultIntentExecution}
      {id : JsString} {amount : Money} {r : BudgetEngine × Envelope}
      (hget : v.intents.intents.get? k = some i) (hstatus : i.status = .executing)
      (hdraws : draws i.envelopeId i.params = some (id, amount))
      (h : v.intents.budget.spend id amount = .ok r) :
      Step c ((v.withBudget r.1).withIntent k
        { i with status := .executed, execution := some execution })
  | returned {c : VaultCall} {k : JsString} {i : VaultIntent}
      {verification : VaultIntentVerification} {id : JsString} {amount : Money}
      {r : BudgetEngine × Envelope} (hget : v.intents.intents.get? k = some i)
      (hstatus : i.status = .executed) (hdraws : draws i.envelopeId i.params = some (id, amount))
      (h : v.intents.budget.reverseSpend id amount = .ok r) :
      Step c ((v.withBudget r.1).withIntent k
        { i with status := .failed, verification := some verification })
  | restored {snapshot : VaultSnapshot} {v' : Vault} (h : restoreFromSnapshot snapshot = .ok v') :
      Step (.restore snapshot) v'

/-! ## One call -/

section calls

variable {v} {c : VaultCall}

theorem step_kept {ε α : Type} {r : Except ε (Vault × α)}
    (h : ∀ v' a, r = .ok (v', a) → v.Step c v') : v.Step c (v.kept r) := by
  rcases r with e | ⟨v', a⟩
  · exact .same
  · exact h v' a rfl

theorem step_onBudget {α : Type} {r : Except VaultFault (BudgetEngine × α)}
    (h : ∀ a, r = .ok a → v.Step c (v.withBudget a.1)) : v.Step c (v.kept (v.onBudget r)) := by
  rcases r with e | a
  · exact .same
  · exact h a rfl

theorem step_onIntents {α : Type} {r : Except VaultFault (IntentManager × α)}
    (h : ∀ a, r = .ok a → v.Step c { v with intents := a.1 }) : v.Step c (v.kept (v.onIntents r)) := by
  rcases r with e | a
  · exact .same
  · exact h a rfl

theorem requireIntent_eq_ok {m : IntentManager} {id : JsString} {i : VaultIntent} :
    m.requireIntent id = .ok i ↔ m.intents.get? id = some i := by
  rw [IntentManager.requireIntent]
  split <;> simp_all

/-- A transition that is allowed changes one intent. -/
theorem step_transition {id : JsString} {target : IntentStatus} {update : VaultIntent → VaultIntent}
    (h : ∀ i, target ∈ validTransitions i.status → Moved i { update i with status := target }) :
    v.Step c (v.kept (v.onIntents (v.intents.transition id target update))) := by
  apply step_onIntents
  intro a ha
  obtain ⟨i, hi, ha⟩ := bind_eq_ok.mp ha
  obtain ⟨hvalid, ha⟩ := bind_unit_eq_ok.mp ha
  cases ha
  exact .moved (requireIntent_eq_ok.mp hi) (h i (not_not.mp (throwIf_eq_ok.mp hvalid)))

theorem step_recordExecution (id chainId txHash executedAt : JsString) :
    v.Step c (v.kept (v.recordIntentExecution id chainId txHash executedAt)) := by
  apply step_onIntents
  intro a ha
  obtain ⟨i, hi, ha⟩ := bind_eq_ok.mp ha
  obtain ⟨hvalid, ha⟩ := bind_unit_eq_ok.mp ha
  have hvalid := not_not.mp (throwIf_eq_ok.mp hvalid)
  have hstatus : i.status = .executing := by
    cases hs : i.status <;> simp [hs, validTransitions] at hvalid ⊢
  cases hdraws : draws i.envelopeId i.params with
  | none =>
    rw [hdraws] at ha
    cases ha
    exact .moved (requireIntent_eq_ok.mp hi) (.executed _ hstatus hdraws)
  | some d =>
    rw [hdraws] at ha
    obtain ⟨budget, hbudget, ha⟩ := bind_eq_ok.mp ha
    obtain ⟨r, hr, rfl⟩ := map_eq_ok.mp hbudget
    cases ha
    exact .charged (requireIntent_eq_ok.mp hi) hstatus hdraws hr

theorem step_recordFailure (id : JsString) (discrepancies : List JsString) (verifiedAt : JsString) :
    v.Step c (v.kept (v.recordIntentFailure id discrepancies verifiedAt)) := by
  apply step_onIntents
  intro a ha
  obtain ⟨i, hi, ha⟩ := bind_eq_ok.mp ha
  obtain ⟨hvalid, ha⟩ := bind_unit_eq_ok.mp ha
  have hvalid := not_not.mp (throwIf_eq_ok.mp hvalid)
  have hstatus : i.status = .executing ∨ i.status = .executed := by
    cases hs : i.status <;> simp [hs, validTransitions] at hvalid ⊢
  cases hdraws : draws i.envelopeId i.params with
  | none =>
    rw [hdraws] at ha
    cases ha
    exact .moved (requireIntent_eq_ok.mp hi) (.failed _ (hstatus.imp_right fun h => ⟨h, hdraws⟩))
  | some d =>
    rw [hdraws] at ha
    dsimp only at ha
    split at ha
    · rename_i hexecuted
      obtain ⟨budget, hbudget, ha⟩ := bind_eq_ok.mp ha
      obtain ⟨r, hr, rfl⟩ := map_eq_ok.mp hbudget
      cases ha
      exact .returned (requireIntent_eq_ok.mp hi) hexecuted hdraws hr
    · rename_i hexecuted
      cases ha
      exact .moved (requireIntent_eq_ok.mp hi) (.failed _ (.inl (hstatus.resolve_right hexecuted)))

variable (v)

theorem step_call (c : VaultCall) : v.Step c (v.call c) := by
  cases c with
  | createEnvelope id name category createdAt => exact step_onBudget fun a ha => .created ha
  | allocate id amount => exact step_onBudget fun a ha => .allocated ha
  | deallocate id amount => exact step_onBudget fun a ha => .deallocated ha
  | spend id amount => exact step_onBudget fun a ha => .spent ha
  | reverseSpend id amount => exact step_onBudget fun a ha => .reversed ha
  | declare id kind description params envelopeId declaredAt =>
    apply step_onIntents
    intro a ha
    obtain ⟨hnew, ha⟩ := bind_unit_eq_ok.mp ha
    obtain ⟨-, ha⟩ := bind_unit_eq_ok.mp ha
    cases ha
    rw [throwIf_eq_ok, JsMap.has_eq_true, ← JsMap.get?_eq_none] at hnew
    exact .declared hnew
  | approve id reason approvedAt =>
    apply step_transition
    intro i hvalid
    refine .approved _ ?_ rfl
    cases hs : i.status <;> simp [hs, validTransitions] at hvalid ⊢
  | reject id reason approvedAt =>
    apply step_transition
    intro i hvalid
    apply Moved.rejected
    cases hs : i.status <;> simp [hs, validTransitions] at hvalid ⊢
  | markExecuting id =>
    apply step_transition
    intro i hvalid
    apply Moved.executing
    cases hs : i.status <;> simp [hs, validTransitions] at hvalid ⊢
  | recordExecution id chainId txHash executedAt =>
    exact step_recordExecution id chainId txHash executedAt
  | verify id isMatch discrepancies verifiedAt =>
    apply step_transition
    intro i hvalid
    apply Moved.verified
    cases hs : i.status <;> simp [hs, validTransitions] at hvalid ⊢
  | recordFailure id discrepancies verifiedAt =>
    exact step_recordFailure id discrepancies verifiedAt
  | restore snapshot =>
    apply step_kept
    intro v' a hv
    obtain ⟨restored, hrestored, hv⟩ := map_eq_ok.mp hv
    cases hv
    exact .restored hrestored

end calls

end Attestia.Vault
