import Attestia.Vault.Execution

/-!
# What a vault accepts

When the calls that fund an envelope and that declare, decide, execute and verify an intent return,
said of the vault before them, and what they leave in it.
-/

namespace Attestia.Vault

open Lib JsonNumber Ledger

namespace BudgetEngine

variable {b : BudgetEngine} {id : JsString} {amount : Money} {r : BudgetEngine × Envelope}

/-- An envelope and an amount that the engine can compute with. -/
structure Computes (b : BudgetEngine) (id : JsString) (amount : Money) (e : Envelope) (x y n : ℤ) :
    Prop extends Amounts b.decimals e x y where
  found : b.envelopes.get? id = some e
  natural : ∃ k, b.decimals = .ofNat k
  currency : amount.currency = b.currency
  parsed : parseAmount amount.amount b.decimals = .ok n

/-- An amount that can be allocated; its own decimals need not be those of the engine. -/
structure Allocates (b : BudgetEngine) (id : JsString) (amount : Money) (e : Envelope)
    (x y n : ℤ) : Prop extends Computes b id amount e x y n where
  positive : ∃ p, parseAmount amount.amount amount.decimals = .ok p ∧ 0 < p

/-- A positive amount in the unit of the engine that does not exceed what is available. -/
structure Spends (b : BudgetEngine) (id : JsString) (amount : Money) (e : Envelope)
    (x y n : ℤ) : Prop extends Computes b id amount e x y n where
  unit : amount.decimals = b.decimals
  positive : 0 < n
  available : ∃ z, parseAmount e.available b.decimals = .ok z ∧ n ≤ z

theorem assertPositive_eq_ok_iff : assertPositive amount = .ok () ↔
    ∃ p, parseAmount amount.amount amount.decimals = .ok p ∧ 0 < p :=
  ⟨assertPositive_eq_ok, fun ⟨_, hp, hpos⟩ => assertPositive_of_pos hp hpos⟩

theorem add_eq_ok_iff {s t u : JsString} : b.add s t = .ok u ↔
    ∃ m n, parseAmount s b.decimals = .ok m ∧ parseAmount t b.decimals = .ok n ∧
      u = formatAmount (m + n) b.decimals := by
  refine ⟨add_eq_ok, ?_⟩
  rintro ⟨m, n, hm, hn, rfl⟩
  exact mapError_eq_ok.mpr (map_eq_ok.mpr
    ⟨_, combineMoney_eq_ok.mpr ⟨rfl, rfl, m, n, hm, hn, rfl⟩, rfl⟩)

/-- What is printed can be computed with where the decimals are natural. -/
theorem parseAmount_format_iff {d : Number} {m n : ℤ} :
    parseAmount (formatAmount m d) d = .ok n ↔ (∃ k, d = .ofNat k) ∧ n = m := by
  constructor
  · exact fun h => ⟨exists_ofNat_of_parseAmount_format h, parseAmount_formatAmount_self h⟩
  · rintro ⟨⟨k, rfl⟩, rfl⟩
    exact parseAmount_formatAmount n k

/-- The envelope behind an allocation of `n`. -/
def allocated (b : BudgetEngine) (id : JsString) (e : Envelope) (x y n : ℤ) :
    BudgetEngine × Envelope :=
  b.settle id e (formatAmount (x + n) b.decimals) e.spent (formatAmount (x + n - y) b.decimals)

/-- The envelope behind a spend of `n`. -/
def spent (b : BudgetEngine) (id : JsString) (e : Envelope) (x y n : ℤ) :
    BudgetEngine × Envelope :=
  b.settle id e e.allocated (formatAmount (y + n) b.decimals)
    (formatAmount (x - (y + n)) b.decimals)

theorem allocate_eq_ok_iff : b.allocate id amount = .ok r ↔
    ∃ e x y n, b.Allocates id amount e x y n ∧ r = b.allocated id e x y n := by
  constructor
  · intro h
    obtain ⟨e, he, h⟩ := bind_eq_ok.mp h
    obtain ⟨hcurrency, h⟩ := bind_unit_eq_ok.mp h
    obtain ⟨hpositive, h⟩ := bind_unit_eq_ok.mp h
    obtain ⟨sum, hsum, h⟩ := bind_eq_ok.mp h
    obtain ⟨rest, hrest, h⟩ := bind_eq_ok.mp h
    obtain ⟨x, n, hx, hn, rfl⟩ := add_eq_ok hsum
    obtain ⟨x', y, hx', hy, rfl⟩ := subtract_eq_ok.mp hrest
    obtain ⟨hnatural, rfl⟩ := parseAmount_format_iff.mp hx'
    refine ⟨e, x, y, n, ⟨⟨⟨hx, hy⟩, getEnvelope_eq_ok.mp he, hnatural, ?_, hn⟩, ?_⟩,
      (Except.ok.inj h).symm⟩
    · exact not_not.mp (throwIf_eq_ok.mp hcurrency)
    · exact assertPositive_eq_ok hpositive
  · rintro ⟨e, x, y, n, h, rfl⟩
    have hsum := add_eq_ok_iff.mpr ⟨x, n, h.allocated, h.parsed, rfl⟩
    have hrest := subtract_eq_ok.mpr
      ⟨x + n, y, parseAmount_format_iff.mpr ⟨h.natural, rfl⟩, h.spent, rfl⟩
    exact bind_eq_ok.mpr ⟨e, getEnvelope_eq_ok.mpr h.found, bind_unit_eq_ok.mpr
      ⟨throwIf_eq_ok.mpr (not_not.mpr h.currency), bind_unit_eq_ok.mpr
        ⟨assertPositive_eq_ok_iff.mpr h.positive, bind_eq_ok.mpr
          ⟨_, hsum, bind_eq_ok.mpr ⟨_, hrest, rfl⟩⟩⟩⟩⟩

theorem spend_eq_ok_iff : b.spend id amount = .ok r ↔
    ∃ e x y n, b.Spends id amount e x y n ∧ r = b.spent id e x y n := by
  constructor
  · intro h
    obtain ⟨e, he, h⟩ := bind_eq_ok.mp h
    obtain ⟨hcurrency, h⟩ := bind_unit_eq_ok.mp h
    obtain ⟨hpositive, h⟩ := bind_unit_eq_ok.mp h
    obtain ⟨order, horder, h⟩ := bind_eq_ok.mp h
    obtain ⟨hcheck, h⟩ := bind_unit_eq_ok.mp h
    obtain ⟨sum, hsum, h⟩ := bind_eq_ok.mp h
    obtain ⟨rest, hrest, h⟩ := bind_eq_ok.mp h
    obtain ⟨-, hunit, n, z, hn, hz, hle⟩ :=
      le_of_compareMoney (mapError_eq_ok.mp horder) (throwIf_eq_ok.mp hcheck)
    obtain ⟨p, hp, hpos⟩ := assertPositive_eq_ok hpositive
    obtain rfl := Except.ok.inj (hn.symm.trans (hunit ▸ hp))
    obtain ⟨y, n', hy, hn', rfl⟩ := add_eq_ok hsum
    obtain rfl := Except.ok.inj (hn.symm.trans hn')
    obtain ⟨x, y', hx, hy', rfl⟩ := subtract_eq_ok.mp hrest
    obtain ⟨hnatural, rfl⟩ := parseAmount_format_iff.mp hy'
    refine ⟨e, x, y, n, ⟨⟨⟨hx, hy⟩, getEnvelope_eq_ok.mp he, hnatural, ?_, hn⟩, hunit, hpos,
      z, hz, hle⟩, (Except.ok.inj h).symm⟩
    exact not_not.mp (throwIf_eq_ok.mp hcurrency)
  · rintro ⟨e, x, y, n, h, rfl⟩
    obtain ⟨z, hz, hle⟩ := h.available
    have horder : compareMoney amount (b.unit e.available) = .ok (compare n z) :=
      compareMoney_eq_ok.mpr ⟨h.currency, h.unit, n, z, h.unit ▸ h.parsed, hz, rfl⟩
    have hcheck : ¬ compare n z = .gt := by
      rw [compare_gt_iff_gt, not_lt]
      exact hle
    have hsum := add_eq_ok_iff.mpr ⟨y, n, h.spent, h.parsed, rfl⟩
    have hrest := subtract_eq_ok.mpr
      ⟨x, y + n, h.allocated, parseAmount_format_iff.mpr ⟨h.natural, rfl⟩, rfl⟩
    exact bind_eq_ok.mpr ⟨e, getEnvelope_eq_ok.mpr h.found, bind_unit_eq_ok.mpr
      ⟨throwIf_eq_ok.mpr (not_not.mpr h.currency), bind_unit_eq_ok.mpr
        ⟨assertPositive_of_pos (h.unit ▸ h.parsed) h.positive, bind_eq_ok.mpr
          ⟨_, mapError_eq_ok.mpr horder, bind_unit_eq_ok.mpr ⟨throwIf_eq_ok.mpr hcheck,
            bind_eq_ok.mpr ⟨_, hsum, bind_eq_ok.mpr ⟨_, hrest, rfl⟩⟩⟩⟩⟩⟩⟩

/-- What an intent draws does not exceed what its envelope has available. -/
def Affords (b : BudgetEngine) (drawn : Option (JsString × Money)) : Prop :=
  ∀ id amount, drawn = some (id, amount) → ∃ e n z, b.envelopes.get? id = some e ∧
    amount.currency = e.currency ∧ amount.decimals = e.decimals ∧
    parseAmount amount.amount amount.decimals = .ok n ∧
    parseAmount e.available e.decimals = .ok z ∧ n ≤ z

/-- The engine behind the execution of an intent, which spends what the intent draws. -/
def Charged (b : BudgetEngine) (i : VaultIntent) (b' : BudgetEngine) : Prop :=
  match draws i.envelopeId i.params with
  | none => b' = b
  | some (id, amount) => ∃ e x y n, b.Spends id amount e x y n ∧ b' = (b.spent id e x y n).1

theorem charge_eq_ok_iff {i : VaultIntent} {b' : BudgetEngine} :
    charge b i = .ok b' ↔ b.Charged i b' := by
  rw [charge, Charged]
  rcases draws i.envelopeId i.params with _ | ⟨id, amount⟩
  · exact ⟨fun h => (Except.ok.inj h).symm, fun h => congrArg Except.ok h.symm⟩
  · simp only [map_eq_ok, spend_eq_ok_iff]
    constructor
    · rintro ⟨r, ⟨e, x, y, n, h, rfl⟩, rfl⟩
      exact ⟨e, x, y, n, h, rfl⟩
    · rintro ⟨e, x, y, n, h, rfl⟩
      exact ⟨_, ⟨e, x, y, n, h, rfl⟩, rfl⟩

end BudgetEngine

/-! ## Intents -/

namespace IntentManager

variable {m : IntentManager}

theorem checkBudget_eq_ok {drawn : Option (JsString × Money)} :
    m.checkBudget drawn = .ok () ↔ m.budget.Affords drawn := by
  rcases drawn with _ | ⟨id, amount⟩
  · exact ⟨fun _ _ _ h => (nomatch h), fun _ => rfl⟩
  · constructor
    · rintro h _ _ heq
      cases heq
      obtain ⟨e, he, h⟩ := bind_eq_ok.mp h
      obtain ⟨order, horder, h⟩ := bind_eq_ok.mp h
      obtain ⟨hcurrency, hdecimals, n, z, hn, hz, rfl⟩ :=
        BudgetEngine.compareMoney_eq_ok.mp (mapError_eq_ok.mp horder)
      have hle := throwIf_eq_ok.mp h
      rw [compare_gt_iff_gt, not_lt] at hle
      exact ⟨e, n, z, BudgetEngine.getEnvelope_eq_ok.mp he, hcurrency, hdecimals, hn, hz, hle⟩
    · intro h
      obtain ⟨e, n, z, he, hcurrency, hdecimals, hn, hz, hle⟩ := h id amount rfl
      refine bind_eq_ok.mpr ⟨e, BudgetEngine.getEnvelope_eq_ok.mpr he, bind_eq_ok.mpr
        ⟨compare n z, mapError_eq_ok.mpr (BudgetEngine.compareMoney_eq_ok.mpr
          ⟨hcurrency, hdecimals, n, z, hn, hz, rfl⟩), throwIf_eq_ok.mpr ?_⟩⟩
      rw [compare_gt_iff_gt, not_lt]
      exact hle

end IntentManager

section intents

variable {v : Vault} {id : JsString} {r : Vault × VaultIntent}

/-- An intent as it is declared. -/
def declared (v : Vault) (id kind description : JsString) (params : VaultIntentParams)
    (envelopeId : Option JsString) (declaredAt : JsString) : VaultIntent :=
  ⟨id, .declared, kind, description, v.config.ownerId, declaredAt, params, envelopeId, none, none,
    none⟩

theorem declareIntent_eq_ok_iff {kind description declaredAt : JsString}
    {params : VaultIntentParams} {envelopeId : Option JsString} :
    v.declareIntent id kind description params envelopeId declaredAt = .ok r ↔
      id ∉ v.intents.intents.keys ∧ v.intents.budget.Affords (draws envelopeId params) ∧
        r = (v.withIntent id (v.declared id kind description params envelopeId declaredAt),
          v.declared id kind description params envelopeId declaredAt) := by
  rw [← JsMap.has_eq_true, ← IntentManager.checkBudget_eq_ok]
  constructor
  · intro h
    obtain ⟨a, ha, rfl⟩ := map_eq_ok.mp h
    obtain ⟨hnew, ha⟩ := bind_unit_eq_ok.mp ha
    obtain ⟨hbudget, ha⟩ := bind_unit_eq_ok.mp ha
    cases ha
    exact ⟨throwIf_eq_ok.mp hnew, hbudget, rfl⟩
  · rintro ⟨hnew, hbudget, rfl⟩
    exact map_eq_ok.mpr ⟨_, bind_unit_eq_ok.mpr ⟨throwIf_eq_ok.mpr hnew,
      bind_unit_eq_ok.mpr ⟨hbudget, rfl⟩⟩, rfl⟩

theorem transition_eq_ok_iff {target : IntentStatus} {update : VaultIntent → VaultIntent} :
    v.onIntents (v.intents.transition id target update) = .ok r ↔
      ∃ i, v.intents.intents.get? id = some i ∧ target ∈ validTransitions i.status ∧
        r = (v.withIntent id { update i with status := target },
          { update i with status := target }) := by
  constructor
  · intro h
    obtain ⟨a, ha, rfl⟩ := map_eq_ok.mp h
    obtain ⟨i, hi, ha⟩ := bind_eq_ok.mp ha
    obtain ⟨hvalid, ha⟩ := bind_unit_eq_ok.mp ha
    cases ha
    exact ⟨i, requireIntent_eq_ok.mp hi, not_not.mp (throwIf_eq_ok.mp hvalid), rfl⟩
  · rintro ⟨i, hi, hvalid, rfl⟩
    exact map_eq_ok.mpr ⟨_, transition_eq hi hvalid, rfl⟩

theorem mem_validTransitions {status : IntentStatus} :
    (.approved ∈ validTransitions status ↔ status = .declared) ∧
      (.rejected ∈ validTransitions status ↔ status = .declared ∨ status = .approved) ∧
      (.verified ∈ validTransitions status ↔ status = .executed) := by
  cases status <;> decide

/-- The two calls that execute an intent return where it is approved and can be charged. -/
theorem executed_iff {chainId txHash executedAt : JsString} {v₁ v₂ : Vault} {i₁ i₂ : VaultIntent} :
    v.markIntentExecuting id = .ok (v₁, i₁) ∧
        v₁.recordIntentExecution id chainId txHash executedAt = .ok (v₂, i₂) ↔
      ∃ i b, v.intents.intents.get? id = some i ∧ i.status = .approved ∧
        v.intents.budget.Charged i b ∧ i₁ = { i with status := .executing } ∧
        v₁ = v.withIntent id i₁ ∧
        i₂ = { i with status := .executed, execution := some ⟨executedAt, chainId, txHash⟩ } ∧
        v₂ = (v₁.withBudget b).withIntent id i₂ := by
  simp only [← BudgetEngine.charge_eq_ok_iff]
  have hfound : ∀ i : VaultIntent,
      (v.withIntent id { i with status := .executing }).intents.intents.get? id =
        some { i with status := .executing } := fun i => JsMap.get?_set_self _ _ _
  constructor
  · rintro ⟨hmark, hrecord⟩
    obtain ⟨i, hi, hstatus⟩ := approved_of_markIntentExecuting hmark
    rw [markIntentExecuting_of_approved hi hstatus] at hmark
    cases hmark
    rw [recordIntentExecution_of_executing _ _ _ (hfound i) rfl] at hrecord
    obtain ⟨b, hb, hrecord⟩ := map_eq_ok.mp hrecord
    cases hrecord
    exact ⟨i, b, hi, hstatus, hb, rfl, rfl, rfl, rfl⟩
  · rintro ⟨i, b, hi, hstatus, hb, rfl, rfl, rfl, rfl⟩
    refine ⟨markIntentExecuting_of_approved hi hstatus, ?_⟩
    rw [recordIntentExecution_of_executing _ _ _ (hfound i) rfl]
    exact map_eq_ok.mpr ⟨b, hb, rfl⟩

end intents

end Attestia.Vault
