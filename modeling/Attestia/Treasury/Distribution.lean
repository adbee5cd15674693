import Attestia.Treasury.DistributionEngine

/-!
# Distributions

What the payouts of a plan are, and what an execution of the plan writes.
-/

namespace Attestia.Treasury

open Lib JsonNumber Ledger Effect

namespace DistributionEngine

variable {engine engine' : DistributionEngine} {id : JsString}

theorem getPlan_eq_ok {plan : DistributionPlan} :
    engine.getPlan id = .ok plan ↔ engine.plans.get? id = some plan := by
  unfold getPlan
  cases engine.plans.get? id <;> simp

theorem nodup_of_assertDistinct {seen : List JsString} {recipients : List DistributionRecipient}
    (h : assertDistinct id seen recipients = .ok ()) :
    (recipients.map DistributionRecipient.payeeId).Nodup ∧
      ∀ r ∈ recipients, r.payeeId ∉ seen := by
  induction recipients generalizing seen with
  | nil => exact ⟨List.nodup_nil, fun _ h => (nomatch h)⟩
  | cons r rs ih =>
    rw [assertDistinct] at h
    split at h
    · cases h
    · rename_i hseen
      obtain ⟨hnodup, hnew⟩ := ih h
      simp only [List.mem_append, List.mem_singleton, not_or] at hnew
      rw [List.map_cons, List.nodup_cons, List.forall_mem_cons]
      refine ⟨⟨?_, hnodup⟩, hseen, fun q hq => (hnew q hq).1⟩
      intro hmem
      obtain ⟨q, hq, heq⟩ := List.mem_map.mp hmem
      exact (hnew q hq).2 heq

theorem createPlan_eq_ok {name : JsString} {strategy : DistributionStrategy} {pool : Money}
    {recipients : List DistributionRecipient} {createdAt : JsString} {plan : DistributionPlan}
    (h : engine.createPlan id name strategy pool recipients createdAt = .ok (engine', plan)) :
    plan.id = id ∧ id ∉ engine.plans.keys ∧ plan.status = .draft ∧
      (plan.recipients.map DistributionRecipient.payeeId).Nodup ∧
      engine' = engine.setPlan id plan := by
  obtain ⟨hnew, h⟩ := bind_unit_eq_ok.mp h
  obtain ⟨-, h⟩ := bind_unit_eq_ok.mp h
  obtain ⟨hdistinct, h⟩ := bind_unit_eq_ok.mp h
  obtain ⟨-, h⟩ := bind_unit_eq_ok.mp h
  obtain ⟨-, h⟩ := bind_unit_eq_ok.mp h
  rw [throwIf_eq_ok, JsMap.has_eq_true] at hnew
  cases h
  exact ⟨rfl, hnew, rfl, (nodup_of_assertDistinct hdistinct).1, rfl⟩

theorem approvePlan_eq_ok {plan : DistributionPlan}
    (h : engine.approvePlan id = .ok (engine', plan)) :
    ∃ p, engine.plans.get? id = some p ∧ p.status = .draft ∧
      engine' = engine.setPlan id { p with status := .approved } := by
  obtain ⟨p, hget, h⟩ := bind_eq_ok.mp h
  obtain ⟨hstatus, h⟩ := bind_unit_eq_ok.mp h
  rw [throwIf_eq_ok, not_ne_iff] at hstatus
  cases h
  exact ⟨p, getPlan_eq_ok.mp hget, hstatus, rfl⟩

/-! ## Payouts -/

/-- The amounts of the payouts and their total have been parsed. -/
theorem foldlM_addPayout {amountOf : DistributionRecipient → Distributes Money}
    {recipients : List DistributionRecipient} {sums sums' : List DistributionPayout × Money}
    (h : recipients.foldlM (addPayout amountOf) sums = .ok sums') :
    sums'.2.decimals = sums.2.decimals ∧ ∀ p ∈ sums'.1, p ∈ sums.1 ∨
      ∃ n, parseAmount p.amount.amount p.amount.decimals = .ok n := by
  induction recipients generalizing sums with
  | nil =>
    cases h
    exact ⟨rfl, fun p hp => .inl hp⟩
  | cons r rs ih =>
    rw [List.foldlM_cons] at h
    obtain ⟨next, hnext, h⟩ := bind_eq_ok.mp h
    obtain ⟨amount, -, hnext⟩ := bind_eq_ok.mp hnext
    obtain ⟨total, htotal, hpure⟩ := bind_eq_ok.mp hnext
    obtain ⟨-, -, x, y, -, hy, htotal⟩ := combineMoney_eq_ok.mp (mapError_eq_ok.mp htotal)
    cases hpure
    obtain ⟨hdecimals, hpayouts⟩ := ih h
    refine ⟨hdecimals.trans (by rw [htotal]), fun p hp => ?_⟩
    rcases hpayouts p hp with hp | hp
    · rcases List.mem_append.mp hp with hp | hp
      · exact .inl hp
      · rw [List.mem_singleton.mp hp]
        exact .inr ⟨y, hy⟩
    · exact .inr hp

/-- The payouts are those of the recipients. -/
theorem payeeIds_of_foldlM_addPayout {amountOf : DistributionRecipient → Distributes Money}
    {recipients : List DistributionRecipient} {sums sums' : List DistributionPayout × Money}
    (h : recipients.foldlM (addPayout amountOf) sums = .ok sums') :
    sums'.1.map DistributionPayout.payeeId = sums.1.map DistributionPayout.payeeId ++
      recipients.map DistributionRecipient.payeeId := by
  induction recipients generalizing sums with
  | nil =>
    cases h
    rw [List.map_nil, List.append_nil]
  | cons r rs ih =>
    rw [List.foldlM_cons] at h
    obtain ⟨next, hnext, h⟩ := bind_eq_ok.mp h
    obtain ⟨amount, -, hnext⟩ := bind_eq_ok.mp hnext
    obtain ⟨total, -, hpure⟩ := bind_eq_ok.mp hnext
    cases hpure
    rw [ih h]
    simp

theorem payeeIds_of_resolvePayouts {plan : DistributionPlan} {result : DistributionResult}
    (h : engine.resolvePayouts plan = .ok result) :
    (result.payouts.map DistributionPayout.payeeId).Sublist
      (plan.recipients.map DistributionRecipient.payeeId) := by
  have hpayees : ∀ {recipients amountOf},
      engine.resolveWith plan recipients amountOf = .ok result →
        result.payouts.map DistributionPayout.payeeId =
          recipients.map DistributionRecipient.payeeId := by
    intro recipients amountOf h
    obtain ⟨sums, hsums, h⟩ := bind_eq_ok.mp h
    obtain ⟨remainder, -, h⟩ := bind_eq_ok.mp h
    cases h
    exact payeeIds_of_foldlM_addPayout hsums
  unfold resolvePayouts at h
  split at h
  · obtain ⟨poolAmount, -, h⟩ := bind_eq_ok.mp h
    rw [hpayees h]
  · rw [hpayees h]
  · obtain ⟨poolAmount, -, h⟩ := bind_eq_ok.mp h
    rw [hpayees h]
    exact List.filter_sublist.map _

/-- Payouts are only computed where zero can be parsed. -/
theorem exists_decimals_of_resolveWith {plan : DistributionPlan}
    {recipients : List DistributionRecipient}
    {amountOf : DistributionRecipient → Distributes Money} {result : DistributionResult}
    (h : engine.resolveWith plan recipients amountOf = .ok result) :
    ∃ d, engine.decimals = .ofNat d := by
  obtain ⟨sums, hsums, h⟩ := bind_eq_ok.mp h
  obtain ⟨remainder, hremainder, -⟩ := bind_eq_ok.mp h
  cases recipients with
  | nil =>
    cases hsums
    obtain ⟨-, -, -, y, -, hy, -⟩ := combineMoney_eq_ok.mp (mapError_eq_ok.mp hremainder)
    exact exists_ofNat_of_parseAmount_format hy
  | cons r rs =>
    rw [List.foldlM_cons] at hsums
    obtain ⟨next, hnext, -⟩ := bind_eq_ok.mp hsums
    obtain ⟨amount, -, hnext⟩ := bind_eq_ok.mp hnext
    obtain ⟨total, htotal, -⟩ := bind_eq_ok.mp hnext
    obtain ⟨-, -, x, -, hx, -⟩ := combineMoney_eq_ok.mp (mapError_eq_ok.mp htotal)
    exact exists_ofNat_of_parseAmount_format hx

/-- What the amounts of a result are. -/
structure Parsed (result : DistributionResult) : Prop where
  payouts : ∀ p ∈ result.payouts, ∃ n, parseAmount p.amount.amount p.amount.decimals = .ok n
  remainder : ∃ n, parseAmount result.remainder.amount result.remainder.decimals = .ok n

theorem parsed_of_resolveWith {plan : DistributionPlan} {recipients : List DistributionRecipient}
    {amountOf : DistributionRecipient → Distributes Money} {result : DistributionResult}
    (h : engine.resolveWith plan recipients amountOf = .ok result) : Parsed result := by
  obtain ⟨d, hd⟩ := exists_decimals_of_resolveWith h
  obtain ⟨sums, hsums, h⟩ := bind_eq_ok.mp h
  obtain ⟨remainder, hremainder, h⟩ := bind_eq_ok.mp h
  obtain ⟨-, hdecimals, x, y, -, -, rfl⟩ := combineMoney_eq_ok.mp (mapError_eq_ok.mp hremainder)
  cases h
  obtain ⟨htotal, hpayouts⟩ := foldlM_addPayout hsums
  refine ⟨fun p hp => (hpayouts p hp).resolve_left (List.not_mem_nil), x - y, ?_⟩
  have hpool : plan.pool.decimals = .ofNat d := hdecimals.trans (htotal.trans hd)
  dsimp only
  rw [hpool]
  exact parseAmount_formatAmount _ d

theorem parsed_of_resolvePayouts {plan : DistributionPlan} {result : DistributionResult}
    (h : engine.resolvePayouts plan = .ok result) : Parsed result := by
  unfold resolvePayouts at h
  split at h
  · obtain ⟨poolAmount, -, h⟩ := bind_eq_ok.mp h
    exact parsed_of_resolveWith h
  · exact parsed_of_resolveWith h
  · obtain ⟨poolAmount, -, h⟩ := bind_eq_ok.mp h
    exact parsed_of_resolveWith h

/-! ## Executions -/

/-- An approved plan whose payouts, zeros left out, pass the checks of `executeDistribution`. -/
structure Due (engine : DistributionEngine) (id : JsString) (plan : DistributionPlan)
    (payouts : List DistributionPayout) : Prop where
  get : engine.plans.get? id = some plan
  approved : plan.status = .approved
  resolved : ∃ result, engine.resolvePayouts plan = .ok result ∧
    payouts = result.payouts.filter fun p => p.amount.scaled ≠ 0
  payable : ∀ p ∈ payouts, p.amount.Valid ∧ 0 < p.amount.scaled

theorem assertWritable_eq_ok {payout : DistributionPayout} :
    assertWritable payout = .ok () ↔ payout.amount.Valid ∧ 0 < payout.amount.scaled := by
  rw [assertWritable, bind_unit_eq_ok, mapError_eq_ok, validateMoney_eq_ok]
  apply and_congr_right
  intro hvalid
  rw [isPositive_eq_ok hvalid]
  change throwIf (!decide (0 < payout.amount.scaled)) _ = .ok () ↔ _
  rw [throwIf_eq_ok]
  simp

theorem filterChecked_isWritten {payouts : List DistributionPayout}
    (h : ∀ p ∈ payouts, ∃ n, parseAmount p.amount.amount p.amount.decimals = .ok n) :
    filterChecked isWritten payouts = .ok (payouts.filter fun p => p.amount.scaled ≠ 0) := by
  apply filterChecked_eq_ok
  intro p hp
  obtain ⟨n, hn⟩ := h p hp
  rw [isWritten, isZero, scaled_of_parseAmount hn, hn]
  simp [Except.map, Except.mapError]

theorem planDistribution_eq_ok {clock : Clock} {p : Posting} {result : DistributionResult} :
    engine.planDistribution clock id = .ok (p, engine', result) ↔
      ∃ plan, engine.Due id plan result.payouts ∧ p = distributionPosting plan result.payouts ∧
        engine' = engine.setPlan id
          { plan with status := .executed, executedAt := some clock.executedAt } ∧
        ∃ full, engine.resolvePayouts plan = .ok full ∧
          result = { full with payouts := result.payouts } := by
  constructor
  · intro h
    obtain ⟨plan, hget, h⟩ := bind_eq_ok.mp h
    obtain ⟨hstatus, h⟩ := bind_unit_eq_ok.mp h
    obtain ⟨full, hfull, h⟩ := bind_eq_ok.mp h
    obtain ⟨writable, hwritable, h⟩ := bind_eq_ok.mp h
    obtain ⟨hchecks, h⟩ := bind_unit_eq_ok.mp h
    rw [throwIf_eq_ok, not_ne_iff] at hstatus
    rw [filterChecked_isWritten (parsed_of_resolvePayouts hfull).payouts] at hwritable
    cases hwritable
    cases h
    rw [forM_eq_ok] at hchecks
    exact ⟨plan, ⟨getPlan_eq_ok.mp hget, hstatus, ⟨full, hfull, rfl⟩, fun p hp =>
      assertWritable_eq_ok.mp (hchecks p hp)⟩, rfl, rfl, full, hfull, rfl⟩
  · rintro ⟨plan, ⟨hget, hstatus, ⟨full, hfull, hpayouts⟩, hpayable⟩, rfl, rfl, full', hfull', hresult⟩
    cases hfull.symm.trans hfull'
    have hchecks : forM result.payouts assertWritable = .ok () :=
      forM_eq_ok.mpr fun p hp => assertWritable_eq_ok.mpr (hpayable p hp)
    rw [planDistribution, getPlan_eq_ok.mpr hget]
    refine bind_unit_eq_ok.mpr ⟨throwIf_eq_ok.mpr (not_ne_iff.mpr hstatus), ?_⟩
    refine bind_eq_ok.mpr ⟨full, hfull, bind_eq_ok.mpr ⟨result.payouts, ?_, ?_⟩⟩
    · rw [filterChecked_isWritten (parsed_of_resolvePayouts hfull).payouts, hpayouts]
    · refine bind_unit_eq_ok.mpr ⟨hchecks, ?_⟩
      rw [← hresult]
      rfl

theorem covered_distributionPosting (plan : DistributionPlan) (payouts : List DistributionPayout) :
    (distributionPosting plan payouts).Covered := by
  intro t ht id hid
  obtain ⟨payout, hpayout, rfl⟩ := List.mem_map.mp ht
  rcases hid with rfl | rfl
  · exact ⟨_, .head _, rfl⟩
  · exact ⟨recipientAccount payout, .tail _ (List.mem_map_of_mem hpayout), rfl⟩

/-- The inspection of the remainder does not throw. -/
theorem outcome_executeDistribution (clock : Clock) (id : JsString)
    (s : DistributionEngine × Ledger) : (executeDistribution clock id).outcome s =
      (executePlan clock (planDistribution clock id)).outcome s := by
  rw [executeDistribution, outcome_bind, outcome_executePlan]
  rcases hplan : s.1.planDistribution clock id with e | ⟨p, engine, result⟩
  · rfl
  · dsimp only
    rcases p.post clock s.2 with e | ledger
    · rfl
    · obtain ⟨plan, -, -, -, full, hfull, hresult⟩ := planDistribution_eq_ok.mp hplan
      obtain ⟨n, hn⟩ := (parsed_of_resolvePayouts hfull).remainder
      have hzero : isZero result.remainder = .ok (decide (n = 0)) := by
        rw [hresult, isZero, hn]
        rfl
      dsimp only
      rw [hzero]
      rfl

end DistributionEngine

end Attestia.Treasury
