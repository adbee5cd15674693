import Attestia.Treasury.EntryIds
import Attestia.Treasury.Pool

/-!
# What the validation of a plan covers

A plan that is created has passed the checks of its shares. Its pool is only looked at where the
amounts are fixed, and the currency of a fixed amount is not looked at.
-/

namespace Attestia.Treasury

open Lib JsonNumber DecimalText Ledger Effect

/-- What a recipient that is paid is to receive. -/
def DistributionPlan.due (plan : DistributionPlan) (r : DistributionRecipient) : ℚ :=
  if plan.strategy = .fixed then r.declared else plan.share r

/-- The currency that a recipient names, or the one of the pool. -/
def DistributionPlan.currencyOf (plan : DistributionPlan) (r : DistributionRecipient) : JsString :=
  match plan.strategy, r.amount with
  | .fixed, some amount => amount.currency
  | _, _ => plan.pool.currency

/-- A payout is what its recipient is due: a fixed amount exactly, a part of the pool up to the
smallest unit. -/
structure Pays (plan : DistributionPlan) (r : DistributionRecipient) (p : DistributionPayout) :
    Prop where
  payee : p.payeeId = r.payeeId
  nonneg : 0 ≤ p.amount.value
  currency : p.amount.currency = plan.currencyOf r
  fixed : plan.strategy = .fixed → p.amount.value = plan.due r
  part : plan.strategy ≠ .fixed → |p.amount.value - plan.due r| * 10 ^ plan.pool.scale < 1

namespace DistributionEngine

/-- The payouts of a plan are computed, and its execution, once it is approved, writes them or is
refused for the id of an entry. -/
structure Suffices (engine : DistributionEngine) (id : JsString) (plan : DistributionPlan)
    (result : DistributionResult) : Prop where
  computes : engine.computeDistribution id = .ok result
  pays : List.Forall₂ (Pays plan) plan.paid result.payouts
  executes : ∃ approved p, engine.approvePlan id = .ok (approved, p) ∧ ∀ clock ledger,
    let execution := outcome (executeDistribution clock id) (approved, ledger)
    (∃ written executed, execution = (.ok written, executed,
        (distributionPosting p written.payouts).posted clock ledger) ∧
      written.payouts = result.payouts.filter fun p => p.amount.scaled ≠ 0) ∨
      Duplicate execution.1

/-- No recipient is due one smallest unit of the pool. -/
def PaysNothing (plan : DistributionPlan) : Prop :=
  ∀ r ∈ plan.paid, |plan.due r| * 10 ^ plan.pool.scale < 1

/-- What the validation leaves open. -/
structure Payable (engine : DistributionEngine) (plan : DistributionPlan) : Prop where
  decimals : ∃ d, engine.decimals = .ofNat d
  unit : plan.pool.InUnit engine.currency engine.decimals
  pool : ∃ n, parseAmount plan.pool.amount plan.pool.decimals = .ok n
  declared : plan.strategy = .fixed → ∀ r ∈ plan.recipients, ∀ amount, r.amount = some amount →
    amount.currency = engine.currency
  payouts : PaysNothing plan ∨ 0 ≤ plan.pool.scaled ∧ trim engine.currency ≠ []

variable {engine engine' : DistributionEngine} {plan : DistributionPlan} {id : JsString} {d : ℕ}

/-! ## Computing -/

theorem foldlM_addPayout_inUnit {amountOf : DistributionRecipient → Distributes Money}
    {recipients : List DistributionRecipient} {sums sums' : List DistributionPayout × Money}
    {currency : JsString} {decimals : Number} (hunit : sums.2.InUnit currency decimals)
    (h : recipients.foldlM (addPayout amountOf) sums = .ok sums') :
    sums'.2.InUnit currency decimals := by
  induction recipients generalizing sums with
  | nil =>
    cases h
    exact hunit
  | cons r rs ih =>
    rw [List.foldlM_cons] at h
    obtain ⟨next, hnext, h⟩ := bind_eq_ok.mp h
    obtain ⟨amount, -, hnext⟩ := bind_eq_ok.mp hnext
    obtain ⟨total, htotal, hpure⟩ := bind_eq_ok.mp hnext
    obtain ⟨-, -, x, y, -, -, rfl⟩ := combineMoney_eq_ok.mp (mapError_eq_ok.mp htotal)
    cases hpure
    apply ih _ h
    exact ⟨hunit.currency, hunit.decimals⟩

/-- The total is taken from the pool, so that they are in one unit. -/
theorem pool_of_resolveWith {recipients : List DistributionRecipient}
    {amountOf : DistributionRecipient → Distributes Money} {result : DistributionResult}
    (h : engine.resolveWith plan recipients amountOf = .ok result) :
    plan.pool.InUnit engine.currency engine.decimals ∧
      ∃ n, parseAmount plan.pool.amount plan.pool.decimals = .ok n := by
  obtain ⟨sums, hsums, h⟩ := bind_eq_ok.mp h
  obtain ⟨remainder, hremainder, -⟩ := bind_eq_ok.mp h
  obtain ⟨hcurrency, hdecimals, x, -, hx, -, -⟩ := combineMoney_eq_ok.mp (mapError_eq_ok.mp hremainder)
  have hunit := foldlM_addPayout_inUnit (@inUnit_moneyOf engine 0) hsums
  exact ⟨⟨hcurrency.trans hunit.currency, hdecimals.trans hunit.decimals⟩, x, hx⟩

theorem pool_of_resolvePayouts {result : DistributionResult}
    (h : engine.resolvePayouts plan = .ok result) :
    plan.pool.InUnit engine.currency engine.decimals ∧
      ∃ n, parseAmount plan.pool.amount plan.pool.decimals = .ok n := by
  unfold resolvePayouts at h
  split at h
  · obtain ⟨_, -, h⟩ := bind_eq_ok.mp h
    exact pool_of_resolveWith h
  · exact pool_of_resolveWith h
  · obtain ⟨_, -, h⟩ := bind_eq_ok.mp h
    exact pool_of_resolveWith h

/-! ## Parts -/

theorem tdiv_eq_zero_iff (n : ℤ) {basis : ℕ} (hbasis : 0 < basis) :
    n.tdiv basis = 0 ↔ |(n : ℚ) / basis| < 1 := by
  have hpos : (0 : ℚ) < basis := Nat.cast_pos.mpr hbasis
  rw [abs_div, abs_of_pos hpos, div_lt_one hpos, ← Int.natAbs_eq_zero, Int.natAbs_tdiv,
    Int.natAbs_natCast]
  change n.natAbs / basis = 0 ↔ _
  rw [Nat.div_eq_zero_iff, or_iff_right hbasis.ne', ← Int.cast_abs, Int.abs_eq_natAbs,
    Int.cast_natCast, Nat.cast_lt]

/-- The part of a recipient is zero where it is due less than the smallest unit. -/
theorem Accepts.part_eq_zero_iff (h : engine.Accepts plan) (hd : engine.decimals = .ofNat d)
    (hunit : plan.pool.InUnit engine.currency engine.decimals) {r : DistributionRecipient}
    (hr : r ∈ plan.paid) :
    engine.part plan r = 0 ↔ |plan.due r| * 10 ^ plan.pool.scale < 1 := by
  have hscale : plan.pool.scale = d := (hd ▸ hunit : plan.pool.InUnit engine.currency _).scale
  have hpow : (0 : ℚ) < 10 ^ d := by positivity
  have hscaled : ∀ q : ℚ, |q| * 10 ^ d = |q * 10 ^ d| := by
    intro q
    rw [abs_mul, abs_of_pos hpow]
  rw [part, DistributionPlan.due, hscale, hscaled]
  by_cases hfixed : plan.strategy = .fixed
  · have hmem := mem_recipients_of_mem_paid hr
    obtain ⟨hvalue, -⟩ := value_fixedAmountOf hd (h.assertFixedShare hfixed hmem)
      ((h.coversFixed hfixed).amounts r hmem)
    rw [if_pos hfixed, if_pos hfixed, ← hvalue, div_mul_cancel₀ _ hpow.ne', ← Int.cast_abs,
      ← Int.abs_lt_one_iff]
    exact_mod_cast Iff.rfl
  · obtain ⟨k, hk, -⟩ := h.exists_points hfixed hr
    obtain ⟨basis, hbasis, -⟩ := h.exists_basis hfixed
    have hshare : plan.share r * 10 ^ d = ((plan.pool.scaled * k : ℤ) : ℚ) / basis := by
      rw [DistributionPlan.share, Money.value, hscale, hk, hbasis, Int.cast_mul, Int.cast_natCast]
      field_simp
    rw [if_neg hfixed, if_neg hfixed, hshare, hbasis, hk, Rat.num_natCast, Rat.num_natCast]
    obtain hzero | hpos := Nat.eq_zero_or_pos basis
    · rw [hzero]
      simp
    · rw [if_pos (Nat.cast_pos.mpr hpos)]
      exact tdiv_eq_zero_iff _ hpos

theorem Accepts.part_nonneg (h : engine.Accepts plan) (hp : engine.Payable plan)
    {r : DistributionRecipient} (hr : r ∈ plan.paid) : 0 ≤ engine.part plan r := by
  obtain ⟨d, hd⟩ := hp.decimals
  have hmem := mem_recipients_of_mem_paid hr
  rcases hp.payouts with hnothing | ⟨hpos, -⟩
  · exact ((h.part_eq_zero_iff hd hp.unit hr).mpr (hnothing r hr)).ge
  · by_cases hfixed : plan.strategy = .fixed
    · rw [part, if_pos hfixed]
      exact (value_fixedAmountOf hd (h.assertFixedShare hfixed hmem)
        ((h.coversFixed hfixed).amounts r hmem)).2
    · exact (h.part_bounds hfixed hpos hr).2.2

/-- The payouts of a plan whose amounts can be computed. -/
theorem Accepts.pays_resolved (h : engine.Accepts plan) (hp : engine.Payable plan) :
    List.Forall₂ (Pays plan) plan.paid (engine.resolved plan).payouts := by
  obtain ⟨d, hd⟩ := hp.decimals
  have hpow : (0 : ℚ) < 10 ^ d := by positivity
  have hscale : plan.pool.scale = d := (hd ▸ hp.unit : plan.pool.InUnit engine.currency _).scale
  rw [resolved, List.forall₂_map_right_iff, List.forall₂_same]
  intro r hr
  have hmem := mem_recipients_of_mem_paid hr
  have hvalue := value_moneyOf hd (engine.part plan r)
  have hpool : plan.pool.value = plan.pool.scaled / 10 ^ d := by rw [Money.value, hscale]
  refine ⟨rfl, ?_, ?_, fun hfixed => ?_, fun hfixed => ?_⟩
  · dsimp only
    rw [hvalue]
    exact div_nonneg (Int.cast_nonneg (h.part_nonneg hp hr)) hpow.le
  · change engine.currency = _
    rw [DistributionPlan.currencyOf]
    split
    · rename_i amount hstrategy hamount
      exact (hp.declared hstrategy r hmem amount hamount).symm
    · exact hp.unit.currency.symm
  · dsimp only
    rw [hvalue, part, if_pos hfixed, DistributionPlan.due, if_pos hfixed]
    exact (value_fixedAmountOf hd (h.assertFixedShare hfixed hmem)
      ((h.coversFixed hfixed).amounts r hmem)).1
  · dsimp only
    rw [hvalue, hscale]
    rcases hp.payouts with hnothing | ⟨hpos, -⟩
    · rw [(h.part_eq_zero_iff hd hp.unit hr).mpr (hnothing r hr), Int.cast_zero, zero_div, zero_sub,
        abs_neg, ← hscale]
      exact hnothing r hr
    · -- the part is rounded down
      obtain ⟨hlow, hhigh, -⟩ := h.part_bounds hfixed hpos hr
      have hdue : plan.due r = exactPart plan r / 10 ^ d := by
        rw [DistributionPlan.due, if_neg hfixed, DistributionPlan.share, exactPart, hpool]
        ring
      rw [hdue, ← sub_div, abs_div, abs_of_pos hpow, div_mul_cancel₀ _ hpow.ne', abs_sub_comm,
        abs_of_nonneg (sub_nonneg.mpr hlow)]
      linarith

/-! ## Executing -/

/-- An execution is written, or refused for the id of an entry, where its payouts pass. -/
theorem executes_iff {clock : Clock} {ledger : Ledger} :
    ((∃ result, (outcome (executeDistribution clock id) (engine, ledger)).1 = .ok result) ∨
        Duplicate (outcome (executeDistribution clock id) (engine, ledger)).1) ↔
      ∃ plan payouts, engine.Due id plan payouts := by
  rw [outcome_executeDistribution]
  have hdue := exists_planDistribution_iff clock id engine
  constructor
  · intro h
    rcases hplan : engine.planDistribution clock id with e | ⟨p, m, a⟩
    · rw [outcome_executePlan, hplan] at h
      rcases h with ⟨result, h⟩ | ⟨message, h⟩
      · cases h
      · cases h
        exact absurd rfl (throws_planDistribution clock id engine _ hplan)
    · obtain ⟨i, hi, -⟩ := (hdue p).mp ⟨m, a, hplan⟩
      exact ⟨i.1, i.2, hi⟩
  · rintro ⟨plan, payouts, hi⟩
    by_cases hids : (distributionPosting plan payouts).IdsFit ledger
    · obtain ⟨m, a, hplan⟩ := (hdue _).mpr ⟨(plan, payouts), hi, rfl⟩
      have hfits : (distributionPosting plan payouts).Fits ledger := by
        refine ⟨hids.1, hids.2, fun t ht => ?_⟩
        obtain ⟨payout, hpayout, rfl⟩ := List.mem_map.mp ht
        exact hi.payable payout hpayout
      have hpost : (distributionPosting plan payouts).post clock ledger =
          .ok ((distributionPosting plan payouts).posted clock ledger) :=
        (Posting.post_eq_ok_iff (covered_distributionPosting plan payouts)).mpr
          ⟨Posting.writable_iff_fits.mpr hfits, rfl⟩
      refine .inl ⟨a, ?_⟩
      rw [outcome_executePlan]
      dsimp only
      rw [hplan]
      dsimp only
      rw [hpost]
    · exact .inr ((duplicate_executePlan_iff (throws_planDistribution clock id engine) hdue).mpr
        ⟨(plan, payouts), hi, hids⟩)

/-- What an execution that returns has written. -/
theorem written_of_ok {clock : Clock} {ledger : Ledger} {written : DistributionResult}
    (h : (outcome (executeDistribution clock id) (engine, ledger)).1 = .ok written) :
    ∃ plan executed, engine.Due id plan written.payouts ∧
      outcome (executeDistribution clock id) (engine, ledger) =
        (.ok written, executed, (distributionPosting plan written.payouts).posted clock ledger) := by
  rw [outcome_executeDistribution, outcome_executePlan] at h ⊢
  dsimp only at h ⊢
  rcases hplan : engine.planDistribution clock id with e | ⟨p, m, a⟩
  · rw [hplan] at h
    cases h
  · rw [hplan] at h
    dsimp only at h ⊢
    rcases hpost : p.post clock ledger with e | ledger'
    · rw [hpost] at h
      cases h
    · rw [hpost] at h
      cases h
      obtain ⟨plan, hdue, rfl, -⟩ := planDistribution_eq_ok.mp hplan
      obtain ⟨-, rfl⟩ := (Posting.post_eq_ok_iff (covered_distributionPosting _ _)).mp hpost
      exact ⟨plan, m, hdue, rfl⟩

/-! ## Plans that are created -/

section created

variable {name createdAt : JsString} {strategy : DistributionStrategy} {pool : Money}
  {recipients : List DistributionRecipient}

/-- The plan of an id that is approved. -/
def approved (engine : DistributionEngine) (id : JsString) (plan : DistributionPlan) :
    DistributionEngine :=
  engine.setPlan id { plan with status := .approved }

theorem approvePlan_of_get? (hget : engine.plans.get? id = some plan)
    (hstatus : plan.status = .draft) : engine.approvePlan id =
      .ok (engine.approved id plan, { plan with status := .approved }) := by
  rw [approvePlan, getPlan_eq_ok.mpr hget]
  refine bind_unit_eq_ok.mpr ⟨?_, rfl⟩
  rw [throwIf_eq_ok, not_ne_iff]
  exact hstatus

theorem resolvePayouts_approved :
    (engine.approved id plan).resolvePayouts { plan with status := .approved } =
      engine.resolvePayouts plan := by
  unfold resolvePayouts
  cases plan.strategy <;> rfl

/-- What is due under the id of a plan that has been approved. -/
theorem due_approved_iff {other : DistributionPlan} {payouts : List DistributionPayout} :
    (engine.approved id plan).Due id other payouts ↔ other = { plan with status := .approved } ∧
      ∃ result, engine.resolvePayouts plan = .ok result ∧
        payouts = result.payouts.filter (fun p => p.amount.scaled ≠ 0) ∧
          ∀ p ∈ payouts, p.amount.Valid ∧ 0 < p.amount.scaled := by
  have hget : (engine.approved id plan).plans.get? id = some { plan with status := .approved } := by
    rw [approved, setPlan, JsMap.get?_set, if_pos rfl]
  constructor
  · intro h
    cases hget.symm.trans h.get
    obtain ⟨result, hresult, hpayouts⟩ := h.resolved
    rw [resolvePayouts_approved] at hresult
    exact ⟨rfl, result, hresult, hpayouts, h.payable⟩
  · rintro ⟨rfl, result, hresult, hpayouts, hpayable⟩
    refine ⟨hget, rfl, ⟨result, ?_, hpayouts⟩, hpayable⟩
    rw [resolvePayouts_approved]
    exact hresult

/-- The payouts of a plan that is payable pass the checks of its execution. -/
theorem Accepts.payable_resolved (h : engine.Accepts plan) (hp : engine.Payable plan)
    {p : DistributionPayout} (hmem : p ∈ (engine.resolved plan).payouts)
    (hne : p.amount.scaled ≠ 0) : p.amount.Valid ∧ 0 < p.amount.scaled := by
  obtain ⟨d, hd⟩ := hp.decimals
  obtain ⟨r, hr, rfl⟩ := List.mem_map.mp hmem
  dsimp only at hne ⊢
  have hparse := parseAmount_moneyOf hd (engine.part plan r)
  rw [scaled_moneyOf hd] at hne ⊢
  have hcurrency : trim engine.currency ≠ [] := by
    rcases hp.payouts with hnothing | ⟨-, hcurrency⟩
    · exact absurd ((h.part_eq_zero_iff hd hp.unit hr).mpr (hnothing r hr)) hne
    · exact hcurrency
  refine ⟨⟨hcurrency, ?_, ?_⟩, lt_of_le_of_ne (h.part_nonneg hp hr) hne.symm⟩
  · change engine.decimals = .ofNat (Money.scale ⟨_, _, engine.decimals⟩)
    rw [hd, scale_ofNat]
  · rw [scaled_moneyOf hd, hparse]

/-- A plan that is payable does what its recipients are promised. -/
theorem Accepts.suffices_resolved (h : engine.Accepts plan) (hp : engine.Payable plan)
    (hget : engine.plans.get? id = some plan) (hstatus : plan.status = .draft) :
    engine.Suffices id plan (engine.resolved plan) := by
  obtain ⟨d, hd⟩ := hp.decimals
  obtain ⟨n, hpool⟩ := hp.pool
  rw [← scaled_of_parseAmount hpool] at hpool
  have hresolve := resolvePayouts_eq h hd hp.unit hpool
  have hdue : (engine.approved id plan).Due id { plan with status := .approved }
      ((engine.resolved plan).payouts.filter fun p => p.amount.scaled ≠ 0) := by
    refine due_approved_iff.mpr ⟨rfl, _, hresolve, rfl, fun p hmem => ?_⟩
    obtain ⟨hmem, hne⟩ := List.mem_filter.mp hmem
    exact h.payable_resolved hp hmem (of_decide_eq_true hne)
  refine ⟨?_, h.pays_resolved hp, engine.approved id plan, _, approvePlan_of_get? hget hstatus,
    fun clock ledger => ?_⟩
  · rw [computeDistribution, getPlan_eq_ok.mpr hget]
    exact hresolve
  · dsimp only
    rcases (@executes_iff _ id clock ledger).mpr ⟨_, _, hdue⟩ with
      ⟨written, hwritten⟩ | hduplicate
    · obtain ⟨other, executed, hother, houtcome⟩ := written_of_ok hwritten
      obtain ⟨rfl, result, hresult, hpayouts, -⟩ := due_approved_iff.mp hother
      cases hresolve.symm.trans hresult
      exact .inl ⟨written, executed, houtcome, hpayouts⟩
    · exact .inr hduplicate

/-- What a plan that does so has. -/
theorem Accepts.payable_of_suffices (h : engine.Accepts plan) {result : DistributionResult}
    (hget : engine.plans.get? id = some plan) (hstatus : plan.status = .draft)
    (hs : engine.Suffices id plan result) : engine.Payable plan := by
  have hresolve := hs.computes
  rw [computeDistribution, getPlan_eq_ok.mpr hget] at hresolve
  change engine.resolvePayouts plan = .ok result at hresolve
  obtain ⟨d, hd⟩ := exists_decimals_of_resolvePayouts hresolve
  obtain ⟨hunit, n, hpool⟩ := pool_of_resolvePayouts hresolve
  have hscaled := hpool
  rw [← scaled_of_parseAmount hpool] at hscaled
  rw [resolvePayouts_eq h hd hunit hscaled] at hresolve
  cases hresolve
  have hpays := hs.pays
  rw [resolved, List.forall₂_map_right_iff, List.forall₂_same] at hpays
  refine ⟨⟨d, hd⟩, hunit, ⟨n, hpool⟩, fun hfixed r hr amount hamount => ?_, ?_⟩
  · have hpaid : r ∈ plan.paid := by
      rw [DistributionPlan.paid, hfixed]
      exact hr
    have hcurrency := (hpays r hpaid).currency
    rw [DistributionPlan.currencyOf, hfixed, hamount] at hcurrency
    exact hcurrency.symm
  · rw [or_iff_not_imp_left]
    intro hsomething
    obtain ⟨r, hr, hne⟩ : ∃ r ∈ plan.paid, engine.part plan r ≠ 0 := by
      by_contra hall
      apply hsomething
      intro r hr
      apply (h.part_eq_zero_iff hd hunit hr).mp
      by_contra hne
      exact hall ⟨r, hr, hne⟩
    have hpart : 0 < engine.part plan r := by
      have hnonneg := (hpays r hr).nonneg
      dsimp only at hnonneg
      rw [value_moneyOf hd, le_div_iff₀ (by positivity), zero_mul] at hnonneg
      exact lt_of_le_of_ne (by exact_mod_cast hnonneg) hne.symm
    constructor
    · by_cases hfixed : plan.strategy = .fixed
      · have hcovers := h.coversFixed hfixed
        refine le_trans (List.sum_nonneg ?_) hcovers.total
        intro z hz
        obtain ⟨q, hq, rfl⟩ := List.mem_map.mp hz
        exact (value_fixedAmountOf hd (h.assertFixedShare hfixed hq) (hcovers.amounts q hq)).2
      · obtain ⟨k, hk, -⟩ := h.exists_points hfixed hr
        obtain ⟨basis, hbasis, -⟩ := h.exists_basis hfixed
        rw [part, if_neg hfixed, hbasis, hk, Rat.num_natCast, Rat.num_natCast] at hpart
        by_contra hneg
        rw [not_le] at hneg
        split at hpart
        · have hle : 0 ≤ (-(plan.pool.scaled * k)).tdiv basis := by
            apply Int.tdiv_nonneg _ (Int.natCast_nonneg basis)
            rw [← neg_mul]
            exact mul_nonneg (by omega) (Int.natCast_nonneg k)
          rw [Int.neg_tdiv] at hle
          omega
        · exact lt_irrefl _ hpart
    · obtain ⟨approved, p, happrove, hexecutes⟩ := hs.executes
      rw [approvePlan_of_get? hget hstatus] at happrove
      cases happrove
      obtain ⟨other, payouts, hdue⟩ : ∃ other payouts,
          (engine.approved id plan).Due id other payouts := by
        apply executes_iff.mp
        rcases hexecutes ⟨fun _ => [], [], []⟩ .new with ⟨written, executed, houtcome, -⟩ | hduplicate
        · exact .inl ⟨written, congrArg Prod.fst houtcome⟩
        · exact .inr hduplicate
      obtain ⟨-, result, hresult, rfl, hpayable⟩ := due_approved_iff.mp hdue
      rw [resolvePayouts_eq h hd hunit hscaled] at hresult
      cases hresult
      refine (hpayable ⟨r.payeeId, engine.moneyOf (engine.part plan r)⟩ ?_).1.currency
      apply List.mem_filter.mpr
      refine ⟨List.mem_map_of_mem hr, ?_⟩
      dsimp only
      rw [scaled_moneyOf hd]
      exact decide_eq_true hne

theorem get?_of_createPlan
    (h : engine.createPlan id name strategy pool recipients createdAt = .ok (engine', plan)) :
    engine'.plans.get? id = some plan ∧ plan.status = .draft := by
  obtain ⟨hplan, rfl, -⟩ := accepts_of_createPlan h
  rw [setPlan, JsMap.get?_set, if_pos rfl, hplan]
  exact ⟨rfl, rfl⟩

theorem payable_of_createPlan
    (h : engine.createPlan id name strategy pool recipients createdAt = .ok (engine', plan))
    {result : DistributionResult} (hs : engine'.Suffices id plan result) : engine.Payable plan := by
  obtain ⟨hget, hstatus⟩ := get?_of_createPlan h
  obtain ⟨-, rfl, haccepts⟩ := accepts_of_createPlan h
  have haccepts' : (engine.setPlan id plan).Accepts plan :=
    ⟨haccepts.recipients, haccepts.shares, haccepts.total⟩
  have hp := haccepts'.payable_of_suffices hget hstatus hs
  exact ⟨hp.decimals, hp.unit, hp.pool, hp.declared, hp.payouts⟩

/-- The validation of a plan is sufficient exactly where its pool is an amount in the unit of the
engine, its recipients name no other currency than that of the engine, and, where anything is paid
at all, the pool is not negative and the currency not blank. -/
theorem createPlan_suffices_iff
    (h : engine.createPlan id name strategy pool recipients createdAt = .ok (engine', plan)) :
    (∃ result, engine'.Suffices id plan result) ↔ engine.Payable plan := by
  constructor
  · rintro ⟨result, hs⟩
    exact payable_of_createPlan h hs
  · intro hp
    obtain ⟨hget, hstatus⟩ := get?_of_createPlan h
    obtain ⟨-, rfl, haccepts⟩ := accepts_of_createPlan h
    have haccepts' : (engine.setPlan id plan).Accepts plan :=
      ⟨haccepts.recipients, haccepts.shares, haccepts.total⟩
    have hp' : (engine.setPlan id plan).Payable plan :=
      ⟨hp.decimals, hp.unit, hp.pool, hp.declared, hp.payouts⟩
    exact ⟨_, haccepts'.suffices_resolved hp' hget hstatus⟩

end created

end DistributionEngine

/-! ### A debt that is shared out -/

def owedDollars : Money := ⟨js "-100.00", js "USD", .ofNat 2⟩

theorem not_suffices_owedDollars : ∃ engine plan,
    dollarEngine.createPlan (js "p") (js "Pool") .proportional owedDollars thirds (js "t") =
      .ok (engine, plan) ∧ ∀ result, ¬ engine.Suffices (js "p") plan result := by
  obtain ⟨⟨engine, plan⟩, hcreate⟩ : ∃ r, dollarEngine.createPlan (js "p") (js "Pool")
      .proportional owedDollars thirds (js "t") = .ok r :=
    exists_eq_ok_of_isOk (by decide +kernel)
  refine ⟨engine, plan, hcreate, fun result hs => ?_⟩
  obtain ⟨rfl, -, -⟩ := DistributionEngine.accepts_of_createPlan hcreate
  -- the first third is due a negative amount
  rcases (DistributionEngine.payable_of_createPlan hcreate hs).payouts with hnothing | ⟨hpos, -⟩
  · refine absurd (hnothing ⟨js "a", some (.ofNat 3333), none, none⟩ (.head _)) ?_
    decide +kernel
  · revert hpos
    decide +kernel

/-- The thirds of a hundred dollars are paid. -/
theorem createPlan_suffices_thirds : ∃ engine plan result,
    dollarEngine.createPlan (js "p") (js "Pool") .proportional hundredDollars thirds (js "t") =
      .ok (engine, plan) ∧ engine.Suffices (js "p") plan result := by
  obtain ⟨⟨engine, plan⟩, hcreate⟩ : ∃ r, dollarEngine.createPlan (js "p") (js "Pool")
      .proportional hundredDollars thirds (js "t") = .ok r :=
    exists_eq_ok_of_isOk (by decide +kernel)
  have hpool : parseAmount (js "100.00") (.ofNat 2) = .ok 10000 := by decide +kernel
  have hpayable : dollarEngine.Payable plan := by
    obtain ⟨rfl, -, -⟩ := DistributionEngine.accepts_of_createPlan hcreate
    refine ⟨⟨2, rfl⟩, ⟨rfl, rfl⟩, ⟨10000, hpool⟩, ?_, .inr ⟨?_, ?_⟩⟩
    · intro hfixed
      cases hfixed
    · rw [scaled_of_parseAmount hpool]
      decide
    · decide +kernel
  obtain ⟨result, hs⟩ := (DistributionEngine.createPlan_suffices_iff hcreate).mpr hpayable
  exact ⟨engine, plan, result, hcreate, hs⟩

end Attestia.Treasury
