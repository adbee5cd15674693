import Attestia.Ledger.AmountText
import Attestia.Treasury.Distribution

/-!
# What a plan pays

Where the pool of a plan is in the unit of the engine, its payouts are computed from integers: a
part of the pool for each recipient, rounded towards zero, or the amount that is fixed for it.
-/

namespace Attestia.Treasury

open Lib JsonNumber Ledger Effect

/-- The recipients that the strategy of a plan pays. -/
def DistributionPlan.paid (plan : DistributionPlan) : List DistributionRecipient :=
  match plan.strategy with
  | .milestone => plan.recipients.filter fun r => r.milestoneMet = some true
  | _ => plan.recipients

/-- What the points of the recipients are parts of. -/
def DistributionPlan.basis (plan : DistributionPlan) : ℚ :=
  match plan.strategy with
  | .milestone => totalShares plan.paid
  | _ => 10000

/-- What a recipient of a fixed amount is to be paid. -/
def DistributionRecipient.declared (r : DistributionRecipient) : ℚ :=
  match r.amount with
  | some amount => amount.value
  | none => r.points

/-- What the shares of a recipient are worth exactly. -/
def DistributionPlan.share (plan : DistributionPlan) (r : DistributionRecipient) : ℚ :=
  plan.pool.value * r.points / plan.basis

namespace DistributionEngine

variable (engine : DistributionEngine) (plan : DistributionPlan)

/-- What a recipient is paid, in the smallest unit. -/
def part (r : DistributionRecipient) : ℤ :=
  if plan.strategy = .fixed then (engine.fixedAmountOf r).scaled
  else if 0 < plan.basis then (plan.pool.scaled * r.points.num).tdiv plan.basis.num
  else 0

def parts : ℤ := (plan.paid.map (engine.part plan)).sum

def resolved : DistributionResult where
  planId := plan.id
  payouts := plan.paid.map fun r => ⟨r.payeeId, engine.moneyOf (engine.part plan r)⟩
  totalDistributed := engine.moneyOf (engine.parts plan)
  remainder := engine.moneyOf (plan.pool.scaled - engine.parts plan)

/-- What a plan has passed when it is created. -/
structure Accepts (engine : DistributionEngine) (plan : DistributionPlan) : Prop where
  recipients : plan.recipients ≠ []
  shares : ∀ r ∈ plan.recipients, assertShare plan.strategy r = .ok ()
  total : engine.assertTotal plan.strategy plan.pool plan.recipients = .ok ()

variable {engine plan} {engine' : DistributionEngine} {id : JsString} {d : ℕ}

theorem accepts_of_createPlan {name : JsString} {strategy : DistributionStrategy} {pool : Money}
    {recipients : List DistributionRecipient} {createdAt : JsString}
    (h : engine.createPlan id name strategy pool recipients createdAt = .ok (engine', plan)) :
    plan = ⟨id, name, strategy, pool, recipients, .draft, createdAt, none⟩ ∧
      engine' = engine.setPlan id plan ∧ engine.Accepts plan := by
  obtain ⟨-, h⟩ := bind_unit_eq_ok.mp h
  obtain ⟨hrecipients, h⟩ := bind_unit_eq_ok.mp h
  obtain ⟨-, h⟩ := bind_unit_eq_ok.mp h
  obtain ⟨hshares, h⟩ := bind_unit_eq_ok.mp h
  obtain ⟨htotal, h⟩ := bind_unit_eq_ok.mp h
  rw [throwIf_eq_ok] at hrecipients
  cases h
  exact ⟨rfl, rfl, hrecipients, forM_eq_ok.mp hshares, htotal⟩

/-! ## Shares -/

theorem exists_points_of_isNaturalShare {r : DistributionRecipient}
    (h : isNaturalShare r.share = true) : ∃ k : ℕ, r.points = k := by
  cases hshare : r.share with
  | none =>
    rw [hshare] at h
    cases h
  | some n =>
    rw [hshare] at h
    simp only [isNaturalShare, Bool.and_eq_true, decide_eq_true_eq, Bool.not_eq_true',
      decide_eq_false_iff_not, not_lt] at h
    obtain ⟨k, hk⟩ := Int.eq_ofNat_of_zero_le (Rat.num_nonneg.mpr h.2)
    refine ⟨k, ?_⟩
    rw [DistributionRecipient.points, hshare]
    change n.val = k
    rw [← Rat.num_div_den n.val, h.1, hk]
    simp

/-- A share that passes is a number of basis points. -/
theorem exists_points_of_assertBasisPoints {r : DistributionRecipient}
    (h : assertBasisPoints r = .ok ()) : ∃ k : ℕ, r.points = k ∧ k ≤ 10000 := by
  obtain ⟨hnatural, h⟩ := bind_unit_eq_ok.mp h
  rw [throwIf_eq_ok, Bool.not_eq_true', Bool.not_eq_false] at hnatural
  rw [throwIf_eq_ok, not_lt] at h
  obtain ⟨k, hk⟩ := exists_points_of_isNaturalShare hnatural
  refine ⟨k, hk, ?_⟩
  rw [hk] at h
  exact_mod_cast h

theorem totalShares_natCast {rs : List DistributionRecipient}
    (h : ∀ r ∈ rs, ∃ k : ℕ, r.points = k) : ∃ k : ℕ, totalShares rs = k := by
  induction rs with
  | nil => exact ⟨0, rfl⟩
  | cons r rs ih =>
    obtain ⟨a, ha⟩ := h r (.head _)
    obtain ⟨b, hb⟩ := ih fun q hq => h q (.tail _ hq)
    refine ⟨a + b, ?_⟩
    rw [totalShares, List.map_cons, List.sum_cons, ha]
    change (a : ℚ) + totalShares rs = _
    rw [hb, Nat.cast_add]

theorem bigInt_natCast (k : ℕ) : bigInt (k : ℚ) = .ok (k : ℤ) := by
  rw [bigInt, if_pos (Rat.den_natCast k), Rat.num_natCast]

theorem mem_recipients_of_mem_paid {r : DistributionRecipient} (h : r ∈ plan.paid) :
    r ∈ plan.recipients := by
  unfold DistributionPlan.paid at h
  split at h
  · exact List.mem_of_mem_filter h
  · exact h

theorem Accepts.exists_points (h : engine.Accepts plan) (hfixed : plan.strategy ≠ .fixed)
    {r : DistributionRecipient} (hr : r ∈ plan.paid) : ∃ k : ℕ, r.points = k ∧ k ≤ 10000 := by
  have hshare := h.shares r (mem_recipients_of_mem_paid hr)
  rw [assertShare, if_neg hfixed] at hshare
  exact exists_points_of_assertBasisPoints hshare

/-- The basis is a natural number, and it is not less than the shares together. -/
theorem Accepts.exists_basis (h : engine.Accepts plan) (hfixed : plan.strategy ≠ .fixed) :
    ∃ k : ℕ, plan.basis = k ∧ totalShares plan.paid ≤ k := by
  obtain ⟨k, hk⟩ := totalShares_natCast fun r hr => (h.exists_points hfixed hr).imp fun _ => And.left
  cases hstrategy : plan.strategy with
  | fixed => exact absurd hstrategy hfixed
  | proportional =>
    have htotal := h.total
    rw [hstrategy] at htotal
    change throwIf _ _ = .ok () at htotal
    rw [throwIf_eq_ok, not_lt] at htotal
    refine ⟨10000, ?_, ?_⟩
    · rw [DistributionPlan.basis, hstrategy]
      rfl
    · rw [DistributionPlan.paid, hstrategy]
      exact_mod_cast htotal
  | milestone =>
    refine ⟨k, ?_, hk.le⟩
    rw [← hk, DistributionPlan.basis, hstrategy]

/-! ## Resolving -/

theorem zero_eq_moneyOf : engine.zero = engine.moneyOf 0 := rfl

theorem parseAmount_moneyOf (hd : engine.decimals = .ofNat d) (n : ℤ) :
    parseAmount (engine.moneyOf n).amount (engine.moneyOf n).decimals = .ok n := by
  rw [moneyOf, hd]
  exact parseAmount_formatAmount n d

theorem scaled_moneyOf (hd : engine.decimals = .ofNat d) (n : ℤ) : (engine.moneyOf n).scaled = n :=
  scaled_of_parseAmount (parseAmount_moneyOf hd n)

theorem value_moneyOf (hd : engine.decimals = .ofNat d) (n : ℤ) :
    (engine.moneyOf n).value = n / 10 ^ d := by
  rw [moneyOf, hd]
  exact value_formatAmount n engine.currency d

/-- An amount in the unit of the engine is added as an integer. -/
theorem combineMoney_moneyOf {op : ℤ → ℤ → ℤ} {a b : Money}
    (ha : a.InUnit engine.currency engine.decimals)
    (hb : b.InUnit engine.currency engine.decimals) {x y : ℤ}
    (hx : parseAmount a.amount a.decimals = .ok x) (hy : parseAmount b.amount b.decimals = .ok y) :
    combineMoney op a b = .ok (engine.moneyOf (op x y)) := by
  refine combineMoney_eq_ok.mpr ⟨?_, ?_, x, y, hx, hy, ?_⟩
  · rw [ha.currency, hb.currency]
  · rw [ha.decimals, hb.decimals]
  · rw [moneyOf, ha.decimals, ha.currency]

theorem inUnit_moneyOf (n : ℤ) : (engine.moneyOf n).InUnit engine.currency engine.decimals :=
  ⟨rfl, rfl⟩

theorem foldlM_addPayout_moneyOf (hd : engine.decimals = .ofNat d)
    {amountOf : DistributionRecipient → Distributes Money} {part : DistributionRecipient → ℤ}
    {rs : List DistributionRecipient} (h : ∀ r ∈ rs, amountOf r = .ok (engine.moneyOf (part r)))
    (payouts : List DistributionPayout) (sum : ℤ) :
    rs.foldlM (addPayout amountOf) (payouts, engine.moneyOf sum) =
      .ok (payouts ++ rs.map fun r => ⟨r.payeeId, engine.moneyOf (part r)⟩,
        engine.moneyOf (sum + (rs.map part).sum)) := by
  induction rs generalizing payouts sum with
  | nil => simp [pure, Except.pure]
  | cons r rs ih =>
    have hadd : addMoney (engine.moneyOf sum) (engine.moneyOf (part r)) =
        .ok (engine.moneyOf (sum + part r)) :=
      combineMoney_moneyOf (inUnit_moneyOf _) (inUnit_moneyOf _) (parseAmount_moneyOf hd _)
        (parseAmount_moneyOf hd _)
    have hstep : addPayout amountOf (payouts, engine.moneyOf sum) r =
        .ok (payouts ++ [⟨r.payeeId, engine.moneyOf (part r)⟩], engine.moneyOf (sum + part r)) := by
      rw [addPayout, h r (.head _)]
      dsimp only [bind, Except.bind]
      rw [hadd]
      rfl
    rw [List.foldlM_cons, hstep]
    change rs.foldlM (addPayout amountOf) _ = _
    rw [ih fun q hq => h q (.tail _ hq)]
    simp [add_assoc]

/-- The loop over the recipients, where every amount is a part of the pool. -/
theorem resolveWith_eq (hd : engine.decimals = .ofNat d)
    (hunit : plan.pool.InUnit engine.currency engine.decimals)
    (hpool : parseAmount plan.pool.amount plan.pool.decimals = .ok plan.pool.scaled)
    {amountOf : DistributionRecipient → Distributes Money}
    (h : ∀ r ∈ plan.paid, amountOf r = .ok (engine.moneyOf (engine.part plan r))) :
    engine.resolveWith plan plan.paid amountOf = .ok (engine.resolved plan) := by
  have hsubtract : subtractMoney plan.pool (engine.moneyOf (engine.parts plan)) =
      .ok (engine.moneyOf (plan.pool.scaled - engine.parts plan)) :=
    combineMoney_moneyOf hunit (inUnit_moneyOf _) hpool (parseAmount_moneyOf hd _)
  have hloop := foldlM_addPayout_moneyOf hd h [] 0
  rw [zero_add, List.nil_append] at hloop
  exact bind_eq_ok.mpr ⟨_, hloop, bind_eq_ok.mpr ⟨_, mapError_eq_ok.mpr hsubtract, rfl⟩⟩

/-- The amounts of a plan with fixed amounts are parsed, and the pool covers them. -/
structure CoversFixed (engine : DistributionEngine) (plan : DistributionPlan) : Prop where
  decimals : ∃ d, engine.decimals = .ofNat d
  unit : plan.pool.InUnit engine.currency engine.decimals
  pool : parseAmount plan.pool.amount plan.pool.decimals = .ok plan.pool.scaled
  amounts : ∀ r ∈ plan.recipients, parseAmount (engine.fixedAmountOf r).amount engine.decimals =
    .ok (engine.fixedAmountOf r).scaled
  total : (plan.recipients.map fun r => (engine.fixedAmountOf r).scaled).sum ≤ plan.pool.scaled

theorem inUnit_fixedAmountOf (r : DistributionRecipient) :
    (engine.fixedAmountOf r).InUnit engine.currency engine.decimals := by
  unfold fixedAmountOf
  split <;> exact ⟨rfl, rfl⟩

theorem foldlM_addMoney_eq_ok (hd : engine.decimals = .ofNat d) {rs : List DistributionRecipient}
    {sum : ℤ} {total : Money} (h : rs.foldlM (fun total r => addMoney total
      (engine.fixedAmountOf r)) (engine.moneyOf sum) = .ok total) :
    (∀ r ∈ rs, parseAmount (engine.fixedAmountOf r).amount engine.decimals =
        .ok (engine.fixedAmountOf r).scaled) ∧
      total = engine.moneyOf (sum + (rs.map fun r => (engine.fixedAmountOf r).scaled).sum) := by
  induction rs generalizing sum with
  | nil =>
    cases h
    exact ⟨fun r hr => absurd hr List.not_mem_nil, by simp⟩
  | cons r rs ih =>
    rw [List.foldlM_cons] at h
    obtain ⟨next, hnext, h⟩ := bind_eq_ok.mp h
    obtain ⟨-, -, x, y, -, hy, -⟩ := combineMoney_eq_ok.mp hnext
    have hscaled := scaled_of_parseAmount hy
    rw [← hscaled, (inUnit_fixedAmountOf r).decimals] at hy
    have hadd := @combineMoney_moneyOf engine (· + ·) _ _ (inUnit_moneyOf sum)
      (inUnit_fixedAmountOf r) _ _ (parseAmount_moneyOf hd sum)
      ((inUnit_fixedAmountOf r).decimals.symm ▸ hy)
    have hnext : next = engine.moneyOf (sum + (engine.fixedAmountOf r).scaled) :=
      Except.ok.inj (hnext.symm.trans hadd)
    rw [hnext] at h
    obtain ⟨hrest, htotal⟩ := ih h
    refine ⟨List.forall_mem_cons.mpr ⟨hy, hrest⟩, ?_⟩
    rw [htotal, List.map_cons, List.sum_cons, add_assoc]

theorem Accepts.coversFixed (h : engine.Accepts plan) (hfixed : plan.strategy = .fixed) :
    engine.CoversFixed plan := by
  have htotal := h.total
  rw [hfixed] at htotal
  obtain ⟨total, hsum, htotal⟩ := bind_eq_ok.mp htotal
  obtain ⟨rest, hrest, htotal⟩ := bind_eq_ok.mp htotal
  obtain ⟨negative, hnegative, hthrow⟩ := bind_eq_ok.mp htotal
  rw [mapError_eq_ok] at hsum hrest hnegative
  rw [throwIf_eq_ok, Bool.not_eq_true] at hthrow
  -- the first amount is added to the zero of the engine
  obtain ⟨d, hd⟩ : ∃ d, engine.decimals = .ofNat d := by
    obtain ⟨r, rs, hrs⟩ := List.exists_cons_of_ne_nil h.recipients
    rw [hrs, List.foldlM_cons] at hsum
    obtain ⟨next, hnext, -⟩ := bind_eq_ok.mp hsum
    obtain ⟨-, -, x, -, hx, -⟩ := combineMoney_eq_ok.mp hnext
    exact exists_ofNat_of_parseAmount_format hx
  obtain ⟨hamounts, rfl⟩ := foldlM_addMoney_eq_ok hd hsum
  obtain ⟨hcurrency, hdecimals, x, y, hx, hy, rfl⟩ := combineMoney_eq_ok.mp hrest
  have hy' := Except.ok.inj (hy.symm.trans (parseAmount_moneyOf hd _))
  have hscaled := scaled_of_parseAmount hx
  refine ⟨⟨d, hd⟩, ⟨hcurrency, hdecimals⟩, hscaled.symm ▸ hx, hamounts, ?_⟩
  have hdecimals' : plan.pool.decimals = .ofNat d := hdecimals.trans hd
  rw [isNegative] at hnegative
  dsimp only at hnegative
  rw [hdecimals', parseAmount_formatAmount] at hnegative
  have hnonneg := Except.ok.inj hnegative
  rw [hthrow, decide_eq_false_iff_not, hy', ← hscaled, zero_add] at hnonneg
  omega

/-- The payouts of an accepted plan whose pool is in the unit of the engine. -/
theorem resolvePayouts_eq (h : engine.Accepts plan) (hd : engine.decimals = .ofNat d)
    (hunit : plan.pool.InUnit engine.currency engine.decimals)
    (hpool : parseAmount plan.pool.amount plan.pool.decimals = .ok plan.pool.scaled) :
    engine.resolvePayouts plan = .ok (engine.resolved plan) := by
  have hparse : (parseAmount plan.pool.amount plan.pool.decimals).mapError
      (.ledger : LedgerError → ExecutionError DistributionFault) = .ok plan.pool.scaled :=
    mapError_eq_ok.mpr hpool
  cases hstrategy : plan.strategy with
  | proportional =>
    have hpaid : plan.paid = plan.recipients := by rw [DistributionPlan.paid, hstrategy]
    have hbasis : plan.basis = 10000 := by rw [DistributionPlan.basis, hstrategy]
    have hfixed : plan.strategy ≠ .fixed := by rw [hstrategy]; decide
    rw [resolvePayouts, hstrategy]
    refine bind_eq_ok.mpr ⟨_, hparse, ?_⟩
    rw [← hpaid]
    apply resolveWith_eq hd hunit hpool
    intro r hr
    obtain ⟨k, hk, -⟩ := h.exists_points hfixed hr
    rw [part, if_neg hfixed, hbasis, if_pos (by norm_num), hk, bigInt_natCast]
    rfl
  | fixed =>
    have hpaid : plan.paid = plan.recipients := by rw [DistributionPlan.paid, hstrategy]
    rw [resolvePayouts, hstrategy]
    change engine.resolveWith plan plan.recipients _ = _
    rw [← hpaid]
    apply resolveWith_eq hd hunit hpool
    intro r hr
    have hamount := (h.coversFixed hstrategy).amounts r (mem_recipients_of_mem_paid hr)
    rw [part, if_pos hstrategy, mapError_eq_ok, zero_eq_moneyOf]
    have hadd := @combineMoney_moneyOf engine (· + ·) _ _ (inUnit_moneyOf 0)
      (inUnit_fixedAmountOf r) _ _ (parseAmount_moneyOf hd 0)
      ((inUnit_fixedAmountOf r).decimals.symm ▸ hamount)
    rw [zero_add] at hadd
    exact hadd
  | milestone =>
    have hfixed : plan.strategy ≠ .fixed := by rw [hstrategy]; decide
    have hpaid : plan.recipients.filter (fun r => r.milestoneMet = some true) = plan.paid := by
      rw [DistributionPlan.paid, hstrategy]
    have hbasis : totalShares plan.paid = plan.basis := by rw [DistributionPlan.basis, hstrategy]
    obtain ⟨total, htotal, -⟩ := h.exists_basis hfixed
    rw [resolvePayouts, hstrategy]
    refine bind_eq_ok.mpr ⟨_, hparse, ?_⟩
    dsimp only
    rw [hpaid, hbasis]
    apply resolveWith_eq hd hunit hpool
    intro r hr
    obtain ⟨k, hk, -⟩ := h.exists_points hfixed hr
    rw [part, if_neg hfixed, hk, htotal, bigInt_natCast, bigInt_natCast]
    split <;> rfl

/-! ## Fixed amounts -/

/-- A recipient that passes declares a valid amount, or a number that is not negative. -/
theorem declared_of_assertFixedShare {r : DistributionRecipient} (h : assertFixedShare r = .ok ()) :
    (∃ amount, r.amount = some amount ∧ amount.Valid ∧ 0 ≤ amount.scaled) ∨
      r.amount = none ∧ ∃ k : ℕ, r.points = k ∧ k < 10 ^ 21 := by
  unfold assertFixedShare at h
  split at h
  · rename_i amount hamount
    split at h
    · cases h
    · rename_i hvalid
      rw [validateMoney_eq_ok] at hvalid
      obtain ⟨negative, hnegative, hthrow⟩ := bind_eq_ok.mp h
      rw [mapError_eq_ok, isNegative, hvalid.parses] at hnegative
      rw [throwIf_eq_ok, Bool.not_eq_true, ← Except.ok.inj hnegative, decide_eq_false_iff_not,
        not_lt] at hthrow
      exact .inl ⟨amount, hamount, hvalid, hthrow⟩
  · rename_i hamount
    obtain ⟨hnatural, hsafe⟩ := bind_unit_eq_ok.mp h
    rw [throwIf_eq_ok, Bool.not_eq_true', Bool.not_eq_false] at hnatural
    rw [throwIf_eq_ok, not_lt] at hsafe
    obtain ⟨k, hk⟩ := exists_points_of_isNaturalShare hnatural
    refine .inr ⟨hamount, k, hk, ?_⟩
    rw [hk] at hsafe
    have hlt : (k : ℚ) < 10 ^ 21 := lt_of_le_of_lt hsafe (by norm_num [MAX_SAFE_INTEGER])
    exact_mod_cast hlt

/-- What is paid is what is declared. -/
theorem value_fixedAmountOf (hd : engine.decimals = .ofNat d) {r : DistributionRecipient}
    (hshare : assertFixedShare r = .ok ())
    (hparse : parseAmount (engine.fixedAmountOf r).amount engine.decimals =
      .ok (engine.fixedAmountOf r).scaled) :
    ((engine.fixedAmountOf r).scaled : ℚ) / 10 ^ d = r.declared ∧
      0 ≤ (engine.fixedAmountOf r).scaled := by
  rw [hd] at hparse
  have hpow : (0 : ℚ) < 10 ^ d := by positivity
  have hworth : ((engine.fixedAmountOf r).scaled : ℚ) / 10 ^ d = r.declared ∧ 0 ≤ r.declared := by
    rcases declared_of_assertFixedShare hshare with ⟨amount, hamount, hvalid, hnonneg⟩ |
      ⟨hamount, k, hk, hlt⟩
    · have htext : (engine.fixedAmountOf r).amount = amount.amount := by
        rw [fixedAmountOf, hamount]
      have hparses := hvalid.parses
      rw [hvalid.decimals] at hparses
      rw [htext] at hparse
      rw [DistributionRecipient.declared, hamount]
      refine ⟨worth_of_parseAmount hparse hparses, ?_⟩
      exact div_nonneg (Int.cast_nonneg hnonneg) (by positivity)
    · obtain ⟨n, hn, hfraction, hvalue⟩ := exists_numeral_numberText hlt
      have htext : (engine.fixedAmountOf r).amount = n.text := by
        rw [fixedAmountOf, hamount, hk, hn]
      have hlength : n.fraction.length ≤ d := by rw [hfraction]; exact Nat.zero_le d
      rw [htext, parseAmount_text hlength] at hparse
      rw [DistributionRecipient.declared, hamount, ← Except.ok.inj hparse, n.scaled_eq hlength,
        hvalue, hk, mul_div_cancel_right₀ _ hpow.ne']
      exact ⟨rfl, Nat.cast_nonneg k⟩
  refine ⟨hworth.1, ?_⟩
  have hnonneg := hworth.1 ▸ hworth.2
  have hscaled := mul_nonneg hnonneg hpow.le
  rw [div_mul_cancel₀ _ hpow.ne'] at hscaled
  exact_mod_cast hscaled

theorem Accepts.assertFixedShare (h : engine.Accepts plan) (hfixed : plan.strategy = .fixed)
    {r : DistributionRecipient} (hr : r ∈ plan.recipients) : assertFixedShare r = .ok () := by
  have hshare := h.shares r hr
  rwa [assertShare, if_pos hfixed] at hshare

/-! ## Parts of a pool -/

/-- A part that is rounded towards zero is less than one unit below the exact one. -/
theorem tdiv_bounds {n : ℤ} (hn : 0 ≤ n) (k : ℕ) {basis : ℕ} (hbasis : 0 < basis) :
    ((n * k).tdiv basis : ℚ) ≤ n * k / basis ∧
      (n * k / basis : ℚ) < (n * k).tdiv basis + 1 ∧ 0 ≤ (n * k).tdiv basis := by
  have hnonneg : 0 ≤ n * k := mul_nonneg hn (Int.natCast_nonneg k)
  have hpos : (0 : ℚ) < basis := Nat.cast_pos.mpr hbasis
  have hbasis' : (0 : ℤ) < basis := Int.natCast_pos.mpr hbasis
  rw [Int.tdiv_eq_ediv_of_nonneg hnonneg]
  have hdiv := Int.mul_ediv_add_emod (n * k) basis
  have hmod := Int.emod_nonneg (n * k) hbasis'.ne'
  have hlt := Int.emod_lt_of_pos (n * k) hbasis'
  have hexact : (n * k : ℚ) = basis * ((n * k / basis : ℤ) : ℚ) + ((n * k % basis : ℤ) : ℚ) := by
    exact_mod_cast hdiv.symm
  refine ⟨?_, ?_, Int.ediv_nonneg hnonneg hbasis'.le⟩
  · rw [le_div_iff₀ hpos, hexact, mul_comm]
    exact le_add_of_nonneg_right (by exact_mod_cast hmod)
  · rw [div_lt_iff₀ hpos, hexact, add_mul, one_mul, mul_comm]
    exact add_lt_add_right (by exact_mod_cast hlt) _

/-- The exact part of the pool that the points of a recipient stand for, in the smallest unit. -/
def exactPart (plan : DistributionPlan) (r : DistributionRecipient) : ℚ :=
  plan.pool.scaled * r.points / plan.basis

theorem Accepts.part_bounds (h : engine.Accepts plan) (hfixed : plan.strategy ≠ .fixed)
    (hpool : 0 ≤ plan.pool.scaled) {r : DistributionRecipient} (hr : r ∈ plan.paid) :
    (engine.part plan r : ℚ) ≤ exactPart plan r ∧ exactPart plan r < engine.part plan r + 1 ∧
      0 ≤ engine.part plan r := by
  obtain ⟨k, hk, -⟩ := h.exists_points hfixed hr
  obtain ⟨basis, hbasis, -⟩ := h.exists_basis hfixed
  rw [part, if_neg hfixed, exactPart, hbasis, hk, Rat.num_natCast, Rat.num_natCast]
  split
  · rename_i hpos
    exact tdiv_bounds hpool k (Nat.cast_pos.mp hpos)
  · rename_i hzero
    have hbasis0 : basis = 0 := by
      rw [Nat.cast_pos, not_lt] at hzero
      omega
    subst hbasis0
    norm_num

theorem sum_exactPart (plan : DistributionPlan) (rs : List DistributionRecipient) :
    (rs.map (exactPart plan)).sum = plan.pool.scaled * totalShares rs / plan.basis := by
  induction rs with
  | nil => simp [totalShares]
  | cons r rs ih =>
    have hcons : totalShares (r :: rs) = r.points + totalShares rs := rfl
    rw [List.map_cons, List.sum_cons, ih, hcons, exactPart, mul_add, add_div]

theorem cast_parts : (engine.parts plan : ℚ) =
    (plan.paid.map fun r => (engine.part plan r : ℚ)).sum := by
  rw [parts, Int.cast_list_sum, List.map_map]
  rfl

/-- The parts are not more than the pool. -/
theorem Accepts.parts_le (h : engine.Accepts plan) (hpool : 0 ≤ plan.pool.scaled) :
    engine.parts plan ≤ plan.pool.scaled := by
  by_cases hfixed : plan.strategy = .fixed
  · have hpaid : plan.paid = plan.recipients := by rw [DistributionPlan.paid, hfixed]
    have htotal := (h.coversFixed hfixed).total
    rw [parts, hpaid]
    convert htotal using 4 with r
    rw [part, if_pos hfixed]
  · obtain ⟨basis, hbasis, hle⟩ := h.exists_basis hfixed
    have hsum : (engine.parts plan : ℚ) ≤ plan.pool.scaled * totalShares plan.paid / plan.basis := by
      rw [cast_parts, ← sum_exactPart]
      exact List.sum_le_sum fun r hr => (h.part_bounds hfixed hpool hr).1
    have hshare : (plan.pool.scaled * totalShares plan.paid / plan.basis : ℚ) ≤ plan.pool.scaled := by
      have hcast : (0 : ℚ) ≤ plan.pool.scaled := Int.cast_nonneg hpool
      rw [hbasis]
      apply div_le_of_le_mul₀ (Nat.cast_nonneg basis) hcast
      exact mul_le_mul_of_nonneg_left hle hcast
    exact_mod_cast hsum.trans hshare

/-- What is left of a pool that is shared out is less than one unit for each recipient. -/
theorem Accepts.dust_lt (h : engine.Accepts plan) (hfixed : plan.strategy ≠ .fixed)
    (hpool : 0 ≤ plan.pool.scaled) (hpos : 0 < plan.basis)
    (hfull : totalShares plan.paid = plan.basis) :
    (plan.pool.scaled - engine.parts plan : ℚ) < plan.paid.length := by
  have hne : plan.paid ≠ [] := by
    intro hnil
    rw [hnil] at hfull
    exact hpos.ne hfull
  have hsum : (plan.paid.map (exactPart plan)).sum <
      (plan.paid.map fun r => (engine.part plan r : ℚ) + 1).sum :=
    List.sum_lt_sum_of_ne_nil hne _ _ fun r hr => (h.part_bounds hfixed hpool hr).2.1
  rw [sum_exactPart, hfull, mul_div_assoc, div_self hpos.ne', mul_one, List.sum_map_add,
    ← cast_parts] at hsum
  simp only [List.map_const', List.sum_replicate, nsmul_eq_mul, mul_one] at hsum
  linarith

theorem computeDistribution_of_createPlan {name : JsString} {strategy : DistributionStrategy}
    {pool : Money} {recipients : List DistributionRecipient} {createdAt : JsString}
    (h : engine.createPlan id name strategy pool recipients createdAt = .ok (engine', plan)) :
    engine'.computeDistribution id = engine.resolvePayouts plan := by
  obtain ⟨-, rfl, -⟩ := accepts_of_createPlan h
  rw [computeDistribution, getPlan, setPlan, JsMap.get?_set, if_pos rfl]
  rfl

/-- Decimals that are not a number of digits let no payout be computed. -/
theorem exists_decimals_of_resolvePayouts {result : DistributionResult}
    (h : engine.resolvePayouts plan = .ok result) : ∃ d, engine.decimals = .ofNat d := by
  unfold resolvePayouts at h
  split at h
  · obtain ⟨_, -, h⟩ := bind_eq_ok.mp h
    exact exists_decimals_of_resolveWith h
  · exact exists_decimals_of_resolveWith h
  · obtain ⟨_, -, h⟩ := bind_eq_ok.mp h
    exact exists_decimals_of_resolveWith h

end DistributionEngine

/-! ## Conservation -/

/-- The payouts of a plan and what is left are its pool. A part that is computed from shares is
less than one smallest unit below the exact one. -/
structure Conserves (plan : DistributionPlan) (d : ℕ) (result : DistributionResult) : Prop where
  nonneg : ∀ p ∈ result.payouts, 0 ≤ p.amount.value
  total : (result.payouts.map fun p => p.amount.value).sum + result.remainder.value =
    plan.pool.value
  written : ((result.payouts.filter fun p => p.amount.scaled ≠ 0).map fun p => p.amount.value).sum +
    result.remainder.value = plan.pool.value
  remainder : 0 ≤ result.remainder.value
  rounding : plan.strategy ≠ .fixed → List.Forall₂ (fun r p => p.payeeId = r.payeeId ∧
    p.amount.value ≤ plan.share r ∧ plan.share r < p.amount.value + 1 / 10 ^ d)
      plan.paid result.payouts
  dust : plan.strategy ≠ .fixed → 0 < plan.basis → totalShares plan.paid = plan.basis →
    result.remainder.value * 10 ^ d < plan.recipients.length

theorem sum_values_filter (payouts : List DistributionPayout) :
    ((payouts.filter fun p => p.amount.scaled ≠ 0).map fun p => p.amount.value).sum =
      (payouts.map fun p => p.amount.value).sum := by
  induction payouts with
  | nil => rfl
  | cons p ps ih =>
    by_cases hp : p.amount.scaled = 0
    · have hvalue : p.amount.value = 0 := by rw [Money.value, hp, Int.cast_zero, zero_div]
      rw [List.filter_cons_of_neg (by simpa using hp), ih, List.map_cons, List.sum_cons, hvalue,
        zero_add]
    · rw [List.filter_cons_of_pos (by simpa using hp), List.map_cons, List.map_cons, List.sum_cons,
        List.sum_cons, ih]

theorem length_paid_le (plan : DistributionPlan) : plan.paid.length ≤ plan.recipients.length := by
  unfold DistributionPlan.paid
  split
  · exact List.length_filter_le _ _
  · exact le_rfl

open DistributionEngine in
theorem conserves_resolved {engine : DistributionEngine} {plan : DistributionPlan} {d : ℕ}
    (h : engine.Accepts plan) (hd : engine.decimals = .ofNat d)
    (hunit : plan.pool.InUnit engine.currency engine.decimals) (hpool : 0 ≤ plan.pool.scaled) :
    Conserves plan d (engine.resolved plan) := by
  have hpow : (0 : ℚ) < 10 ^ d := by positivity
  have hscale : plan.pool.scale = d := (hd ▸ hunit : plan.pool.InUnit engine.currency _).scale
  have hvalue : plan.pool.value = plan.pool.scaled / 10 ^ d := by rw [Money.value, hscale]
  have hpart : ∀ r ∈ plan.paid, 0 ≤ engine.part plan r := by
    intro r hr
    by_cases hfixed : plan.strategy = .fixed
    · have hmem := mem_recipients_of_mem_paid hr
      rw [part, if_pos hfixed]
      exact (value_fixedAmountOf hd (h.assertFixedShare hfixed hmem)
        ((h.coversFixed hfixed).amounts r hmem)).2
    · exact (h.part_bounds hfixed hpool hr).2.2
  have hsum : ((engine.resolved plan).payouts.map fun p => p.amount.value).sum =
      engine.parts plan / 10 ^ d := by
    rw [resolved, List.map_map, cast_parts, div_eq_mul_inv, ← List.sum_map_mul_right]
    congr 1
    apply List.map_congr_left
    intro r _
    rw [← div_eq_mul_inv]
    exact value_moneyOf hd _
  have hremainder : (engine.resolved plan).remainder.value =
      (plan.pool.scaled - engine.parts plan) / 10 ^ d := by
    rw [resolved, value_moneyOf hd]
    push_cast
    rfl
  have htotal : ((engine.resolved plan).payouts.map fun p => p.amount.value).sum +
      (engine.resolved plan).remainder.value = plan.pool.value := by
    rw [hsum, hremainder, hvalue]
    ring
  refine ⟨?_, htotal, ?_, ?_, fun hfixed => ?_, fun hfixed hpos hfull => ?_⟩
  · intro p hp
    obtain ⟨r, hr, rfl⟩ := List.mem_map.mp hp
    dsimp only
    rw [value_moneyOf hd]
    exact div_nonneg (Int.cast_nonneg (hpart r hr)) hpow.le
  · rw [sum_values_filter]
    exact htotal
  · have hle : (engine.parts plan : ℚ) ≤ plan.pool.scaled := by exact_mod_cast h.parts_le hpool
    rw [hremainder]
    exact div_nonneg (sub_nonneg.mpr hle) hpow.le
  · rw [resolved, List.forall₂_map_right_iff, List.forall₂_same]
    intro r hr
    obtain ⟨hlow, hhigh, -⟩ := h.part_bounds hfixed hpool hr
    have hshare : plan.share r = exactPart plan r / 10 ^ d := by
      rw [DistributionPlan.share, exactPart, hvalue]
      ring
    rw [value_moneyOf hd, hshare, ← add_div]
    exact ⟨rfl, div_le_div_of_nonneg_right hlow hpow.le, div_lt_div_of_pos_right hhigh hpow⟩
  · rw [hremainder, div_mul_cancel₀ _ hpow.ne']
    exact (h.dust_lt hfixed hpool hpos hfull).trans_le (Nat.cast_le.mpr (length_paid_le plan))

/-- The distribution of a pool that is not negative and in the unit of the engine conserves it,
for every plan that is created. -/
theorem pool_conserved {engine engine' : DistributionEngine} {id name createdAt : JsString}
    {strategy : DistributionStrategy} {pool : Money} {recipients : List DistributionRecipient}
    {plan : DistributionPlan} {n : ℤ}
    (h : engine.createPlan id name strategy pool recipients createdAt = .ok (engine', plan))
    (hunit : pool.InUnit engine.currency engine.decimals)
    (hpool : parseAmount pool.amount pool.decimals = .ok n) (hn : 0 ≤ n) :
    (∀ d, engine.decimals = .ofNat d → ∃ result, engine'.computeDistribution id = .ok result) ∧
      ∀ result, engine'.computeDistribution id = .ok result →
        ∃ d, engine.decimals = .ofNat d ∧ Conserves plan d result := by
  obtain ⟨rfl, -, haccepts⟩ := DistributionEngine.accepts_of_createPlan h
  have hscaled : pool.scaled = n := scaled_of_parseAmount hpool
  rw [← hscaled] at hpool hn
  rw [DistributionEngine.computeDistribution_of_createPlan h]
  constructor
  · intro d hd
    exact ⟨_, DistributionEngine.resolvePayouts_eq haccepts hd hunit hpool⟩
  · intro result hresult
    obtain ⟨d, hd⟩ := DistributionEngine.exists_decimals_of_resolvePayouts hresult
    rw [DistributionEngine.resolvePayouts_eq haccepts hd hunit hpool] at hresult
    cases hresult
    exact ⟨d, hd, conserves_resolved haccepts hd hunit hn⟩

/-! ### Thirds of a hundred dollars -/

def dollarEngine : DistributionEngine := .new (js "USD") (.ofNat 2)

def hundredDollars : Money := ⟨js "100.00", js "USD", .ofNat 2⟩

def thirds : List DistributionRecipient :=
  [⟨js "a", some (.ofNat 3333), none, none⟩, ⟨js "b", some (.ofNat 3333), none, none⟩,
    ⟨js "c", some (.ofNat 3334), none, none⟩]

theorem pool_conserved_thirds : ∃ engine' plan result,
    dollarEngine.createPlan (js "p") (js "Pool") .proportional hundredDollars thirds (js "t") =
      .ok (engine', plan) ∧
    engine'.computeDistribution (js "p") = .ok result ∧ Conserves plan 2 result := by
  obtain ⟨⟨engine', plan⟩, hcreate⟩ : ∃ r, dollarEngine.createPlan (js "p") (js "Pool")
      .proportional hundredDollars thirds (js "t") = .ok r :=
    exists_eq_ok_of_isOk (by decide +kernel)
  have hparse : parseAmount (js "100.00") (.ofNat 2) = .ok 10000 := by decide +kernel
  obtain ⟨hexists, hconserves⟩ := pool_conserved hcreate ⟨rfl, rfl⟩ hparse (by decide)
  obtain ⟨result, hresult⟩ := hexists 2 rfl
  obtain ⟨d, hd, hconserves⟩ := hconserves result hresult
  cases hd
  exact ⟨engine', plan, result, hcreate, hresult, hconserves⟩

end Attestia.Treasury
