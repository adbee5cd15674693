import Attestia.Vault.Vault

/-!
# The amounts of an envelope

Every operation reads the amounts of an envelope as integers in the unit of the engine, and writes
what is available as the difference of what is allocated and what is spent. Only the three zeros
of a new envelope have not been written so.
-/

namespace Attestia.Vault

open Lib JsonNumber Ledger DecimalText

/-! ## Zero -/

theorem eq_zero_of_parseAmount_zero {d : Number} {n : ℤ} (h : parseAmount (js "0") d = .ok n) :
    n = 0 := by
  obtain ⟨-, hlength, -⟩ := accepted_of_parseAmount h
  have hdigits : AllDigits [zero] := by
    intro u hu
    rw [List.mem_singleton.mp hu]
    decide
  have hempty : AllDigits [] := fun u hu => absurd hu List.not_mem_nil
  have hnumeral := parseAmount_numeral hdigits hempty (List.cons_ne_nil zero []) false hlength
  have htext : numeral false [zero] [] = js "0" := rfl
  rw [htext, h] at hnumeral
  have hzeros : digitsNat ([zero] ++ padEnd [] ⌊d.val⌋.toNat) = 0 := by
    show digitsNat (List.replicate (_ + 1) zero) = 0
    exact digitsNat_replicate_zero _
  rw [Except.ok.inj hnumeral, hzeros]
  rfl

/-- Only without decimals an integer is printed without a point. -/
theorem val_eq_zero_of_formatAmount {n : ℤ} {d : Number} (h : formatAmount n d = js "0") :
    d.val = 0 := by
  by_contra hd
  rw [formatAmount, if_neg hd] at h
  have hdot : dot ∈ js "0" := by
    rw [← h]
    dsimp only
    split <;> simp
  exact absurd hdot (by decide)

theorem formatAmount_zero {d : Number} (h : d.val = 0) : formatAmount 0 d = js "0" := by
  rw [formatAmount, if_pos h]
  decide

namespace BudgetEngine

/-! ## Amounts -/

/-- What the committed amounts of an envelope stand for. -/
structure Amounts (d : Number) (e : Envelope) (x y : ℤ) : Prop where
  allocated : parseAmount e.allocated d = .ok x
  spent : parseAmount e.spent d = .ok y

/-- The amounts are in order, and what is available has been computed from them. -/
structure Committed (d : Number) (e : Envelope) (x y : ℤ) : Prop extends Amounts d e x y where
  nonneg : 0 ≤ y
  covered : y ≤ x
  available : e.available = formatAmount (x - y) d

/-- The amounts of `createEnvelope`. -/
structure Fresh (e : Envelope) : Prop where
  allocated : e.allocated = js "0"
  spent : e.spent = js "0"
  available : e.available = js "0"

/-- What an envelope of an engine is. -/
structure Kept (c : JsString) (d : Number) (e : Envelope) : Prop where
  currency : e.currency = c
  decimals : e.decimals = d
  amounts : Fresh e ∨ ∃ x y, Committed d e x y

variable {b : BudgetEngine} {e : Envelope} {x y : ℤ}

theorem Kept.order {currency : JsString} {d : Number} (h : Kept currency d e)
    (hamounts : Amounts d e x y) : 0 ≤ y ∧ y ≤ x := by
  rcases h.amounts with hfresh | ⟨x', y', hcommitted⟩
  · have hx := eq_zero_of_parseAmount_zero (hfresh.allocated ▸ hamounts.allocated)
    have hy := eq_zero_of_parseAmount_zero (hfresh.spent ▸ hamounts.spent)
    omega
  · have hx := Except.ok.inj (hamounts.allocated.symm.trans hcommitted.allocated)
    have hy := Except.ok.inj (hamounts.spent.symm.trans hcommitted.spent)
    have hnonneg := hcommitted.nonneg
    have hcovered := hcommitted.covered
    omega

theorem Kept.available {currency : JsString} {d : Number} (h : Kept currency d e)
    (hamounts : Amounts d e x y) {z : ℤ} (hz : parseAmount e.available d = .ok z) : z = x - y := by
  rcases h.amounts with hfresh | ⟨x', y', hcommitted⟩
  · have hx := eq_zero_of_parseAmount_zero (hfresh.allocated ▸ hamounts.allocated)
    have hy := eq_zero_of_parseAmount_zero (hfresh.spent ▸ hamounts.spent)
    have hz := eq_zero_of_parseAmount_zero (hfresh.available ▸ hz)
    omega
  · have hx := Except.ok.inj (hamounts.allocated.symm.trans hcommitted.allocated)
    have hy := Except.ok.inj (hamounts.spent.symm.trans hcommitted.spent)
    rw [hcommitted.available] at hz
    obtain ⟨k, hk⟩ := exists_ofNat_of_parseAmount_format hz
    rw [hk, parseAmount_formatAmount] at hz
    rw [hx, hy]
    exact (Except.ok.inj hz).symm

/-! ## Arithmetic -/

section arithmetic

variable {s t u : JsString}

theorem add_eq_ok (h : b.add s t = .ok u) :
    ∃ m n, parseAmount s b.decimals = .ok m ∧ parseAmount t b.decimals = .ok n ∧
      u = formatAmount (m + n) b.decimals := by
  obtain ⟨c, hc, rfl⟩ := map_eq_ok.mp (mapError_eq_ok.mp h)
  obtain ⟨-, -, m, n, hm, hn, rfl⟩ := combineMoney_eq_ok.mp hc
  exact ⟨m, n, hm, hn, rfl⟩

theorem subtract_eq_ok : b.subtract s t = .ok u ↔
    ∃ m n, parseAmount s b.decimals = .ok m ∧ parseAmount t b.decimals = .ok n ∧
      u = formatAmount (m - n) b.decimals := by
  rw [subtract, mapError_eq_ok, map_eq_ok]
  constructor
  · rintro ⟨c, hc, rfl⟩
    obtain ⟨-, -, m, n, hm, hn, rfl⟩ := combineMoney_eq_ok.mp hc
    exact ⟨m, n, hm, hn, rfl⟩
  · rintro ⟨m, n, hm, hn, rfl⟩
    exact ⟨_, combineMoney_eq_ok.mpr ⟨rfl, rfl, m, n, hm, hn, rfl⟩, rfl⟩

theorem assertPositive_eq_ok {amount : Money} (h : assertPositive amount = .ok ()) :
    ∃ n, parseAmount amount.amount amount.decimals = .ok n ∧ 0 < n := by
  obtain ⟨positive, hpositive, h⟩ := bind_eq_ok.mp h
  obtain ⟨n, hn, rfl⟩ := map_eq_ok.mp (mapError_eq_ok.mp hpositive)
  rw [throwIf_eq_ok] at h
  exact ⟨n, hn, by simpa using h⟩

theorem isNegative_eq_ok {m : Money} {negative : Bool} : isNegative m = .ok negative ↔
    ∃ n, parseAmount m.amount m.decimals = .ok n ∧ negative = decide (n < 0) := by
  rw [isNegative, map_eq_ok]
  exact exists_congr fun n => and_congr_right fun _ => eq_comm

theorem compareMoney_eq_ok {m n : Money} {o : Ordering} : compareMoney m n = .ok o ↔
    m.currency = n.currency ∧ m.decimals = n.decimals ∧
      ∃ p q, parseAmount m.amount m.decimals = .ok p ∧ parseAmount n.amount n.decimals = .ok q ∧
        o = compare p q := by
  rw [compareMoney, bind_unit_eq_ok, assertSameCurrency_eq_ok, and_assoc, bind_eq_ok]
  refine and_congr_right fun _ => and_congr_right fun _ => exists_congr fun p => ?_
  rw [bind_eq_ok, ← exists_and_left]
  refine exists_congr fun q => and_congr_right fun _ => and_congr_right fun _ => ?_
  exact ⟨fun h => (Except.ok.inj h).symm, fun h => congrArg Except.ok h.symm⟩

/-- An amount that does not exceed another one in the unit of the engine is in that unit. -/
theorem le_of_compareMoney {amount : Money} {limit : JsString} {o : Ordering}
    (h : compareMoney amount (b.unit limit) = .ok o) (ho : ¬ o = .gt) :
    amount.currency = b.currency ∧ amount.decimals = b.decimals ∧
      ∃ p q, parseAmount amount.amount b.decimals = .ok p ∧ parseAmount limit b.decimals = .ok q ∧
        p ≤ q := by
  obtain ⟨hcurrency, hdecimals, p, q, hp, hq, rfl⟩ := compareMoney_eq_ok.mp h
  rw [compare_gt_iff_gt, not_lt] at ho
  have hdecimals : amount.decimals = b.decimals := hdecimals
  exact ⟨hcurrency, hdecimals, p, q, hdecimals ▸ hp, hq, ho⟩

end arithmetic

/-! ## Operations -/

/-- What an operation on an envelope writes. -/
structure Settled (b : BudgetEngine) (id : JsString) (e : Envelope) (x y : ℤ)
    (r : BudgetEngine × Envelope) : Prop extends Amounts b.decimals r.2 x y where
  found : b.envelopes.get? id = some e
  engine : r.1 = b.setEnvelope id r.2
  same_id : r.2.id = e.id
  currency : r.2.currency = e.currency
  decimals : r.2.decimals = e.decimals
  available : r.2.available = formatAmount (x - y) b.decimals

theorem Settled.committed {id : JsString} {r : BudgetEngine × Envelope}
    (h : b.Settled id e x y r) (hnonneg : 0 ≤ y) (hcovered : y ≤ x) : Committed b.decimals r.2 x y :=
  { h.toAmounts with nonneg := hnonneg, covered := hcovered, available := h.available }

section operations

variable {id : JsString} {amount : Money} {r : BudgetEngine × Envelope}

theorem getEnvelope_eq_ok : b.getEnvelope id = .ok e ↔ b.envelopes.get? id = some e := by
  rw [getEnvelope]
  split <;> simp_all

/-- A result that is computed with again is the integer that has been printed. -/
theorem parseAmount_formatAmount_self {d : Number} {m n : ℤ}
    (h : parseAmount (formatAmount m d) d = .ok n) : n = m := by
  obtain ⟨k, rfl⟩ := exists_ofNat_of_parseAmount_format h
  exact (Except.ok.inj ((parseAmount_formatAmount m k).symm.trans h)).symm

theorem allocate_eq_ok (h : b.allocate id amount = .ok r) :
    ∃ e x y n, Amounts b.decimals e x y ∧ 0 ≤ n ∧ b.Settled id e (x + n) y r := by
  obtain ⟨e, he, h⟩ := bind_eq_ok.mp h
  obtain ⟨-, h⟩ := bind_unit_eq_ok.mp h
  obtain ⟨hpositive, h⟩ := bind_unit_eq_ok.mp h
  obtain ⟨allocated, hallocated, h⟩ := bind_eq_ok.mp h
  obtain ⟨available, havailable, h⟩ := bind_eq_ok.mp h
  obtain ⟨p, hp, hpos⟩ := assertPositive_eq_ok hpositive
  obtain ⟨x, n, hx, hn, rfl⟩ := add_eq_ok hallocated
  obtain ⟨x', y, hx', hy, rfl⟩ := subtract_eq_ok.mp havailable
  obtain rfl := parseAmount_formatAmount_self hx'
  cases h
  exact ⟨e, x, y, n, ⟨hx, hy⟩, nonneg_of_parseAmount hp hpos hn,
    { allocated := hx', spent := hy, found := getEnvelope_eq_ok.mp he, engine := rfl,
      same_id := rfl, currency := rfl, decimals := rfl, available := rfl }⟩

theorem deallocate_eq_ok (h : b.deallocate id amount = .ok r) :
    ∃ e x y x', Amounts b.decimals e x y ∧ y ≤ x' ∧ b.Settled id e x' y r := by
  obtain ⟨e, he, h⟩ := bind_eq_ok.mp h
  obtain ⟨-, h⟩ := bind_unit_eq_ok.mp h
  obtain ⟨-, h⟩ := bind_unit_eq_ok.mp h
  obtain ⟨allocated, hallocated, h⟩ := bind_eq_ok.mp h
  obtain ⟨available, havailable, h⟩ := bind_eq_ok.mp h
  obtain ⟨negative, hnegative, h⟩ := bind_eq_ok.mp h
  obtain ⟨x, n, hx, hn, rfl⟩ := subtract_eq_ok.mp hallocated
  obtain ⟨x', y, hx', hy, rfl⟩ := subtract_eq_ok.mp havailable
  obtain ⟨z, hz, rfl⟩ := isNegative_eq_ok.mp (mapError_eq_ok.mp hnegative)
  have hz := parseAmount_formatAmount_self hz
  obtain ⟨hcheck, h⟩ := bind_unit_eq_ok.mp h
  rw [throwIf_eq_ok, decide_eq_true_eq] at hcheck
  cases h
  exact ⟨e, x, y, x', ⟨hx, hy⟩, by omega,
    { allocated := hx', spent := hy, found := getEnvelope_eq_ok.mp he, engine := rfl,
      same_id := rfl, currency := rfl, decimals := rfl, available := rfl }⟩

theorem spend_eq_ok (h : b.spend id amount = .ok r) :
    ∃ e x y n z, Amounts b.decimals e x y ∧ amount.currency = b.currency ∧ amount.decimals = b.decimals ∧
      parseAmount amount.amount b.decimals = .ok n ∧
      parseAmount e.available b.decimals = .ok z ∧ 0 < n ∧ n ≤ z ∧ b.Settled id e x (y + n) r := by
  obtain ⟨e, he, h⟩ := bind_eq_ok.mp h
  obtain ⟨-, h⟩ := bind_unit_eq_ok.mp h
  obtain ⟨hpositive, h⟩ := bind_unit_eq_ok.mp h
  obtain ⟨order, horder, h⟩ := bind_eq_ok.mp h
  obtain ⟨hcheck, h⟩ := bind_unit_eq_ok.mp h
  obtain ⟨spent, hspent, h⟩ := bind_eq_ok.mp h
  obtain ⟨available, havailable, h⟩ := bind_eq_ok.mp h
  obtain ⟨hcurrency, hdecimals, n, z, hn, hz, hle⟩ :=
    le_of_compareMoney (mapError_eq_ok.mp horder) (throwIf_eq_ok.mp hcheck)
  obtain ⟨p, hp, hpos⟩ := assertPositive_eq_ok hpositive
  obtain rfl := Except.ok.inj (hn.symm.trans (hdecimals ▸ hp))
  obtain ⟨y, n', hy, hn', rfl⟩ := add_eq_ok hspent
  obtain rfl := Except.ok.inj (hn.symm.trans hn')
  obtain ⟨x, y', hx, hy', rfl⟩ := subtract_eq_ok.mp havailable
  obtain rfl := parseAmount_formatAmount_self hy'
  cases h
  exact ⟨e, x, y, n, z, ⟨hx, hy⟩, hcurrency, hdecimals, hn, hz, hpos, hle,
    { allocated := hx, spent := hy', found := getEnvelope_eq_ok.mp he, engine := rfl,
      same_id := rfl, currency := rfl, decimals := rfl, available := rfl }⟩

theorem reverseSpend_eq_ok (h : b.reverseSpend id amount = .ok r) :
    ∃ e x y n, Amounts b.decimals e x y ∧ amount.currency = b.currency ∧ amount.decimals = b.decimals ∧
      parseAmount amount.amount b.decimals = .ok n ∧ 0 < n ∧ n ≤ y ∧
      b.Settled id e x (y - n) r := by
  obtain ⟨e, he, h⟩ := bind_eq_ok.mp h
  obtain ⟨-, h⟩ := bind_unit_eq_ok.mp h
  obtain ⟨hpositive, h⟩ := bind_unit_eq_ok.mp h
  obtain ⟨order, horder, h⟩ := bind_eq_ok.mp h
  obtain ⟨hcheck, h⟩ := bind_unit_eq_ok.mp h
  obtain ⟨spent, hspent, h⟩ := bind_eq_ok.mp h
  obtain ⟨available, havailable, h⟩ := bind_eq_ok.mp h
  obtain ⟨hcurrency, hdecimals, n, y, hn, hy, hle⟩ :=
    le_of_compareMoney (mapError_eq_ok.mp horder) (throwIf_eq_ok.mp hcheck)
  obtain ⟨p, hp, hpos⟩ := assertPositive_eq_ok hpositive
  obtain rfl := Except.ok.inj (hn.symm.trans (hdecimals ▸ hp))
  obtain ⟨z, n', hz, hn', rfl⟩ := subtract_eq_ok.mp hspent
  obtain rfl := Except.ok.inj (hn.symm.trans hn')
  obtain rfl := Except.ok.inj (hy.symm.trans hz)
  obtain ⟨x, y', hx, hy', rfl⟩ := subtract_eq_ok.mp havailable
  obtain rfl := parseAmount_formatAmount_self hy'
  cases h
  exact ⟨e, x, y, n, ⟨hx, hy⟩, hcurrency, hdecimals, hn, hpos, hle,
    { allocated := hx, spent := hy', found := getEnvelope_eq_ok.mp he, engine := rfl,
      same_id := rfl, currency := rfl, decimals := rfl, available := rfl }⟩

end operations

/-! ## Engines -/

/-- The envelopes of an engine stand under their ids, in its unit. -/
def Keeps (b : BudgetEngine) : Prop :=
  ∀ id e, b.envelopes.get? id = some e → e.id = id ∧ Kept b.currency b.decimals e

theorem keeps_new (ownerId currency : JsString) (decimals : Number) :
    (new ownerId currency decimals).Keeps := fun _ _ h => by cases h

theorem Keeps.setEnvelope (h : b.Keeps) {id : JsString} (hid : e.id = id)
    (he : Kept b.currency b.decimals e) : (b.setEnvelope id e).Keeps :=
  JsMap.forall_set h ⟨hid, he⟩

theorem Keeps.settled (h : b.Keeps) {id : JsString} {r : BudgetEngine × Envelope}
    (hr : b.Settled id e x y r) (hnonneg : 0 ≤ y) (hcovered : y ≤ x) : r.1.Keeps := by
  obtain ⟨hid, he⟩ := h id e hr.found
  rw [hr.engine]
  exact h.setEnvelope (hr.same_id.trans hid) ⟨hr.currency.trans he.currency,
    hr.decimals.trans he.decimals, .inr ⟨x, y, hr.committed hnonneg hcovered⟩⟩

/-- An engine that differs in its envelopes alone. -/
def SameUnit (b b' : BudgetEngine) : Prop := b' = { b with envelopes := b'.envelopes }

theorem Settled.sameUnit {id : JsString} {r : BudgetEngine × Envelope} (hr : b.Settled id e x y r) :
    b.SameUnit r.1 := by
  rw [hr.engine]
  rfl

section keeps

variable {id : JsString} {amount : Money} {r : BudgetEngine × Envelope}

theorem Keeps.createEnvelope (h : b.Keeps) {name : JsString} {category : Option JsString}
    {createdAt : JsString} (hr : b.createEnvelope id name category createdAt = .ok r) :
    r.1.Keeps ∧ b.SameUnit r.1 := by
  obtain ⟨-, hr⟩ := bind_unit_eq_ok.mp hr
  cases hr
  exact ⟨h.setEnvelope rfl ⟨rfl, rfl, .inl ⟨rfl, rfl, rfl⟩⟩, rfl⟩

theorem Keeps.allocate (h : b.Keeps) (hr : b.allocate id amount = .ok r) :
    r.1.Keeps ∧ b.SameUnit r.1 := by
  obtain ⟨e, x, y, n, hamounts, hn, hsettled⟩ := allocate_eq_ok hr
  have horder := (h id e hsettled.found).2.order hamounts
  exact ⟨h.settled hsettled (by omega) (by omega), hsettled.sameUnit⟩

theorem Keeps.deallocate (h : b.Keeps) (hr : b.deallocate id amount = .ok r) :
    r.1.Keeps ∧ b.SameUnit r.1 := by
  obtain ⟨e, x, y, x', hamounts, hx', hsettled⟩ := deallocate_eq_ok hr
  have horder := (h id e hsettled.found).2.order hamounts
  exact ⟨h.settled hsettled (by omega) (by omega), hsettled.sameUnit⟩

theorem Keeps.spend (h : b.Keeps) (hr : b.spend id amount = .ok r) :
    r.1.Keeps ∧ b.SameUnit r.1 := by
  obtain ⟨e, x, y, n, z, hamounts, -, -, -, hz, hpos, hle, hsettled⟩ := spend_eq_ok hr
  have horder := (h id e hsettled.found).2.order hamounts
  have havailable := (h id e hsettled.found).2.available hamounts hz
  exact ⟨h.settled hsettled (by omega) (by omega), hsettled.sameUnit⟩

theorem Keeps.reverseSpend (h : b.Keeps) (hr : b.reverseSpend id amount = .ok r) :
    r.1.Keeps ∧ b.SameUnit r.1 := by
  obtain ⟨e, x, y, n, hamounts, -, -, -, hpos, hle, hsettled⟩ := reverseSpend_eq_ok hr
  have horder := (h id e hsettled.found).2.order hamounts
  exact ⟨h.settled hsettled (by omega) (by omega), hsettled.sameUnit⟩

end keeps

end BudgetEngine

end Attestia.Vault
