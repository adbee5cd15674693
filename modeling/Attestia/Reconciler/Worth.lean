import Attestia.Lib.Except
import Attestia.Reconciler.ChainAmount
import Mathlib.Analysis.SpecialFunctions.Pow.Real

/-!
# What amounts are worth

An amount is worth its integer over ten to the number of its decimals. The comparison of the
matchers decides whether a money and an event are worth the same, wherever their numbers of
decimals differ by an integer.
-/

namespace Attestia.Reconciler

open Lib JsonNumber Ledger

/-- `n / 10 ^ decimals`. -/
noncomputable def worth (n : ℤ) (decimals : Number) : ℝ := n / (10 : ℝ) ^ (decimals.val : ℝ)

theorem ten_rpow_pos (x : ℝ) : 0 < (10 : ℝ) ^ x := Real.rpow_pos_of_pos (by norm_num) x

theorem worth_inj {m n : ℤ} {decimals : Number} (h : worth m decimals = worth n decimals) : m = n := by
  have hne := (ten_rpow_pos decimals.val).ne'
  have hcast := (div_left_inj' hne).mp h
  exact_mod_cast hcast

theorem worth_add (m n : ℤ) (decimals : Number) :
    worth (m + n) decimals = worth m decimals + worth n decimals := by
  rw [worth, Int.cast_add, add_div]
  rfl

theorem worth_zero (decimals : Number) : worth 0 decimals = 0 := by
  rw [worth, Int.cast_zero, zero_div]

/-! ## Rescaling -/

theorem bigInt_finite_eq_ok {q : ℚ} {n : ℤ} : bigInt (.finite q) = .ok n ↔ q = n := by
  rw [bigInt]
  split
  · rename_i hden
    have hq : q = q.num := (Rat.den_eq_one_iff q).mp hden |>.symm
    constructor
    · intro h
      rw [← Except.ok.inj h]
      exact hq
    · intro h
      rw [h, Rat.num_intCast]
  · rename_i hden
    constructor
    · intro h
      cases h
    · intro h
      apply absurd _ hden
      rw [h, Rat.den_intCast]

theorem bigInt_eq_ok {x : JsNumber} {n : ℤ} : bigInt x = .ok n ↔ x = .finite n := by
  cases x with
  | finite q => rw [bigInt_finite_eq_ok, JsNumber.finite.injEq]
  | infinity negative => exact ⟨fun h => (nomatch h), fun h => (nomatch h)⟩
  | nan => exact ⟨fun h => (nomatch h), fun h => (nomatch h)⟩

theorem held_eq_ok [Arithmetic] {n x : ℤ} :
    held n = .ok x ↔ Arithmetic.holds n = true ∧ x = n := by
  rw [held]
  split
  · rename_i hholds
    rw [Except.ok.injEq, and_iff_right hholds, eq_comm]
  · rename_i hholds
    exact ⟨fun h => (nomatch h), fun h => absurd h.1 hholds⟩

/-- An amount can be brought to a greater number of decimals where their difference is an integer
and the power of ten and the product can be held. -/
theorem rescale_eq_ok_iff [Arithmetic] {n x : ℤ} {maxDec decimals : Number} :
    rescale n maxDec decimals = .ok x ↔ ∃ k : ℤ,
      Arithmetic.subtract maxDec.val decimals.val = .finite k ∧
      Arithmetic.holds (10 ^ k.toNat) = true ∧ Arithmetic.holds (n * 10 ^ k.toNat) = true ∧
      x = n * 10 ^ k.toNat := by
  rw [rescale, bind_eq_ok]
  refine exists_congr fun k => ?_
  rw [bigInt_eq_ok, bind_eq_ok]
  refine and_congr_right fun _ => ?_
  constructor
  · rintro ⟨power, hpower, hx⟩
    obtain ⟨hholds, rfl⟩ := held_eq_ok.mp hpower
    exact ⟨hholds, held_eq_ok.mp hx⟩
  · rintro ⟨hholds, hx⟩
    exact ⟨_, held_eq_ok.mpr ⟨hholds, rfl⟩, held_eq_ok.mpr hx⟩

variable {n x : ℤ} {maxDec decimals : Number}

theorem rescale_eq_ok : rescale n maxDec decimals = .ok x ↔
    ∃ k : ℤ, maxDec.val - decimals.val = k ∧ x = n * 10 ^ k.toNat := by
  rw [rescale_eq_ok_iff]
  refine exists_congr fun k => ?_
  rw [show Arithmetic.subtract maxDec.val decimals.val = .finite (maxDec.val - decimals.val) from rfl,
    JsNumber.finite.injEq, and_iff_right (show exactArithmetic.holds (10 ^ k.toNat) = true from rfl),
    and_iff_right (show exactArithmetic.holds (n * 10 ^ k.toNat) = true from rfl)]

/-- At a greater number of decimals the amount is worth the same. -/
theorem worth_rescale (hle : decimals.val ≤ maxDec.val) (h : rescale n maxDec decimals = .ok x) :
    worth x maxDec = worth n decimals := by
  obtain ⟨k, hk, rfl⟩ := rescale_eq_ok.mp h
  have hk0 : 0 ≤ k := by
    have hcast : (0 : ℚ) ≤ k := hk ▸ sub_nonneg.mpr hle
    exact_mod_cast hcast
  obtain ⟨m, rfl⟩ := Int.eq_ofNat_of_zero_le hk0
  have hexp : ((maxDec.val : ℚ) : ℝ) = (decimals.val : ℝ) + (m : ℝ) := by
    have hsum : maxDec.val = decimals.val + m := sub_eq_iff_eq_add'.mp hk
    rw [hsum]
    push_cast
    rfl
  have hpow : (10 : ℝ) ^ ((maxDec.val : ℚ) : ℝ) = (10 : ℝ) ^ (decimals.val : ℝ) * 10 ^ m := by
    rw [hexp, Real.rpow_add (by norm_num), Real.rpow_natCast]
  have hne : (10 : ℝ) ^ m ≠ 0 := by positivity
  rw [worth, worth, hpow, Int.toNat_natCast]
  push_cast
  exact mul_div_mul_right _ _ hne

theorem le_maxDecimals_left (a b : Number) : a.val ≤ (maxDecimals a b).val := by
  unfold maxDecimals
  split
  · rename_i h
    exact h.le
  · exact le_refl _

theorem le_maxDecimals_right (a b : Number) : b.val ≤ (maxDecimals a b).val := by
  unfold maxDecimals
  split
  · exact le_refl _
  · rename_i h
    exact not_lt.mp h

/-! ## Moneys and events -/

/-- What a money and what an event are worth, where their amounts can be read. -/
noncomputable def moneyWorth (money : Money) : Option ℝ :=
  match parseAmount money.amount money.decimals with
  | .ok n => some (worth n money.decimals)
  | .error _ => none

noncomputable def eventWorth (event : ReconcilableChainEvent) : Option ℝ :=
  match event.decimals with
  | .finite decimals =>
    if isIntegerText event.amount then some (worth (integerOf event.amount) decimals) else none
  | _ => none

theorem moneyWorth_of_eq_ok {money : Money} {raw : ℤ}
    (h : parseAmount money.amount money.decimals = .ok raw) :
    moneyWorth money = some (worth raw money.decimals) := by
  rw [moneyWorth, h]

/-- Both are worth the same, and their numbers of decimals differ by an integer. -/
structure Agrees (money : Money) (event : ReconcilableChainEvent) : Prop where
  worth : ∃ x, eventWorth event = some x ∧ moneyWorth money = some x
  scales : ∃ decimals, event.decimals = .finite decimals ∧
    (decimals.val - money.decimals.val).den = 1

/-- The comparison at the greater number of decimals. -/
theorem rescale_eq_iff {a b x y : ℤ} {decimals chainDecimals : Number}
    (hx : rescale a (maxDecimals decimals chainDecimals) decimals = .ok x)
    (hy : rescale b (maxDecimals decimals chainDecimals) chainDecimals = .ok y) :
    x = y ↔ worth a decimals = worth b chainDecimals := by
  rw [← worth_rescale (le_maxDecimals_left decimals chainDecimals) hx,
    ← worth_rescale (le_maxDecimals_right decimals chainDecimals) hy]
  constructor
  · intro h
    rw [h]
  · exact worth_inj

theorem exists_rescale_iff {a : ℤ} {maxDec decimals : Number} :
    (∃ x, rescale a maxDec decimals = .ok x) ↔ (maxDec.val - decimals.val).den = 1 := by
  constructor
  · rintro ⟨x, h⟩
    obtain ⟨k, hk, -⟩ := rescale_eq_ok.mp h
    rw [hk, Rat.den_intCast]
  · intro h
    exact ⟨_, rescale_eq_ok.mpr ⟨_, ((Rat.den_eq_one_iff _).mp h).symm, rfl⟩⟩

theorem den_sub_comm (a b : ℚ) : (a - b).den = (b - a).den := by rw [← neg_sub, Rat.neg_den]

theorem den_sub_trans {a b c : ℚ} (hab : (a - b).den = 1) (hbc : (b - c).den = 1) :
    (a - c).den = 1 := by
  rw [Rat.den_eq_one_iff] at hab hbc
  have hac : a - c = (((a - b).num + (b - c).num : ℤ) : ℚ) := by
    push_cast
    rw [hab, hbc]
    ring
  rw [hac, Rat.den_intCast]

/-- The greater of two numbers differs from both by an integer where they differ by one. -/
theorem den_maxDecimals_sub_iff {a b : Number} :
    ((maxDecimals a b).val - a.val).den = 1 ∧ ((maxDecimals a b).val - b.val).den = 1 ↔
      (b.val - a.val).den = 1 := by
  unfold maxDecimals
  split
  · rw [sub_self]
    exact and_iff_left rfl
  · rw [sub_self, den_sub_comm]
    exact and_iff_right rfl

/-- The comparison finds no discrepancy exactly where the two agree. -/
theorem compareAmounts_eq_none_iff {w : Wording} {money : Money} {event : ReconcilableChainEvent}
    (htext : isIntegerText event.amount = true) :
    compareAmounts w money event = .ok none ↔ Agrees money event := by
  rw [compareAmounts, bind_eq_ok]
  constructor
  · rintro ⟨raw, hraw, h⟩
    obtain ⟨_, hheld, h⟩ := bind_eq_ok.mp h
    obtain ⟨-, rfl⟩ := held_eq_ok.mp hheld
    have hmoney := moneyWorth_of_eq_ok (mapError_eq_ok.mp hraw)
    rcases hdecimals : event.decimals with decimals | negative | _ <;> rw [hdecimals] at h
    · have hevent : eventWorth event = some (worth (integerOf event.amount) decimals) := by
        rw [eventWorth, hdecimals]
        exact if_pos htext
      dsimp only at h
      split at h
      · rename_i hsame
        have hamount : raw = integerOf event.amount := by
          by_contra hne
          rw [if_neg hne] at h
          cases h
        refine ⟨⟨_, hevent, ?_⟩, decimals, hdecimals, ?_⟩
        · rw [hmoney, hamount, hsame]
        · rw [hsame, sub_self]
          rfl
      · obtain ⟨norm, hnorm, h⟩ := bind_eq_ok.mp h
        obtain ⟨chainNorm, hchainNorm, h⟩ := bind_eq_ok.mp h
        have hequal : norm = chainNorm := by
          by_contra hne
          rw [if_neg hne] at h
          cases h
        refine ⟨⟨_, hevent, ?_⟩, decimals, hdecimals, ?_⟩
        · rw [hmoney, (rescale_eq_iff hnorm hchainNorm).mp hequal]
        · exact den_maxDecimals_sub_iff.mp
            ⟨exists_rescale_iff.mp ⟨_, hnorm⟩, exists_rescale_iff.mp ⟨_, hchainNorm⟩⟩
    · cases h
    · cases h
  · rintro ⟨⟨x, hevent, hmoney⟩, decimals, hdecimals, hden⟩
    rw [moneyWorth] at hmoney
    rcases hraw : parseAmount money.amount money.decimals with e | raw <;> rw [hraw] at hmoney
    · cases hmoney
    · refine ⟨raw, mapError_eq_ok.mpr rfl,
        bind_eq_ok.mpr ⟨_, held_eq_ok.mpr ⟨rfl, rfl⟩, ?_⟩⟩
      rw [eventWorth, hdecimals] at hevent
      dsimp only at hevent hmoney
      rw [if_pos htext] at hevent
      have hworth : worth raw money.decimals = worth (integerOf event.amount) decimals :=
        Option.some.inj (hmoney.trans hevent.symm)
      rw [hdecimals]
      dsimp only
      split
      · rename_i hsame
        rw [hsame] at hworth
        rw [if_pos (worth_inj hworth)]
        rfl
      · obtain ⟨hleft, hright⟩ := den_maxDecimals_sub_iff.mpr hden
        obtain ⟨norm, hnorm⟩ := exists_rescale_iff.mpr hleft
        obtain ⟨chainNorm, hchainNorm⟩ := exists_rescale_iff.mpr hright
        refine bind_eq_ok.mpr ⟨norm, hnorm, bind_eq_ok.mpr ⟨chainNorm, hchainNorm, ?_⟩⟩
        rw [if_pos ((rescale_eq_iff hnorm hchainNorm).mpr hworth)]
        rfl

end Attestia.Reconciler
