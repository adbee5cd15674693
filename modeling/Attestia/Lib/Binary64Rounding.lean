import Attestia.Lib.NumberText
import Attestia.Lib.Rounding

/-!
# Numbers kept as doubles

The numbers of the language: a decimal is read as the double that it is rounded to, and written as
the shortest decimal that is rounded to it. A double is kept by its value; the infinite ones are
kept by the bound that they have passed.
-/

namespace Attestia.Lib

open JsonNumber

namespace JsNumber

/-! ## The range of the doubles -/

theorem abs_nearest_sub_le (q : ℚ) : |(nearest q : ℚ) - q| ≤ 1 / 2 := by
  have hle := Rat.floor_le q
  have hlt := Rat.lt_floor_add_one q
  push_cast at hlt
  rw [abs_le]
  simp only [nearest]
  split
  · rename_i h
    constructor <;> rcases h with h | ⟨h, -⟩ <;> linarith
  · rename_i h
    rw [not_or] at h
    push_cast
    constructor <;> linarith [not_lt.mp h.1]

theorem floor_neg_of_ne {q : ℚ} (h : (q.floor : ℚ) ≠ q) : (-q).floor = -q.floor - 1 := by
  apply le_antisymm
  · have hlt : ¬ -q.floor ≤ (-q).floor := by
      rw [Rat.le_floor_iff]
      push_cast
      intro hle
      exact h (le_antisymm (Rat.floor_le q) (neg_le_neg_iff.mp hle))
    omega
  · rw [Rat.le_floor_iff]
    have hlt := Rat.lt_floor_add_one q
    push_cast at hlt ⊢
    linarith

theorem nearest_neg (q : ℚ) : nearest (-q) = -nearest q := by
  by_cases h : (q.floor : ℚ) = q
  · rw [← h, nearest_intCast, ← Int.cast_neg, nearest_intCast]
  · have hrest : -q - ((-q.floor - 1 : ℤ) : ℚ) = 1 - (q - q.floor) := by
      push_cast
      ring
    simp only [nearest, floor_neg_of_ne h, hrest]
    generalize q - q.floor = rest
    rcases lt_trichotomy rest (1 / 2) with hlt | rfl | hgt
    · rw [if_neg, if_pos (.inl hlt)]
      · omega
      · rintro (h | ⟨h, -⟩) <;> linarith
    · norm_num
      split <;> split <;> omega
    · rw [if_pos (.inl (by linarith)), if_neg]
      · omega
      · rintro (h | ⟨h, -⟩) <;> linarith

/-- The negative of a number is rounded to the negative. -/
theorem ofRational_neg_of_finite {q r : ℚ} (h : ofRational q = .finite r) :
    ofRational (-q) = .finite (-r) := by
  have hunit : unit (-q) = unit q := by rw [unit, unit, abs_neg]
  rw [ofRational_eq] at h ⊢
  rw [hunit, neg_div, nearest_neg, Int.cast_neg, neg_mul, abs_neg]
  split at h
  · rename_i hlt
    rw [if_pos hlt, JsNumber.finite.inj h]
  · cases h

theorem le_abs_nearest {n : ℤ} {q : ℚ} (h : (n : ℚ) - 1 / 2 < |q|) : n ≤ |nearest q| := by
  have hdistance : |q| - 1 / 2 ≤ |(nearest q : ℚ)| := by
    have hsub := abs_sub_abs_le_abs_sub q (nearest q)
    rw [abs_sub_comm] at hsub
    linarith [abs_nearest_sub_le q]
  have hlt : ((n - 1 : ℤ) : ℚ) < ((|nearest q| : ℤ) : ℚ) := by
    push_cast
    linarith
  have := Int.cast_lt.mp hlt
  omega

theorem abs_nearest_le {n : ℤ} {q : ℚ} (h : |q| < (n : ℚ) + 1 / 2) : |nearest q| ≤ n := by
  have hdistance : |(nearest q : ℚ)| ≤ |q| + 1 / 2 := by
    have hsub := abs_sub_abs_le_abs_sub (nearest q : ℚ) q
    linarith [abs_nearest_sub_le q]
  have hlt : ((|nearest q| : ℤ) : ℚ) < ((n + 1 : ℤ) : ℚ) := by
    push_cast
    linarith
  have := Int.cast_lt.mp hlt
  omega

theorem abs_nearest_mul_unit (q : ℚ) :
    |(nearest (q / unit q) * unit q : ℚ)| = ((|nearest (q / unit q)| : ℤ) : ℚ) * unit q := by
  rw [abs_mul, abs_of_pos (unit_pos q), Int.cast_abs]

theorem abs_div_unit (q : ℚ) : |q / unit q| = |q| / unit q := by
  rw [abs_div, abs_of_pos (unit_pos q)]

/-- The distance of the largest doubles. -/
@[irreducible] def gap : ℚ := 2 ^ 971

theorem two_lt_gap : 2 < gap := by
  rw [gap]
  exact lt_self_pow₀ (by norm_num) (by norm_num)

theorem gap_pos : 0 < gap := zero_lt_two.trans two_lt_gap

theorem bound_eq : (2 : ℚ) ^ 1024 = 2 ^ 53 * gap := by rw [gap, ← pow_add]

theorem half_bound_eq : (2 : ℚ) ^ 1023 = 2 ^ 52 * gap := by rw [gap, ← pow_add]

theorem log_le_of_lt {q : ℚ} {n : ℕ} (h0 : 0 < |q|) (h : |q| < 2 ^ (n + 1)) :
    Int.log 2 |q| ≤ n := by
  rw [← zpow_natCast] at h
  have := (Int.lt_zpow_iff_log_lt (b := 2) (by norm_num) h0).mp h
  omega

theorem le_log_of_le {q : ℚ} {n : ℕ} (h0 : 0 < |q|) (h : 2 ^ n ≤ |q|) : n ≤ Int.log 2 |q| := by
  rw [← zpow_natCast] at h
  exact (Int.zpow_le_iff_le_log (b := 2) (by norm_num) h0).mp h

theorem unit_eq_gap {q : ℚ} (h : 2 ^ 1023 ≤ |q|) (hlt : |q| < 2 ^ 1024) : unit q = gap := by
  have hpos : 0 < |q| := lt_of_lt_of_le (by positivity) h
  have hlog : Int.log 2 |q| = 1023 :=
    le_antisymm (log_le_of_lt (n := 1023) hpos hlt) (le_log_of_le (n := 1023) hpos h)
  rw [unit, hlog, gap, ← zpow_natCast]
  rfl

/-- From less than one below the bound on, numbers are rounded to infinity. -/
theorem ofRational_infinity {q : ℚ} (h : 2 ^ 1024 - 1 ≤ |q|) :
    ofRational q = .infinity (decide (q < 0)) := by
  have hgap := two_lt_gap
  rw [ofRational_eq, if_neg]
  rw [not_lt, abs_nearest_mul_unit]
  rcases lt_or_ge |q| (2 ^ 1024) with hlt | hge
  · have hhalf : 2 ^ 1023 ≤ |q| := by
      rw [bound_eq] at h
      rw [half_bound_eq]
      linarith
    rw [unit_eq_gap hhalf hlt, bound_eq]
    have hn : (2 ^ 53 : ℤ) ≤ |nearest (q / gap)| := by
      apply le_abs_nearest
      rw [abs_div, abs_of_pos gap_pos, lt_div_iff₀ gap_pos]
      rw [bound_eq] at h
      push_cast
      linarith only [h, hgap]
    apply mul_le_mul_of_nonneg_right _ gap_pos.le
    exact_mod_cast hn
  · have hpos : 0 < |q| := lt_of_lt_of_le (by positivity) hge
    have hlog : (1024 : ℕ) ≤ Int.log 2 |q| := le_log_of_le hpos hge
    have hunit : unit q = 2 ^ (Int.log 2 |q| - 52) := by rw [unit, max_eq_left (by omega)]
    have hpower : (2 : ℚ) ^ Int.log 2 |q| = 2 ^ 52 * unit q := by
      rw [hunit, ← zpow_natCast (2 : ℚ) 52, ← zpow_add₀ (by norm_num)]
      congr 1
      push_cast
      ring
    have hn : (2 ^ 52 : ℤ) ≤ |nearest (q / unit q)| := by
      apply le_abs_nearest
      rw [abs_div_unit, lt_div_iff₀ (unit_pos q)]
      have hle : (2 : ℚ) ^ Int.log 2 |q| ≤ |q| := Int.zpow_log_le_self (by norm_num) hpos
      rw [hpower] at hle
      push_cast
      linarith only [hle, unit_pos q]
    calc (2 : ℚ) ^ 1024 ≤ 2 ^ Int.log 2 |q| := by
          rw [← zpow_natCast]
          exact zpow_le_zpow_right₀ (by norm_num) hlog
      _ = ((2 ^ 52 : ℤ) : ℚ) * unit q := by rw [hpower]; norm_num
      _ ≤ ((|nearest (q / unit q)| : ℤ) : ℚ) * unit q := by
          apply mul_le_mul_of_nonneg_right _ (unit_pos q).le
          exact_mod_cast hn

/-- A double that is finite is at most this large. -/
theorem Representable.abs_le {q : ℚ} (h : Representable q) : |q| ≤ (2 ^ 53 - 1) * gap := by
  have hgap := two_lt_gap
  rcases lt_or_ge |q| (2 ^ 1023) with hlt | hge
  · rw [half_bound_eq] at hlt
    linarith
  · obtain ⟨⟨m, k, hq, hm, hk⟩, hlt⟩ := h
    obtain ⟨n, hn⟩ := exists_eq_mul_unit hm hk
    rw [← hq, unit_eq_gap hge hlt] at hn
    have habs : |q| = ((|n| : ℤ) : ℚ) * gap := by
      rw [hn, abs_mul, abs_of_pos gap_pos, Int.cast_abs]
    rw [habs, bound_eq] at hlt
    have hlt' : ((|n| : ℤ) : ℚ) < ((2 ^ 53 : ℤ) : ℚ) := by
      push_cast
      push_cast at hlt
      exact lt_of_mul_lt_mul_right hlt gap_pos.le
    have hle : |n| ≤ 2 ^ 53 - 1 := by
      have := Int.cast_lt.mp hlt'
      omega
    rw [habs]
    apply mul_le_mul_of_nonneg_right _ gap_pos.le
    exact_mod_cast hle

/-- Up to one more than the largest double, numbers are rounded to doubles. -/
theorem exists_ofRational_eq {q : ℚ} (h : |q| ≤ (2 ^ 53 - 1) * gap + 1) :
    ∃ r, ofRational q = .finite r := by
  have hgap := two_lt_gap
  suffices hlt : |(nearest (q / unit q) * unit q : ℚ)| < 2 ^ 1024 from
    ⟨_, by rw [ofRational_eq, if_pos hlt]⟩
  rw [abs_nearest_mul_unit]
  rcases lt_or_ge |q| (2 ^ 1023) with hlt | hge
  · have hn : |nearest (q / unit q)| ≤ 2 ^ 53 := by
      apply abs_nearest_le
      push_cast
      linarith only [abs_div_unit_le q]
    have hlog : Int.log 2 |q| ≤ 1022 := by
      rcases eq_or_ne q 0 with rfl | hq
      · simp
      · exact log_le_of_lt (n := 1022) (abs_pos.mpr hq) hlt
    have hunit : unit q ≤ 2 ^ (970 : ℤ) :=
      zpow_le_zpow_right₀ (by norm_num) (max_le (by omega) (by norm_num))
    have hle : ((|nearest (q / unit q)| : ℤ) : ℚ) ≤ 2 ^ 53 := by exact_mod_cast hn
    calc ((|nearest (q / unit q)| : ℤ) : ℚ) * unit q ≤ 2 ^ 53 * 2 ^ (970 : ℤ) :=
          mul_le_mul hle hunit (unit_pos q).le (by positivity)
      _ = 2 ^ (1023 : ℤ) := by rw [← zpow_natCast (2 : ℚ) 53, ← zpow_add₀ (by norm_num)]; rfl
      _ < 2 ^ 1024 := by
          rw [← zpow_natCast]
          exact zpow_lt_zpow_right₀ (by norm_num) (by norm_num)
  · have hlt : |q| < 2 ^ 1024 := by
      rw [bound_eq]
      linarith only [h, hgap]
    rw [unit_eq_gap hge hlt, bound_eq]
    have hn : |nearest (q / gap)| ≤ 2 ^ 53 - 1 := by
      apply abs_nearest_le
      rw [abs_div, abs_of_pos gap_pos, div_lt_iff₀ gap_pos]
      push_cast
      linarith only [h, hgap]
    have hle : ((|nearest (q / gap)| : ℤ) : ℚ) ≤ 2 ^ 53 - 1 := by exact_mod_cast hn
    calc ((|nearest (q / gap)| : ℤ) : ℚ) * gap ≤ (2 ^ 53 - 1) * gap :=
          mul_le_mul_of_nonneg_right hle gap_pos.le
      _ < 2 ^ 53 * gap := mul_lt_mul_of_pos_right (by norm_num) gap_pos

/-! ## The values that are kept -/

/-- The value of a double; an infinite one is kept by the bound. -/
def value : JsNumber → ℚ
  | finite q => q
  | infinity negative => if negative then -2 ^ 1024 else 2 ^ 1024
  | nan => 0

def kept (q : ℚ) : ℚ := (ofRational q).value

example : kept (2 ^ 53 + 1) = 2 ^ 53 := by decide +kernel

theorem kept_of_representable {q : ℚ} (h : Representable q) : kept q = q := by
  rw [kept, h.ofRational]
  rfl

theorem kept_of_bound_le {q : ℚ} (h : 2 ^ 1024 - 1 ≤ |q|) :
    kept q = if q < 0 then -2 ^ 1024 else 2 ^ 1024 := by
  rw [kept, ofRational_infinity h]
  by_cases hneg : q < 0 <;> simp [value, hneg]

/-- What is kept is a double, or the bound with one of the signs. -/
theorem kept_cases (q : ℚ) : Representable (kept q) ∨ kept q = -2 ^ 1024 ∨ kept q = 2 ^ 1024 := by
  rw [kept]
  cases h : ofRational q with
  | finite r => exact .inl (representable_of_ofRational h)
  | infinity negative => cases negative <;> simp [value]
  | nan =>
    rw [ofRational_eq] at h
    split at h <;> cases h

theorem abs_bound : |(2 ^ 1024 : ℚ)| = 2 ^ 1024 := abs_of_pos (pow_pos zero_lt_two _)

theorem decimal_bound : Decimal (2 ^ 1024) := by
  have h := decimal_natCast (2 ^ 1024)
  rwa [Nat.cast_pow, Nat.cast_ofNat] at h

theorem decimal_kept (q : ℚ) : Decimal (kept q) := by
  rcases kept_cases q with h | h | h
  · exact decimal_of_representable h
  · rw [h]
    exact decimal_bound.neg
  · rw [h]
    exact decimal_bound

theorem kept_kept (q : ℚ) : kept (kept q) = kept q := by
  rcases kept_cases q with h | h | h
  · exact kept_of_representable h
  · rw [h, kept_of_bound_le (by rw [abs_neg, abs_bound]; exact sub_le_self _ zero_le_one), if_pos]
    exact neg_neg_of_pos (by positivity)
  · rw [h, kept_of_bound_le (by rw [abs_bound]; exact sub_le_self _ zero_le_one), if_neg]
    exact not_lt.mpr (by positivity)

/-- The double of a value that is kept. -/
def ofKept (q : ℚ) : JsNumber :=
  if |q| < 2 ^ 1024 then .finite q else .infinity (decide (q < 0))

theorem representable_of_kept {q : ℚ} (h : kept q = q) (hlt : |q| < 2 ^ 1024) :
    Representable q := by
  rcases kept_cases q with hr | hr | hr <;> rw [h] at hr
  · exact hr
  · rw [hr, abs_neg, abs_bound] at hlt
    exact absurd hlt (lt_irrefl _)
  · rw [hr, abs_bound] at hlt
    exact absurd hlt (lt_irrefl _)

theorem abs_kept_of_bound_le {q : ℚ} (h : 2 ^ 1024 - 1 ≤ |q|) : |kept q| = 2 ^ 1024 := by
  rw [kept_of_bound_le h]
  split
  · rw [abs_neg, abs_bound]
  · exact abs_bound

/-- One more than a double is infinite exactly if the double is. -/
theorem abs_kept_add_one_lt_iff {q : ℚ} (h : kept q = q) :
    |kept (q + 1)| < 2 ^ 1024 ↔ |q| < 2 ^ 1024 := by
  constructor
  · intro hlt
    by_contra hge
    have hle : |q| - 1 ≤ |q + 1| := by
      have hsub := abs_sub_abs_le_abs_sub q (-1)
      rwa [abs_neg, abs_one, sub_neg_eq_add] at hsub
    rw [abs_kept_of_bound_le ((sub_le_sub_right (not_lt.mp hge) 1).trans hle)] at hlt
    exact lt_irrefl _ hlt
  · intro hlt
    have hle : |q + 1| ≤ (2 ^ 53 - 1) * gap + 1 := by
      have hadd := abs_add_le q 1
      rw [abs_one] at hadd
      exact hadd.trans (add_le_add_left (representable_of_kept h hlt).abs_le 1)
    obtain ⟨r, hr⟩ := exists_ofRational_eq hle
    rw [kept, hr]
    exact (representable_of_ofRational hr).lt

/-! ## Decimals of doubles -/

/-- The shortest decimal that is rounded to a double. -/
def shortestDecimal (q : ℚ) : ℚ :=
  let magnitude := scale (shortest |q|).1 (shortest |q|).2
  if q < 0 then -magnitude else magnitude

theorem decimal_shortestDecimal (q : ℚ) : Decimal (shortestDecimal q) := by
  rw [shortestDecimal]
  split
  · exact (decimal_scale _ _).neg
  · exact decimal_scale _ _

theorem kept_shortestDecimal {q : ℚ} (h : Representable q) : kept (shortestDecimal q) = q := by
  have hround := ofRational_shortest h.abs (abs_nonneg q)
  rw [shortestDecimal]
  split
  · rename_i hneg
    rw [kept, ofRational_neg_of_finite hround, value, abs_of_neg hneg, neg_neg]
  · rename_i hneg
    rw [kept, hround, value, abs_of_nonneg (not_lt.mp hneg)]

theorem one_le_kept {q : ℚ} (h : 1 ≤ q) : 1 ≤ kept q := by
  have hone : Representable 1 := by
    have h := representable_natCast (n := 1) (by norm_num)
    rwa [Nat.cast_one] at h
  have hle := le_ofRational hone zero_le_one h
  rw [kept]
  cases hq : ofRational q with
  | finite r =>
    rw [hq] at hle
    simp only [le, lt, same, Bool.or_eq_true, decide_eq_true_eq] at hle
    exact le_iff_lt_or_eq.mpr hle
  | infinity negative =>
    rw [hq] at hle
    simp only [le, lt, same, Bool.or_false, Bool.not_eq_true'] at hle
    rw [hle]
    exact one_le_pow₀ one_le_two
  | nan =>
    rw [hq] at hle
    cases hle

end JsNumber

/-- The numbers of the language. -/
@[reducible] def Rounding.binary64 : Rounding where
  round n := ⟨JsNumber.kept n.val, JsNumber.decimal_kept n.val⟩
  json n := if |n.val| < 2 ^ 1024 then
      some ⟨JsNumber.shortestDecimal n.val, JsNumber.decimal_shortestDecimal n.val⟩
    else none
  text n := (JsNumber.ofKept n.val).string
  round_round n := Number.ext (JsNumber.kept_kept n.val)
  round_one :=
    Number.ext (JsNumber.kept_of_representable (JsNumber.representable_natCast (by norm_num)))
  one_le_round h := JsNumber.one_le_kept h
  round_of_json {n m} hn h := by
    rw [Option.ite_none_right_eq_some] at h
    obtain ⟨hlt, hm⟩ := h
    have hkept := congrArg Number.val hn
    cases Option.some.inj hm
    exact Number.ext (JsNumber.kept_shortestDecimal (JsNumber.representable_of_kept hkept hlt))
  json_one := by
    rw [if_pos]
    · exact Option.some_ne_none _
    · have h := (JsNumber.representable_natCast (n := 1) (by norm_num)).lt
      exact h
  json_succ {n} hn := by
    have hkept := congrArg Number.val hn
    simp only [ite_eq_right_iff, reduceCtorEq, imp_false]
    exact not_congr (JsNumber.abs_kept_add_one_lt_iff hkept)

end Attestia.Lib
