import Attestia.Lib.JsonValue
import Attestia.Lib.JsValue
import Mathlib.Tactic.Linarith

/-!
# Sums of binary64 numbers

A number of binary64 is an integer of at most 53 bits times a power of two. Rounding leaves such
numbers alone and keeps their order with every other number; a sum of natural numbers up to the
bound is exact.
-/

namespace Attestia.Lib.JsNumber

/-- The distance of the numbers around `q`. -/
def unit (q : ℚ) : ℚ := 2 ^ max (Int.log 2 |q| - 52) (-1074)

theorem unit_pos (q : ℚ) : 0 < unit q := zpow_pos (by norm_num) _

theorem ofRational_eq (q : ℚ) : ofRational q =
    if |(nearest (q / unit q) * unit q : ℚ)| < 2 ^ 1024 then .finite (nearest (q / unit q) * unit q)
    else .infinity (decide (q < 0)) := rfl

@[simp] theorem nearest_intCast (m : ℤ) : nearest m = m := by
  simp [nearest]

theorem le_nearest {m : ℤ} {q : ℚ} (h : (m : ℚ) ≤ q) : m ≤ nearest q := by
  have hfloor : m ≤ q.floor := Rat.le_floor_iff.mpr h
  simp only [nearest]
  split <;> omega

theorem nearest_le {m : ℤ} {q : ℚ} (h : q ≤ m) : nearest q ≤ m := by
  rcases h.eq_or_lt with rfl | hlt
  · rw [nearest_intCast]
  · have hfloor : q.floor < m := by
      have := (Rat.floor_le q).trans_lt hlt
      exact_mod_cast this
    simp only [nearest]
    split <;> omega

/-! ## Numbers that are not rounded -/

/-- What a double can hold. -/
structure Representable (q : ℚ) : Prop where
  scaled : ∃ m k : ℤ, q = m * 2 ^ k ∧ |m| ≤ 2 ^ 53 ∧ -1074 ≤ k
  lt : |q| < 2 ^ 1024

theorem exists_eq_mul_unit {m k : ℤ} (hm : |m| ≤ 2 ^ 53) (hk : -1074 ≤ k) :
    ∃ n : ℤ, (m * 2 ^ k : ℚ) = n * unit (m * 2 ^ k) := by
  have hpow : (0 : ℚ) < 2 ^ k := zpow_pos (by norm_num) k
  rcases eq_or_ne m 0 with rfl | hm0
  · exact ⟨0, by simp⟩
  have hpos : (0 : ℚ) < |(m * 2 ^ k : ℚ)| := by
    rw [abs_pos]
    exact mul_ne_zero (Int.cast_ne_zero.mpr hm0) hpow.ne'
  have habs : |(m * 2 ^ k : ℚ)| = (|m| : ℤ) * 2 ^ k := by
    rw [abs_mul, abs_of_pos hpow, Int.cast_abs]
  rcases hm.eq_or_lt with heq | hlt
  · -- a power of two has a unit of its own
    have hvalue : |(m * 2 ^ k : ℚ)| = 2 ^ (k + 53) := by
      rw [habs, heq, zpow_add₀ (by norm_num), mul_comm]
      norm_num
    have hlog : Int.log 2 |(m * 2 ^ k : ℚ)| = k + 53 := by
      rw [hvalue]
      exact Int.log_zpow (R := ℚ) (b := 2) (by norm_num) (k + 53)
    have hunit : unit (m * 2 ^ k) = 2 * 2 ^ k := by
      rw [unit, hlog, max_eq_left (by omega), show k + 53 - 52 = k + 1 by omega,
        zpow_add_one₀ (by norm_num), mul_comm]
    obtain ⟨n, hn⟩ : ∃ n : ℤ, m = 2 * n := by
      rcases abs_choice m with h | h
      · exact ⟨2 ^ 52, by omega⟩
      · exact ⟨-2 ^ 52, by omega⟩
    refine ⟨n, ?_⟩
    rw [hunit, hn]
    push_cast
    ring
  · have hlog : Int.log 2 |(m * 2 ^ k : ℚ)| < k + 53 := by
      rw [← Int.lt_zpow_iff_log_lt (b := 2) (by norm_num) hpos, habs, zpow_add₀ (by norm_num), mul_comm]
      apply mul_lt_mul_of_pos_left _ hpow
      exact_mod_cast hlt
    obtain ⟨j, hj⟩ : ∃ j : ℕ, k = max (Int.log 2 |(m * 2 ^ k : ℚ)| - 52) (-1074) + j :=
      ⟨(k - max (Int.log 2 |(m * 2 ^ k : ℚ)| - 52) (-1074)).toNat, by omega⟩
    refine ⟨m * 2 ^ j, ?_⟩
    rw [unit]
    generalize max (Int.log 2 |(m * 2 ^ k : ℚ)| - 52) (-1074) = u at hj
    rw [hj, zpow_add₀ (by norm_num)]
    push_cast
    rw [zpow_natCast]
    ring

theorem Representable.ofRational {q : ℚ} (h : Representable q) : ofRational q = .finite q := by
  obtain ⟨⟨m, k, rfl, hm, hk⟩, hlt⟩ := h
  obtain ⟨n, hn⟩ := exists_eq_mul_unit hm hk
  have hdiv : (m * 2 ^ k : ℚ) / unit (m * 2 ^ k) = n := by
    rw [div_eq_iff (unit_pos _).ne']
    exact hn
  rw [ofRational_eq, hdiv, nearest_intCast, ← hn, if_pos hlt]

theorem representable_natCast {n : ℕ} (h : n ≤ 2 ^ 53) : Representable n where
  scaled := ⟨n, 0, by simp, by rw [Int.abs_natCast]; exact_mod_cast h, by norm_num⟩
  lt := by
    rw [Nat.abs_cast]
    calc (n : ℚ) ≤ 2 ^ 53 := by exact_mod_cast h
      _ < 2 ^ 1024 := pow_lt_pow_right₀ (by norm_num) (by norm_num)

/-- The quotient by the unit has at most 53 bits before the point. -/
theorem abs_div_unit_le (q : ℚ) : |q / unit q| ≤ 2 ^ 53 := by
  rw [abs_div, abs_of_pos (unit_pos q), div_le_iff₀ (unit_pos q)]
  calc |q| ≤ 2 ^ (Int.log 2 |q| + 1) :=
        (Int.lt_zpow_succ_log_self (R := ℚ) (b := 2) (by norm_num) |q|).le
    _ = 2 ^ 53 * 2 ^ (Int.log 2 |q| - 52) := by
        rw [← zpow_natCast (2 : ℚ) 53, ← zpow_add₀ (by norm_num)]
        congr 1
        push_cast
        ring
    _ ≤ 2 ^ 53 * unit q := by
        apply mul_le_mul_of_nonneg_left _ (by norm_num)
        exact zpow_le_zpow_right₀ (by norm_num) (le_max_left _ _)

/-- A rounded number is not rounded once more. -/
theorem representable_of_ofRational {q r : ℚ} (h : ofRational q = .finite r) : Representable r := by
  rw [ofRational_eq] at h
  split at h
  · rename_i hlt
    rw [← JsNumber.finite.inj h]
    refine ⟨⟨nearest (q / unit q), max (Int.log 2 |q| - 52) (-1074), rfl, ?_, le_max_right _ _⟩, hlt⟩
    have hquotient := abs_div_unit_le q
    rw [abs_le] at hquotient ⊢
    constructor
    · apply le_nearest
      push_cast
      exact hquotient.1
    · apply nearest_le
      push_cast
      exact hquotient.2
  · cases h

/-! ## Order -/

/-- Rounding does not pass a number that is not rounded. -/
theorem le_nearest_mul_unit {p q : ℚ} (hp : Representable p) (h0 : 0 ≤ p) (hpq : p ≤ q) :
    p ≤ nearest (q / unit q) * unit q := by
  rcases h0.eq_or_lt with rfl | h0
  · have hle : (0 : ℤ) ≤ nearest (q / unit q) := by
      apply le_nearest
      rw [Int.cast_zero]
      exact div_nonneg hpq (unit_pos q).le
    exact mul_nonneg (Int.cast_nonneg hle) (unit_pos q).le
  · have hq0 : 0 < q := h0.trans_le hpq
    have hlog : Int.log 2 |p| ≤ Int.log 2 |q| := by
      rw [abs_of_pos h0, abs_of_pos hq0]
      exact Int.log_mono_right h0 hpq
    rcases (max_le_max_right (-1074) (Int.sub_le_sub_right hlog 52)).eq_or_lt with heq | hlt
    · -- the same distance around both
      have hunit : unit p = unit q := by rw [unit, unit, heq]
      obtain ⟨⟨m, k, hpm, hm, hk⟩, -⟩ := hp
      obtain ⟨n, hn⟩ := exists_eq_mul_unit hm hk
      rw [← hpm, hunit] at hn
      rw [hn]
      apply mul_le_mul_of_nonneg_right _ (unit_pos q).le
      have hle : n ≤ nearest (q / unit q) := by
        apply le_nearest
        rw [le_div_iff₀ (unit_pos q), ← hn]
        exact hpq
      exact_mod_cast hle
    · -- a power of two lies between them
      have hlogs : Int.log 2 |p| + 1 ≤ Int.log 2 |q| := by omega
      have hunit : unit q = 2 ^ (Int.log 2 |q| - 52) := by rw [unit, max_eq_left (by omega)]
      have hpower : (2 : ℚ) ^ Int.log 2 |q| = ((2 ^ 52 : ℤ) : ℚ) * unit q := by
        rw [hunit, Int.cast_pow, Int.cast_ofNat, ← zpow_natCast (2 : ℚ) 52,
          ← zpow_add₀ (by norm_num)]
        congr 1
        push_cast
        ring
      have hle : (2 ^ 52 : ℤ) ≤ nearest (q / unit q) := by
        apply le_nearest
        rw [le_div_iff₀ (unit_pos q), ← hpower, abs_of_pos hq0]
        exact Int.zpow_log_le_self (by norm_num) hq0
      calc p ≤ 2 ^ (Int.log 2 |p| + 1) := by
            rw [abs_of_pos h0]
            exact (Int.lt_zpow_succ_log_self (by norm_num) p).le
        _ ≤ 2 ^ Int.log 2 |q| := zpow_le_zpow_right₀ (by norm_num) hlogs
        _ = ((2 ^ 52 : ℤ) : ℚ) * unit q := hpower
        _ ≤ nearest (q / unit q) * unit q := by
            apply mul_le_mul_of_nonneg_right _ (unit_pos q).le
            exact_mod_cast hle

theorem le_ofRational {p q : ℚ} (hp : Representable p) (h0 : 0 ≤ p) (hpq : p ≤ q) :
    (finite p).le (ofRational q) = true := by
  rw [ofRational_eq]
  split
  · simp only [le, lt, same, Bool.or_eq_true, decide_eq_true_eq]
    exact (le_nearest_mul_unit hp h0 hpq).lt_or_eq
  · simp [le, lt, not_lt.mpr (h0.trans hpq)]

theorem le_of_le_of_le {a b c : JsNumber} (hab : a.le b = true) (hbc : b.le c = true) : a.le c = true := by
  rcases a with p | s | _ <;> rcases b with q | t | _ <;> rcases c with r | u | _ <;>
    simp only [le, lt, same, Bool.or_eq_true, Bool.or_false, Bool.not_eq_true',
      Bool.and_eq_true, decide_eq_true_eq, Bool.false_eq_true] at *
  · exact (le_trans (le_iff_lt_or_eq.mpr hab) (le_iff_lt_or_eq.mpr hbc)).lt_or_eq
  all_goals grind

theorem lt_of_le_of_lt {a b c : JsNumber} (hab : a.le b = true) (hbc : b.lt c = true) :
    a.lt c = true := by
  rcases a with p | s | _ <;> rcases b with q | t | _ <;> rcases c with r | u | _ <;>
    simp only [le, lt, same, Bool.or_eq_true, Bool.or_false, Bool.not_eq_true',
      Bool.and_eq_true, decide_eq_true_eq, Bool.false_eq_true] at *
  · exact (le_iff_lt_or_eq.mpr hab).trans_lt hbc
  all_goals grind

theorem not_lt_of_le {a b : JsNumber} (h : a.le b = true) : b.lt a = false := by
  rcases a with p | s | _ <;> rcases b with q | t | _ <;>
    simp only [le, lt, same, Bool.or_eq_true, Bool.or_false, Bool.not_eq_true',
      Bool.and_eq_true, decide_eq_true_eq, decide_eq_false_iff_not, Bool.false_eq_true] at *
  · exact not_lt.mpr (le_iff_lt_or_eq.mpr h)
  all_goals grind

/-! ## Sums -/

/-- The sum of a list, added up from the left. -/
def sum (l : List JsNumber) : JsNumber := l.foldl add (.finite 0)

theorem sum_append_singleton (l : List JsNumber) (x : JsNumber) : sum (l ++ [x]) = (sum l).add x := by
  rw [sum, List.foldl_append]
  rfl

/-- What a sum of numbers that are not negative can be. -/
def IsAmount (x : JsNumber) : Prop := x = .infinity false ∨ ∃ q, x = .finite q ∧ 0 ≤ q ∧ Representable q

/-- An amount does not get less when another one is added. -/
theorem IsAmount.add {x : JsNumber} (hx : x.IsAmount) {q : ℚ} (hq : 0 ≤ q) :
    (x.add (.finite q)).IsAmount ∧ x.le (x.add (.finite q)) = true := by
  rcases hx with rfl | ⟨p, rfl, hp, hrep⟩
  · exact ⟨.inl rfl, rfl⟩
  · have hsum : p ≤ p + q := le_add_of_nonneg_right hq
    have hle : (finite p).le ((finite p).add (.finite q)) = true := le_ofRational hrep hp hsum
    refine ⟨?_, hle⟩
    rw [JsNumber.add] at hle ⊢
    cases hround : ofRational (p + q) with
    | finite r =>
      rw [hround] at hle
      simp only [le, lt, same, Bool.or_eq_true, decide_eq_true_eq] at hle
      exact .inr ⟨r, rfl, hp.trans (le_iff_lt_or_eq.mpr hle), representable_of_ofRational hround⟩
    | infinity negative =>
      rw [hround] at hle
      simp only [le, lt, same, Bool.or_false, Bool.not_eq_true'] at hle
      rw [hle]
      exact .inl rfl
    | nan =>
      rw [hround] at hle
      cases hle

theorem foldl_add_natCast {l : List ℕ} {n : ℕ} (h : n + l.sum ≤ 2 ^ 53) :
    (l.map fun m : ℕ => finite m).foldl add (.finite n) = .finite ((n + l.sum : ℕ) : ℚ) := by
  induction l generalizing n with
  | nil => simp
  | cons m l ih =>
    rw [List.sum_cons, ← add_assoc] at h
    have hadd : (finite n).add (finite m) = .finite ((n + m : ℕ) : ℚ) := by
      rw [add, ← Nat.cast_add]
      exact (representable_natCast (by omega)).ofRational
    rw [List.map_cons, List.foldl_cons, hadd, ih h, List.sum_cons, add_assoc]

/-- The sum of natural numbers up to the bound is exact. -/
theorem sum_natCast {l : List ℕ} (h : l.sum ≤ 2 ^ 53) :
    sum (l.map fun m : ℕ => finite m) = .finite (l.sum : ℚ) := by
  have hsum := foldl_add_natCast (n := 0) (l := l) (by omega)
  rw [Nat.cast_zero, Nat.zero_add] at hsum
  exact hsum

/-! ## JSON -/

/-- JSON has a text for the number. -/
def InJson (x : JsNumber) : Prop := ∃ n : JsonNumber.Number, x = .finite n.val

/-- The JSON of a number, where there is one. -/
def json : JsNumber → Option JsonValue
  | .finite q => if h : q.den ∣ 10 ^ Nat.log2 q.den then some (.num ⟨q, h⟩) else none
  | _ => none

theorem json_finite (n : JsonNumber.Number) : json (.finite n.val) = some (.num n) :=
  dif_pos n.decimal

theorem json_eq_some {x : JsNumber} {v : JsonValue} :
    x.json = some v ↔ ∃ n : JsonNumber.Number, x = .finite n.val ∧ v = .num n := by
  constructor
  · intro h
    cases x with
    | finite q =>
      rw [json] at h
      split at h
      · rename_i hdecimal
        exact ⟨⟨q, hdecimal⟩, rfl, (Option.some.inj h).symm⟩
      · cases h
    | infinity negative => cases h
    | nan => cases h
  · rintro ⟨n, rfl, rfl⟩
    exact json_finite n

/-- `String` of a number. -/
def text : JsNumber → JsString
  | finite q => JsString.units (JsonNumber.numberText q)
  | infinity negative => if negative then js "-Infinity" else js "Infinity"
  | nan => js "NaN"

end Attestia.Lib.JsNumber
