import Attestia.Lib.Binary64
import Attestia.Lib.DecimalText
import Mathlib.Data.List.Chain

/-!
# Numbers as texts and back

`String` of a number is the shortest decimal that is rounded to it; `parseInt` reads the digits in
front and rounds them. A number without a fraction comes back where it is below `10 ^ 21`, from
which on its text has an exponent.
-/

namespace Attestia.Lib

namespace JsNumber

open JsonNumber DecimalText

/-! ## The shortest decimal -/

/-- The decimals with `k + 1` digits below and above a number, the closer one first. -/
def neighbours (q : ℚ) (k : ℕ) : List (ℕ × ℤ) :=
  let e := Int.log 10 q - k
  let below := (q / 10 ^ e).floor.toNat
  if nearest (q / 10 ^ e) = below then [(below, e), (below + 1, e)]
  else [(below + 1, e), (below, e)]

/-- The decimals with one digit, then those with two, and so on. -/
def candidates (q : ℚ) : List (ℕ × ℤ) := (List.range 17).flatMap (neighbours q)

def isRoundedTo (q : ℚ) (c : ℕ × ℤ) : Bool := ofRational (scale c.1 c.2) = .finite q

/-- The digits and the exponent of the shortest decimal that is rounded to a number. -/
def shortest (q : ℚ) : ℕ × ℤ :=
  match (candidates q).find? (isRoundedTo q) with
  | some c => stripZeros (Nat.log2 c.1) c.1 c.2
  | none => significant q

/-- The text of a number that is not negative. -/
def magnitude (q : ℚ) : List Char :=
  if q = 0 then ['0'] else decimalText (shortest q).1 (shortest q).2

def chars : JsNumber → List Char
  | finite q => if q < 0 then '-' :: magnitude |q| else magnitude |q|
  | infinity negative => if negative then "-Infinity".toList else "Infinity".toList
  | nan => "NaN".toList

/-- `String` of a number. -/
def string (x : JsNumber) : JsString := JsString.units x.chars

/-- A number of the language: what it holds where it is finite, a double holds. -/
def IsDouble (x : JsNumber) : Prop := ∀ q, x = .finite q → Representable q

theorem decimal_of_representable {q : ℚ} (h : Representable q) : Decimal q := by
  obtain ⟨⟨m, k, rfl, -, -⟩, -⟩ := h
  obtain ⟨n, rfl | rfl⟩ := k.eq_nat_or_neg
  · apply decimal_of_mul_eq (e := 0) (m := m * 2 ^ n)
    push_cast
    rw [zpow_natCast]
    ring
  · apply decimal_of_mul_eq (e := n) (m := m * 5 ^ n)
    push_cast
    rw [zpow_neg, zpow_natCast, show (10 : ℚ) = 2 * 5 by norm_num, mul_pow]
    field_simp

theorem Representable.abs {q : ℚ} (h : Representable q) : Representable |q| := by
  obtain ⟨⟨m, k, rfl, hm, hk⟩, hlt⟩ := h
  refine ⟨⟨|m|, k, ?_, by rwa [abs_abs], hk⟩, by rwa [abs_abs]⟩
  rw [abs_mul, abs_of_pos (zpow_pos (by norm_num : (0 : ℚ) < 2) k), Int.cast_abs]

/-- The shortest decimal is rounded to the number. -/
theorem ofRational_shortest {q : ℚ} (h : Representable q) (h0 : 0 ≤ q) :
    ofRational (scale (shortest q).1 (shortest q).2) = .finite q := by
  rw [shortest]
  split
  · rename_i c hc
    have hround := List.find?_some hc
    rw [scale_stripZeros]
    exact of_decide_eq_true hround
  · rw [scale_significant (decimal_of_representable h), abs_of_nonneg h0]
    exact h.ofRational

theorem ofRational_zero : ofRational 0 = .finite 0 := by
  have h := (representable_natCast (n := 0) (by norm_num)).ofRational
  rwa [Nat.cast_zero] at h

theorem shortest_ne_zero {q : ℚ} (h : Representable q) (h0 : 0 < q) : (shortest q).1 ≠ 0 := by
  intro hzero
  have hround := ofRational_shortest h h0.le
  rw [hzero, scale_eq, Nat.cast_zero, zero_mul, ofRational_zero] at hround
  exact h0.ne (JsNumber.finite.inj hround)

/-! ## Numbers without a fraction -/

theorem mem_neighbours {q : ℚ} {k : ℕ} {c : ℕ × ℤ} (h : c ∈ neighbours q k) :
    c.2 = Int.log 10 q - k := by
  simp only [neighbours] at h
  split at h <;> simp only [List.mem_cons, List.not_mem_nil, or_false] at h <;>
    rcases h with rfl | rfl <;> rfl

/-- The exponents get lower from candidate to candidate. -/
theorem pairwise_candidates (q : ℚ) : (candidates q).Pairwise fun c d => d.2 ≤ c.2 := by
  rw [candidates, List.pairwise_flatMap]
  constructor
  · intro k _
    apply List.pairwise_of_forall_mem_list
    intro c hc d hd
    rw [mem_neighbours hc, mem_neighbours hd]
  · apply List.pairwise_lt_range.imp
    intro j k hjk c hc d hd
    rw [mem_neighbours hc, mem_neighbours hd]
    omega

theorem scale_zero_exponent (n : ℕ) : scale n 0 = n := by
  rw [scale_eq, zpow_zero, mul_one]

/-- A number without a fraction is its own decimal without a fraction. -/
theorem mem_candidates_natCast {n : ℕ} (hlog : Nat.log 10 n < 17) :
    (n, 0) ∈ candidates (n : ℚ) := by
  apply List.mem_flatMap.mpr
  refine ⟨Nat.log 10 n, List.mem_range.mpr hlog, ?_⟩
  have hfloor : ((n : ℚ)).floor = n := Rat.floor_intCast n
  have hnearest : nearest (n : ℚ) = n := nearest_intCast n
  simp [neighbours, hfloor, hnearest]

/-- The shortest decimal of a number without a fraction has none. -/
theorem shortest_natCast_nonneg {n : ℕ} (h : Representable n) : 0 ≤ (shortest (n : ℚ)).2 := by
  rw [shortest]
  split
  · rename_i c hc
    apply le_trans _ (le_stripZeros _ _ _)
    obtain ⟨-, before, after, hlist, hbefore⟩ := List.find?_eq_some_iff_append.mp hc
    by_cases hlog : Nat.log 10 n < 17
    · -- the decimal without a fraction is a candidate, and not one of those before
      have hmem := mem_candidates_natCast hlog
      have hrounded : isRoundedTo n (n, 0) = true := by
        rw [isRoundedTo, scale_zero_exponent]
        exact decide_eq_true h.ofRational
      have hpairwise := pairwise_candidates (n : ℚ)
      rw [hlist] at hmem hpairwise
      rcases List.mem_append.mp hmem with hmem | hmem
      · have hnot := hbefore _ hmem
        rw [hrounded] at hnot
        cases hnot
      · rcases List.mem_cons.mp hmem with heq | hmem
        · rw [← heq]
        · have hafter := (List.pairwise_append.mp hpairwise).2.1
          exact List.rel_of_pairwise_cons hafter hmem
    · have hmem : c ∈ candidates (n : ℚ) := by
        rw [hlist]
        exact List.mem_append_right _ (.head _)
      obtain ⟨k, hk, hmem⟩ := List.mem_flatMap.mp hmem
      rw [mem_neighbours hmem, Int.log_natCast]
      have hrange := List.mem_range.mp hk
      omega
  · exact le_stripZeros _ _ _

/-- Rounding up does not pass a number that is not rounded. -/
theorem nearest_mul_unit_le {p q : ℚ} (hp : Representable p) (h0 : 0 < q) (hqp : q ≤ p) :
    nearest (q / unit q) * unit q ≤ p := by
  have hlog : Int.log 2 |q| ≤ Int.log 2 |p| := by
    rw [abs_of_pos h0, abs_of_pos (h0.trans_le hqp)]
    exact Int.log_mono_right h0 hqp
  obtain ⟨⟨m, k, hpm, hm, hk⟩, -⟩ := hp
  obtain ⟨n, hn⟩ := exists_eq_mul_unit hm hk
  rw [← hpm] at hn
  -- the distance around `p` is a multiple of the one around `q`
  obtain ⟨j, hj⟩ : ∃ j : ℕ, max (Int.log 2 |p| - 52) (-1074) =
      max (Int.log 2 |q| - 52) (-1074) + j :=
    ⟨(max (Int.log 2 |p| - 52) (-1074) - max (Int.log 2 |q| - 52) (-1074)).toNat, by omega⟩
  have hunit : unit p = ((2 ^ j : ℤ) : ℚ) * unit q := by
    rw [unit, unit, hj, zpow_add₀ (by norm_num), zpow_natCast]
    push_cast
    ring
  rw [hunit, ← mul_assoc, ← Int.cast_mul] at hn
  rw [hn]
  apply mul_le_mul_of_nonneg_right _ (unit_pos q).le
  have hle : nearest (q / unit q) ≤ n * 2 ^ j := by
    apply nearest_le
    rw [div_le_iff₀ (unit_pos q), ← hn]
    exact hqp
  exact_mod_cast hle

theorem le_of_ofRational_eq {p q r : ℚ} (hp : Representable p) (h0 : 0 < q) (hqp : q ≤ p)
    (h : ofRational q = .finite r) : r ≤ p := by
  rw [ofRational_eq] at h
  split at h
  · rw [← JsNumber.finite.inj h]
    exact nearest_mul_unit_le hp h0 hqp
  · cases h

theorem ge_of_ofRational_eq {p q r : ℚ} (hp : Representable p) (h0 : 0 ≤ p) (hpq : p ≤ q)
    (h : ofRational q = .finite r) : p ≤ r := by
  have hle := le_ofRational hp h0 hpq
  rw [h] at hle
  simp only [le, lt, same, Bool.or_eq_true, decide_eq_true_eq] at hle
  exact le_iff_lt_or_eq.mpr hle

/-- A number without a fraction is rounded to one without a fraction. -/
theorem exists_natCast_of_ofRational_eq {n : ℕ} {r : ℚ} (h : ofRational n = .finite r) :
    ∃ m : ℕ, r = m := by
  by_cases hn : n ≤ 2 ^ 53
  · rw [(representable_natCast hn).ofRational] at h
    exact ⟨n, (JsNumber.finite.inj h).symm⟩
  · rw [ofRational_eq] at h
    split at h
    · have hlog : 53 ≤ Nat.log 2 n := by
        apply (Nat.le_log_iff_pow_le (by norm_num) (by omega)).mpr
        omega
      have hunit : unit (n : ℚ) = ((2 ^ (Nat.log 2 n - 52) : ℕ) : ℚ) := by
        rw [unit, Nat.abs_cast, Int.log_natCast, max_eq_left (by omega)]
        rw [show (Nat.log 2 n : ℤ) - 52 = ((Nat.log 2 n - 52 : ℕ) : ℤ) by omega, zpow_natCast]
        push_cast
        rfl
      have hnonneg : 0 ≤ nearest ((n : ℚ) / unit n) := by
        apply le_nearest
        rw [Int.cast_zero]
        exact div_nonneg n.cast_nonneg (unit_pos _).le
      obtain ⟨m, hm⟩ := Int.eq_ofNat_of_zero_le hnonneg
      refine ⟨m * 2 ^ (Nat.log 2 n - 52), ?_⟩
      rw [← JsNumber.finite.inj h, hm, hunit, Nat.cast_mul, Int.cast_natCast]
    · cases h

/-! ## Layouts -/

/-- Up to 21 digits a decimal without a fraction is written out. -/
theorem decimalText_natCast {s k : ℕ} (hs : s ≠ 0) (h : s * 10 ^ k < 10 ^ 21) :
    decimalText s k = natText (s * 10 ^ k) := by
  have hlength := congrArg List.length (natText_mul_pow hs k)
  rw [List.length_append, List.length_replicate] at hlength
  have hbound : (natText (s * 10 ^ k)).length ≤ 21 :=
    (Nat.length_toDigits_le_iff (by decide) (by decide)).mpr h
  rw [decimalText, if_pos ⟨by omega, by omega⟩, natText_mul_pow hs]
  congr 2
  omega

/-- From 22 digits on it has an exponent, behind its first digit. -/
theorem decimalText_of_le {s k : ℕ} (hs : s ≠ 0) (h : 10 ^ 21 ≤ s * 10 ^ k) :
    ∃ c x rest, decimalText s k = c :: x :: rest ∧ c.isDigit = true ∧ (x = '.' ∨ x = 'e') := by
  have hlength := congrArg List.length (natText_mul_pow hs k)
  rw [List.length_append, List.length_replicate] at hlength
  have hbound : 21 < (natText (s * 10 ^ k)).length := by
    by_contra hle
    have hlt := (Nat.length_toDigits_le_iff (by decide) (by decide)).mp (not_lt.mp hle)
    omega
  obtain ⟨c, cs, hds⟩ := List.exists_cons_of_ne_nil (natText_ne_nil s)
  have hc : c.isDigit = true := by
    apply isDigit_of_mem_natText (n := s)
    rw [hds]
    exact .head _
  rw [decimalText, if_neg (by omega), if_neg (by omega), if_neg (by omega), hds]
  cases cs with
  | nil => exact ⟨c, 'e', _, rfl, hc, .inr rfl⟩
  | cons d cs => exact ⟨c, '.', _, rfl, hc, .inl rfl⟩

/-- The digits and the exponent of a number without a fraction. -/
theorem exists_shortest_natCast {n : ℕ} (h : Representable n) (h0 : n ≠ 0) :
    ∃ s k : ℕ, shortest (n : ℚ) = (s, (k : ℤ)) ∧ s ≠ 0 ∧
      ofRational ((s * 10 ^ k : ℕ) : ℚ) = .finite n := by
  obtain ⟨k, hk⟩ := Int.eq_ofNat_of_zero_le (shortest_natCast_nonneg h)
  have hround := ofRational_shortest h n.cast_nonneg
  have hs := shortest_ne_zero h (Nat.cast_pos.mpr (Nat.pos_of_ne_zero h0))
  rw [hk] at hround
  exact ⟨(shortest (n : ℚ)).1, k, Prod.ext rfl hk, hs, hround⟩

theorem representable_ten_pow : Representable ((10 ^ 21 : ℕ) : ℚ) where
  scaled := ⟨5 ^ 21, 21, by norm_num, by norm_num, by norm_num⟩
  lt := by
    rw [Nat.abs_cast]
    calc ((10 ^ 21 : ℕ) : ℚ) ≤ 2 ^ 70 := by norm_num
      _ < 2 ^ 1024 := pow_lt_pow_right₀ (by norm_num) (by norm_num)

/-- The first number whose text has an exponent. -/
theorem shortest_ten_pow : shortest ((10 ^ 21 : ℕ) : ℚ) = (1, 21) := by
  have hlog : Int.log 10 ((10 ^ 21 : ℕ) : ℚ) = 21 := by
    rw [Int.log_natCast, Nat.log_pow (by norm_num)]
    rfl
  have hone : ((10 ^ 21 : ℕ) : ℚ) / 10 ^ (21 : ℤ) = ((1 : ℤ) : ℚ) := by norm_num
  have hneighbours : neighbours ((10 ^ 21 : ℕ) : ℚ) 0 = [(1, 21), (2, 21)] := by
    rw [neighbours, hlog]
    simp only [Nat.cast_zero, sub_zero, hone, nearest_intCast, Rat.floor_intCast]
    rfl
  have hround : isRoundedTo ((10 ^ 21 : ℕ) : ℚ) (1, 21) = true := by
    have hscale : scale 1 21 = ((10 ^ 21 : ℕ) : ℚ) := by
      rw [scale_eq]
      norm_num
    rw [isRoundedTo, hscale]
    exact decide_eq_true representable_ten_pow.ofRational
  have hfind : (candidates ((10 ^ 21 : ℕ) : ℚ)).find? (isRoundedTo ((10 ^ 21 : ℕ) : ℚ)) =
      some (1, 21) := by
    rw [candidates, show List.range 17 = 0 :: (List.range 16).map Nat.succ from rfl,
      List.flatMap_cons, hneighbours]
    exact List.find?_cons_of_pos hround
  rw [shortest, hfind]
  rfl

/-- Below the bound a number without a fraction is written out by its shortest decimal. -/
theorem magnitude_natCast {n : ℕ} (h : Representable n) (hn : n < 10 ^ 21) :
    ∃ v, magnitude (n : ℚ) = natText v ∧ ofRational (v : ℚ) = .finite n := by
  rcases eq_or_ne n 0 with rfl | h0
  · exact ⟨0, rfl, by rw [Nat.cast_zero, ofRational_zero]⟩
  · obtain ⟨s, k, hshortest, hs, hround⟩ := exists_shortest_natCast h h0
    have hlt : s * 10 ^ k < 10 ^ 21 := by
      by_contra hle
      have hge := ge_of_ofRational_eq representable_ten_pow (Nat.cast_nonneg _)
        (Nat.cast_le.mpr (not_lt.mp hle)) hround
      have hge' : 10 ^ 21 ≤ n := Nat.cast_le.mp hge
      omega
    refine ⟨s * 10 ^ k, ?_, hround⟩
    rw [magnitude, if_neg (Nat.cast_ne_zero.mpr h0), hshortest]
    exact decimalText_natCast hs hlt

/-- From the bound on it is written with an exponent. -/
theorem magnitude_of_le {n : ℕ} (h : Representable n) (hn : 10 ^ 21 ≤ n) :
    ∃ c x rest, magnitude (n : ℚ) = c :: x :: rest ∧ c.isDigit = true ∧ (x = '.' ∨ x = 'e') := by
  have h0 : n ≠ 0 := by omega
  obtain ⟨s, k, hshortest, hs, hround⟩ := exists_shortest_natCast h h0
  have hle : 10 ^ 21 ≤ s * 10 ^ k := by
    rcases hn.eq_or_lt with heq | hgt
    · have hten := heq ▸ hshortest
      rw [shortest_ten_pow] at hten
      obtain ⟨rfl, hk⟩ := Prod.mk.inj hten
      have hk : k = 21 := by omega
      rw [hk, one_mul]
    · by_contra hlt
      have hpos : 0 < s * 10 ^ k := by positivity
      have hle := le_of_ofRational_eq representable_ten_pow (Nat.cast_pos.mpr hpos)
        (Nat.cast_le.mpr (by omega)) hround
      have hle' : n ≤ 10 ^ 21 := Nat.cast_le.mp hle
      omega
  rw [magnitude, if_neg (Nat.cast_ne_zero.mpr h0), hshortest]
  exact decimalText_of_le hs hle

/-! ## Reading a number -/

def plus : UInt16 := 43

/-- The number of a sign and digits: these are rounded, and the sign is put to the result. -/
def ofDigits (negative : Bool) (digits : JsString) : JsNumber :=
  if digits = [] then nan
  else if negative then (ofRational (digitsNat digits)).neg
  else ofRational (digitsNat digits)

/-- `parseInt` with base ten. -/
def parseInt (s : JsString) : JsNumber :=
  let t := s.dropWhile isBlank
  let unsigned := if t.head? = some minus ∨ t.head? = some plus then t.tail else t
  ofDigits (t.head? = some minus) (unsigned.takeWhile isDigit)

/-- The text in front of the first minus, `split("-")[0]`. -/
def beforeMinus (s : JsString) : JsString := s.takeWhile (· ≠ minus)

theorem exists_intCast_of_ofDigits_eq {negative : Bool} {digits : JsString} {q : ℚ}
    (h : ofDigits negative digits = .finite q) : ∃ n : ℤ, q = n := by
  rw [ofDigits] at h
  split at h
  · cases h
  cases negative with
  | false =>
    obtain ⟨m, hm⟩ := exists_natCast_of_ofRational_eq h
    exact ⟨m, by rw [hm, Int.cast_natCast]⟩
  | true =>
    rw [if_pos rfl] at h
    cases hround : ofRational (digitsNat digits) with
    | finite r =>
      obtain ⟨m, hm⟩ := exists_natCast_of_ofRational_eq hround
      rw [hround, neg] at h
      refine ⟨-m, ?_⟩
      rw [← JsNumber.finite.inj h, hm, Int.cast_neg, Int.cast_natCast]
    | infinity negative =>
      rw [hround] at h
      cases h
    | nan =>
      rw [hround] at h
      cases h

/-- What is read is a number without a fraction. -/
theorem exists_intCast_of_parseInt_eq {s : JsString} {q : ℚ} (h : parseInt s = .finite q) :
    ∃ n : ℤ, q = n :=
  exists_intCast_of_ofDigits_eq h

section

variable {ds rest : JsString}

theorem takeWhile_digits (hds : AllDigits ds) (hrest : ∀ u ∈ rest.head?, isDigit u = false) :
    (ds ++ rest).takeWhile isDigit = ds := by
  rw [List.takeWhile_append_of_pos hds]
  cases rest with
  | nil => rw [List.takeWhile_nil, List.append_nil]
  | cons u rest =>
    rw [List.takeWhile_cons_of_neg (by rw [hrest u rfl]; decide), List.append_nil]

theorem parseInt_digits (hds : AllDigits ds) (hne : ds ≠ [])
    (hrest : ∀ u ∈ rest.head?, isDigit u = false) :
    parseInt (ds ++ rest) = ofRational (digitsNat ds) := by
  have htake := takeWhile_digits hds hrest
  obtain ⟨u, ds, rfl⟩ := List.exists_cons_of_ne_nil hne
  have hu : isDigit u = true := hds u (.head _)
  have hminus := ne_minus_of_isDigit hu
  have hplus : u ≠ plus := by
    rintro rfl
    cases hu
  have hdrop : (u :: ds ++ rest).dropWhile isBlank = u :: ds ++ rest := by
    rw [List.cons_append, List.dropWhile_cons_of_neg (by rw [isBlank_of_isDigit hu]; decide)]
  simp only [parseInt, hdrop]
  rw [List.cons_append, List.head?_cons, if_neg (by simp [hminus, hplus]),
    ← List.cons_append, htake, ofDigits, if_neg (List.cons_ne_nil _ _), if_neg (by simp [hminus])]

theorem parseInt_minus_digits (hds : AllDigits ds) (hne : ds ≠ [])
    (hrest : ∀ u ∈ rest.head?, isDigit u = false) :
    parseInt (minus :: (ds ++ rest)) = (ofRational (digitsNat ds)).neg := by
  have htake := takeWhile_digits hds hrest
  have hblank : isBlank minus = false := by decide
  have hdrop : (minus :: (ds ++ rest)).dropWhile isBlank = minus :: (ds ++ rest) := by
    rw [List.dropWhile_cons_of_neg (by rw [hblank]; decide)]
  simp only [parseInt, hdrop]
  rw [List.head?_cons, if_pos (.inl rfl), List.tail_cons, htake, ofDigits, if_neg hne,
    if_pos (by simp)]

end

theorem beforeMinus_of_notMem {s : JsString} (h : minus ∉ s) : beforeMinus s = s := by
  apply List.takeWhile_eq_self_iff.mpr
  intro u hu
  exact decide_eq_true fun heq => h (heq ▸ hu)

/-- A text that starts with one digit and no other. -/
theorem exists_units_of_digit {c x : Char} {cs : List Char} (hc : c.isDigit = true)
    (hx : x = '.' ∨ x = 'e') :
    ∃ u w rest, JsString.units (c :: x :: cs) = u :: w :: rest ∧ isDigit u = true ∧
      isDigit w = false ∧ w ≠ minus := by
  obtain ⟨hu, hnat, h1, h2⟩ := utf16_of_isDigit hc
  have hdigit : isDigit (UInt16.ofNat c.toNat) = true := by
    rw [isDigit, hnat]
    simpa using ⟨h1, h2⟩
  have hunits : JsString.units (c :: x :: cs) =
      UInt16.ofNat c.toNat :: (JsString.utf16 x ++ JsString.units cs) := by
    rw [JsString.units, List.flatMap_cons, List.flatMap_cons, hu]
    rfl
  rw [hunits]
  rcases hx with rfl | rfl
  · exact ⟨_, 46, JsString.units cs, rfl, hdigit, by decide, by decide⟩
  · exact ⟨_, 101, JsString.units cs, rfl, hdigit, by decide, by decide⟩

/-! ## Back from the text -/

theorem string_neg {q : ℚ} (h : 0 < q) : string (.finite (-q)) = minus :: string (.finite q) := by
  rw [string, string, chars, chars, if_pos (neg_lt_zero.mpr h), if_neg (not_lt.mpr h.le), abs_neg]
  rfl

theorem string_natCast {n : ℕ} (h : Representable n) (hn : n < 10 ^ 21) :
    ∃ v, string (.finite n) = natDigits v ∧ ofRational (v : ℚ) = .finite n := by
  obtain ⟨v, hv, hround⟩ := magnitude_natCast h hn
  refine ⟨v, ?_, hround⟩
  rw [string, chars, if_neg (not_lt.mpr n.cast_nonneg), Nat.abs_cast, hv, natDigits]

theorem string_of_le {n : ℕ} (h : Representable n) (hn : 10 ^ 21 ≤ n) :
    ∃ u w rest, string (.finite n) = u :: w :: rest ∧ isDigit u = true ∧ isDigit w = false ∧
      w ≠ minus := by
  obtain ⟨c, x, cs, hcs, hc, hx⟩ := magnitude_of_le h hn
  rw [string, chars, if_neg (not_lt.mpr n.cast_nonneg), Nat.abs_cast, hcs]
  exact exists_units_of_digit hc hx

/-- A single digit is not a number of two or more. -/
theorem ofRational_digit_ne {u : UInt16} (hu : isDigit u = true) {n : ℕ} (hn : 10 ≤ n) :
    ofRational (digitsNat [u]) ≠ .finite n := by
  intro h
  have hnat := toNat_of_isDigit hu
  have hle : digitsNat [u] ≤ 9 := by
    simp only [digitsNat, List.foldl_cons, List.foldl_nil]
    omega
  rw [(representable_natCast (by omega)).ofRational] at h
  have heq : digitsNat [u] = n := Nat.cast_injective (JsNumber.finite.inj h)
  omega

theorem parseInt_natDigits (v : ℕ) : parseInt (natDigits v) = ofRational v := by
  have h := @parseInt_digits _ [] (fun u hu => isDigit_of_mem_natDigits hu)
    (natDigits_ne_nil v) (fun u hu => by cases hu)
  rwa [List.append_nil, digitsNat_natDigits] at h

theorem parseInt_minus_natDigits (v : ℕ) : parseInt (minus :: natDigits v) = (ofRational v).neg := by
  have h := @parseInt_minus_digits _ [] (fun u hu => isDigit_of_mem_natDigits hu)
    (natDigits_ne_nil v) (fun u hu => by cases hu)
  rwa [List.append_nil, digitsNat_natDigits] at h

theorem parseInt_cons_ne {u w : UInt16} {rest : JsString} (hu : isDigit u = true)
    (hw : isDigit w = false) {n : ℕ} (hn : 10 ≤ n) : parseInt (u :: w :: rest) ≠ .finite n := by
  have hdigit : AllDigits [u] := fun v hv => List.mem_singleton.mp hv ▸ hu
  have h := @parseInt_digits _ (w :: rest) hdigit (List.cons_ne_nil u [])
    (fun v hv => Option.some.inj hv ▸ hw)
  rw [List.singleton_append] at h
  rw [h]
  exact ofRational_digit_ne hu hn

theorem parseInt_minus_cons_ne {u w : UInt16} {rest : JsString} (hu : isDigit u = true)
    (hw : isDigit w = false) {n : ℕ} (hn : 10 ≤ n) :
    parseInt (minus :: u :: w :: rest) ≠ .finite (-n) := by
  have hdigit : AllDigits [u] := fun v hv => List.mem_singleton.mp hv ▸ hu
  have h := @parseInt_minus_digits _ (w :: rest) hdigit (List.cons_ne_nil u [])
    (fun v hv => Option.some.inj hv ▸ hw)
  rw [List.singleton_append] at h
  rw [h]
  intro hneg
  apply ofRational_digit_ne hu hn
  cases hround : ofRational (digitsNat [u]) with
  | finite r =>
    rw [hround, neg] at hneg
    rw [neg_injective (JsNumber.finite.inj hneg)]
  | infinity negative =>
    rw [hround] at hneg
    cases hneg
  | nan =>
    rw [hround] at hneg
    cases hneg

/-- A number without a fraction comes back exactly where it is below the bound. -/
theorem parseInt_string_iff {n : ℤ} (h : Representable n) :
    parseInt (string (.finite n)) = .finite n ↔ n.natAbs < 10 ^ 21 := by
  have habs : Representable (n.natAbs : ℚ) := by
    rw [Nat.cast_natAbs, Int.cast_abs]
    exact h.abs
  rcases lt_or_ge n.natAbs (10 ^ 21) with hlt | hle
  · refine iff_of_true ?_ hlt
    obtain ⟨v, hv, hround⟩ := string_natCast habs hlt
    rcases n.natAbs_eq with heq | heq
    · rw [heq, Int.cast_natCast, hv, parseInt_natDigits, hround]
    · rcases n.natAbs.eq_zero_or_pos with hzero | hpos
      · rw [hzero] at heq hv hround
        rw [heq, Nat.cast_zero, neg_zero, Int.cast_zero]
        rw [Nat.cast_zero] at hv hround
        rw [hv, parseInt_natDigits, hround]
      · rw [heq, Int.cast_neg, Int.cast_natCast, string_neg (Nat.cast_pos.mpr hpos), hv,
          parseInt_minus_natDigits, hround, neg]
  · refine iff_of_false ?_ (not_lt.mpr hle)
    obtain ⟨u, w, rest, hstring, hu, hw, -⟩ := string_of_le habs hle
    have hpos : 0 < n.natAbs := by omega
    rcases n.natAbs_eq with heq | heq
    · rw [heq, Int.cast_natCast, hstring]
      exact parseInt_cons_ne hu hw (by omega)
    · rw [heq, Int.cast_neg, Int.cast_natCast, string_neg (Nat.cast_pos.mpr hpos), hstring]
      exact parseInt_minus_cons_ne hu hw (by omega)

/-- What a text without a minus and without an exponent comes back to. -/
def IsPlain (x : JsNumber) : Prop := x = nan ∨ ∃ n : ℕ, n < 10 ^ 21 ∧ x = .finite n

theorem beforeMinus_natDigits (v : ℕ) : beforeMinus (natDigits v) = natDigits v := by
  apply beforeMinus_of_notMem
  intro hminus
  exact ne_minus_of_isDigit (isDigit_of_mem_natDigits hminus) rfl

theorem parseInt_beforeMinus_natCast {n : ℕ} (h : Representable n) :
    parseInt (beforeMinus (string (.finite n))) = .finite n ↔ n < 10 ^ 21 := by
  rcases lt_or_ge n (10 ^ 21) with hlt | hle
  · refine iff_of_true ?_ hlt
    obtain ⟨v, hv, hround⟩ := string_natCast h hlt
    rw [hv, beforeMinus_natDigits, parseInt_natDigits, hround]
  · refine iff_of_false ?_ (not_lt.mpr hle)
    obtain ⟨u, w, rest, hstring, hu, hw, hminus⟩ := string_of_le h hle
    have hbefore : beforeMinus (string (.finite n)) = u :: w :: beforeMinus rest := by
      rw [hstring, beforeMinus, List.takeWhile_cons_of_pos (by simpa using ne_minus_of_isDigit hu),
        List.takeWhile_cons_of_pos (by simpa using hminus)]
      rfl
    rw [hbefore]
    exact parseInt_cons_ne hu hw (by omega)

/-- The part in front of the first minus comes back to the number exactly where the number is
plain. -/
theorem parseInt_beforeMinus_iff {x : JsNumber} (h : x.IsDouble) :
    parseInt (beforeMinus x.string) = x ↔ x.IsPlain := by
  have hnil : parseInt [] = nan := rfl
  cases x with
  | nan => exact iff_of_true rfl (.inl rfl)
  | infinity negative =>
    have hnan : parseInt (beforeMinus (infinity negative).string) = nan := by
      cases negative <;> rfl
    rw [hnan]
    refine iff_of_false (fun heq => by cases heq) ?_
    rintro (heq | ⟨n, -, heq⟩) <;> cases heq
  | finite q =>
    constructor
    · intro hparse
      obtain ⟨n, rfl⟩ := exists_intCast_of_parseInt_eq hparse
      rcases lt_or_ge n 0 with hneg | hpos
      · -- a text that starts with a minus has nothing in front of it
        obtain ⟨m, rfl⟩ : ∃ m : ℕ, n = -m := ⟨n.natAbs, by omega⟩
        rw [Int.cast_neg, Int.cast_natCast, string_neg (Nat.cast_pos.mpr (by omega))] at hparse
        have hempty : ∀ s : JsString, beforeMinus (minus :: s) = [] := fun s =>
          List.takeWhile_cons_of_neg (by decide)
        rw [hempty, hnil] at hparse
        cases hparse
      · obtain ⟨m, rfl⟩ := Int.eq_ofNat_of_zero_le hpos
        rw [Int.cast_natCast] at hparse h ⊢
        have hlt := (parseInt_beforeMinus_natCast (h _ rfl)).mp hparse
        exact .inr ⟨m, hlt, rfl⟩
    · rintro (heq | ⟨n, hn, heq⟩)
      · cases heq
      · rw [heq]
        rw [heq] at h
        exact (parseInt_beforeMinus_natCast (h _ rfl)).mpr hn

/-! ## Different numbers have different texts -/

theorem parseUnsigned_magnitude {q : ℚ} (h : Representable q) (h0 : 0 ≤ q) :
    ∃ v, parseUnsigned (magnitude q) = some v ∧ ofRational v = .finite q := by
  rcases h0.eq_or_lt with rfl | hpos
  · exact ⟨0, by decide, ofRational_zero⟩
  · refine ⟨scale (shortest q).1 (shortest q).2, ?_, ofRational_shortest h h0⟩
    rw [magnitude, if_neg hpos.ne']
    exact parseUnsigned_decimalText (shortest_ne_zero h hpos) _

theorem head_magnitude {q : ℚ} (h : Representable q) (h0 : 0 ≤ q) :
    ∃ c cs, magnitude q = c :: cs ∧ c.isDigit = true := by
  rcases h0.eq_or_lt with rfl | hpos
  · exact ⟨'0', [], rfl, rfl⟩
  · rw [magnitude, if_neg hpos.ne']
    exact head_decimalText (shortest_ne_zero h hpos) _

/-- The number of a text, as `Number` reads it. -/
def readMagnitude (cs : List Char) : JsNumber :=
  match parseUnsigned cs with
  | some v => ofRational v
  | none => nan

def read (cs : List Char) : JsNumber :=
  if cs.head? = some 'N' then nan
  else if cs.head? = some 'I' then infinity false
  else if cs.head? = some '-' then
    if cs.tail.head? = some 'I' then infinity true else (readMagnitude cs.tail).neg
  else readMagnitude cs

theorem readMagnitude_magnitude {q : ℚ} (h : Representable q) (h0 : 0 ≤ q) :
    readMagnitude (magnitude q) = .finite q := by
  obtain ⟨v, hv, hround⟩ := parseUnsigned_magnitude h h0
  rw [readMagnitude, hv]
  exact hround

theorem ne_of_isDigit {c d : Char} (hc : c.isDigit = true) (hd : d.isDigit = false) : c ≠ d := by
  rintro rfl
  cases hc.symm.trans hd

/-- The text of a double is read as the double. -/
theorem read_chars {x : JsNumber} (h : x.IsDouble) : read x.chars = x := by
  cases x with
  | nan => rfl
  | infinity negative => cases negative <;> rfl
  | finite q =>
    have hmagnitude := readMagnitude_magnitude (h q rfl).abs (abs_nonneg q)
    obtain ⟨c, cs, hcs, hc⟩ := head_magnitude (h q rfl).abs (abs_nonneg q)
    have hN : c ≠ 'N' := ne_of_isDigit hc (by decide)
    have hI : c ≠ 'I' := ne_of_isDigit hc (by decide)
    have hminus : c ≠ '-' := ne_of_isDigit hc (by decide)
    rw [chars]
    split
    · rename_i hneg
      rw [read, List.tail_cons, hmagnitude, hcs, List.head?_cons, if_neg (by decide),
        if_neg (by decide), if_pos rfl, List.head?_cons, if_neg (by simpa using hI), neg,
        abs_of_neg hneg, neg_neg]
    · rename_i hneg
      rw [read, hmagnitude, hcs, List.head?_cons, if_neg (by simpa using hN),
        if_neg (by simpa using hI), if_neg (by simpa using hminus),
        abs_of_nonneg (not_lt.mp hneg)]

/-- Two doubles of one text are the same. -/
theorem chars_injective {x y : JsNumber} (hx : x.IsDouble) (hy : y.IsDouble)
    (h : x.chars = y.chars) : x = y := by
  rw [← read_chars hx, h, read_chars hy]

theorem string_inj {x y : JsNumber} (hx : x.IsDouble) (hy : y.IsDouble)
    (h : x.string = y.string) : x = y :=
  chars_injective hx hy (JsString.units_injective h)

/-! ## Where a text ends -/

/-- A minus that is not in front stands behind an exponent sign. -/
def MinusAfterExponent (a b : Char) : Prop := b = '-' → a = 'e'

/-- The characters of a number without a sign and an exponent. -/
def IsMantissa (cs : List Char) : Prop := ∀ c ∈ cs, c.isDigit = true ∨ c = '.'

theorem isMantissa_natText (n : ℕ) : IsMantissa (natText n) := fun _ hc =>
  .inl (isDigit_of_mem_natText hc)

theorem isMantissa_zeros (n : ℕ) : IsMantissa (List.replicate n '0') := fun c hc => by
  rw [(List.mem_replicate.mp hc).2]
  exact .inl rfl

theorem IsMantissa.append {a b : List Char} (ha : IsMantissa a) (hb : IsMantissa b) :
    IsMantissa (a ++ b) := fun c hc => by
  rcases List.mem_append.mp hc with hc | hc
  · exact ha c hc
  · exact hb c hc

theorem IsMantissa.cons {c : Char} {cs : List Char} (hc : c.isDigit = true ∨ c = '.')
    (hcs : IsMantissa cs) : IsMantissa (c :: cs) := List.forall_mem_cons.mpr ⟨hc, hcs⟩

theorem IsMantissa.isChain {cs : List Char} (h : IsMantissa cs) :
    cs.IsChain MinusAfterExponent := by
  apply List.Pairwise.isChain
  apply List.pairwise_of_forall_mem_list
  intro a _ b hb heq
  rcases h b hb with hdigit | hdot
  · rw [heq] at hdigit
    cases hdigit
  · rw [heq] at hdot
    cases hdot

/-- A text that has a minus in front or behind an exponent sign only, and ends in something else
than this sign. -/
structure IsClosed (cs : List Char) : Prop where
  isChain : cs.IsChain MinusAfterExponent
  last : ∃ c, cs.getLast? = some c ∧ c ≠ 'e'

theorem isClosed_of_digits {front digits : List Char} (hne : digits ≠ [])
    (hdigits : ∀ c ∈ digits, c.isDigit = true)
    (hchain : (front ++ digits).IsChain MinusAfterExponent) : IsClosed (front ++ digits) where
  isChain := hchain
  last := by
    refine ⟨digits.getLast hne, ?_, ne_of_isDigit (hdigits _ (List.getLast_mem hne)) (by decide)⟩
    rw [List.getLast?_append_of_ne_nil _ hne, List.getLast?_eq_some_getLast hne]

theorem isClosed_exponent {mantissa digits : List Char} (sign : Char)
    (hmantissa : mantissa.IsChain MinusAfterExponent) (hne : digits ≠ [])
    (hdigits : ∀ c ∈ digits, c.isDigit = true) :
    IsClosed (mantissa ++ 'e' :: sign :: digits) := by
  have hdigitsChain : digits.IsChain MinusAfterExponent :=
    IsMantissa.isChain fun c hc => .inl (hdigits c hc)
  have hexp : ('e' :: sign :: digits).IsChain MinusAfterExponent := by
    refine List.isChain_cons_cons.mpr ⟨fun _ => rfl, hdigitsChain.cons ?_⟩
    intro c hc heq
    have hdigit := hdigits c (List.mem_of_mem_head? hc)
    rw [heq] at hdigit
    cases hdigit
  have hchain := hmantissa.append hexp fun a _ b hb heq => by
    rw [List.head?_cons, Option.mem_def, Option.some.injEq] at hb
    rw [← hb] at heq
    cases heq
  rw [List.append_cons, List.append_cons] at hchain ⊢
  exact isClosed_of_digits hne hdigits hchain

theorem isClosed_decimalText (s : ℕ) (e : ℤ) : IsClosed (decimalText s e) := by
  have hds := isMantissa_natText s
  have hne := natText_ne_nil s
  have hdigits : ∀ c ∈ natText s, c.isDigit = true := fun c hc => isDigit_of_mem_natText hc
  unfold decimalText
  dsimp only
  generalize natText s = ds at hds hne hdigits
  split
  · apply @isClosed_of_digits [] _ (by simp [hne])
    · intro c hc
      rcases List.mem_append.mp hc with hc | hc
      · exact hdigits c hc
      · rw [(List.mem_replicate.mp hc).2]
        rfl
    · exact (hds.append (isMantissa_zeros _)).isChain
  split
  · have htake : IsMantissa (ds.take (e + ds.length).toNat) := fun c hc =>
      hds c (List.mem_of_mem_take hc)
    have hdrop : IsMantissa (ds.drop (e + ds.length).toNat) := fun c hc =>
      hds c (List.mem_of_mem_drop hc)
    rw [List.append_cons]
    apply isClosed_of_digits
    · rw [ne_eq, List.drop_eq_nil_iff]
      omega
    · exact fun c hc => hdigits c (List.mem_of_mem_drop hc)
    · rw [← List.append_cons]
      exact (htake.append (hdrop.cons (.inr rfl))).isChain
  split
  · have hzeros := (isMantissa_zeros (-(e + ds.length)).toNat).append hds
    apply @isClosed_of_digits ('0' :: '.' :: List.replicate _ '0') _ hne hdigits
    exact ((hzeros.cons (.inr rfl)).cons (.inl rfl)).isChain
  · -- an exponent
    have hexp : ∀ c ∈ natText (e + ds.length - 1).natAbs, c.isDigit = true := fun c hc =>
      isDigit_of_mem_natText hc
    have hexpne := natText_ne_nil (e + ds.length - 1).natAbs
    have htake : IsMantissa (ds.take 1) := fun c hc => hds c (List.mem_of_mem_take hc)
    have hdrop : IsMantissa (if ds.length = 1 then [] else '.' :: ds.drop 1) := by
      split
      · exact fun c hc => by cases hc
      · exact IsMantissa.cons (.inr rfl) fun c hc => hds c (List.mem_of_mem_drop hc)
    have hmantissa := (htake.append hdrop).isChain
    exact isClosed_exponent _ hmantissa hexpne hexp

theorem isClosed_chars {x : JsNumber} (h : x.IsDouble) : IsClosed x.chars := by
  cases x with
  | nan => exact ⟨by simp [chars, MinusAfterExponent], 'N', rfl, by decide⟩
  | infinity negative =>
    cases negative <;> exact ⟨by simp [chars, MinusAfterExponent], 'y', rfl, by decide⟩
  | finite q =>
    have hclosed : IsClosed (magnitude |q|) := by
      rw [magnitude]
      split
      · exact ⟨.singleton _, '0', rfl, by decide⟩
      · exact isClosed_decimalText _ _
    obtain ⟨c, cs, hcs, hc⟩ := head_magnitude (h q rfl).abs (abs_nonneg q)
    rw [chars]
    split
    · refine ⟨hclosed.isChain.cons fun d hd heq => ?_, ?_⟩
      · rw [hcs, List.head?_cons, Option.mem_def, Option.some.injEq] at hd
        exact absurd (hd.trans heq) (ne_of_isDigit hc (by decide))
      · obtain ⟨d, hd, hne⟩ := hclosed.last
        rw [hcs] at hd ⊢
        exact ⟨d, hd, hne⟩
    · exact hclosed

/-- A closed text in front of a minus ends where another one does. -/
theorem append_minus_inj {a b u w : List Char} (ha : IsClosed a) (hb : IsClosed b)
    (h : a ++ '-' :: u = b ++ '-' :: w) : a = b ∧ u = w := by
  have hextend : ∀ {a b t : List Char}, IsClosed a → IsClosed b → b ≠ a ++ '-' :: t := by
    intro a b t ha hb heq
    obtain ⟨c, hc, hne⟩ := ha.last
    have hchain := hb.isChain
    rw [heq] at hchain
    exact hne ((List.isChain_append.mp hchain).2.2 c hc '-' rfl rfl)
  rcases List.append_eq_append_iff.mp h with ⟨t, hbt, hut⟩ | ⟨t, hat, hwt⟩
  · cases t with
    | nil =>
      rw [List.append_nil] at hbt
      exact ⟨hbt.symm, (List.cons.inj hut).2⟩
    | cons c t =>
      have hc := (List.cons.inj hut).1
      exact absurd (hc ▸ hbt) (hextend ha hb)
  · cases t with
    | nil =>
      rw [List.append_nil] at hat
      exact ⟨hat, (List.cons.inj hwt).2.symm⟩
    | cons c t =>
      have hc := (List.cons.inj hwt).1
      exact absurd (hc ▸ hat) (hextend hb ha)

/-- Two numbers joined by a minus can be told apart. -/
theorem string_minus_inj {x y x' y' : JsNumber} (hx : x.IsDouble) (hy : y.IsDouble)
    (hx' : x'.IsDouble) (hy' : y'.IsDouble)
    (h : x.string ++ minus :: y.string = x'.string ++ minus :: y'.string) : x = x' ∧ y = y' := by
  have hunits : ∀ a b : List Char, JsString.units a ++ minus :: JsString.units b =
      JsString.units (a ++ '-' :: b) := fun a b => by
    rw [JsString.units, JsString.units, JsString.units, List.flatMap_append, List.flatMap_cons]
    rfl
  rw [string, string, string, string, hunits, hunits] at h
  obtain ⟨hfirst, hsecond⟩ :=
    append_minus_inj (isClosed_chars hx) (isClosed_chars hx') (JsString.units_injective h)
  exact ⟨chars_injective hx hx' hfirst, chars_injective hy hy' hsecond⟩

end JsNumber

end Attestia.Lib
