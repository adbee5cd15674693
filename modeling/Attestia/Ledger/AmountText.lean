import Attestia.Ledger.MoneyMath

/-!
# Amounts as texts

The texts that `parseAmount` accepts are those of numerals, up to white space around them, and the
value of a numeral is what it is parsed to. `formatAmount` prints the numeral with all decimals.
-/

namespace Attestia.Ledger

open Lib JsonNumber DecimalText

/-- An optional minus sign, digits, and digits behind a point where there are any. -/
@[ext] structure Numeral where
  negative : Bool
  whole : JsString
  fraction : JsString
  digits : AllDigits whole
  fraction_digits : AllDigits fraction
  whole_ne_nil : whole ≠ []

namespace Numeral

variable (n : Numeral)

def text : JsString := numeral n.negative n.whole n.fraction

/-- The rational number that the text denotes. -/
def value : ℚ :=
  (if n.negative then -1 else 1) *
    (digitsNat n.whole + digitsNat n.fraction / 10 ^ n.fraction.length)

def scaled (d : ℕ) : ℤ :=
  let digits : ℤ := digitsNat (n.whole ++ padEnd n.fraction d)
  if n.negative then -digits else digits

variable {n}

theorem text_injective : Function.Injective text := by
  intro n m h
  have hnegative : n.negative = m.negative := by
    apply Bool.eq_iff_iff.mpr
    rw [← head?_numeral n.digits n.whole_ne_nil, ← head?_numeral m.digits m.whole_ne_nil]
    show n.text.head? = some minus ↔ m.text.head? = some minus
    rw [h]
  have hunsigned : numeral false n.whole n.fraction = numeral false m.whole m.fraction := by
    rw [← unsigned_numeral n.digits n.whole_ne_nil n.negative,
      ← unsigned_numeral m.digits m.whole_ne_nil m.negative]
    exact congrArg unsigned h
  apply Numeral.ext hnegative
  · have hwhole := congrArg wholePart hunsigned
    rwa [wholePart_numeral n.digits, wholePart_numeral m.digits] at hwhole
  · have hfraction := congrArg fractionPart hunsigned
    rwa [fractionPart_numeral n.digits n.fraction_digits,
      fractionPart_numeral m.digits m.fraction_digits] at hfraction

theorem trim_text : trim n.text = n.text := trim_numeral n.digits n.fraction_digits n.negative

/-- Padding a fraction with zeros scales it. -/
theorem digitsNat_padEnd {fraction : JsString} {d : ℕ} (h : fraction.length ≤ d) :
    (digitsNat (padEnd fraction d) : ℚ) = digitsNat fraction / 10 ^ fraction.length * 10 ^ d := by
  obtain ⟨k, rfl⟩ := Nat.exists_eq_add_of_le h
  rw [padEnd, digitsNat_append, digitsNat_replicate_zero, List.length_replicate,
    Nat.add_sub_cancel_left, pow_add]
  push_cast
  field_simp
  ring

theorem scaled_eq {d : ℕ} (h : n.fraction.length ≤ d) : (n.scaled d : ℚ) = n.value * 10 ^ d := by
  have hlength : (padEnd n.fraction d).length = d := by
    rw [padEnd, List.length_append, List.length_replicate]
    omega
  have hdigits : (digitsNat (n.whole ++ padEnd n.fraction d) : ℚ) =
      (digitsNat n.whole + digitsNat n.fraction / 10 ^ n.fraction.length) * 10 ^ d := by
    rw [digitsNat_append, hlength, add_mul, ← digitsNat_padEnd h]
    push_cast
    rfl
  rw [scaled, value]
  split
  · push_cast
    rw [hdigits]
    ring
  · push_cast
    rw [hdigits]
    ring

/-- Two numerals denote the same number exactly where they are scaled to the same integer. -/
theorem scaled_inj {m : Numeral} {d : ℕ} (hn : n.fraction.length ≤ d) (hm : m.fraction.length ≤ d) :
    n.scaled d = m.scaled d ↔ n.value = m.value := by
  have hpow : (10 : ℚ) ^ d ≠ 0 := by positivity
  rw [← Int.cast_inj (α := ℚ), scaled_eq hn, scaled_eq hm]
  exact mul_left_inj' hpow

end Numeral

/-! ## What is accepted -/

theorem sign_append_unsigned (s : JsString) :
    (if s.head? = some minus then [minus] else []) ++ unsigned s = s := by
  rw [unsigned]
  split
  · rename_i h
    cases s with
    | nil => cases h
    | cons u us =>
      rw [Option.some.inj h]
      rfl
  · rfl

/-- A text that passes the check is the text of a numeral. -/
theorem exists_numeral_of_isNumeral {s : JsString} (h : isNumeral s = true) :
    ∃ n : Numeral, n.text = s := by
  obtain ⟨hhead, hrest⟩ := Bool.and_eq_true_iff.mp h
  have hdigits : AllDigits ((unsigned s).takeWhile isDigit) := fun u hu =>
    List.mem_takeWhile_imp hu
  have hne : (unsigned s).takeWhile isDigit ≠ [] := by
    intro hnil
    cases hu : unsigned s with
    | nil =>
      rw [hu] at hhead
      cases hhead
    | cons u us =>
      rw [hu] at hhead hnil
      have hdigit : isDigit u = true := hhead
      rw [List.takeWhile_cons_of_pos hdigit] at hnil
      cases hnil
  -- what stands behind the first digits
  obtain ⟨fraction, hfraction, hdrop⟩ : ∃ fraction : JsString, AllDigits fraction ∧
      (unsigned s).dropWhile isDigit = if fraction = [] then [] else dot :: fraction := by
    rcases Bool.or_eq_true_iff.mp hrest with hempty | hpoint
    · exact ⟨[], fun u hu => absurd hu List.not_mem_nil, List.isEmpty_iff.mp hempty⟩
    · simp only [Bool.and_eq_true, decide_eq_true_eq, Bool.not_eq_true', List.all_eq_true] at hpoint
      obtain ⟨⟨hdot, hnil⟩, hall⟩ := hpoint
      refine ⟨((unsigned s).dropWhile isDigit).drop 1, hall, ?_⟩
      cases hrest : (unsigned s).dropWhile isDigit with
      | nil =>
        rw [hrest] at hdot
        cases hdot
      | cons u us =>
        rw [hrest] at hdot hnil
        rw [Option.some.inj hdot, List.drop_one, List.tail_cons, if_neg]
        rintro rfl
        cases hnil
  refine ⟨⟨decide (s.head? = some minus), _, fraction, hdigits, hfraction, hne⟩, ?_⟩
  rw [Numeral.text, numeral, ← hdrop, List.append_assoc, List.takeWhile_append_dropWhile]
  simp only [decide_eq_true_eq]
  exact sign_append_unsigned s

/-- White space around a text changes nothing but the text of an error. -/
theorem parseAmount_congr {s t : JsString} (h : trim s = trim t) {d : Number} {z : ℤ} :
    parseAmount s d = .ok z ↔ parseAmount t d = .ok z := by
  unfold parseAmount
  rw [h]
  by_cases hnil : trim t = []
  · simp [hnil]
  · simp [hnil]

theorem parseAmount_text {n : Numeral} {d : ℕ} (h : n.fraction.length ≤ d) :
    parseAmount n.text (.ofNat d) = .ok (n.scaled d) := by
  have hfloor : ⌊(Number.ofNat d).val⌋.toNat = d := by simp [Number.ofNat]
  have hle : (n.fraction.length : ℚ) ≤ (Number.ofNat d).val := Nat.cast_le.mpr h
  rw [Numeral.text, parseAmount_numeral n.digits n.fraction_digits n.whole_ne_nil n.negative hle,
    hfloor]
  rfl

/-- What is parsed is the numeral that is left when the white space is taken away, with no more
than the given number of decimals. -/
theorem parseAmount_eq_ok_iff {s : JsString} {d : ℕ} {z : ℤ} :
    parseAmount s (.ofNat d) = .ok z ↔
      ∃ n : Numeral, n.text = trim s ∧ n.fraction.length ≤ d ∧ n.scaled d = z := by
  constructor
  · intro h
    have hnumeral : isNumeral (trim s) = true := by
      by_contra hnot
      rw [Bool.not_eq_true] at hnot
      simp only [parseAmount, hnot, Bool.not_false, if_true] at h
      split at h <;> cases h
    obtain ⟨n, hn⟩ := exists_numeral_of_isNumeral hnumeral
    have hlength : n.fraction.length ≤ d := by
      by_contra hlong
      have hlt : (Number.ofNat d).val < (fractionPart (unsigned (trim s))).length := by
        rw [← hn, Numeral.text, unsigned_numeral n.digits n.whole_ne_nil,
          fractionPart_numeral n.digits n.fraction_digits]
        exact Nat.cast_lt.mpr (not_le.mp hlong)
      simp only [parseAmount, hnumeral, Bool.not_true, Bool.false_eq_true, if_false, hlt,
        if_true] at h
      split at h <;> cases h
    have htrim : trim s = trim n.text := by rw [n.trim_text, hn]
    have hparse := (parseAmount_congr htrim).mp h
    rw [parseAmount_text hlength] at hparse
    exact ⟨n, hn, hlength, Except.ok.inj hparse⟩
  · rintro ⟨n, hn, hlength, rfl⟩
    have htrim : trim s = trim n.text := by rw [n.trim_text, hn]
    exact (parseAmount_congr htrim).mpr (parseAmount_text hlength)

/-- A text is worth the same with any number of decimals that it is parsed with. -/
theorem worth_of_parseAmount {s : JsString} {d e : ℕ} {z w : ℤ}
    (hz : parseAmount s (.ofNat d) = .ok z) (hw : parseAmount s (.ofNat e) = .ok w) :
    (z : ℚ) / 10 ^ d = w / 10 ^ e := by
  obtain ⟨n, hn, hd, rfl⟩ := parseAmount_eq_ok_iff.mp hz
  obtain ⟨m, hm, he, rfl⟩ := parseAmount_eq_ok_iff.mp hw
  have hnm : n = m := Numeral.text_injective (hn.trans hm.symm)
  subst hnm
  rw [Numeral.scaled_eq hd, Numeral.scaled_eq he]
  field_simp

/-- A printed integer is a numeral with all decimals. -/
theorem exists_numeral_formatAmount (z : ℤ) (d : ℕ) : ∃ n : Numeral,
    n.text = formatAmount z (.ofNat d) ∧ n.fraction.length = d ∧ n.scaled d = z := by
  obtain ⟨whole, fraction, hw, hf, hne, hlength, hvalue, htext⟩ :=
    exists_numeral_of_formatAmount z d
  refine ⟨⟨decide (z < 0), whole, fraction, hw, hf, hne⟩, htext.symm, hlength, ?_⟩
  simp only [Numeral.scaled, padEnd_of_le hlength.ge, hvalue, decide_eq_true_eq]
  split <;> omega

theorem formatAmount_injective (d : ℕ) :
    Function.Injective fun z : ℤ => formatAmount z (.ofNat d) := by
  intro z w h
  have hz := parseAmount_formatAmount z d
  have hw := parseAmount_formatAmount w d
  dsimp only at h
  rw [h, hw] at hz
  exact (Except.ok.inj hz).symm

/-! ## Numbers as amounts -/

theorem le_stripZeros (fuel m : ℕ) (e : ℤ) : e ≤ (stripZeros fuel m e).2 := by
  induction fuel generalizing m e with
  | zero => exact le_rfl
  | succ fuel ih =>
    rw [stripZeros]
    split
    · have hnext := ih (m / 10) (e + 1)
      omega
    · exact le_rfl

/-- A natural number that is not too long is printed without an exponent. -/
theorem decimalText_of_lt {s k : ℕ} (hs : s ≠ 0) (h : s * 10 ^ k < 10 ^ 21) :
    decimalText s k = natText s ++ List.replicate k '0' := by
  have hpos : 0 < (natText s).length := List.length_pos_iff.mpr (natText_ne_nil s)
  have hlong : (natText s).length + k ≤ 21 := by
    have hk : k < 21 := by
      apply (Nat.pow_lt_pow_iff_right (a := 10) (by decide)).mp
      exact lt_of_le_of_lt (Nat.le_mul_of_pos_left _ (Nat.pos_of_ne_zero hs)) h
    have hlt : s < 10 ^ (21 - k) := by
      apply lt_of_mul_lt_mul_right _ (Nat.zero_le (10 ^ k))
      rw [← pow_add, Nat.sub_add_cancel hk.le]
      exact h
    have hlength := (Nat.length_toDigits_le_iff (by decide) (by omega)).mpr hlt
    change (natText s).length ≤ 21 - k at hlength
    omega
  have hcond : ((natText s).length : ℤ) ≤ (k : ℤ) + (natText s).length ∧
      (k : ℤ) + (natText s).length ≤ 21 := by omega
  rw [decimalText, if_pos hcond, add_sub_cancel_right, Int.toNat_natCast]

/-- The text of a natural number is a numeral. -/
theorem exists_numeral_numberText {k : ℕ} (h : k < 10 ^ 21) : ∃ n : Numeral,
    n.text = JsString.units (numberText k) ∧ n.fraction = [] ∧ n.value = k := by
  obtain ⟨cs, hcs, hdigits, hne, hvalue⟩ : ∃ cs, numberText k = cs ∧ (∀ c ∈ cs, c.isDigit = true) ∧
      cs ≠ [] ∧ digitsValue cs = k := by
    obtain rfl | hk := Nat.eq_zero_or_pos k
    · exact ⟨['0'], by decide +kernel, List.all_eq_true.mp rfl, by decide, rfl⟩
    · have hq : (k : ℚ) ≠ 0 := Nat.cast_ne_zero.mpr hk.ne'
      have hnum : ¬ (k : ℚ).num < 0 := by simp
      have hs := significant_ne_zero (decimal_natCast k) hq
      have hexponent : 0 ≤ (significant (k : ℚ)).2 := by
        have hlog : Nat.log2 1 = 0 := by decide
        rw [significant, Rat.den_natCast, hlog]
        exact le_stripZeros _ _ 0
      obtain ⟨e, he⟩ := Int.eq_ofNat_of_zero_le hexponent
      have hscale := scale_significant (decimal_natCast k)
      rw [he, scale_eq, abs_of_nonneg (Nat.cast_nonneg k)] at hscale
      have hmul : (significant (k : ℚ)).1 * 10 ^ e = k := by exact_mod_cast hscale
      refine ⟨_, rfl, ?_⟩
      rw [numberText, if_neg hq, if_neg hnum, List.nil_append, he,
        decimalText_of_lt hs (by rw [hmul]; exact h)]
      refine ⟨fun c hc => ?_, ?_, ?_⟩
      · rcases List.mem_append.mp hc with hc | hc
        · exact isDigit_of_mem_natText hc
        · rw [List.eq_of_mem_replicate hc]
          rfl
      · exact fun hnil => natText_ne_nil _ (List.append_eq_nil_iff.mp hnil).1
      · rw [digitsValue_append_zeros, digitsValue_natText, hmul]
  have hunits : ∀ u ∈ JsString.units cs, isDigit u = true := by
    intro u hu
    obtain ⟨c, hc, hu⟩ := List.mem_flatMap.mp hu
    obtain ⟨hutf, hnat, hlow, hhigh⟩ := utf16_of_isDigit (hdigits c hc)
    rw [hutf, List.mem_singleton] at hu
    rw [hu, isDigit, hnat]
    simpa using ⟨hlow, hhigh⟩
  have hnil : JsString.units cs ≠ [] := fun hnil =>
    hne (JsString.units_injective (hnil.trans (rfl : ([] : JsString) = JsString.units [])))
  refine ⟨⟨false, JsString.units cs, [], hunits, fun u hu => absurd hu List.not_mem_nil, hnil⟩,
    ?_, rfl, ?_⟩
  · rw [hcs]
    simp [Numeral.text, numeral]
  · have hnone : digitsNat [] = 0 := rfl
    simp [Numeral.value, digitsNat_units hdigits, hvalue, hnone]

/-! ## The codec -/

/-- Printing and parsing are inverse on integers. A text is parsed exactly where it is a numeral
between white space, with at least one digit behind a point and no more than the decimals; what is
printed then denotes the same number, and equal numbers are printed as equal texts. -/
theorem amount_codec (d : ℕ) :
    (∀ z : ℤ, parseAmount (formatAmount z (.ofNat d)) (.ofNat d) = .ok z) ∧
    (∀ s : JsString, (∃ z, parseAmount s (.ofNat d) = .ok z) ↔
      ∃ n : Numeral, n.text = trim s ∧ n.fraction.length ≤ d) ∧
    (∀ (s : JsString) (z : ℤ) (n : Numeral), parseAmount s (.ofNat d) = .ok z → n.text = trim s →
      ∃ m : Numeral, m.text = formatAmount z (.ofNat d) ∧ m.value = n.value) ∧
    ∀ (s t : JsString) (z w : ℤ) (n m : Numeral), parseAmount s (.ofNat d) = .ok z →
      parseAmount t (.ofNat d) = .ok w → n.text = trim s → m.text = trim t →
      (formatAmount z (.ofNat d) = formatAmount w (.ofNat d) ↔ n.value = m.value) := by
  -- the numeral of a text is the one that it is parsed by
  have hparsed : ∀ {s : JsString} {z : ℤ} {n : Numeral}, parseAmount s (.ofNat d) = .ok z →
      n.text = trim s → n.fraction.length ≤ d ∧ n.scaled d = z := by
    intro s z n hs hn
    obtain ⟨n', hn', hlength, hscaled⟩ := parseAmount_eq_ok_iff.mp hs
    rw [Numeral.text_injective (hn.trans hn'.symm)]
    exact ⟨hlength, hscaled⟩
  refine ⟨fun z => parseAmount_formatAmount z d, fun s => ?_, fun s z n hs hn => ?_,
    fun s t z w n m hs ht hn hm => ?_⟩
  · constructor
    · rintro ⟨z, hz⟩
      obtain ⟨n, hn, hlength, -⟩ := parseAmount_eq_ok_iff.mp hz
      exact ⟨n, hn, hlength⟩
    · rintro ⟨n, hn, hlength⟩
      exact ⟨n.scaled d, parseAmount_eq_ok_iff.mpr ⟨n, hn, hlength, rfl⟩⟩
  · obtain ⟨hlength, hscaled⟩ := hparsed hs hn
    obtain ⟨m, hm, hfraction, hprinted⟩ := exists_numeral_formatAmount z d
    refine ⟨m, hm, ?_⟩
    rw [← Numeral.scaled_inj hfraction.le hlength, hprinted, hscaled]
  · obtain ⟨hn', hz⟩ := hparsed hs hn
    obtain ⟨hm', hw⟩ := hparsed ht hm
    rw [(formatAmount_injective d).eq_iff, ← hz, ← hw]
    exact Numeral.scaled_inj hn' hm'

/-- A text with white space in front is parsed, and it is no numeral. -/
theorem parseAmount_blank : parseAmount (js " 5") (.ofNat 0) = .ok 5 ∧
    ¬ ∃ n : Numeral, n.text = js " 5" := by
  constructor
  · decide +kernel
  · rintro ⟨n, hn⟩
    have htrim := n.trim_text
    rw [hn] at htrim
    exact absurd htrim (by decide +kernel)

end Attestia.Ledger
