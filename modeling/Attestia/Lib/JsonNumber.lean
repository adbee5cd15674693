import Attestia.Lib.Utf8
import Mathlib.Algebra.Order.Field.Rat
import Mathlib.Algebra.Order.Ring.Abs
import Mathlib.Data.Nat.Factorization.Basic
import Mathlib.Data.Rat.Lemmas
import Mathlib.Tactic.FieldSimp
import Mathlib.Tactic.Ring

/-!
# Decimal numbers

The number text of the language (`Number::toString` in base ten) and the number tokens of
JSON. A number is the exact value of its decimal text: the rounding of binary floating
point is not part of it.
-/

namespace Attestia.Lib.JsonNumber

/-- The value of a decimal text; only meant for digits. -/
def digitsValue (ds : List Char) : ℕ := Nat.ofDigitChars 10 ds 0

def natText (n : ℕ) : List Char := Nat.toDigits 10 n

/-- The numbers that have a finite decimal text. -/
def Decimal (q : ℚ) : Prop := q.den ∣ 10 ^ Nat.log2 q.den

/-- `m` times ten to the power `e`. -/
def scale (m : ℕ) : ℤ → ℚ
  | .ofNat n => ((m * 10 ^ n : ℕ) : ℚ)
  | .negSucc n => mkRat m (10 ^ (n + 1))

/-! ## Text -/

/-- Moves up to `fuel` trailing zeros of the digits into the exponent. -/
def stripZeros : ℕ → ℕ → ℤ → ℕ × ℤ
  | 0, m, e => (m, e)
  | fuel + 1, m, e => if m % 10 = 0 then stripZeros fuel (m / 10) (e + 1) else (m, e)

/-- The significant digits of the absolute value and their exponent. -/
def significant (q : ℚ) : ℕ × ℤ :=
  let e := Nat.log2 q.den
  let m := q.num.natAbs * (10 ^ e / q.den)
  stripZeros (Nat.log2 m) m (-e)

/-- The four layouts of a number with significant digits `s` and exponent `e`. -/
def decimalText (s : ℕ) (e : ℤ) : List Char :=
  let ds := natText s
  let n := e + ds.length
  if ds.length ≤ n ∧ n ≤ 21 then ds ++ List.replicate (n - ds.length).toNat '0'
  else if 0 < n ∧ n ≤ 21 then ds.take n.toNat ++ '.' :: ds.drop n.toNat
  else if -6 < n ∧ n ≤ 0 then '0' :: '.' :: (List.replicate (-n).toNat '0' ++ ds)
  else
    ds.take 1 ++ (if ds.length = 1 then [] else '.' :: ds.drop 1) ++
      'e' :: (if n - 1 < 0 then '-' else '+') :: natText (n - 1).natAbs

def numberText (q : ℚ) : List Char :=
  if q = 0 then ['0']
  else
    (if q.num < 0 then ['-'] else []) ++ decimalText (significant q).1 (significant q).2

/-! ## Tokens -/

/-- The characters that a number token is made of. -/
def isNumberChar (c : Char) : Bool :=
  c.isDigit || c = '-' || c = '+' || c = '.' || c = 'e' || c = 'E'

def parseFraction : List Char → Option (List Char × List Char)
  | '.' :: cs =>
    if cs.takeWhile Char.isDigit = [] then none
    else some (cs.takeWhile Char.isDigit, cs.dropWhile Char.isDigit)
  | cs => some ([], cs)

def parseExponentDigits (ds : List Char) : Option ℕ :=
  if ds ≠ [] ∧ ds.all Char.isDigit then some (digitsValue ds) else none

def parseSigned : List Char → Option ℤ
  | '-' :: ds => (parseExponentDigits ds).map fun n : ℕ => -(n : ℤ)
  | '+' :: ds => (parseExponentDigits ds).map fun n : ℕ => (n : ℤ)
  | ds => (parseExponentDigits ds).map fun n : ℕ => (n : ℤ)

def parseExponent : List Char → Option ℤ
  | [] => some 0
  | c :: cs => if c = 'e' ∨ c = 'E' then parseSigned cs else none

/-- At least one digit, and no zero in front of others. -/
def isIntegerPart : List Char → Bool
  | [] => false
  | ['0'] => true
  | c :: _ => c ≠ '0'

/-- The value of the integer part `int` with what follows it. -/
def parseAfterInteger (int tok : List Char) : Option ℚ :=
  match parseFraction tok with
  | none => none
  | some (frac, rest) =>
    (parseExponent rest).map fun e => scale (digitsValue (int ++ frac)) (e - frac.length)

def parseUnsigned (tok : List Char) : Option ℚ :=
  if isIntegerPart (tok.takeWhile Char.isDigit) then
    parseAfterInteger (tok.takeWhile Char.isDigit) (tok.dropWhile Char.isDigit)
  else none

/-- The value of a whole number token. -/
def parseNumber : List Char → Option ℚ
  | '-' :: tok => (parseUnsigned tok).map fun q => -q
  | tok => parseUnsigned tok

/-! ## Values -/

theorem scale_eq (m : ℕ) (e : ℤ) : scale m e = m * (10 : ℚ) ^ e := by
  cases e with
  | ofNat n => simp [scale]
  | negSucc n =>
    rw [scale, Rat.mkRat_eq_div, zpow_negSucc]
    push_cast
    rw [div_eq_mul_inv]

theorem dvd_pow_log2 {d e : ℕ} (hd : d ≠ 0) (h : d ∣ 10 ^ e) : d ∣ 10 ^ Nat.log2 d := by
  rw [← Nat.factorization_le_iff_dvd hd (by positivity)]
  intro p
  by_cases hp : d.factorization p = 0
  · rw [hp]; exact Nat.zero_le _
  have hprime : p.Prime := Nat.prime_of_mem_primeFactors (Nat.support_factorization d ▸
    Finsupp.mem_support_iff.mpr hp)
  have hpd : p ∣ d := Nat.dvd_of_factorization_pos hp
  have h10 : 1 ≤ (10 : ℕ).factorization p :=
    (hprime.dvd_iff_one_le_factorization (by decide)).mp
      (hprime.dvd_of_dvd_pow (hpd.trans h))
  have hlog : d.factorization p ≤ Nat.log2 d := by
    rw [Nat.le_log2 hd]
    exact (Nat.pow_le_pow_left hprime.two_le _).trans
      (Nat.le_of_dvd (Nat.pos_of_ne_zero hd) (Nat.ordProj_dvd d p))
  rw [Nat.factorization_pow, Finsupp.smul_apply, smul_eq_mul]
  exact hlog.trans (Nat.le_mul_of_pos_right _ h10)

theorem decimal_of_mul_eq {q : ℚ} {m : ℤ} {e : ℕ} (h : q * 10 ^ e = m) : Decimal q := by
  have hq : q = Rat.divInt m ((10 ^ e : ℕ) : ℤ) := by
    rw [Rat.divInt_eq_div, ← h]
    push_cast
    field_simp
  refine dvd_pow_log2 (e := e) q.den_ne_zero ?_
  have := Rat.den_dvd m ((10 ^ e : ℕ) : ℤ)
  rw [← hq] at this
  exact_mod_cast this

theorem decimal_scale (m : ℕ) (e : ℤ) : Decimal (scale m e) := by
  cases e with
  | ofNat n => exact decimal_of_mul_eq (e := 0) (m := (m * 10 ^ n : ℕ)) (by simp [scale])
  | negSucc n =>
    refine decimal_of_mul_eq (e := n + 1) (m := m) ?_
    rw [scale_eq, zpow_negSucc]
    push_cast
    field_simp

theorem Decimal.neg {q : ℚ} (h : Decimal q) : Decimal (-q) := by
  rw [Decimal, Rat.neg_den]
  exact h

theorem Decimal.add_one {q : ℚ} (h : Decimal q) : Decimal (q + 1) := by
  obtain ⟨k, hk⟩ := h
  refine decimal_of_mul_eq (e := Nat.log2 q.den) (m := q.num * k + 10 ^ Nat.log2 q.den) ?_
  have hq : q * q.den = q.num := Rat.mul_den_eq_num q
  push_cast
  rw [← hq, add_mul, one_mul, mul_assoc]
  congr 2
  exact_mod_cast hk

theorem decimal_intCast (n : ℤ) : Decimal n :=
  one_dvd _

theorem decimal_natCast (n : ℕ) : Decimal n :=
  decimal_of_mul_eq (e := 0) (m := n) (by simp)

theorem decimal_of_parseNumber {tok : List Char} {q : ℚ} (h : parseNumber tok = some q) :
    Decimal q := by
  have key : ∀ {cs : List Char} {x : ℚ}, parseUnsigned cs = some x → Decimal x := by
    intro cs x hx
    rw [parseUnsigned, Option.ite_none_right_eq_some, parseAfterInteger] at hx
    obtain ⟨-, hx⟩ := hx
    split at hx
    · cases hx
    · obtain ⟨e, -, rfl⟩ := Option.map_eq_some_iff.mp hx
      exact decimal_scale _ _
  unfold parseNumber at h
  split at h
  · obtain ⟨x, hx, rfl⟩ := Option.map_eq_some_iff.mp h
    exact (key hx).neg
  · exact key h

/-! ## Round trip -/

theorem isDigit_of_mem_natText {n : ℕ} {c : Char} (h : c ∈ natText n) : c.isDigit = true :=
  Nat.isDigit_of_mem_toDigits (by decide) (by decide) h

@[simp] theorem digitsValue_natText (n : ℕ) : digitsValue (natText n) = n :=
  Nat.ofDigitChars_ten_toDigits

theorem natText_ne_nil (n : ℕ) : natText n ≠ [] := Nat.toDigits_ne_nil

theorem digitsValue_append_zeros (ds : List Char) (n : ℕ) :
    digitsValue (ds ++ List.replicate n '0') = digitsValue ds * 10 ^ n := by
  rw [digitsValue, Nat.ofDigitChars_append, Nat.ofDigitChars_replicate_zero, mul_comm]
  rfl

theorem digitsValue_zeros_append (n : ℕ) (ds : List Char) :
    digitsValue (List.replicate n '0' ++ ds) = digitsValue ds := by
  rw [digitsValue, Nat.ofDigitChars_append, Nat.ofDigitChars_replicate_zero, mul_zero]
  rfl

theorem head_natText {n : ℕ} (h : n ≠ 0) : ∃ c cs, natText n = c :: cs ∧ c ≠ '0' := by
  induction n using Nat.strongRecOn with
  | _ n ih =>
    rw [natText, Nat.toDigits_eq_if (by decide)]
    split
    · refine ⟨_, [], rfl, ?_⟩
      interval_cases n <;> simp_all [Nat.digitChar]
    · obtain ⟨c, cs, hcs, hc⟩ := ih (n / 10) (by omega) (by omega)
      rw [natText] at hcs
      exact ⟨c, cs ++ _, by rw [hcs]; rfl, hc⟩

theorem scale_shift (m k : ℕ) (e : ℤ) : scale (m * 10 ^ k) (e - k) = scale m e := by
  rw [scale_eq, scale_eq, zpow_sub₀ (by norm_num), zpow_natCast]
  push_cast
  field_simp

theorem scale_stripZeros (fuel m : ℕ) (e : ℤ) :
    scale (stripZeros fuel m e).1 (stripZeros fuel m e).2 = scale m e := by
  induction fuel generalizing m e with
  | zero => rfl
  | succ fuel ih =>
    rw [stripZeros]
    split
    · rename_i hm
      have hdiv : m = m / 10 * 10 ^ 1 := by omega
      have := scale_shift (m / 10) 1 (e + 1)
      rw [← hdiv, Nat.cast_one, add_sub_cancel_right] at this
      rw [ih, this]
    · rfl

theorem scale_significant {q : ℚ} (h : Decimal q) :
    scale (significant q).1 (significant q).2 = |q| := by
  rw [significant, scale_stripZeros]
  obtain ⟨k, hk⟩ := h
  have hden : q.den ≠ 0 := q.den_ne_zero
  have hdiv : 10 ^ Nat.log2 q.den / q.den = k := by
    rw [hk, Nat.mul_div_cancel_left _ (Nat.pos_of_ne_zero hden)]
  have habs : |q| * q.den = q.num.natAbs := by
    have hq : |q| * |(q.den : ℚ)| = |(q.num : ℚ)| := by rw [← abs_mul, Rat.mul_den_eq_num q]
    rw [Nat.abs_cast] at hq
    rw [hq, Nat.cast_natAbs, Int.cast_abs]
  have hpow : ((10 : ℚ) ^ Nat.log2 q.den) = q.den * k := by exact_mod_cast hk
  rw [hdiv, scale_eq, zpow_neg, zpow_natCast, hpow]
  push_cast
  rw [← habs]
  have hk0 : (k : ℚ) ≠ 0 := by
    rintro hk0
    rw [hk0, mul_zero] at hpow
    exact absurd hpow (by positivity)
  have hd0 : (q.den : ℚ) ≠ 0 := by exact_mod_cast hden
  field_simp

theorem significant_ne_zero {q : ℚ} (h : Decimal q) (hq : q ≠ 0) : (significant q).1 ≠ 0 := by
  intro h0
  have := scale_significant h
  rw [h0, scale_eq, Nat.cast_zero, zero_mul] at this
  exact hq (abs_eq_zero.mp this.symm)

/-- A token made of an integer part, a fraction and an exponent. -/
theorem parseUnsigned_parts {i f x : List Char} {e : ℤ} (hint : isIntegerPart i = true)
    (hid : ∀ c ∈ i, c.isDigit = true) (hfd : ∀ c ∈ f, c.isDigit = true)
    (hex : parseExponent x = some e) :
    parseUnsigned (i ++ ((if f = [] then [] else '.' :: f) ++ x)) =
      some (scale (digitsValue (i ++ f)) (e - f.length)) := by
  have hnd : ∀ c cs, x = c :: cs → c = 'e' ∨ c = 'E' := by
    rintro c cs rfl
    by_contra hc
    rw [parseExponent, if_neg hc] at hex
    cases hex
  have hextake : x.takeWhile Char.isDigit = [] ∧ x.dropWhile Char.isDigit = x := by
    cases x with
    | nil => exact ⟨rfl, rfl⟩
    | cons c cs => obtain rfl | rfl := hnd c cs rfl <;> exact ⟨rfl, rfl⟩
  have htail : parseFraction ((if f = [] then [] else '.' :: f) ++ x) = some (f, x) := by
    split
    · rename_i hf
      subst hf
      cases x with
      | nil => rfl
      | cons c cs => obtain rfl | rfl := hnd c cs rfl <;> rfl
    · rename_i hf
      have h1 : (f ++ x).takeWhile Char.isDigit = f := by
        rw [List.takeWhile_append_of_pos hfd, hextake.1, List.append_nil]
      have h2 : (f ++ x).dropWhile Char.isDigit = x := by
        rw [List.dropWhile_append_of_pos hfd, hextake.2]
      rw [List.cons_append, parseFraction, h1, h2, if_neg hf]
  have hstop : ∀ c cs, (if f = [] then [] else '.' :: f) ++ x = c :: cs →
      c.isDigit = false := by
    intro c cs h
    split at h
    · obtain rfl | rfl := hnd c cs h <;> rfl
    · obtain ⟨rfl, -⟩ := List.cons.inj h
      rfl
  generalize (if f = [] then [] else '.' :: f) ++ x = tail at htail hstop
  have htake : tail.takeWhile Char.isDigit = [] ∧ tail.dropWhile Char.isDigit = tail := by
    cases tail with
    | nil => exact ⟨rfl, rfl⟩
    | cons c cs =>
      have := hstop c cs rfl
      simp [List.takeWhile, List.dropWhile, this]
  have h1 : (i ++ tail).takeWhile Char.isDigit = i := by
    rw [List.takeWhile_append_of_pos hid, htake.1, List.append_nil]
  have h2 : (i ++ tail).dropWhile Char.isDigit = tail := by
    rw [List.dropWhile_append_of_pos hid, htake.2]
  rw [parseUnsigned, h1, h2, if_pos hint, parseAfterInteger, htail]
  simp only [hex, Option.map_some]

theorem isIntegerPart_of_head {c : Char} {cs : List Char} (hc : c ≠ '0') :
    isIntegerPart (c :: cs) = true := by
  cases cs with
  | nil => rw [isIntegerPart.eq_3 _ _ (by simpa using hc)]; exact decide_eq_true hc
  | cons d cs => rw [isIntegerPart.eq_3 _ _ (by simp)]; exact decide_eq_true hc

theorem parseExponentDigits_natText (n : ℕ) : parseExponentDigits (natText n) = some n := by
  have hall : (natText n).all Char.isDigit = true :=
    List.all_eq_true.mpr fun c hc => isDigit_of_mem_natText hc
  rw [parseExponentDigits, if_pos ⟨natText_ne_nil n, hall⟩, digitsValue_natText]

theorem parseExponent_text (x : ℤ) :
    parseExponent ('e' :: (if x < 0 then '-' else '+') :: natText x.natAbs) = some x := by
  rw [parseExponent, if_pos (.inl rfl)]
  split
  · rw [parseSigned, parseExponentDigits_natText, Option.map_some]
    congr 1
    omega
  · rw [parseSigned, parseExponentDigits_natText, Option.map_some]
    congr 1
    omega

theorem parseUnsigned_decimalText {s : ℕ} (hs : s ≠ 0) (e : ℤ) :
    parseUnsigned (decimalText s e) = some (scale s e) := by
  obtain ⟨c, cs, hds, hc⟩ := head_natText hs
  have hdig : ∀ d ∈ natText s, d.isDigit = true := fun d hd => isDigit_of_mem_natText hd
  have hval : digitsValue (natText s) = s := digitsValue_natText s
  have hlen : 0 < (natText s).length := List.length_pos_of_ne_nil (natText_ne_nil s)
  unfold decimalText
  simp only
  generalize hn : e + ((natText s).length : ℤ) = n
  split
  · -- an integer
    have hint : isIntegerPart (natText s ++ List.replicate (n - (natText s).length).toNat '0') = true := by
      rw [hds]
      exact isIntegerPart_of_head hc
    have hid : ∀ d ∈ natText s ++ List.replicate (n - (natText s).length).toNat '0',
        d.isDigit = true := by
      intro d hd
      obtain hd | hd := List.mem_append.mp hd
      · exact hdig d hd
      · rw [(List.mem_replicate.mp hd).2]
        rfl
    have := parseUnsigned_parts (f := []) (x := []) (e := 0) hint hid (by simp) rfl
    simp only [if_true, List.append_nil, List.length_nil, digitsValue_append_zeros, hval] at this
    rw [this, ← scale_shift s (n - (natText s).length).toNat e]
    congr 2
    omega
  split
  · -- digits on both sides of the point
    have hk : n.toNat < (natText s).length := by omega
    have hfrac : (natText s).drop n.toNat ≠ [] := by
      rw [ne_eq, List.drop_eq_nil_iff]
      omega
    have hint : isIntegerPart ((natText s).take n.toNat) = true := by
      obtain ⟨k, hk'⟩ : ∃ k, n.toNat = k + 1 := ⟨n.toNat - 1, by omega⟩
      rw [hds, hk', List.take_succ_cons]
      exact isIntegerPart_of_head hc
    have hfd : ∀ d ∈ (natText s).drop n.toNat, d.isDigit = true := fun d hd =>
      hdig d (List.mem_of_mem_drop hd)
    have := parseUnsigned_parts (x := []) (e := 0) hint
      (fun d hd => hdig d (List.mem_of_mem_take hd)) hfd rfl
    rw [if_neg hfrac, List.append_nil, List.take_append_drop, hval, List.length_drop] at this
    rw [this]
    congr 2
    omega
  split
  · -- zeros behind the point
    have hfrac : List.replicate (-n).toNat '0' ++ natText s ≠ [] := by simp [natText_ne_nil]
    have hfd : ∀ d ∈ List.replicate (-n).toNat '0' ++ natText s, d.isDigit = true := by
      intro d hd
      obtain hd | hd := List.mem_append.mp hd
      · rw [(List.mem_replicate.mp hd).2]
        rfl
      · exact hdig d hd
    have := parseUnsigned_parts (i := ['0']) (x := []) (e := 0) rfl (by simp) hfd rfl
    have hz : digitsValue (['0'] ++ (List.replicate (-n).toNat '0' ++ natText s)) = s := by
      rw [← List.append_assoc, List.singleton_append, ← List.replicate_succ,
        digitsValue_zeros_append, hval]
    rw [if_neg hfrac, List.append_nil, hz, List.length_append, List.length_replicate] at this
    rw [List.singleton_append] at this
    rw [this]
    congr 2
    omega
  · -- an exponent
    have hint : isIntegerPart ((natText s).take 1) = true := by
      rw [hds]
      exact isIntegerPart_of_head hc
    have hif : (if (natText s).length = 1 then [] else '.' :: (natText s).drop 1) =
        if (natText s).drop 1 = [] then [] else '.' :: (natText s).drop 1 := by
      rw [hds]
      cases cs <;> rfl
    have := parseUnsigned_parts (f := (natText s).drop 1) hint
      (fun d hd => hdig d (List.mem_of_mem_take hd)) (fun d hd => hdig d (List.mem_of_mem_drop hd))
      (parseExponent_text (n - 1))
    rw [List.take_append_drop, hval, List.length_drop] at this
    rw [hif, List.append_assoc, this]
    congr 2
    omega

theorem head_decimalText {s : ℕ} (hs : s ≠ 0) (e : ℤ) :
    ∃ c cs, decimalText s e = c :: cs ∧ c.isDigit = true := by
  have h := parseUnsigned_decimalText hs e
  cases hd : decimalText s e with
  | nil =>
    rw [hd] at h
    cases h
  | cons c cs =>
    refine ⟨c, cs, rfl, ?_⟩
    rw [hd, parseUnsigned] at h
    by_contra hc
    rw [List.takeWhile_cons_of_neg hc] at h
    cases h

/-- The text of a number is a token that denotes it. -/
theorem parseNumber_numberText {q : ℚ} (h : Decimal q) : parseNumber (numberText q) = some q := by
  unfold numberText
  split
  · rename_i h0
    rw [h0]
    decide
  · rename_i h0
    have hs := significant_ne_zero h h0
    have hparse := parseUnsigned_decimalText hs (significant q).2
    rw [scale_significant h] at hparse
    split
    · rename_i hneg
      have : q < 0 := Rat.num_neg.mp hneg
      rw [List.singleton_append, parseNumber, hparse, Option.map_some, abs_of_neg this, neg_neg]
    · rename_i hneg
      have : 0 ≤ q := Rat.num_nonneg.mp (not_lt.mp hneg)
      obtain ⟨c, cs, hcs, hc⟩ := head_decimalText hs (significant q).2
      rw [abs_of_nonneg this] at hparse
      rw [List.nil_append, ← hparse, hcs]
      refine parseNumber.eq_2 _ ?_
      rintro tok heq
      obtain ⟨rfl, -⟩ := List.cons.inj heq
      cases hc

theorem isNumberChar_of_mem_numberText {q : ℚ} {c : Char} (h : c ∈ numberText q) :
    isNumberChar c = true := by
  have hdig : ∀ {d : Char}, d.isDigit = true → isNumberChar d = true := fun hd => by
    simp [isNumberChar, hd]
  have hnat : ∀ {n : ℕ} {d : Char}, d ∈ natText n → isNumberChar d = true := fun hd =>
    hdig (isDigit_of_mem_natText hd)
  unfold numberText decimalText at h
  split at h
  · rw [List.mem_singleton.mp h]
    rfl
  obtain h | h := List.mem_append.mp h
  · split at h
    · rw [List.mem_singleton.mp h]
      rfl
    · cases h
  simp only at h
  split at h
  · obtain h | h := List.mem_append.mp h
    · exact hnat h
    · rw [(List.mem_replicate.mp h).2]
      rfl
  split at h
  · obtain h | h := List.mem_append.mp h
    · exact hnat (List.mem_of_mem_take h)
    · obtain rfl | h := List.mem_cons.mp h
      · rfl
      · exact hnat (List.mem_of_mem_drop h)
  split at h
  · simp only [List.mem_cons, List.mem_append, List.mem_replicate] at h
    obtain rfl | rfl | ⟨-, rfl⟩ | h := h
    · rfl
    · rfl
    · rfl
    · exact hnat h
  · simp only [List.mem_cons, List.mem_append] at h
    obtain (h | h) | rfl | rfl | h := h
    · exact hnat (List.mem_of_mem_take h)
    · split at h
      · cases h
      · obtain rfl | h := List.mem_cons.mp h
        · rfl
        · exact hnat (List.mem_of_mem_drop h)
    · rfl
    · split <;> rfl
    · exact hnat h

theorem head_numberText {q : ℚ} (h : Decimal q) :
    ∃ c cs, numberText q = c :: cs ∧ (c = '-' ∨ c.isDigit = true) := by
  unfold numberText
  split
  · exact ⟨'0', [], rfl, .inr rfl⟩
  · rename_i h0
    split
    · exact ⟨'-', _, rfl, .inl rfl⟩
    · obtain ⟨c, cs, hcs, hc⟩ := head_decimalText (significant_ne_zero h h0) (significant q).2
      exact ⟨c, cs, hcs, .inr hc⟩

/-- A number that JSON can denote. -/
@[ext] structure Number where
  val : ℚ
  decimal : Decimal val
  deriving DecidableEq

namespace Number

def ofNat (n : ℕ) : Number := ⟨n, decimal_natCast n⟩

def ofInt (n : ℤ) : Number := ⟨n, decimal_intCast n⟩

/-- `n + 1`. -/
def succ (n : Number) : Number := ⟨n.val + 1, n.decimal.add_one⟩

@[simp] theorem succ_ofNat (n : ℕ) : (ofNat n).succ = ofNat (n + 1) :=
  Number.ext (Nat.cast_succ n).symm

theorem ofNat_injective : Function.Injective ofNat := fun _ _ h =>
  Nat.cast_injective (congrArg Number.val h)

end Number

example : [numberText 7, numberText 1200, numberText (5 / 2), numberText (-3 / 1000)].map
    String.ofList = ["7", "1200", "2.5", "-0.003"] := by decide +kernel

example : [numberText (10 ^ 21), numberText (123 / 10 ^ 9)].map String.ofList =
    ["1e+21", "1.23e-7"] := by decide +kernel

end Attestia.Lib.JsonNumber
