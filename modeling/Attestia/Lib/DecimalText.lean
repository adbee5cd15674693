import Attestia.Lib.JsonNumber
import Attestia.Lib.JsString
import Mathlib.Data.List.DropRight

/-!
# Decimal numerals in strings

Digits, padding and trimming of strings of code units, and the numerals with an optional
sign and an optional fraction.
-/

namespace Attestia.Lib.DecimalText

open JsonNumber

def zero : UInt16 := 48

def dot : UInt16 := 46

def minus : UInt16 := 45

def isDigit (u : UInt16) : Bool := 48 ≤ u.toNat && u.toNat ≤ 57

/-- The value of a text; only meant for digits. -/
def digitsNat (ds : JsString) : ℕ := ds.foldl (fun n u => 10 * n + (u.toNat - 48)) 0

def natDigits (n : ℕ) : JsString := JsString.units (natText n)

def padStart (s : JsString) (n : ℕ) : JsString := List.replicate (n - s.length) zero ++ s

def padEnd (s : JsString) (n : ℕ) : JsString := s ++ List.replicate (n - s.length) zero

/-- White space and line terminators. -/
def isBlank (u : UInt16) : Bool :=
  u.toNat ∈ [0x09, 0x0A, 0x0B, 0x0C, 0x0D, 0x20, 0xA0, 0x1680, 0x2028, 0x2029, 0x202F, 0x205F,
    0x3000, 0xFEFF] || (0x2000 ≤ u.toNat && u.toNat ≤ 0x200A)

def trim (s : JsString) : JsString := (s.dropWhile isBlank).rdropWhile isBlank

/-- The text without a leading sign. -/
def unsigned (s : JsString) : JsString := if s.head? = some minus then s.drop 1 else s

/-- `split(".")[0]`. -/
def wholePart (s : JsString) : JsString := s.takeWhile (· ≠ dot)

/-- `split(".")[1]`, and nothing where there is no point. -/
def fractionPart (s : JsString) : JsString :=
  ((s.dropWhile (· ≠ dot)).drop 1).takeWhile (· ≠ dot)

/-- `/^-?\d+(\.\d+)?$/`. -/
def isNumeral (s : JsString) : Bool :=
  let rest := (unsigned s).dropWhile isDigit
  (unsigned s).head?.any isDigit &&
    (rest.isEmpty || (rest.head? = some dot && !(rest.drop 1).isEmpty && (rest.drop 1).all isDigit))

/-! ## Digits -/

theorem digitsNat_append (a b : JsString) :
    digitsNat (a ++ b) = digitsNat a * 10 ^ b.length + digitsNat b := by
  induction b using List.reverseRecOn with
  | nil => simp [digitsNat]
  | append_singleton b u ih =>
    have hsnoc : ∀ s : JsString, digitsNat (s ++ [u]) = 10 * digitsNat s + (u.toNat - 48) := by
      intro s
      simp [digitsNat]
    rw [← List.append_assoc, hsnoc, hsnoc, ih, List.length_append, List.length_singleton, pow_succ]
    ring

@[simp] theorem digitsNat_replicate_zero (n : ℕ) : digitsNat (List.replicate n zero) = 0 := by
  induction n with
  | zero => rfl
  | succ n ih =>
    rw [List.replicate_succ', digitsNat_append, ih]
    rfl

theorem digitsNat_padStart (s : JsString) (n : ℕ) : digitsNat (padStart s n) = digitsNat s := by
  simp [padStart, digitsNat_append]

theorem length_padStart (s : JsString) (n : ℕ) : (padStart s n).length = max n s.length := by
  simp only [padStart, List.length_append, List.length_replicate]
  omega

theorem padEnd_of_le {s : JsString} {n : ℕ} (h : n ≤ s.length) : padEnd s n = s := by
  simp [padEnd, Nat.sub_eq_zero_of_le h]

theorem utf16_of_isDigit {c : Char} (h : c.isDigit = true) :
    JsString.utf16 c = [UInt16.ofNat c.toNat] ∧ (UInt16.ofNat c.toNat).toNat = c.toNat ∧
      48 ≤ c.toNat ∧ c.toNat ≤ 57 := by
  have hc : 48 ≤ c.toNat ∧ c.toNat ≤ 57 := by
    simpa [Char.isDigit, UInt32.le_iff_toNat_le] using h
  refine ⟨?_, ?_, hc⟩
  · rw [JsString.utf16, if_pos (by omega)]
  · rw [UInt16.toNat_ofNat']
    omega

/-- A digit character is one unit with the same value. -/
theorem digitsNat_units {cs : List Char} (h : ∀ c ∈ cs, c.isDigit = true) :
    digitsNat (JsString.units cs) = digitsValue cs := by
  induction cs using List.reverseRecOn with
  | nil => rfl
  | append_singleton cs c ih =>
    obtain ⟨hu, hnat, -⟩ := utf16_of_isDigit (h c (by simp))
    have hih := ih fun d hd => h d (by simp [hd])
    have hunits : JsString.units (cs ++ [c]) = JsString.units cs ++ [UInt16.ofNat c.toNat] := by
      simp [JsString.units, hu]
    rw [hunits, digitsNat_append, hih, digitsValue, digitsValue, Nat.ofDigitChars_append]
    simp [digitsNat, Nat.ofDigitChars, hnat, Nat.mul_comm]

theorem isDigit_of_mem_natDigits {n : ℕ} {u : UInt16} (h : u ∈ natDigits n) : isDigit u = true := by
  obtain ⟨c, hc, hu⟩ := List.mem_flatMap.mp h
  obtain ⟨hutf, hnat, h1, h2⟩ := utf16_of_isDigit (isDigit_of_mem_natText hc)
  rw [hutf, List.mem_singleton] at hu
  rw [hu, isDigit, hnat]
  simpa using ⟨h1, h2⟩

@[simp] theorem digitsNat_natDigits (n : ℕ) : digitsNat (natDigits n) = n := by
  rw [natDigits, digitsNat_units fun c hc => isDigit_of_mem_natText hc]
  exact Nat.ofDigitChars_ten_toDigits

theorem natDigits_ne_nil (n : ℕ) : natDigits n ≠ [] := by
  intro h
  have hnil : JsString.units (natText n) = JsString.units [] := h
  exact natText_ne_nil n (JsString.units_injective hnil)

/-! ## Numerals -/

/-- A sign, digits, and a fraction behind a point where there is one. -/
def numeral (negative : Bool) (whole fraction : JsString) : JsString :=
  (if negative then [minus] else []) ++ whole ++ if fraction = [] then [] else dot :: fraction

def AllDigits (s : JsString) : Prop := ∀ u ∈ s, isDigit u = true

theorem trim_of_forall {s : JsString} (h : ∀ u ∈ s, isBlank u = false) : trim s = s := by
  have hdrop : s.dropWhile isBlank = s := by
    rw [List.dropWhile_eq_self_iff]
    intro hpos
    simp [h _ (List.getElem_mem hpos)]
  rw [trim, hdrop, List.rdropWhile_eq_self_iff]
  intro hne
  simp [h _ (List.getLast_mem hne)]

theorem toNat_of_isDigit {u : UInt16} (h : isDigit u = true) : 48 ≤ u.toNat ∧ u.toNat ≤ 57 := by
  simpa [isDigit] using h

theorem isBlank_of_isDigit {u : UInt16} (h : isDigit u = true) : isBlank u = false := by
  have hu := toNat_of_isDigit h
  simp only [isBlank, List.mem_cons, List.not_mem_nil, or_false, Bool.or_eq_false_iff,
    decide_eq_false_iff_not, Bool.and_eq_false_iff]
  omega

theorem ne_dot_of_isDigit {u : UInt16} (h : isDigit u = true) : u ≠ dot := by
  rintro rfl
  cases h

theorem ne_minus_of_isDigit {u : UInt16} (h : isDigit u = true) : u ≠ minus := by
  rintro rfl
  cases h

variable {whole fraction : JsString}

theorem numeral_false (whole fraction : JsString) :
    numeral false whole fraction = whole ++ if fraction = [] then [] else dot :: fraction := rfl

theorem trim_numeral (hw : AllDigits whole) (hf : AllDigits fraction) (negative : Bool) :
    trim (numeral negative whole fraction) = numeral negative whole fraction := by
  apply trim_of_forall
  intro u hu
  simp only [numeral, List.mem_append] at hu
  rcases hu with (hu | hu) | hu
  · cases negative
    · cases hu
    · rw [List.mem_singleton.mp hu]
      decide
  · exact isBlank_of_isDigit (hw u hu)
  · split at hu
    · cases hu
    · rcases List.mem_cons.mp hu with rfl | hu
      · decide
      · exact isBlank_of_isDigit (hf u hu)

theorem head?_numeral (hw : AllDigits whole) (hne : whole ≠ []) (negative : Bool) :
    (numeral negative whole fraction).head? = some minus ↔ negative = true := by
  obtain ⟨u, whole, rfl⟩ := List.exists_cons_of_ne_nil hne
  have hu := ne_minus_of_isDigit (hw u (.head _))
  cases negative <;> simp [numeral, hu]

theorem unsigned_numeral (hw : AllDigits whole) (hne : whole ≠ []) (negative : Bool) :
    unsigned (numeral negative whole fraction) = numeral false whole fraction := by
  cases negative with
  | false => rw [unsigned, if_neg (by rw [head?_numeral hw hne]; simp)]
  | true => rfl

theorem isNumeral_numeral (hw : AllDigits whole) (hf : AllDigits fraction) (hne : whole ≠ [])
    (negative : Bool) :
    isNumeral (numeral negative whole fraction) = true := by
  have hrest : (numeral false whole fraction).dropWhile isDigit =
      if fraction = [] then [] else dot :: fraction := by
    have hdot : isDigit dot = false := by decide
    rw [numeral_false, List.dropWhile_append_of_pos hw]
    split <;> simp [hdot]
  have hhead : (numeral false whole fraction).head?.any isDigit = true := by
    obtain ⟨u, whole, rfl⟩ := List.exists_cons_of_ne_nil hne
    simpa [numeral] using hw u (.head _)
  rw [isNumeral, unsigned_numeral hw hne, hrest, hhead]
  by_cases hnil : fraction = []
  · simp [hnil]
  · simpa [hnil] using fun u hu => hf u hu

theorem wholePart_numeral (hw : AllDigits whole) :
    wholePart (numeral false whole fraction) = whole := by
  have h : ∀ u ∈ whole, decide (u ≠ dot) = true := fun u hu => by simp [ne_dot_of_isDigit (hw u hu)]
  rw [wholePart, numeral_false, List.takeWhile_append_of_pos h]
  split <;> simp

theorem fractionPart_numeral (hw : AllDigits whole) (hf : AllDigits fraction) :
    fractionPart (numeral false whole fraction) = fraction := by
  have h : ∀ u ∈ whole, decide (u ≠ dot) = true := fun u hu => by simp [ne_dot_of_isDigit (hw u hu)]
  rw [fractionPart, numeral_false, List.dropWhile_append_of_pos h]
  split
  · rename_i hf
    simp [hf]
  · simpa [List.takeWhile_eq_self_iff] using fun u hu => ne_dot_of_isDigit (hf u hu)

/-! ## Numbers without a fraction -/

theorem le_stripZeros (fuel m : ℕ) (e : ℤ) : e ≤ (stripZeros fuel m e).2 := by
  induction fuel generalizing m e with
  | zero => exact le_rfl
  | succ fuel ih =>
    rw [stripZeros]
    split
    · exact (le_add_of_nonneg_right zero_le_one).trans (ih _ _)
    · exact le_rfl

theorem natText_mul_pow {m : ℕ} (h : m ≠ 0) (k : ℕ) :
    natText (m * 10 ^ k) = natText m ++ List.replicate k '0' := by
  induction k with
  | zero => simp
  | succ k ih =>
    have hle : 10 ≤ m * 10 ^ (k + 1) := by
      rw [pow_succ, ← mul_assoc]
      exact Nat.le_mul_of_pos_left 10 (by positivity)
    have hdiv : m * 10 ^ (k + 1) / 10 = m * 10 ^ k := by
      rw [pow_succ, ← mul_assoc, Nat.mul_div_cancel _ (by decide)]
    have hmod : m * 10 ^ (k + 1) % 10 = 0 := by
      rw [pow_succ, ← mul_assoc, Nat.mul_mod_left]
    rw [natText, Nat.toDigits_of_base_le (by decide) hle, hdiv, hmod]
    rw [natText] at ih
    rw [ih, List.append_assoc, List.replicate_succ']
    rfl

/-- A natural number of at most 21 digits is printed by its digits. -/
theorem numberText_natCast {n : ℕ} (h : n < 10 ^ 21) : numberText n = natText n := by
  rw [numberText]
  split
  · rename_i hn
    rw [Nat.cast_eq_zero] at hn
    rw [hn]
    rfl
  · rename_i hn
    rw [Nat.cast_eq_zero] at hn
    rw [if_neg (by rw [Rat.num_natCast]; omega), List.nil_append]
    have hscale := scale_significant (decimal_natCast n)
    rw [Nat.abs_cast] at hscale
    have hexp : 0 ≤ (significant (n : ℚ)).2 := le_stripZeros _ _ _
    obtain ⟨k, hk⟩ := Int.eq_ofNat_of_zero_le hexp
    generalize hs : (significant (n : ℚ)).1 = s at hscale ⊢
    rw [hk] at hscale ⊢
    have hcast : scale s (k : ℤ) = ((s * 10 ^ k : ℕ) : ℚ) := rfl
    have hvalue : s * 10 ^ k = n := Nat.cast_injective (hcast.symm.trans hscale)
    have hs0 : s ≠ 0 := by
      rintro rfl
      rw [zero_mul] at hvalue
      exact hn hvalue.symm
    have hlength : (natText n).length = (natText s).length + k := by
      rw [← hvalue, natText_mul_pow hs0, List.length_append, List.length_replicate]
    have hbound : (natText n).length ≤ 21 := (Nat.length_toDigits_le_iff (by decide) (by decide)).mpr h
    rw [decimalText, if_pos ⟨by omega, by omega⟩, ← hvalue, natText_mul_pow hs0]
    congr 2
    omega

end Attestia.Lib.DecimalText
