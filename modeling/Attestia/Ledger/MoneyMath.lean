import Attestia.Ledger.Types
import Mathlib.Data.Rat.Floor

/-!
# Monetary arithmetic

`money-math.ts`: amounts are decimal texts that are scaled to integers by the number of
decimals, and integers are printed back. The value of a money is the scaled integer over
the power of ten, whatever the number of decimals.
-/

namespace Attestia.Ledger

open Lib JsonNumber DecimalText

def parseAmount (amount : JsString) (decimals : Number) : Except LedgerError ℤ :=
  let trimmed := trim amount
  if trimmed = [] then .error ⟨.invalidAmount, js "Invalid amount: " ++ quoted amount⟩
  else if !isNumeral trimmed then
    .error ⟨.invalidAmount, js "Invalid amount format: " ++ quoted trimmed⟩
  else
    let negative := trimmed.head? = some minus
    let abs := unsigned trimmed
    let intPart := wholePart abs
    let fracPart := fractionPart abs
    if decimals.val < fracPart.length then
      .error ⟨.invalidAmount, js "Amount " ++ quoted trimmed ++ js " has " ++
        JsonValue.numberString (.ofNat fracPart.length) ++
        js " decimal places, but currency allows " ++ JsonValue.numberString decimals⟩
    else
      -- the text is padded to the whole part of the number of decimals
      let paddedFrac := padEnd fracPart ⌊decimals.val⌋.toNat
      let value : ℤ := digitsNat (intPart ++ paddedFrac)
      .ok (if negative then -value else value)

/-- The text of an integer. -/
def bigintText (n : ℤ) : JsString :=
  if n < 0 then minus :: natDigits n.natAbs else natDigits n.natAbs

def formatAmount (scaled : ℤ) (decimals : Number) : JsString :=
  if decimals.val = 0 then bigintText scaled
  else
    let str := padStart (natDigits scaled.natAbs) ⌊decimals.val + 1⌋.toNat
    let point := str.length - ⌈decimals.val⌉.toNat
    let result := str.take point ++ dot :: str.drop point
    if scaled < 0 then minus :: result else result

def validateMoney (money : Money) : Except LedgerError Unit :=
  if trim money.amount = [] then
    .error ⟨.invalidMoney, js "Money amount must be a non-empty string, got: " ++
      quoted money.amount⟩
  else if trim money.currency = [] then
    .error ⟨.invalidMoney, js "Money currency must be a non-empty string, got: " ++
      quoted money.currency⟩
  else if money.decimals.val.den ≠ 1 ∨ money.decimals.val < 0 then
    .error ⟨.invalidMoney, js "Money decimals must be a non-negative integer, got: " ++
      JsonValue.numberString money.decimals⟩
  else (parseAmount money.amount money.decimals).map fun _ => ()

def assertSameCurrency (a b : Money) : Except LedgerError Unit :=
  if a.currency ≠ b.currency then
    .error ⟨.currencyMismatch, js "Cannot operate on different currencies: " ++
      quoted a.currency ++ js " vs " ++ quoted b.currency⟩
  else if a.decimals ≠ b.decimals then
    .error ⟨.currencyMismatch, js "Decimal mismatch for currency " ++ quoted a.currency ++
      js ": " ++ JsonValue.numberString a.decimals ++ js " vs " ++
      JsonValue.numberString b.decimals⟩
  else .ok ()

/-- An operation on the scaled integers of two amounts of one currency. -/
def combineMoney (op : ℤ → ℤ → ℤ) (a b : Money) : Except LedgerError Money := do
  assertSameCurrency a b
  let x ← parseAmount a.amount a.decimals
  let y ← parseAmount b.amount b.decimals
  return ⟨formatAmount (op x y) a.decimals, a.currency, a.decimals⟩

def addMoney (a b : Money) : Except LedgerError Money := combineMoney (· + ·) a b

def subtractMoney (a b : Money) : Except LedgerError Money := combineMoney (· - ·) a b

/-- The sign of the difference. -/
def compareMoney (a b : Money) : Except LedgerError Ordering := do
  assertSameCurrency a b
  let x ← parseAmount a.amount a.decimals
  let y ← parseAmount b.amount b.decimals
  return compare x y

def isZero (money : Money) : Except LedgerError Bool :=
  (parseAmount money.amount money.decimals).map fun n => n = 0

def isPositive (money : Money) : Except LedgerError Bool :=
  (parseAmount money.amount money.decimals).map fun n => 0 < n

def isNegative (money : Money) : Except LedgerError Bool :=
  (parseAmount money.amount money.decimals).map fun n => n < 0

def zeroMoney (currency : JsString) (decimals : Number) : Money :=
  ⟨formatAmount 0 decimals, currency, decimals⟩

/-! ## Values -/

namespace Money

/-- The scaled integer of an amount that can be parsed. -/
def scaled (m : Money) : ℤ :=
  match parseAmount m.amount m.decimals with
  | .ok n => n
  | .error _ => 0

def scale (m : Money) : ℕ := ⌊m.decimals.val⌋.toNat

/-- What the money is worth. -/
def value (m : Money) : ℚ := m.scaled / 10 ^ m.scale

/-- What `validateMoney` accepts. -/
structure Valid (m : Money) : Prop where
  currency : trim m.currency ≠ []
  decimals : m.decimals = .ofNat m.scale
  parses : parseAmount m.amount m.decimals = .ok m.scaled

end Money

theorem scaled_of_parseAmount {m : Money} {n : ℤ} (h : parseAmount m.amount m.decimals = .ok n) :
    m.scaled = n := by
  rw [Money.scaled, h]

theorem Money.Valid.of_parseAmount {m : Money} {n : ℤ} (hcurrency : trim m.currency ≠ [])
    (hden : m.decimals.val.den = 1) (hpos : 0 ≤ m.decimals.val)
    (h : parseAmount m.amount m.decimals = .ok n) : m.Valid := by
  refine ⟨hcurrency, ?_, by rw [scaled_of_parseAmount h, h]⟩
  obtain ⟨k, hk⟩ : ∃ k : ℕ, m.decimals.val = k := by
    obtain ⟨k, hk⟩ := Int.eq_ofNat_of_zero_le (Rat.num_nonneg.mpr hpos)
    refine ⟨k, ?_⟩
    rw [← Rat.num_div_den m.decimals.val, hden, hk]
    simp
  apply Number.ext
  rw [Money.scale, hk, Int.floor_natCast]
  rfl

theorem trim_ne_nil_of_parseAmount {amount : JsString} {decimals : Number} {n : ℤ}
    (h : parseAmount amount decimals = .ok n) : trim amount ≠ [] := by
  intro htrim
  simp only [parseAmount, htrim, if_true] at h
  cases h

theorem validateMoney_eq_ok {m : Money} : validateMoney m = .ok () ↔ m.Valid := by
  unfold validateMoney
  split
  · rename_i htrim
    exact ⟨fun h => (nomatch h), fun h => absurd htrim (trim_ne_nil_of_parseAmount h.parses)⟩
  · split
    · rename_i hcurrency
      exact ⟨fun h => (nomatch h), fun h => absurd hcurrency h.currency⟩
    · split
      · rename_i hdecimals
        refine ⟨fun h => (nomatch h), fun h => absurd hdecimals ?_⟩
        rw [h.decimals, not_or, not_not, not_lt]
        exact ⟨rfl, Nat.cast_nonneg m.scale⟩
      · rename_i hcurrency hdecimals
        rw [not_or, not_not, not_lt] at hdecimals
        constructor
        · intro h
          obtain ⟨n, hn, -⟩ := map_eq_ok.mp h
          exact .of_parseAmount hcurrency hdecimals.1 hdecimals.2 hn
        · intro h
          rw [h.parses]
          rfl

/-! ## Printing and parsing -/

/-- What a numeral with at most the given number of decimals is parsed to. -/
theorem parseAmount_numeral {whole fraction : JsString} (hw : AllDigits whole)
    (hf : AllDigits fraction) (hne : whole ≠ []) (negative : Bool) {decimals : Number}
    (hlen : (fraction.length : ℚ) ≤ decimals.val) :
    parseAmount (numeral negative whole fraction) decimals =
      .ok (if negative then -(digitsNat (whole ++ padEnd fraction ⌊decimals.val⌋.toNat) : ℤ)
        else digitsNat (whole ++ padEnd fraction ⌊decimals.val⌋.toNat)) := by
  have hnil : numeral negative whole fraction ≠ [] := by
    obtain ⟨u, whole, rfl⟩ := List.exists_cons_of_ne_nil hne
    cases negative <;> simp [numeral]
  rw [parseAmount, trim_numeral hw hf]
  simp only [hnil, if_false, isNumeral_numeral hw hf hne, Bool.not_true, Bool.false_eq_true,
    unsigned_numeral hw hne, wholePart_numeral hw, fractionPart_numeral hw hf, not_lt.mpr hlen,
    head?_numeral hw hne]

/-- The printed text of an integer is a numeral with exactly the given number of decimals. -/
theorem exists_numeral_of_formatAmount (n : ℤ) (d : ℕ) :
    ∃ whole fraction, AllDigits whole ∧ AllDigits fraction ∧ whole ≠ [] ∧ fraction.length = d ∧
      digitsNat (whole ++ fraction) = n.natAbs ∧
      formatAmount n (.ofNat d) = numeral (decide (n < 0)) whole fraction := by
  obtain rfl | hd := Nat.eq_zero_or_pos d
  · refine ⟨natDigits n.natAbs, [], fun u hu => isDigit_of_mem_natDigits hu, fun u hu => (nomatch hu),
      natDigits_ne_nil _, rfl, by simp, ?_⟩
    by_cases hn : n < 0 <;> simp [formatAmount, bigintText, numeral, Number.ofNat, hn]
  · let str := padStart (natDigits n.natAbs) (d + 1)
    have hlen : d + 1 ≤ str.length := by
      rw [length_padStart]
      exact le_max_left _ _
    have hdigits : AllDigits str := by
      intro u hu
      rcases List.mem_append.mp hu with hu | hu
      · rw [List.eq_of_mem_replicate hu]
        rfl
      · exact isDigit_of_mem_natDigits hu
    have hne : str.drop (str.length - d) ≠ [] := by
      rw [ne_eq, List.drop_eq_nil_iff]
      omega
    refine ⟨str.take (str.length - d), str.drop (str.length - d),
      fun u hu => hdigits u (List.mem_of_mem_take hu), fun u hu => hdigits u (List.mem_of_mem_drop hu),
      ?_, ?_, ?_, ?_⟩
    · rw [ne_eq, List.take_eq_nil_iff]
      rintro (h | h)
      · omega
      · rw [h] at hlen
        cases hlen
    · rw [List.length_drop]
      omega
    · rw [List.take_append_drop, digitsNat_padStart, digitsNat_natDigits]
    · have hzero : ((Number.ofNat d).val = 0) = False := by simp [Number.ofNat, hd.ne']
      have hfloor : ⌊(Number.ofNat d).val + 1⌋.toNat = d + 1 := by
        rw [Number.ofNat, Int.floor_add_one, Int.floor_natCast]
        omega
      have hceil : ⌈(Number.ofNat d).val⌉.toNat = d := by simp [Number.ofNat]
      simp only [formatAmount, hzero, if_false, hfloor, hceil]
      by_cases hn : n < 0 <;> simp [numeral, hn, hne, str]

theorem parseAmount_formatAmount (n : ℤ) (d : ℕ) :
    parseAmount (formatAmount n (.ofNat d)) (.ofNat d) = .ok n := by
  obtain ⟨whole, fraction, hw, hf, hne, hlen, hval, htext⟩ := exists_numeral_of_formatAmount n d
  have hle : (fraction.length : ℚ) ≤ (Number.ofNat d).val := by rw [hlen]; rfl
  have hfloor : ⌊(Number.ofNat d).val⌋.toNat = d := by simp [Number.ofNat]
  rw [htext, parseAmount_numeral hw hf hne _ hle, hfloor, padEnd_of_le hlen.ge, hval]
  simp only [decide_eq_true_eq]
  congr 1
  split <;> omega

theorem scaled_formatAmount (n : ℤ) (currency : JsString) (d : ℕ) :
    (Money.mk (formatAmount n (.ofNat d)) currency (.ofNat d)).scaled = n :=
  scaled_of_parseAmount (parseAmount_formatAmount n d)

@[simp] theorem scale_ofNat (amount currency : JsString) (d : ℕ) :
    (Money.mk amount currency (.ofNat d)).scale = d := by
  simp [Money.scale, Number.ofNat]

/-- A printed amount is worth what was printed. -/
theorem value_formatAmount (n : ℤ) (currency : JsString) (d : ℕ) :
    (Money.mk (formatAmount n (.ofNat d)) currency (.ofNat d)).value = n / 10 ^ d := by
  rw [Money.value, scaled_formatAmount, scale_ofNat]

theorem assertSameCurrency_eq_ok {a b : Money} :
    assertSameCurrency a b = .ok () ↔ a.currency = b.currency ∧ a.decimals = b.decimals := by
  unfold assertSameCurrency
  split
  · simp_all
  · split <;> simp_all

theorem combineMoney_eq_ok {op : ℤ → ℤ → ℤ} {a b c : Money} : combineMoney op a b = .ok c ↔
    a.currency = b.currency ∧ a.decimals = b.decimals ∧
      ∃ x y, parseAmount a.amount a.decimals = .ok x ∧ parseAmount b.amount b.decimals = .ok y ∧
        c = ⟨formatAmount (op x y) a.decimals, a.currency, a.decimals⟩ := by
  rw [combineMoney, bind_unit_eq_ok, assertSameCurrency_eq_ok, and_assoc, bind_eq_ok]
  refine and_congr_right fun _ => and_congr_right fun _ => exists_congr fun x => ?_
  rw [bind_eq_ok, ← exists_and_left]
  refine exists_congr fun y => and_congr_right fun _ => and_congr_right fun _ => ?_
  exact ⟨fun h => (Except.ok.inj h).symm, fun h => congrArg Except.ok h.symm⟩

/-- Moneys of one currency and one number of decimals. -/
structure Money.InUnit (currency : JsString) (decimals : Number) (m : Money) : Prop where
  currency : m.currency = currency
  decimals : m.decimals = decimals

section unit

variable {currency : JsString} {d : ℕ} {a b c : Money}

theorem Money.InUnit.scale {m : Money} (h : m.InUnit currency (.ofNat d)) : m.scale = d := by
  rw [Money.scale, h.decimals, Number.ofNat, Int.floor_natCast]
  rfl

/-- What is formed from two amounts is in their unit, and its value is exact. -/
theorem combineMoney_inUnit {op : ℤ → ℤ → ℤ} (ha : a.InUnit currency (.ofNat d))
    (h : combineMoney op a b = .ok c) : b.InUnit currency (.ofNat d) ∧
      c.InUnit currency (.ofNat d) ∧ c.scaled = op a.scaled b.scaled := by
  obtain ⟨hcurrency, hdecimals, x, y, hx, hy, rfl⟩ := combineMoney_eq_ok.mp h
  refine ⟨⟨hcurrency ▸ ha.currency, hdecimals ▸ ha.decimals⟩, ⟨ha.currency, ha.decimals⟩, ?_⟩
  rw [ha.decimals, scaled_formatAmount, scaled_of_parseAmount hx, scaled_of_parseAmount hy]

theorem addMoney_inUnit (ha : a.InUnit currency (.ofNat d)) (h : addMoney a b = .ok c) :
    b.InUnit currency (.ofNat d) ∧ c.InUnit currency (.ofNat d) ∧ c.value = a.value + b.value := by
  obtain ⟨hb, hc, hscaled⟩ := combineMoney_inUnit ha h
  refine ⟨hb, hc, ?_⟩
  rw [Money.value, Money.value, Money.value, hscaled, ha.scale, hb.scale,
    hc.scale, Int.cast_add, add_div]

theorem subtractMoney_inUnit (ha : a.InUnit currency (.ofNat d)) (h : subtractMoney a b = .ok c) :
    b.InUnit currency (.ofNat d) ∧ c.InUnit currency (.ofNat d) ∧ c.value = a.value - b.value := by
  obtain ⟨hb, hc, hscaled⟩ := combineMoney_inUnit ha h
  refine ⟨hb, hc, ?_⟩
  rw [Money.value, Money.value, Money.value, hscaled, ha.scale, hb.scale,
    hc.scale, Int.cast_sub, sub_div]

end unit

theorem isPositive_eq_ok {m : Money} (h : m.Valid) :
    isPositive m = .ok (decide (0 < m.scaled)) := by
  rw [isPositive, h.parses]
  rfl

/-! ## Numbers of decimals -/

/-- What an amount that is parsed has passed; only its sign and its digits count. -/
theorem accepted_of_parseAmount {amount : JsString} {d : Number} {z : ℤ}
    (h : parseAmount amount d = .ok z) :
    isNumeral (trim amount) = true ∧
      ((fractionPart (unsigned (trim amount))).length : ℚ) ≤ d.val ∧
      ∃ k : ℕ, z = if (trim amount).head? = some minus then -(k : ℤ) else k := by
  rw [parseAmount] at h
  dsimp only at h
  split at h
  · cases h
  · split at h
    · cases h
    · rename_i hnumeral
      split at h
      · cases h
      · rename_i hlength
        exact ⟨by simpa using hnumeral, not_lt.mp hlength, _, (Except.ok.inj h).symm⟩

/-- The sign of an amount does not depend on the number of decimals. -/
theorem nonneg_of_parseAmount {amount : JsString} {d e : Number} {x y : ℤ}
    (hx : parseAmount amount d = .ok x) (hpos : 0 < x) (hy : parseAmount amount e = .ok y) :
    0 ≤ y := by
  obtain ⟨-, -, k, hk⟩ := accepted_of_parseAmount hx
  obtain ⟨-, -, l, hl⟩ := accepted_of_parseAmount hy
  split at hk
  · omega
  · rename_i hsign
    rw [if_neg hsign] at hl
    omega

/-- Digits stand on both sides of the point of an amount. -/
theorem ne_nil_of_isNumeral {whole fraction : JsString} (hw : AllDigits whole) {negative : Bool}
    (h : isNumeral ((if negative then [minus] else []) ++ whole ++ dot :: fraction) = true) :
    whole ≠ [] ∧ fraction ≠ [] := by
  have hunsigned : unsigned ((if negative then [minus] else []) ++ whole ++ dot :: fraction) =
      whole ++ dot :: fraction := by
    cases negative with
    | true => rfl
    | false =>
      cases whole with
      | nil => rfl
      | cons u us =>
        have hu := ne_minus_of_isDigit (hw u (.head _))
        simp [unsigned, hu]
  have hdot : isDigit dot = false := by decide
  rw [isNumeral, hunsigned, List.dropWhile_append_of_pos hw,
    List.dropWhile_cons_of_neg (by simp [hdot])] at h
  constructor
  · rintro rfl
    simp [hdot] at h
  · rintro rfl
    simp at h

/-- An integer is only printed as an amount where the number of decimals is a natural number. -/
theorem exists_ofNat_of_parseAmount_format {d : Number} {n z : ℤ}
    (h : parseAmount (formatAmount n d) d = .ok z) : ∃ k, d = .ofNat k := by
  by_contra hnat
  have hne : ∀ k : ℕ, d.val ≠ k := fun k hk => hnat ⟨k, Number.ext hk⟩
  have hzero : d.val ≠ 0 := by simpa using hne 0
  have hdigits : AllDigits (padStart (natDigits n.natAbs) ⌊d.val + 1⌋.toNat) := by
    intro u hu
    rcases List.mem_append.mp hu with hu | hu
    · rw [List.eq_of_mem_replicate hu]
      rfl
    · exact isDigit_of_mem_natDigits hu
  have hlength : ⌊d.val + 1⌋.toNat ≤
      (padStart (natDigits n.natAbs) ⌊d.val + 1⌋.toNat).length := by
    rw [length_padStart]
    exact le_max_left _ _
  rw [formatAmount, if_neg hzero] at h
  dsimp only at h
  generalize padStart (natDigits n.natAbs) ⌊d.val + 1⌋.toNat = str at h hdigits hlength
  -- the digits in front of the point and behind it
  obtain ⟨whole, hwhole⟩ : ∃ whole, whole = str.take (str.length - ⌈d.val⌉.toNat) := ⟨_, rfl⟩
  obtain ⟨fraction, hfraction⟩ : ∃ fraction, fraction = str.drop (str.length - ⌈d.val⌉.toNat) :=
    ⟨_, rfl⟩
  rw [← hwhole, ← hfraction] at h
  have hw : AllDigits whole := fun u hu => hdigits u (List.mem_of_mem_take (hwhole ▸ hu))
  have hf : AllDigits fraction := fun u hu => hdigits u (List.mem_of_mem_drop (hfraction ▸ hu))
  have htext : (if n < 0 then minus :: (whole ++ dot :: fraction) else whole ++ dot :: fraction) =
      (if decide (n < 0) then [minus] else []) ++ whole ++ dot :: fraction := by
    by_cases hn : n < 0 <;> simp [hn]
  have hblank : ∀ u ∈ (if decide (n < 0) then [minus] else []) ++ whole ++ dot :: fraction,
      isBlank u = false := by
    intro u hu
    simp only [List.mem_append, List.mem_cons] at hu
    rcases hu with (hu | hu) | rfl | hu
    · split at hu
      · rw [List.mem_singleton.mp hu]
        decide
      · cases hu
    · exact isBlank_of_isDigit (hw u hu)
    · decide
    · exact isBlank_of_isDigit (hf u hu)
  rw [htext] at h
  obtain ⟨hnumeral, hfits, -⟩ := accepted_of_parseAmount h
  rw [trim_of_forall hblank] at hnumeral hfits
  obtain ⟨hwne, hfne⟩ := ne_nil_of_isNumeral hw hnumeral
  have heq : (if decide (n < 0) then [minus] else []) ++ whole ++ dot :: fraction =
      numeral (decide (n < 0)) whole fraction := by
    rw [numeral, if_neg hfne]
  rw [heq, unsigned_numeral hw hwne, fractionPart_numeral hw hf] at hfits
  have hceil := Int.le_ceil d.val
  have hpos : 0 < ⌈d.val⌉ := by
    by_contra hle
    have hpoint : ⌈d.val⌉.toNat = 0 := by omega
    apply hfne
    rw [hfraction, hpoint, Nat.sub_zero, List.drop_length]
  have hmost : ⌈d.val⌉.toNat ≤ str.length := by
    have hfloor := Int.ceil_le_floor_add_one d.val
    rw [Int.floor_add_one] at hlength
    omega
  have hbehind : fraction.length = ⌈d.val⌉.toNat := by
    rw [hfraction, List.length_drop]
    omega
  -- so the number of decimals is the number of digits
  apply hne ⌈d.val⌉.toNat
  have hcast : ((⌈d.val⌉.toNat : ℕ) : ℚ) = ⌈d.val⌉ := by
    rw [← Int.cast_natCast, Int.toNat_of_nonneg hpos.le]
  rw [hbehind] at hfits
  apply le_antisymm _ hfits
  rw [hcast]
  exact hceil

/-! ## Zero -/

@[simp] theorem value_zeroMoney (currency : JsString) (decimals : Number) :
    (zeroMoney currency decimals).value = 0 := by
  have hscaled : (zeroMoney currency decimals).scaled = 0 := by
    rw [Money.scaled]
    rcases hparse : parseAmount (zeroMoney currency decimals).amount
      (zeroMoney currency decimals).decimals with e | n
    · rfl
    · obtain ⟨k, rfl⟩ := exists_ofNat_of_parseAmount_format hparse
      exact Except.ok.inj (hparse.symm.trans (parseAmount_formatAmount 0 k))
  rw [Money.value, hscaled, Int.cast_zero, zero_div]

end Attestia.Ledger
