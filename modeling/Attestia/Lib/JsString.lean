import Attestia.Lib.Utf8

/-!
# UTF-16 strings

A string of the language is a list of code units. Its code points are the scalar values
and the surrogates that are not part of a pair; only the latter are lost when a string is
written as UTF-8.
-/

namespace Attestia.Lib

abbrev JsString := List UInt16

instance : LawfulBEq JsString := inferInstance

namespace JsString

def utf16 (c : Char) : JsString :=
  if c.toNat < 0x10000 then [UInt16.ofNat c.toNat]
  else [UInt16.ofNat (0xD800 + (c.toNat - 0x10000) / 0x400),
    UInt16.ofNat (0xDC00 + (c.toNat - 0x10000) % 0x400)]

def units (cs : List Char) : JsString := cs.flatMap utf16

def isHigh (u : UInt16) : Bool := 0xD800 ≤ u.toNat && u.toNat < 0xDC00

def isLow (u : UInt16) : Bool := 0xDC00 ≤ u.toNat && u.toNat < 0xE000

/-- A scalar value, or a surrogate on its own. -/
inductive CodePoint where
  | scalar (c : Char)
  | lone (u : UInt16)

def unitPoint (u : UInt16) : CodePoint :=
  if isHigh u || isLow u then .lone u else .scalar (Char.ofNat u.toNat)

def pairPoint (u v : UInt16) : CodePoint :=
  .scalar (Char.ofNat (0x10000 + (u.toNat - 0xD800) * 0x400 + (v.toNat - 0xDC00)))

def codePoints : JsString → List CodePoint
  | [] => []
  | [u] => [unitPoint u]
  | u :: v :: s =>
    if isHigh u && isLow v then pairPoint u v :: codePoints s
    else unitPoint u :: codePoints (v :: s)

def CodePoint.units : CodePoint → JsString
  | .scalar c => utf16 c
  | .lone u => [u]

def CodePoint.scalarValue : CodePoint → Char
  | .scalar c => c
  | .lone _ => Utf8.replacement

/-- The characters that are written when the string is encoded. -/
def toWellFormed (s : JsString) : List Char := (codePoints s).map CodePoint.scalarValue

theorem toNat_char_ofNat {n : ℕ} (h : n < 0xD800 ∨ (0xDFFF < n ∧ n < 0x110000)) :
    (Char.ofNat n).toNat = n := by
  have hv : n.isValidChar := h
  rw [Char.ofNat, dif_pos hv]
  rfl

theorem units_unitPoint (u : UInt16) : (unitPoint u).units = [u] := by
  have hu := u.toNat_lt
  rw [unitPoint]
  split
  · rfl
  · rename_i h
    simp only [isHigh, isLow, Bool.or_eq_true, Bool.and_eq_true, decide_eq_true_eq] at h
    have hn : (Char.ofNat u.toNat).toNat = u.toNat := toNat_char_ofNat (by omega)
    have hlt : u.toNat < 0x10000 := by omega
    simp only [CodePoint.units, utf16, hn, hlt, if_true, UInt16.ofNat_toNat]

theorem units_pairPoint {u v : UInt16} (hu : isHigh u = true) (hv : isLow v = true) :
    (pairPoint u v).units = [u, v] := by
  simp only [isHigh, isLow, Bool.and_eq_true, decide_eq_true_eq] at hu hv
  have hn := toNat_char_ofNat (n := 0x10000 + (u.toNat - 0xD800) * 0x400 + (v.toNat - 0xDC00))
    (by omega)
  have hge : ¬ 0x10000 + (u.toNat - 0xD800) * 0x400 + (v.toNat - 0xDC00) < 0x10000 := by omega
  have h1 : 0xD800 + (0x10000 + (u.toNat - 0xD800) * 0x400 + (v.toNat - 0xDC00) - 0x10000) / 0x400
      = u.toNat := by omega
  have h2 : 0xDC00 + (0x10000 + (u.toNat - 0xD800) * 0x400 + (v.toNat - 0xDC00) - 0x10000) % 0x400
      = v.toNat := by omega
  simp only [pairPoint, CodePoint.units, utf16, hn, hge, if_false, h1, h2, UInt16.ofNat_toNat]

/-- A string is the units of its code points. -/
theorem flatMap_units_codePoints (s : JsString) : (codePoints s).flatMap CodePoint.units = s := by
  fun_induction codePoints s with
  | case1 => rfl
  | case2 u => simp only [List.flatMap_cons, List.flatMap_nil, units_unitPoint, List.append_nil]
  | case3 u v s h ih =>
    rw [Bool.and_eq_true] at h
    rw [List.flatMap_cons, ih, units_pairPoint h.1 h.2]
    rfl
  | case4 u v s _ ih =>
    rw [List.flatMap_cons, ih, units_unitPoint]
    rfl

theorem codePoints_utf16_append (c : Char) (s : JsString) :
    codePoints (utf16 c ++ s) = .scalar c :: codePoints s := by
  have hc := Utf8.toNat_lt_or c
  have hof : Char.ofNat c.toNat = c := Char.ofNat_toNat c
  rw [utf16]
  split
  · rename_i hlt
    have hu : (UInt16.ofNat c.toNat).toNat = c.toNat := by
      rw [UInt16.toNat_ofNat', Nat.mod_eq_of_lt (by omega)]
    have hhigh : isHigh (UInt16.ofNat c.toNat) = false := by
      simp only [isHigh, hu, Bool.and_eq_false_iff, decide_eq_false_iff_not]
      omega
    have hlow : isLow (UInt16.ofNat c.toNat) = false := by
      simp only [isLow, hu, Bool.and_eq_false_iff, decide_eq_false_iff_not]
      omega
    have hpoint : unitPoint (UInt16.ofNat c.toNat) = .scalar c := by
      simp only [unitPoint, hhigh, hlow, Bool.or_self, Bool.false_eq_true, if_false, hu, hof]
    cases s with
    | nil => simp only [List.append_nil, codePoints, hpoint]
    | cons v s =>
      simp only [List.cons_append, List.nil_append, codePoints, hhigh, Bool.false_and,
        Bool.false_eq_true, if_false, hpoint]
  · rename_i hge
    have h1 : (UInt16.ofNat (0xD800 + (c.toNat - 0x10000) / 0x400)).toNat =
        0xD800 + (c.toNat - 0x10000) / 0x400 := by
      rw [UInt16.toNat_ofNat', Nat.mod_eq_of_lt (by omega)]
    have h2 : (UInt16.ofNat (0xDC00 + (c.toNat - 0x10000) % 0x400)).toNat =
        0xDC00 + (c.toNat - 0x10000) % 0x400 := by
      rw [UInt16.toNat_ofNat', Nat.mod_eq_of_lt (by omega)]
    have hsum : 0x10000 + (0xD800 + (c.toNat - 0x10000) / 0x400 - 0xD800) * 0x400 +
        (0xDC00 + (c.toNat - 0x10000) % 0x400 - 0xDC00) = c.toNat := by omega
    have hhigh : isHigh (UInt16.ofNat (0xD800 + (c.toNat - 0x10000) / 0x400)) = true := by
      simp only [isHigh, h1, Bool.and_eq_true, decide_eq_true_eq]
      omega
    have hlow : isLow (UInt16.ofNat (0xDC00 + (c.toNat - 0x10000) % 0x400)) = true := by
      simp only [isLow, h2, Bool.and_eq_true, decide_eq_true_eq]
      omega
    simp only [List.cons_append, List.nil_append, codePoints, hhigh, hlow, Bool.and_self, if_true,
      pairPoint, h1, h2, hsum, hof]

/-- Well-formed text in front of a string stays as it is when the string is encoded. -/
theorem toWellFormed_units_append (cs : List Char) (s : JsString) :
    toWellFormed (units cs ++ s) = cs ++ toWellFormed s := by
  induction cs with
  | nil => rfl
  | cons c cs ih =>
    rw [toWellFormed] at ih ⊢
    rw [units, List.flatMap_cons, List.append_assoc, codePoints_utf16_append, List.map_cons,
      ← units, ih]
    rfl

@[simp] theorem toWellFormed_units (cs : List Char) : toWellFormed (units cs) = cs := by
  simpa [toWellFormed, codePoints] using toWellFormed_units_append cs []

theorem units_injective : Function.Injective units :=
  Function.LeftInverse.injective toWellFormed_units

end JsString

open JsString in
/-- The string value of a literal. -/
def js (s : String) : JsString := units s.toList

theorem js_injective : Function.Injective js := fun _ _ h =>
  String.toList_injective (JsString.units_injective h)

@[simp] theorem js_inj {a b : String} : js a = js b ↔ a = b := js_injective.eq_iff

/-- A literal is stored as bytes, and decoding them is a structural recursion. -/
theorem js_eq_decode (s : String) :
    js s = JsString.units (Utf8.decode s.toByteArray.data.toList) := by
  have hbytes : s.toByteArray.data.toList = Utf8.encode s.toList := by
    conv_lhs => rw [← String.ofList_toList (s := s)]
    rw [String.toByteArray_ofList, List.utf8Encode, List.data_toByteArray]
    rfl
  rw [hbytes, Utf8.decode_encode]
  rfl

@[simp] theorem toWellFormed_js_append (a : String) (s : JsString) :
    JsString.toWellFormed (js a ++ s) = a.toList ++ JsString.toWellFormed s :=
  JsString.toWellFormed_units_append a.toList s

@[simp] theorem toWellFormed_js (a : String) : JsString.toWellFormed (js a) = a.toList :=
  JsString.toWellFormed_units a.toList

end Attestia.Lib
