import Attestia.Lib.JsString
import Attestia.Lib.Sha256
import Attestia.Lib.Utf8

/-!
# Hexadecimal texts

A text as the hexadecimal digits of its UTF-8 bytes, in upper case, and back. A text that is well
formed comes back as it was.
-/

namespace Attestia.Lib

namespace JsString

/-- The two digits of a byte in upper case. -/
def upperHexByte (b : UInt8) : List Char := (hexByte b).map Char.toUpper

def toHex (s : JsString) : JsString := units ((Utf8.encode (toWellFormed s)).flatMap upperHexByte)

/-- Digits are read up to the first pair that is none. -/
def fromHex (hex : JsString) : JsString := units (Utf8.decode (hexDecodeChars (toWellFormed hex)))

/-- A text without half a surrogate pair. -/
def IsWellFormed (s : JsString) : Prop := ∃ cs, s = units cs

theorem isWellFormed_js (s : String) : IsWellFormed (js s) := ⟨s.toList, rfl⟩

theorem hexValue_toUpper {n : ℕ} (h : n < 16) :
    hexValue (Nat.digitChar n).toUpper = some n := by
  interval_cases n <;> decide

theorem hexDecodeChars_upperHexByte (m : Bytes) : hexDecodeChars (m.flatMap upperHexByte) = m := by
  induction m with
  | nil => rfl
  | cons b m ih =>
    have hb := b.toNat_lt
    have hhigh := hexValue_toUpper (n := b.toNat / 16) (by omega)
    have hlow := hexValue_toUpper (n := b.toNat % 16) (by omega)
    show hexDecodeChars ((Nat.digitChar (b.toNat / 16)).toUpper ::
      (Nat.digitChar (b.toNat % 16)).toUpper :: m.flatMap upperHexByte) = b :: m
    rw [hexDecodeChars, hhigh, hlow]
    dsimp only
    rw [ih, Nat.div_add_mod, UInt8.ofNat_toNat]

theorem fromHex_toHex {s : JsString} (h : IsWellFormed s) : fromHex (toHex s) = s := by
  obtain ⟨cs, rfl⟩ := h
  rw [fromHex, toHex, toWellFormed_units, toWellFormed_units, hexDecodeChars_upperHexByte,
    Utf8.decode_encode]

end JsString

end Attestia.Lib
