import Mathlib.Data.List.Basic
import Mathlib.Data.List.Nodup
import Mathlib.Data.Set.Function
import Mathlib.Tactic.IntervalCases

/-!
# SHA-256 and hexadecimal text

The hash of FIPS 180-4 over byte lists, computed word by word, and the lower-case
hexadecimal text of a byte list. `CollisionFree` is the only assumption made about the
hash: it is stated for the set of messages that are hashed, since no function with
32-byte outputs is injective on all messages.
-/

namespace Attestia.Lib

abbrev Bytes := List UInt8

namespace Sha256

def rotr (x n : UInt32) : UInt32 := (x >>> n) ||| (x <<< (32 - n))

def ch (x y z : UInt32) : UInt32 := (x &&& y) ^^^ (~~~x &&& z)

def maj (x y z : UInt32) : UInt32 := (x &&& y) ^^^ (x &&& z) ^^^ (y &&& z)

def bigSigma0 (x : UInt32) : UInt32 := rotr x 2 ^^^ rotr x 13 ^^^ rotr x 22

def bigSigma1 (x : UInt32) : UInt32 := rotr x 6 ^^^ rotr x 11 ^^^ rotr x 25

def smallSigma0 (x : UInt32) : UInt32 := rotr x 7 ^^^ rotr x 18 ^^^ (x >>> 3)

def smallSigma1 (x : UInt32) : UInt32 := rotr x 17 ^^^ rotr x 19 ^^^ (x >>> 10)

def roundConstants : List UInt32 := [
  0x428a2f98, 0x71374491, 0xb5c0fbcf, 0xe9b5dba5, 0x3956c25b, 0x59f111f1, 0x923f82a4, 0xab1c5ed5,
  0xd807aa98, 0x12835b01, 0x243185be, 0x550c7dc3, 0x72be5d74, 0x80deb1fe, 0x9bdc06a7, 0xc19bf174,
  0xe49b69c1, 0xefbe4786, 0x0fc19dc6, 0x240ca1cc, 0x2de92c6f, 0x4a7484aa, 0x5cb0a9dc, 0x76f988da,
  0x983e5152, 0xa831c66d, 0xb00327c8, 0xbf597fc7, 0xc6e00bf3, 0xd5a79147, 0x06ca6351, 0x14292967,
  0x27b70a85, 0x2e1b2138, 0x4d2c6dfc, 0x53380d13, 0x650a7354, 0x766a0abb, 0x81c2c92e, 0x92722c85,
  0xa2bfe8a1, 0xa81a664b, 0xc24b8b70, 0xc76c51a3, 0xd192e819, 0xd6990624, 0xf40e3585, 0x106aa070,
  0x19a4c116, 0x1e376c08, 0x2748774c, 0x34b0bcb5, 0x391c0cb3, 0x4ed8aa4a, 0x5b9cca4f, 0x682e6ff3,
  0x748f82ee, 0x78a5636f, 0x84c87814, 0x8cc70208, 0x90befffa, 0xa4506ceb, 0xbef9a3f7, 0xc67178f2]

structure State where
  (a b c d e f g h : UInt32)

def initialState : State :=
  ⟨0x6a09e667, 0xbb67ae85, 0x3c6ef372, 0xa54ff53a, 0x510e527f, 0x9b05688c, 0x1f83d9ab, 0x5be0cd19⟩

def bigEndian (n v : ℕ) : Bytes :=
  (List.range n).map fun i => UInt8.ofNat (v / 256 ^ (n - 1 - i))

/-- The message, a one bit, zeros and the bit length: a multiple of 64 bytes. -/
def pad (m : Bytes) : Bytes :=
  m ++ 0x80 :: List.replicate ((119 - m.length % 64) % 64) 0 ++ bigEndian 8 (8 * m.length)

def wordAt (block : Bytes) (i : ℕ) : UInt32 :=
  (((block.drop (4 * i)).take 4).map UInt8.toUInt32).foldl (fun acc b => acc * 256 + b) 0

/-- Appends `n` words to a message schedule kept newest word first. -/
def extend : ℕ → List UInt32 → List UInt32
  | 0, w => w
  | n + 1, w =>
    extend n ((smallSigma1 (w.getD 1 0) + w.getD 6 0 + smallSigma0 (w.getD 14 0) + w.getD 15 0) :: w)

def schedule (block : Bytes) : List UInt32 :=
  (extend 48 ((List.range 16).map (wordAt block)).reverse).reverse

def round (s : State) (k w : UInt32) : State :=
  let t1 := s.h + bigSigma1 s.e + ch s.e s.f s.g + k + w
  let t2 := bigSigma0 s.a + maj s.a s.b s.c
  ⟨t1 + t2, s.a, s.b, s.c, s.d + t1, s.e, s.f, s.g⟩

def compress (s : State) (block : Bytes) : State :=
  let r := (roundConstants.zip (schedule block)).foldl (fun st kw => round st kw.1 kw.2) s
  ⟨s.a + r.a, s.b + r.b, s.c + r.c, s.d + r.d, s.e + r.e, s.f + r.f, s.g + r.g, s.h + r.h⟩

def hashBlocks : ℕ → Bytes → State → State
  | 0, _, s => s
  | n + 1, m, s => hashBlocks n (m.drop 64) (compress s (m.take 64))

def State.toBytes (s : State) : Bytes :=
  [s.a, s.b, s.c, s.d, s.e, s.f, s.g, s.h].flatMap fun w => bigEndian 4 w.toNat

end Sha256

open Sha256 in
def sha256 (m : Bytes) : Bytes :=
  (hashBlocks ((pad m).length / 64) (pad m) initialState).toBytes

@[simp] theorem sha256_length (m : Bytes) : (sha256 m).length = 32 := by
  simp [sha256, Sha256.State.toBytes, Sha256.bigEndian]

set_option maxRecDepth 2000 in
example : sha256 [0x61, 0x62, 0x63] = [
    0xba, 0x78, 0x16, 0xbf, 0x8f, 0x01, 0xcf, 0xea, 0x41, 0x41, 0x40, 0xde, 0x5d, 0xae, 0x22, 0x23,
    0xb0, 0x03, 0x61, 0xa3, 0x96, 0x17, 0x7a, 0x9c, 0xb4, 0x10, 0xff, 0x61, 0xf2, 0x00, 0x15, 0xad] := by
  decide +kernel

/-- No two of the messages in `S` have the same hash. -/
def CollisionFree (S : Set Bytes) : Prop := Set.InjOn sha256 S

theorem collisionFree_of_head {l : List Bytes} (h : (l.map fun m => (sha256 m).head?).Nodup) :
    CollisionFree {m | m ∈ l} :=
  fun _ hx _ hy heq => List.inj_on_of_nodup_map h hx hy (congrArg List.head? heq)

/-! ## Hexadecimal text -/

def hexByte (b : UInt8) : List Char := [Nat.digitChar (b.toNat / 16), Nat.digitChar (b.toNat % 16)]

def hexEncode (m : Bytes) : String := String.ofList (m.flatMap hexByte)

def hexValue (c : Char) : Option ℕ :=
  if '0' ≤ c ∧ c ≤ '9' then some (c.toNat - 48)
  else if 'a' ≤ c ∧ c ≤ 'f' then some (c.toNat - 87)
  else if 'A' ≤ c ∧ c ≤ 'F' then some (c.toNat - 55)
  else none

/-- Pairs of hexadecimal digits up to the first pair that is not one. -/
def hexDecodeChars : List Char → Bytes
  | c :: d :: cs =>
    match hexValue c, hexValue d with
    | some x, some y => UInt8.ofNat (16 * x + y) :: hexDecodeChars cs
    | _, _ => []
  | _ => []

def hexDecode (s : String) : Bytes := hexDecodeChars s.toList

/-- A character that `hexEncode` can print. -/
def isLowerHex (c : Char) : Bool := ('a' ≤ c && c ≤ 'f') || ('0' ≤ c && c ≤ '9')

theorem hexValue_digitChar {n : ℕ} (h : n < 16) : hexValue (Nat.digitChar n) = some n := by
  interval_cases n <;> decide

theorem isLowerHex_digitChar {n : ℕ} (h : n < 16) : isLowerHex (Nat.digitChar n) = true := by
  interval_cases n <;> decide

theorem digitChar_of_isLowerHex {c : Char} (h : isLowerHex c = true) :
    ∃ n < 16, hexValue c = some n ∧ Nat.digitChar n = c := by
  have hc : c = Char.ofNat c.toNat := (Char.ofNat_toNat c).symm
  have hb : (97 ≤ c.toNat ∧ c.toNat ≤ 102) ∨ (48 ≤ c.toNat ∧ c.toNat ≤ 57) := by
    simpa [isLowerHex, Char.le_def, UInt32.le_iff_toNat_le] using h
  rw [hc]
  generalize c.toNat = k at hb
  rcases hb with ⟨h1, h2⟩ | ⟨h1, h2⟩ <;> interval_cases k <;> decide

theorem hexDecodeChars_hexByte (m : Bytes) : hexDecodeChars (m.flatMap hexByte) = m := by
  induction m with
  | nil => rfl
  | cons b m ih =>
    have hb := b.toNat_lt
    have h1 : hexValue (Nat.digitChar (b.toNat / 16)) = some (b.toNat / 16) :=
      hexValue_digitChar (by omega)
    have h2 : hexValue (Nat.digitChar (b.toNat % 16)) = some (b.toNat % 16) :=
      hexValue_digitChar (by omega)
    have h3 : 16 * (b.toNat / 16) + b.toNat % 16 = b.toNat := by omega
    simp only [List.flatMap_cons, hexByte, List.cons_append, List.nil_append, hexDecodeChars, h1, h2,
      h3, UInt8.ofNat_toNat]
    exact congrArg _ ih

@[simp] theorem hexDecode_hexEncode (m : Bytes) : hexDecode (hexEncode m) = m := by
  simp [hexDecode, hexEncode, hexDecodeChars_hexByte]

theorem hexEncode_injective : Function.Injective hexEncode :=
  Function.LeftInverse.injective hexDecode_hexEncode

theorem hexEncode_length (m : Bytes) : (hexEncode m).toList.length = 2 * m.length := by
  simp [hexEncode, hexByte]
  omega

theorem isLowerHex_of_mem_hexEncode {m : Bytes} {c : Char} (h : c ∈ (hexEncode m).toList) :
    isLowerHex c = true := by
  simp only [hexEncode, String.toList_ofList, List.mem_flatMap, hexByte, List.mem_cons,
    List.not_mem_nil, or_false] at h
  obtain ⟨b, -, rfl | rfl⟩ := h
  · exact isLowerHex_digitChar (by have := b.toNat_lt; omega)
  · exact isLowerHex_digitChar (by omega)

theorem hexDecodeChars_length {cs : List Char} (h : ∀ c ∈ cs, isLowerHex c = true) {n : ℕ}
    (hn : cs.length = 2 * n) : (hexDecodeChars cs).length = n := by
  induction n generalizing cs with
  | zero => simp [List.length_eq_zero_iff.mp hn, hexDecodeChars]
  | succ n ih =>
    obtain ⟨c, d, cs, rfl⟩ : ∃ c d ds, cs = c :: d :: ds := by
      match cs, hn with
      | c :: d :: ds, _ => exact ⟨c, d, ds, rfl⟩
    obtain ⟨x, -, hx, -⟩ := digitChar_of_isLowerHex (h c (by simp))
    obtain ⟨y, -, hy, -⟩ := digitChar_of_isLowerHex (h d (by simp))
    have hlen : cs.length = 2 * n := by simp only [List.length_cons] at hn; omega
    have := @ih cs (fun e he => h e (by simp [he])) hlen
    simp [hexDecodeChars, hx, hy, this]

/-- Lower-case hexadecimal text of even length is determined by its bytes. -/
theorem hexByte_hexDecodeChars {cs : List Char} (h : ∀ c ∈ cs, isLowerHex c = true) {n : ℕ}
    (hn : cs.length = 2 * n) : (hexDecodeChars cs).flatMap hexByte = cs := by
  induction n generalizing cs with
  | zero => simp [List.length_eq_zero_iff.mp hn, hexDecodeChars]
  | succ n ih =>
    obtain ⟨c, d, cs, rfl⟩ : ∃ c d ds, cs = c :: d :: ds := by
      match cs, hn with
      | c :: d :: ds, _ => exact ⟨c, d, ds, rfl⟩
    obtain ⟨x, hx16, hx, hxc⟩ := digitChar_of_isLowerHex (h c (by simp))
    obtain ⟨y, hy16, hy, hyc⟩ := digitChar_of_isLowerHex (h d (by simp))
    have hlen : cs.length = 2 * n := by simp only [List.length_cons] at hn; omega
    have := @ih cs (fun e he => h e (by simp [he])) hlen
    have hb : hexByte (UInt8.ofNat (16 * x + y)) = [c, d] := by
      have h1 : (16 * x + y) % 256 / 16 = x := by omega
      have h2 : (16 * x + y) % 256 % 16 = y := by omega
      simp only [hexByte, UInt8.toNat_ofNat', h1, h2, hxc, hyc, Nat.reducePow]
    simp only [hexDecodeChars, hx, hy, List.flatMap_cons, hb, this, List.cons_append,
      List.nil_append]

end Attestia.Lib
