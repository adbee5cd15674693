import Attestia.Lib.JsString
import Attestia.Lib.Sha256

/-!
# Base64url

The encoder without padding, and the decoder that skips what is not a digit and the bits of an
unfinished byte.
-/

namespace Attestia.Lib.Base64Url

/-- Three bytes are four numbers of six bits. -/
def sextets : Bytes → List ℕ
  | a :: b :: c :: bs =>
    [a.toNat / 4, a.toNat % 4 * 16 + b.toNat / 16, b.toNat % 16 * 4 + c.toNat / 64, c.toNat % 64] ++
      sextets bs
  | [a, b] => [a.toNat / 4, a.toNat % 4 * 16 + b.toNat / 16, b.toNat % 16 * 4]
  | [a] => [a.toNat / 4, a.toNat % 4 * 16]
  | [] => []

def octets : List ℕ → Bytes
  | w :: x :: y :: z :: ns =>
    [.ofNat (w * 4 + x / 16), .ofNat (x % 16 * 16 + y / 4), .ofNat (y % 4 * 64 + z)] ++ octets ns
  | [w, x, y] => [.ofNat (w * 4 + x / 16), .ofNat (x % 16 * 16 + y / 4)]
  | [w, x] => [.ofNat (w * 4 + x / 16)]
  | _ => []

def alphabet : JsString := js "ABCDEFGHIJKLMNOPQRSTUVWXYZabcdefghijklmnopqrstuvwxyz0123456789-_"

def digit (n : ℕ) : UInt16 := alphabet.getD n 0

def value (u : UInt16) : Option ℕ := alphabet.idxOf? u

def encode (bs : Bytes) : JsString := (sextets bs).map digit

def decode (s : JsString) : Bytes := octets (s.filterMap value)

theorem sextets_lt (bs : Bytes) : ∀ n ∈ sextets bs, n < 64 := by
  induction bs using sextets.induct with
  | case1 a b c bs ih =>
    have ha := a.toNat_lt
    have hb := b.toNat_lt
    intro n hn
    simp only [sextets, List.mem_append, List.mem_cons, List.not_mem_nil, or_false] at hn
    rcases hn with (rfl | rfl | rfl | rfl) | hn
    · omega
    · omega
    · have := c.toNat_lt
      omega
    · omega
    · exact ih n hn
  | case2 a b =>
    have ha := a.toNat_lt
    have hb := b.toNat_lt
    intro n hn
    simp only [sextets, List.mem_cons, List.not_mem_nil, or_false] at hn
    omega
  | case3 a =>
    have ha := a.toNat_lt
    intro n hn
    simp only [sextets, List.mem_cons, List.not_mem_nil, or_false] at hn
    omega
  | case4 => exact fun n hn => (nomatch hn)

theorem ofNat_eq {n : ℕ} {u : UInt8} (h : n = u.toNat) : UInt8.ofNat n = u := by
  rw [h, UInt8.ofNat_toNat]

theorem octets_sextets (bs : Bytes) : octets (sextets bs) = bs := by
  induction bs using sextets.induct with
  | case1 a b c bs ih =>
    have ha := a.toNat_lt
    have hb := b.toNat_lt
    have hc := c.toNat_lt
    have hfirst : UInt8.ofNat (a.toNat / 4 * 4 + (a.toNat % 4 * 16 + b.toNat / 16) / 16) = a :=
      ofNat_eq (by omega)
    have hsecond : UInt8.ofNat ((a.toNat % 4 * 16 + b.toNat / 16) % 16 * 16 +
        (b.toNat % 16 * 4 + c.toNat / 64) / 4) = b := ofNat_eq (by omega)
    have hthird : UInt8.ofNat ((b.toNat % 16 * 4 + c.toNat / 64) % 4 * 64 + c.toNat % 64) = c :=
      ofNat_eq (by omega)
    show _ :: _ :: _ :: octets (sextets bs) = _
    rw [ih, hfirst, hsecond, hthird]
  | case2 a b =>
    have ha := a.toNat_lt
    have hb := b.toNat_lt
    have hfirst : UInt8.ofNat (a.toNat / 4 * 4 + (a.toNat % 4 * 16 + b.toNat / 16) / 16) = a :=
      ofNat_eq (by omega)
    have hsecond : UInt8.ofNat ((a.toNat % 4 * 16 + b.toNat / 16) % 16 * 16 +
        b.toNat % 16 * 4 / 4) = b := ofNat_eq (by omega)
    show [_, _] = _
    rw [hfirst, hsecond]
  | case3 a =>
    have ha := a.toNat_lt
    have hfirst : UInt8.ofNat (a.toNat / 4 * 4 + a.toNat % 4 * 16 / 16) = a := ofNat_eq (by omega)
    show [_] = _
    rw [hfirst]
  | case4 => rfl

theorem value_digit {n : ℕ} (h : n < 64) : value (digit n) = some n := by
  have htable : (List.range 64).all (fun n => value (digit n) = some n) = true := by
    decide +kernel
  simpa using List.all_eq_true.mp htable n (List.mem_range.mpr h)

theorem decode_encode (bs : Bytes) : decode (encode bs) = bs := by
  have hvalues : ∀ ns : List ℕ, (∀ n ∈ ns, n < 64) → (ns.map digit).filterMap value = ns := by
    intro ns hns
    induction ns with
    | nil => rfl
    | cons n ns ih =>
      rw [List.map_cons, List.filterMap_cons_some (value_digit (hns n List.mem_cons_self)),
        ih fun m hm => hns m (List.mem_cons_of_mem n hm)]
  rw [decode, encode, hvalues _ (sextets_lt bs), octets_sextets]

theorem length_encode (bs : Bytes) : (encode bs).length = (4 * bs.length + 2) / 3 := by
  rw [encode, List.length_map]
  induction bs using sextets.induct with
  | case1 a b c bs ih =>
    simp only [sextets, List.length_append, List.length_cons, List.length_nil, ih]
    omega
  | case2 => simp only [sextets, List.length_cons, List.length_nil]
  | case3 => simp only [sextets, List.length_cons, List.length_nil]
  | case4 => rfl

theorem encode_ne_nil {bs : Bytes} (h : bs ≠ []) : encode bs ≠ [] := by
  intro hnil
  apply h
  rw [← decode_encode bs, hnil]
  rfl

theorem isSome_value_of_mem_encode {bs : Bytes} {u : UInt16} (h : u ∈ encode bs) :
    (value u).isSome = true := by
  obtain ⟨n, hn, rfl⟩ := List.mem_map.mp h
  rw [value_digit (sextets_lt bs n hn)]
  rfl

end Attestia.Lib.Base64Url
