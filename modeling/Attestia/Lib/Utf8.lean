import Attestia.Lib.Sha256

/-!
# UTF-8 with replacement

The encoder of a list of scalar values, and the decoder that replaces each ill-formed
sequence by U+FFFD and never fails. A cut through an encoded text costs at most the
character that it cuts, which decodes to one U+FFFD.
-/

namespace Attestia.Lib.Utf8

def encode (cs : List Char) : Bytes := cs.flatMap String.utf8EncodeChar

/-- A character begun: its bits so far, the continuation bytes still to come and the range
that the next one must be in. -/
structure Pending where
  codePoint : ℕ
  left : ℕ
  lower : ℕ
  upper : ℕ
  ascii_lt_lower : 0x7F < lower

def replacement : Char := '\uFFFD'

/-- The decoder between two characters reads a byte. -/
def lead (b : ℕ) : List Char × Option Pending :=
  if b ≤ 0x7F then ([Char.ofNat b], none)
  else if 0xC2 ≤ b ∧ b ≤ 0xDF then ([], some ⟨b % 0x20, 1, 0x80, 0xBF, by decide⟩)
  else if b = 0xE0 then ([], some ⟨0, 2, 0xA0, 0xBF, by decide⟩)
  else if b = 0xED then ([], some ⟨0xD, 2, 0x80, 0x9F, by decide⟩)
  else if 0xE1 ≤ b ∧ b ≤ 0xEF then ([], some ⟨b % 0x10, 2, 0x80, 0xBF, by decide⟩)
  else if b = 0xF0 then ([], some ⟨0, 3, 0x90, 0xBF, by decide⟩)
  else if b = 0xF4 then ([], some ⟨4, 3, 0x80, 0x8F, by decide⟩)
  else if 0xF1 ≤ b ∧ b ≤ 0xF3 then ([], some ⟨b % 8, 3, 0x80, 0xBF, by decide⟩)
  else ([replacement], none)

/-- A byte out of the expected range ends the character with U+FFFD and is read again. -/
def step : Option Pending → ℕ → List Char × Option Pending
  | none, b => lead b
  | some p, b =>
    if p.lower ≤ b ∧ b ≤ p.upper then
      match p.left with
      | n + 2 => ([], some ⟨p.codePoint * 64 + b % 64, n + 1, 0x80, 0xBF, by decide⟩)
      | _ => ([Char.ofNat (p.codePoint * 64 + b % 64)], none)
    else (replacement :: (lead b).1, (lead b).2)

def run : Option Pending → Bytes → List Char × Option Pending
  | s, [] => ([], s)
  | s, b :: bs =>
    let r := run (step s b.toNat).2 bs
    ((step s b.toNat).1 ++ r.1, r.2)

/-- A character begun at the end of the input is replaced too. -/
def flush : Option Pending → List Char
  | none => []
  | some _ => [replacement]

def decode (bs : Bytes) : List Char := (run none bs).1 ++ flush (run none bs).2

/-- The input ends between two characters. -/
def Complete (bs : Bytes) : Prop := (run none bs).2 = none

/-! ## Concatenation -/

theorem run_append (s : Option Pending) (a b : Bytes) :
    run s (a ++ b) = ((run s a).1 ++ (run (run s a).2 b).1, (run (run s a).2 b).2) := by
  induction a generalizing s with
  | nil => rfl
  | cons x a ih =>
    simp only [List.cons_append, run, ih, List.append_assoc]

theorem decode_append {a : Bytes} (ha : Complete a) (b : Bytes) :
    decode (a ++ b) = decode a ++ decode b := by
  rw [Complete] at ha
  simp only [decode, run_append, ha, flush, List.append_nil, List.append_assoc]

theorem Complete.append {a b : Bytes} (ha : Complete a) (hb : Complete b) : Complete (a ++ b) := by
  rw [Complete] at *
  rw [run_append, ha, hb]

theorem step_ascii (s : Option Pending) {b : ℕ} (hb : b ≤ 0x7F) :
    step s b = (flush s ++ [Char.ofNat b], none) := by
  have hlead : lead b = ([Char.ofNat b], none) := if_pos hb
  cases s with
  | none => exact hlead
  | some p =>
    have hp := p.ascii_lt_lower
    have : ¬ (p.lower ≤ b ∧ b ≤ p.upper) := by omega
    simp only [step, this, if_false, hlead, flush, List.cons_append, List.nil_append]

/-- An ASCII byte ends whatever was begun before it. -/
theorem run_ascii (a : Bytes) {b : UInt8} (hb : b.toNat ≤ 0x7F) :
    run none (a ++ [b]) = (decode a ++ [Char.ofNat b.toNat], none) := by
  simp only [run_append, run, step_ascii _ hb, decode, List.append_nil, List.append_assoc]

theorem decode_append_newline (a : Bytes) : decode (a ++ [0x0A]) = decode a ++ ['\n'] := by
  rw [decode, run_ascii a (by decide)]
  exact List.append_nil _

/-- A decoded text that is empty or ends with a newline leaves no character begun. -/
theorem complete_of_decode {a : Bytes}
    (h : decode a = [] ∨ (decode a).getLast? = some '\n') : Complete a := by
  rw [Complete]
  cases hs : (run none a).2 with
  | none => rfl
  | some p =>
    rw [decode, hs] at h
    simp [flush, replacement] at h

/-! ## Encoded text -/

theorem encode_append (a b : List Char) : encode (a ++ b) = encode a ++ encode b :=
  List.flatMap_append

theorem encode_cons (c : Char) (cs : List Char) :
    encode (c :: cs) = String.utf8EncodeChar c ++ encode cs :=
  List.flatMap_cons

theorem toNat_lt_or (c : Char) : c.toNat < 0xD800 ∨ (0xDFFF < c.toNat ∧ c.toNat < 0x110000) :=
  c.valid

theorem lead_two {x : ℕ} (h2 : 2 ≤ x) (hx : x < 0x20) :
    lead (x + 0xC0) = ([], some ⟨x, 1, 0x80, 0xBF, by decide⟩) := by
  interval_cases x <;> rfl

theorem lead_three {x : ℕ} (hx : x < 0x10) :
    ∃ h, lead (x + 0xE0) =
      ([], some ⟨x, 2, if x = 0 then 0xA0 else 0x80, if x = 0xD then 0x9F else 0xBF, h⟩) := by
  interval_cases x <;> exact ⟨by decide, rfl⟩

theorem lead_four {x : ℕ} (hx : x < 5) :
    ∃ h, lead (x + 0xF0) =
      ([], some ⟨x, 3, if x = 0 then 0x90 else 0x80, if x = 4 then 0x8F else 0xBF, h⟩) := by
  interval_cases x <;> exact ⟨by decide, rfl⟩

theorem step_continue {cp n lo hi y : ℕ} {h : 0x7F < lo} (hy : y < 64) (hlo : lo ≤ y + 0x80)
    (hhi : y + 0x80 ≤ hi) :
    step (some ⟨cp, n + 2, lo, hi, h⟩) (y + 0x80) =
      ([], some ⟨cp * 64 + y, n + 1, 0x80, 0xBF, by decide⟩) := by
  have hmod : (y + 0x80) % 64 = y := by omega
  simp only [step, hlo, hhi, and_self, if_true, hmod]

theorem step_last {cp lo hi y : ℕ} {h : 0x7F < lo} (hy : y < 64) (hlo : lo ≤ y + 0x80)
    (hhi : y + 0x80 ≤ hi) :
    step (some ⟨cp, 1, lo, hi, h⟩) (y + 0x80) = ([Char.ofNat (cp * 64 + y)], none) := by
  have hmod : (y + 0x80) % 64 = y := by omega
  simp only [step, hlo, hhi, and_self, if_true, hmod]

/-- The decoder reads all bytes of `bs` as the one character `c`, and waits after each
proper part of them. -/
def DecodesTo (s : Option Pending) (bs : Bytes) (c : Char) : Prop :=
  run s bs = ([c], none) ∧ ∀ q, q <+: bs → q ≠ bs → q ≠ [] → ∃ p, run s q = ([], some p)

theorem DecodesTo.last {s : Option Pending} {b : UInt8} {c : Char}
    (h : step s b.toNat = ([c], none)) : DecodesTo s [b] c := by
  refine ⟨by simp [run, h], fun q hq hne hq0 => ?_⟩
  obtain rfl | rfl := List.prefix_cons_iff.mp hq |>.imp id fun ⟨t, ht, hp⟩ => by
    rw [List.prefix_nil.mp hp] at ht; exact ht
  · exact absurd rfl hq0
  · exact absurd rfl hne

theorem DecodesTo.cons {s : Option Pending} {b : UInt8} {p : Pending} {bs : Bytes} {c : Char}
    (h : step s b.toNat = ([], some p)) (hbs : DecodesTo (some p) bs c) :
    DecodesTo s (b :: bs) c := by
  refine ⟨by simp [run, h, hbs.1], fun q hq hne hq0 => ?_⟩
  obtain rfl | ⟨t, rfl, ht⟩ := List.prefix_cons_iff.mp hq
  · exact absurd rfl hq0
  · by_cases ht0 : t = []
    · exact ⟨p, by simp [ht0, run, h]⟩
    · obtain ⟨p', hp'⟩ := hbs.2 t ht (fun e => hne (by rw [e])) ht0
      exact ⟨p', by simp [run, h, hp']⟩

theorem decodesTo_utf8EncodeChar (c : Char) : DecodesTo none (String.utf8EncodeChar c) c := by
  have hc := toNat_lt_or c
  have hof : Char.ofNat c.toNat = c := Char.ofNat_toNat c
  generalize hv : c.toNat = v at hc hof
  have hval : c.val.toNat = v := hv
  have byte : ∀ {n : ℕ}, n < 256 → (UInt8.ofNat n).toNat = n := fun h => by
    rw [UInt8.toNat_ofNat', Nat.mod_eq_of_lt h]
  rw [String.utf8EncodeChar]
  simp only [hval]
  split
  · refine .last ?_
    rw [byte (by omega), ← hof]
    exact if_pos ‹_›
  split
  · have hx : v / 64 % 32 = v / 64 := Nat.mod_eq_of_lt (by omega)
    refine .cons (by rw [byte (by omega), hx]; exact lead_two (by omega) (by omega)) (.last ?_)
    rw [byte (by omega), step_last (by omega) (by omega) (by omega), ← hof]
    congr 3
    omega
  split
  · have hx : v / 4096 % 16 = v / 4096 := Nat.mod_eq_of_lt (by omega)
    obtain ⟨hlo, hlead⟩ := lead_three (x := v / 4096) (by omega)
    refine .cons (by rw [byte (by omega), hx]; exact hlead) ?_
    refine .cons (by
      rw [byte (by omega)]
      exact step_continue (by omega) (by split <;> omega) (by split <;> omega)) (.last ?_)
    rw [byte (by omega), step_last (by omega) (by omega) (by omega), ← hof]
    congr 3
    omega
  · have hx : v / 262144 % 8 = v / 262144 := Nat.mod_eq_of_lt (by omega)
    obtain ⟨hlo, hlead⟩ := lead_four (x := v / 262144) (by omega)
    refine .cons (by rw [byte (by omega), hx]; exact hlead) ?_
    refine .cons (by
      rw [byte (by omega)]
      exact step_continue (by omega) (by split <;> omega) (by split <;> omega)) ?_
    refine .cons (by
      rw [byte (by omega)]
      exact step_continue (by omega) (by omega) (by omega)) (.last ?_)
    rw [byte (by omega), step_last (by omega) (by omega) (by omega), ← hof]
    congr 3
    omega

@[simp] theorem decode_encode (cs : List Char) : decode (encode cs) = cs := by
  induction cs with
  | nil => rfl
  | cons c cs ih =>
    have hc := (decodesTo_utf8EncodeChar c).1
    rw [encode_cons, decode_append (by rw [Complete, hc]), ih, decode, hc]
    rfl

/-- A cut through an encoded text leaves its first characters, the next one replaced by
U+FFFD where the cut goes through it. -/
theorem decode_prefix {cs : List Char} {q : Bytes} (hq : q <+: encode cs) :
    (∃ d, d <+: cs ∧ q = encode d) ∨
      ∃ d c t, d ++ [c] <+: cs ∧ q = encode d ++ t ∧ t.length < (String.utf8EncodeChar c).length ∧
        t ≠ [] ∧ decode q = d ++ [replacement] := by
  induction cs generalizing q with
  | nil => exact .inl ⟨[], List.prefix_refl [], List.prefix_nil.mp hq⟩
  | cons c cs ih =>
    rw [encode_cons] at hq
    have hc := decodesTo_utf8EncodeChar c
    by_cases hqc : String.utf8EncodeChar c <+: q
    · obtain ⟨q', rfl⟩ := hqc
      have hcc : Complete (String.utf8EncodeChar c) := by rw [Complete, hc.1]
      have hdec : decode (String.utf8EncodeChar c ++ q') = c :: decode q' := by
        rw [decode_append hcc, decode, hc.1]
        rfl
      obtain ⟨d, hd, rfl⟩ | ⟨d, e, t, hd, rfl, ht, ht0, hdecq⟩ :=
        ih (List.prefix_append_right_inj _ |>.mp hq)
      · exact .inl ⟨c :: d, List.prefix_cons_inj c |>.mpr hd, (encode_cons c d).symm⟩
      · refine .inr ⟨c :: d, e, t, List.prefix_cons_inj c |>.mpr hd, ?_, ht, ht0, ?_⟩
        · rw [encode_cons, List.append_assoc]
        · rw [hdec, hdecq, List.cons_append]
    · have hqp : q <+: String.utf8EncodeChar c :=
        (List.prefix_or_prefix_of_prefix hq (List.prefix_append _ _)).resolve_right hqc
      by_cases hq0 : q = []
      · exact .inl ⟨[], List.nil_prefix, hq0⟩
      · have hne : q ≠ String.utf8EncodeChar c := fun h => hqc (h ▸ List.prefix_refl _)
        obtain ⟨p, hp⟩ := hc.2 q hqp hne hq0
        have hlt : q.length < (String.utf8EncodeChar c).length :=
          hqp.length_le.lt_of_ne fun h => hne (hqp.eq_of_length h)
        refine .inr ⟨[], c, q, List.prefix_cons_inj c |>.mpr List.nil_prefix, rfl, hlt, hq0, ?_⟩
        rw [decode, hp]
        rfl

end Attestia.Lib.Utf8
