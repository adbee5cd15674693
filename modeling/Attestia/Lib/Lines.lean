import Attestia.Lib.Utf8
import Mathlib.Data.List.DropRight

/-!
# Files of lines

A file is written line by line, each with its newline, and may be cut at any byte. The
lines read back from a closed file followed by such a part are its own, the first of the
new ones, and at most one torn line.
-/

namespace Attestia.Lib.Lines

open Utf8

/-- `split("\\n")` of the language. -/
def split (cs : List Char) : List (List Char) := cs.splitOn '\n'

def join (ts : List (List Char)) : List Char := ts.flatMap fun t => t ++ ['\n']

/-- White space and line terminators, as `trim` removes them. -/
def isBlank (c : Char) : Bool :=
  c ∈ ['\t', '\n', '\r', ' ', '\u000B', '\u000C', '\u00A0', '\u1680', '\u2028', '\u2029', '\u202F',
    '\u205F', '\u3000', '\uFEFF'] || (0x2000 ≤ c.toNat && c.toNat ≤ 0x200A)

def trim (cs : List Char) : List Char := (cs.dropWhile isBlank).rdropWhile isBlank

/-- The text of a file from which nothing has to be repaired before more is written. -/
def Closed (cs : List Char) : Prop := cs = [] ∨ cs.getLast? = some '\n'

instance (cs : List Char) : Decidable (Closed cs) := inferInstanceAs (Decidable (_ ∨ _))

/-- Part of the line `t`: whole characters of it, or fewer with a replaced one behind. -/
def Torn (t frag : List Char) : Prop :=
  frag <+: t ∨ ∃ d, d <+: t ∧ d ≠ t ∧ frag = d ++ [replacement]

theorem split_append {a b : List Char} (ha : Closed a) :
    split (a ++ b) = (split a).dropLast ++ split b := by
  obtain rfl | ha := ha
  · rfl
  · obtain ⟨a, rfl⟩ : ∃ a', a = a' ++ ['\n'] := by
      obtain ⟨hne, hlast⟩ := List.getLast?_eq_some_iff.mp ha
      exact ⟨_, hlast⟩
    rw [split, split, split, List.append_assoc, List.singleton_append,
      List.splitOn_append_cons_self, List.splitOn_append_cons_self, List.splitOn_nil,
      List.dropLast_concat]

/-- The last line of a closed text is empty. -/
theorem split_closed {a : List Char} (ha : Closed a) : split a = (split a).dropLast ++ [[]] := by
  have := split_append (b := []) ha
  rwa [List.append_nil] at this

theorem split_append_newline (a : List Char) : split (a ++ ['\n']) = split a ++ [[]] := by
  rw [split, List.splitOn_append_cons_self]
  rfl

theorem split_of_not_mem {a : List Char} (h : '\n' ∉ a) : split a = [a] :=
  List.splitOn_eq_singleton h

theorem split_join {ts : List (List Char)} (h : ∀ t ∈ ts, '\n' ∉ t) (a : List Char) :
    split (join ts ++ a) = ts ++ split a := by
  induction ts with
  | nil => rfl
  | cons t ts ih =>
    have ht : '\n' ∉ t := h t (.head _)
    rw [join, List.flatMap_cons, List.append_assoc, List.append_assoc, List.singleton_append, split,
      List.splitOn_append_cons_self, List.splitOn_eq_singleton ht, List.singleton_append,
      List.cons_append]
    exact congrArg _ (ih fun s hs => h s (.tail _ hs))

theorem closed_join (ts : List (List Char)) : Closed (join ts) := by
  induction ts using List.reverseRecOn with
  | nil => exact .inl rfl
  | append_singleton ts t =>
    refine .inr ?_
    rw [join, List.flatMap_append, List.flatMap_singleton, ← List.append_assoc,
      List.getLast?_concat]

/-- A part of joined lines is the first of them and a part of the next. -/
theorem prefix_join {ts : List (List Char)} {d : List Char} (hd : d <+: join ts) :
    ∃ k frag, d = join (ts.take k) ++ frag ∧
      ((frag = [] ∧ k = ts.length) ∨ ∃ t, ts[k]? = some t ∧ frag <+: t) := by
  induction ts generalizing d with
  | nil => exact ⟨0, [], List.prefix_nil.mp hd, .inl ⟨rfl, rfl⟩⟩
  | cons t ts ih =>
    rw [join, List.flatMap_cons] at hd
    by_cases ht : t ++ ['\n'] <+: d
    · obtain ⟨d', rfl⟩ := ht
      obtain ⟨k, frag, rfl, h⟩ := ih (List.prefix_append_right_inj _ |>.mp hd)
      refine ⟨k + 1, frag, ?_, ?_⟩
      · rw [List.take_succ_cons, join, join, List.flatMap_cons, List.append_assoc _ _ frag]
      · simpa only [List.length_cons, Nat.add_right_cancel_iff, List.getElem?_cons_succ] using h
    · have hdt : d <+: t ++ ['\n'] :=
        (List.prefix_or_prefix_of_prefix hd (List.prefix_append _ _)).resolve_right ht
      obtain rfl | hdt := List.prefix_concat_iff.mp hdt
      · exact absurd (List.prefix_refl _) ht
      · exact ⟨0, d, rfl, .inr ⟨t, rfl, hdt⟩⟩

/-- The lines of a closed file with any part of new lines behind it. -/
theorem split_decode_append {f : Bytes} (hf : Closed (decode f)) {ts : List (List Char)}
    (hts : ∀ t ∈ ts, '\n' ∉ t) {p : Bytes} (hp : p <+: encode (join ts)) :
    ∃ k frag, split (decode (f ++ p)) = (split (decode f)).dropLast ++ (ts.take k ++ [frag]) ∧
      ((frag = [] ∧ k = ts.length) ∨ ∃ t, ts[k]? = some t ∧ Torn t frag) := by
  rw [decode_append (complete_of_decode hf), split_append hf]
  have htake : ∀ k, ∀ t ∈ ts.take k, '\n' ∉ t := fun k t ht => hts t (List.mem_of_mem_take ht)
  have hnew : ∀ {t frag : List Char}, t ∈ ts → frag <+: t → '\n' ∉ frag := fun ht hfrag hmem =>
    hts _ ht (hfrag.subset hmem)
  obtain ⟨d, hd, rfl⟩ | ⟨d, c, t, hd, rfl, ht, ht0, hdec⟩ := decode_prefix hp
  · obtain ⟨k, frag, rfl, h⟩ := prefix_join hd
    refine ⟨k, frag, ?_, h.imp id fun ⟨t, ht, hfrag⟩ => ⟨t, ht, .inl hfrag⟩⟩
    have hmem : '\n' ∉ frag := by
      obtain ⟨rfl, -⟩ | ⟨t, ht, hfrag⟩ := h
      · exact List.not_mem_nil
      · exact hnew (List.mem_of_getElem? ht) hfrag
    rw [decode_encode, split_join (htake k), split_of_not_mem hmem]
  · -- the cut goes through a character, which is not a newline
    have hc : c ≠ '\n' := by
      rintro rfl
      have := List.length_pos_of_ne_nil ht0
      rw [show (String.utf8EncodeChar '\n').length = 1 from rfl] at ht
      omega
    obtain ⟨k, frag, heq, h⟩ := prefix_join hd
    obtain rfl | ⟨g, e, rfl⟩ := List.eq_nil_or_concat frag
    · rw [List.append_nil] at heq
      obtain hnil | hlast := closed_join (ts.take k)
      · rw [hnil] at heq
        simp at heq
      · rw [← heq, List.getLast?_concat] at hlast
        exact absurd (Option.some.inj hlast) hc
    · rw [List.concat_eq_append, ← List.append_assoc] at heq
      obtain ⟨rfl, hce⟩ := List.append_inj' heq rfl
      obtain ⟨hnil, -⟩ | ⟨s, hs, hfrag⟩ := h
      · simp at hnil
      rw [List.concat_eq_append] at hfrag
      have hg : g <+: s := (List.prefix_append g [e]).trans hfrag
      have hgs : g ≠ s := by
        rintro rfl
        have := hfrag.length_le
        simp at this
      have hmem : '\n' ∉ g ++ [replacement] := by
        rw [List.mem_append, not_or]
        exact ⟨hnew (List.mem_of_getElem? hs) hg, by decide⟩
      refine ⟨k, g ++ [replacement], ?_, .inr ⟨s, hs, .inr ⟨g, hg, hgs, rfl⟩⟩⟩
      rw [hdec, List.append_assoc, split_join (htake k), split_of_not_mem hmem]

/-- The lines of a closed file with all new lines behind it. -/
theorem split_decode_append_join {f : Bytes} (hf : Closed (decode f)) {ts : List (List Char)}
    (hts : ∀ t ∈ ts, '\n' ∉ t) :
    split (decode (f ++ encode (join ts))) = (split (decode f)).dropLast ++ (ts ++ [[]]) := by
  have := split_join hts []
  rw [List.append_nil] at this
  rw [decode_append (complete_of_decode hf), decode_encode, split_append hf, this]
  rfl

theorem closed_decode_append_join {f : Bytes} (hf : Closed (decode f)) (ts : List (List Char)) :
    Closed (decode (f ++ encode (join ts))) := by
  rw [decode_append (complete_of_decode hf), decode_encode]
  obtain h | h := closed_join ts
  · rw [h, List.append_nil]
    exact hf
  · exact .inr (by rw [List.getLast?_append, h]; rfl)

theorem closed_decode_append_newline (f : Bytes) : Closed (decode (f ++ [0x0A])) := by
  rw [decode_append_newline]
  exact .inr List.getLast?_concat

/-! ## Trimmed lines -/

theorem trim_of_ends {t : List Char} {a b : Char} (ha : t.head? = some a) (hb : t.getLast? = some b)
    (hna : isBlank a = false) (hnb : isBlank b = false) : trim t = t := by
  cases t with
  | nil => cases ha
  | cons c t =>
    cases Option.some.inj ha
    have hlast := List.getLast?_eq_some_getLast (List.cons_ne_nil a t)
    rw [hb, Option.some.injEq] at hlast
    rw [trim, List.dropWhile_cons_of_neg (by simp [hna]), List.rdropWhile_eq_self_iff]
    intro _
    rw [← hlast, hnb]
    exact Bool.false_ne_true

theorem trim_prefix {t : List Char} (h : ∀ a, t.head? = some a → isBlank a = false) :
    trim t <+: t := by
  cases t with
  | nil => exact List.prefix_refl _
  | cons c t =>
    rw [trim, List.dropWhile_cons_of_neg (by simp [h c rfl])]
    exact List.rdropWhile_prefix _ _

end Attestia.Lib.Lines
