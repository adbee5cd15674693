import Attestia.Lib.Json

/-!
# Parsing JSON

`JSON.parse` on a well-formed text, by recursive descent with the length of the text as
fuel. It gives back every value from its text, and what it accepts is well formed.
-/

namespace Attestia.Lib.Json

open JsonNumber

def isSpace (c : Char) : Bool := c = ' ' || c = '\t' || c = '\n' || c = '\r'

def skipSpace (cs : List Char) : List Char := cs.dropWhile isSpace

def hexUnit (a b c d : Char) : Option UInt16 :=
  match hexValue a, hexValue b, hexValue c, hexValue d with
  | some w, some x, some y, some z => some (UInt16.ofNat (w * 4096 + x * 256 + y * 16 + z))
  | _, _, _, _ => none

def unescape : Char → Option UInt16
  | '"' => some 0x22
  | '\\' => some 0x5C
  | '/' => some 0x2F
  | 'b' => some 0x08
  | 'f' => some 0x0C
  | 'n' => some 0x0A
  | 'r' => some 0x0D
  | 't' => some 0x09
  | _ => none

def prepend (s : JsString) (p : JsString × List Char) : JsString × List Char := (s ++ p.1, p.2)

/-- Reads up to the closing quotation mark. -/
def parseBody : List Char → Option (JsString × List Char)
  | [] => none
  | '"' :: r => some ([], r)
  | '\\' :: 'u' :: a :: b :: c :: d :: r =>
    match hexUnit a b c d with
    | some u => (parseBody r).map (prepend [u])
    | none => none
  | '\\' :: e :: r =>
    match unescape e with
    | some u => (parseBody r).map (prepend [u])
    | none => none
  | c :: r => if c = '\\' ∨ c.toNat < 0x20 then none else (parseBody r).map (prepend (JsString.utf16 c))

/-- Reads one number token, as far as its characters reach. -/
def parseNumberToken (cs : List Char) : Option (Json × List Char) :=
  (parseNumber (cs.takeWhile isNumberChar)).map fun q => (num q, cs.dropWhile isNumberChar)

mutual

def parseValue : ℕ → List Char → Option (Json × List Char)
  | 0, _ => none
  | fuel + 1, cs =>
    match cs with
    | 'n' :: 'u' :: 'l' :: 'l' :: r => some (null, r)
    | 't' :: 'r' :: 'u' :: 'e' :: r => some (bool true, r)
    | 'f' :: 'a' :: 'l' :: 's' :: 'e' :: r => some (bool false, r)
    | '"' :: r => (parseBody r).map fun p => (str p.1, p.2)
    | '[' :: r =>
      match skipSpace r with
      | ']' :: r' => some (arr [], r')
      | r' => (parseElements fuel r').map fun p => (arr p.1, p.2)
    | '{' :: r =>
      match skipSpace r with
      | '}' :: r' => some (obj [], r')
      | r' => (parseMembers fuel r').map fun p => (obj p.1, p.2)
    | r => parseNumberToken r

/-- The elements of an array up to its closing bracket. -/
def parseElements : ℕ → List Char → Option (List Json × List Char)
  | 0, _ => none
  | fuel + 1, cs =>
    match parseValue fuel cs with
    | none => none
    | some (v, r) =>
      match skipSpace r with
      | ']' :: r' => some ([v], r')
      | ',' :: r' => (parseElements fuel (skipSpace r')).map fun p => (v :: p.1, p.2)
      | _ => none

/-- The members of an object up to its closing brace. -/
def parseMembers : ℕ → List Char → Option (List (JsString × Json) × List Char)
  | 0, _ => none
  | fuel + 1, cs =>
    match parseMember fuel cs with
    | none => none
    | some (m, r) =>
      match skipSpace r with
      | '}' :: r' => some ([m], r')
      | ',' :: r' => (parseMembers fuel (skipSpace r')).map fun p => (m :: p.1, p.2)
      | _ => none

def parseMember : ℕ → List Char → Option ((JsString × Json) × List Char)
  | 0, _ => none
  | fuel + 1, cs =>
    match cs with
    | '"' :: r =>
      match parseBody r with
      | none => none
      | some (k, r') =>
        match skipSpace r' with
        | ':' :: r'' => (parseValue fuel (skipSpace r'')).map fun p => ((k, p.1), p.2)
        | _ => none
    | _ => none

end

/-- The syntax tree of a text: one value with nothing but white space around it. -/
def parseTree (cs : List Char) : Option Json :=
  match parseValue (3 * cs.length + 3) (skipSpace cs) with
  | some (v, r) => if skipSpace r = [] then some v else none
  | none => none

/-- `JSON.parse`. -/
def parse (cs : List Char) : Option Json := (parseTree cs).map build

/-! ## Strings -/

theorem hexUnit_hexText (u : UInt16) :
    ∃ a b c d, hexText u = [a, b, c, d] ∧ hexUnit a b c d = some u := by
  have hu := u.toNat_lt
  refine ⟨_, _, _, _, rfl, ?_⟩
  rw [hexUnit, hexValue_digitChar (by omega), hexValue_digitChar (by omega),
    hexValue_digitChar (by omega), hexValue_digitChar (by omega)]
  simp only [Option.some.injEq]
  rw [← UInt16.toNat_inj, UInt16.toNat_ofNat']
  omega

theorem parseBody_unicode (u : UInt16) (r : List Char) :
    parseBody ('\\' :: 'u' :: (hexText u ++ r)) = (parseBody r).map (prepend [u]) := by
  obtain ⟨a, b, c, d, htext, hunit⟩ := hexUnit_hexText u
  rw [htext]
  simp only [List.cons_append, List.nil_append, parseBody, hunit]

theorem unescape_shortEscape {c e : Char} (h : shortEscape c = some e) :
    e ≠ 'u' ∧ ∃ u, unescape e = some u ∧ JsString.utf16 c = [u] := by
  have hof : Char.ofNat c.toNat = c := Char.ofNat_toNat c
  unfold shortEscape at h
  repeat' split at h
  all_goals cases h
  · subst c; exact ⟨by decide, _, rfl, rfl⟩
  · subst c; exact ⟨by decide, _, rfl, rfl⟩
  · rename_i hc; rw [← hof, hc]; exact ⟨by decide, _, rfl, rfl⟩
  · rename_i hc; rw [← hof, hc]; exact ⟨by decide, _, rfl, rfl⟩
  · subst c; exact ⟨by decide, _, rfl, rfl⟩
  · subst c; exact ⟨by decide, _, rfl, rfl⟩
  · subst c; exact ⟨by decide, _, rfl, rfl⟩

theorem parseBody_escape {e : Char} {u : UInt16} (he : e ≠ 'u') (hu : unescape e = some u)
    (r : List Char) : parseBody ('\\' :: e :: r) = (parseBody r).map (prepend [u]) := by
  rw [parseBody.eq_4 _ _ (by rintro a b c d r' rfl; exact absurd rfl he), hu]

theorem parseBody_char {c : Char} (hq : c ≠ '"') (hb : c ≠ '\\') (hc : ¬ c.toNat < 0x20)
    (r : List Char) : parseBody (c :: r) = (parseBody r).map (prepend (JsString.utf16 c)) := by
  rw [parseBody.eq_5 _ _ (by simpa using hq) (by simp [hb]) (by simp [hb]), if_neg (by simp [hb, hc])]

theorem parseBody_quotePoint (p : JsString.CodePoint) (r : List Char) :
    parseBody (quotePoint p ++ r) = (parseBody r).map (prepend p.units) := by
  cases p with
  | lone u => exact parseBody_unicode u r
  | scalar c =>
    rw [quotePoint]
    split
    · rename_i e he
      obtain ⟨hne, u, hu, hutf⟩ := unescape_shortEscape he
      rw [JsString.CodePoint.units, hutf]
      exact parseBody_escape hne hu r
    · rename_i hnone
      have hq : c ≠ '"' := by rintro rfl; cases hnone
      have hb : c ≠ '\\' := by rintro rfl; cases hnone
      split
      · rename_i hc
        have hutf : JsString.utf16 c = [UInt16.ofNat c.toNat] := if_pos (by omega)
        rw [JsString.CodePoint.units, hutf]
        exact parseBody_unicode _ r
      · rename_i hc
        exact parseBody_char hq hb hc r

theorem parseBody_quoteBody (s : JsString) (r : List Char) :
    parseBody (quoteBody s ++ r) = some (s, r) := by
  have key : ∀ ps : List JsString.CodePoint,
      parseBody (ps.flatMap quotePoint ++ '"' :: r) =
        some (ps.flatMap JsString.CodePoint.units, r) := by
    intro ps
    induction ps with
    | nil => rfl
    | cons p ps ih =>
      rw [List.flatMap_cons, List.append_assoc, parseBody_quotePoint, ih]
      rfl
  rw [quoteBody, List.append_assoc, List.singleton_append, key, JsString.flatMap_units_codePoints]

/-! ## Numbers -/

theorem parseValue_number (fuel : ℕ) {c : Char} (hc : isNumberChar c = true) (cs : List Char) :
    parseValue (fuel + 1) (c :: cs) = parseNumberToken (c :: cs) := by
  unfold parseValue
  split
  case h_7 => rfl
  all_goals
    rename_i h
    obtain ⟨rfl, -⟩ := List.cons.inj h
    cases hc

theorem isNumberChar_of_head {c : Char} (h : c = '-' ∨ c.isDigit = true) : isNumberChar c = true := by
  obtain rfl | h := h
  · rfl
  · simp [isNumberChar, h]

/-- What follows a value does not lengthen a number in front of it. -/
def NumberEnds (r : List Char) : Prop := ∀ c cs, r = c :: cs → isNumberChar c = false

theorem numberEnds_nil : NumberEnds [] := fun _ _ h => nomatch h

theorem numberEnds_cons {c : Char} (h : isNumberChar c = false) (r : List Char) :
    NumberEnds (c :: r) := fun _ _ heq => (List.cons.inj heq).1 ▸ h

theorem takeWhile_append_numberEnds {tok r : List Char} (ht : ∀ c ∈ tok, isNumberChar c = true)
    (hr : NumberEnds r) :
    (tok ++ r).takeWhile isNumberChar = tok ∧ (tok ++ r).dropWhile isNumberChar = r := by
  rw [List.takeWhile_append_of_pos ht, List.dropWhile_append_of_pos ht]
  cases r with
  | nil => exact ⟨List.append_nil _, rfl⟩
  | cons c r => simp [List.takeWhile, List.dropWhile, hr c r rfl]

theorem parseNumberToken_numberText {q : ℚ} (hq : Decimal q) {r : List Char} (hr : NumberEnds r) :
    parseNumberToken (numberText q ++ r) = some (num q, r) := by
  obtain ⟨h1, h2⟩ := takeWhile_append_numberEnds
    (fun c hc => isNumberChar_of_mem_numberText (q := q) hc) hr
  rw [parseNumberToken, h1, h2, parseNumber_numberText hq]
  rfl

/-! ## Round trip -/

theorem skipSpace_cons {c : Char} (h : isSpace c = false) (cs : List Char) :
    skipSpace (c :: cs) = c :: cs := by
  rw [skipSpace, List.dropWhile_cons_of_neg (by simp [h])]

/-- The first character of a value. -/
def isValueHead (c : Char) : Bool := !isSpace c && c ≠ ']' && c ≠ '}'

theorem head_text {v : Json} (hv : Printable v) :
    ∃ c cs, text v = c :: cs ∧ isValueHead c = true := by
  cases v with
  | null => exact ⟨_, _, rfl, rfl⟩
  | bool b => cases b <;> exact ⟨_, _, rfl, rfl⟩
  | num q =>
    obtain ⟨c, cs, hcs, hc⟩ := head_numberText hv
    refine ⟨c, cs, hcs, ?_⟩
    obtain rfl | hc := hc
    · rfl
    · simp only [isValueHead, isSpace, Bool.and_eq_true, Bool.not_eq_true', Bool.or_eq_false_iff,
        decide_eq_false_iff_not, decide_eq_true_eq]
      refine ⟨⟨⟨⟨⟨?_, ?_⟩, ?_⟩, ?_⟩, ?_⟩, ?_⟩ <;> (rintro rfl; cases hc)
  | str s => exact ⟨_, _, rfl, rfl⟩
  | arr es => cases es <;> exact ⟨_, _, rfl, rfl⟩
  | obj ms => cases ms <;> exact ⟨_, _, rfl, rfl⟩

theorem parseValue_arr {fuel : ℕ} {v : Json} (hv : Printable v) {r : List Char} :
    parseValue (fuel + 1) ('[' :: (text v ++ r)) =
      (parseElements fuel (text v ++ r)).map fun p => (arr p.1, p.2) := by
  obtain ⟨c, cs, hcs, hc⟩ := head_text hv
  simp only [isValueHead, Bool.and_eq_true, Bool.not_eq_true', decide_eq_true_eq] at hc
  rw [hcs, List.cons_append]
  simp only [parseValue, skipSpace_cons hc.1.1]
  split
  · rename_i h
    exact absurd (List.cons.inj h).1 hc.1.2
  · rfl

theorem parseValue_obj (fuel : ℕ) (r : List Char) :
    parseValue (fuel + 1) ('{' :: '"' :: r) =
      (parseMembers fuel ('"' :: r)).map fun p => (obj p.1, p.2) := rfl

theorem numberEnds_elementsTail (vs : List Json) (r : List Char) :
    NumberEnds (elementsTail vs ++ r) := by
  cases vs <;> exact numberEnds_cons rfl _

theorem numberEnds_membersTail (ms : List (JsString × Json)) (r : List Char) :
    NumberEnds (membersTail ms ++ r) := by
  cases ms <;> exact numberEnds_cons rfl _

theorem skipSpace_text {v : Json} (hv : Printable v) (r : List Char) :
    skipSpace (text v ++ r) = text v ++ r := by
  obtain ⟨c, cs, hcs, hc⟩ := head_text hv
  simp only [isValueHead, Bool.and_eq_true, Bool.not_eq_true', decide_eq_true_eq] at hc
  rw [hcs, List.cons_append, skipSpace_cons hc.1.1]

theorem parseMember_text {n : ℕ} {k : JsString} {v : Json} {r : List Char} (hv : Printable v)
    (hval : parseValue n (text v ++ r) = some (v, r)) :
    parseMember (n + 1) ('"' :: (quoteBody k ++ ':' :: (text v ++ r))) = some ((k, v), r) := by
  have hcolon : skipSpace (':' :: (text v ++ r)) = ':' :: (text v ++ r) := skipSpace_cons rfl _
  simp only [parseMember, parseBody_quoteBody, hcolon, skipSpace_text hv, hval, Option.map_some]

mutual

theorem parseValue_text : ∀ (v : Json) (n : ℕ) (r : List Char), Printable v → 3 * (text v).length ≤ n →
    NumberEnds r → parseValue n (text v ++ r) = some (v, r)
  | v, 0, r, hv, hn, _ => by
    obtain ⟨c, cs, hcs, -⟩ := head_text hv
    rw [hcs] at hn
    cases hn
  | null, n + 1, r, _, _, _ => rfl
  | bool true, n + 1, r, _, _, _ => rfl
  | bool false, n + 1, r, _, _, _ => rfl
  | num q, n + 1, r, hv, _, hr => by
    obtain ⟨c, cs, hcs, hc⟩ := head_numberText hv
    rw [text, ← parseNumberToken_numberText hv hr, hcs, List.cons_append,
      parseValue_number n (isNumberChar_of_head hc)]
  | str s, n + 1, r, _, _, _ => by
    simp only [text, List.cons_append, parseValue, parseBody_quoteBody, Option.map_some]
  | arr [], n + 1, r, _, _, _ => rfl
  | arr (v :: vs), n + 1, r, hv, hn, _ => by
    simp only [text, List.length_cons, List.length_append] at hn
    rw [Printable, PrintableElements] at hv
    rw [text, List.cons_append, List.append_assoc, parseValue_arr hv.1,
      parseElements_text vs n r v hv.1 hv.2 (by omega)
        (fun k hk r' hr' => parseValue_text v k r' hv.1 hk hr')]
    rfl
  | obj [], n + 1, r, _, _, _ => rfl
  | obj ((k, v) :: ms), n + 1, r, hv, hn, _ => by
    simp only [text, List.length_cons, List.length_append] at hn
    rw [Printable, PrintableMembers] at hv
    have := parseMembers_text ms n r k v hv.1 hv.2 (by omega)
        (fun k hk r' hr' => parseValue_text v k r' hv.1 hk hr')
    simp only [text, List.cons_append, List.append_assoc]
    rw [parseValue_obj, this]
    rfl

/-- The elements from `v` on, given that `v` itself is read back. -/
theorem parseElements_text : ∀ (vs : List Json) (n : ℕ) (r : List Char) (v : Json), Printable v →
    PrintableElements vs → 3 * ((text v).length + (elementsTail vs).length) ≤ n →
    (∀ k, 3 * (text v).length ≤ k → ∀ r', NumberEnds r' →
      parseValue k (text v ++ r') = some (v, r')) →
    parseElements n (text v ++ (elementsTail vs ++ r)) = some (v :: vs, r)
  | [], n, r, v, hv, _, hn, hval => by
    obtain ⟨k, rfl⟩ : ∃ k, n = k + 1 := ⟨n - 1, by simp only [elementsTail, List.length_cons] at hn; omega⟩
    have h := hval k (by simp only [elementsTail, List.length_cons] at hn; omega) (']' :: r)
      (numberEnds_cons rfl r)
    have hsp : skipSpace (']' :: r) = ']' :: r := skipSpace_cons rfl r
    simp only [parseElements, elementsTail, List.singleton_append, h, hsp]
  | w :: ws, n, r, v, hv, hvs, hn, hval => by
    simp only [elementsTail, List.length_cons, List.length_append] at hn
    rw [PrintableElements] at hvs
    obtain ⟨k, rfl⟩ : ∃ k, n = k + 1 := ⟨n - 1, by omega⟩
    have h := hval k (by omega) _ (numberEnds_elementsTail (w :: ws) r)
    have ih := parseElements_text ws k r w hvs.1 hvs.2 (by omega)
      (fun k hk r' hr' => parseValue_text w k r' hvs.1 hk hr')
    have hsp : skipSpace (elementsTail (w :: ws) ++ r) = elementsTail (w :: ws) ++ r :=
      skipSpace_cons rfl _
    simp only [parseElements, h, hsp]
    simp only [elementsTail, List.cons_append, List.append_assoc, skipSpace_text hvs.1, ih,
      Option.map_some]

/-- The members from `k` on, given that its value is read back. -/
theorem parseMembers_text : ∀ (ms : List (JsString × Json)) (n : ℕ) (r : List Char) (k : JsString)
    (v : Json), Printable v → PrintableMembers ms →
    3 * ((quoteBody k).length + (text v).length + (membersTail ms).length) ≤ n →
    (∀ k, 3 * (text v).length ≤ k → ∀ r', NumberEnds r' →
      parseValue k (text v ++ r') = some (v, r')) →
    parseMembers n ('"' :: (quoteBody k ++ ':' :: (text v ++ (membersTail ms ++ r)))) =
      some ((k, v) :: ms, r)
  | [], n, r, k, v, hv, _, hn, hval => by
    simp only [membersTail, List.length_cons] at hn
    obtain ⟨j, rfl⟩ : ∃ j, n = j + 2 := ⟨n - 2, by omega⟩
    have h := parseMember_text (k := k) hv (hval j (by omega) ('}' :: r) (numberEnds_cons rfl r))
    have hsp : skipSpace ('}' :: r) = '}' :: r := skipSpace_cons rfl r
    simp only [parseMembers, membersTail, List.singleton_append, h, hsp]
  | (k', w) :: ws, n, r, k, v, hv, hvs, hn, hval => by
    simp only [membersTail, List.length_cons, List.length_append] at hn
    rw [PrintableMembers] at hvs
    obtain ⟨j, rfl⟩ : ∃ j, n = j + 2 := ⟨n - 2, by omega⟩
    have h := parseMember_text (k := k) hv
      (hval j (by omega) _ (numberEnds_membersTail ((k', w) :: ws) r))
    have ih := parseMembers_text ws (j + 1) r k' w hvs.1 hvs.2 (by omega)
      (fun k hk r' hr' => parseValue_text w k r' hvs.1 hk hr')
    have hsp : skipSpace (membersTail ((k', w) :: ws) ++ r) = membersTail ((k', w) :: ws) ++ r :=
      skipSpace_cons rfl _
    have hq : ∀ cs, skipSpace ('"' :: cs) = '"' :: cs := fun cs => skipSpace_cons rfl cs
    rw [parseMembers, h]
    simp only [hsp]
    simp only [membersTail, List.cons_append, List.append_assoc, hq, ih, Option.map_some]

end

theorem parseTree_text {v : Json} (hv : Printable v) : parseTree (text v) = some v := by
  have h := parseValue_text v (3 * (text v).length + 3) [] hv (by omega) numberEnds_nil
  have hsp := skipSpace_text hv []
  rw [List.append_nil] at h hsp
  rw [parseTree, hsp, h]
  rfl

theorem text_injective {v w : Json} (hv : Printable v) (hw : Printable w) (h : text v = text w) :
    v = w :=
  Option.some.inj ((parseTree_text hv).symm.trans (h ▸ parseTree_text hw))

/-- The text of a well-formed value parses to it. -/
theorem parse_text {v : Json} (hv : WF v) : parse (text v) = some v := by
  rw [parse, parseTree_text hv.1, Option.map_some, build_of_ordered hv.2]

/-! ## What is accepted is well formed -/

theorem printable_parseNumberToken {cs r : List Char} {v : Json}
    (h : parseNumberToken cs = some (v, r)) : Printable v := by
  obtain ⟨q, hq, heq⟩ := Option.map_eq_some_iff.mp h
  cases heq
  exact decimal_of_parseNumber hq

theorem printable_parse_fuel (n : ℕ) :
    (∀ cs p, parseValue n cs = some p → Printable p.1) ∧
      (∀ cs p, parseElements n cs = some p → PrintableElements p.1) ∧
      (∀ cs p, parseMembers n cs = some p → PrintableMembers p.1) ∧
      ∀ cs p, parseMember n cs = some p → Printable p.1.2 := by
  induction n with
  | zero => exact ⟨fun _ _ h => (nomatch h), fun _ _ h => (nomatch h), fun _ _ h => (nomatch h),
      fun _ _ h => (nomatch h)⟩
  | succ n ih =>
    obtain ⟨ihv, ihe, ihm, ihk⟩ := ih
    refine ⟨fun cs p h => ?_, fun cs p h => ?_, fun cs p h => ?_, fun cs p h => ?_⟩
    · unfold parseValue at h
      split at h
      · cases h; trivial
      · cases h; trivial
      · cases h; trivial
      · obtain ⟨q, -, rfl⟩ := Option.map_eq_some_iff.mp h
        trivial
      · split at h
        · cases h; trivial
        · obtain ⟨q, hq, rfl⟩ := Option.map_eq_some_iff.mp h
          exact ihe _ q hq
      · split at h
        · cases h; trivial
        · obtain ⟨q, hq, rfl⟩ := Option.map_eq_some_iff.mp h
          exact ihm _ q hq
      · exact printable_parseNumberToken h
    · unfold parseElements at h
      split at h
      · cases h
      · rename_i v r hv
        split at h
        · cases h; exact ⟨ihv _ _ hv, trivial⟩
        · obtain ⟨q, hq, rfl⟩ := Option.map_eq_some_iff.mp h
          exact ⟨ihv _ _ hv, ihe _ q hq⟩
        · cases h
    · unfold parseMembers at h
      split at h
      · cases h
      · rename_i v r hv
        split at h
        · cases h; exact ⟨ihk _ _ hv, trivial⟩
        · obtain ⟨q, hq, rfl⟩ := Option.map_eq_some_iff.mp h
          exact ⟨ihk _ _ hv, ihm _ q hq⟩
        · cases h
    · unfold parseMember at h
      split at h
      · split at h
        · cases h
        · split at h
          · obtain ⟨q, hq, rfl⟩ := Option.map_eq_some_iff.mp h
            exact ihv _ q hq
          · cases h
      · cases h

/-- What `JSON.parse` returns is a well-formed value. -/
theorem wf_of_parse {cs : List Char} {v : Json} (h : parse cs = some v) : WF v := by
  obtain ⟨t, ht, rfl⟩ := Option.map_eq_some_iff.mp h
  unfold parseTree at ht
  split at ht
  · rename_i w r hw
    rw [Option.ite_none_right_eq_some, Option.some.injEq] at ht
    exact wf_build (ht.2 ▸ (printable_parse_fuel _).1 _ _ hw)
  · cases ht

end Attestia.Lib.Json
