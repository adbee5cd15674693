import Attestia.Lib.JsonParse
import Attestia.Lib.Lines
import Mathlib.Data.List.TakeWhile

/-!
# Incomplete JSON

The text of an object cut anywhere before its end does not parse, whether the cut leaves
whole characters or a replacement character behind.
-/

namespace Attestia.Lib.Json

open JsonNumber

/-! ## What is left after parsing -/

theorem suffix_parseBody {cs r : List Char} {s : JsString} (h : parseBody cs = some (s, r)) :
    r <:+ cs := by
  fun_induction parseBody cs generalizing s with
  | case1 => cases h
  | case2 r' =>
    cases h
    exact List.suffix_cons _ _
  | case3 a b c d r' u hu ih =>
    obtain ⟨p, hp, heq⟩ := Option.map_eq_some_iff.mp h
    cases heq
    exact (ih hp).trans ⟨['\\', 'u', a, b, c, d], rfl⟩
  | case4 => cases h
  | case5 e r' _ u hu ih =>
    obtain ⟨p, hp, heq⟩ := Option.map_eq_some_iff.mp h
    cases heq
    exact (ih hp).trans ⟨['\\', e], rfl⟩
  | case6 => cases h
  | case7 => cases h
  | case8 c r' _ _ _ _ ih =>
    obtain ⟨p, hp, heq⟩ := Option.map_eq_some_iff.mp h
    cases heq
    exact (ih hp).trans (List.suffix_cons c r')

theorem suffix_skipSpace (cs : List Char) : skipSpace cs <:+ cs := List.dropWhile_suffix _

theorem suffix_fuel (n : ℕ) :
    (∀ cs v r, parseValue n cs = some (v, r) → r <:+ cs) ∧
      (∀ cs vs r, parseElements n cs = some (vs, r) → r <:+ cs) ∧
      (∀ cs ms r, parseMembers n cs = some (ms, r) → '}' :: r <:+ cs) ∧
      ∀ cs m r, parseMember n cs = some (m, r) → r <:+ cs := by
  induction n with
  | zero => exact ⟨fun _ _ _ h => (nomatch h), fun _ _ _ h => (nomatch h),
      fun _ _ _ h => (nomatch h), fun _ _ _ h => (nomatch h)⟩
  | succ n ih =>
    obtain ⟨ihv, ihe, ihm, ihk⟩ := ih
    refine ⟨fun cs v r h => ?_, fun cs vs r h => ?_, fun cs ms r h => ?_, fun cs m r h => ?_⟩
    · unfold parseValue at h
      split at h
      · cases h; exact ⟨['n', 'u', 'l', 'l'], rfl⟩
      · cases h; exact ⟨['t', 'r', 'u', 'e'], rfl⟩
      · cases h; exact ⟨['f', 'a', 'l', 's', 'e'], rfl⟩
      · obtain ⟨q, hq, heq⟩ := Option.map_eq_some_iff.mp h
        cases heq
        exact (suffix_parseBody hq).trans (List.suffix_cons _ _)
      · rename_i r₀
        split at h
        · rename_i r' hr'
          cases h
          exact ((List.suffix_cons _ _).trans (hr' ▸ suffix_skipSpace r₀)).trans (List.suffix_cons _ _)
        · obtain ⟨q, hq, heq⟩ := Option.map_eq_some_iff.mp h
          cases heq
          exact ((ihe _ _ _ hq).trans (suffix_skipSpace r₀)).trans (List.suffix_cons _ _)
      · rename_i r₀
        split at h
        · rename_i r' hr'
          cases h
          exact ((List.suffix_cons _ _).trans (hr' ▸ suffix_skipSpace r₀)).trans (List.suffix_cons _ _)
        · obtain ⟨q, hq, heq⟩ := Option.map_eq_some_iff.mp h
          cases heq
          exact (((List.suffix_cons _ _).trans (ihm _ _ _ hq)).trans (suffix_skipSpace r₀)).trans
            (List.suffix_cons _ _)
      · obtain ⟨q, -, heq⟩ := Option.map_eq_some_iff.mp h
        cases heq
        exact List.dropWhile_suffix _
    · unfold parseElements at h
      split at h
      · cases h
      · rename_i v r₁ hv
        have hs := (suffix_skipSpace r₁).trans (ihv _ _ _ hv)
        split at h
        · rename_i r' hr'
          cases h
          exact (List.suffix_cons _ _).trans (hr' ▸ hs)
        · rename_i r' hr'
          obtain ⟨q, hq, heq⟩ := Option.map_eq_some_iff.mp h
          cases heq
          exact ((ihe _ _ _ hq).trans (suffix_skipSpace r')).trans
            ((List.suffix_cons _ _).trans (hr' ▸ hs))
        · cases h
    · unfold parseMembers at h
      split at h
      · cases h
      · rename_i v r₁ hv
        have hs := (suffix_skipSpace r₁).trans (ihk _ _ _ hv)
        split at h
        · rename_i r' hr'
          cases h
          exact hr' ▸ hs
        · rename_i r' hr'
          obtain ⟨q, hq, heq⟩ := Option.map_eq_some_iff.mp h
          cases heq
          exact ((ihm _ _ _ hq).trans (suffix_skipSpace r')).trans
            ((List.suffix_cons _ _).trans (hr' ▸ hs))
        · cases h
    · unfold parseMember at h
      split at h
      · rename_i r₀
        split at h
        · cases h
        · rename_i k r₁ hk
          have hs := (suffix_skipSpace r₁).trans (suffix_parseBody hk)
          split at h
          · rename_i r' hr'
            obtain ⟨q, hq, heq⟩ := Option.map_eq_some_iff.mp h
            cases heq
            exact (((ihv _ _ _ hq).trans (suffix_skipSpace r')).trans
              ((List.suffix_cons _ _).trans (hr' ▸ hs))).trans (List.suffix_cons _ _)
          · cases h
      · cases h

/-- Behind a parsed object stands the rest of the text, in front of that its brace. -/
theorem suffix_parseValue_obj {n : ℕ} {cs r : List Char} {v : Json}
    (h : parseValue n ('{' :: cs) = some (v, r)) : '}' :: r <:+ cs := by
  cases n with
  | zero => cases h
  | succ n =>
    simp only [parseValue] at h
    split at h
    · rename_i r' hr'
      cases h
      exact hr' ▸ suffix_skipSpace cs
    · obtain ⟨q, hq, heq⟩ := Option.map_eq_some_iff.mp h
      cases heq
      exact ((suffix_fuel n).2.2.1 _ _ _ hq).trans (suffix_skipSpace cs)

/-- An object text does not end in another character than a brace or white space. -/
theorem parse_append_singleton {cs : List Char} {c : Char} (hs : isSpace c = false) (hc : c ≠ '}') :
    parse ('{' :: (cs ++ [c])) = none := by
  rw [parse, Option.map_eq_none_iff, parseTree, skipSpace_cons (by decide)]
  split
  · rename_i v r h
    obtain ⟨p, hp⟩ := suffix_parseValue_obj h
    obtain rfl | ⟨r', d, rfl⟩ := List.eq_nil_or_concat r
    · obtain ⟨-, heq⟩ := List.append_inj' hp rfl
      exact absurd (List.singleton_inj.mp heq).symm hc
    · have heq : p ++ '}' :: r' ++ [d] = cs ++ [c] := by
        rw [← hp, List.concat_eq_append, List.append_assoc]
        rfl
      obtain rfl := List.singleton_inj.mp (List.append_inj' heq rfl).2
      rw [if_neg]
      intro hnil
      have := List.dropWhile_eq_nil_iff.mp hnil d (by simp)
      rw [hs] at this
      cases this
  · rfl

/-! ## More text behind a parsed one -/

theorem parseBody_append {cs r : List Char} {s : JsString} (h : parseBody cs = some (s, r))
    (x : List Char) : parseBody (cs ++ x) = some (s, r ++ x) := by
  fun_induction parseBody cs generalizing s with
  | case1 => cases h
  | case2 r' =>
    cases h
    rfl
  | case3 a b c d r' u hu ih =>
    obtain ⟨p, hp, heq⟩ := Option.map_eq_some_iff.mp h
    cases heq
    simp only [List.cons_append, parseBody, hu, ih hp, Option.map_some]
    rfl
  | case4 => cases h
  | case5 e r' hne u hu ih =>
    obtain ⟨p, hp, heq⟩ := Option.map_eq_some_iff.mp h
    cases heq
    have he : e ≠ 'u' := by rintro rfl; cases hu
    rw [List.cons_append, List.cons_append, parseBody_escape he hu, ih hp]
    rfl
  | case6 => cases h
  | case7 => cases h
  | case8 c r' hq _ _ hc ih =>
    obtain ⟨p, hp, heq⟩ := Option.map_eq_some_iff.mp h
    cases heq
    rw [not_or] at hc
    rw [List.cons_append, parseBody_char (by simpa using hq) hc.1 hc.2, ih hp]
    rfl

theorem skipSpace_append {cs : List Char} {c : Char} {r : List Char} (h : skipSpace cs = c :: r)
    (x : List Char) : skipSpace (cs ++ x) = c :: (r ++ x) := by
  induction cs with
  | nil => cases h
  | cons d cs ih =>
    by_cases hd : isSpace d = true
    · rw [skipSpace, List.dropWhile_cons_of_pos hd] at h
      rw [List.cons_append, skipSpace, List.dropWhile_cons_of_pos hd]
      exact ih h
    · rw [skipSpace, List.dropWhile_cons_of_neg hd] at h
      rw [List.cons_append, skipSpace, List.dropWhile_cons_of_neg hd, ← List.cons_append, h]
      rfl

theorem parseNumberToken_append {cs r : List Char} {v : Json}
    (h : parseNumberToken cs = some (v, r)) (hr : r ≠ []) (x : List Char) :
    parseNumberToken (cs ++ x) = some (v, r ++ x) := by
  obtain ⟨q, hq, heq⟩ := Option.map_eq_some_iff.mp h
  cases heq
  have hx : NumberEnds (cs.dropWhile isNumberChar ++ x) := by
    cases hd : cs.dropWhile isNumberChar with
    | nil => exact absurd hd hr
    | cons c t =>
      have := List.head_dropWhile_not isNumberChar (l := cs) (by rw [hd]; simp)
      simp only [hd, List.head_cons] at this
      exact numberEnds_cons this _
  obtain ⟨h1, h2⟩ := takeWhile_append_numberEnds
    (fun c hc => (List.mem_takeWhile_imp hc : isNumberChar c = true)) hx
  rw [← List.append_assoc, List.takeWhile_append_dropWhile] at h1 h2
  rw [parseNumberToken, h1, h2, hq]
  rfl

theorem head_of_parseNumberToken {cs : List Char} {p : Json × List Char}
    (h : parseNumberToken cs = some p) : ∃ c r, cs = c :: r ∧ isNumberChar c = true := by
  cases cs with
  | nil => cases h
  | cons c r =>
    refine ⟨c, r, rfl, ?_⟩
    by_contra hc
    rw [parseNumberToken, List.takeWhile_cons_of_neg hc] at h
    cases h

theorem parseValue_nil (n : ℕ) : parseValue n [] = none := by
  cases n <;> rfl

theorem parseElements_nil (n : ℕ) : parseElements n [] = none := by
  cases n with
  | zero => rfl
  | succ n => rw [parseElements, parseValue_nil]

theorem parseMembers_nil (n : ℕ) : parseMembers n [] = none := by
  cases n with
  | zero => rfl
  | succ n => cases n <;> rfl

/-- What is parsed is parsed in the same way when more text follows and more fuel is given;
only a number has to be followed by something already. -/
theorem parse_append_fuel (n : ℕ) (x : List Char) :
    (∀ m cs v r, n ≤ m → parseValue n cs = some (v, r) → (r ≠ [] ∨ cs.head? = some '{') →
        parseValue m (cs ++ x) = some (v, r ++ x)) ∧
      (∀ m cs vs r, n ≤ m → parseElements n cs = some (vs, r) →
        parseElements m (cs ++ x) = some (vs, r ++ x)) ∧
      (∀ m cs ms r, n ≤ m → parseMembers n cs = some (ms, r) →
        parseMembers m (cs ++ x) = some (ms, r ++ x)) ∧
      ∀ m cs k r, n ≤ m → parseMember n cs = some (k, r) → r ≠ [] →
        parseMember m (cs ++ x) = some (k, r ++ x) := by
  induction n with
  | zero => exact ⟨fun _ _ _ _ _ h => (nomatch h), fun _ _ _ _ _ h => (nomatch h),
      fun _ _ _ _ _ h => (nomatch h), fun _ _ _ _ _ h => (nomatch h)⟩
  | succ n ih =>
    obtain ⟨ihv, ihe, ihm, ihk⟩ := ih
    refine ⟨fun m cs v r hm h hr => ?_, fun m cs vs r hm h => ?_, fun m cs ms r hm h => ?_,
      fun m cs k r hm h hr => ?_⟩
    all_goals
      obtain ⟨m, rfl⟩ : ∃ k, m = k + 1 := ⟨m - 1, by omega⟩
      replace hm : n ≤ m := by omega
    · unfold parseValue at h
      split at h
      · cases h; rfl
      · cases h; rfl
      · cases h; rfl
      · obtain ⟨q, hq, heq⟩ := Option.map_eq_some_iff.mp h
        cases heq
        simp only [List.cons_append, parseValue, parseBody_append hq, Option.map_some]
      · rename_i r₀
        cases hsk : skipSpace r₀ with
        | nil =>
          simp only [hsk, parseElements_nil, Option.map_none] at h
          cases h
        | cons c t =>
          rw [hsk] at h
          simp only [List.cons_append, parseValue, skipSpace_append hsk]
          split at h
          · rename_i heq
            obtain ⟨rfl, rfl⟩ := List.cons.inj heq
            cases h
            rfl
          · rename_i hne
            obtain ⟨q, hq, heq⟩ := Option.map_eq_some_iff.mp h
            cases heq
            split
            · rename_i heq
              exact absurd (List.cons.inj heq).1 fun e => hne t (by rw [e])
            · rw [← List.cons_append, ihe m _ _ _ hm hq]
              rfl
      · rename_i r₀
        cases hsk : skipSpace r₀ with
        | nil =>
          simp only [hsk, parseMembers_nil, Option.map_none] at h
          cases h
        | cons c t =>
          rw [hsk] at h
          simp only [List.cons_append, parseValue, skipSpace_append hsk]
          split at h
          · rename_i heq
            obtain ⟨rfl, rfl⟩ := List.cons.inj heq
            cases h
            rfl
          · rename_i hne
            obtain ⟨q, hq, heq⟩ := Option.map_eq_some_iff.mp h
            cases heq
            split
            · rename_i heq
              exact absurd (List.cons.inj heq).1 fun e => hne t (by rw [e])
            · rw [← List.cons_append, ihm m _ _ _ hm hq]
              rfl
      · obtain ⟨c, t, rfl, hc⟩ := head_of_parseNumberToken h
        have hr' : r ≠ [] := hr.resolve_right (by rintro heq; cases Option.some.inj heq; cases hc)
        rw [List.cons_append, parseValue_number m hc, ← List.cons_append,
          parseNumberToken_append h hr']
    · unfold parseElements at h
      split at h
      · cases h
      · rename_i v r₁ hv
        have hv' : r₁ ≠ [] → parseValue m (cs ++ x) = some (v, r₁ ++ x) := fun hr₁ =>
          ihv m cs v r₁ hm hv (.inl hr₁)
        split at h
        · rename_i r' hsk
          cases h
          rw [parseElements, hv' (by rintro rfl; cases hsk)]
          simp only [skipSpace_append hsk]
        · rename_i r' hsk
          obtain ⟨q, hq, heq⟩ := Option.map_eq_some_iff.mp h
          cases heq
          rw [parseElements, hv' (by rintro rfl; cases hsk)]
          simp only [skipSpace_append hsk]
          obtain ⟨c, t, hct⟩ : ∃ c t, skipSpace r' = c :: t := by
            cases hsk' : skipSpace r' with
            | nil => rw [hsk', parseElements_nil] at hq; cases hq
            | cons c t => exact ⟨c, t, rfl⟩
          rw [hct] at hq
          rw [skipSpace_append hct, ← List.cons_append, ihe m _ _ _ hm hq]
          rfl
        · cases h
    · unfold parseMembers at h
      split at h
      · cases h
      · rename_i v r₁ hv
        have hv' : r₁ ≠ [] → parseMember m (cs ++ x) = some (v, r₁ ++ x) := fun hr₁ =>
          ihk m cs v r₁ hm hv hr₁
        split at h
        · rename_i r' hsk
          cases h
          rw [parseMembers, hv' (by rintro rfl; cases hsk)]
          simp only [skipSpace_append hsk]
        · rename_i r' hsk
          obtain ⟨q, hq, heq⟩ := Option.map_eq_some_iff.mp h
          cases heq
          rw [parseMembers, hv' (by rintro rfl; cases hsk)]
          simp only [skipSpace_append hsk]
          obtain ⟨c, t, hct⟩ : ∃ c t, skipSpace r' = c :: t := by
            cases hsk' : skipSpace r' with
            | nil => rw [hsk', parseMembers_nil] at hq; cases hq
            | cons c t => exact ⟨c, t, rfl⟩
          rw [hct] at hq
          rw [skipSpace_append hct, ← List.cons_append, ihm m _ _ _ hm hq]
          rfl
        · cases h
    · unfold parseMember at h
      split at h
      · rename_i r₀
        split at h
        · cases h
        · rename_i k r₁ hk
          split at h
          · rename_i r' hsk
            obtain ⟨q, hq, heq⟩ := Option.map_eq_some_iff.mp h
            cases heq
            obtain ⟨c, t, hct⟩ : ∃ c t, skipSpace r' = c :: t := by
              cases hsk' : skipSpace r' with
              | nil => rw [hsk', parseValue_nil] at hq; cases hq
              | cons c t => exact ⟨c, t, rfl⟩
            rw [hct] at hq
            simp only [List.cons_append, parseMember, parseBody_append hk, skipSpace_append hsk,
              skipSpace_append hct]
            rw [← List.cons_append, ihv m _ _ _ hm hq (.inl hr)]
            rfl
          · cases h
      · cases h

/-- The text of an object parses at its last character and at none before. -/
theorem parse_prefix {ms : List (JsString × Json)} (hp' : Printable (obj ms)) {p : List Char}
    (hp : p <+: text (obj ms)) (hne : p ≠ text (obj ms)) : parse p = none := by
  obtain ⟨cs, hcs, -⟩ := text_obj ms
  obtain ⟨x, hx⟩ := hp
  cases p with
  | nil => rfl
  | cons c p =>
    obtain ⟨rfl, -⟩ := List.cons.inj (hx.trans hcs)
    rw [parse, Option.map_eq_none_iff, parseTree, skipSpace_cons (by decide)]
    split
    · rename_i v r h
      have hlen : ('{' :: p).length ≤ (text (obj ms)).length := by
        rw [← hx, List.length_append]
        exact Nat.le_add_right _ _
      have h1 := (parse_append_fuel _ x).1 (3 * (text (obj ms)).length + 3) _ _ _ (by omega) h
        (.inr rfl)
      have h2 := parseValue_text (obj ms) (3 * (text (obj ms)).length + 3) [] hp' (by omega)
        numberEnds_nil
      rw [hx] at h1
      rw [List.append_nil, h1] at h2
      obtain ⟨-, hx0⟩ := List.append_eq_nil_iff.mp (Prod.mk.inj (Option.some.inj h2)).2
      rw [hx0, List.append_nil] at hx
      exact absurd hx hne
    · rfl

/-! ## Objects as lines -/

open Lines

theorem trim_text (ms : List (JsString × Json)) : trim (text (obj ms)) = text (obj ms) := by
  obtain ⟨cs, hcs, hlast⟩ := text_obj ms
  rw [hcs]
  exact trim_of_ends rfl (by rw [List.getLast?_cons, hlast]) rfl rfl

/-- A torn line of an object does not parse, unless all of it is there. -/
theorem parse_trim_torn {ms : List (JsString × Json)} (hp' : Printable (obj ms)) {frag : List Char}
    (h : Torn (text (obj ms)) frag) (hne : frag ≠ text (obj ms)) : parse (trim frag) = none := by
  obtain ⟨cs, hcs, -⟩ := text_obj ms
  obtain h | ⟨d, hd, -, rfl⟩ := h
  · have hhead : ∀ a, frag.head? = some a → isBlank a = false := by
      intro a ha
      obtain ⟨x, hx⟩ := h
      cases frag with
      | nil => cases ha
      | cons c frag =>
        cases Option.some.inj ha
        cases (List.cons.inj (hx.trans hcs)).1
        rfl
    have hp := trim_prefix hhead
    refine parse_prefix hp' (hp.trans h) fun heq => hne ?_
    exact h.eq_of_length_le (heq ▸ hp.length_le)
  · obtain ⟨x, hx⟩ := hd
    cases d with
    | nil => rfl
    | cons c d =>
      cases (List.cons.inj (hx.trans hcs)).1
      rw [trim_of_ends (a := '{') (b := Utf8.replacement) rfl List.getLast?_concat rfl rfl]
      exact parse_append_singleton rfl (by decide)

theorem newline_not_mem_text (v : Json) : '\n' ∉ text v := fun h =>
  absurd (printable_text v h) (by decide)

end Attestia.Lib.Json
