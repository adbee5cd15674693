import Attestia.Lib.Except
import Attestia.Registrum.Predicate.Parser

/-!
# The tokens of an input

Every round of the lexer takes a character, and only the token it adds at last is the end of the
input.
-/

namespace Attestia.Registrum

open Lib

theorem type_ne_eof_of_lookup {table : List (JsString × TokenType)} {text : JsString}
    {type : TokenType} (htable : table.all (fun e => e.2 ≠ .EOF) = true)
    (h : lookupToken table text = some type) :
    type ≠ .EOF := by
  obtain ⟨e, he, rfl⟩ := Option.map_eq_some_iff.mp h
  exact of_decide_eq_true (List.all_eq_true.mp htable e (List.mem_of_find?_eq_some he))

theorem length_scanString_le {text str rest : JsString} (h : scanString text = some (str, rest)) :
    rest.length ≤ text.length := by
  induction text using scanString.induct generalizing str with
  | case1 => cases h
  | case2 =>
    rw [scanString, if_pos rfl] at h
    cases h
    simp
  | case3 u hquote =>
    rw [scanString, if_neg hquote] at h
    cases h
  | case4 v more =>
    rw [scanString, if_pos rfl] at h
    cases h
    simp
  | case5 v more hquote ih =>
    rw [scanString, if_neg hquote, if_pos rfl] at h
    obtain ⟨s, hs, heq⟩ := Option.map_eq_some_iff.mp h
    cases heq
    exact Nat.le_trans (ih hs) (Nat.le_succ_of_le (Nat.le_succ _))
  | case6 u v more hquote hslash ih =>
    rw [scanString, if_neg hquote, if_neg hslash] at h
    obtain ⟨s, hs, heq⟩ := Option.map_eq_some_iff.mp h
    cases heq
    exact Nat.le_succ_of_le (ih hs)

theorem length_dropWhile_cons_le {p : UInt16 → Bool} {u : UInt16} (hu : p u = true)
    (rest : JsString) : ((u :: rest).dropWhile p).length ≤ rest.length := by
  rw [List.dropWhile_cons_of_pos hu]
  exact (List.dropWhile_sublist p).length_le

/-- A token takes a character, and only the end of the input is its own token. -/
theorem nextToken_eq_ok {start : ℤ} {u : UInt16} {rest after : JsString} {token : Token}
    (h : nextToken start u rest = .ok (token, after)) :
    token.type ≠ .EOF ∧ after.length ≤ rest.length := by
  rw [nextToken] at h
  dsimp only at h
  split at h
  · rename_i htype
    cases h
    exact ⟨type_ne_eof_of_lookup rfl htype, by simp⟩
  · split at h
    · rename_i htype
      cases h
      exact ⟨type_ne_eof_of_lookup rfl htype, Nat.le_refl _⟩
    · split at h
      · split at h
        · cases h
        · rename_i hscan
          cases h
          exact ⟨TokenType.noConfusion, length_scanString_le hscan⟩
      · split at h
        · rename_i hdigit
          cases h
          exact ⟨TokenType.noConfusion, length_dropWhile_cons_le hdigit rest⟩
        · split at h
          · cases h
            exact ⟨TokenType.noConfusion, (List.dropWhile_sublist _).length_le⟩
          · split at h
            · rename_i hstart
              cases h
              refine ⟨?_, length_dropWhile_cons_le (by rw [isIdentifierPart, hstart]; rfl) rest⟩
              show (lookupToken keywords _).getD .IDENTIFIER ≠ .EOF
              cases hkeyword : lookupToken keywords ((u :: rest).takeWhile isIdentifierPart) with
              | none => exact TokenType.noConfusion
              | some type => exact type_ne_eof_of_lookup rfl hkeyword
            · cases h

/-- The lexer ends before its rounds are used up. -/
theorem tokenizeLoop_fuel {total fuel fuel' : ℕ} {input : JsString} (h : input.length ≤ fuel)
    (h' : input.length ≤ fuel') :
    tokenizeLoop total fuel input = tokenizeLoop total fuel' input := by
  induction fuel generalizing fuel' input with
  | zero =>
    obtain rfl : input = [] := List.eq_nil_of_length_eq_zero (Nat.le_zero.mp h)
    cases fuel' <;> rfl
  | succ fuel ih =>
    cases input with
    | nil => cases fuel' <;> rfl
    | cons u rest =>
      cases fuel' with
      | zero => exact absurd h' (Nat.not_succ_le_zero _)
      | succ fuel' =>
        have hfuel : rest.length ≤ fuel := Nat.le_of_succ_le_succ h
        have hfuel' : rest.length ≤ fuel' := Nat.le_of_succ_le_succ h'
        rw [tokenizeLoop, tokenizeLoop]
        split
        · exact ih hfuel hfuel'
        · apply bind_congr_ok rfl
          rintro ⟨token, after⟩ hnext
          have hafter := (nextToken_eq_ok hnext).2
          exact bind_congr_ok
            (ih (Nat.le_trans hafter hfuel) (Nat.le_trans hafter hfuel')) fun _ _ => rfl

/-- The tokens of an input and the end of it. -/
theorem exists_body_of_tokenizeLoop {total fuel : ℕ} {input : JsString} {tokens : Tokens}
    (h : tokenizeLoop total fuel input = .ok tokens) :
    ∃ body eof, tokens = body ++ [eof] ∧ eof.type = .EOF ∧ ∀ token ∈ body, token.type ≠ .EOF := by
  induction fuel generalizing input tokens with
  | zero =>
    cases h
    exact ⟨[], _, rfl, rfl, fun _ => nofun⟩
  | succ fuel ih =>
    cases input with
    | nil =>
      cases h
      exact ⟨[], _, rfl, rfl, fun _ => nofun⟩
    | cons u rest =>
      rw [tokenizeLoop] at h
      split at h
      · exact ih h
      · obtain ⟨⟨token, after⟩, hnext, hrest⟩ := bind_eq_ok.mp h
        obtain ⟨tokens', htokens, hcons⟩ := bind_eq_ok.mp hrest
        cases hcons
        obtain ⟨body, eof, rfl, heof, hbody⟩ := ih htokens
        exact ⟨token :: body, eof, rfl, heof,
          List.forall_mem_cons.mpr ⟨(nextToken_eq_ok hnext).1, hbody⟩⟩

end Attestia.Registrum
