import Attestia.Registrum.Predicate.Soundness

/-!
# Termination of the predicate parser

No input uses up the depth of the parser or the rounds of one of its loops: more of either leave the
result as it is, so that the parser satisfies the equations of the source without them.
-/

namespace Attestia.Registrum

open Lib

section termination

variable {parse parse' : Tokens → ParseResult}

/-- Two procedures with one result on all shorter lists. -/
def AgreeBelow (n : ℕ) (parse parse' : Tokens → ParseResult) : Prop :=
  ∀ tokens : Tokens, tokens.length < n → parse tokens = parse' tokens

theorem length_tail_lt {tokens : Tokens} {type : TokenType} (hne : type ≠ .EOF)
    (h : (current tokens).type = type) : tokens.tail.length < tokens.length := by
  obtain ⟨token, rest, rfl, -⟩ := current_eq hne h
  exact Nat.lt_succ_self _

theorem chainLoop_congr {l m : Level} (hparse : SoundFor m parse) {n : ℕ}
    (h : AgreeBelow n parse parse') (fuel : ℕ) (left : ASTNode) (tokens : Tokens)
    (hlength : tokens.length < n) :
    chainLoop l.operator parse fuel left tokens = chainLoop l.operator parse' fuel left tokens := by
  induction fuel generalizing left tokens with
  | zero => rfl
  | succ fuel ih =>
    rw [chainLoop, chainLoop]
    cases hop : l.operator (current tokens).type with
    | none => rfl
    | some op =>
      have htail := length_tail_lt (type_ne_eof_of_operator hop) rfl
      apply bind_congr_ok (h _ (by omega))
      rintro ⟨right, rest⟩ hright
      have hrest := hparse.consumes hright
      exact ih _ _ (by show rest.length < n; omega)

theorem chain_congr {l m : Level} (hparse : SoundFor m parse) {n : ℕ}
    (h : AgreeBelow n parse parse') :
    AgreeBelow n (chain l.operator parse) (chain l.operator parse') := by
  intro tokens hlength
  apply bind_congr_ok (h _ hlength)
  rintro ⟨left, rest⟩ hleft
  have hrest := hparse.consumes hleft
  exact chainLoop_congr hparse h _ _ _ (by show rest.length < n; omega)

theorem parseArguments_congr (hparse : SoundFor .or parse) {n : ℕ}
    (h : AgreeBelow n parse parse') (fuel : ℕ) (tokens : Tokens) (hlength : tokens.length < n) :
    parseArguments parse fuel tokens = parseArguments parse' fuel tokens := by
  induction fuel generalizing tokens with
  | zero => rfl
  | succ fuel ih =>
    rw [parseArguments, parseArguments]
    split
    · rename_i hcomma
      have htail := length_tail_lt (by decide) hcomma
      apply bind_congr_ok (h _ (by omega))
      rintro ⟨arg, rest⟩ harg
      have hrest := hparse.consumes harg
      exact bind_congr_ok (ih _ (by show rest.length < n; omega)) fun _ _ => rfl
    · rfl

theorem length_parsePath_le {tokens rest : Tokens} {path : List JsString}
    (h : parsePath tokens = .ok (path, rest)) : rest.length ≤ tokens.length := by
  obtain ⟨taken, rfl, -⟩ := dotNames_of_parsePath h
  simp

theorem length_expect_lt {type : TokenType} {tokens rest : Tokens} {token : Token}
    (hne : type ≠ .EOF) (h : expect type tokens = .ok (token, rest)) :
    rest.length < tokens.length := by
  obtain ⟨rfl, -⟩ := (expect_eq_ok hne).mp h
  exact Nat.lt_succ_self _

theorem parseIdentifierOrCall_congr (hparse : SoundFor .or parse) {n : ℕ}
    (h : AgreeBelow n parse parse') :
    AgreeBelow (n + 1) (parseIdentifierOrCall parse) (parseIdentifierOrCall parse') := by
  intro tokens hlength
  apply bind_congr_ok rfl
  rintro ⟨name, names⟩ hname
  apply bind_congr_ok rfl
  rintro ⟨path, rest⟩ hpath
  have hnames := length_expect_lt (by decide) hname
  have hrest := length_parsePath_le hpath
  dsimp only at hrest ⊢
  split
  · rename_i hleft
    have htail := length_tail_lt (by decide) hleft
    split
    · apply bind_congr_ok (h _ (by omega))
      rintro ⟨arg, after⟩ harg
      have hafter := hparse.consumes harg
      exact bind_congr_ok (parseArguments_congr hparse h _ _ (by show after.length < n; omega))
        fun _ _ => rfl
    · rfl
  · rfl

theorem parsePrimary_congr (hparse : SoundFor .or parse) {n : ℕ} (h : AgreeBelow n parse parse') :
    AgreeBelow (n + 1) (parsePrimary parse) (parsePrimary parse') := by
  intro tokens hlength
  rw [parsePrimary, parsePrimary]
  cases htype : (current tokens).type
  case LPAREN =>
    have htail := length_tail_lt (by decide) htype
    exact bind_congr_ok (h _ (by omega)) fun _ _ => rfl
  case IDENTIFIER => exact parseIdentifierOrCall_congr hparse h tokens hlength
  all_goals rfl

theorem parseUnaryExpr_congr {n : ℕ} (h : AgreeBelow n (parsePrimary parse) (parsePrimary parse')) :
    AgreeBelow n (parseUnaryExpr parse) (parseUnaryExpr parse') := by
  intro tokens
  induction tokens with
  | nil => exact h []
  | cons token tokens ih =>
    intro hlength
    rw [parseUnaryExpr, parseUnaryExpr]
    split
    · exact bind_congr_ok (ih (Nat.lt_of_succ_lt hlength)) fun _ _ => rfl
    · exact h _ hlength

theorem parseLevel_congr (hparse : SoundFor .or parse) {n : ℕ} (h : AgreeBelow n parse parse')
    (l : Level) : AgreeBelow (n + 1) (parseLevel parse l) (parseLevel parse' l) := by
  have hprimary := parsePrimary_congr hparse h
  have hunary := parseUnaryExpr_congr hprimary
  have hrelational := chain_congr (l := .relational) (soundFor_parseLevel hparse .unary) hunary
  have hequality :=
    chain_congr (l := .equality) (soundFor_parseLevel hparse .relational) hrelational
  have hand := chain_congr (l := .and) (soundFor_parseLevel hparse .equality) hequality
  cases l with
  | or => exact chain_congr (l := .or) (soundFor_parseLevel hparse .and) hand
  | and => exact hand
  | equality => exact hequality
  | relational => exact hrelational
  | unary => exact hunary
  | primary => exact hprimary

/-- No more depth than there are tokens. -/
theorem parseOrExpr_agree {n depth depth' : ℕ} (h : n ≤ depth) (h' : n ≤ depth') :
    AgreeBelow n (parseOrExpr depth) (parseOrExpr depth') := by
  induction n generalizing depth depth' with
  | zero => exact fun _ hlength => absurd hlength (Nat.not_lt_zero _)
  | succ n ih =>
    cases depth with
    | zero => exact absurd h (Nat.not_succ_le_zero n)
    | succ depth =>
      cases depth' with
      | zero => exact absurd h' (Nat.not_succ_le_zero n)
      | succ depth' =>
        exact parseLevel_congr (soundFor_parseOrExpr depth)
          (ih (Nat.le_of_succ_le_succ h) (Nat.le_of_succ_le_succ h')) .or

/-- `parseOrExpr`, with the depth that any list of tokens needs. -/
def parseExpression (tokens : Tokens) : ParseResult := parseOrExpr (tokens.length + 1) tokens

theorem parseOrExpr_eq {depth : ℕ} {tokens : Tokens} (h : tokens.length < depth) :
    parseOrExpr depth tokens = parseExpression tokens :=
  parseOrExpr_agree h (Nat.le_refl _) tokens (Nat.lt_succ_self _)

theorem soundFor_parseExpression : SoundFor .or parseExpression :=
  fun tokens => soundFor_parseOrExpr (tokens.length + 1) tokens

/-- The recursion of the parser, without a depth. -/
theorem parseExpression_eq : parseExpression = parseLevel parseExpression .or := by
  funext tokens
  show parseLevel (parseOrExpr tokens.length) .or tokens = _
  apply parseLevel_congr (soundFor_parseOrExpr _) (n := tokens.length) _ _ tokens
    (Nat.lt_succ_self _)
  exact fun _ hlength => parseOrExpr_eq hlength

theorem chainLoop_of_none {operator : TokenType → Option BinaryOperator} {tokens : Tokens}
    (h : operator (current tokens).type = none) (fuel : ℕ) (left : ASTNode) :
    chainLoop operator parse fuel left tokens = .ok (left, tokens) := by
  cases fuel with
  | zero => rfl
  | succ fuel => rw [chainLoop, h]

theorem parseArguments_of_ne {tokens : Tokens} (h : (current tokens).type ≠ .COMMA) (fuel : ℕ) :
    parseArguments parse fuel tokens = .ok ([], tokens) := by
  cases fuel with
  | zero => rfl
  | succ fuel => rw [parseArguments, if_neg h]

/-- A loop over operators ends before its rounds are used up. -/
theorem chainLoop_fuel {l m : Level} (hparse : SoundFor m parse) {fuel fuel' : ℕ} {left : ASTNode}
    {tokens : Tokens} (h : tokens.length ≤ fuel) (h' : tokens.length ≤ fuel') :
    chainLoop l.operator parse fuel left tokens = chainLoop l.operator parse fuel' left tokens := by
  induction fuel generalizing fuel' left tokens with
  | zero =>
    obtain rfl : tokens = [] := List.eq_nil_of_length_eq_zero (Nat.le_zero.mp h)
    exact (chainLoop_of_none (by cases l <;> rfl) fuel' left).symm
  | succ fuel ih =>
    cases hop : l.operator (current tokens).type with
    | none => rw [chainLoop_of_none hop, chainLoop_of_none hop]
    | some op =>
      have htail := length_tail_lt (type_ne_eof_of_operator hop) rfl
      cases fuel' with
      | zero => omega
      | succ fuel' =>
        rw [chainLoop, chainLoop, hop]
        apply bind_congr_ok rfl
        rintro ⟨right, rest⟩ hright
        have hrest := hparse.consumes hright
        exact ih (by show rest.length ≤ fuel; omega) (by show rest.length ≤ fuel'; omega)

theorem parseArguments_fuel (hparse : SoundFor .or parse) {fuel fuel' : ℕ} {tokens : Tokens}
    (h : tokens.length ≤ fuel) (h' : tokens.length ≤ fuel') :
    parseArguments parse fuel tokens = parseArguments parse fuel' tokens := by
  induction fuel generalizing fuel' tokens with
  | zero =>
    obtain rfl : tokens = [] := List.eq_nil_of_length_eq_zero (Nat.le_zero.mp h)
    exact (parseArguments_of_ne (by decide) fuel').symm
  | succ fuel ih =>
    by_cases hcomma : (current tokens).type = .COMMA
    · have htail := length_tail_lt (by decide) hcomma
      cases fuel' with
      | zero => omega
      | succ fuel' =>
        rw [parseArguments, parseArguments, if_pos hcomma, if_pos hcomma]
        apply bind_congr_ok rfl
        rintro ⟨arg, rest⟩ harg
        have hrest := hparse.consumes harg
        exact bind_congr_ok
          (ih (by show rest.length ≤ fuel; omega) (by show rest.length ≤ fuel'; omega))
          fun _ _ => rfl
    · rw [parseArguments_of_ne hcomma, parseArguments_of_ne hcomma]

end termination

end Attestia.Registrum
