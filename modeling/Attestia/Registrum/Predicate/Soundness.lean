import Attestia.Lib.Except
import Attestia.Registrum.Predicate.Grammar

/-!
# Soundness of the predicate parser

What a procedure of the parser takes derives from its level of the grammar, with the tree that it
returns. The procedures are seen as one per level, over the one for nested expressions.
-/

namespace Attestia.Registrum

open Lib

/-! ## The parser by levels -/

/-- The procedure of a level, over the one that parses a nested expression. -/
def parseLevel (parseOr : Tokens → ParseResult) : Level → Tokens → ParseResult
  | .or => chain orOperator (parseAndExpr parseOr)
  | .and => parseAndExpr parseOr
  | .equality => parseEqualityExpr parseOr
  | .relational => parseRelationalExpr parseOr
  | .unary => parseUnaryExpr parseOr
  | .primary => parsePrimary parseOr

theorem parseLevel_eq_chain (parseOr : Tokens → ParseResult) {l m : Level}
    (h : l.operand = some m) : parseLevel parseOr l = chain l.operator (parseLevel parseOr m) := by
  cases l <;> cases h <;> rfl

/-! ## Soundness -/

/-- A procedure that returns the tree of the tokens that it has taken. -/
def SoundFor (l : Level) (parse : Tokens → ParseResult) : Prop :=
  ∀ tokens a rest, parse tokens = .ok (a, rest) →
    ∃ taken, tokens = taken ++ rest ∧ Derives l taken a

theorem current_cons (token : Token) (tokens : Tokens) : current (token :: tokens) = token := rfl

theorem current_eq {tokens : Tokens} {type : TokenType} (hne : type ≠ .EOF)
    (h : (current tokens).type = type) :
    ∃ token rest, tokens = token :: rest ∧ token.type = type := by
  cases tokens with
  | nil => exact absurd h.symm hne
  | cons token rest => exact ⟨token, rest, rfl, h⟩

theorem expect_eq_ok {type : TokenType} {tokens rest : Tokens} {token : Token}
    (htype : type ≠ .EOF) :
    expect type tokens = .ok (token, rest) ↔ tokens = token :: rest ∧ token.type = type := by
  rw [expect]
  constructor
  · intro h
    split at h
    · cases h
    · rename_i hcurrent
      rw [ne_eq, not_not] at hcurrent
      cases h
      obtain ⟨token, rest, rfl, hcurrent⟩ := current_eq htype hcurrent
      exact ⟨rfl, hcurrent⟩
  · rintro ⟨rfl, rfl⟩
    exact if_neg (not_not.mpr rfl)
section sound

variable {l m : Level} {parse : Tokens → ParseResult}

theorem soundFor_chainLoop (hm : l.operand = some m) (hoperand : SoundFor m parse) {fuel : ℕ}
    {left a : ASTNode} {taken tokens rest : Tokens} (hleft : Derives l taken left)
    (h : chainLoop l.operator parse fuel left tokens = .ok (a, rest)) :
    ∃ more, tokens = more ++ rest ∧ Derives l (taken ++ more) a := by
  induction fuel generalizing left taken tokens with
  | zero =>
    cases h
    exact ⟨[], rfl, by rwa [List.append_nil]⟩
  | succ fuel ih =>
    rw [chainLoop] at h
    split at h
    · cases h
      exact ⟨[], rfl, by rwa [List.append_nil]⟩
    · rename_i op hop
      obtain ⟨token, tokens, rfl, htype⟩ := current_eq (type_ne_eof_of_operator hop) rfl
      obtain ⟨⟨right, after⟩, hright, hloop⟩ := bind_eq_ok.mp h
      obtain ⟨operand, htokens, hderives⟩ := hoperand _ _ _ hright
      obtain ⟨more, rfl, hmore⟩ := ih (.binary hm hop hleft hderives) hloop
      refine ⟨token :: (operand ++ more), ?_, ?_⟩
      · rw [List.cons_append, List.append_assoc]
        exact congrArg _ htokens
      · rwa [List.append_assoc] at hmore

theorem soundFor_chain (hm : l.operand = some m) (hoperand : SoundFor m parse) :
    SoundFor l (chain l.operator parse) := by
  intro tokens a rest h
  obtain ⟨⟨left, after⟩, hleft, hloop⟩ := bind_eq_ok.mp h
  obtain ⟨taken, rfl, hderives⟩ := hoperand _ _ _ hleft
  obtain ⟨more, rfl, hmore⟩ := soundFor_chainLoop hm hoperand (.operand hm hderives) hloop
  exact ⟨taken ++ more, (List.append_assoc _ _ _).symm, hmore⟩

theorem soundFor_unary (hprimary : SoundFor .primary (parsePrimary parse)) :
    SoundFor .unary (parseUnaryExpr parse) := by
  intro tokens
  induction tokens with
  | nil =>
    intro a rest h
    obtain ⟨taken, htaken, hderives⟩ := hprimary [] a rest h
    exact ⟨taken, htaken, .primary hderives⟩
  | cons token tokens ih =>
    intro a rest h
    rw [parseUnaryExpr] at h
    split at h
    · rename_i hnot
      obtain ⟨⟨operand, after⟩, hoperand, h⟩ := bind_eq_ok.mp h
      cases h
      obtain ⟨taken, rfl, hderives⟩ := ih _ _ hoperand
      exact ⟨token :: taken, rfl, .not hnot hderives⟩
    · obtain ⟨taken, htaken, hderives⟩ := hprimary _ a rest h
      exact ⟨taken, htaken, .primary hderives⟩

theorem dotNames_of_parsePath {tokens rest : Tokens} {path : List JsString}
    (h : parsePath tokens = .ok (path, rest)) :
    ∃ taken, tokens = taken ++ rest ∧ DotNames taken path := by
  induction tokens using parsePath.induct generalizing path rest with
  | case1 dot name tokens hdot ih =>
    rw [parsePath, if_pos hdot] at h
    obtain ⟨⟨_, _⟩, hname, h⟩ := bind_eq_ok.mp h
    obtain ⟨⟨more, after⟩, hmore, h⟩ := bind_eq_ok.mp h
    cases h
    obtain ⟨taken, rfl, hnames⟩ := ih hmore
    have htype := (expect_eq_ok (by decide)).mp hname
    rw [List.cons.injEq] at htype
    exact ⟨dot :: name :: taken, rfl, .cons hdot (htype.1.1 ▸ htype.2) hnames⟩
  | case2 dot name tokens hdot =>
    rw [parsePath, if_neg hdot] at h
    cases h
    exact ⟨[], rfl, .nil⟩
  | case3 dot hdot =>
    rw [parsePath, if_pos hdot] at h
    cases h
  | case4 dot hdot =>
    rw [parsePath, if_neg hdot] at h
    cases h
    exact ⟨[], rfl, .nil⟩
  | case5 =>
    cases h
    exact ⟨[], rfl, .nil⟩

theorem derivesArguments_of_parseArguments (hparse : SoundFor .or parse) {fuel : ℕ}
    {first : ASTNode} {taken tokens rest : Tokens} {args : List ASTNode}
    (hfirst : Derives .or taken first) (h : parseArguments parse fuel tokens = .ok (args, rest)) :
    ∃ more, tokens = more ++ rest ∧ DerivesArguments (taken ++ more) (first :: args) := by
  induction fuel generalizing first taken tokens args with
  | zero =>
    cases h
    exact ⟨[], rfl, by rw [List.append_nil]; exact .one hfirst⟩
  | succ fuel ih =>
    rw [parseArguments] at h
    split at h
    · rename_i hcomma
      obtain ⟨token, tokens, rfl, hcomma⟩ := current_eq (by decide) hcomma
      obtain ⟨⟨arg, after⟩, harg, h⟩ := bind_eq_ok.mp h
      obtain ⟨⟨others, _⟩, hothers, h⟩ := bind_eq_ok.mp h
      cases h
      obtain ⟨operand, htokens, hderives⟩ := hparse _ _ _ harg
      obtain ⟨more, rfl, hmore⟩ := ih hderives hothers
      refine ⟨token :: (operand ++ more), ?_, .cons hfirst hcomma hmore⟩
      rw [List.cons_append, List.append_assoc]
      exact congrArg _ htokens
    · cases h
      exact ⟨[], rfl, by rw [List.append_nil]; exact .one hfirst⟩

theorem soundFor_parseIdentifierOrCall (hparse : SoundFor .or parse) :
    SoundFor .primary (parseIdentifierOrCall parse) := by
  intro tokens a rest h
  obtain ⟨⟨name, behind⟩, hname, hnext⟩ := bind_eq_ok.mp h
  obtain ⟨⟨path, tail⟩, hpath, hbody⟩ := bind_eq_ok.mp hnext
  obtain ⟨rfl, htype⟩ := (expect_eq_ok (by decide)).mp hname
  obtain ⟨names, rfl, hnames⟩ := dotNames_of_parsePath hpath
  have hidentifier := Identifier.mk htype hnames
  dsimp only at hbody
  split at hbody
  · rename_i hleft
    obtain ⟨left, inner, rfl, hopen⟩ := current_eq (by decide) hleft
    split at hbody
    · obtain ⟨⟨arg, after⟩, harg, hothers⟩ := bind_eq_ok.mp hbody
      obtain ⟨⟨args, after'⟩, hargs, hclose⟩ := bind_eq_ok.mp hothers
      obtain ⟨⟨right, after''⟩, hexpect, hcall⟩ := bind_eq_ok.mp hclose
      cases hcall
      obtain ⟨rfl, hright⟩ := (expect_eq_ok (by decide)).mp hexpect
      obtain ⟨taken, htaken, hderives⟩ := hparse _ _ _ harg
      obtain ⟨more, rfl, hmore⟩ := derivesArguments_of_parseArguments hparse hderives hargs
      refine ⟨_, ?_, .call hidentifier hopen hmore hright⟩
      rw [show inner = taken ++ (more ++ right :: after'') from htaken]
      simp
    · rename_i hright
      rw [ne_eq, not_not, List.tail_cons] at hright
      obtain ⟨right, inner, rfl, hclosing⟩ := current_eq (by decide) hright
      cases hbody
      refine ⟨_, ?_, .callEmpty hidentifier hopen hclosing⟩
      simp
  · cases hbody
    exact ⟨name :: names, rfl, .identifier hidentifier⟩

theorem parsePrimary_of_literalOf {tokens : Tokens} {value : LiteralValue}
    (h : literalOf (current tokens) = some value) :
    parsePrimary parse tokens = .ok (.literal value, tokens.tail) := by
  rw [literalOf] at h
  rw [parsePrimary]
  cases htype : (current tokens).type <;> rw [htype] at h <;> cases h <;> rfl

theorem exists_cons_of_literalOf {tokens : Tokens} {value : LiteralValue}
    (h : literalOf (current tokens) = some value) : ∃ token rest, tokens = token :: rest := by
  cases tokens with
  | nil => cases h
  | cons token rest => exact ⟨token, rest, rfl⟩

theorem soundFor_primary (hparse : SoundFor .or parse) :
    SoundFor .primary (parsePrimary parse) := by
  intro tokens a rest h
  cases hliteral : literalOf (current tokens) with
  | some value =>
    rw [parsePrimary_of_literalOf hliteral] at h
    cases h
    obtain ⟨token, tokens, rfl⟩ := exists_cons_of_literalOf hliteral
    exact ⟨[token], rfl, .literal hliteral⟩
  | none =>
    rw [literalOf] at hliteral
    rw [parsePrimary] at h
    cases htype : (current tokens).type <;> rw [htype] at h hliteral
    case LPAREN =>
      obtain ⟨⟨expr, after⟩, hexpr, hclose⟩ := bind_eq_ok.mp h
      obtain ⟨⟨right, behind⟩, hexpect, hbody⟩ := bind_eq_ok.mp hclose
      cases hbody
      obtain ⟨left, inner, rfl, hleft⟩ := current_eq (by decide) htype
      obtain ⟨rfl, hright⟩ := (expect_eq_ok (by decide)).mp hexpect
      obtain ⟨taken, htaken, hderives⟩ := hparse _ _ _ hexpr
      refine ⟨_, ?_, .parentheses hleft hderives hright⟩
      rw [show inner = taken ++ right :: _ from htaken]
      simp
    case IDENTIFIER => exact soundFor_parseIdentifierOrCall hparse _ _ _ h
    all_goals first
      | cases hliteral; done
      | cases h

/-- Every procedure is sound if the one of nested expressions is. -/
theorem soundFor_parseLevel (hparse : SoundFor .or parse) (l : Level) :
    SoundFor l (parseLevel parse l) := by
  have hunary : SoundFor .unary (parseUnaryExpr parse) := soundFor_unary (soundFor_primary hparse)
  have hrelational := soundFor_chain (l := .relational) rfl hunary
  have hequality := soundFor_chain (l := .equality) rfl hrelational
  have hand := soundFor_chain (l := .and) rfl hequality
  cases l with
  | or => exact soundFor_chain rfl hand
  | and => exact hand
  | equality => exact hequality
  | relational => exact hrelational
  | unary => exact hunary
  | primary => exact soundFor_primary hparse

theorem soundFor_parseOrExpr (depth : ℕ) : SoundFor .or (parseOrExpr depth) := by
  induction depth with
  | zero =>
    intro tokens a rest h
    cases h
  | succ depth ih => exact soundFor_parseLevel ih .or

end sound

/-- Every expression takes a token. -/
theorem SoundFor.consumes {l : Level} {parse : Tokens → ParseResult} (hparse : SoundFor l parse)
    {tokens rest : Tokens} {a : ASTNode}
    (h : parse tokens = .ok (a, rest)) : rest.length < tokens.length := by
  obtain ⟨taken, rfl, hderives⟩ := hparse _ _ _ h
  obtain ⟨token, taken, rfl, -⟩ := hderives.head
  simp

end Attestia.Registrum
