import Attestia.Registrum.Predicate.Lexer
import Attestia.Registrum.Predicate.Termination

/-!
# The predicate parser and its grammar

Every derivation is found. A procedure is followed over the tokens of a derivation and whatever
stands behind them; what stands there must not be what a tighter level would go on with.
-/

namespace Attestia.Registrum

open Lib

section completeness

variable {parse : Tokens → ParseResult}

/-- How tightly the operators of a level bind. -/
def Level.rank : Level → ℕ
  | or => 0
  | and => 1
  | equality => 2
  | relational => 3
  | unary => 4
  | primary => 5

/-- The tokens behind an expression of a level, where no tighter level goes on. -/
structure Level.Ends (l : Level) (tokens : Tokens) : Prop where
  operators : ∀ m : Level, l.rank < m.rank → m.operator (current tokens).type = none
  dot : (current tokens).type ≠ .DOT
  call : (current tokens).type ≠ .LPAREN

theorem Level.rank_lt_of_operand {l m : Level} (h : l.operand = some m) : l.rank < m.rank := by
  cases l <;> cases h <;> decide

theorem Level.Ends.of_le {l m : Level} {tokens : Tokens} (h : l.Ends tokens)
    (hle : l.rank ≤ m.rank) : m.Ends tokens :=
  ⟨fun m' hlt => h.operators m' (Nat.lt_of_le_of_lt hle hlt), h.dot, h.call⟩

theorem Level.ends_of_operator {l : Level} {token : Token} {op : BinaryOperator}
    (h : l.operator token.type = some op) (tokens : Tokens) : l.Ends (token :: tokens) := by
  have hcurrent : current (token :: tokens) = token := rfl
  refine ⟨fun m hlt => ?_, ?_, ?_⟩ <;> rw [hcurrent]
  · cases l <;> cases htype : token.type <;> rw [htype] at h <;> cases h <;> cases m <;>
      first | rfl | exact absurd hlt (by decide)
  all_goals
    intro htype
    rw [htype] at h
    cases l <;> cases h

theorem Level.ends_of_type {l : Level} {tokens : Tokens} {type : TokenType}
    (hclose : type = .RPAREN ∨ type = .COMMA ∨ type = .EOF) (h : (current tokens).type = type) :
    l.Ends tokens := by
  obtain rfl | rfl | rfl := hclose
  all_goals exact ⟨fun m _ => by rw [h]; cases m <;> rfl, by rw [h]; decide, by rw [h]; decide⟩

/-- The rest of a procedure that has parsed the first operand of its level. -/
def continueAt (parse : Tokens → ParseResult) (l : Level) (a : ASTNode) (tokens : Tokens) :
    ParseResult :=
  match l.operand with
  | none => .ok (a, tokens)
  | some m => chainLoop l.operator (parseLevel parse m) tokens.length a tokens

theorem continueAt_of_none {l : Level} {tokens : Tokens}
    (h : l.operator (current tokens).type = none) (a : ASTNode) :
    continueAt parse l a tokens = .ok (a, tokens) := by
  rw [continueAt]
  split
  · rfl
  · exact chainLoop_of_none h _ _

theorem continueAt_of_ends {l m : Level} (hm : l.operand = some m) {tokens : Tokens}
    (h : l.Ends tokens) (a : ASTNode) : continueAt parse m a tokens = .ok (a, tokens) :=
  continueAt_of_none (h.operators m (Level.rank_lt_of_operand hm)) a

/-- Where the procedure of a level returns the tree of a derivation and goes on. -/
def CompleteAt (parse : Tokens → ParseResult) (l : Level) (tokens : Tokens) (a : ASTNode) : Prop :=
  ∀ rest : Tokens, l.Ends rest → parseLevel parse l (tokens ++ rest) = continueAt parse l a rest

theorem CompleteAt.operand {l m : Level} (hm : l.operand = some m) {tokens : Tokens} {a : ASTNode}
    (h : CompleteAt parse m tokens a) : CompleteAt parse l tokens a := by
  intro rest hends
  rw [parseLevel_eq_chain parse hm, chain,
    h rest (hends.of_le (Nat.le_of_lt (Level.rank_lt_of_operand hm))), continueAt_of_ends hm hends,
    continueAt, hm]
  rfl

theorem CompleteAt.binary (hparse : SoundFor .or parse) {l m : Level} (hm : l.operand = some m)
    {left right : Tokens} {token : Token} {op : BinaryOperator} {a b : ASTNode}
    (hop : l.operator token.type = some op) (hleft : CompleteAt parse l left a)
    (hright : CompleteAt parse m right b) :
    CompleteAt parse l (left ++ token :: right) (.binary op a b) := by
  intro rest hends
  have hrest : parseLevel parse m (right ++ rest) = .ok (b, rest) := by
    rw [hright rest (hends.of_le (Nat.le_of_lt (Level.rank_lt_of_operand hm))),
      continueAt_of_ends hm hends]
  rw [List.append_assoc, List.cons_append, hleft _ (Level.ends_of_operator hop _), continueAt,
    continueAt, hm]
  show chainLoop _ _ ((right ++ rest).length + 1) a _ = _
  rw [chainLoop, current_cons, hop]
  show (parseLevel parse m (right ++ rest) >>= _) = _
  rw [hrest]
  -- The loop goes on behind the right operand, with more rounds than it needs.
  apply chainLoop_fuel (soundFor_parseLevel hparse m) _ (Nat.le_refl _)
  simp

theorem CompleteAt.not {token : Token} {tokens : Tokens} {a : ASTNode} (hnot : token.type = .NOT)
    (h : CompleteAt parse .unary tokens a) :
    CompleteAt parse .unary (token :: tokens) (.unary .not a) := by
  intro rest hends
  show parseUnaryExpr parse (token :: (tokens ++ rest)) = _
  rw [parseUnaryExpr, if_pos hnot]
  exact bind_eq_ok.mpr ⟨(a, rest), h rest hends, rfl⟩

theorem CompleteAt.primary {tokens : Tokens} {a : ASTNode}
    (h : CompleteAt parse .primary tokens a) : CompleteAt parse .unary tokens a := by
  intro rest hends
  have hprimary : parsePrimary parse (tokens ++ rest) = .ok (a, rest) :=
    h rest (hends.of_le (by decide))
  show parseUnaryExpr parse (tokens ++ rest) = .ok (a, rest)
  cases htokens : tokens ++ rest with
  | nil => rwa [htokens] at hprimary
  | cons token more =>
    rw [parseUnaryExpr]
    split
    · rename_i hnot
      rw [htokens, parsePrimary, current_cons, hnot] at hprimary
      cases hprimary
    · rwa [htokens] at hprimary

theorem parsePath_complete {tokens rest : Tokens} {path : List JsString} (h : DotNames tokens path)
    (hrest : (current rest).type ≠ .DOT) : parsePath (tokens ++ rest) = .ok (path, rest) := by
  induction h with
  | nil =>
    show parsePath rest = _
    match rest, hrest with
    | [], _ => rfl
    | [_], hrest => exact if_neg hrest
    | _ :: _ :: _, hrest => exact if_neg hrest
  | @cons dot name tokens path hdot hname _ ih =>
    show parsePath (dot :: name :: (tokens ++ rest)) = _
    rw [parsePath, if_pos hdot]
    exact bind_eq_ok.mpr ⟨(name, tokens ++ rest), (expect_eq_ok (by decide)).mpr ⟨rfl, hname⟩,
      bind_eq_ok.mpr ⟨(path, rest), ih, rfl⟩⟩

theorem CompleteAt.literal {token : Token} {value : LiteralValue}
    (h : literalOf token = some value) : CompleteAt parse .primary [token] (.literal value) :=
  fun rest _ => show parsePrimary parse (token :: rest) = _ from parsePrimary_of_literalOf h

/-- What the procedure of a name does behind its path. -/
theorem parsePrimary_identifier {tokens rest : Tokens} {path : List JsString}
    (h : Identifier tokens path) (hrest : (current rest).type ≠ .DOT) :
    parsePrimary parse (tokens ++ rest) =
      if (current rest).type = .LPAREN then
        if (current rest.tail).type ≠ .RPAREN then do
          let (arg, tokens) ← parse rest.tail
          let (args, tokens) ← parseArguments parse tokens.length tokens
          let (_, tokens) ← expect .RPAREN tokens
          return (.call (joinPath path) (arg :: args), tokens)
        else
          return (.call (joinPath path) [], rest.tail.tail)
      else
        return (.identifier path, rest) := by
  obtain @⟨name, tokens, path, hname, hnames⟩ := h
  show parsePrimary parse (name :: (tokens ++ rest)) = _
  rw [parsePrimary, current_cons, hname]
  show parseIdentifierOrCall parse (name :: (tokens ++ rest)) = _
  rw [parseIdentifierOrCall,
    (expect_eq_ok (by decide)).mpr ⟨rfl, hname⟩]
  show (parsePath (tokens ++ rest) >>= _) = _
  rw [parsePath_complete hnames hrest]
  rfl

theorem CompleteAt.identifier {tokens : Tokens} {path : List JsString}
    (h : Identifier tokens path) : CompleteAt parse .primary tokens (.identifier path) := by
  intro rest hends
  show parsePrimary parse (tokens ++ rest) = _
  rw [parsePrimary_identifier h hends.dot, if_neg hends.call]
  rfl

theorem CompleteAt.callEmpty {tokens : Tokens} {path : List JsString} {left right : Token}
    (h : Identifier tokens path) (hleft : left.type = .LPAREN) (hright : right.type = .RPAREN) :
    CompleteAt parse .primary (tokens ++ [left, right]) (.call (joinPath path) []) := by
  intro rest _
  rw [List.append_assoc]
  show parsePrimary parse (tokens ++ left :: right :: rest) = _
  rw [parsePrimary_identifier h (by rw [current_cons, hleft]; decide), current_cons, if_pos hleft,
    List.tail_cons, current_cons, if_neg (not_not.mpr hright)]
  rfl

/-- Where the loop over the arguments of a call returns the trees of a derivation. -/
def ArgumentsComplete (parse : Tokens → ParseResult) (tokens : Tokens) (args : List ASTNode) :
    Prop :=
  ∀ rest : Tokens, (current rest).type = .RPAREN → ∃ arg others behind, args = arg :: others ∧
    parse (tokens ++ rest) = .ok (arg, behind) ∧
    parseArguments parse behind.length behind = .ok (others, rest)

theorem CompleteAt.call {tokens args : Tokens} {path : List JsString} {left right : Token}
    {as : List ASTNode} (h : Identifier tokens path) (hleft : left.type = .LPAREN)
    (hargs : ArgumentsComplete parse args as)
    (hfirst : ∃ token rest, args = token :: rest ∧ token.type ≠ .RPAREN)
    (hright : right.type = .RPAREN) :
    CompleteAt parse .primary (tokens ++ left :: (args ++ [right])) (.call (joinPath path) as) := by
  intro rest _
  obtain ⟨arg, others, behind, rfl, hparse, hothers⟩ := hargs (right :: rest) hright
  rw [List.append_assoc, List.cons_append, List.append_assoc]
  show parsePrimary parse (tokens ++ left :: (args ++ right :: rest)) = _
  obtain ⟨token, args, rfl, htoken⟩ := hfirst
  rw [parsePrimary_identifier h (by rw [current_cons, hleft]; decide), current_cons, if_pos hleft,
    List.tail_cons, List.cons_append, current_cons, if_pos htoken]
  exact bind_eq_ok.mpr ⟨(arg, behind), hparse, bind_eq_ok.mpr ⟨(others, right :: rest), hothers,
    bind_eq_ok.mpr ⟨(right, rest), (expect_eq_ok (by decide)).mpr ⟨rfl, hright⟩, rfl⟩⟩⟩

theorem CompleteAt.parseOr (heq : parse = parseLevel parse .or) {tokens rest : Tokens} {a : ASTNode}
    (h : CompleteAt parse .or tokens a) {type : TokenType}
    (hclose : type = .RPAREN ∨ type = .COMMA ∨ type = .EOF) (hrest : (current rest).type = type) :
    parse (tokens ++ rest) = .ok (a, rest) := by
  rw [heq, h rest (Level.ends_of_type hclose hrest)]
  apply continueAt_of_none
  rw [hrest]
  obtain rfl | rfl | rfl := hclose <;> rfl

theorem CompleteAt.parentheses (heq : parse = parseLevel parse .or) {left right : Token}
    {tokens : Tokens} {a : ASTNode} (hleft : left.type = .LPAREN)
    (h : CompleteAt parse .or tokens a) (hright : right.type = .RPAREN) :
    CompleteAt parse .primary (left :: (tokens ++ [right])) a := by
  intro rest _
  rw [List.cons_append, List.append_assoc]
  show parsePrimary parse (left :: (tokens ++ right :: rest)) = _
  rw [parsePrimary, current_cons, hleft]
  exact bind_eq_ok.mpr ⟨(a, right :: rest), h.parseOr heq (.inl rfl) hright,
    bind_eq_ok.mpr ⟨(right, rest), (expect_eq_ok (by decide)).mpr ⟨rfl, hright⟩, rfl⟩⟩

theorem ArgumentsComplete.one (heq : parse = parseLevel parse .or) {tokens : Tokens} {a : ASTNode}
    (h : CompleteAt parse .or tokens a) : ArgumentsComplete parse tokens [a] := by
  intro rest hrest
  exact ⟨a, [], rest, rfl, h.parseOr heq (.inl rfl) hrest,
    parseArguments_of_ne (by rw [hrest]; decide) _⟩

theorem ArgumentsComplete.cons (hparse : SoundFor .or parse) (heq : parse = parseLevel parse .or)
    {tokens more : Tokens} {comma : Token} {a : ASTNode} {as : List ASTNode}
    (h : CompleteAt parse .or tokens a) (hcomma : comma.type = .COMMA)
    (hmore : ArgumentsComplete parse more as) :
    ArgumentsComplete parse (tokens ++ comma :: more) (a :: as) := by
  intro rest hrest
  obtain ⟨arg, others, behind, rfl, harg, hothers⟩ := hmore rest hrest
  refine ⟨a, arg :: others, comma :: (more ++ rest), rfl, ?_, ?_⟩
  · rw [List.append_assoc]
    exact h.parseOr heq (.inr (.inl rfl)) hcomma
  · show parseArguments parse ((more ++ rest).length + 1) _ = _
    rw [parseArguments, current_cons, if_pos hcomma]
    have hbehind := hparse.consumes harg
    refine bind_eq_ok.mpr ⟨(arg, behind), harg, bind_eq_ok.mpr ⟨(others, rest), ?_, rfl⟩⟩
    rw [← hothers]
    exact parseArguments_fuel hparse (Nat.le_of_lt hbehind) (Nat.le_refl _)

mutual

/-- Every derivation is found, wherever no operator, dot or parenthesis behind it goes on. -/
theorem Derives.complete (hparse : SoundFor .or parse) (heq : parse = parseLevel parse .or)
    {l : Level} {tokens : Tokens} {a : ASTNode} : Derives l tokens a → CompleteAt parse l tokens a
  | .operand hm h => (h.complete hparse heq).operand hm
  | .binary hm hop hleft hright =>
    .binary hparse hm hop (hleft.complete hparse heq) (hright.complete hparse heq)
  | .not hnot h => (h.complete hparse heq).not hnot
  | .primary h => (h.complete hparse heq).primary
  | .literal h => .literal h
  | .identifier h => .identifier h
  | .call h hleft hargs hright =>
    .call h hleft (hargs.complete hparse heq) hargs.head hright
  | .callEmpty h hleft hright => .callEmpty h hleft hright
  | .parentheses hleft h hright => .parentheses heq hleft (h.complete hparse heq) hright

theorem DerivesArguments.complete (hparse : SoundFor .or parse) (heq : parse = parseLevel parse .or)
    {tokens : Tokens} {args : List ASTNode} :
    DerivesArguments tokens args → ArgumentsComplete parse tokens args
  | .one h => .one heq (h.complete hparse heq)
  | .cons h hcomma hrest =>
    .cons hparse heq (h.complete hparse heq) hcomma (hrest.complete hparse heq)

end

end completeness

/-! ## The parser and the grammar -/

theorem append_end_inj {taken rest body : Tokens} {eof : Token} (heof : eof.type = .EOF)
    (htaken : ∀ token ∈ taken, token.type ≠ .EOF) (hbody : ∀ token ∈ body, token.type ≠ .EOF)
    (hrest : (current rest).type = .EOF) (h : body ++ [eof] = taken ++ rest) : taken = body := by
  induction taken generalizing body with
  | nil =>
    cases body with
    | nil => rfl
    | cons token body =>
      obtain rfl : token :: (body ++ [eof]) = rest := h
      exact absurd hrest (hbody token List.mem_cons_self)
  | cons token taken ih =>
    rw [List.forall_mem_cons] at htaken
    cases body with
    | nil =>
      obtain rfl : eof = token := (List.cons.inj h).1
      exact absurd heof htaken.1
    | cons token' body =>
      rw [List.forall_mem_cons] at hbody
      obtain ⟨rfl, htail⟩ := List.cons.inj h
      rw [ih htaken.2 hbody.2 htail]

/-- The trees of the tokens before the end of the input. -/
theorem parseTokens_iff {body : Tokens} {eof : Token} (heof : eof.type = .EOF)
    (hbody : ∀ token ∈ body, token.type ≠ .EOF) {ast : ASTNode} :
    parseTokens (body ++ [eof]) = .ok ast ↔ Derives .or body ast := by
  constructor
  · intro h
    obtain ⟨⟨a, rest⟩, hparse, hend⟩ := bind_eq_ok.mp h
    obtain ⟨taken, htokens, hderives⟩ := soundFor_parseOrExpr _ _ _ _ hparse
    dsimp only at hend
    split at hend
    · cases hend
    · rename_i hrest
      cases hend
      rwa [← append_end_inj heof hderives.type_ne_eof hbody (not_not.mp hrest) htokens]
  · intro h
    have hparse : parseExpression (body ++ [eof]) = .ok (ast, [eof]) :=
      (h.complete soundFor_parseExpression parseExpression_eq).parseOr parseExpression_eq
        (.inr (.inr rfl)) heof
    refine bind_eq_ok.mpr ⟨(ast, [eof]), hparse, ?_⟩
    show (if (current [eof]).type ≠ .EOF then _ else _) = _
    exact if_neg (not_not.mpr heof)

/-- The grammar: on every input the lexer and the parser end, no round of a loop and no nesting
being cut off, and the parser returns an expression exactly where the tokens before the end derive
from the grammar, with the tree of the derivation. -/
theorem parser_conforms (input : JsString) :
    (∀ fuel, input.length ≤ fuel → tokenizeLoop input.length fuel input = tokenize input) ∧
      (∀ tokens depth, tokens.length < depth →
        parseOrExpr depth tokens = parseOrExpr (tokens.length + 1) tokens ∧
        (∀ (l m : Level) (left : ASTNode) (rest : Tokens) (fuel : ℕ), l.operand = some m →
          rest.length ≤ fuel →
          chainLoop l.operator (parseLevel (parseOrExpr depth) m) fuel left rest =
            chainLoop l.operator (parseLevel (parseOrExpr depth) m) rest.length left rest) ∧
        ∀ (rest : Tokens) (fuel : ℕ), rest.length ≤ fuel →
          parseArguments (parseOrExpr depth) fuel rest =
            parseArguments (parseOrExpr depth) rest.length rest) ∧
      ∀ tokens, tokenize input = .ok tokens → ∃ body eof, tokens = body ++ [eof] ∧ eof.type = .EOF ∧
        ∀ ast, parseTokens tokens = .ok ast ↔ Derives .or body ast := by
  refine ⟨fun fuel hfuel => tokenizeLoop_fuel hfuel (Nat.le_refl _), ?_, ?_⟩
  · intro tokens depth hdepth
    refine ⟨parseOrExpr_eq hdepth, ?_, ?_⟩
    · intro l m left rest fuel hm hfuel
      have hsound := soundFor_parseLevel (soundFor_parseOrExpr depth) m
      exact chainLoop_fuel hsound hfuel (Nat.le_refl _)
    · intro rest fuel hfuel
      exact parseArguments_fuel (soundFor_parseOrExpr depth) hfuel (Nat.le_refl _)
  · intro tokens htokens
    obtain ⟨body, eof, rfl, heof, hbody⟩ := exists_body_of_tokenizeLoop htokens
    exact ⟨body, eof, rfl, heof, fun ast => parseTokens_iff heof hbody⟩

end Attestia.Registrum
