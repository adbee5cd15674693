import Attestia.Registrum.Predicate.Parser

/-!
# The grammar of predicates

The grammar of `predicate/parser.ts` over the tokens of the lexer, with the tree of each derivation.
An operator binds its operands from the level below it; a loop `operand ( operator operand )*` is a
derivation whose left operand is of the level itself, which makes every operator left-associative.
-/

namespace Attestia.Registrum

open Lib


/-- The nonterminals that stand for an expression. -/
inductive Level where
  | or
  | and
  | equality
  | relational
  | unary
  | primary

namespace Level

/-- The operands of a level of binary operators. -/
def operand : Level → Option Level
  | or => some and
  | and => some equality
  | equality => some relational
  | relational => some unary
  | unary | primary => none

/-- The operators of a level. -/
def operator : Level → TokenType → Option BinaryOperator
  | or => orOperator
  | and => andOperator
  | equality => equalityOperator
  | relational => relationalOperator
  | unary | primary => fun _ => none

end Level

/-- `literal`, and what it stands for. -/
def literalOf (token : Token) : Option LiteralValue :=
  match token.type with
  | .TRUE => some (.boolean true)
  | .FALSE => some (.boolean false)
  | .NULL => some .null
  | .NUMBER => some (.number (parseInteger token.value))
  | .STRING => some (.string token.value)
  | _ => none

/-- `( "." name )*`. -/
inductive DotNames : Tokens → List JsString → Prop
  | nil : DotNames [] []
  | cons {dot name : Token} {tokens : Tokens} {path : List JsString} (hdot : dot.type = .DOT)
      (hname : name.type = .IDENTIFIER) (h : DotNames tokens path) :
      DotNames (dot :: name :: tokens) (name.value :: path)

/-- `identifier`. -/
inductive Identifier : Tokens → List JsString → Prop
  | mk {name : Token} {tokens : Tokens} {path : List JsString} (hname : name.type = .IDENTIFIER)
      (h : DotNames tokens path) : Identifier (name :: tokens) (name.value :: path)

mutual

/-- The tokens that derive from a level, with their tree. -/
inductive Derives : Level → Tokens → ASTNode → Prop
  | operand {l m : Level} {tokens : Tokens} {a : ASTNode} (hm : l.operand = some m)
      (h : Derives m tokens a) : Derives l tokens a
  | binary {l m : Level} {left right : Tokens} {token : Token} {op : BinaryOperator} {a b : ASTNode}
      (hm : l.operand = some m) (hop : l.operator token.type = some op) (hleft : Derives l left a)
      (hright : Derives m right b) : Derives l (left ++ token :: right) (.binary op a b)
  | not {token : Token} {tokens : Tokens} {a : ASTNode} (hnot : token.type = .NOT)
      (h : Derives .unary tokens a) : Derives .unary (token :: tokens) (.unary .not a)
  | primary {tokens : Tokens} {a : ASTNode} (h : Derives .primary tokens a) :
      Derives .unary tokens a
  | literal {token : Token} {value : LiteralValue} (h : literalOf token = some value) :
      Derives .primary [token] (.literal value)
  | identifier {tokens : Tokens} {path : List JsString} (h : Identifier tokens path) :
      Derives .primary tokens (.identifier path)
  | call {tokens args : Tokens} {path : List JsString} {left right : Token} {as : List ASTNode}
      (h : Identifier tokens path) (hleft : left.type = .LPAREN) (hargs : DerivesArguments args as)
      (hright : right.type = .RPAREN) :
      Derives .primary (tokens ++ left :: (args ++ [right])) (.call (joinPath path) as)
  | callEmpty {tokens : Tokens} {path : List JsString} {left right : Token}
      (h : Identifier tokens path) (hleft : left.type = .LPAREN) (hright : right.type = .RPAREN) :
      Derives .primary (tokens ++ [left, right]) (.call (joinPath path) [])
  | parentheses {left right : Token} {tokens : Tokens} {a : ASTNode} (hleft : left.type = .LPAREN)
      (h : Derives .or tokens a) (hright : right.type = .RPAREN) :
      Derives .primary (left :: (tokens ++ [right])) a

/-- `argument_list`. -/
inductive DerivesArguments : Tokens → List ASTNode → Prop
  | one {tokens : Tokens} {a : ASTNode} (h : Derives .or tokens a) : DerivesArguments tokens [a]
  | cons {tokens rest : Tokens} {comma : Token} {a : ASTNode} {as : List ASTNode}
      (h : Derives .or tokens a) (hcomma : comma.type = .COMMA) (hrest : DerivesArguments rest as) :
      DerivesArguments (tokens ++ comma :: rest) (a :: as)

end

/-! ## What a derivation takes -/

theorem type_ne_eof_of_operator {l : Level} {type : TokenType} {op : BinaryOperator}
    (h : l.operator type = some op) : type ≠ .EOF := by
  rintro rfl
  cases l <;> cases h
theorem DotNames.type_ne_eof {tokens : Tokens} {path : List JsString} (h : DotNames tokens path) :
    ∀ token ∈ tokens, token.type ≠ .EOF := by
  induction h with
  | nil => exact fun _ => nofun
  | cons hdot hname _ ih =>
    rw [List.forall_mem_cons, List.forall_mem_cons, hdot, hname]
    exact ⟨by decide, by decide, ih⟩

theorem Identifier.type_ne_eof {tokens : Tokens} {path : List JsString}
    (h : Identifier tokens path) : ∀ token ∈ tokens, token.type ≠ .EOF := by
  obtain ⟨hname, hnames⟩ := h
  rw [List.forall_mem_cons, hname]
  exact ⟨by decide, hnames.type_ne_eof⟩

theorem type_ne_of_literalOf {token : Token} {value : LiteralValue}
    (h : literalOf token = some value) : token.type ≠ .EOF ∧ token.type ≠ .RPAREN := by
  constructor <;> intro htype <;> rw [literalOf, htype] at h <;> cases h

mutual

/-- No expression takes the end of the input. -/
theorem Derives.type_ne_eof {l : Level} {tokens : Tokens} {a : ASTNode} :
    Derives l tokens a → ∀ token ∈ tokens, token.type ≠ .EOF
  | .operand _ h => h.type_ne_eof
  | .binary _ hop hleft hright =>
    List.forall_mem_append.mpr ⟨hleft.type_ne_eof,
      List.forall_mem_cons.mpr ⟨type_ne_eof_of_operator hop, hright.type_ne_eof⟩⟩
  | .not hnot h => List.forall_mem_cons.mpr ⟨hnot ▸ by decide, h.type_ne_eof⟩
  | .primary h => h.type_ne_eof
  | .literal h => List.forall_mem_singleton.mpr (type_ne_of_literalOf h).1
  | .identifier h => h.type_ne_eof
  | .call h hleft hargs hright =>
    List.forall_mem_append.mpr ⟨h.type_ne_eof, List.forall_mem_cons.mpr ⟨hleft ▸ by decide,
      List.forall_mem_append.mpr ⟨hargs.type_ne_eof,
        List.forall_mem_singleton.mpr (hright ▸ by decide)⟩⟩⟩
  | .callEmpty h hleft hright =>
    List.forall_mem_append.mpr ⟨h.type_ne_eof, List.forall_mem_cons.mpr ⟨hleft ▸ by decide,
      List.forall_mem_singleton.mpr (hright ▸ by decide)⟩⟩
  | .parentheses hleft h hright =>
    List.forall_mem_cons.mpr ⟨hleft ▸ by decide,
      List.forall_mem_append.mpr ⟨h.type_ne_eof,
        List.forall_mem_singleton.mpr (hright ▸ by decide)⟩⟩

theorem DerivesArguments.type_ne_eof {tokens : Tokens} {args : List ASTNode} :
    DerivesArguments tokens args → ∀ token ∈ tokens, token.type ≠ .EOF
  | .one h => h.type_ne_eof
  | .cons h hcomma hrest =>
    List.forall_mem_append.mpr ⟨h.type_ne_eof,
      List.forall_mem_cons.mpr ⟨hcomma ▸ by decide, hrest.type_ne_eof⟩⟩

end

/-- The first token of an expression. -/
theorem Derives.head {l : Level} {tokens : Tokens} {a : ASTNode} (h : Derives l tokens a) :
    ∃ token rest, tokens = token :: rest ∧ token.type ≠ .RPAREN := by
  induction h using Derives.rec (motive_2 := fun _ _ _ => True) with
  | operand _ _ ih => exact ih
  | binary _ _ _ _ ihleft _ =>
    obtain ⟨token, rest, rfl, htype⟩ := ihleft
    exact ⟨token, _, rfl, htype⟩
  | not hnot _ _ => exact ⟨_, _, rfl, by rw [hnot]; decide⟩
  | primary _ ih => exact ih
  | literal h => exact ⟨_, [], rfl, (type_ne_of_literalOf h).2⟩
  | identifier h =>
    obtain ⟨hname, _⟩ := h
    exact ⟨_, _, rfl, by rw [hname]; decide⟩
  | call h _ _ _ _ =>
    obtain ⟨hname, _⟩ := h
    exact ⟨_, _, rfl, by rw [hname]; decide⟩
  | callEmpty h _ _ =>
    obtain ⟨hname, _⟩ := h
    exact ⟨_, _, rfl, by rw [hname]; decide⟩
  | parentheses hleft _ _ _ => exact ⟨_, _, rfl, by rw [hleft]; decide⟩
  | one _ _ => trivial
  | cons _ _ _ _ _ => trivial

theorem DerivesArguments.head {tokens : Tokens} {args : List ASTNode}
    (h : DerivesArguments tokens args) :
    ∃ token rest, tokens = token :: rest ∧ token.type ≠ .RPAREN := by
  cases h with
  | one h => exact h.head
  | cons h _ _ =>
    obtain ⟨token, rest, rfl, htype⟩ := h.head
    exact ⟨token, _, rfl, htype⟩
end Attestia.Registrum
