import Attestia.Lib.DecimalText
import Attestia.Lib.JsValue
import Attestia.Lib.JsonValue

/-!
# Predicate expressions

`predicate/parser.ts`: the lexer and the recursive descent of the predicate language. A
nested expression is parsed by the same parser with one level less to go; every level takes
a token, so the number of tokens is enough.
-/

namespace Attestia.Registrum

open Lib JsonNumber DecimalText

inductive BinaryOperator where
  | eq
  | neq
  | gt
  | lt
  | gte
  | lte
  | and
  | or
  deriving DecidableEq

inductive UnaryOperator where
  | not
  deriving DecidableEq

/-- The value of a literal. -/
inductive LiteralValue where
  | boolean (b : Bool)
  | number (x : JsNumber)
  | string (s : JsString)
  | null
  deriving DecidableEq

inductive ASTNode where
  | literal (value : LiteralValue)
  | identifier (path : List JsString)
  | binary (op : BinaryOperator) (left right : ASTNode)
  | unary (op : UnaryOperator) (operand : ASTNode)
  | call (fn : JsString) (args : List ASTNode)

mutual

def ASTNode.beq : ASTNode → ASTNode → Bool
  | .literal v, .literal w => v = w
  | .identifier p, .identifier q => p = q
  | .binary op l r, .binary op' l' r' => op = op' && l.beq l' && r.beq r'
  | .unary op a, .unary op' a' => op = op' && a.beq a'
  | .call fn args, .call fn' args' => fn = fn' && beqArguments args args'
  | _, _ => false

def beqArguments : List ASTNode → List ASTNode → Bool
  | [], [] => true
  | a :: as, b :: bs => a.beq b && beqArguments as bs
  | _, _ => false

end

mutual

theorem ASTNode.beq_iff : ∀ {a b : ASTNode}, a.beq b = true ↔ a = b
  | .literal _, b => by cases b <;> simp [ASTNode.beq]
  | .identifier _, b => by cases b <;> simp [ASTNode.beq]
  | .binary _ l r, b => by cases b <;> simp [ASTNode.beq, l.beq_iff, r.beq_iff, and_assoc]
  | .unary _ a, b => by cases b <;> simp [ASTNode.beq, a.beq_iff]
  | .call _ args, b => by cases b <;> simp [ASTNode.beq, beqArguments_iff]

theorem beqArguments_iff : ∀ {as bs : List ASTNode}, beqArguments as bs = true ↔ as = bs
  | [], bs => by cases bs <;> simp [beqArguments]
  | a :: as, bs => by cases bs <;> simp [beqArguments, a.beq_iff, beqArguments_iff]

end

instance : DecidableEq ASTNode := fun _ _ => decidable_of_iff _ ASTNode.beq_iff

structure ParseError where
  message : JsString
  deriving DecidableEq

/-! ## Tokens -/

inductive TokenType where
  | IDENTIFIER
  | NUMBER
  | STRING
  | TRUE
  | FALSE
  | NULL
  | LPAREN
  | RPAREN
  | COMMA
  | DOT
  | EQ
  | NEQ
  | GT
  | LT
  | GTE
  | LTE
  | AND
  | OR
  | NOT
  | EOF
  deriving DecidableEq

def TokenType.text : TokenType → JsString
  | IDENTIFIER => js "IDENTIFIER"
  | NUMBER => js "NUMBER"
  | STRING => js "STRING"
  | TRUE => js "TRUE"
  | FALSE => js "FALSE"
  | NULL => js "NULL"
  | LPAREN => js "LPAREN"
  | RPAREN => js "RPAREN"
  | COMMA => js "COMMA"
  | DOT => js "DOT"
  | EQ => js "EQ"
  | NEQ => js "NEQ"
  | GT => js "GT"
  | LT => js "LT"
  | GTE => js "GTE"
  | LTE => js "LTE"
  | AND => js "AND"
  | OR => js "OR"
  | NOT => js "NOT"
  | EOF => js "EOF"

structure Token where
  type : TokenType
  value : JsString
  position : ℤ
  deriving DecidableEq

def positionString (position : ℤ) : JsString := JsonValue.numberString (.ofInt position)

def twoCharOperators : List (JsString × TokenType) :=
  [(js "==", .EQ), (js "!=", .NEQ), (js ">=", .GTE), (js "<=", .LTE), (js "&&", .AND),
    (js "||", .OR)]

def oneCharTokens : List (JsString × TokenType) :=
  [(js "(", .LPAREN), (js ")", .RPAREN), (js ",", .COMMA), (js ".", .DOT), (js ">", .GT),
    (js "<", .LT), (js "!", .NOT)]

def keywords : List (JsString × TokenType) :=
  [(js "true", .TRUE), (js "false", .FALSE), (js "null", .NULL)]

def lookupToken (table : List (JsString × TokenType)) (text : JsString) : Option TokenType :=
  (table.find? fun e => e.1 = text).map Prod.snd

def quoteUnit : UInt16 := 34

def backslash : UInt16 := 92

def underscore : UInt16 := 95

def isIdentifierStart (u : UInt16) : Bool :=
  (97 ≤ u.toNat && u.toNat ≤ 122) || (65 ≤ u.toNat && u.toNat ≤ 90) || u = underscore

def isIdentifierPart (u : UInt16) : Bool := isIdentifierStart u || isDigit u

/-- The body of a string literal and what follows its closing quote. -/
def scanString : JsString → Option (JsString × JsString)
  | [] => none
  | [u] => if u = quoteUnit then some ([], []) else none
  | u :: v :: rest =>
    if u = quoteUnit then some ([], v :: rest)
    else if u = backslash then (scanString rest).map fun s => (v :: s.1, s.2)
    else (scanString (v :: rest)).map fun s => (u :: s.1, s.2)

/-- The next token of a text that does not start with a blank, and the rest. -/
def nextToken (start : ℤ) (u : UInt16) (rest : JsString) : Except ParseError (Token × JsString) :=
  let text := u :: rest
  match lookupToken twoCharOperators (text.take 2) with
  | some type => .ok (⟨type, text.take 2, start⟩, text.drop 2)
  | none =>
    match lookupToken oneCharTokens [u] with
    | some type => .ok (⟨type, [u], start⟩, rest)
    | none =>
      if u = quoteUnit then
        match scanString rest with
        | none => .error ⟨js "Unterminated string at position " ++ positionString start⟩
        | some (str, rest) => .ok (⟨.STRING, str, start⟩, rest)
      else if isDigit u then
        .ok (⟨.NUMBER, text.takeWhile isDigit, start⟩, text.dropWhile isDigit)
      else if u = minus ∧ rest.head?.any isDigit then
        .ok (⟨.NUMBER, minus :: rest.takeWhile isDigit, start⟩, rest.dropWhile isDigit)
      else if isIdentifierStart u then
        let ident := text.takeWhile isIdentifierPart
        .ok (⟨(lookupToken keywords ident).getD .IDENTIFIER, ident, start⟩,
          text.dropWhile isIdentifierPart)
      else
        .error ⟨js "Unexpected character '" ++ [u] ++ js "' at position " ++ positionString start⟩

/-- The loop of the lexer; every round takes a character of the input. -/
def tokenizeLoop (total : ℕ) : ℕ → JsString → Except ParseError (List Token)
  | 0, _ => .ok [⟨.EOF, [], total⟩]
  | _ + 1, [] => .ok [⟨.EOF, [], total⟩]
  | fuel + 1, u :: rest =>
    if isBlank u then tokenizeLoop total fuel rest
    else do
      let (token, rest) ← nextToken (total - (rest.length + 1)) u rest
      let tokens ← tokenizeLoop total fuel rest
      return token :: tokens

def tokenize (input : JsString) : Except ParseError (List Token) :=
  tokenizeLoop input.length input.length input

/-! ## The parser -/

abbrev Tokens := List Token

abbrev ParseResult := Except ParseError (ASTNode × Tokens)

def current (tokens : Tokens) : Token := tokens.head?.getD ⟨.EOF, [], -1⟩

def unexpected (token : Token) : ParseError :=
  ⟨js "Unexpected token '" ++ token.value ++ js "' at position " ++ positionString token.position⟩

def expect (type : TokenType) (tokens : Tokens) : Except ParseError (Token × Tokens) :=
  let token := current tokens
  if token.type ≠ type then
    .error ⟨js "Expected " ++ type.text ++ js " but got " ++ token.type.text ++
      js " at position " ++ positionString token.position⟩
  else .ok (token, tokens.tail)

/-- The loop of a level of left-associative operators. -/
def chainLoop (operator : TokenType → Option BinaryOperator) (operand : Tokens → ParseResult) :
    ℕ → ASTNode → Tokens → ParseResult
  | 0, left, tokens => .ok (left, tokens)
  | fuel + 1, left, tokens =>
    match operator (current tokens).type with
    | none => .ok (left, tokens)
    | some op => do
      let (right, tokens) ← operand tokens.tail
      chainLoop operator operand fuel (.binary op left right) tokens

def chain (operator : TokenType → Option BinaryOperator) (operand : Tokens → ParseResult)
    (tokens : Tokens) : ParseResult := do
  let (left, tokens) ← operand tokens
  chainLoop operator operand tokens.length left tokens

/-- `parseInt`. -/
def parseInteger (text : JsString) : JsNumber :=
  if text.head? = some minus then .ofInteger (-(digitsNat text.tail : ℤ))
  else .ofInteger (digitsNat text)

/-- The names behind the first one of an identifier. -/
def parsePath : Tokens → Except ParseError (List JsString × Tokens)
  | dot :: name :: tokens =>
    if dot.type = .DOT then do
      let _ ← expect .IDENTIFIER (name :: tokens)
      let (path, tokens) ← parsePath tokens
      return (name.value :: path, tokens)
    else .ok ([], dot :: name :: tokens)
  | [dot] =>
    if dot.type = .DOT then do
      let _ ← expect .IDENTIFIER []
      return ([], [])
    else .ok ([], [dot])
  | [] => .ok ([], [])

/-- The arguments behind the first one of a call. -/
def parseArguments (parseOrExpr : Tokens → ParseResult) :
    ℕ → Tokens → Except ParseError (List ASTNode × Tokens)
  | 0, tokens => .ok ([], tokens)
  | fuel + 1, tokens =>
    if (current tokens).type = .COMMA then do
      let (arg, tokens) ← parseOrExpr tokens.tail
      let (args, tokens) ← parseArguments parseOrExpr fuel tokens
      return (arg :: args, tokens)
    else .ok ([], tokens)

def joinPath (path : List JsString) : JsString := List.intercalate (js ".") path

def parseIdentifierOrCall (parseOrExpr : Tokens → ParseResult) (tokens : Tokens) : ParseResult := do
  let (first, tokens) ← expect .IDENTIFIER tokens
  let (rest, tokens) ← parsePath tokens
  let path := first.value :: rest
  if (current tokens).type = .LPAREN then
    let tokens := tokens.tail
    if (current tokens).type ≠ .RPAREN then
      let (arg, tokens) ← parseOrExpr tokens
      let (args, tokens) ← parseArguments parseOrExpr tokens.length tokens
      let (_, tokens) ← expect .RPAREN tokens
      return (.call (joinPath path) (arg :: args), tokens)
    else
      return (.call (joinPath path) [], tokens.tail)
  else
    return (.identifier path, tokens)

def parsePrimary (parseOrExpr : Tokens → ParseResult) (tokens : Tokens) : ParseResult :=
  let token := current tokens
  match token.type with
  | .TRUE => .ok (.literal (.boolean true), tokens.tail)
  | .FALSE => .ok (.literal (.boolean false), tokens.tail)
  | .NULL => .ok (.literal .null, tokens.tail)
  | .NUMBER => .ok (.literal (.number (parseInteger token.value)), tokens.tail)
  | .STRING => .ok (.literal (.string token.value), tokens.tail)
  | .LPAREN => do
    let (expr, tokens) ← parseOrExpr tokens.tail
    let (_, tokens) ← expect .RPAREN tokens
    return (expr, tokens)
  | .IDENTIFIER => parseIdentifierOrCall parseOrExpr tokens
  | _ => .error (unexpected token)

def parseUnaryExpr (parseOrExpr : Tokens → ParseResult) : Tokens → ParseResult
  | [] => parsePrimary parseOrExpr []
  | token :: tokens =>
    if token.type = .NOT then do
      let (operand, tokens) ← parseUnaryExpr parseOrExpr tokens
      return (.unary .not operand, tokens)
    else parsePrimary parseOrExpr (token :: tokens)

def relationalOperator : TokenType → Option BinaryOperator
  | .GT => some .gt
  | .LT => some .lt
  | .GTE => some .gte
  | .LTE => some .lte
  | _ => none

def equalityOperator : TokenType → Option BinaryOperator
  | .EQ => some .eq
  | .NEQ => some .neq
  | _ => none

def andOperator : TokenType → Option BinaryOperator
  | .AND => some .and
  | _ => none

def orOperator : TokenType → Option BinaryOperator
  | .OR => some .or
  | _ => none

def parseRelationalExpr (parseOrExpr : Tokens → ParseResult) : Tokens → ParseResult :=
  chain relationalOperator (parseUnaryExpr parseOrExpr)

def parseEqualityExpr (parseOrExpr : Tokens → ParseResult) : Tokens → ParseResult :=
  chain equalityOperator (parseRelationalExpr parseOrExpr)

def parseAndExpr (parseOrExpr : Tokens → ParseResult) : Tokens → ParseResult :=
  chain andOperator (parseEqualityExpr parseOrExpr)

/-- An expression of at most the given nesting. -/
def parseOrExpr : ℕ → Tokens → ParseResult
  | 0, tokens => .error (unexpected (current tokens))
  | depth + 1, tokens => chain orOperator (parseAndExpr (parseOrExpr depth)) tokens

def parseTokens (tokens : Tokens) : Except ParseError ASTNode := do
  let (ast, rest) ← parseOrExpr (tokens.length + 1) tokens
  if (current rest).type ≠ .EOF then
    throw (unexpected (current rest))
  return ast

def parsePredicate (expression : JsString) : Except ParseError ASTNode := do
  let tokens ← tokenize expression
  parseTokens tokens

end Attestia.Registrum
