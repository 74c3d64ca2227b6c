import FrontEnd.Grammar.Choice
import FrontEnd.Grammar.Separated
import FrontEnd.Grammar.Terminal
import FrontEnd.Syntax.Expr

/-!
# Reading operands

An operand is an expression without infix operators at its top: a prefix operator with its operand,
a literal, a tuple, a block, a conditional or a loop, and after it any calls and member accesses.

Productions are written over the parsers they need: `inner` for a nested operand, `operation` for a
nested expression with infix operators. `operandAt` ties the knot: a nested expression comes after a
token of the one around it, so it is never nested deeper than there are tokens.

* `Grammar.OperatorLayer` makes the parser of expressions with infix operators from the parser of
  their operands.
* `Grammar.operand` reads an operand.
-/

namespace FrontEnd.Grammar

open FrontEnd.Parser

/-- A node for what lies between the start of `start` and the last token passed. -/
def nodeFrom (start : Span) (node : Site → Expr) : Parser Expr := do
  let span ← spanSince start
  pure (node (Site.ofSpan span))

/-- The prefix operator that a token is. -/
def unaryOp? (t : Token) : Option UnaryOp :=
  if t.kind = .symbol then UnaryOp.ofSymbol? t.text else none

/-- A prefix operator and its operand. -/
def unary (inner : Parser Expr) : Parser Expr :=
  withCursor fun c =>
    match c.peek?.bind unaryOp? with
    | none => fail (.ofKind .invalidOperator "expected prefix operator" c.nextSpan)
    | some op => do
      let _ ← read
      let e ← inner
      nodeFrom c.nextSpan (.unary · op e)

/-- The unit value. -/
def unitAtom : Parser Expr := do
  let start ← nextSpan
  let _ ← require .symbol "("
  let _ ← require .symbol ")"
  nodeFrom start (.atom · .unit)

/-- Expressions in parentheses, separated by commas. -/
def parenthesized (operation : Parser Expr) : Parser (List Expr) :=
  enclosed (sepBy operation .symbol ",") (.symbols "(" ")")

/-- A tuple. -/
def tuple (operation : Parser Expr) : Parser Expr :=
  withCursor fun c =>
    if c.nextIs .symbol "(" then do
      let elements ← (parenthesized operation).within "a tuple"
      nodeFrom c.nextSpan (.tuple · elements)
    else fail (.expectedToken "(" c.peek? c.nextSpan)

/-- The statements of a block, each with an optional semicolon, through the closing brace. -/
def statements (inner : Parser Expr) : Nat → Parser (List Expr)
  | 0 => pure []
  | fuel + 1 => do
    if ← accept .symbol "\x7d" then
      pure []
    else
      withCursor fun c =>
        if c.atEnd then
          fail ((ParseError.expectedToken "\x7d" none c.nextSpan).within "a block")
        else do
          let e ← inner.within "a block"
          let _ ← accept .symbol ";"
          let es ← statements inner fuel
          pure (e :: es)

/-- A block. -/
def block (inner : Parser Expr) : Parser Expr := do
  let start ← nextSpan
  let _ ← require .symbol "\x7b"
  let es ← withFuel (statements inner)
  nodeFrom start (.block · es)

/-- The arms of a conditional, from after the first `if`. -/
def arms (inner : Parser Expr) : Nat → Parser (List Branch)
  | 0 => pure []
  | fuel + 1 => do
    let condition ← inner.within "an if condition"
    let _ ← accept .keyword "then"
    let body ← inner.within "an if branch"
    if ← accept .keyword "else" then
      if ← accept .keyword "if" then
        let rest ← arms inner fuel
        pure (.guarded condition body :: rest)
      else
        let last ← inner.within "an else branch"
        pure [.guarded condition body, .always last]
    else
      pure [.guarded condition body]

/-- A conditional. -/
def conditional (inner : Parser Expr) : Parser Expr := do
  let start ← nextSpan
  let _ ← require .keyword "if"
  let branches ← withFuel (arms inner)
  nodeFrom start (.ifChain · branches)

/-- A loop. -/
def loop (inner : Parser Expr) : Parser Expr := do
  let start ← nextSpan
  let _ ← require .keyword "loop"
  let body ← inner.within "a loop body"
  nodeFrom start (.loop · body)

/-- A literal or identifier. -/
def atom : Parser Expr := do
  let start ← nextSpan
  let t ← terminal
  nodeFrom start (.atom · t)

/-- A symbol that brackets or separates, and so is not taken for an operator. -/
def isDelimiter (symbol : String) : Bool :=
  ["(", ")", "\x7b", "\x7d", "[", "]", ",", ";"].contains symbol

/-- What is wrong where no expression starts. -/
def noOperandError (c : Cursor) : ParseError :=
  match c.peek? with
  | none => .unexpectedEof "expression" c.nextSpan
  | some t =>
    if t.kind = .unexpected then .unrecognized t
    else if t.kind = .symbol ∧ isDelimiter t.text = false then
      .ofKind .invalidOperator ("`" ++ t.text ++ "` is not a prefix operator") t.span
    else
      .ofKind .expectedExpression ("expected expression, found " ++ t.display) t.span

/-- An operand without calls and member accesses after it. -/
def primary (operation inner : Parser Expr) : Parser Expr :=
  oneOf [unary inner, unitAtom, tuple operation, block inner, conditional inner, loop inner, atom]
    noOperandError

/-- The arguments of a call. -/
def callArgs (operation : Parser Expr) : Parser (List Expr) :=
  withCursor fun c =>
    if c.nextIsAt .symbol ")" 1 then do
      let _ ← read
      let _ ← read
      pure []
    else parenthesized operation

/-- The calls and member accesses after an expression. -/
def postfixes (operation : Parser Expr) : Nat → Expr → Parser Expr
  | 0, e => pure e
  | fuel + 1, e =>
    withCursor fun c =>
      if c.nextIs .symbol "(" then do
        let args ← (callArgs operation).within "call arguments"
        let call ← nodeFrom e.span (.call · e args)
        postfixes operation fuel call
      else if c.nextIs .symbol "." && (c.peekAt? 1).any (fun t => t.kind == .identifier) then do
        let _ ← read
        let member ← requireIdentifier.within "a member access"
        let access ← nodeFrom e.span (.accessor · e member.text)
        postfixes operation fuel access
      else pure e

/-- An operand whose nested expressions are read by `operation` and `inner`. -/
def operandStep (operation inner : Parser Expr) : Parser Expr := do
  let e ← primary operation inner
  withFuel (postfixes operation · e)

/-- How expressions with infix operators are read, given how their operands are. -/
abbrev OperatorLayer := Parser Expr → Parser Expr

/-- An operand that is nested less deep than `depth`. The parsers of the nested levels are made only
where they run. -/
def operandAt (layer : OperatorLayer) : Nat → Parser Expr
  | 0 => withCursor fun c => fail (noOperandError c)
  | depth + 1 =>
    withCursor fun _ => operandStep (layer (operandAt layer depth)) (operandAt layer depth)

theorem operandAt_succ (layer : OperatorLayer) (depth : Nat) :
    operandAt layer (depth + 1) =
      operandStep (layer (operandAt layer depth)) (operandAt layer depth) := rfl

/-- An operand. -/
def operand (layer : OperatorLayer) : Parser Expr := withFuel (operandAt layer)

end FrontEnd.Grammar
