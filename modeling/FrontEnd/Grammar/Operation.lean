import FrontEnd.Grammar.Operand

/-!
# Reading operations

Infix operators between operands, by precedence climbing; all of them associate to the left.

* `Grammar.climbing` is the layer of infix operators, `Grammar.bareOperands` the one without any.
* `Grammar.operation` reads an expression with infix operators.
-/

namespace FrontEnd.Grammar

open FrontEnd.Parser

/-- The infix operator that a token is. -/
def binaryOp? (t : Token) : Option BinaryOp :=
  if t.kind = .symbol then BinaryOp.ofSymbol? t.text else none

/-- The next token, if it is an infix operator that binds at least as tight as `level`. -/
def operatorAt? (c : Cursor) (level : Nat) : Option BinaryOp :=
  (c.peek?.bind binaryOp?).filter (fun op => decide (level ≤ op.precedence))

/-- An operator between two operands. -/
def binaryNode (op : BinaryOp) (left right : Expr) : Expr :=
  .binary (Site.ofSpan (left.span.merge right.span)) op left right

/-- What follows a first operand: operators that bind at least as tight as `level`, each with a
right operand in which only tighter ones stand. -/
def climb (operand : Parser Expr) : Nat → Nat → Expr → Parser Expr
  | 0, _, left => pure left
  | fuel + 1, level, left =>
    withCursor fun c =>
      match operatorAt? c level with
      | none => pure left
      | some op => do
        let _ ← read
        let first ← operand
        let right ← climb operand fuel (op.precedence + 1) first
        climb operand fuel level (binaryNode op left right)

/-- Operands joined by infix operators of every level. -/
def climbing : OperatorLayer := fun operand => do
  let first ← operand
  withFuel (climb operand · 0 first)

/-- Operands alone. -/
def bareOperands : OperatorLayer := fun operand => operand

/-- An expression as the layer reads it. -/
def operation (layer : OperatorLayer) : Parser Expr := layer (operand layer)

end FrontEnd.Grammar
