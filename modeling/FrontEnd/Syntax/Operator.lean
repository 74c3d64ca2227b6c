/-!
# Operators

Prefix and infix operators with their symbols, and the ten levels of precedence.

* `UnaryOp.ofSymbol?_symbol`, `BinaryOp.ofSymbol?_symbol`: a symbol names one operator.
* `BinaryOp.precedence_range`: the levels are 1 to 10; a higher level binds tighter.
-/

namespace FrontEnd

/-- An operator before its operand. -/
inductive UnaryOp where
  | negation
  | logicalNot
  | bitwiseNot
  | addressOf
  | dereference
  deriving DecidableEq, Repr, Inhabited

namespace UnaryOp

/-- Every prefix operator. -/
def all : List UnaryOp := [negation, logicalNot, bitwiseNot, addressOf, dereference]

/-- The symbol that is written for the operator. -/
def symbol : UnaryOp → String
  | negation => "-"
  | logicalNot => "!"
  | bitwiseNot => "~"
  | addressOf => "&"
  | dereference => "*"

/-- The operator that a symbol is written for. -/
def ofSymbol? (symbol : String) : Option UnaryOp :=
  all.find? (fun op => op.symbol == symbol)

theorem mem_all (op : UnaryOp) : op ∈ all := by
  cases op <;> decide

theorem ofSymbol?_symbol (op : UnaryOp) : ofSymbol? op.symbol = some op := by
  cases op <;> decide

theorem symbol_of_ofSymbol? {s : String} {op : UnaryOp} (h : ofSymbol? s = some op) :
    op.symbol = s := by
  simpa using List.find?_some h

end UnaryOp

/-- An operator between its operands. -/
inductive BinaryOp where
  | addition
  | subtraction
  | multiplication
  | division
  | modulo
  | bitwiseAnd
  | bitwiseOr
  | bitwiseXor
  | bitwiseLeftShift
  | bitwiseRightShift
  | logicalAnd
  | logicalOr
  | equal
  | notEqual
  | lessThan
  | lessThanOrEqual
  | greaterThan
  | greaterThanOrEqual
  deriving DecidableEq, Repr, Inhabited

namespace BinaryOp

/-- Every infix operator. -/
def all : List BinaryOp :=
  [addition, subtraction, multiplication, division, modulo, bitwiseAnd, bitwiseOr, bitwiseXor,
   bitwiseLeftShift, bitwiseRightShift, logicalAnd, logicalOr, equal, notEqual, lessThan,
   lessThanOrEqual, greaterThan, greaterThanOrEqual]

/-- The symbol that is written for the operator. -/
def symbol : BinaryOp → String
  | addition => "+"
  | subtraction => "-"
  | multiplication => "*"
  | division => "/"
  | modulo => "%"
  | bitwiseAnd => "&"
  | bitwiseOr => "|"
  | bitwiseXor => "^"
  | bitwiseLeftShift => "<<"
  | bitwiseRightShift => ">>"
  | logicalAnd => "&&"
  | logicalOr => "||"
  | equal => "=="
  | notEqual => "!="
  | lessThan => "<"
  | lessThanOrEqual => "<="
  | greaterThan => ">"
  | greaterThanOrEqual => ">="

/-- The operator that a symbol is written for. -/
def ofSymbol? (symbol : String) : Option BinaryOp :=
  all.find? (fun op => op.symbol == symbol)

/-- How tightly the operator binds. -/
def precedence : BinaryOp → Nat
  | logicalOr => 1
  | logicalAnd => 2
  | bitwiseOr => 3
  | bitwiseXor => 4
  | bitwiseAnd => 5
  | equal | notEqual => 6
  | lessThan | lessThanOrEqual | greaterThan | greaterThanOrEqual => 7
  | bitwiseLeftShift | bitwiseRightShift => 8
  | addition | subtraction => 9
  | multiplication | division | modulo => 10

theorem mem_all (op : BinaryOp) : op ∈ all := by
  cases op <;> decide

theorem ofSymbol?_symbol (op : BinaryOp) : ofSymbol? op.symbol = some op := by
  cases op <;> decide

theorem symbol_of_ofSymbol? {s : String} {op : BinaryOp} (h : ofSymbol? s = some op) :
    op.symbol = s := by
  simpa using List.find?_some h

theorem precedence_range (op : BinaryOp) : 1 ≤ op.precedence ∧ op.precedence ≤ 10 := by
  cases op <;> decide

end BinaryOp

end FrontEnd
