import FrontEnd.Printer.Layout
import FrontEnd.Syntax.Module

/-!
# Trees as source text

How expressions, declarations and modules are written so that they can be read back.

An infix operation is read only in parentheses, as an argument, as the body of a function or as a
whole input, and under an operator that binds less tight. Anywhere else it is put in parentheses. A
prefix operator gets a space after it where the two would be read as one token.

* `Expr.pieces`, `Declaration.pieces`, `Module.pieces` give the pieces of a tree.
* `Expr.toSource`, `Declaration.toSource` and `Module.toSource` give its text.
-/

namespace FrontEnd

namespace Expr

/-- The expression is an infix operation. -/
def isBinary : Expr → Bool
  | binary _ _ _ _ => true
  | _ => false

/-- The expression is an infix operation that binds less tight than a level. -/
def isLooserThan : Expr → Nat → Bool
  | binary _ op _ _, level => decide (op.precedence < level)
  | _, _ => false

/-- The first character that is printed for an expression. -/
def firstChar? : Expr → Option Char
  | atom _ terminal => terminal.text.toList.head?
  | unary _ op _ => op.symbol.toList.head?
  | binary _ _ _ _ => some '('
  | tuple _ _ => some '('
  | call _ callee _ => callee.firstChar?
  | block _ _ => some '\x7b'
  | ifChain _ _ => some 'i'
  | loop _ _ => some 'l'
  | accessor _ object _ => object.firstChar?

end Expr

/-- The operator and an operand that starts with this character would be read as one token. -/
def needsGap (op : UnaryOp) (next : Option Char) : Bool :=
  match op, next with
  | .negation, some c => c == '-' || c.isDigit
  | .addressOf, some c => c == '&'
  | _, _ => false

/-- The pieces, in parentheses if so asked. -/
def grouped (inParentheses : Bool) (pieces : List Piece) : List Piece :=
  if inParentheses then [.text "("] ++ pieces ++ [.text ")"] else pieces

namespace Expr

mutual

/-- The pieces of an expression. -/
def pieces : Expr → List Piece
  | atom _ terminal => [.text terminal.text]
  | unary _ op operand =>
    [.text op.symbol] ++ (if needsGap op operand.firstChar? then [.text " "] else []) ++
      grouped operand.isBinary operand.pieces
  | binary _ op left right =>
    grouped (left.isLooserThan op.precedence) left.pieces ++
      [.text " ", .text op.symbol, .text " "] ++
      grouped (right.isLooserThan (op.precedence + 1)) right.pieces
  | tuple _ elements => [.text "("] ++ listPieces elements ++ [.text ")"]
  | call _ callee args =>
    grouped callee.isBinary callee.pieces ++ [.text "("] ++ listPieces args ++ [.text ")"]
  | block _ statements =>
    match statements with
    | [] => [.text "\x7b\x7d"]
    | s :: rest =>
      [.text "\x7b", .indent, .newline] ++ grouped s.isBinary s.pieces ++
        statementPieces rest ++ [.dedent, .newline, .text "\x7d"]
  | ifChain _ branches =>
    match branches with
    | [] => []
    | b :: rest => branchPieces b ++ elsePieces rest
  | loop _ body => [.text "loop "] ++ grouped body.isBinary body.pieces
  | accessor _ object member =>
    grouped object.isBinary object.pieces ++ [.text ".", .text member]

/-- Expressions with a comma between each two. -/
def listPieces : List Expr → List Piece
  | [] => []
  | e :: es => e.pieces ++ commaPieces es

/-- Expressions with a comma before each. -/
def commaPieces : List Expr → List Piece
  | [] => []
  | e :: es => [.text ", "] ++ e.pieces ++ commaPieces es

/-- The statements of a block after the first, each on a line after a semicolon. -/
def statementPieces : List Expr → List Piece
  | [] => []
  | e :: es => [.text ";", .newline] ++ grouped e.isBinary e.pieces ++ statementPieces es

/-- The pieces of an arm. -/
def branchPieces : Branch → List Piece
  | .guarded condition body =>
    [.text "if "] ++ grouped condition.isBinary condition.pieces ++ [.text " then "] ++
      grouped body.isBinary body.pieces
  | .always body => grouped body.isBinary body.pieces

/-- Arms with `else` before each. -/
def elsePieces : List Branch → List Piece
  | [] => []
  | b :: bs => [.text " else "] ++ branchPieces b ++ elsePieces bs

end

end Expr

/-- A list of pieces between each two of the others. -/
def interleave (separator : List Piece) : List (List Piece) → List Piece
  | [] => []
  | [p] => p
  | p :: q :: rest => p ++ separator ++ interleave separator (q :: rest)

/-- The pieces of a parameter. -/
def Parameter.pieces (p : Parameter) : List Piece :=
  [.text p.name, .text ": ", .text p.type.text]

/-- The pieces of a member. -/
def Member.pieces (m : Member) : List Piece :=
  (if m.isPublic then [.text "public "] else []) ++ [.text m.name, .text ": ", .text m.type.text]

/-- The pieces of a function. The unit type is not written for what it returns. -/
def Function.pieces (f : Function) : List Piece :=
  (if f.isExtern then [.text "extern "] else []) ++ [.text "fn ", .text f.name, .text "("] ++
    interleave [.text ", "] (f.params.map Parameter.pieces) ++
    (if f.isVariadic then [.text ", ..."] else []) ++ [.text ")"] ++
    (if f.returnType = .unit then [] else [.text " -> ", .text f.returnType.text]) ++
    (match f.body with
     | some body => [.text " = "] ++ body.pieces
     | none => [])

/-- The pieces of a structure. -/
def Struct.pieces (s : Struct) : List Piece :=
  [.text "struct ", .text s.name] ++
    (if s.members.isEmpty then [.text " \x7b\x7d"]
     else
      [.text " \x7b", .indent, .newline] ++
        interleave [.text ";", .newline] (s.members.map Member.pieces) ++
        [.dedent, .newline, .text "\x7d"])

/-- The pieces of a declaration. -/
def Declaration.pieces : Declaration → List Piece
  | .function f => f.pieces
  | .struct s => s.pieces

/-- The pieces of a module: a blank line between declarations. -/
def Module.pieces (m : Module) : List Piece :=
  interleave [.newline] (m.map (fun d => d.pieces ++ [.newline]))

/-- An expression as source text. -/
def Expr.toSource (indentSize : Nat) (e : Expr) : String :=
  ((Layout.empty indentSize).run e.pieces).text

/-- A declaration as source text. -/
def Declaration.toSource (indentSize : Nat) (d : Declaration) : String :=
  ((Layout.empty indentSize).run d.pieces).text

/-- A module as source text. -/
def Module.toSource (indentSize : Nat) (m : Module) : String :=
  ((Layout.empty indentSize).run (Module.pieces m)).finish

end FrontEnd
