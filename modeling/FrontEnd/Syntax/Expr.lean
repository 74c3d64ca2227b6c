import FrontEnd.Span
import FrontEnd.Syntax.Operator
import FrontEnd.Syntax.Slot
import FrontEnd.Syntax.Terminal

/-!
# Expressions

Expression trees and their canonical text, which shows the structure of a tree and is not meant to
be read back: list elements are each followed by their separator.

* `Expr.site` is the place of a node and the slot for its type.
* `Expr.text` is the canonical text.
-/

namespace FrontEnd

/-- The place of a node in the source, and the slot for its type. -/
structure Site where
  span : Span
  slot : TypeSlot
  deriving DecidableEq, Repr, Inhabited

/-- A place whose slot is empty. -/
def Site.ofSpan (span : Span) : Site := ⟨span, TypeSlot.empty⟩

mutual

/-- An expression. -/
inductive Expr where
  | atom (site : Site) (terminal : Terminal)
  | unary (site : Site) (op : UnaryOp) (operand : Expr)
  | binary (site : Site) (op : BinaryOp) (left right : Expr)
  | tuple (site : Site) (elements : List Expr)
  | call (site : Site) (callee : Expr) (args : List Expr)
  | block (site : Site) (statements : List Expr)
  | ifChain (site : Site) (branches : List Branch)
  | loop (site : Site) (body : Expr)
  | accessor (site : Site) (object : Expr) (member : String)

/-- One arm of a conditional: taken if a condition holds, or taken always. -/
inductive Branch where
  | guarded (condition body : Expr)
  | always (body : Expr)

end

namespace Branch

/-- The condition, of an arm that has one. -/
def condition? : Branch → Option Expr
  | guarded condition _ => some condition
  | always _ => none

/-- The expression that an arm stands for. -/
def body : Branch → Expr
  | guarded _ body => body
  | always body => body

/-- An arm with a condition or without. -/
def ofCondition (condition? : Option Expr) (body : Expr) : Branch :=
  match condition? with
  | some condition => guarded condition body
  | none => always body

end Branch

namespace Expr

/-- The place of the root and the slot for its type. -/
def site : Expr → Site
  | atom site _ => site
  | unary site _ _ => site
  | binary site _ _ _ => site
  | tuple site _ => site
  | call site _ _ => site
  | block site _ => site
  | ifChain site _ => site
  | loop site _ => site
  | accessor site _ _ => site

/-- The span of the root. -/
def span (e : Expr) : Span := e.site.span

instance : Inhabited Expr := ⟨.atom default .unit⟩

/-- The terminal, of an atom. -/
def atom? : Expr → Option Terminal
  | atom _ terminal => some terminal
  | _ => none

/-- The elements, of a tuple. -/
def tuple? : Expr → Option (List Expr)
  | tuple _ elements => some elements
  | _ => none

mutual

/-- The canonical text. -/
def text : Expr → String
  | atom _ terminal => terminal.text
  | unary _ op operand => op.symbol ++ operand.text
  | binary _ op left right => left.text ++ " " ++ op.symbol ++ " " ++ right.text
  | tuple _ elements => "(" ++ seriesText ", " elements ++ ")"
  | call _ callee args => callee.text ++ "((" ++ seriesText ", " args ++ "))"
  | block _ statements => "\x7b" ++ seriesText "; " statements ++ "\x7d"
  | ifChain _ branches => chainText branches
  | loop _ body => "loop " ++ body.text
  | accessor _ object member => object.text ++ "." ++ member

/-- Each expression followed by the separator. -/
def seriesText (separator : String) : List Expr → String
  | [] => ""
  | e :: es => e.text ++ separator ++ seriesText separator es

/-- The canonical text of one arm. -/
def branchText : Branch → String
  | .guarded condition body => "if " ++ condition.text ++ " " ++ body.text
  | .always body => body.text

/-- The arms with `else` between them. -/
def chainText : List Branch → String
  | [] => ""
  | b :: bs => branchText b ++ tailText bs

/-- The arms with `else` before each. -/
def tailText : List Branch → String
  | [] => ""
  | b :: bs => " else " ++ branchText b ++ tailText bs

end

end Expr

end FrontEnd
