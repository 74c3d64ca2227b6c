import FrontEnd.Syntax.Expr

/-!
# Declarations and modules

Functions, structures and their bindings, with their canonical text.

* `Module` is the list of the declarations of one source, in source order.
* `Function.param?` and `Struct.member?` find the first binding with a name.
-/

namespace FrontEnd

/-- A named and typed parameter of a function. -/
structure Parameter where
  name : String
  type : TypeExpr
  span : Span
  slot : TypeSlot
  deriving DecidableEq, Repr, Inhabited

/-- A named and typed member of a structure. -/
structure Member where
  name : String
  type : TypeExpr
  isPublic : Bool
  span : Span
  slot : TypeSlot
  deriving DecidableEq, Repr, Inhabited

/-- A function. Its slot is for the type it returns. -/
structure Function where
  isExtern : Bool
  name : String
  params : List Parameter
  isVariadic : Bool
  returnType : TypeExpr
  body : Option Expr
  span : Span
  slot : TypeSlot
  deriving Inhabited

/-- A structure. Its slot is for the type it declares. -/
structure Struct where
  name : String
  members : List Member
  span : Span
  slot : TypeSlot
  deriving DecidableEq, Repr, Inhabited

/-- A declaration of a module. -/
inductive Declaration where
  | function (f : Function)
  | struct (s : Struct)
  deriving Inhabited

/-- The declarations of one source. -/
abbrev Module := List Declaration

/-- The parameter as canonical text. -/
def Parameter.text (p : Parameter) : String := p.name ++ " : " ++ p.type.text

/-- The member as canonical text. -/
def Member.text (m : Member) : String :=
  (if m.isPublic then "public " else "") ++ m.name ++ " : " ++ m.type.text

/-- Each text followed by a comma and a space. -/
def commaSeries (texts : List String) : String :=
  String.join (texts.map (fun t => t ++ ", "))

/-- A list of bindings as canonical text. -/
def bindingListText (texts : List String) : String := "(" ++ commaSeries texts ++ ")"

namespace Function

/-- The parameters as canonical text. -/
def paramsText (f : Function) : String := bindingListText (f.params.map Parameter.text)

/-- The parameter with a name. -/
def param? (f : Function) (name : String) : Option Parameter :=
  f.params.find? (fun p => p.name == name)

/-- The function as canonical text. -/
def text (f : Function) : String :=
  (if f.isExtern then "extern " else "") ++ "Function(" ++ f.name ++ ", args (" ++
    commaSeries (f.params.map Parameter.text) ++ (if f.isVariadic then "..., " else "") ++
    "), ret " ++ f.returnType.text ++ ")" ++
    (match f.body with
     | some body => " = " ++ body.text
     | none => "")

end Function

namespace Struct

/-- The members as canonical text. -/
def membersText (s : Struct) : String := bindingListText (s.members.map Member.text)

/-- The member with a name. -/
def member? (s : Struct) (name : String) : Option Member :=
  s.members.find? (fun m => m.name == name)

/-- The structure as canonical text. -/
def text (s : Struct) : String :=
  "Struct(" ++ s.name ++ ", members " ++ s.membersText ++ ")"

end Struct

namespace Declaration

/-- The declared name. -/
def name : Declaration → String
  | function f => f.name
  | struct s => s.name

/-- The place of the declaration. -/
def span : Declaration → Span
  | function f => f.span
  | struct s => s.span

/-- The declaration, if it is a function. -/
def function? : Declaration → Option Function
  | function f => some f
  | struct _ => none

/-- The declaration, if it is a structure. -/
def struct? : Declaration → Option Struct
  | struct s => some s
  | function _ => none

/-- The declaration as canonical text. -/
def text : Declaration → String
  | function f => f.text
  | struct s => s.text

end Declaration

namespace Module

/-- The functions, in order. -/
def functions (m : Module) : List Function := m.filterMap Declaration.function?

/-- The structures, in order. -/
def structs (m : Module) : List Struct := m.filterMap Declaration.struct?

/-- The module as canonical text: a line for each declaration. -/
def text (m : Module) : String := String.join (m.map (fun d => d.text ++ "\n"))

end Module

end FrontEnd
