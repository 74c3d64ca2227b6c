import FrontEnd.Grammar.Operation
import FrontEnd.Grammar.TypeExpr
import FrontEnd.Syntax.Module

/-!
# Reading declarations

* `Grammar.function`, `Grammar.struct` and their bindings.
* `Grammar.declaration` reads either; a declaration that fails leaves the cursor at its start.
-/

namespace FrontEnd.Grammar

open FrontEnd.Parser

/-- A parameter of a function. -/
def parameter : Parser Parameter := do
  let start ← nextSpan
  let name ← requireIdentifier
  let _ ← (requireSymbol ":").within "a parameter"
  let type ← typeExpr.within "a parameter type"
  let span ← spanSince start
  pure ⟨name.text, type, span, TypeSlot.empty⟩

/-- A member of a structure. -/
def member : Parser Member := do
  let start ← nextSpan
  let isPublic ← accept .keyword "public"
  let name ← requireIdentifier
  let _ ← (requireSymbol ":").within "a struct member"
  let type ← typeExpr.within "a member type"
  let span ← spanSince start
  pure ⟨name.text, type, isPublic, span, TypeSlot.empty⟩

/-- The parameters of a function, and whether more arguments may follow them. -/
structure Parameters where
  bindings : List Parameter
  isVariadic : Bool
  deriving DecidableEq, Repr

/-- No parameters. -/
def Parameters.none : Parameters := ⟨[], false⟩

/-- The mark of a variadic function after its parameters, of which there must be one. -/
def variadicMark (bindings : List Parameter) : Parser Parameters :=
  withCursor fun c =>
    if bindings.isEmpty then
      if c.nextIs .symbol "..." then
        fail (.ofKind .unexpectedToken "a variadic function needs at least one named parameter"
          c.nextSpan)
      else pure ⟨bindings, false⟩
    else if c.nextIs .symbol "," && c.nextIsAt .symbol "..." 1 then do
      let _ ← read
      let _ ← read
      pure ⟨bindings, true⟩
    else pure ⟨bindings, false⟩

/-- What stands between the parentheses of a parameter list. -/
def parameters : Parser Parameters := do
  let bindings ← sepBy parameter .symbol ","
  variadicMark bindings

/-- A parameter list, which may be left out before a return type, a body or the end. -/
def parameterList : Parser Parameters :=
  withCursor fun c =>
    if c.nextIs .symbol "(" && c.nextIsAt .symbol ")" 1 then do
      let _ ← read
      let _ ← read
      pure Parameters.none
    else if c.peek?.isSome && !c.nextHasText "->" && !c.nextHasText "=" then
      (enclosed parameters (.symbols "(" ")")).within "a parameter list"
    else pure Parameters.none

/-- The type that a function returns, the unit type if none is written. -/
def returnType : Parser TypeExpr := do
  if ← accept .symbol "->" then
    typeExpr.within "a return type"
  else
    pure .unit

/-- The body of a function, if it has one. -/
def functionBody (layer : OperatorLayer) : Parser (Option Expr) := do
  if ← accept .symbol "=" then
    let body ← (operation layer).within "a function body"
    pure (some body)
  else
    pure none

/-- A function. -/
def function (layer : OperatorLayer) : Parser Function := do
  let start ← nextSpan
  let isExtern ← accept .keyword "extern"
  let _ ← require .keyword "fn"
  let name ← requireIdentifier.within "a function name"
  let params ← parameterList
  let returns ← returnType
  let body ← functionBody layer
  let span ← spanSince start
  pure ⟨isExtern, name.text, params.bindings, params.isVariadic, returns, body, span,
    TypeSlot.empty⟩

/-- A structure. -/
def struct : Parser Struct := do
  let start ← nextSpan
  let _ ← require .keyword "struct"
  let name ← requireIdentifier.within "a struct name"
  let members ←
    (enclosed (sepBy member .symbol ";") (.symbols "\x7b" "\x7d")).within
      "a struct body"
  let span ← spanSince start
  pure ⟨name.text, members, span, TypeSlot.empty⟩

/-- What is wrong where no declaration starts. -/
def noDeclarationError (c : Cursor) : ParseError :=
  .ofKind .unexpectedToken
    ("expected `fn`, `extern` or `struct`, found " ++ ParseError.foundWords c.peek?) c.nextSpan

/-- A function or a structure. -/
def declaration (layer : OperatorLayer) : Parser Declaration :=
  oneOf [.function <$> function layer, .struct <$> struct] noDeclarationError

end FrontEnd.Grammar
