import FrontEnd.Token.Basic

/-!
# Errors of the grammar

A parse error has a kind, a message that says what was expected and what was found, the place of
the failure, and the construct that was being read.

* `ParseError.within` names a construct and keeps the innermost name.
* `ParseError.further` chooses between the errors of two alternatives: the later one wins only if
  it starts at a greater offset.
-/

namespace FrontEnd

/-- The nine kinds of parse error. -/
inductive ParseErrorKind where
  | invalidToken
  | unexpectedToken
  | unexpectedEof
  | expectedToken
  | expectedType
  | expectedTerminal
  | expectedSymbol
  | invalidOperator
  | expectedExpression
  deriving DecidableEq, Repr, Inhabited

/-- Every kind of parse error. -/
def ParseErrorKind.all : List ParseErrorKind :=
  [invalidToken, unexpectedToken, unexpectedEof, expectedToken, expectedType, expectedTerminal,
   expectedSymbol, invalidOperator, expectedExpression]

/-- A parse error. -/
structure ParseError where
  kind : ParseErrorKind
  message : String
  span : Span
  context : Option String
  deriving DecidableEq, Repr, Inhabited

namespace ParseError

/-- How a message names the token found, or the end of the input. -/
def foundWords : Option Token → String
  | some t => t.display
  | none => "end of file"

/-- An error of some kind, in no context. -/
def ofKind (kind : ParseErrorKind) (message : String) (span : Span) : ParseError :=
  ⟨kind, message, span, none⟩

/-- A fixed token is missing. -/
def expectedToken (expected : String) (found : Option Token) (span : Span) : ParseError :=
  ofKind .expectedToken ("expected `" ++ expected ++ "`, found " ++ foundWords found) span

/-- A fixed symbol is missing. -/
def expectedSymbol (expected : String) (found : Option Token) (span : Span) : ParseError :=
  ofKind .expectedSymbol ("expected `" ++ expected ++ "`, found " ++ foundWords found) span

/-- An identifier is missing. -/
def expectedIdentifier (found : Option Token) (span : Span) : ParseError :=
  ofKind .expectedToken ("expected identifier, found " ++ foundWords found) span

/-- A type is missing. -/
def expectedType (found : Option Token) (span : Span) : ParseError :=
  ofKind .expectedType ("expected type, found " ++ foundWords found) span

/-- The input ends where something is required. -/
def unexpectedEof (expected : String) (span : Span) : ParseError :=
  ofKind .unexpectedEof ("expected " ++ expected ++ ", found end of file") span

/-- A character that starts no token. -/
def unrecognized (t : Token) : ParseError :=
  ofKind .invalidToken ("unrecognized character `" ++ t.text ++ "`") t.span

/-- The error, said to arise while a construct was read, unless it has a context already. -/
def within (e : ParseError) (context : String) : ParseError :=
  { e with context := some (e.context.getD context) }

/-- Of two errors the one that starts later; of two at one place the first. -/
def further (e other : ParseError) : ParseError :=
  if e.span.start < other.span.start then other else e

theorem within_within (e : ParseError) (inner outer : String) :
    (e.within inner).within outer = e.within inner := by
  simp [within]

theorem further_assoc (e f g : ParseError) :
    (e.further f).further g = e.further (f.further g) := by
  grind [further]

end ParseError

end FrontEnd
