import FrontEnd.Diagnostic.Code
import FrontEnd.Grammar.Error
import FrontEnd.Token.Error
import FrontEnd.Typing.Error

/-!
# Diagnostics

A diagnostic is what a user is told about an error: a code, a message, labelled places in the
source and notes.

* `LexError.diagnostic`, `ParseError.diagnostic`, `TypeError.diagnostic` say how each error is told.
-/

namespace FrontEnd

/-- How serious a diagnostic is. -/
inductive Severity where
  | error
  | warning
  | note
  deriving DecidableEq, Repr, Inhabited

/-- Every severity. -/
def Severity.all : List Severity := [error, warning, note]

/-- The severity as a word. -/
def Severity.text : Severity → String
  | error => "error"
  | warning => "warning"
  | note => "note"

/-- A place in the source and what is said of it. The primary label is where the error is. -/
structure Label where
  span : Span
  message : String
  isPrimary : Bool
  deriving DecidableEq, Repr

/-- What a user is told. -/
structure Diagnostic where
  code : Code
  severity : Severity
  message : String
  labels : List Label
  notes : List String
  deriving DecidableEq, Repr

namespace Diagnostic

/-- An error. -/
def ofError (code : Code) (message : String) (labels : List Label) (notes : List String) :
    Diagnostic :=
  ⟨code, .error, message, labels, notes⟩

/-- The diagnostic is an error. -/
def isError (d : Diagnostic) : Bool := d.severity == .error

/-- The span of the first primary label. -/
def primarySpan? (d : Diagnostic) : Option Span :=
  (d.labels.find? (fun l => l.isPrimary)).map (fun l => l.span)

/-- The diagnostic on one line. -/
def headline (d : Diagnostic) : String :=
  d.severity.text ++ "[" ++ d.code.text ++ "]: " ++ d.message

/-- The diagnostic without its notes. -/
def withoutNotes (d : Diagnostic) : Diagnostic := { d with notes := [] }

end Diagnostic

/-- The code of a lexical problem. -/
def LexProblem.code : LexProblem → Code
  | .unterminatedString => .unterminatedString
  | .unterminatedChar => .unterminatedChar
  | .emptyChar => .emptyChar
  | .invalidEscape _ => .invalidEscape
  | .invalidNumber => .invalidNumber
  | .numberOverflow => .numberOverflow

/-- What is said to help with a lexical problem. -/
def LexProblem.notes : LexProblem → List String
  | .invalidEscape after =>
    if after = '\'' then ["a single quote cannot be escaped"]
    else ["valid escapes are `\\\\`, `\\n`, `\\t`, `\\r` and `\\\"`"]
  | .numberOverflow => ["the largest literal is 0xFFFF_FFFF_FFFF_FFFF"]
  | _ => []

/-- How a lexical error is told. -/
def LexError.diagnostic (e : LexError) : Diagnostic :=
  .ofError e.problem.code e.problem.message [⟨e.span, e.problem.message, true⟩] e.problem.notes

/-- The code of a kind of parse error. -/
def ParseErrorKind.code : ParseErrorKind → Code
  | .invalidToken => .invalidToken
  | .unexpectedToken => .unexpectedToken
  | .unexpectedEof => .unexpectedEof
  | .expectedToken => .expectedToken
  | .expectedType => .expectedType
  | .expectedTerminal => .expectedTerminal
  | .expectedSymbol => .expectedSymbol
  | .invalidOperator => .invalidOperator
  | .expectedExpression => .expectedExpression

/-- What is said of the place of a parse error. -/
def ParseErrorKind.label : ParseErrorKind → String
  | .invalidToken => "invalid token"
  | .unexpectedToken => "unexpected token"
  | .unexpectedEof => "input ends here"
  | .expectedToken => "missing token"
  | .expectedType => "expected a type"
  | .expectedTerminal => "expected a literal or identifier"
  | .expectedSymbol => "missing symbol"
  | .invalidOperator => "not a prefix operator"
  | .expectedExpression => "expected an expression"

/-- How a parse error is told. -/
def ParseError.diagnostic (e : ParseError) : Diagnostic :=
  .ofError e.kind.code e.message [⟨e.span, e.kind.label, true⟩]
    (match e.context with
     | some context => ["while parsing " ++ context]
     | none => [])

/-- The code of a type error. -/
def TypeError.code : TypeError → Code
  | .unknownType _ _ => .unknownType
  | .duplicateStruct _ _ _ => .duplicateStruct
  | .duplicateMember _ _ _ _ => .duplicateMember
  | .notAStruct _ _ => .notAStruct

/-- What is said of the places of a type error. -/
def TypeError.labels : TypeError → List Label
  | .unknownType _ span => [⟨span, "not a builtin type or a struct in this module", true⟩]
  | .duplicateStruct _ span first =>
    [⟨span, "redefined here", true⟩, ⟨first, "first defined here", false⟩]
  | .duplicateMember _ _ span first =>
    [⟨span, "duplicate member", true⟩, ⟨first, "first declared here", false⟩]
  | .notAStruct _ _ => []

/-- How a type error is told. -/
def TypeError.diagnostic (e : TypeError) : Diagnostic :=
  .ofError e.code e.message e.labels []

end FrontEnd
