import FrontEnd.Span

/-!
# Errors of the lexer

A malformed literal is the only lexical error: a character that starts no token is a token of its
own kind.
-/

namespace FrontEnd

/-- What is wrong with a literal. -/
inductive LexProblem where
  | unterminatedString
  | unterminatedChar
  | emptyChar
  /-- A backslash before a character that it does not escape. -/
  | invalidEscape (after : Char)
  /-- A hexadecimal literal without digits. -/
  | invalidNumber
  | numberOverflow
  deriving DecidableEq, Repr

/-- The problem in words. -/
def LexProblem.message : LexProblem → String
  | .unterminatedString => "unterminated string literal"
  | .unterminatedChar => "unterminated character literal"
  | .emptyChar => "empty character literal"
  | .invalidEscape after => "invalid escape sequence `\\" ++ after.toString ++ "`"
  | .invalidNumber => "malformed number literal"
  | .numberOverflow => "number literal does not fit in 64 bits"

/-- A problem and the part of the source that was read when it was found. -/
structure LexError where
  problem : LexProblem
  span : Span
  deriving DecidableEq, Repr

/-- The problem and its place in words. -/
def LexError.message (e : LexError) : String :=
  e.problem.message ++ " at " ++ e.span.text

end FrontEnd
