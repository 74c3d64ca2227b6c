/-!
# Diagnostic codes

Every error has a code. Its first digit says which stage of the front end reports it.
-/

namespace FrontEnd

/-- The stages that report errors. -/
inductive Stage where
  | lexing
  | parsing
  | typing
  deriving DecidableEq, Repr, Inhabited

/-- What a diagnostic is about. -/
inductive Code where
  | unterminatedString
  | unterminatedChar
  | emptyChar
  | invalidEscape
  | invalidNumber
  | numberOverflow
  | invalidToken
  | unexpectedToken
  | unexpectedEof
  | expectedToken
  | expectedType
  | expectedTerminal
  | expectedSymbol
  | invalidOperator
  | expectedExpression
  | unknownType
  | duplicateStruct
  | duplicateMember
  | notAStruct
  deriving DecidableEq, Repr, Inhabited

namespace Code

/-- Every code, in order. -/
def all : List Code :=
  [unterminatedString, unterminatedChar, emptyChar, invalidEscape, invalidNumber, numberOverflow,
   invalidToken, unexpectedToken, unexpectedEof, expectedToken, expectedType, expectedTerminal,
   expectedSymbol, invalidOperator, expectedExpression,
   unknownType, duplicateStruct, duplicateMember, notAStruct]

/-- The code as it is written. -/
def text : Code → String
  | unterminatedString => "E0001"
  | unterminatedChar => "E0002"
  | emptyChar => "E0003"
  | invalidEscape => "E0004"
  | invalidNumber => "E0005"
  | numberOverflow => "E0006"
  | invalidToken => "E1001"
  | unexpectedToken => "E1002"
  | unexpectedEof => "E1003"
  | expectedToken => "E1004"
  | expectedType => "E1005"
  | expectedTerminal => "E1006"
  | expectedSymbol => "E1007"
  | invalidOperator => "E1008"
  | expectedExpression => "E1009"
  | unknownType => "E2001"
  | duplicateStruct => "E2002"
  | duplicateMember => "E2003"
  | notAStruct => "E2004"

/-- The code in words. -/
def description : Code → String
  | unterminatedString => "unterminated string literal"
  | unterminatedChar => "unterminated character literal"
  | emptyChar => "empty character literal"
  | invalidEscape => "invalid escape sequence"
  | invalidNumber => "malformed number literal"
  | numberOverflow => "number literal out of range"
  | invalidToken => "invalid token"
  | unexpectedToken => "unexpected token"
  | unexpectedEof => "unexpected end of file"
  | expectedToken => "expected token"
  | expectedType => "expected type"
  | expectedTerminal => "expected literal or identifier"
  | expectedSymbol => "expected symbol"
  | invalidOperator => "invalid operator"
  | expectedExpression => "expected expression"
  | unknownType => "unknown type name"
  | duplicateStruct => "duplicate struct"
  | duplicateMember => "duplicate struct member"
  | notAStruct => "field added to a non-struct type"

/-- The stage that reports the code. -/
def stage : Code → Stage
  | unterminatedString | unterminatedChar | emptyChar | invalidEscape | invalidNumber
  | numberOverflow => .lexing
  | invalidToken | unexpectedToken | unexpectedEof | expectedToken | expectedType
  | expectedTerminal | expectedSymbol | invalidOperator | expectedExpression => .parsing
  | unknownType | duplicateStruct | duplicateMember | notAStruct => .typing

theorem mem_all (c : Code) : c ∈ all := by
  cases c <;> decide

/-- Different codes are written differently. -/
theorem text_injective {c d : Code} (h : c.text = d.text) : c = d := by
  have hall : ∀ c ∈ all, ∀ d ∈ all, c.text = d.text → c = d := by decide
  exact hall c (mem_all c) d (mem_all d) h

end Code

end FrontEnd
