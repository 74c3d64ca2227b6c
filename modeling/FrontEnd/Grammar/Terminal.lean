import FrontEnd.Grammar.Parser
import FrontEnd.Syntax.Terminal

/-!
# Reading literals and identifiers

* `Grammar.terminal` reads one literal, identifier or unit value.
* `Grammar.integerSuffix` reads the type of an integer literal: the word of an integer type that
  stands directly after the digits.
-/

namespace FrontEnd.Grammar

open FrontEnd.Parser

/-- The integer type whose word starts where the last token ends. -/
def suffixAt? (c : Cursor) : Option TypeExpr :=
  match c.peek? with
  | some t =>
    if t.kind = .identifier ∧ t.span.start = c.lastSpan.stop then
      (TypeExpr.primitive? t.text).filter TypeExpr.isInteger
    else none
  | none => none

/-- The suffix of an integer literal, or the default type if it has none. -/
def integerSuffix : Parser TypeExpr :=
  withCursor fun c =>
    match suffixAt? c with
    | some type => do
      let _ ← read
      pure type
    | none => pure TypeExpr.defaultInteger

/-- A literal or identifier is required and this token is neither. -/
def expectedTerminal (t : Token) : ParseError :=
  .ofKind .expectedTerminal ("expected literal or identifier, found " ++ t.display) t.span

/-- Pass the next token, which stands for `a`. -/
def readAs {α : Type} (a : α) : Parser α := do
  let _ ← read
  pure a

/-- A literal, an identifier, or the unit value `()`. -/
def terminal : Parser Terminal :=
  withCursor fun c =>
    match c.peek? with
    | none => fail (.unexpectedEof "literal or identifier" c.nextSpan)
    | some t =>
      match t.kind with
      | .number => do
        let _ ← read
        let type ← integerSuffix
        pure (.integer t.value type)
      | .boolean => readAs (.boolean (t.value != 0))
      | .char =>
        match t.text.toList with
        | [] => fail (.ofKind .invalidToken "empty character token" t.span)
        | value :: _ => readAs (.character value)
      | .string => readAs (.string t.text)
      | .identifier => readAs (.identifier t.text)
      | .symbol =>
        if t.text = "(" ∧ c.nextIsAt .symbol ")" 1 = true then do
          let _ ← read
          let _ ← read
          pure .unit
        else fail (expectedTerminal t)
      | .unexpected => fail (.unrecognized t)
      | .keyword => fail (expectedTerminal t)
      | .endOfFile => fail (expectedTerminal t)

end FrontEnd.Grammar
