import FrontEnd.Grammar.Terminal

/-!
# Reading types

* `Grammar.typeExpr` reads a type. Its forms nest to the right, and every nested type comes after a
  symbol, so a type is never nested deeper than there are tokens.
* `Grammar.arraySize?` says which literals give the length of an array.
-/

namespace FrontEnd.Grammar

open FrontEnd.Parser

/-- The length of an array: an integer that is not negative. -/
def arraySize? : Terminal → Option UInt64
  | .integer bits type =>
    if type.isSignedInteger && Word.isNegative bits then none else some bits
  | _ => none

/-- The word for a kind of terminal in messages. -/
def terminalWord : Terminal → String
  | .boolean _ => "boolean"
  | .integer _ _ => "integer"
  | .character _ => "character"
  | .string _ => "string"
  | .identifier _ => "identifier"
  | .unit => "unit"

/-- The length of an array type. -/
def arrayLength : Parser UInt64 := do
  let start ← nextSpan
  let t ← terminal
  match arraySize? t with
  | some size => pure size
  | none => do
    let span ← spanSince start
    fail (.ofKind .expectedTerminal
      ("array length must be a non-negative integer literal, found " ++ terminalWord t) span)

/-- A slice or array type, from after its opening bracket. -/
def arrayTail (inner : Parser TypeExpr) : Parser TypeExpr := do
  let element ← inner
  if ← accept .symbol ";" then
    let size ← arrayLength
    let _ ← require .symbol "]"
    pure (.array element size)
  else
    let _ ← require .symbol "]"
    pure (.slice element)

/-- A type whose nested types are read by `inner`. -/
def typeStep (inner : Parser TypeExpr) : Parser TypeExpr :=
  withCursor fun c =>
    match c.peek? with
    | none => fail (.expectedType none c.nextSpan)
    | some t =>
      if t.kind = .identifier then
        readAs ((TypeExpr.primitive? t.text).getD (.named t.text))
      else if t.is .symbol "(" && c.nextIsAt .symbol ")" 1 then do
        let _ ← read
        let _ ← read
        pure .unit
      else if t.is .symbol "[" then do
        let _ ← read
        (arrayTail inner).within "an array type"
      else if t.is .symbol "&" then do
        let _ ← read
        let target ← inner
        pure (.ref target)
      else if t.is .symbol "&&" then do
        let _ ← read
        let target ← inner
        pure (.ref (.ref target))
      else if t.is .symbol "*" then do
        let _ ← read
        let target ← inner
        pure (.pointer target)
      else fail (.expectedType (some t) t.span)

/-- A type that is nested less deep than `depth`. The parsers of the nested levels are made only
where they run. -/
def typeAt : Nat → Parser TypeExpr
  | 0 => withCursor fun c => fail (.expectedType c.peek? c.nextSpan)
  | depth + 1 => withCursor fun _ => typeStep (typeAt depth)

theorem typeAt_succ (depth : Nat) : typeAt (depth + 1) = typeStep (typeAt depth) := rfl

/-- A type. -/
def typeExpr : Parser TypeExpr := withFuel typeAt

end FrontEnd.Grammar
