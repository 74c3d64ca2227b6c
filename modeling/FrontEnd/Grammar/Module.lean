import FrontEnd.Grammar.Declaration

/-!
# Reading modules

A module is read with recovery: after a declaration that fails, tokens are skipped up to the next
one that can start a declaration.

* `Grammar.declarations` reads the rest of the input and never fails.
* `parseModule`, `parseExpression`, `parseType`, `parseTerminal` read a whole list of tokens.
-/

namespace FrontEnd

/-- The declarations that could be read, and the errors of those that could not. -/
structure ParsedModule where
  declarations : Module
  errors : List ParseError
  deriving Inhabited

namespace ParsedModule

/-- Nothing read. -/
def empty : ParsedModule := ⟨[], []⟩

/-- Every declaration could be read. -/
def isClean (p : ParsedModule) : Bool := p.errors.isEmpty

/-- One more declaration in front. -/
def consDeclaration (d : Declaration) (p : ParsedModule) : ParsedModule :=
  { p with declarations := d :: p.declarations }

/-- One more error in front. -/
def consError (e : ParseError) (p : ParsedModule) : ParsedModule :=
  { p with errors := e :: p.errors }

end ParsedModule

namespace Grammar

open FrontEnd.Parser

/-- A keyword that can start a declaration. -/
def startsDeclaration (t : Token) : Bool :=
  t.kind == .keyword && ["fn", "extern", "struct"].contains t.text

/-- The token goes on with the declaration whose `extern` was just passed. -/
def continuesExtern (passed : List Token) (t : Token) : Bool :=
  t.is .keyword "fn" && passed.head?.any (fun last => last.is .keyword "extern")

/-- Skip up to a token that starts a declaration. -/
def skipFrom (passed : List Token) : List Token → Cursor
  | [] => ⟨passed, []⟩
  | t :: rest =>
    if startsDeclaration t && !continuesExtern passed t then ⟨passed, t :: rest⟩
    else skipFrom (t :: passed) rest

/-- Skip the next token, and then up to one that starts a declaration. -/
def skipToDeclaration (c : Cursor) : Cursor :=
  match c.rest with
  | t :: rest => skipFrom (t :: c.passed) rest
  | [] => c

/-- Read declarations and skip what is none. Each step passes a token. -/
def declarationsAux (layer : OperatorLayer) : Nat → Cursor → ParsedModule × Cursor
  | 0, c => (ParsedModule.empty, c)
  | fuel + 1, c =>
    if c.atEnd then (ParsedModule.empty, c)
    else
      match (declaration layer).run c with
      | (.ok d, c') =>
        let (p, stop) := declarationsAux layer fuel c'
        (p.consDeclaration d, stop)
      | (.error e, c') =>
        let (p, stop) := declarationsAux layer fuel (skipToDeclaration c')
        (p.consError e, stop)

/-- The rest of the input as declarations, and the cursor at its end. -/
def declarations (layer : OperatorLayer) (c : Cursor) : ParsedModule × Cursor :=
  declarationsAux layer (c.rest.length + 1) c

end Grammar

/-- The module in a list of tokens. -/
def parseModule (tokens : List Token) : ParsedModule :=
  (Grammar.declarations Grammar.climbing (Cursor.ofTokens tokens)).1

/-- The expression that a list of tokens is. -/
def parseExpression (tokens : List Token) : Except ParseError Expr :=
  (Parser.complete (Grammar.operation Grammar.climbing)).parse tokens

/-- The type that a list of tokens is. -/
def parseType (tokens : List Token) : Except ParseError TypeExpr :=
  (Parser.complete Grammar.typeExpr).parse tokens

/-- The literal or identifier that a list of tokens is. -/
def parseTerminal (tokens : List Token) : Except ParseError Terminal :=
  (Parser.complete Grammar.terminal).parse tokens

end FrontEnd
