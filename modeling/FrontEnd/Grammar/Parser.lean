import FrontEnd.Grammar.Cursor
import FrontEnd.Grammar.Error

/-!
# Parsers

A parser reads from a cursor. It gives a value or an error, and in both cases the cursor where it
stopped: a failure does not go back by itself.

* `Parser.attempt` goes back on failure.
* `Parser.run_bind` is the rule for sequencing: the second parser runs where the first stopped, and
  not at all if the first failed.
-/

namespace FrontEnd

/-- A reader of tokens. -/
structure Parser (α : Type) where
  run : Cursor → Except ParseError α × Cursor

namespace Parser

variable {α β : Type}

instance : Monad Parser where
  pure a := ⟨fun c => (.ok a, c)⟩
  bind p f := ⟨fun c =>
    match p.run c with
    | (.ok a, c') => (f a).run c'
    | (.error e, c') => (.error e, c')⟩

@[ext] theorem ext {p q : Parser α} (h : ∀ c, p.run c = q.run c) : p = q := by
  obtain ⟨p⟩ := p
  obtain ⟨q⟩ := q
  exact congrArg Parser.mk (funext h)

@[simp] theorem run_pure (a : α) (c : Cursor) : (pure a : Parser α).run c = (.ok a, c) := rfl

theorem run_bind (p : Parser α) (f : α → Parser β) (c : Cursor) :
    (p >>= f).run c =
      match p.run c with
      | (.ok a, c') => (f a).run c'
      | (.error e, c') => (.error e, c') := rfl

theorem run_bind_ok {p : Parser α} {f : α → Parser β} {c c' : Cursor} {a : α}
    (h : p.run c = (.ok a, c')) : (p >>= f).run c = (f a).run c' := by
  simp [run_bind, h]

theorem run_bind_error {p : Parser α} {f : α → Parser β} {c c' : Cursor} {e : ParseError}
    (h : p.run c = (.error e, c')) : (p >>= f).run c = (.error e, c') := by
  simp [run_bind, h]

theorem bind_pure_eq (p : Parser α) : (p >>= fun a => pure a) = p := by
  refine Parser.ext fun c => ?_
  rw [run_bind]
  split <;> simp_all

theorem bind_assoc_eq {γ : Type} (p : Parser α) (f : α → Parser β) (g : β → Parser γ) :
    (p >>= f) >>= g = p >>= fun a => f a >>= g := by
  refine Parser.ext fun c => ?_
  simp only [run_bind]
  cases p.run c with
  | mk r c' => cases r <;> rfl

instance : LawfulMonad Parser :=
  LawfulMonad.mk' Parser bind_pure_eq (fun _ _ => rfl) bind_assoc_eq

/-- Fail here. -/
def fail (e : ParseError) : Parser α := ⟨fun c => (.error e, c)⟩

/-- Look at the cursor. -/
def look (f : Cursor → α) : Parser α := ⟨fun c => (.ok (f c), c)⟩

/-- Go on as a function of the cursor. -/
def withCursor (f : Cursor → Parser α) : Parser α := ⟨fun c => (f c).run c⟩

/-- The next token. -/
def peek? : Parser (Option Token) := look Cursor.peek?

/-- The span of the next token. -/
def nextSpan : Parser Span := look Cursor.nextSpan

/-- The span of the last token passed. -/
def lastSpan : Parser Span := look Cursor.lastSpan

/-- Pass the next token. -/
def read : Parser (Option Token) := ⟨fun c => (.ok c.read.1, c.read.2)⟩

/-- Pass the next token if it has this kind and this text. -/
def readIf (kind : TokenKind) (text : String) : Parser (Option Token) :=
  ⟨fun c => (.ok (c.readIf kind text).1, (c.readIf kind text).2)⟩

/-- Pass the next token if it has this kind. -/
def readKind (kind : TokenKind) : Parser (Option Token) :=
  ⟨fun c => (.ok (c.readKind kind).1, (c.readKind kind).2)⟩

/-- Pass the next token if it has this kind and this text, and say whether it had. -/
def accept (kind : TokenKind) (text : String) : Parser Bool :=
  Option.isSome <$> readIf kind text

/-- On failure, go back to the start. -/
def attempt (p : Parser α) : Parser α :=
  ⟨fun c =>
    match p.run c with
    | (.ok a, c') => (.ok a, c')
    | (.error e, _) => (.error e, c)⟩

/-- Name the construct in the errors that have no context yet. -/
def within (p : Parser α) (context : String) : Parser α :=
  ⟨fun c =>
    match p.run c with
    | (.ok a, c') => (.ok a, c')
    | (.error e, c') => (.error (e.within context), c')⟩

/-- The result of a parser that may fail, as a value. -/
def result (p : Parser α) : Parser (Except ParseError α) :=
  ⟨fun c => (.ok (p.run c).1, (p.run c).2)⟩

/-- Require a token. -/
def require (kind : TokenKind) (text : String) : Parser Token := do
  match ← readIf kind text with
  | some t => pure t
  | none => withCursor fun c => fail (.expectedToken text c.peek? c.nextSpan)

/-- Require a symbol. -/
def requireSymbol (text : String) : Parser Token := do
  match ← readIf .symbol text with
  | some t => pure t
  | none => withCursor fun c => fail (.expectedSymbol text c.peek? c.nextSpan)

/-- Require an identifier. -/
def requireIdentifier : Parser Token := do
  match ← readKind .identifier with
  | some t => pure t
  | none => withCursor fun c => fail (.expectedIdentifier c.peek? c.nextSpan)

/-- The span from the start of `start` to the end of the last token passed. -/
def spanSince (start : Span) : Parser Span := look fun c => start.merge c.lastSpan

/-- Give a loop one step for each token left, and one to end with. -/
def withFuel (p : Nat → Parser α) : Parser α := withCursor fun c => p (c.rest.length + 1)

/-- The value that a parser reads from the whole input; a token left over is an error. -/
def complete (p : Parser α) : Parser α := do
  let a ← p
  match ← peek? with
  | none => pure a
  | some t =>
    fail (.ofKind .unexpectedToken ("unexpected " ++ t.display ++ " after the end of the input")
      t.span)

/-- Run a parser from the start of a list of tokens. -/
def parse (p : Parser α) (tokens : List Token) : Except ParseError α :=
  (p.run (Cursor.ofTokens tokens)).1

end Parser

end FrontEnd
