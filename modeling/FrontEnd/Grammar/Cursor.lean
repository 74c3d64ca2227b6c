import FrontEnd.Token.Basic

/-!
# Cursors

A cursor is a place in a list of tokens, kept as the tokens before it, latest first, and the tokens
from it on. The end of the list is the end of the input.

* `Cursor.tokens_read`: reading changes the place only, never the list.
* `Cursor.readIf` reads a token if it has the given kind and text.
-/

namespace FrontEnd

/-- A place in a list of tokens. -/
structure Cursor where
  passed : List Token
  rest : List Token
  deriving DecidableEq, Repr, Inhabited

namespace Cursor

/-- The start of a list of tokens. -/
def ofTokens (tokens : List Token) : Cursor := ⟨[], tokens⟩

/-- The whole list. -/
def tokens (c : Cursor) : List Token := c.passed.reverse ++ c.rest

/-- The index of the next token. -/
def position (c : Cursor) : Nat := c.passed.length

/-- The length of the whole list. -/
def tokenCount (c : Cursor) : Nat := c.passed.length + c.rest.length

/-- No token is left. -/
def atEnd (c : Cursor) : Bool := c.rest.isEmpty

/-- The next token. -/
def peek? (c : Cursor) : Option Token := c.rest.head?

/-- The token `offset` places after the next one. -/
def peekAt? (c : Cursor) (offset : Nat) : Option Token := c.rest[offset]?

/-- The next token has this kind and this text. -/
def nextIs (c : Cursor) (kind : TokenKind) (text : String) : Bool :=
  c.peek?.any (fun t => t.is kind text)

/-- The token `offset` places on has this kind and this text. -/
def nextIsAt (c : Cursor) (kind : TokenKind) (text : String) (offset : Nat) : Bool :=
  (c.peekAt? offset).any (fun t => t.is kind text)

/-- The next token has this text, whatever its kind. -/
def nextHasText (c : Cursor) (text : String) : Bool :=
  c.peek?.any (fun t => t.text == text)

/-- The token `offset` places on has this text. -/
def nextHasTextAt (c : Cursor) (text : String) (offset : Nat) : Bool :=
  (c.peekAt? offset).any (fun t => t.text == text)

/-- The next token has this kind. -/
def nextHasKind (c : Cursor) (kind : TokenKind) : Bool :=
  c.peek?.any (fun t => t.kind == kind)

/-- The span of the last token passed. -/
def lastSpan (c : Cursor) : Span :=
  match c.passed with
  | t :: _ => t.span
  | [] => Span.none

/-- The span of the next token; at the end, the point where the last token ends. -/
def nextSpan (c : Cursor) : Span :=
  match c.rest, c.passed with
  | t :: _, _ => t.span
  | [], t :: _ => Span.point t.span.stop
  | [], [] => Span.none

/-- Pass the next token. -/
def read (c : Cursor) : Option Token × Cursor :=
  match c.rest with
  | t :: rest => (some t, ⟨t :: c.passed, rest⟩)
  | [] => (none, c)

/-- Pass the next token if it has this kind and this text. -/
def readIf (c : Cursor) (kind : TokenKind) (text : String) : Option Token × Cursor :=
  if c.nextIs kind text then c.read else (none, c)

/-- Pass the next token if it has this kind. -/
def readKind (c : Cursor) (kind : TokenKind) : Option Token × Cursor :=
  if c.nextHasKind kind then c.read else (none, c)

/-- Pass the next token if it has this text. -/
def readText (c : Cursor) (text : String) : Option Token × Cursor :=
  if c.nextHasText text then c.read else (none, c)

@[simp] theorem tokens_ofTokens (ts : List Token) : (ofTokens ts).tokens = ts := rfl

theorem tokens_read (c : Cursor) : c.read.2.tokens = c.tokens := by
  obtain ⟨passed, rest⟩ := c
  cases rest <;> simp [read, tokens]

theorem tokens_readIf (c : Cursor) (kind : TokenKind) (text : String) :
    (c.readIf kind text).2.tokens = c.tokens := by
  unfold readIf
  split
  · exact tokens_read c
  · rfl

theorem tokenCount_eq_length (c : Cursor) : c.tokenCount = c.tokens.length := by
  simp [tokenCount, tokens]

theorem position_le_tokenCount (c : Cursor) : c.position ≤ c.tokenCount :=
  Nat.le_add_right _ _

theorem readIf_eq_some {c c' : Cursor} {kind : TokenKind} {text : String} {t : Token}
    (h : c.readIf kind text = (some t, c')) :
    t.kind = kind ∧ t.text = text ∧ c.rest = t :: c'.rest ∧ c'.passed = t :: c.passed := by
  obtain ⟨passed, rest⟩ := c
  cases rest with
  | nil => simp [readIf, nextIs, peek?] at h
  | cons u rest =>
    by_cases hu : u.is kind text = true
    · simp only [readIf, nextIs, peek?, List.head?_cons, Option.any_some, hu, if_true, read,
        Prod.mk.injEq, Option.some.injEq] at h
      obtain ⟨rfl, rfl⟩ := h
      rw [Token.is_iff] at hu
      exact ⟨hu.1, hu.2, rfl, rfl⟩
    · simp [readIf, nextIs, peek?, hu] at h

end Cursor

end FrontEnd
