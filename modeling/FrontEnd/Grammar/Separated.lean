import FrontEnd.Grammar.Parser

/-!
# Separated and enclosed elements

* `Parser.sepBy` reads the longest series of elements with a delimiter between each two. It never
  fails; a delimiter that no element follows is not read (`run_moreElements_of_error`).
* `Parser.enclosed` reads something between an opening and a closing token. Where the opening
  token is missing it still reads what is inside before it fails.
-/

namespace FrontEnd.Parser

variable {α : Type}

/-- The elements that follow a first one, each after a delimiter. -/
def moreElements (element : Parser α) (kind : TokenKind) (delimiter : String) :
    Nat → Parser (List α)
  | 0 => pure []
  | fuel + 1 =>
    ⟨fun c =>
      match c.readIf kind delimiter with
      | (none, _) => (.ok [], c)
      | (some _, afterDelimiter) =>
        match element.run afterDelimiter with
        | (.error _, _) => (.ok [], c)
        | (.ok a, afterElement) =>
          ((a :: ·) <$> moreElements element kind delimiter fuel).run afterElement⟩

/-- A series of elements with a delimiter between each two. -/
def sepBy (element : Parser α) (kind : TokenKind) (delimiter : String) : Parser (List α) :=
  ⟨fun c =>
    match element.run c with
    | (.error _, _) => (.ok [], c)
    | (.ok a, afterElement) =>
      ((a :: ·) <$> withFuel (moreElements element kind delimiter)).run afterElement⟩

/-- The tokens that stand around something. -/
structure Brackets where
  openKind : TokenKind
  openText : String
  closeKind : TokenKind
  closeText : String
  deriving DecidableEq, Repr

/-- Symbols that stand around something. -/
def Brackets.symbols (openText closeText : String) : Brackets :=
  ⟨.symbol, openText, .symbol, closeText⟩

/-- Something between brackets. -/
def enclosed (inner : Parser α) (b : Brackets) : Parser α :=
  withCursor fun start => do
    if ← accept b.openKind b.openText then
      let a ← inner
      if ← accept b.closeKind b.closeText then
        pure a
      else
        withCursor fun c => fail (.expectedToken b.closeText c.peek? c.nextSpan)
    else
      let _ ← result inner
      fail (.expectedToken b.openText start.peek? start.nextSpan)

/-- A delimiter that no element follows is left in place. -/
theorem run_moreElements_of_error {element : Parser α} {kind : TokenKind} {delimiter : String}
    {fuel : Nat} {c c' c'' : Cursor} {t : Token} {e : ParseError}
    (hd : c.readIf kind delimiter = (some t, c')) (he : element.run c' = (.error e, c'')) :
    (moreElements element kind delimiter (fuel + 1)).run c = (.ok [], c) := by
  simp [moreElements, hd, he]

end FrontEnd.Parser
