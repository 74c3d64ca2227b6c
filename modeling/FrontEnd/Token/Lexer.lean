import FrontEnd.Token.Lexeme

/-!
# Lexers

A lexer reads the tokens of one source in order. It can be asked for one token at a time, also
after an error, for all that are left, or be iterated.

* `Lexer.nextToken` skips blanks and reads one lexeme; at the end it answers the end token, however
  often it is asked.
* `Lexer.next` iterates: it answers nothing once it has answered the end token or an error.
* `Lexer.lex` reads the tokens up to the end token or the first error.
* `nextToken_rest_lt`: every call that does not meet the end takes a character.
-/

namespace FrontEnd

/-- A source, the offset reached in it, the characters from there on, and whether iteration is
over. -/
structure Lexer where
  source : String
  offset : Nat
  rest : List Char
  finished : Bool
  deriving Repr

namespace Lexer

/-- A lexer at the start of a source. -/
def ofSource (source : String) : Lexer := ⟨source, 0, source.toList, false⟩

/-- The offset of the next lexeme. -/
def lexemeStart (l : Lexer) : Nat :=
  l.offset + Text.byteLength (l.rest.takeWhile isBlank)

/-- Read one token. A malformed literal is an error whose span is what was taken for it, and the
lexer goes on after that. -/
def nextToken (l : Lexer) : Except LexError Token × Lexer :=
  let start := l.lexemeStart
  match scan (l.rest.dropWhile isBlank) with
  | none => (.ok (Token.endOfFile start), { l with offset := start, rest := [] })
  | some x =>
    let stop := start + Text.byteLength x.taken
    let span := Span.ofRange start stop
    let result :=
      match x.reading with
      | .token kind text value => .ok ⟨kind, text, value, span⟩
      | .malformed problem => .error ⟨problem, span⟩
    (result, { l with offset := stop, rest := x.rest })

/-- Iteration ends after this answer. -/
def isLast : Except LexError Token → Bool
  | .ok t => t.isEnd
  | .error _ => true

/-- Iterate: read one token unless the end token or an error has come already. -/
def next (l : Lexer) : Option (Except LexError Token) × Lexer :=
  if l.finished then (none, l)
  else
    let (result, l') := l.nextToken
    (some result, { l' with finished := isLast result })

/-- Read tokens up to the end token, which is not kept, or the first error. -/
def lexAux : Nat → Lexer → Except LexError (List Token) × Lexer
  | 0, l => (.ok [], l)
  | fuel + 1, l =>
    match l.nextToken with
    | (.error e, l') => (.error e, l')
    | (.ok t, l') =>
      if t.isEnd then (.ok [], l')
      else
        match lexAux fuel l' with
        | (.ok ts, l'') => (.ok (t :: ts), l'')
        | (.error e, l'') => (.error e, l'')

/-- The tokens left, without the end token, or the first error. Every token takes a character, so
there are no more of them than characters. -/
def lex (l : Lexer) : Except LexError (List Token) × Lexer := lexAux (l.rest.length + 1) l

/-- What iteration answers until it is over. -/
def iterateAux : Nat → Lexer → List (Except LexError Token)
  | 0, _ => []
  | fuel + 1, l =>
    match l.next with
    | (none, _) => []
    | (some result, l') => result :: iterateAux fuel l'

/-- What iteration answers: tokens, then the end token or an error. -/
def iterate (l : Lexer) : List (Except LexError Token) := iterateAux (l.rest.length + 1) l

theorem nextToken_source (l : Lexer) : l.nextToken.2.source = l.source := by
  unfold nextToken
  dsimp only
  split <;> rfl

theorem nextToken_finished (l : Lexer) : l.nextToken.2.finished = l.finished := by
  unfold nextToken
  dsimp only
  split <;> rfl

theorem length_dropWhile_le (p : Char → Bool) (cs : List Char) :
    (cs.dropWhile p).length ≤ cs.length :=
  (List.dropWhile_sublist p).length_le

/-- A run of characters ends before one that does not go on with it. -/
theorem run_append {p : Char → Bool} {run rest : List Char} (hall : ∀ c ∈ run, p c = true)
    (hstop : ∀ c ∈ rest.head?, p c = false) :
    (run ++ rest).takeWhile p = run ∧ (run ++ rest).dropWhile p = rest := by
  rw [List.takeWhile_append_of_pos hall, List.dropWhile_append_of_pos hall]
  cases rest with
  | nil => exact ⟨List.append_nil run, rfl⟩
  | cons c rest =>
    have hc := hstop c rfl
    simp [hc]

/-- A call that does not answer the end token leaves fewer characters. -/
theorem nextToken_rest_lt {l : Lexer} (h : l.rest.dropWhile isBlank ≠ []) :
    l.nextToken.2.rest.length < l.rest.length := by
  obtain ⟨x, hx⟩ := Option.isSome_iff_exists.mp (scan_isSome h)
  have happ := scan_taken_append_rest hx
  have hne := scan_taken_ne_nil hx
  have hpos : 0 < x.taken.length := List.length_pos_iff.mpr hne
  have hle := length_dropWhile_le isBlank l.rest
  rw [← happ, List.length_append] at hle
  simp only [nextToken, hx]
  omega

end Lexer

/-- The tokens of a source, without the end token. -/
def lex (source : String) : Except LexError (List Token) := (Lexer.ofSource source).lex.1

end FrontEnd
