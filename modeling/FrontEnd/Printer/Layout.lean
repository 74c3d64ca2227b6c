/-!
# Layout of printed text

Printing gives a list of pieces: fragments of text, line ends and changes of the indentation level.
A layout puts them into a text. Indentation is written when the first fragment of a line comes, so
an empty line has no spaces.

* `Layout.step` is the meaning of one piece, `Layout.run` of a list of them.
* `Layout.finish` ends a text with exactly one line feed.
-/

namespace FrontEnd

/-- A piece of printed text. -/
inductive Piece where
  | text (fragment : String)
  | newline
  | indent
  | dedent
  deriving DecidableEq, Repr, Inhabited

/-- The text so far, the indentation level, the spaces for each level, and whether the next
fragment starts a line. -/
structure Layout where
  text : String
  level : Nat
  indentSize : Nat
  atLineStart : Bool
  deriving DecidableEq, Repr

/-- The number of spaces for a level where nothing else is asked for. -/
def defaultIndent : Nat := 4

/-- A number of spaces. -/
def spaces (width : Nat) : String := String.ofList (List.replicate width ' ')

/-- The text without the line feeds at its end, and with one in their place unless it is empty. -/
def endWithNewline (s : String) : String :=
  if s.isEmpty then s
  else String.ofList ((s.toList.reverse.dropWhile (fun c => c == '\n')).reverse) ++ "\n"

namespace Layout

/-- A layout with no text. -/
def empty (indentSize : Nat) : Layout := ⟨"", 0, indentSize, true⟩

/-- Add a fragment, and the indentation of its line if it is the first on it. An empty fragment
adds nothing. -/
def write (l : Layout) (fragment : String) : Layout :=
  if fragment.isEmpty then l
  else if l.atLineStart then
    { l with text := l.text ++ spaces (l.level * l.indentSize) ++ fragment, atLineStart := false }
  else { l with text := l.text ++ fragment }

/-- End the line. -/
def newline (l : Layout) : Layout := { l with text := l.text ++ "\n", atLineStart := true }

/-- Go one level in. -/
def indent (l : Layout) : Layout := { l with level := l.level + 1 }

/-- Go one level out; the outermost level is as far as that goes. -/
def dedent (l : Layout) : Layout := { l with level := l.level - 1 }

/-- Add one piece. -/
def step (l : Layout) : Piece → Layout
  | .text fragment => l.write fragment
  | .newline => l.newline
  | .indent => l.indent
  | .dedent => l.dedent

/-- Add pieces in order. -/
def run (l : Layout) (pieces : List Piece) : Layout := pieces.foldl step l

/-- The text, ended by one line feed. -/
def finish (l : Layout) : String := endWithNewline l.text

@[simp] theorem run_nil (l : Layout) : l.run [] = l := rfl

@[simp] theorem run_cons (l : Layout) (p : Piece) (ps : List Piece) :
    l.run (p :: ps) = (l.step p).run ps := rfl

theorem run_append (l : Layout) (ps qs : List Piece) : l.run (ps ++ qs) = (l.run ps).run qs := by
  simp [run]

theorem step_indentSize (l : Layout) (p : Piece) : (l.step p).indentSize = l.indentSize := by
  cases p with
  | text fragment =>
    simp only [step, write]
    repeat' split
    all_goals rfl
  | newline => rfl
  | indent => rfl
  | dedent => rfl

theorem run_indentSize (l : Layout) (ps : List Piece) : (l.run ps).indentSize = l.indentSize := by
  induction ps generalizing l with
  | nil => rfl
  | cons p ps ih => rw [run_cons, ih, step_indentSize]

end Layout

end FrontEnd
