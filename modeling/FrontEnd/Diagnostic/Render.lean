import FrontEnd.Diagnostic.Basic
import FrontEnd.Text.Lines

/-!
# Rendered diagnostics

A diagnostic is rendered as a headline, a line for each label, the source line under the primary
ones with carets below the labelled text, and a line for each note; a blank line ends it. Colors
are escape sequences of terminals.

* `Renderer.diagnostic`, `Renderer.summary` give the text.
* `report` renders a list of diagnostics and their summary without colors.
-/

namespace FrontEnd

/-- When to use colors. -/
inductive ColorMode where
  | auto
  | always
  | never
  deriving DecidableEq, Repr, Inhabited

/-- Whether colors are used, on a terminal or elsewhere. -/
def ColorMode.usesColors (mode : ColorMode) (onTerminal : Bool) : Bool :=
  match mode with
  | auto => onTerminal
  | always => true
  | never => false

/-- The styles of rendered text. -/
inductive Style where
  | error
  | warning
  | note
  | bold
  | secondary
  deriving DecidableEq, Repr, Inhabited

/-- The sequence that starts a style. -/
def Style.start : Style → String
  | error => "\x1b[1;31m"
  | warning => "\x1b[1;33m"
  | note => "\x1b[1;36m"
  | bold => "\x1b[1m"
  | secondary => "\x1b[1;34m"

/-- The sequence that ends every style. -/
def Style.reset : String := "\x1b[0m"

/-- The style of a severity. -/
def Severity.style : Severity → Style
  | error => .error
  | warning => .warning
  | note => .note

/-- A number of equal characters. -/
def repeated (c : Char) (n : Nat) : String := String.ofList (List.replicate n c)

/-- The first line of a text, without the line feed or carriage return and line feed that end it;
an empty text has no line. -/
def firstLine? (cs : List Char) : Option (List Char) :=
  match cs with
  | [] => none
  | _ :: _ =>
    let line := cs.takeWhile (fun c => c != '\n')
    if line.length < cs.length ∧ line.getLast? = some '\r' then some line.dropLast
    else some line

/-- A source to show lines of, and whether colors are used. -/
structure Renderer where
  lines : LineTable
  colored : Bool
  deriving DecidableEq, Repr

namespace Renderer

/-- A renderer for a source. -/
def ofSource (source : String) (colored : Bool) : Renderer := ⟨.ofSource source, colored⟩

/-- Text in a style. -/
def styled (r : Renderer) (s : String) (style : Style) : String :=
  if r.colored then style.start ++ s ++ Style.reset else s

/-- The number of carets below a span: as many as it has characters on its first line, or one if
that is not known. -/
def caretCount (r : Renderer) (span : Span) : Nat :=
  match Text.between r.lines.source.toList span.start span.stop with
  | none => 1
  | some cs =>
    match firstLine? cs with
    | none => 1
    | some line => line.length

/-- A source line with carets below it from a column on. -/
def snippet (r : Renderer) (line : Nat) (column : UInt32) (width : Nat) : String :=
  match r.lines.lineText? line with
  | none => ""
  | some text =>
    let gutter := Nat.repr line
    let pad := repeated ' ' gutter.length
    let marker := repeated ' ' (column.toNat - 1) ++ repeated '^' (max width 1)
    " " ++ pad ++ " |\n" ++
      " " ++ gutter ++ " | " ++ text ++ "\n" ++
      " " ++ pad ++ " | " ++ r.styled marker .error ++ "\n"

/-- The place and the message of a label, and below a primary one its source line. -/
def label (r : Renderer) (l : Label) : String :=
  let (line, column) := r.lines.position l.span.start
  "  " ++ (if l.isPrimary then "-->" else "   ") ++ " " ++ Nat.repr line ++ ":" ++
    Nat.repr column.toNat ++ ": " ++
    r.styled l.message (if l.isPrimary then .error else .secondary) ++ "\n" ++
    (if l.isPrimary then r.snippet line column (r.caretCount l.span) else "")

/-- A note on a line of its own. -/
def note (r : Renderer) (text : String) : String :=
  "  = " ++ r.styled "note" .bold ++ ": " ++ text ++ "\n"

/-- A whole diagnostic. -/
def diagnostic (r : Renderer) (d : Diagnostic) : String :=
  r.styled d.severity.text d.severity.style ++
    r.styled ("[" ++ d.code.text ++ "]") .bold ++ ": " ++ d.message ++ "\n" ++
    String.join (d.labels.map r.label) ++ String.join (d.notes.map r.note) ++ "\n"

/-- Diagnostics one after another. -/
def diagnostics (r : Renderer) (ds : List Diagnostic) : String :=
  String.join (ds.map r.diagnostic)

/-- How many errors there were; warnings are counted only if there were no errors. -/
def summary (r : Renderer) (errors warnings : Nat) : String :=
  if errors > 0 then
    r.styled "error" .error ++ ": aborting due to " ++
      (if errors = 1 then "previous error" else Nat.repr errors ++ " previous errors") ++ "\n"
  else if warnings > 0 then
    r.styled "warning" .warning ++ ": " ++ Nat.repr warnings ++
      (if warnings = 1 then " warning emitted\n" else " warnings emitted\n")
  else ""

end Renderer

/-- Diagnostics and their summary, without colors. What is no error counts as a warning. -/
def report (source : String) (ds : List Diagnostic) : String :=
  let r := Renderer.ofSource source false
  let errors := ds.countP Diagnostic.isError
  r.diagnostics ds ++ r.summary errors (ds.length - errors)

end FrontEnd
