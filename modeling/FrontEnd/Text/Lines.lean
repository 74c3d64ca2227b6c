import FrontEnd.Text.Bytes

/-!
# Lines and columns

A line starts at offset zero and after each line feed. Lines and columns are counted from one;
columns count characters.

* `search` looks a value up in an ordered table by halving.
* `LineTable.lineAt` is the line of an offset, `LineTable.position` the line and the column.
* `LineTable.lineText?` is the text of a line without its end.
-/

namespace FrontEnd

open Text

/-- What a search in an ordered table finds: an entry with the value, or the place where it would
be inserted. -/
inductive Found where
  | entry (index : Nat)
  | insertion (index : Nat)
  deriving DecidableEq, Repr

/-- Of the `size` entries from `base` on, the last that is not above the value; the first if all
are. The entries are halved until one is left. -/
def narrow (table : Array Nat) (value base size : Nat) : Nat :=
  if 1 < size then
    let half := size / 2
    let middle := base + half
    if value < table.getD middle 0 then narrow table value base (size - half)
    else narrow table value middle (size - half)
  else base
termination_by size

/-- Look a value up in an ordered table. -/
def search (table : Array Nat) (value : Nat) : Found :=
  if table.isEmpty then .insertion 0
  else
    let last := narrow table value 0 table.size
    let entry := table.getD last 0
    if entry = value then .entry last
    else .insertion (if entry < value then last + 1 else last)

/-- A source and the offsets at which its lines start. -/
structure LineTable where
  source : String
  starts : Array Nat
  deriving DecidableEq, Repr

namespace LineTable

/-- The offsets after the line feeds of a text that starts at `offset`. -/
def startsFrom (offset : Nat) : List Char → List Nat
  | [] => []
  | c :: cs =>
    let next := offset + c.utf8Size
    if c = '\n' then min next Span.limit :: startsFrom next cs else startsFrom next cs

/-- The lines of a source. -/
def ofSource (source : String) : LineTable :=
  ⟨source, (0 :: startsFrom 0 source.toList).toArray⟩

/-- The number of lines. -/
def count (t : LineTable) : Nat := t.starts.size

/-- The line that an offset lies on: the one that starts there, or else the one before the place
where a line that starts there would be. -/
def lineAt (t : LineTable) (offset : Nat) : Nat :=
  match search t.starts offset with
  | .entry index => index + 1
  | .insertion index => index - 1 + 1

/-- Where a line starts. -/
def lineStart? (t : LineTable) (line : Nat) : Option Nat :=
  match line with
  | 0 => none
  | n + 1 => t.starts[n]?

/-- A number of characters as a 32-bit word. One that does not fit becomes the largest but one, so
that it can still be counted on from. -/
def countWord (n : Nat) : UInt32 :=
  if n ≤ Span.limit then UInt32.ofNat n else 4294967294

/-- The number of characters between the start of a line and an offset on it. The offset is taken
to the end of the source if it is beyond. -/
def charsBefore (t : LineTable) (lineStart offset : Nat) : Nat :=
  let stop := max (min offset (byteLength t.source.toList)) lineStart
  match between t.source.toList lineStart stop with
  | some cs => cs.length
  | none => 0

/-- The line and the column of an offset. -/
def position (t : LineTable) (offset : Nat) : Nat × UInt32 :=
  let line := t.lineAt offset
  let start := (t.lineStart? line).getD 0
  (line, countWord (t.charsBefore start offset) + 1)

/-- The characters without the line feeds and carriage returns at their end. -/
def trimLineEnd (cs : List Char) : List Char :=
  (cs.reverse.dropWhile (fun c => c == '\n' || c == '\r')).reverse

/-- The text of a line without its end. -/
def lineText? (t : LineTable) (line : Nat) : Option String :=
  match t.lineStart? line with
  | none => none
  | some start =>
    let stop := (t.lineStart? (line + 1)).getD (byteLength t.source.toList)
    match between t.source.toList start stop with
    | some cs => some (String.ofList (trimLineEnd cs))
    | none => none

/-- The line and the column where a span starts. -/
def spanStart (t : LineTable) (span : Span) : Nat × UInt32 := t.position span.start

end LineTable

end FrontEnd
