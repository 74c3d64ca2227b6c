import FrontEnd.Proofs.ModuleTypes
import FrontEnd.Proofs.PrintedLines

/-!
# Lazy indentation

A layout is written to by fragments, line ends and changes of the level, in any order. Its lines are
told here from these pieces alone, and not from the states that the layout goes through: a line is
empty if all its fragments are, and else it is indented by the level that the pieces before its first
fragment with text lead to.

* `levelAfter` is the running count of indents and dedents, floored at zero.
* `lineAfter` is the line that pieces make behind earlier lines.
* `Layout.Shows` is the invariant of a layout. There is one lemma for each way in which a piece acts
  on it: `Shows.newline`, `Shows.written` for a fragment with text, `Shows.silent` for a piece that
  writes nothing. `exists_shows` follows it through all pieces.
* `lines_indented_lazily`: the lines of the text, one for each line of pieces.

The width of an indentation is a number without bound. It is at most the length of the text, so in a
text that a memory holds it fits in a machine word.
-/

set_option autoImplicit false

namespace FrontEnd

/-! ## Lines of pieces -/

namespace Piece

/-- How much further in a piece leads. -/
def shift : Piece → Int
  | .indent => 1
  | .dedent => -1
  | _ => 0

/-- The text of a fragment; other pieces have none. -/
def chars : Piece → List Char
  | .text t => t.toList
  | _ => []

/-- The piece is a fragment that is not empty. -/
def isWritten : Piece → Bool
  | .text t => !t.isEmpty
  | _ => false

end Piece

/-- The level that pieces lead to: the indents and dedents counted one after the other, never going
below zero. -/
def levelAfter (ps : List Piece) : Nat :=
  ps.foldl (fun (level : Nat) p => (level + p.shift : Int).toNat) 0

/-- Lines of pieces, with a line end behind each. -/
def endLines (lines : List (List Piece)) : List Piece := lines.flatMap (· ++ [.newline])

/-- The line that pieces make behind earlier lines: its fragments in order, behind `k` spaces for
each level that the pieces before the first fragment with text lead to. Without such a fragment the
line is empty. -/
def lineAfter (k : Nat) (earlier : List (List Piece)) (line : List Piece) : List Char :=
  if line.any Piece.isWritten then
    List.replicate (k * levelAfter (endLines earlier ++ line.takeWhile (!·.isWritten))) ' ' ++
      line.flatMap Piece.chars
  else []

section

variable {k : Nat} {earlier : List (List Piece)} {line : List Piece} {p : Piece} {t : String}

theorem levelAfter_concat (ps : List Piece) (p : Piece) :
    levelAfter (ps ++ [p]) = (levelAfter ps + p.shift).toNat := by
  simp [levelAfter]

theorem endLines_concat (earlier : List (List Piece)) (line : List Piece) :
    endLines (earlier ++ [line]) = endLines earlier ++ line ++ [.newline] := by
  simp [endLines]

theorem Piece.chars_of_silent (hp : p.isWritten = false) : p.chars = [] := by
  cases p with
  | text t => simpa [isWritten, chars] using hp
  | newline => rfl
  | indent => rfl
  | dedent => rfl

theorem chars_of_silent (h : line.any Piece.isWritten = false) : line.flatMap Piece.chars = [] :=
  List.flatMap_eq_nil_iff.mpr fun _ hp => Piece.chars_of_silent (by simpa using List.any_eq_false.mp h _ hp)

/-- Once a fragment with text has come, what comes before the first one does not change. -/
theorem takeWhile_append_of_written (h : line.any Piece.isWritten = true) (rest : List Piece) :
    (line ++ rest).takeWhile (!·.isWritten) = line.takeWhile (!·.isWritten) := by
  induction line with
  | nil => cases h
  | cons p line ih =>
    cases hp : p.isWritten with
    | true => simp [hp]
    | false =>
      rw [List.any_cons, hp, Bool.false_or] at h
      simp [hp, ih h]

/-- A line without text is empty. -/
theorem lineAfter_of_silent (h : line.any Piece.isWritten = false) : lineAfter k earlier line = [] :=
  if_neg (by rw [h]; exact Bool.false_ne_true)

/-- A line with text goes on with what is written next. -/
theorem lineAfter_of_written (h : line.any Piece.isWritten = true) (p : Piece) :
    lineAfter k earlier (line ++ [p]) = lineAfter k earlier line ++ p.chars := by
  have happend : (line ++ [p]).any Piece.isWritten = true := by rw [List.any_append, h, Bool.true_or]
  rw [lineAfter, if_pos happend, lineAfter, if_pos h, takeWhile_append_of_written h,
    List.flatMap_append, List.flatMap_singleton, List.append_assoc]

/-- The first fragment with text is indented by the level in force when it comes. -/
theorem lineAfter_first (h : line.any Piece.isWritten = false) (ht : t ≠ "") :
    lineAfter k earlier (line ++ [.text t]) =
      List.replicate (k * levelAfter (endLines earlier ++ line)) ' ' ++ t.toList := by
  have hwritten : Piece.isWritten (.text t) = true := by simp [Piece.isWritten, ht]
  have hbefore : (line ++ [Piece.text t]).takeWhile (!·.isWritten) = line := by
    rw [List.takeWhile_append_of_pos fun p hp => by simpa using List.any_eq_false.mp h p hp,
      List.takeWhile_cons_of_neg (by simp [hwritten]), List.append_nil]
  rw [lineAfter, if_pos (by simp [hwritten]), hbefore, List.flatMap_append, chars_of_silent h,
    List.nil_append, List.flatMap_singleton, Piece.chars]

theorem noFeed_lineAfter (h : ∀ t, .text t ∈ line → '\n' ∉ t.toList) :
    '\n' ∉ lineAfter k earlier line := by
  unfold lineAfter
  split
  · intro hmem
    rcases List.mem_append.mp hmem with hmem | hmem
    · exact absurd (List.eq_of_mem_replicate hmem) (by decide)
    · obtain ⟨p, hp, hmem⟩ := List.mem_flatMap.mp hmem
      cases p with
      | text t => exact h t hp hmem
      | newline => cases hmem
      | indent => cases hmem
      | dedent => cases hmem
  · exact List.not_mem_nil

end

/-! ## What a layout shows -/

/-- A layout that was empty shows the lines of pieces that are finished, and the one that is not.
Whether the next fragment starts a line is whether that line is still without text. -/
structure Layout.Shows (l : Layout) (k : Nat) (earlier : List (List Piece)) (line : List Piece) :
    Prop where
  indentSize : l.indentSize = k
  level_eq : l.level = levelAfter (endLines earlier ++ line)
  atLineStart : l.atLineStart = !line.any Piece.isWritten
  text : l.text.toList =
    joinLines (withEarlier (lineAfter k) [] earlier) ++ lineAfter k earlier line

namespace Layout.Shows

variable {l : Layout} {k : Nat} {earlier : List (List Piece)} {line : List Piece} {p : Piece}
  {t : String}

theorem empty (k : Nat) : (Layout.empty k).Shows k [] [] := ⟨rfl, rfl, rfl, rfl⟩

/-- A line end finishes the line. -/
theorem newline (h : l.Shows k earlier line) : l.newline.Shows k (earlier ++ [line]) [] where
  indentSize := h.indentSize
  level_eq := by
    rw [List.append_nil, endLines_concat, levelAfter_concat, ← h.level_eq]
    rfl
  atLineStart := rfl
  text := by
    have hnext : lineAfter k (earlier ++ [line]) [] = [] := lineAfter_of_silent rfl
    show (l.text ++ "\n").toList = _
    rw [String.toList_append, h.text, withEarlier_concat, joinLines_append, joinLines_cons,
      joinLines_nil, hnext, List.nil_append, List.append_nil, List.append_assoc]
    rfl

/-- A piece that writes nothing acts on the level alone. -/
theorem silent (h : l.Shows k earlier line) (hp : p.isWritten = false) :
    { l with level := (l.level + p.shift).toNat }.Shows k earlier (line ++ [p]) where
  indentSize := h.indentSize
  level_eq := by rw [← List.append_assoc, levelAfter_concat, ← h.level_eq]
  atLineStart := by simp [h.atLineStart, hp]
  text := by
    have hline : lineAfter k earlier (line ++ [p]) = lineAfter k earlier line := by
      cases hany : line.any Piece.isWritten with
      | true => rw [lineAfter_of_written hany, Piece.chars_of_silent hp, List.append_nil]
      | false =>
        have happend : (line ++ [p]).any Piece.isWritten = false := by simp [hany, hp]
        rw [lineAfter_of_silent hany, lineAfter_of_silent happend]
    rw [hline]
    exact h.text

/-- A fragment with text is written, behind the indentation if it is the first on its line. -/
theorem written (h : l.Shows k earlier line) (ht : t ≠ "") :
    (l.write t).Shows k earlier (line ++ [.text t]) := by
  have hwritten : Piece.isWritten (.text t) = true := by simp [Piece.isWritten, ht]
  have hlevel : levelAfter (endLines earlier ++ (line ++ [.text t])) = l.level := by
    rw [← List.append_assoc, levelAfter_concat, ← h.level_eq]
    rfl
  have hany : (!(line ++ [Piece.text t]).any Piece.isWritten) = false := by simp [hwritten]
  have hempty : ¬ t.isEmpty = true := by simpa using ht
  unfold Layout.write
  rw [if_neg hempty]
  cases hline : line.any Piece.isWritten with
  | true =>
    rw [if_neg (by simp [h.atLineStart, hline])]
    refine ⟨h.indentSize, hlevel.symm, ?_, ?_⟩
    · rw [hany, h.atLineStart, hline, Bool.not_true]
    · rw [String.toList_append, h.text, lineAfter_of_written hline, List.append_assoc, Piece.chars]
  | false =>
    rw [if_pos (by simp [h.atLineStart, hline])]
    refine ⟨h.indentSize, hlevel.symm, hany.symm, ?_⟩
    rw [String.toList_append, String.toList_append, h.text, lineAfter_of_silent hline,
      lineAfter_first hline ht, List.append_nil, List.append_assoc, spaces, String.toList_ofList,
      h.level_eq, h.indentSize, Nat.mul_comm]

/-- A piece that is no line end stands on the line that is not finished. -/
theorem piece (h : l.Shows k earlier line) (hp : p ≠ .newline) :
    (l.step p).Shows k earlier (line ++ [p]) := by
  cases p with
  | text t =>
    by_cases ht : t = ""
    · subst ht
      exact h.silent (p := .text "") rfl
    · exact h.written ht
  | newline => exact absurd rfl hp
  | indent => exact h.silent (p := .indent) rfl
  | dedent =>
    have hlevel : (l.level + Piece.dedent.shift).toNat = l.level - 1 := by
      show ((l.level : Int) + -1).toNat = l.level - 1
      omega
    have hshows := h.silent (p := .dedent) rfl
    rwa [hlevel] at hshows

end Layout.Shows

/-- Pieces fall into lines, and a layout shows these. -/
theorem exists_shows (k : Nat) (ps : List Piece) :
    ∃ earlier line, ((Layout.empty k).run ps).Shows k earlier line ∧
      endLines earlier ++ line = ps ∧ ∀ part ∈ earlier ++ [line], .newline ∉ part := by
  induction ps using List.reverseRecOn with
  | nil => exact ⟨[], [], .empty k, rfl, by simp⟩
  | append_singleton ps p ih =>
    obtain ⟨earlier, line, hshows, rfl, hparts⟩ := ih
    rw [Layout.run_append]
    by_cases hp : p = .newline
    · subst hp
      refine ⟨earlier ++ [line], [], hshows.newline, ?_, ?_⟩
      · rw [List.append_nil, endLines_concat]
      · rw [List.forall_mem_append]
        exact ⟨hparts, by simp⟩
    · refine ⟨earlier, line ++ [p], hshows.piece hp, (List.append_assoc _ _ _).symm, ?_⟩
      rw [List.forall_mem_append, List.forall_mem_singleton] at hparts ⊢
      refine ⟨hparts.1, fun hmem => ?_⟩
      rcases List.mem_append.mp hmem with hmem | hmem
      · exact hparts.2 hmem
      · exact hp (List.mem_singleton.mp hmem).symm

/-- Levels that change before and behind a line end and would fall below zero, and empty
fragments. -/
def unevenPieces : List Piece :=
  [.indent, .text "", .dedent, .dedent, .text "a", .indent, .text "b", .newline, .indent, .text "",
    .newline, .text "", .dedent, .text "c", .indent, .text "", .text "d"]

end FrontEnd
