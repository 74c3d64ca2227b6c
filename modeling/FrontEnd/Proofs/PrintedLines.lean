import FrontEnd.Proofs.BraceDepth
import FrontEnd.Proofs.PrintingModules

/-!
# Lines of printed text

Indentation is written late: a piece that changes the level acts on the next line that something is
written on. So it is a state of the layout that is followed here, piece after piece: the lines that
are finished, the part of a line that is not, the level, and the depth in braces.

* `Row` is what holds of a line that is not blank, at the depth in braces where it starts. `Rows`
  says it of lines that follow each other.
* `Layout.Drawn` is the invariant of a layout that is being written to. There is one lemma for each
  kind of piece: `Drawn.write_first`, `Drawn.write`, `Drawn.newline`, `Drawn.indent`,
  `Drawn.dedent`.
* `Leads` says where pieces lead from where: what they begin with may start a line, or only go on
  with one, and they end a line or not. `Leads.append` puts pieces together, `leads_braces` is for a
  body in braces, which restores the level.
-/

set_option autoImplicit false

namespace FrontEnd

open Lexer

/-! ## Lines -/

/-- Lines, with a line feed behind each. -/
def joinLines (ls : List (List Char)) : List Char := ls.flatMap (· ++ ['\n'])

@[simp] theorem joinLines_nil : joinLines [] = [] := rfl

@[simp] theorem joinLines_cons (line : List Char) (ls : List (List Char)) :
    joinLines (line :: ls) = line ++ '\n' :: joinLines ls := by
  simp [joinLines]

@[simp] theorem joinLines_append (ls ls' : List (List Char)) :
    joinLines (ls ++ ls') = joinLines ls ++ joinLines ls' := List.flatMap_append

/-- The line starts with the indentation of a depth, one less if it starts with a closing brace. -/
def Indented (k : Nat) (depth : Int) (line : List Char) : Prop :=
  ∃ level c cs, line = List.replicate (level * k) ' ' ++ c :: cs ∧ isBlank c = false ∧
    (level : Int) = depth - if c = '\x7d' then 1 else 0

/-- A line that is not blank, and the depth in braces where it starts. -/
structure Row (k : Nat) (depth : Int) (line : List Char) : Prop where
  indented : Indented k depth line
  ending : line.getLast? ≠ some ' '
  noFeed : '\n' ∉ line
  outside : Outside line

/-- Lines that lead from one depth in braces to another. -/
inductive Rows (k : Nat) : Int → List (List Char) → Int → Prop where
  | nil {depth : Int} : Rows k depth [] depth
  | blank {depth depth' : Int} {ls : List (List Char)} (h : Rows k depth ls depth') :
      Rows k depth ([] :: ls) depth'
  | row {depth depth' : Int} {line : List Char} {ls : List (List Char)} (hline : Row k depth line)
      (h : Rows k (depth + Mode.code.depth line) ls depth') : Rows k depth (line :: ls) depth'

section

variable {k : Nat} {depth depth' depth'' : Int} {line : List Char} {ls ls' : List (List Char)}

theorem Indented.ne_nil (h : Indented k depth line) : line ≠ [] := by
  obtain ⟨level, c, cs, rfl, -⟩ := h
  simp

theorem Indented.append (h : Indented k depth line) (cs : List Char) :
    Indented k depth (line ++ cs) := by
  obtain ⟨level, c, ds, rfl, hc, hlevel⟩ := h
  exact ⟨level, c, ds ++ cs, by rw [List.append_assoc, List.cons_append], hc, hlevel⟩

theorem Rows.append (h : Rows k depth ls depth') (h' : Rows k depth' ls' depth'') :
    Rows k depth (ls ++ ls') depth'' := by
  induction h with
  | nil => exact h'
  | blank _ ih => exact .blank (ih h')
  | row hline _ ih => exact .row hline (ih h')

theorem Rows.of_append (h : Rows k depth (ls ++ ls') depth'') :
    ∃ depth', Rows k depth ls depth' ∧ Rows k depth' ls' depth'' := by
  induction ls generalizing depth with
  | nil => exact ⟨depth, .nil, h⟩
  | cons line ls ih =>
    cases h with
    | blank h =>
      obtain ⟨depth', hfirst, hrest⟩ := ih h
      exact ⟨depth', .blank hfirst, hrest⟩
    | row hline h =>
      obtain ⟨depth', hfirst, hrest⟩ := ih h
      exact ⟨depth', .row hline hfirst, hrest⟩

theorem Rows.mem (h : Rows k depth ls depth') :
    ∀ line ∈ ls, '\n' ∉ line ∧ line.getLast? ≠ some ' ' := by
  induction h with
  | nil => exact fun line hline => nomatch hline
  | blank _ ih => exact List.forall_mem_cons.mpr ⟨⟨by simp, by simp⟩, ih⟩
  | row hline _ ih => exact List.forall_mem_cons.mpr ⟨⟨hline.noFeed, hline.ending⟩, ih⟩

theorem outside_line {rest : List Char} (hline : Outside line) (hrest : Outside rest) :
    Outside (line ++ '\n' :: rest) ∧
      Mode.code.depth (line ++ '\n' :: rest) = Mode.code.depth line + Mode.code.depth rest := by
  have hfeed : Mode.code.next '\n' = .code ∧ Mode.code.brace '\n' = 0 := ⟨rfl, rfl⟩
  refine ⟨hline.append ?_, ?_⟩
  · rw [Outside, Mode.after_cons, hfeed.1]
    exact hrest
  · rw [hline.depth_append, Mode.depth_cons, hfeed.1, hfeed.2, Int.zero_add]

/-- Lines lead out of quotes, and as deep in braces as they say. -/
theorem Rows.outside (h : Rows k depth ls depth') :
    Outside (joinLines ls) ∧ depth' = depth + Mode.code.depth (joinLines ls) := by
  induction h with
  | nil => exact ⟨rfl, by simp⟩
  | @blank _ _ ls _ ih =>
    obtain ⟨houtside, hdepth⟩ := @outside_line [] _ rfl ih.1
    rw [joinLines_cons]
    refine ⟨houtside, ?_⟩
    rw [hdepth, Mode.depth_nil, ih.2, Int.zero_add]
  | @row _ _ line ls hline _ ih =>
    obtain ⟨houtside, hdepth⟩ := outside_line hline.outside ih.1
    rw [joinLines_cons]
    refine ⟨houtside, ?_⟩
    rw [hdepth, ih.2, Int.add_assoc]

/-- Parts with a separator behind each are found again by splitting at the separators. -/
theorem splitOn_flatMap_concat {α : Type} [BEq α] [LawfulBEq α] {sep : α} {parts : List (List α)}
    {last : List α} (hparts : ∀ part ∈ parts, sep ∉ part) (hlast : sep ∉ last) :
    (parts.flatMap (· ++ [sep]) ++ last).splitOn sep = parts ++ [last] := by
  have hjoin : parts.flatMap (· ++ [sep]) ++ last = [sep].intercalate (parts ++ [last]) := by
    clear hparts
    induction parts with
    | nil => simp
    | cons part parts ih =>
      rw [List.flatMap_cons, List.append_assoc, ih, List.cons_append,
        List.intercalate_cons_of_ne_nil (by simp)]
  rw [hjoin]
  refine List.splitOn_intercalate sep (fun part hpart => ?_) (by simp)
  rcases List.mem_append.mp hpart with hpart | hpart
  · exact hparts part hpart
  · exact List.mem_singleton.mp hpart ▸ hlast

/-- Lines are found again by splitting the text at its line feeds. -/
theorem splitOn_joinLines {part : List Char} (hls : ∀ line ∈ ls, '\n' ∉ line)
    (hpart : '\n' ∉ part) : (joinLines ls ++ part).splitOn '\n' = ls ++ [part] :=
  splitOn_flatMap_concat hls hpart

end

/-! ## Fragments -/

/-- A fragment stays on its line and outside of quotes, and leads so much deeper in braces. -/
structure Flat (t : String) (depth : Int) : Prop where
  noFeed : '\n' ∉ t.toList
  outside : Outside t.toList
  depth_eq : Mode.code.depth t.toList = depth

/-- A line may start with the fragment: it starts with no blank, and closes no brace. -/
def MayStart (t : String) : Prop :=
  ∃ c, t.toList.head? = some c ∧ isBlank c = false ∧ c ≠ '\x7d'

/-- A line may end with the fragment: it ends with no space. -/
def MayEnd (t : String) : Prop := ∃ c, t.toList.getLast? = some c ∧ c ≠ ' '

theorem flat_of {t : String} {depth : Int} (h : '\n' ∉ t.toList ∧ Mode.code.after t.toList = .code ∧
    Mode.code.depth t.toList = depth) : Flat t depth :=
  ⟨h.1, h.2.1, h.2.2⟩

/-! ## The layout while it is written to -/

/-- What a layout holds: finished lines, and a part of the next one. None of the lines is blank. -/
structure Layout.Drawn (l : Layout) (k level : Nat) (depth : Int) (part : List Char) : Prop where
  indentSize : l.indentSize = k
  level_eq : l.level = level
  atLineStart : l.atLineStart = part.isEmpty
  text : ∃ ls start, l.text.toList = joinLines ls ++ part ∧ Rows k 0 ls start ∧
    (∀ line ∈ ls, line ≠ []) ∧ (part ≠ [] → Indented k start part) ∧
      depth = start + Mode.code.depth part
  noFeed : '\n' ∉ part
  outside : Outside part

namespace Layout.Drawn

variable {l : Layout} {k level : Nat} {depth change : Int} {part : List Char} {t : String}

theorem empty (k : Nat) : (Layout.empty k).Drawn k 0 0 [] :=
  ⟨rfl, rfl, rfl, ⟨[], 0, rfl, .nil, fun _ h => (nomatch h), fun h => absurd rfl h, rfl⟩,
    by simp, rfl⟩

/-- A fragment goes on with a line. -/
theorem write (h : l.Drawn k level depth part) (hpart : part ≠ []) (ht : Flat t change) :
    (l.write t).Drawn k level (depth + change) (part ++ t.toList) := by
  obtain ⟨ls, start, htext, hrows, hne, hindented, hdepth⟩ := h.text
  have hstart : l.atLineStart = false := by rw [h.atLineStart, List.isEmpty_eq_false_iff.mpr hpart]
  have hwrite : l.write t = { l with text := l.text ++ t } := by
    unfold Layout.write
    split
    · next hempty => rw [String.isEmpty_iff.mp hempty, String.append_empty]
    · rw [if_neg (by simp [hstart])]
  have happend : part ++ t.toList ≠ [] := List.append_ne_nil_of_left_ne_nil hpart _
  rw [hwrite]
  refine ⟨h.indentSize, h.level_eq, ?_, ⟨ls, start, ?_, hrows, hne, ?_, ?_⟩, ?_, ?_⟩
  · exact hstart.trans (List.isEmpty_eq_false_iff.mpr happend).symm
  · rw [String.toList_append, htext, List.append_assoc]
  · exact fun _ => (hindented hpart).append _
  · rw [h.outside.depth_append, ht.depth_eq, hdepth, Int.add_assoc]
  · exact fun hmem => (List.mem_append.mp hmem).elim h.noFeed ht.noFeed
  · exact h.outside.append ht.outside

/-- A fragment starts a line: the indentation is written before it. -/
theorem write_first {c : Char} (h : l.Drawn k level depth []) (ht : Flat t change)
    (hc : t.toList.head? = some c) (hblank : isBlank c = false)
    (hlevel : (level : Int) = depth - if c = '\x7d' then 1 else 0) :
    (l.write t).Drawn k level (depth + change) (List.replicate (level * k) ' ' ++ t.toList) := by
  obtain ⟨ls, start, htext, hrows, hne, -, hdepth⟩ := h.text
  rw [List.append_nil] at htext
  rw [Mode.depth_nil, Int.add_zero] at hdepth
  subst hdepth
  obtain ⟨cs, hcs⟩ : ∃ cs, t.toList = c :: cs := by
    cases hcs : t.toList with
    | nil =>
      rw [hcs] at hc
      cases hc
    | cons d cs =>
      rw [hcs] at hc
      exact ⟨cs, by rw [Option.some.inj hc]⟩
  have hwrite : l.write t =
      { l with text := l.text ++ spaces (level * k) ++ t, atLineStart := false } := by
    unfold Layout.write
    rw [isEmpty_of_cons hcs, if_neg Bool.false_ne_true, h.atLineStart, List.isEmpty_nil, if_pos rfl,
      h.level_eq, h.indentSize]
  have hspaces : Outside (List.replicate (level * k) ' ') ∧
      Mode.code.depth (List.replicate (level * k) ' ') = 0 :=
    outside_of_inert fun d hd => by rw [List.eq_of_mem_replicate hd]; rfl
  rw [hwrite]
  refine ⟨h.indentSize, h.level_eq, ?_, ⟨ls, depth, ?_, hrows, hne, ?_, ?_⟩, ?_, ?_⟩
  · rw [hcs]
    simp
  · rw [String.toList_append, String.toList_append, htext, List.append_assoc, spaces,
      String.toList_ofList]
  · exact fun _ => ⟨level, c, cs, by rw [hcs], hblank, hlevel⟩
  · rw [hspaces.1.depth_append, hspaces.2, ht.depth_eq, Int.zero_add]
  · intro hmem
    rcases List.mem_append.mp hmem with hmem | hmem
    · exact absurd (List.eq_of_mem_replicate hmem) (by decide)
    · exact ht.noFeed hmem
  · exact hspaces.1.append ht.outside

/-- If a line may end there, the lines with the unfinished one are lines of a printed text. -/
theorem lines {c : Char} (h : l.Drawn k level depth part) (hc : part.getLast? = some c)
    (hspace : c ≠ ' ') :
    ∃ ls, l.text.toList = joinLines ls ++ part ∧ Rows k 0 (ls ++ [part]) depth ∧
      ∀ line ∈ ls ++ [part], line ≠ [] := by
  obtain ⟨ls, start, htext, hrows, hne, hindented, hdepth⟩ := h.text
  have hpart : part ≠ [] := by
    rintro rfl
    cases hc
  have hending : part.getLast? ≠ some ' ' := by rwa [hc, ne_eq, Option.some.injEq]
  refine ⟨ls, htext, hrows.append (.row ⟨hindented hpart, hending, h.noFeed, h.outside⟩ ?_), ?_⟩
  · rw [hdepth]
    exact .nil
  · intro line hline
    rcases List.mem_append.mp hline with hline | hline
    · exact hne line hline
    · exact List.mem_singleton.mp hline ▸ hpart

/-- A line that may end there is finished. -/
theorem newline {c : Char} (h : l.Drawn k level depth part) (hc : part.getLast? = some c)
    (hspace : c ≠ ' ') : l.newline.Drawn k level depth [] := by
  obtain ⟨ls, htext, hrows, hne⟩ := h.lines hc hspace
  refine ⟨h.indentSize, h.level_eq, rfl, ⟨ls ++ [part], depth, ?_, hrows, hne,
    fun h => absurd rfl h, by simp⟩, by simp, rfl⟩
  show (l.text ++ "\n").toList = _
  rw [String.toList_append, htext, joinLines_append, List.append_nil, List.append_assoc,
    joinLines_cons, joinLines_nil]
  rfl

theorem indent (h : l.Drawn k level depth part) : l.indent.Drawn k (level + 1) depth part :=
  ⟨h.indentSize, congrArg (· + 1) h.level_eq, h.atLineStart, h.text, h.noFeed, h.outside⟩

theorem dedent (h : l.Drawn k (level + 1) depth part) : l.dedent.Drawn k level depth part :=
  ⟨h.indentSize, congrArg (· - 1) h.level_eq, h.atLineStart, h.text, h.noFeed, h.outside⟩

end Layout.Drawn

/-! ## Where pieces lead -/

/-- Something may be begun: at the start of a line or further on it, at the level of the depth in
braces. -/
def Begun (k : Nat) (l : Layout) (level : Nat) : Prop := ∃ part, l.Drawn k level level part

/-- Something stands on the line; `change` braces more are open than there are levels. -/
def Inside (k : Nat) (change : Int) (l : Layout) (level : Nat) : Prop :=
  ∃ part, part ≠ [] ∧ l.Drawn k level (level + change) part

/-- Something stands on the line that may end it. -/
def Solid (k : Nat) (change : Int) (l : Layout) (level : Nat) : Prop :=
  ∃ part c, part.getLast? = some c ∧ c ≠ ' ' ∧ l.Drawn k level (level + change) part

/-- The pieces lead from one place to another, at whatever level, and back to that level. -/
def Leads (p : Layout → Nat → Prop) (ps : List Piece) (q : Layout → Nat → Prop) : Prop :=
  ∀ l level, p l level → q (l.run ps) level

section

variable {k : Nat} {change : Int} {t : String} {p q r : Layout → Nat → Prop} {ps qs : List Piece}

theorem Solid.inside {l : Layout} {level : Nat} (h : Solid k change l level) :
    Inside k change l level := by
  obtain ⟨part, c, hc, -, hdrawn⟩ := h
  have hpart : part ≠ [] := by
    rintro rfl
    cases hc
  exact ⟨part, hpart, hdrawn⟩

theorem Inside.begun {l : Layout} {level : Nat} (h : Inside k 0 l level) : Begun k l level := by
  obtain ⟨part, -, hdrawn⟩ := h
  exact ⟨part, by rwa [Int.add_zero] at hdrawn⟩

theorem Begun.write {l : Layout} {level : Nat} (h : Begun k l level) (ht : Flat t change)
    (hstart : MayStart t) :
    ∃ front, (l.write t).Drawn k level (level + change) (front ++ t.toList) := by
  obtain ⟨part, hdrawn⟩ := h
  by_cases hpart : part = []
  · subst hpart
    obtain ⟨c, hc, hblank, hclose⟩ := hstart
    exact ⟨_, hdrawn.write_first ht hc hblank (by rw [if_neg hclose, Int.sub_zero])⟩
  · exact ⟨part, hdrawn.write hpart ht⟩

namespace Leads

theorem refl : Leads p [] p := fun _ _ h => h

theorem append (hp : Leads p ps q) (hq : Leads q qs r) : Leads p (ps ++ qs) r := by
  intro l level h
  rw [Layout.run_append]
  exact hq _ level (hp l level h)

theorem cons {piece : Piece} (hp : Leads p [piece] q) (hq : Leads q ps r) :
    Leads p (piece :: ps) r :=
  append hp hq

theorem ofSolid (h : Leads (Inside k change) ps q) : Leads (Solid k change) ps q :=
  fun l level hl => h l level hl.inside

theorem ofInside (h : Leads (Begun k) ps q) : Leads (Inside k 0) ps q :=
  fun l level hl => h l level hl.begun

theorem toInside (h : Leads p ps (Solid k change)) : Leads p ps (Inside k change) :=
  fun l level hl => (h l level hl).inside

/-- What something may begin with goes on with a line, too. -/
theorem goOn (h : Leads (Begun k) ps q) : Leads (Solid k 0) ps q := h.ofInside.ofSolid

/-- A fragment on a line. -/
theorem text (ht : Flat t change) : Leads (Inside k 0) [.text t] (Inside k change) := by
  rintro l level ⟨part, hpart, hdrawn⟩
  have hwrite := hdrawn.write hpart ht
  rw [Int.add_zero] at hwrite
  exact ⟨_, List.append_ne_nil_of_left_ne_nil hpart _, hwrite⟩

/-- A fragment that ends a line. -/
theorem last (ht : Flat t change) (hend : MayEnd t) :
    Leads (Inside k 0) [.text t] (Solid k change) := by
  rintro l level ⟨part, hpart, hdrawn⟩
  obtain ⟨c, hc, hspace⟩ := hend
  have hwrite := hdrawn.write hpart ht
  rw [Int.add_zero] at hwrite
  exact ⟨_, c, List.mem_getLast?_append_of_mem_getLast? hc, hspace, hwrite⟩

/-- A fragment with which something begins. -/
theorem first (ht : Flat t change) (hstart : MayStart t) :
    Leads (Begun k) [.text t] (Inside k change) := by
  intro l level h
  obtain ⟨front, hwrite⟩ := h.write ht hstart
  obtain ⟨c, hc, -⟩ := hstart
  refine ⟨_, List.append_ne_nil_of_right_ne_nil _ ?_, hwrite⟩
  intro hnil
  rw [hnil] at hc
  cases hc

/-- A fragment with which something begins, and that ends a line. -/
theorem only (ht : Flat t change) (hstart : MayStart t) (hend : MayEnd t) :
    Leads (Begun k) [.text t] (Solid k change) := by
  intro l level h
  obtain ⟨front, hwrite⟩ := h.write ht hstart
  obtain ⟨c, hc, hspace⟩ := hend
  exact ⟨_, c, List.mem_getLast?_append_of_mem_getLast? hc, hspace, hwrite⟩

/-- On the next line something may begin. -/
theorem newline : Leads (Solid k 0) [.newline] (Begun k) := by
  rintro l level ⟨part, c, hc, hspace, hdrawn⟩
  rw [Int.add_zero] at hdrawn
  exact ⟨[], hdrawn.newline hc hspace⟩

/-- **A body in braces is one level further in**, and the brace that closes it is not. -/
theorem braces (h : Leads (Begun k) ps (Solid k 0)) :
    Leads (Solid k 1) ([.indent, .newline] ++ ps ++ [.dedent, .newline, .text "\x7d"])
      (Solid k 0) := by
  rintro l level ⟨part, c, hc, hspace, hdrawn⟩
  have hbegun : Begun k l.indent.newline (level + 1) := ⟨[], hdrawn.indent.newline hc hspace⟩
  obtain ⟨part', c', hc', hspace', hbody⟩ := h _ _ hbegun
  have hbrace : Flat "\x7d" (-1) := flat_of (by decide)
  have hhead : "\x7d".toList.head? = some '\x7d' := rfl
  have hclose := (hbody.dedent.newline hc' hspace').write_first hbrace hhead rfl
    (by rw [if_pos rfl]; omega)
  have hdepth : ((level + 1 : Nat) : Int) + 0 + -1 = level + 0 := by omega
  rw [hdepth] at hclose
  rw [Layout.run_append, Layout.run_append]
  exact ⟨_, '\x7d', List.mem_getLast?_append_of_mem_getLast? rfl, by decide, hclose⟩

end Leads

end

end FrontEnd
