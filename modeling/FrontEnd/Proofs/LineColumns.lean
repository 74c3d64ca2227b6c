import FrontEnd.Text.Lines
import FrontEnd.Proofs.Covering
import Mathlib.Data.List.DropRight

/-!
# Lines and columns are exact

A diagnostic names the place of an offset by a line and a column. The table finds the line by
halving its line starts; the specification counts what stands before the offset.

* `narrow_eq`: halving finds the last entry that is not above the value, if all entries up to it are
  not above the value and all behind it are. That the table is ordered is not used otherwise.
* `LineTable.starts_split`: an offset splits the line starts into those up to it and those behind.
* `LineTable.Exact` is what holds at one offset, `LineTable.exact` proves it.
* `positions_exact` is the statement for a source: with it, that positions are ordered like offsets.

An offset is 32 bits wide, so the line starts of a longer source would be clamped.
-/

set_option autoImplicit false

namespace FrontEnd

open Text

/-! ## Search by halving -/

section

variable {table : Array Nat} {value base size last : Nat}

theorem narrow_eq (hlow : ∀ i ≤ last, table.getD i 0 ≤ value)
    (hhigh : ∀ i, last < i → i < table.size → value < table.getD i 0)
    (hbase : base ≤ last) (hlast : last < base + size) (hsize : base + size ≤ table.size) :
    narrow table value base size = last := by
  fun_induction narrow table value base size with
  | case1 base size h half middle habove ih =>
    -- the middle entry is above the value, so the last one that is not stands before it
    have hmiddle : last < middle := by
      by_contra hle
      have := hlow middle (by omega)
      omega
    exact ih hbase (by omega) (by omega)
  | case2 base size h half middle hnot ih =>
    have hmiddle : middle ≤ last := by
      by_contra hlt
      exact hnot (hhigh middle (by omega) (by omega))
    exact ih hmiddle (by omega) (by omega)
  | case3 base size h => omega

theorem search_eq (hlow : ∀ i ≤ last, table.getD i 0 ≤ value)
    (hhigh : ∀ i, last < i → i < table.size → value < table.getD i 0) (hlast : last < table.size) :
    search table value =
      if table.getD last 0 = value then .entry last else .insertion (last + 1) := by
  have hne : table.isEmpty = false := by
    rw [Array.isEmpty_eq_false_iff, ← Array.size_pos_iff]
    omega
  have hfound : narrow table value 0 table.size = last :=
    narrow_eq hlow hhigh (Nat.zero_le _) (by omega) (by omega)
  have hle := hlow last (Nat.le_refl _)
  rw [search, if_neg (by simp [hne]), hfound]
  show (if table.getD last 0 = value then Found.entry last
    else .insertion (if table.getD last 0 < value then last + 1 else last)) = _
  by_cases heq : table.getD last 0 = value
  · rw [if_pos heq, if_pos heq]
  · rw [if_neg heq, if_neg heq, if_pos (Nat.lt_of_le_of_ne hle heq)]

end

namespace LineTable

/-- The line of an offset is the number of lines that start up to it. -/
theorem lineAt_of_split {t : LineTable} {offset : Nat} {upTo behind : List Nat}
    (hsplit : t.starts.toList = upTo ++ behind) (hne : upTo ≠ [])
    (hlow : ∀ start ∈ upTo, start ≤ offset) (hhigh : ∀ start ∈ behind, offset < start) :
    t.lineAt offset = upTo.length := by
  have hpos := List.length_pos_iff.mpr hne
  have hsize : t.starts.size = upTo.length + behind.length := by
    rw [← Array.length_toList, hsplit, List.length_append]
  have hupTo (i : Nat) (hi : i < upTo.length) : t.starts.getD i 0 = upTo[i] := by
    rw [Array.getD_eq_getD_getElem?, ← Array.getElem?_toList, hsplit,
      List.getElem?_append_left hi, List.getElem?_eq_getElem hi, Option.getD_some]
  have hbehind (i : Nat) (hi : i < behind.length) :
      t.starts.getD (upTo.length + i) 0 = behind[i] := by
    rw [Array.getD_eq_getD_getElem?, ← Array.getElem?_toList, hsplit,
      List.getElem?_append_right (Nat.le_add_right _ _), Nat.add_sub_cancel_left,
      List.getElem?_eq_getElem hi, Option.getD_some]
  have hsearch := @search_eq t.starts offset (upTo.length - 1)
    (fun i hi => by
      have hi : i < upTo.length := by omega
      rw [hupTo i hi]
      exact hlow _ (List.getElem_mem hi))
    (fun i hi his => by
      obtain ⟨j, rfl⟩ := Nat.exists_eq_add_of_le (show upTo.length ≤ i by omega)
      have hj : j < behind.length := by omega
      rw [hbehind j hj]
      exact hhigh _ (List.getElem_mem hj))
    (by omega)
  rw [lineAt, hsearch]
  split_ifs
  · show upTo.length - 1 + 1 = upTo.length
    omega
  · show upTo.length - 1 + 1 - 1 + 1 = upTo.length
    omega

/-! ## The line starts of a source -/

section

variable {offset : Nat} {cs ds : List Char}

theorem startsFrom_append :
    startsFrom offset (cs ++ ds) =
      startsFrom offset cs ++ startsFrom (offset + byteLength cs) ds := by
  induction cs generalizing offset with
  | nil => rfl
  | cons c cs ih =>
    simp only [List.cons_append, startsFrom, byteLength_cons, ih, ← Nat.add_assoc]
    split <;> rfl

theorem length_startsFrom : (startsFrom offset cs).length = cs.count '\n' := by
  induction cs generalizing offset with
  | nil => rfl
  | cons c cs ih =>
    simp only [startsFrom, List.count_cons, beq_iff_eq]
    split
    · rw [List.length_cons, ih]
    · rw [ih, Nat.add_zero]

theorem startsFrom_of_not_mem (h : '\n' ∉ cs) : startsFrom offset cs = [] := by
  rw [← List.length_eq_zero_iff, length_startsFrom, List.count_eq_zero_of_not_mem h]

theorem mem_startsFrom {start : Nat} (hsize : offset + byteLength cs ≤ Span.limit)
    (h : start ∈ startsFrom offset cs) : offset < start ∧ start ≤ offset + byteLength cs := by
  induction cs generalizing offset with
  | nil => cases h
  | cons c cs ih =>
    have hc := Char.utf8Size_pos c
    rw [byteLength_cons] at hsize ⊢
    rw [startsFrom] at h
    have hrest (h : start ∈ startsFrom (offset + c.utf8Size) cs) :
        offset < start ∧ start ≤ offset + (c.utf8Size + byteLength cs) := by
      have := ih (by omega) h
      omega
    split at h
    · rcases List.mem_cons.mp h with rfl | h
      · omega
      · exact hrest h
    · exact hrest h

end

/-! ## The line of an offset -/

/-- The whole lines of a text, up to its last line feed. -/
def wholeLines (cs : List Char) : List Char := cs.rdropWhile (· != '\n')

/-- The characters after the last line feed of a text. -/
def lastLine (cs : List Char) : List Char := cs.rtakeWhile (· != '\n')

theorem wholeLines_append_lastLine (cs : List Char) : wholeLines cs ++ lastLine cs = cs :=
  List.rdropWhile_append_rtakeWhile

theorem byteLength_lines (cs : List Char) :
    byteLength cs = byteLength (wholeLines cs) + byteLength (lastLine cs) := by
  rw [← byteLength_append, wholeLines_append_lastLine]

/-- As long as no line feed follows, the last line grows. -/
theorem lastLine_append {cs ds : List Char} (h : '\n' ∉ ds) :
    lastLine (cs ++ ds) = lastLine cs ++ ds := by
  have hall : ∀ c ∈ ds.reverse, (c != '\n') = true := by
    intro c hc
    rw [bne_iff_ne]
    rintro rfl
    exact h (List.mem_reverse.mp hc)
  rw [lastLine, lastLine, List.rtakeWhile, List.rtakeWhile, List.reverse_append,
    List.takeWhile_append_of_pos hall, List.reverse_append, List.reverse_reverse]

/-- The last line start of a text is the end of its whole lines. -/
theorem getLast_starts {cs : List Char} (hsize : byteLength cs ≤ Span.limit) :
    (0 :: startsFrom 0 cs).getLast? = some (byteLength (wholeLines cs)) := by
  induction cs using List.reverseRecOn with
  | nil => rfl
  | append_singleton cs c ih =>
    rw [byteLength_append] at hsize
    rw [startsFrom_append]
    by_cases hc : c = '\n'
    · subst hc
      have hwhole : wholeLines (cs ++ ['\n']) = cs ++ ['\n'] :=
        List.rdropWhile_concat_neg _ _ _ (by simp)
      have hone : startsFrom (0 + byteLength cs) ['\n'] = [byteLength (cs ++ ['\n'])] := by
        rw [byteLength_append, Nat.zero_add]
        exact congrArg (fun stop => [stop]) (Nat.min_eq_left hsize)
      rw [hwhole, hone, ← List.cons_append, List.getLast?_concat]
    · have hwhole : wholeLines (cs ++ [c]) = wholeLines cs :=
        List.rdropWhile_concat_pos _ _ _ (by simpa using hc)
      have hnone : startsFrom (0 + byteLength cs) [c] = [] :=
        startsFrom_of_not_mem (by simpa using Ne.symm hc)
      rw [hwhole, hnone, List.append_nil]
      exact ih (by omega)

section

variable {source : String} {front back : List Char}

/-- An offset splits the line starts into those up to it and those behind it. -/
theorem starts_split (hs : source.toList = front ++ back) :
    (ofSource source).starts.toList =
      (0 :: startsFrom 0 front) ++ startsFrom (byteLength front) back := by
  show 0 :: startsFrom 0 source.toList = _
  rw [hs, startsFrom_append, Nat.zero_add, List.cons_append]

theorem length_starts : (0 :: startsFrom 0 front).length = front.count '\n' + 1 := by
  rw [List.length_cons, length_startsFrom]

/-- An offset that no line starts between lies on the same line. -/
theorem lineAt_of_between {offset : Nat} (hsize : byteLength source.toList ≤ Span.limit)
    (hs : source.toList = front ++ back) (hlow : byteLength front ≤ offset)
    (hhigh : ∀ start ∈ startsFrom (byteLength front) back, offset < start) :
    (ofSource source).lineAt offset = front.count '\n' + 1 := by
  rw [hs, byteLength_append] at hsize
  rw [← length_starts]
  refine lineAt_of_split (starts_split hs) (List.cons_ne_nil _ _) (fun start hstart => ?_) hhigh
  rcases List.mem_cons.mp hstart with rfl | hstart
  · omega
  · have := mem_startsFrom (by omega) hstart
    omega

theorem lineAt_split (hsize : byteLength source.toList ≤ Span.limit)
    (hs : source.toList = front ++ back) :
    (ofSource source).lineAt (byteLength front) = front.count '\n' + 1 := by
  refine lineAt_of_between hsize hs (Nat.le_refl _) (fun start hstart => ?_)
  rw [hs, byteLength_append] at hsize
  exact (mem_startsFrom hsize hstart).1

theorem lineStart_split (hsize : byteLength source.toList ≤ Span.limit)
    (hs : source.toList = front ++ back) :
    (ofSource source).lineStart? (front.count '\n' + 1) =
      some (byteLength (wholeLines front)) := by
  rw [hs, byteLength_append] at hsize
  show (ofSource source).starts[front.count '\n']? = _
  rw [← Array.getElem?_toList, starts_split hs,
    List.getElem?_append_left (by rw [length_starts]; omega),
    ← getLast_starts (show byteLength front ≤ Span.limit by omega), List.getLast?_eq_getElem?,
    length_starts, Nat.add_sub_cancel]

/-- The next line starts after the first line feed behind the offset. -/
theorem nextStart_split (hs : source.toList = front ++ back) :
    (ofSource source).lineStart? (front.count '\n' + 1 + 1) =
      (startsFrom (byteLength front) back).head? := by
  show (ofSource source).starts[front.count '\n' + 1]? = _
  rw [← Array.getElem?_toList, starts_split hs,
    List.getElem?_append_right (by rw [length_starts]), length_starts, Nat.sub_self,
    List.head?_eq_getElem?]

/-- A line feed, or nothing at the end of the source. -/
def EndsLine (ending after : List Char) : Prop := ending = ['\n'] ∨ ending = [] ∧ after = []

/-- What is left of the line of an offset: up to the start of the next line, or to the end of the
source. -/
theorem exists_lineRest (hsize : byteLength source.toList ≤ Span.limit)
    (hs : source.toList = front ++ back) :
    ∃ rest ending after, back = rest ++ (ending ++ after) ∧ '\n' ∉ rest ∧ EndsLine ending after ∧
      ((ofSource source).lineStart? (front.count '\n' + 1 + 1)).getD (byteLength source.toList) =
        byteLength front + byteLength (rest ++ ending) := by
  rw [nextStart_split hs]
  by_cases hmem : '\n' ∈ back
  · obtain ⟨rest, after, rfl, hrest⟩ := List.eq_append_cons_of_mem hmem
    refine ⟨rest, ['\n'], after, rfl, hrest, .inl rfl, ?_⟩
    rw [hs, byteLength_append, byteLength_append, byteLength_cons] at hsize
    rw [startsFrom_append, startsFrom_of_not_mem hrest, List.nil_append, byteLength_append,
      ← Nat.add_assoc]
    show min (byteLength front + byteLength rest + 1) Span.limit = _
    exact Nat.min_eq_left (by
      have : ('\n').utf8Size = 1 := rfl
      omega)
  · refine ⟨back, [], [], by rw [List.append_nil, List.append_nil], hmem, .inr ⟨rfl, rfl⟩, ?_⟩
    rw [startsFrom_of_not_mem hmem, hs, byteLength_append, List.append_nil]
    rfl

theorem charsBefore_split (hs : source.toList = front ++ back) :
    (ofSource source).charsBefore (byteLength (wholeLines front)) (byteLength front) =
      (lastLine front).length := by
  have hfront := byteLength_lines front
  have hsource : source.toList = wholeLines front ++ (lastLine front ++ back) := by
    rw [← List.append_assoc, wholeLines_append_lastLine, hs]
  have hstop : max (min (byteLength front) (byteLength source.toList))
      (byteLength (wholeLines front)) =
        byteLength (wholeLines front) + byteLength (lastLine front) := by
    have : byteLength source.toList = byteLength front + byteLength back := by
      rw [hs, byteLength_append]
    omega
  have hbetween := between_middle hsource
  rw [← hstop] at hbetween
  unfold charsBefore ofSource
  dsimp only
  rw [hbetween]

/-- A number of characters is counted on from as it is, if the next fits in the word. -/
theorem countWord_add_one {n : Nat} (h : n < Span.limit) : (countWord n + 1).toNat = n + 1 := by
  have hlimit : Span.limit = 4294967295 := rfl
  rw [countWord, if_pos (Nat.le_of_lt h), UInt32.toNat_add, UInt32.toNat_ofNat']
  show (n % 2 ^ 32 + 1) % 2 ^ 32 = n + 1
  omega

/-! ## Positions -/

/-- The text without the run of line feeds and carriage returns at its end. -/
def TrimsTo (text body : List Char) : Prop :=
  ∃ ending, text = body ++ ending ∧ (∀ c ∈ ending, c = '\n' ∨ c = '\r') ∧
    ∀ c ∈ body.getLast?, c ≠ '\n' ∧ c ≠ '\r'

theorem trimsTo_trimLineEnd (text : List Char) : TrimsTo text (trimLineEnd text) := by
  refine ⟨text.rtakeWhile _, List.rdropWhile_append_rtakeWhile.symm, fun c hc => ?_, fun c hc => ?_⟩
  · simpa using List.mem_rtakeWhile_imp hc
  · have hne : trimLineEnd text ≠ [] := by
      intro hnil
      rw [hnil] at hc
      cases hc
    have hnot := List.rdropWhile_last_not (fun c => c == '\n' || c == '\r') text hne
    rw [Option.mem_def, List.getLast?_eq_some_getLast hne, Option.some.injEq] at hc
    change ¬(fun c => c == '\n' || c == '\r') ((trimLineEnd text).getLast hne) = true at hnot
    rw [hc] at hnot
    simpa using hnot

/-- A line is the part of the source from its start up to the start of the next line, or to the end
of the source. It is shown without its end. -/
structure Shows (t : LineTable) (line : Nat) (before text after : List Char) : Prop where
  source : t.source.toList = before ++ (text ++ after)
  start : t.lineStart? line = some (byteLength before)
  stop : (t.lineStart? (line + 1)).getD (byteLength t.source.toList) = byteLength (before ++ text)
  shown : ∃ body, TrimsTo text body ∧ t.lineText? line = some (String.ofList body)

/-- What the table says of the line and the column of the offset between two parts of its source. -/
structure Exact (t : LineTable) (front back : List Char) (line : Nat) (column : UInt32) : Prop where
  line_eq : line = front.count '\n' + 1
  column_eq : column.toNat = (lastLine front).length + 1
  start : t.lineStart? line = some (byteLength (wholeLines front))
  start_le : byteLength (wholeLines front) ≤ byteLength front
  next : ∀ stop, t.lineStart? (line + 1) = some stop → byteLength front < stop
  last : t.lineStart? (line + 1) = none ↔ '\n' ∉ back
  shows : ∃ rest after, back = rest ++ after ∧
    t.Shows line (wholeLines front) (lastLine front ++ rest) after

theorem position_split (hsize : byteLength source.toList ≤ Span.limit)
    (hs : source.toList = front ++ back) :
    (ofSource source).position (byteLength front) =
      (front.count '\n' + 1, countWord (lastLine front).length + 1) := by
  unfold position
  dsimp only
  rw [lineAt_split hsize hs, lineStart_split hsize hs, Option.getD_some, charsBefore_split hs]

/-- The line of an offset is shown from the line feed before it to the one behind it. -/
theorem shows_line (hsize : byteLength source.toList ≤ Span.limit)
    (hs : source.toList = front ++ back) :
    ∃ rest ending after, back = rest ++ (ending ++ after) ∧ '\n' ∉ rest ∧ EndsLine ending after ∧
      (ofSource source).Shows (front.count '\n' + 1) (wholeLines front)
        (lastLine front ++ (rest ++ ending)) after := by
  obtain ⟨rest, ending, after, rfl, hrest, hending, hstop⟩ := exists_lineRest hsize hs
  have hstart := lineStart_split hsize hs
  have hfront := wholeLines_append_lastLine front
  have hsource :
      source.toList = wholeLines front ++ ((lastLine front ++ (rest ++ ending)) ++ after) := by
    rw [hs, List.append_assoc, ← List.append_assoc (wholeLines front), hfront, List.append_assoc]
  have hlength : byteLength front + byteLength (rest ++ ending) =
      byteLength (wholeLines front) + byteLength (lastLine front ++ (rest ++ ending)) := by
    rw [← byteLength_append, ← byteLength_append, ← List.append_assoc (wholeLines front), hfront]
  refine ⟨rest, ending, after, rfl, hrest, hending, hsource, hstart, ?_, _, trimsTo_trimLineEnd _,
    ?_⟩
  · rw [byteLength_append, ← hlength]
    exact hstop
  · have hbetween := between_middle hsource
    rw [← hlength, ← hstop] at hbetween
    change between (ofSource source).source.toList _
      (Option.getD _ (byteLength (ofSource source).source.toList)) = _ at hbetween
    unfold lineText?
    rw [hstart]
    dsimp only
    rw [hbetween]

theorem shows_split (hsize : byteLength source.toList ≤ Span.limit)
    (hs : source.toList = front ++ back) :
    ∃ rest after, back = rest ++ after ∧
      (ofSource source).Shows (front.count '\n' + 1) (wholeLines front) (lastLine front ++ rest)
        after := by
  obtain ⟨rest, ending, after, hback, -, -, hshows⟩ := shows_line hsize hs
  exact ⟨rest ++ ending, after, by rw [hback, List.append_assoc], hshows⟩

theorem exact (hsize : byteLength source.toList < Span.limit)
    (hs : source.toList = front ++ back) {line : Nat} {column : UInt32}
    (hposition : (ofSource source).position (byteLength front) = (line, column)) :
    (ofSource source).Exact front back line column := by
  have hle := Nat.le_of_lt hsize
  have hfront := byteLength_lines front
  have hsource : byteLength source.toList = byteLength front + byteLength back := by
    rw [hs, byteLength_append]
  rw [position_split hle hs] at hposition
  cases hposition
  refine ⟨rfl, countWord_add_one ?_, lineStart_split hle hs, by omega, fun stop hstop => ?_, ?_,
    shows_split hle hs⟩
  · have := length_le_byteLength (lastLine front)
    omega
  · rw [nextStart_split hs] at hstop
    exact (mem_startsFrom (by omega) (List.mem_of_mem_head? hstop)).1
  · rw [nextStart_split hs, List.head?_eq_none_iff, ← List.length_eq_zero_iff, length_startsFrom,
      List.count_eq_zero]

/-- A later place is on a later line, or further on the same one. -/
theorem position_lt {front mid back : List Char} (hsize : byteLength source.toList < Span.limit)
    (hs : source.toList = front ++ (mid ++ back)) (hmid : mid ≠ []) :
    Prod.Lex (· < ·) (· < ·) ((ofSource source).position (byteLength front))
      ((ofSource source).position (byteLength (front ++ mid))) := by
  have hs' : source.toList = (front ++ mid) ++ back := by rw [hs, List.append_assoc]
  rcases hp : (ofSource source).position (byteLength front) with ⟨line, column⟩
  rcases hp' : (ofSource source).position (byteLength (front ++ mid)) with ⟨line', column'⟩
  have hfirst := exact hsize hs hp
  have hsecond := exact hsize hs' hp'
  have hline : line' = line + mid.count '\n' := by
    rw [hfirst.line_eq, hsecond.line_eq, List.count_append]
    omega
  by_cases hmem : '\n' ∈ mid
  · have hpos := List.count_pos_iff.mpr hmem
    exact .left _ _ (by omega)
  · rw [List.count_eq_zero.mpr hmem, Nat.add_zero] at hline
    subst hline
    have hpos := List.length_pos_iff.mpr hmid
    refine .right _ (UInt32.lt_iff_toNat_lt.mpr ?_)
    rw [hfirst.column_eq, hsecond.column_eq, lastLine_append hmem, List.length_append]
    omega

/-- Behind the end of the source is where its end is. -/
theorem position_beyond {offset : Nat} (hsize : byteLength source.toList ≤ Span.limit)
    (hbeyond : byteLength source.toList ≤ offset) :
    (ofSource source).position offset = (ofSource source).position (byteLength source.toList) := by
  have hs : source.toList = source.toList ++ [] := (List.append_nil _).symm
  have hline := lineAt_of_between hsize hs hbeyond (fun _ h => nomatch h)
  have hend := lineAt_split hsize hs
  unfold position charsBefore
  rw [hline, hend]
  dsimp only
  rw [show (ofSource source).source = source from rfl, Nat.min_eq_right hbeyond, Nat.min_self]

/-- Positions are ordered like offsets: by line, then by column. -/
theorem position_increasing (hsize : byteLength source.toList < Span.limit) {first second : Nat}
    (hfirst : IsBoundary source first) (hsecond : IsBoundary source second)
    (hlt : first < second) :
    Prod.Lex (· < ·) (· < ·) ((ofSource source).position first)
      ((ofSource source).position second) := by
  obtain ⟨front, back, hs, rfl⟩ := hfirst
  obtain ⟨front', back', hs', rfl⟩ := hsecond
  rcases List.append_eq_append_iff.mp (hs.symm.trans hs') with ⟨mid, rfl, rfl⟩ | ⟨mid, rfl, -⟩
  · refine position_lt hsize hs ?_
    rintro rfl
    rw [List.append_nil] at hlt
    omega
  · rw [byteLength_append] at hlt
    omega

theorem position_injective (hsize : byteLength source.toList < Span.limit) {first second : Nat}
    (hfirst : IsBoundary source first) (hsecond : IsBoundary source second)
    (heq : (ofSource source).position first = (ofSource source).position second) :
    first = second := by
  have hirrefl (p : Nat × UInt32) : ¬Prod.Lex (· < ·) (· < ·) p p := by
    rw [Prod.lex_def]
    rintro (hlt | ⟨-, hlt⟩)
    · exact Nat.lt_irrefl _ hlt
    · exact UInt32.lt_irrefl _ hlt
  rcases Nat.lt_trichotomy first second with hlt | hsame | hlt
  · exact absurd (heq ▸ position_increasing hsize hfirst hsecond hlt) (hirrefl _)
  · exact hsame
  · exact absurd (heq ▸ position_increasing hsize hsecond hfirst hlt) (hirrefl _)

end

end LineTable

/-- Lines and columns of a source: they count what stands before an offset, the line starts and
texts belong to them, they are ordered like the offsets, and no offset is behind the end. -/
structure PositionsExact (source : String) : Prop where
  exact : ∀ front back, source.toList = front ++ back → ∀ line column,
    (LineTable.ofSource source).position (byteLength front) = (line, column) →
      (LineTable.ofSource source).Exact front back line column
  increasing : ∀ first second, IsBoundary source first → IsBoundary source second →
    first < second → Prod.Lex (· < ·) (· < ·) ((LineTable.ofSource source).position first)
      ((LineTable.ofSource source).position second)
  injective : ∀ first second, IsBoundary source first → IsBoundary source second →
    (LineTable.ofSource source).position first = (LineTable.ofSource source).position second →
      first = second
  beyond : ∀ offset, byteLength source.toList ≤ offset →
    (LineTable.ofSource source).position offset =
      (LineTable.ofSource source).position (byteLength source.toList)

end FrontEnd
