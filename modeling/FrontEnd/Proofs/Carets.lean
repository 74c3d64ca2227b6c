import FrontEnd.Diagnostic.Render
import FrontEnd.Proofs.LineColumns

/-!
# Carets below a labelled text

Below the source line of a primary label stand as many carets as the label has characters on its
first line. The line is shown without any of the carriage returns at its end; of the first line of
the label, only one carriage return is left out, and only if its line feed is labelled with it.

* `exists_shown`: a line is what is shown of it, the carriage returns behind that and its line feed.
* `max_caretCount`: how many carets a label has, in terms of its own text.
* `marks_label`: how many of the labelled characters are shown, and how many are not but have a
  caret.
* `carets_exact_iff` is the statement for a rendered diagnostic: the carets stand below the shown
  part of the label exactly if no carriage return behind it has one.
-/

set_option autoImplicit false

namespace FrontEnd

open Text LineTable

/-- The characters up to the first line feed. -/
def firstPart (cs : List Char) : List Char := cs.takeWhile (· != '\n')

theorem firstPart_append {cs : List Char} (h : '\n' ∉ cs) (ds : List Char) :
    firstPart (cs ++ ds) = cs ++ firstPart ds := by
  refine List.takeWhile_append_of_pos fun c hc => ?_
  rw [bne_iff_ne]
  rintro rfl
  exact h hc

theorem firstPart_of_not_mem {cs : List Char} (h : '\n' ∉ cs) : firstPart cs = cs := by
  have hnil := firstPart_append h []
  rwa [List.append_nil, show firstPart [] = [] from rfl, List.append_nil] at hnil

theorem firstPart_feed {cs : List Char} (h : '\n' ∉ cs) (ds : List Char) :
    firstPart (cs ++ '\n' :: ds) = cs := by
  rw [firstPart_append h]
  exact List.append_nil cs

/-! ## The line as it is shown -/

section

variable {source : String} {front back : List Char}

/-- Nothing but carriage returns is left out behind a shown line, apart from its line feed. -/
theorem exists_returns {text ending after body : List Char} (htrims : TrimsTo (text ++ ending) body)
    (htext : '\n' ∉ text) (hending : EndsLine ending after) :
    ∃ returns, text = body ++ List.replicate returns '\r' ∧ body.getLast? ≠ some '\r' := by
  obtain ⟨cut, happend, hcut, hlast⟩ := htrims
  have hreturn : body.getLast? ≠ some '\r' := fun h => (hlast '\r' h).2 rfl
  rcases List.append_eq_append_iff.mp happend with ⟨more, rfl, hmore⟩ | ⟨returns, rfl, rfl⟩
  · -- what is shown does not end with the line feed
    have hnil : more = [] := by
      rcases List.eq_nil_or_concat more with h | ⟨init, c, rfl⟩
      · exact h
      · rcases hending with rfl | ⟨rfl, -⟩
        · have hc : c = '\n' := by
            have hmem : c ∈ ['\n'] := hmore ▸ by simp
            simpa using hmem
          have hne := (hlast c (by simp)).1
          exact absurd hc hne
        · simp at hmore
    subst hnil
    exact ⟨0, by simp, hreturn⟩
  · refine ⟨returns.length, congrArg (body ++ ·) (List.eq_replicate_of_mem fun c hc => ?_), hreturn⟩
    rcases hcut c (List.mem_append_left _ hc) with rfl | h
    · exact absurd (List.mem_append_right _ hc) htext
    · exact h

/-- The line of an offset as it is shown: behind it stand carriage returns, then the line feed or
the end of the source. -/
structure ShownLine (source : String) (front shown : List Char) (returns : Nat) : Prop where
  text : (ofSource source).lineText? (front.count '\n' + 1) = some (String.ofList shown)
  stands : ∃ ending after, EndsLine ending after ∧ source.toList =
    wholeLines front ++ ((shown ++ List.replicate returns '\r') ++ (ending ++ after))
  starts : lastLine front <+: shown ++ List.replicate returns '\r'
  noFeed : '\n' ∉ shown
  noReturn : shown.getLast? ≠ some '\r'

/-- A line is what is shown of it and carriage returns. What is left of it behind an offset stands
up to the next line feed. -/
theorem exists_shown (hsize : byteLength source.toList ≤ Span.limit)
    (hs : source.toList = front ++ back) :
    ∃ shown returns, ShownLine source front shown returns ∧
      lastLine front ++ firstPart back = shown ++ List.replicate returns '\r' := by
  obtain ⟨rest, ending, after, rfl, hrest, hending, hshows⟩ := shows_line hsize hs
  obtain ⟨shown, htrims, htext⟩ := hshows.shown
  have hlast : '\n' ∉ lastLine front := fun hmem => by
    have := List.mem_rtakeWhile_imp hmem
    simp at this
  have hline : '\n' ∉ lastLine front ++ rest := fun hmem =>
    (List.mem_append.mp hmem).elim hlast hrest
  rw [← List.append_assoc] at htrims
  obtain ⟨returns, hreturns, hnoReturn⟩ := exists_returns htrims hline hending
  have hfirst : firstPart (rest ++ (ending ++ after)) = rest := by
    rcases hending with rfl | ⟨rfl, rfl⟩
    · exact firstPart_feed hrest after
    · rw [List.append_nil, List.append_nil, firstPart_of_not_mem hrest]
  refine ⟨shown, returns, ⟨htext, ⟨ending, after, hending, ?_⟩, ?_, ?_, hnoReturn⟩, ?_⟩
  · rw [← hreturns, List.append_assoc, ← List.append_assoc (wholeLines front),
      wholeLines_append_lastLine, hs]
  · exact ⟨rest, hreturns⟩
  · rw [hreturns] at hline
    exact fun hmem => hline (List.mem_append_left _ hmem)
  · rw [hfirst, hreturns]

end

/-! ## The number of carets -/

namespace Renderer

section

variable {r : Renderer} {front mid back : List Char}

/-- The carriage return that is left out at the end of the first line of a text. -/
def cutReturn (cs : List Char) : Nat :=
  if '\n' ∈ cs ∧ (firstPart cs).getLast? = some '\r' then 1 else 0

theorem firstLine?_cons (c : Char) (cs : List Char) :
    ∃ line, firstLine? (c :: cs) = some line ∧
      line.length = (firstPart (c :: cs)).length - cutReturn (c :: cs) := by
  have hshorter : (firstPart (c :: cs)).length < (c :: cs).length ↔ '\n' ∈ c :: cs := by
    by_cases hmem : '\n' ∈ c :: cs
    · obtain ⟨line, rest, hsplit, hline⟩ := List.eq_append_cons_of_mem hmem
      rw [hsplit, firstPart_feed hline, List.length_append, List.length_cons]
      simp
    · rw [firstPart_of_not_mem hmem]
      simpa using hmem
  show ∃ line, (if (firstPart (c :: cs)).length < (c :: cs).length ∧
    (firstPart (c :: cs)).getLast? = some '\r' then some (firstPart (c :: cs)).dropLast
      else some (firstPart (c :: cs))) = some line ∧ _
  unfold cutReturn
  simp only [hshorter]
  split_ifs
  · exact ⟨_, rfl, List.length_dropLast⟩
  · exact ⟨_, rfl, rfl⟩

/-- A label has a caret for each character of its first line, and at least one. -/
theorem max_caretCount (hs : r.lines.source.toList = front ++ (mid ++ back)) :
    max (r.caretCount ⟨byteLength front, byteLength front + byteLength mid⟩) 1 =
      max 1 ((firstPart mid).length - cutReturn mid) := by
  unfold caretCount
  dsimp only
  rw [between_middle hs]
  cases mid with
  | nil => rfl
  | cons c cs =>
    obtain ⟨line, hline, hlength⟩ := firstLine?_cons c cs
    dsimp only
    rw [hline]
    dsimp only
    rw [hlength, Nat.max_comm]

/-- The number of places that two ranges share, each given by its start and its length. -/
def overlap (start length start' length' : Nat) : Nat :=
  min (start + length) (start' + length') - max start start'

/-- How many characters of `mid`, which stands behind `front`, are shown on the line where it
starts. -/
def shownPart (front mid shown : List Char) : Nat :=
  overlap (wholeLines front).length shown.length front.length mid.length

/-- How many of the carriage returns behind the shown line belong to `mid`. -/
def returnsPart (front mid shown : List Char) (returns : Nat) : Nat :=
  overlap ((wholeLines front).length + shown.length) returns front.length mid.length

/-- How many carriage returns behind the shown line have a caret. -/
def strayCarets (front mid shown : List Char) (returns : Nat) : Nat :=
  returnsPart front mid shown returns - if '\n' ∈ mid then 1 else 0

/-- A line ends with a carriage return exactly if one is left out when it is shown. -/
theorem getLast?_line {shown : List Char} (hnoReturn : shown.getLast? ≠ some '\r') (returns : Nat) :
    (shown ++ List.replicate returns '\r').getLast? = some '\r' ↔ 0 < returns := by
  cases returns with
  | zero => simpa using hnoReturn
  | succ returns => simp [List.replicate_succ', ← List.append_assoc]

theorem firstPart_length {shown : List Char} {returns : Nat}
    (hnoReturn : shown.getLast? ≠ some '\r')
    (hline : lastLine front ++ firstPart (mid ++ back) = shown ++ List.replicate returns '\r') :
    (firstPart mid).length - cutReturn mid =
      shownPart front mid shown + strayCarets front mid shown returns := by
  have hfront : front.length = (wholeLines front).length + (lastLine front).length := by
    rw [← List.length_append, wholeLines_append_lastLine]
  have hlength := congrArg List.length hline
  rw [List.length_append, List.length_append, List.length_replicate] at hlength
  by_cases hmem : '\n' ∈ mid
  · obtain ⟨first, rest, rfl, hfirst⟩ := List.eq_append_cons_of_mem hmem
    rw [List.append_assoc, List.cons_append, firstPart_feed hfirst] at hline hlength
    -- the first line of the label ends with a carriage return if it reaches one
    have hcut : first.getLast? = some '\r' ↔ 0 < first.length ∧ 0 < returns := by
      rw [← getLast?_line hnoReturn returns, ← hline]
      rcases List.eq_nil_or_concat first with rfl | ⟨init, c, rfl⟩
      · simp
      · simp [← List.append_assoc]
    unfold cutReturn strayCarets returnsPart shownPart overlap
    rw [firstPart_feed hfirst, if_pos hmem, List.length_append, List.length_cons]
    split_ifs with h
    · have := hcut.mp h.2
      omega
    · have : ¬(0 < first.length ∧ 0 < returns) := fun hpos => h ⟨hmem, hcut.mpr hpos⟩
      omega
  · rw [firstPart_append hmem, List.length_append] at hlength
    unfold cutReturn strayCarets returnsPart shownPart overlap
    rw [firstPart_of_not_mem hmem, if_neg (fun h => hmem h.1), if_neg hmem]
    omega

end

/-! ## A label as it is rendered -/

/-- A source line with its number, and a marker below it. -/
def snippetText (r : Renderer) (line : Nat) (shown : List Char) (marker : String) : String :=
  let gutter := Nat.repr line
  let pad := repeated ' ' gutter.length
  " " ++ pad ++ " |\n" ++
    " " ++ gutter ++ " | " ++ String.ofList shown ++ "\n" ++
    " " ++ pad ++ " | " ++ r.styled marker .error ++ "\n"

/-- What stands above the source line of a primary label. -/
def placeText (r : Renderer) (l : Label) (line column : Nat) : String :=
  "  " ++ "-->" ++ " " ++ Nat.repr line ++ ":" ++ Nat.repr column ++ ": " ++
    r.styled l.message .error ++ "\n"

/-- The carets below `mid`, which stands behind `front`, on the line where it starts. -/
structure Marks (source : String) (front mid : List Char) (line column : Nat) (shown : List Char)
    (returns carets : Nat) : Prop where
  line_eq : line = front.count '\n' + 1
  column_eq : column = (lastLine front).length + 1
  shownLine : ShownLine source front shown returns
  carets_eq : carets = max 1 (shownPart front mid shown + strayCarets front mid shown returns)
  exact_iff : carets = max 1 (shownPart front mid shown) ↔
    strayCarets front mid shown returns = 0 ∨
      shownPart front mid shown = 0 ∧ strayCarets front mid shown returns = 1
  inside_iff : 2 ≤ carets →
    (column - 1 + carets ≤ shown.length ↔ strayCarets front mid shown returns = 0)

section

variable {source : String} {front mid back : List Char} {d : Diagnostic} {l : Label}

theorem marks_label (hsize : byteLength source.toList < Span.limit) (colored : Bool)
    (hprimary : l.isPrimary = true) (hs : source.toList = front ++ (mid ++ back))
    (hspan : l.span = ⟨byteLength front, byteLength front + byteLength mid⟩) :
    ∃ line column shown returns carets,
      Marks source front mid line column shown returns carets ∧
      (Renderer.ofSource source colored).label l =
        placeText (Renderer.ofSource source colored) l line column ++
          snippetText (Renderer.ofSource source colored) line shown
            (repeated ' ' (column - 1) ++ repeated '^' carets) := by
  have hle := Nat.le_of_lt hsize
  obtain ⟨shown, returns, hshown, hline⟩ := exists_shown hle hs
  have hposition := position_split hle hs
  have hcolumn : (countWord (lastLine front).length + 1).toNat = (lastLine front).length + 1 := by
    refine countWord_add_one ?_
    have hlines := byteLength_lines front
    have := length_le_byteLength (lastLine front)
    rw [hs, byteLength_append] at hsize
    omega
  have hfront : front.length = (wholeLines front).length + (lastLine front).length := by
    rw [← List.length_append, wholeLines_append_lastLine]
  refine ⟨_, _, shown, returns, _, ⟨rfl, rfl, hshown, rfl, ?_, ?_⟩, ?_⟩
  · omega
  · unfold strayCarets shownPart returnsPart overlap
    omega
  · have hcarets : max (caretCount (ofSource source colored) l.span) 1 =
        max 1 (shownPart front mid shown + strayCarets front mid shown returns) := by
      rw [hspan, max_caretCount hs, firstPart_length hshown.noReturn hline]
    unfold label
    rw [hspan]
    rw [show (ofSource source colored).lines = .ofSource source from rfl, hposition]
    dsimp only
    rw [hprimary, ← hspan]
    unfold snippet
    rw [show (ofSource source colored).lines = .ofSource source from rfl, hshown.text]
    dsimp only
    rw [hcolumn, hcarets]
    rfl

/-- A diagnostic is rendered with each of its labels. -/
theorem exists_diagnostic_label (r : Renderer) (hmem : l ∈ d.labels) :
    ∃ before after, r.diagnostic d = before ++ r.label l ++ after := by
  obtain ⟨labels, labels', hlabels⟩ := List.append_of_mem hmem
  unfold diagnostic
  rw [hlabels, List.map_append, List.map_cons, String.join_append, String.join_cons]
  refine ⟨r.styled d.severity.text d.severity.style ++ r.styled ("[" ++ d.code.text ++ "]") .bold ++
    ": " ++ d.message ++ "\n" ++ String.join (labels.map r.label),
    String.join (labels'.map r.label) ++ String.join (d.notes.map r.note) ++ "\n", ?_⟩
  simp only [String.append_assoc]

end

end Renderer

open Renderer

/-- A diagnostic about the first bytes of a source. -/
def firstBytes (stop : Nat) : Diagnostic :=
  .ofError .unterminatedString "unterminated string" [⟨⟨0, stop⟩, "unterminated string", true⟩] []

end FrontEnd
