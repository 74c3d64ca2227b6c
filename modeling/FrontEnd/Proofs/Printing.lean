import FrontEnd.Proofs.Fragments

/-!
# Pieces of printed expressions

The text of pieces is what they add to a layout, one after the other. Whatever the indentation, the
pieces of a well-shaped expression spell its contents, before anything that does not go on with them.

* `printed` is the text that pieces add; `run_toList` says so.
* `Writes` says that pieces spell contents at every level of indentation, `Follows` that they may
  stand after an expression.
* `Expr.Printed` is what holds of the pieces of one expression. `Expr.printed` proves it by
  induction on the tree, with a lemma for each kind of expression.
-/

set_option autoImplicit false

namespace FrontEnd

open Lexer

/-! ## The text of pieces -/

/-- The characters that pieces add to a text, from a level of indentation, and from the start of a
line or not. -/
def printed (indentSize : Nat) : Nat → Bool → List Piece → List Char
  | _, _, [] => []
  | level, atStart, .text fragment :: ps =>
    if fragment.isEmpty then printed indentSize level atStart ps
    else
      (if atStart then List.replicate (level * indentSize) ' ' else []) ++
        (fragment.toList ++ printed indentSize level false ps)
  | level, _, .newline :: ps => '\n' :: printed indentSize level true ps
  | level, atStart, .indent :: ps => printed indentSize (level + 1) atStart ps
  | level, atStart, .dedent :: ps => printed indentSize (level - 1) atStart ps

theorem run_toList (l : Layout) (ps : List Piece) :
    (l.run ps).text.toList =
      l.text.toList ++ printed l.indentSize l.level l.atLineStart ps := by
  induction ps generalizing l with
  | nil => rw [Layout.run_nil, printed, List.append_nil]
  | cons p ps ih =>
    rw [Layout.run_cons, ih]
    cases p with
    | text fragment =>
      rw [printed, Layout.step, Layout.write]
      split
      · rfl
      split
      · simp [spaces, String.toList_append]
      · rename_i hstart
        simp [hstart, String.toList_append]
    | newline => simp [printed, Layout.step, Layout.newline, String.toList_append]
    | indent => rfl
    | dedent => rfl

variable {k : Nat} {ps : List Piece} {ws : List Content}

/-- Within a line a fragment is only followed by what comes next. -/
theorem printed_text (level : Nat) (t : String) (ps : List Piece) :
    printed k level false (.text t :: ps) = t.toList ++ printed k level false ps := by
  rw [printed]
  split
  · rename_i hempty
    rw [String.isEmpty_iff.mp hempty]
    rfl
  · rfl

/-! ## Pieces that spell contents -/

/-- The pieces spell contents at every level of indentation, and from wherever on a line. -/
def Writes (k : Nat) (ps : List Piece) (ws : List Content) : Prop :=
  ∀ level atStart, Spells (printed k level atStart ps) ws

/-- The pieces may stand after an expression: within a line they start with no character that goes
on with a word, and they spell no name first, which would be read as the suffix of a number. -/
structure Follows (k : Nat) (ps : List Piece) (ws : List Content) : Prop where
  writes : Writes k ps ws
  closed : ∀ level, Closed (printed k level false ps)
  noName : ∀ s, ws.head? ≠ some (.name s)

namespace Writes

theorem nil : Writes k [] [] := fun _ _ => .nil

theorem text {t : String} (ht : t.isEmpty = false)
    (h : ∀ level, Spells (t.toList ++ printed k level false ps) ws) :
    Writes k (.text t :: ps) ws := by
  intro level atStart
  rw [printed, ht, if_neg (by simp)]
  refine Spells.blanks ?_ (h level)
  intro c hc
  split at hc
  · rw [List.eq_of_mem_replicate hc]
    rfl
  · cases hc

theorem fragment {t : String} {vs : List Content} (hs : StandsFor t vs) (h : Writes k ps ws) :
    Writes k (.text t :: ps) (vs ++ ws) := by
  cases ht : t.isEmpty with
  | true =>
    intro level atStart
    rw [printed, if_pos ht]
    have hempty := hs _ _ (h level atStart)
    rwa [String.isEmpty_iff.mp ht] at hempty
  | false => exact text ht fun level => hs _ _ (h level false)

theorem lexeme {t : String} {v : Content} (hs : StandsFor t [v]) (h : Writes k ps ws) :
    Writes k (.text t :: ps) (v :: ws) :=
  h.fragment hs

theorem newline (h : Writes k ps ws) : Writes k (.newline :: ps) ws :=
  fun level _ => .blank rfl (h level true)

theorem indent (h : Writes k ps ws) : Writes k (.indent :: ps) ws :=
  fun level atStart => h (level + 1) atStart

theorem dedent (h : Writes k ps ws) : Writes k (.dedent :: ps) ws :=
  fun level atStart => h (level - 1) atStart

/-- A symbol and a blank, each a piece. -/
theorem spacedSymbol {s : String} (hs : s ∈ symbols) (h : Writes k ps ws) :
    Writes k (.text s :: .text " " :: ps) (.symbol s :: ws) := by
  refine text ?_ ?_
  · have hall : ∀ s ∈ symbols, s.isEmpty = false := by decide
    exact hall s hs
  · intro level
    rw [printed_text]
    exact .symbolBlank hs (h level false)

end Writes

theorem isEmpty_of_cons {s : String} {c : Char} {cs : List Char} (h : s.toList = c :: cs) :
    s.isEmpty = false := by
  rw [Bool.eq_false_iff]
  intro hempty
  rw [String.isEmpty_iff.mp hempty] at h
  cases h

theorem IsName.isEmpty {s : String} (h : IsName s) : s.isEmpty = false := by
  obtain ⟨c, body, mark, hcs, _⟩ := h.word
  exact isEmpty_of_cons hcs

namespace Follows

theorem name {s : String} (hs : IsName s) (h : Follows k ps ws) :
    Writes k (.text s :: ps) (.name s :: ws) :=
  .text hs.isEmpty fun level => .name hs (h.closed level) (h.writes level false)

theorem nil : Follows k [] [] := ⟨.nil, fun _ => closed_nil, by simp⟩

theorem fragment {t : String} {vs : List Content} (hs : StandsFor t vs)
    (ht : ∀ cs, Closed (t.toList ++ cs)) (hn : ∀ s, (vs ++ ws).head? ≠ some (.name s))
    (h : Writes k ps ws) : Follows k (.text t :: ps) (vs ++ ws) := by
  refine ⟨h.fragment hs, ?_, hn⟩
  intro level
  rw [printed_text]
  exact ht _

theorem lexeme {t : String} {v : Content} (hs : StandsFor t [v])
    (ht : ∀ cs, Closed (t.toList ++ cs)) (hv : ∀ s, v ≠ .name s) (h : Writes k ps ws) :
    Follows k (.text t :: ps) (v :: ws) :=
  .fragment hs ht (fun s hs => hv s (Option.some.inj hs)) h

theorem newline (hn : ∀ s, ws.head? ≠ some (.name s)) (h : Writes k ps ws) :
    Follows k (.newline :: ps) ws :=
  ⟨h.newline, fun _ => closed_cons (by decide), hn⟩

theorem dedent (h : Follows k ps ws) : Follows k (.dedent :: ps) ws :=
  ⟨h.writes.dedent, fun level => h.closed (level - 1), h.noName⟩

end Follows

/-! ## How a text starts and ends -/

/-- A character that makes no longer symbol of a prefix operator, aside from those that get a gap,
and that does not end a line. -/
def isPlainChar (c : Char) : Bool := c != '=' && c != '>' && c != '\n'

/-- The text starts and ends with plain characters. -/
structure Plain (cs : List Char) : Prop where
  start : ∃ c rest, cs = c :: rest ∧ isPlainChar c = true
  ending : ∃ before c, cs = before ++ [c] ∧ isPlainChar c = true

theorem Plain.of_all {cs : List Char} (hne : cs ≠ []) (h : ∀ c ∈ cs, isPlainChar c = true) :
    Plain cs := by
  refine ⟨?_, cs.dropLast, cs.getLast hne, (List.dropLast_concat_getLast hne).symm,
    h _ (List.getLast_mem hne)⟩
  cases cs with
  | nil => exact absurd rfl hne
  | cons c cs => exact ⟨c, cs, rfl, h c List.mem_cons_self⟩

/-- The text is not empty, and all its characters are plain. -/
def isPlainText (s : String) : Bool := !s.toList.isEmpty && s.toList.all isPlainChar

theorem Plain.of_text {s : String} (h : isPlainText s = true) : Plain s.toList := by
  rw [isPlainText, Bool.and_eq_true, Bool.not_eq_true', List.isEmpty_eq_false_iff,
    List.all_eq_true] at h
  exact .of_all h.1 h.2

theorem Plain.append {cs ds : List Char} (hc : Plain cs) (hd : Plain ds) : Plain (cs ++ ds) := by
  obtain ⟨c, rest, rfl, hstart⟩ := hc.start
  obtain ⟨before, d, rfl, hend⟩ := hd.ending
  exact ⟨⟨c, rest ++ (before ++ [d]), rfl, hstart⟩,
    ⟨c :: rest ++ before, d, by rw [List.append_assoc], hend⟩⟩

theorem isPlainChar_of_word {c : Char} (h : isWordChar c = true) : isPlainChar c = true := by
  simp only [isPlainChar, Bool.and_eq_true, bne_iff_ne]
  refine ⟨⟨?_, ?_⟩, ?_⟩
  all_goals
    rintro rfl
    cases h

theorem IsName.plain {s : String} (h : IsName s) : Plain s.toList := by
  obtain ⟨c, body, mark, hcs, hc, hbody, hmark⟩ := h.word
  rw [hcs]
  refine .of_all (by simp) ?_
  intro d hd
  rcases List.mem_append.mp hd with hd | hd
  · rcases List.mem_cons.mp hd with rfl | hd
    · exact isPlainChar_of_word (isWordChar_of_start hc)
    · exact isPlainChar_of_word (hbody d hd)
  · rcases hmark with rfl | rfl | rfl
    · cases hd
    · rw [List.mem_singleton.mp hd]
      rfl
    · rw [List.mem_singleton.mp hd]
      rfl

theorem numeralText_plain (bits : UInt64) (type : TypeExpr) :
    Plain (numeralText bits type).toList := by
  obtain ⟨hne, hall⟩ := numeralText_chars bits type
  refine .of_all hne ?_
  intro c hc
  rcases hall c hc with rfl | hdigit
  · rfl
  · exact isPlainChar_of_word (by simp [isWordChar, Char.isAlphanum, hdigit])

theorem plain_quoted {open_ s close : String} (ho : Plain open_.toList) (hc : Plain close.toList) :
    Plain (open_ ++ s ++ close).toList := by
  obtain ⟨c, rest, hcs, hstart⟩ := ho.start
  obtain ⟨before, d, hds, hend⟩ := hc.ending
  rw [String.toList_append, String.toList_append, hcs, hds]
  exact ⟨⟨c, _, rfl, hstart⟩, ⟨_, d, (List.append_assoc _ _ _).symm, hend⟩⟩

theorem Terminal.plain {a : Terminal} (hl : a.Lexed)
    (hi : ∀ bits type, a = .integer bits type → type.isInteger = true) : Plain a.text.toList := by
  cases a with
  | boolean value => cases value <;> exact .of_text rfl
  | integer bits type =>
    have htext : (Terminal.integer bits type).text =
        numeralText bits type ++ integerSuffix type := rfl
    rw [htext, integerSuffix, String.toList_append]
    split
    · rw [String.toList_empty, List.append_nil]
      exact numeralText_plain bits type
    · have hname := (@integer_word [] type (hi bits type rfl)).1
      exact (numeralText_plain bits type).append hname.plain
  | character value =>
    exact plain_quoted (.of_text rfl) (.of_text rfl)
  | string value =>
    exact plain_quoted (.of_text rfl) (.of_text rfl)
  | identifier name => exact IsName.plain hl
  | unit => exact .of_text rfl

theorem TypeExpr.plain (e : TypeExpr) : e.Lexed → Plain e.text.toList := by
  induction e with
  | sint w => cases w <;> exact fun _ => .of_text rfl
  | uint w => cases w <;> exact fun _ => .of_text rfl
  | float w => cases w <;> exact fun _ => .of_text rfl
  | bool | char | str | unit => exact fun _ => .of_text rfl
  | slice element _ =>
    exact fun _ => plain_quoted (.of_text rfl) (.of_text rfl)
  | array element size ih =>
    intro he
    simp only [text, String.toList_append]
    have hopen : Plain "[".toList := .of_text rfl
    have hsize := numeralText_plain size (.uint .w64)
    exact (((hopen.append (ih he)).append (.of_text rfl)).append hsize).append
      (.of_text rfl)
  | ref target ih =>
    intro he
    rw [text, String.toList_append]
    exact Plain.append (.of_text rfl) (ih he)
  | pointer target ih =>
    intro he
    rw [text, String.toList_append]
    exact Plain.append (.of_text rfl) (ih he)
  | named name => exact fun he => (he.1 name List.mem_cons_self).plain

/-- The last piece is a text that ends no line. -/
def EndsPlain (ps : List Piece) : Prop := ∃ before t, ps = before ++ [.text t] ∧ Plain t.toList

theorem EndsPlain.of_append {qs : List Piece} (ps : List Piece) (h : EndsPlain qs) :
    EndsPlain (ps ++ qs) := by
  obtain ⟨before, t, rfl, ht⟩ := h
  exact ⟨ps ++ before, t, by rw [List.append_assoc], ht⟩

theorem EndsPlain.text {t : String} (ht : Plain t.toList) : EndsPlain [.text t] := ⟨[], t, rfl, ht⟩

/-! ## Expressions -/

theorem grouped_of_not {b : Bool} (h : b = false) (ps : List Piece) : grouped b ps = ps := by
  rw [grouped, h, if_neg (by simp)]

namespace Expr

/-- What holds of the pieces of an expression: they spell its contents before all that may follow an
expression, they start with its first character, and they end no line. -/
structure Printed (k : Nat) (e : Expr) : Prop where
  writes : ∀ ps ws, Follows k ps ws → Writes k (e.pieces ++ ps) (e.contents ++ ws)
  start : e.isBinary = false → ∀ level ps, ∃ c, e.firstChar? = some c ∧ isPlainChar c = true ∧
    (printed k level false (e.pieces ++ ps)).head? = some c
  ending : EndsPlain e.pieces

theorem start_of_text {t : String} (ht : Plain t.toList) (level : Nat) (ps : List Piece) :
    ∃ c, t.toList.head? = some c ∧ isPlainChar c = true ∧
      (printed k level false (.text t :: ps)).head? = some c := by
  obtain ⟨c, rest, hcs, hstart⟩ := ht.start
  rw [printed_text, hcs]
  exact ⟨c, rfl, hstart, rfl⟩

theorem Printed.atom {site : Site} {a : Terminal} (hs : (Expr.atom site a).NodeShaped)
    (hl : a.Lexed) : (Expr.atom site a).Printed k := by
  have hi : ∀ bits type, a = .integer bits type → type.isInteger = true := by
    rintro bits type rfl
    exact hs
  have hplain := Terminal.plain hl hi
  refine ⟨?_, fun _ => start_of_text hplain, .text hplain⟩
  intro ps ws h
  obtain ⟨c, rest, hcs, _⟩ := hplain.start
  exact .text (isEmpty_of_cons hcs) fun level =>
    Terminal.spells hl hi (h.closed level) h.noName (h.writes level false)

/-- The characters that make a longer symbol of a prefix operator. -/
theorem continuations_unary (op : UnaryOp) :
    (continuations op.symbol).all (fun c => !isPlainChar c || needsGap op (some c)) = true := by
  cases op <;> rfl

theorem needsGap_digit {op : UnaryOp} {c : Char} (h : needsGap op (some c) = false)
    (hminus : op.symbol = "-") : c.isDigit = false := by
  cases op with
  | negation =>
    simp only [needsGap, Bool.or_eq_false_iff] at h
    exact h.2
  | _ => exact absurd hminus (by decide)

theorem Printed.unary {site : Site} {op : UnaryOp} {operand : Expr}
    (hb : operand.isBinary = false) (h : operand.Printed k) :
    (Expr.unary site op operand).Printed k := by
  have hs : op.symbol ∈ symbols := by cases op <;> decide
  have hplain : Plain op.symbol.toList := by cases op <;> exact .of_text rfl
  refine ⟨?_, ?_, ?_⟩
  · intro ps ws hf
    have hoperand := h.writes ps ws hf
    rw [pieces, contents, grouped_of_not hb, List.append_assoc, List.append_assoc]
    split
    · exact .spacedSymbol hs hoperand
    · rename_i hgap
      refine .text (by cases op <;> decide) fun level => ?_
      obtain ⟨c, hfirst, hc, hhead⟩ := h.start hb level ps
      rw [hfirst, Bool.not_eq_true] at hgap
      refine .symbol hs ?_ ?_ (hoperand level false)
      · intro d hd hmem
        obtain rfl : c = d := Option.some.inj (hhead.symm.trans hd)
        have hneeds := List.all_eq_true.mp (continuations_unary op) c hmem
        rw [hc, hgap] at hneeds
        cases hneeds
      · intro hminus d hd
        obtain rfl : c = d := Option.some.inj (hhead.symm.trans hd)
        exact needsGap_digit hgap hminus
  · intro _ level ps
    simp only [pieces, List.append_assoc, List.cons_append, List.nil_append]
    exact start_of_text hplain level _
  · rw [pieces, grouped_of_not hb]
    exact h.ending.of_append _

theorem Printed.binary {site : Site} {op : BinaryOp} {left right : Expr}
    (hs : (Expr.binary site op left right).NodeShaped) (hl : left.Printed k)
    (hr : right.Printed k) : (Expr.binary site op left right).Printed k := by
  obtain ⟨hleft, hright⟩ := hs
  have hsymbol : op.symbol ∈ symbols := by cases op <;> decide
  refine ⟨?_, fun h => absurd h (by simp [isBinary]), ?_⟩
  · intro ps ws hf
    rw [pieces, contents, grouped_of_not hleft, grouped_of_not hright]
    simp only [List.append_assoc, List.cons_append, List.nil_append]
    have hoperator := Writes.spacedSymbol hsymbol (hr.writes ps ws hf)
    exact hl.writes _ _ (.fragment .blank (fun _ => closed_cons (by decide)) (by simp) hoperator)
  · rw [pieces, grouped_of_not hright]
    exact hr.ending.of_append _

/-! ### Series -/

theorem commaPieces_follow {es : List Expr} (h : ∀ e ∈ es, e.Printed k) (hf : Follows k ps ws) :
    Follows k (commaPieces es ++ ps) (moreContents "," es ++ ws) := by
  induction es with
  | nil => exact hf
  | cons e es ih =>
    have hes := ih fun x hx => h x (List.mem_cons_of_mem e hx)
    have he := (h e List.mem_cons_self).writes _ _ hes
    simp only [commaPieces, moreContents, List.append_assoc, List.cons_append, List.nil_append]
    exact .lexeme .comma (fun _ => closed_cons (by decide)) (by simp) he

theorem listPieces_write {es : List Expr} (h : ∀ e ∈ es, e.Printed k) (hf : Follows k ps ws) :
    Writes k (listPieces es ++ ps) (seriesContents "," es ++ ws) := by
  cases es with
  | nil => exact hf.writes
  | cons e es =>
    have hes := commaPieces_follow (fun x hx => h x (List.mem_cons_of_mem e hx)) hf
    simp only [listPieces, seriesContents, List.append_assoc]
    exact (h e List.mem_cons_self).writes _ _ hes

/-- Expressions in parentheses. -/
theorem parenthesized_write {es : List Expr} (h : ∀ e ∈ es, e.Printed k) (hf : Follows k ps ws) :
    Writes k (.text "(" :: (listPieces es ++ .text ")" :: ps))
      (.symbol "(" :: (seriesContents "," es ++ .symbol ")" :: ws)) := by
  have hclose : Follows k (.text ")" :: ps) (.symbol ")" :: ws) :=
    .lexeme .closeParen (fun _ => closed_cons (by decide)) (by simp) hf.writes
  exact .lexeme .openParen (listPieces_write h hclose)

theorem statementPieces_follow {es : List Expr} (h : ∀ e ∈ es, e.Printed k)
    (hb : ∀ e ∈ es, e.isBinary = false) (hf : Follows k ps ws) :
    Follows k (statementPieces es ++ ps) (moreContents ";" es ++ ws) := by
  induction es with
  | nil => exact hf
  | cons e es ih =>
    have hes := ih (fun x hx => h x (List.mem_cons_of_mem e hx))
      (fun x hx => hb x (List.mem_cons_of_mem e hx))
    have he := (h e List.mem_cons_self).writes _ _ hes
    simp only [statementPieces, moreContents, List.append_assoc, List.cons_append, List.nil_append,
      grouped_of_not (hb e List.mem_cons_self)]
    exact .lexeme (.symbol (by decide) rfl (by decide)) (fun _ => closed_cons (by decide))
      (by simp) he.newline

/-! ### Kinds of expressions -/

theorem Printed.tuple {site : Site} {es : List Expr} (h : ∀ e ∈ es, e.Printed k) :
    (Expr.tuple site es).Printed k := by
  refine ⟨?_, ?_, ?_⟩
  · intro ps ws hf
    have hwrites := parenthesized_write h hf
    simpa only [pieces, contents, List.append_assoc, List.cons_append, List.nil_append]
      using hwrites
  · intro _ level ps
    simp only [pieces, List.append_assoc, List.cons_append, List.nil_append]
    exact start_of_text (t := "(") (.of_text rfl) level _
  · rw [pieces]
    exact (EndsPlain.text (t := ")") (.of_text rfl)).of_append _

theorem not_binary_of_takesPostfix {e : Expr} (h : e.takesPostfix = true) :
    e.isBinary = false := by
  cases e with
  | binary _ _ _ _ => cases h
  | _ => rfl

theorem Printed.call {site : Site} {callee : Expr} {args : List Expr}
    (hc : callee.takesPostfix = true) (h : callee.Printed k) (ha : ∀ e ∈ args, e.Printed k) :
    (Expr.call site callee args).Printed k := by
  have hb := not_binary_of_takesPostfix hc
  refine ⟨?_, ?_, ?_⟩
  · intro ps ws hf
    have hargs := parenthesized_write ha hf
    simp only [pieces, contents, grouped_of_not hb, List.append_assoc, List.cons_append,
      List.nil_append]
    exact h.writes _ _ ⟨hargs, fun _ => closed_cons (by decide), by simp⟩
  · intro _ level ps
    simp only [pieces, grouped_of_not hb, List.append_assoc]
    exact h.start hb level _
  · rw [pieces]
    exact (EndsPlain.text (t := ")") (.of_text rfl)).of_append _

theorem Printed.block {site : Site} {es : List Expr} (hb : ∀ e ∈ es, e.isBinary = false)
    (h : ∀ e ∈ es, e.Printed k) : (Expr.block site es).Printed k := by
  cases es with
  | nil =>
    refine ⟨fun ps ws hf => ?_, fun _ => ?_, .text (.of_text rfl)⟩
    · exact .fragment .braces hf.writes
    · exact start_of_text (t := "\x7b\x7d") (.of_text rfl)
  | cons e es =>
    have hgroup := grouped_of_not (hb e List.mem_cons_self)
    refine ⟨?_, ?_, ?_⟩
    · intro ps ws hf
      have hclose : Writes k (.text "\x7d" :: ps) (.symbol "\x7d" :: ws) :=
        .lexeme .closeBrace hf.writes
      have hes := statementPieces_follow (fun x hx => h x (List.mem_cons_of_mem e hx))
        (fun x hx => hb x (List.mem_cons_of_mem e hx)) (Follows.newline (by simp) hclose).dedent
      have he := (h e List.mem_cons_self).writes _ _ hes
      simp only [pieces, contents, seriesContents, hgroup, List.append_assoc, List.cons_append,
        List.nil_append]
      exact .lexeme .openBrace he.newline.indent
    · intro _ level ps
      simp only [pieces, List.append_assoc, List.cons_append, List.nil_append]
      exact start_of_text (t := "\x7b") (.of_text rfl) level _
    · rw [pieces]
      exact EndsPlain.of_append _ (EndsPlain.of_append [.dedent, .newline]
        (.text (t := "\x7d") (.of_text rfl)))

theorem Printed.loop {site : Site} {body : Expr} (hb : body.isBinary = false)
    (h : body.Printed k) : (Expr.loop site body).Printed k := by
  refine ⟨?_, ?_, ?_⟩
  · intro ps ws hf
    rw [pieces, contents, grouped_of_not hb]
    exact .lexeme .loopWord (h.writes ps ws hf)
  · intro _ level ps
    exact start_of_text (t := "loop ") (.of_text rfl) level _
  · rw [pieces, grouped_of_not hb]
    exact h.ending.of_append _

theorem Printed.accessor {site : Site} {object : Expr} {member : String}
    (ho : object.takesPostfix = true) (hm : IsName member) (h : object.Printed k) :
    (Expr.accessor site object member).Printed k := by
  have hb := not_binary_of_takesPostfix ho
  refine ⟨?_, ?_, ?_⟩
  · intro ps ws hf
    simp only [pieces, contents, grouped_of_not hb, List.append_assoc, List.cons_append,
      List.nil_append]
    have hmember : Writes k (.text "." :: .text member :: ps)
        (.symbol "." :: .name member :: ws) := by
      refine .text (by decide) fun level => ?_
      have hname := (hf.name hm) level false
      obtain ⟨c, body, mark, hcs, hc, _⟩ := hm.word
      refine .symbol (by decide) ?_ (fun hminus => absurd hminus (by decide)) hname
      intro d hd hmem
      have hlonger : continuations "." = ['.', '.'] := rfl
      rw [printed_text, hcs] at hd
      obtain rfl : c = d := by simpa using hd
      obtain rfl : c = '.' := by simpa [hlonger] using hmem
      cases hc
    exact h.writes _ _ ⟨hmember, fun _ => closed_cons (by decide), by simp⟩
  · intro _ level ps
    simp only [pieces, grouped_of_not hb, List.append_assoc]
    exact h.start hb level _
  · rw [pieces]
    exact EndsPlain.of_append _ ((EndsPlain.text hm.plain).of_append [.text "."])

/-! ### Conditionals -/

/-- What holds of the parts of an arm. -/
structure PrintedArm (k : Nat) (b : Branch) : Prop where
  condition : ∀ e ∈ b.condition?, e.isBinary = false
  body : b.body.isBinary = false
  parts : ∀ e ∈ armParts b, e.Printed k

theorem branchPieces_write {b : Branch} (h : PrintedArm k b) (hf : Follows k ps ws) :
    Writes k (branchPieces b ++ ps) (armContents b ++ ws) := by
  obtain ⟨hcondition, hbody, hparts⟩ := h
  cases b with
  | guarded condition body =>
    have hgroup : grouped body.isBinary body.pieces = body.pieces := grouped_of_not hbody _
    have hb := (hparts body (by simp [armParts])).writes ps ws hf
    have hc := (hparts condition (by simp [armParts])).writes _ _
      (.lexeme .thenWord (fun _ => closed_cons (by decide)) (by simp) hb)
    simp only [branchPieces, armContents, grouped_of_not (hcondition condition rfl), hgroup,
      List.append_assoc, List.cons_append, List.nil_append]
    exact .lexeme .ifWord hc
  | always body =>
    have hgroup : grouped body.isBinary body.pieces = body.pieces := grouped_of_not hbody _
    rw [branchPieces, armContents, hgroup]
    exact (hparts body (by simp [armParts])).writes ps ws hf

theorem elsePieces_follow {bs : List Branch} (h : ∀ b ∈ bs, PrintedArm k b)
    (hf : Follows k ps ws) : Follows k (elsePieces bs ++ ps) (elseContents bs ++ ws) := by
  induction bs with
  | nil => exact hf
  | cons b bs ih =>
    have hbs := ih fun x hx => h x (List.mem_cons_of_mem b hx)
    have hb := branchPieces_write (h b List.mem_cons_self) hbs
    simp only [elsePieces, elseContents, List.append_assoc, List.cons_append, List.nil_append]
    exact .lexeme .elseWord (fun _ => closed_cons (by decide)) (by simp) hb

theorem branchPieces_end {b : Branch} (h : PrintedArm k b) : EndsPlain (branchPieces b) := by
  obtain ⟨_, hbody, hparts⟩ := h
  cases b with
  | guarded condition body =>
    have hgroup : grouped body.isBinary body.pieces = body.pieces := grouped_of_not hbody _
    rw [branchPieces, hgroup]
    exact (hparts body (by simp [armParts])).ending.of_append _
  | always body =>
    have hgroup : grouped body.isBinary body.pieces = body.pieces := grouped_of_not hbody _
    rw [branchPieces, hgroup]
    exact (hparts body (by simp [armParts])).ending

theorem elsePieces_end {bs : List Branch} (h : ∀ b ∈ bs, PrintedArm k b) :
    EndsPlain ps → EndsPlain (ps ++ elsePieces bs) := by
  induction bs generalizing ps with
  | nil =>
    intro hps
    rwa [elsePieces, List.append_nil]
  | cons b bs ih =>
    intro _
    have hb := branchPieces_end (h b List.mem_cons_self)
    have hbs := ih (fun x hx => h x (List.mem_cons_of_mem b hx)) (hb.of_append [.text " else "])
    rw [elsePieces]
    exact hbs.of_append ps

theorem Printed.ifChain {site : Site} {bs : List Branch} (hs : Branches.WellShaped bs)
    (h : ∀ b ∈ bs, PrintedArm k b) : (Expr.ifChain site bs).Printed k := by
  cases bs with
  | nil => exact absurd rfl hs.nonempty
  | cons b bs =>
    have hrest := fun x hx => h x (List.mem_cons_of_mem b hx)
    refine ⟨?_, ?_, ?_⟩
    · intro ps ws hf
      have hwrites := branchPieces_write (h b List.mem_cons_self) (elsePieces_follow hrest hf)
      simpa only [pieces, contents, armsContents, List.append_assoc] using hwrites
    · intro _ level ps
      have hfirst := hs.first b rfl
      cases b with
      | guarded condition body =>
        simp only [pieces, branchPieces, List.append_assoc, List.cons_append, List.nil_append]
        exact start_of_text (t := "if ") (.of_text rfl) level _
      | always body => cases hfirst
    · rw [pieces]
      exact elsePieces_end hrest (branchPieces_end (h b List.mem_cons_self))

/-- **The pieces of a well-shaped expression spell its contents**, before all that may follow an
expression. -/
theorem printed {e : Expr} (hs : e.All WellShaped) (hl : e.All Lexed) : e.Printed k := by
  refine All.everywhere ?_ e (All.and e hs hl)
  rintro e ⟨⟨_, hs⟩, hl⟩ h
  cases e with
  | atom site a => exact .atom hs hl
  | unary site op operand => exact .unary hs (h operand (by simp [children]))
  | binary site op left right =>
    exact .binary hs (h left (by simp [children])) (h right (by simp [children]))
  | tuple site elements => exact .tuple h
  | call site callee args =>
    exact .call hs (h callee List.mem_cons_self) fun e he => h e (List.mem_cons_of_mem callee he)
  | block site statements => exact .block hs h
  | ifChain site branches =>
    refine .ifChain hs fun b hb => ⟨hs.conditions b hb, hs.bodies b hb, ?_⟩
    exact fun e he => h e (List.mem_flatMap.mpr ⟨b, hb, he⟩)
  | loop site body => exact .loop hs (h body (by simp [children]))
  | accessor site object member => exact .accessor hs hl (h object (by simp [children]))

end Expr

end FrontEnd
