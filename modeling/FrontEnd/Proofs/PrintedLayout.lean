import FrontEnd.Proofs.PrintedLines
import FrontEnd.Proofs.RoundTrip

/-!
# The layout of printed modules

The text of a module is split into its lines, and into its tokens. A line is indented by the braces
that are open before it, one level for each, where a brace counts if it is a token: those in strings
and characters are not. Where the pieces of a tree change the level, they print a brace.

* `Whole` is what holds of the fragments that are written for names, types and literals.
* `Expr.drawn`, `Declaration.drawn`: every tree restores the level, and ends where a line may end.
* `Module.printed_pieces`, `Module.rows`: the text of a module consists of the lines of its
  declarations and a blank line between each two.
* `Rows.indentedBy` goes over from braces in the text to tokens.
* `printed_layout` is the statement for modules of a source.
-/

set_option autoImplicit false

namespace FrontEnd

open Lexer

/-! ## Fragments that are written -/

section

variable {t u : String} {a b : Int}

theorem Flat.append (ht : Flat t a) (hu : Flat u b) : Flat (t ++ u) (a + b) := by
  refine ⟨?_, ?_, ?_⟩
  · rw [String.toList_append]
    exact fun hmem => (List.mem_append.mp hmem).elim ht.noFeed hu.noFeed
  · rw [String.toList_append]
    exact ht.outside.append hu.outside
  · rw [String.toList_append, ht.outside.depth_append, ht.depth_eq, hu.depth_eq]

theorem MayStart.append (ht : MayStart t) (u : String) : MayStart (t ++ u) := by
  obtain ⟨c, hc, hstart⟩ := ht
  exact ⟨c, by rw [String.toList_append]; exact List.mem_head?_append_of_mem_head? hc, hstart⟩

theorem MayEnd.append (t : String) (hu : MayEnd u) : MayEnd (t ++ u) := by
  obtain ⟨c, hc, hend⟩ := hu
  exact ⟨c, by rw [String.toList_append]; exact List.mem_getLast?_append_of_mem_getLast? hc, hend⟩

/-- A fragment that may stand on a line with nothing else. -/
structure Whole (t : String) : Prop where
  flat : Flat t 0
  starts : MayStart t
  ends : MayEnd t

theorem Whole.append (ht : Whole t) (hu : Whole u) : Whole (t ++ u) :=
  ⟨ht.flat.append hu.flat, ht.starts.append u, hu.ends.append t⟩

theorem Whole.leads {k : Nat} (h : Whole t) : Leads (Begun k) [.text t] (Solid k 0) :=
  .only h.flat h.starts h.ends

/-- A fragment of characters that are no quotes, no braces and no blanks. -/
theorem whole_of_inert (hne : t.toList ≠ [])
    (h : ∀ c ∈ t.toList, isInert c = true ∧ isBlank c = false) : Whole t := by
  obtain ⟨houtside, hdepth⟩ := outside_of_inert fun c hc => (h c hc).1
  refine ⟨⟨fun hmem => ?_, houtside, hdepth⟩, ⟨t.toList.head hne, List.head?_eq_some_head hne, ?_⟩,
    ⟨t.toList.getLast hne, List.getLast?_eq_some_getLast hne, ?_⟩⟩
  · exact absurd (h _ hmem).2 (by decide)
  · obtain ⟨hinert, hblank⟩ := h _ (List.head_mem hne)
    refine ⟨hblank, fun hclose => ?_⟩
    rw [hclose] at hinert
    exact absurd hinert (by decide)
  · intro hspace
    have hblank := (h _ (List.getLast_mem hne)).2
    rw [hspace] at hblank
    exact absurd hblank (by decide)

theorem IsName.whole (h : IsName t) : Whole t := by
  obtain ⟨c, body, mark, hcs, hc, hbody, hmark⟩ := h.word
  refine whole_of_inert (by rw [hcs]; simp) fun d hd => ?_
  rw [hcs] at hd
  rcases List.mem_append.mp hd with hd | hd
  · rcases List.mem_cons.mp hd with rfl | hd
    · exact inert_of_wordChar (isWordChar_of_start hc)
    · exact inert_of_wordChar (hbody d hd)
  · rcases hmark with rfl | rfl | rfl
    · cases hd
    · rw [List.mem_singleton.mp hd]
      exact ⟨rfl, rfl⟩
    · rw [List.mem_singleton.mp hd]
      exact ⟨rfl, rfl⟩

theorem numeralText_whole (bits : UInt64) (type : TypeExpr) : Whole (numeralText bits type) := by
  obtain ⟨hne, hall⟩ := numeralText_chars bits type
  refine whole_of_inert hne fun c hc => ?_
  rcases hall c hc with rfl | hdigit
  · exact ⟨rfl, rfl⟩
  · exact inert_of_wordChar (by simp [isWordChar, Char.isAlphanum, hdigit])

/-- Fixed text that may stand on a line with nothing else. -/
def isWhole (t : String) : Bool :=
  !t.toList.isEmpty && t.toList.all (fun c => isInert c && !isBlank c)

theorem whole_of_text (h : isWhole t = true) : Whole t := by
  rw [isWhole, Bool.and_eq_true, Bool.not_eq_true', List.isEmpty_eq_false_iff,
    List.all_eq_true] at h
  exact whole_of_inert h.1 fun c hc => by simpa using h.2 c hc

theorem TypeExpr.whole (e : TypeExpr) : e.Lexed → Whole e.text := by
  induction e with
  | sint w => cases w <;> exact fun _ => whole_of_text rfl
  | uint w => cases w <;> exact fun _ => whole_of_text rfl
  | float w => cases w <;> exact fun _ => whole_of_text rfl
  | bool | char | str | unit => exact fun _ => whole_of_text rfl
  | slice element ih =>
    exact fun he => ((whole_of_text (t := "[") rfl).append (ih he)).append
      (whole_of_text (t := "]") rfl)
  | array element size ih =>
    intro he
    have hopen := (whole_of_text (t := "[") rfl).append (ih he)
    have hseparator : Flat "; " 0 := flat_of (by decide)
    have hclose : Whole (Nat.repr size.toNat ++ "]") :=
      (numeralText_whole size (.uint .w64)).append (whole_of_text (t := "]") rfl)
    have htext : (array element size).text =
        "[" ++ element.text ++ "; " ++ (Nat.repr size.toNat ++ "]") := by
      rw [text, @String.append_assoc _ _ "]"]
    rw [htext]
    exact ⟨(hopen.flat.append hseparator).append hclose.flat, (hopen.starts.append _).append _,
      hclose.ends.append _⟩
  | ref target ih => exact fun he => (whole_of_text (t := "&") rfl).append (ih he)
  | pointer target ih => exact fun he => (whole_of_text (t := "*") rfl).append (ih he)
  | named name => exact fun he => (he.1 name List.mem_cons_self).whole

/-- Escaped text has no line feed. -/
theorem noFeed_escape (cs : List Char) : '\n' ∉ cs.flatMap Text.escapeChar := by
  intro hmem
  obtain ⟨c, -, hc⟩ := List.mem_flatMap.mp hmem
  rcases Text.escapeChar_cases c with ⟨hself, -, -⟩ | ⟨d, hd, hescape⟩
  · rw [hself, List.mem_singleton] at hc
    subst hc
    exact absurd hself (by decide)
  · rw [hd] at hc
    obtain rfl : '\n' = d := by simpa using hc
    cases hescape

/-- Text between quotes, escaped. -/
theorem whole_quoted {quote : Char} {cs : List Char} (hquote : quote = '"' ∨ quote = '\'')
    (hcs : ∀ c ∈ cs, Text.escapeChar c = [c] → c ≠ quote)
    (ht : t.toList = quote :: (cs.flatMap Text.escapeChar ++ [quote])) : Whole t := by
  have hkind : TokenKind.string ≠ .symbol := by decide
  obtain ⟨houtside, hdepth⟩ := @Shape.outside .string "" 0 t.toList
    (.quoted quote _ cs hquote ht (decodes_escape hcs) hkind) Span.none
  have hchar : quote ≠ '\n' ∧ isBlank quote = false ∧ quote ≠ '\x7d' ∧ quote ≠ ' ' := by
    rcases hquote with rfl | rfl <;> decide
  refine ⟨⟨?_, houtside, hdepth⟩, ⟨quote, by rw [ht]; rfl, hchar.2.1, hchar.2.2.1⟩,
    ⟨quote, by rw [ht, ← List.cons_append, List.getLast?_concat], hchar.2.2.2⟩⟩
  rw [ht, List.mem_cons, List.mem_append, List.mem_singleton]
  rintro (hfeed | hfeed | hfeed)
  · exact hchar.1 hfeed.symm
  · exact noFeed_escape cs hfeed
  · exact hchar.1 hfeed.symm

theorem Terminal.whole {a : Terminal} (hl : a.Lexed)
    (hi : ∀ bits type, a = .integer bits type → type.isInteger = true) : Whole a.text := by
  cases a with
  | boolean value => cases value <;> exact whole_of_text rfl
  | integer bits type =>
    have htext : (Terminal.integer bits type).text =
        numeralText bits type ++ integerSuffix type := rfl
    rw [htext, integerSuffix]
    split
    · rw [String.append_empty]
      exact numeralText_whole bits type
    · exact (numeralText_whole bits type).append (@integer_word [] type (hi bits type rfl)).1.whole
  | character value =>
    refine @whole_quoted _ '\'' [value] (.inr rfl) (fun c hc _ => ?_) ?_
    · rw [List.mem_singleton.mp hc]
      exact hl
    · simp only [text, String.toList_append, Text.escape, String.toList_ofList,
        Char.toString_eq_singleton, String.toList_singleton]
      rfl
  | string value =>
    refine @whole_quoted _ '"' value.toList (.inl rfl) ?_ ?_
    · rintro c - hc rfl
      cases hc
    · simp only [text, String.toList_append, Text.escape, String.toList_ofList]
      rfl
  | identifier name => exact IsName.whole hl
  | unit => exact whole_of_text rfl

end

/-! ### Punctuation -/

namespace Leads

variable {k : Nat} {ps : List Piece}

/-- The parenthesis that opens may begin something, the one that closes may end a line. -/
theorem parentheses (h : Leads (Inside k 0) ps (Inside k 0)) :
    Leads (Begun k) ([.text "("] ++ ps ++ [.text ")"]) (Solid k 0) := by
  have hopen : Leads (Begun k) [.text "("] (Solid k 0) := (whole_of_text rfl).leads
  have hclose : Leads (Begun k) [.text ")"] (Solid k 0) := (whole_of_text rfl).leads
  exact (hopen.append h.ofSolid).append hclose.ofInside

/-- A semicolon ends a line. -/
theorem semicolon : Leads (Solid k 0) [.text ";", .newline] (Begun k) := by
  have hmark : Leads (Begun k) [.text ";"] (Solid k 0) := (whole_of_text rfl).leads
  exact .cons hmark.goOn .newline

end Leads

/-! ## Expressions -/

namespace Expr

/-- The pieces of an expression may begin wherever something may, and they end a line. -/
def Drawn (k : Nat) (e : Expr) : Prop := Leads (Begun k) e.pieces (Solid k 0)

variable {k : Nat} {site : Site}

theorem Drawn.grouped {ps : List Piece} (b : Bool) (h : Leads (Begun k) ps (Solid k 0)) :
    Leads (Begun k) (grouped b ps) (Solid k 0) := by
  cases b with
  | false => exact h
  | true => exact .parentheses h.ofInside.toInside

theorem Drawn.unary {op : UnaryOp} {operand : Expr} (h : operand.Drawn k) :
    (Expr.unary site op operand).Drawn k := by
  have hop : Whole op.symbol := by cases op <;> exact whole_of_text rfl
  have hgap : Flat " " 0 := flat_of (by decide)
  rw [Drawn, pieces]
  split
  · exact (hop.leads.append (Leads.text hgap).ofSolid).append (Drawn.grouped _ h).ofInside
  · rw [List.append_nil]
    exact hop.leads.append (Drawn.grouped _ h).goOn

theorem Drawn.binary {op : BinaryOp} {left right : Expr} (hl : left.Drawn k) (hr : right.Drawn k) :
    (Expr.binary site op left right).Drawn k := by
  have hop : Whole op.symbol := by cases op <;> exact whole_of_text rfl
  have hgap : Flat " " 0 := flat_of (by decide)
  have hmiddle : Leads (Solid k 0) [.text " ", .text op.symbol, .text " "] (Inside k 0) :=
    .cons (Leads.text hgap).ofSolid (.cons (Leads.text hop.flat) (Leads.text hgap))
  rw [Drawn, pieces]
  exact ((Drawn.grouped _ hl).append hmiddle).append (Drawn.grouped _ hr).ofInside

/-! ### Series -/

theorem commaPieces_drawn {es : List Expr} (h : ∀ e ∈ es, e.Drawn k) :
    Leads (Inside k 0) (commaPieces es) (Inside k 0) := by
  have hcomma : Flat ", " 0 := flat_of (by decide)
  induction es with
  | nil => exact .refl
  | cons e es ih =>
    have hrest := ih fun x hx => h x (List.mem_cons_of_mem e hx)
    rw [commaPieces]
    exact ((Leads.text hcomma).append (h e List.mem_cons_self).ofInside).append hrest.ofSolid

theorem listPieces_drawn {es : List Expr} (h : ∀ e ∈ es, e.Drawn k) :
    Leads (Inside k 0) (listPieces es) (Inside k 0) := by
  cases es with
  | nil => exact .refl
  | cons e es =>
    have hrest := commaPieces_drawn fun x hx => h x (List.mem_cons_of_mem e hx)
    rw [listPieces]
    exact (h e List.mem_cons_self).ofInside.append hrest.ofSolid

/-- Expressions in parentheses. -/
theorem parenthesized_drawn {es : List Expr} (h : ∀ e ∈ es, e.Drawn k) :
    Leads (Begun k) ([.text "("] ++ listPieces es ++ [.text ")"]) (Solid k 0) :=
  .parentheses (listPieces_drawn h)

theorem statementPieces_drawn {es : List Expr} (h : ∀ e ∈ es, e.Drawn k) :
    Leads (Solid k 0) (statementPieces es) (Solid k 0) := by
  induction es with
  | nil => exact .refl
  | cons e es ih =>
    have hrest := ih fun x hx => h x (List.mem_cons_of_mem e hx)
    rw [statementPieces]
    exact (Leads.semicolon.append (Drawn.grouped _ (h e List.mem_cons_self))).append hrest

/-! ### Kinds of expressions -/

theorem Drawn.call {callee : Expr} {args : List Expr} (h : callee.Drawn k)
    (ha : ∀ e ∈ args, e.Drawn k) : (Expr.call site callee args).Drawn k := by
  rw [Drawn, pieces, List.append_assoc, List.append_assoc]
  have hargs := (parenthesized_drawn ha).goOn
  rw [List.append_assoc] at hargs
  exact (Drawn.grouped _ h).append hargs

theorem Drawn.block {es : List Expr} (h : ∀ e ∈ es, e.Drawn k) :
    (Expr.block site es).Drawn k := by
  cases es with
  | nil =>
    have hbraces : Flat "\x7b\x7d" 0 := flat_of (by decide)
    exact .only hbraces ⟨'\x7b', rfl, rfl, by decide⟩ ⟨'\x7d', rfl, by decide⟩
  | cons e es =>
    have hbrace : Flat "\x7b" 1 := flat_of (by decide)
    have hopen : Leads (Begun k) [.text "\x7b"] (Solid k 1) :=
      .only hbrace ⟨'\x7b', rfl, rfl, by decide⟩ ⟨'\x7b', rfl, by decide⟩
    have hbody := (Drawn.grouped e.isBinary (h e List.mem_cons_self)).append
      (statementPieces_drawn fun x hx => h x (List.mem_cons_of_mem e hx))
    have hwhole := hopen.append hbody.braces
    rw [Drawn, pieces]
    simpa only [List.append_assoc, List.cons_append, List.nil_append] using hwhole

theorem Drawn.loop {body : Expr} (h : body.Drawn k) : (Expr.loop site body).Drawn k := by
  have hword : Flat "loop " 0 := flat_of (by decide)
  rw [Drawn, pieces]
  exact (Leads.first hword ⟨'l', rfl, rfl, by decide⟩).append (Drawn.grouped _ h).ofInside

theorem Drawn.accessor {object : Expr} {member : String} (h : object.Drawn k)
    (hm : IsName member) : (Expr.accessor site object member).Drawn k := by
  have hdot : Whole "." := whole_of_text rfl
  have hmember : Leads (Solid k 0) [.text ".", .text member] (Solid k 0) :=
    .cons hdot.leads.goOn hm.whole.leads.goOn
  rw [Drawn, pieces]
  exact (Drawn.grouped _ h).append hmember

theorem branchPieces_drawn {b : Branch} (h : ∀ e ∈ armParts b, e.Drawn k) :
    Leads (Begun k) (branchPieces b) (Solid k 0) := by
  cases b with
  | guarded condition body =>
    have hif : Flat "if " 0 := flat_of (by decide)
    have hthen : Flat " then " 0 := flat_of (by decide)
    have hcondition := Drawn.grouped condition.isBinary (h condition (by simp [armParts]))
    have hbody := Drawn.grouped body.isBinary (h body (by simp [armParts]))
    rw [branchPieces]
    exact (((Leads.first hif ⟨'i', rfl, rfl, by decide⟩).append hcondition.ofInside).append
      (Leads.text hthen).ofSolid).append hbody.ofInside
  | always body => exact Drawn.grouped body.isBinary (h body (by simp [armParts]))

theorem elsePieces_drawn {bs : List Branch} (h : ∀ b ∈ bs, ∀ e ∈ armParts b, e.Drawn k) :
    Leads (Solid k 0) (elsePieces bs) (Solid k 0) := by
  have helse : Flat " else " 0 := flat_of (by decide)
  induction bs with
  | nil => exact .refl
  | cons b bs ih =>
    have hrest := ih fun x hx => h x (List.mem_cons_of_mem b hx)
    rw [elsePieces]
    exact ((Leads.text helse).ofSolid.append
      (branchPieces_drawn (h b List.mem_cons_self)).ofInside).append hrest

theorem Drawn.ifChain {bs : List Branch} (hne : bs ≠ [])
    (h : ∀ b ∈ bs, ∀ e ∈ armParts b, e.Drawn k) : (Expr.ifChain site bs).Drawn k := by
  cases bs with
  | nil => exact absurd rfl hne
  | cons b bs =>
    rw [Drawn, pieces]
    exact (branchPieces_drawn (h b List.mem_cons_self)).append
      (elsePieces_drawn fun x hx => h x (List.mem_cons_of_mem b hx))

/-- **Every expression restores the level**, and ends where a line may end. -/
theorem drawn {e : Expr} (hs : e.All WellShaped) (hl : e.All Lexed) : e.Drawn k := by
  refine All.everywhere ?_ e (All.and e hs hl)
  rintro e ⟨⟨_, hs⟩, hl⟩ h
  cases e with
  | atom site a =>
    refine (Terminal.whole hl ?_).leads
    rintro bits type rfl
    exact hs
  | unary site op operand => exact .unary (h operand (by simp [children]))
  | binary site op left right =>
    exact .binary (h left (by simp [children])) (h right (by simp [children]))
  | tuple site elements => exact parenthesized_drawn h
  | call site callee args =>
    exact .call (h callee List.mem_cons_self) fun e he => h e (List.mem_cons_of_mem callee he)
  | block site statements => exact .block h
  | ifChain site branches =>
    exact .ifChain hs.nonempty fun b hb e he => h e (List.mem_flatMap.mpr ⟨b, hb, he⟩)
  | loop site body => exact .loop (h body (by simp [children]))
  | accessor site object member => exact .accessor (h object (by simp [children])) hl

end Expr

/-! ## Declarations -/

section

variable {k : Nat}

/-- Pieces with a separator between each two lead from where each of them leads from. -/
theorem interleave_drawn {α : Type} {p q : Layout → Nat → Prop} {pieces : α → List Piece}
    {separator : List Piece} {as : List α} (hs : Leads q separator p)
    (ha : ∀ a ∈ as, Leads p (pieces a) q) (hne : as ≠ []) :
    Leads p (interleave separator (as.map pieces)) q := by
  induction as with
  | nil => exact absurd rfl hne
  | cons a as ih =>
    cases as with
    | nil => exact ha a List.mem_cons_self
    | cons b as =>
      have hrest := ih (fun x hx => ha x (List.mem_cons_of_mem a hx)) (List.cons_ne_nil b as)
      simp only [List.map_cons, interleave, List.append_assoc] at hrest ⊢
      exact (ha a List.mem_cons_self).append (hs.append hrest)

/-- A name, a colon and a type. -/
theorem binding_drawn {name : String} {type : TypeExpr} (hn : IsName name) (ht : type.Lexed) :
    Leads (Begun k) [.text name, .text ": ", .text type.text] (Solid k 0) := by
  have hcolon : Flat ": " 0 := flat_of (by decide)
  exact .cons hn.whole.leads
    (.cons (Leads.text hcolon).ofSolid (TypeExpr.whole type ht).leads.ofInside)

theorem Member.drawn {m : Member} (hm : IsName m.name ∧ m.type.Lexed) :
    Leads (Begun k) m.pieces (Solid k 0) := by
  have hpublic : Flat "public " 0 := flat_of (by decide)
  rw [pieces]
  cases m.isPublic with
  | true =>
    exact (Leads.first hpublic ⟨'p', rfl, rfl, by decide⟩).append
      (binding_drawn hm.1 hm.2).ofInside
  | false => exact binding_drawn hm.1 hm.2

theorem parameters_drawn {params : List Parameter}
    (hp : ∀ p ∈ params, IsName p.name ∧ p.type.Lexed) :
    Leads (Inside k 0) (interleave [.text ", "] (params.map Parameter.pieces)) (Inside k 0) := by
  have hcomma : Flat ", " 0 := flat_of (by decide)
  by_cases hnil : params = []
  · rw [hnil]
    exact .refl
  · exact interleave_drawn (Leads.text hcomma)
      (fun p hmem => (binding_drawn (hp p hmem).1 (hp p hmem).2).ofInside.toInside) hnil

/-- A function ends where a line may end, at the level at which it begins. -/
theorem Function.drawn {f : Function} (hs : f.WellShaped) (hl : f.Lexed) :
    Leads (Begun k) f.pieces (Solid k 0) := by
  have hextern : Flat "extern " 0 := flat_of (by decide)
  have hfn : Flat "fn " 0 := flat_of (by decide)
  have hopen : Whole "(" := whole_of_text rfl
  have hclose : Whole ")" := whole_of_text rfl
  have hmark : Flat ", ..." 0 := flat_of (by decide)
  have harrow : Flat " -> " 0 := flat_of (by decide)
  have hequals : Flat " = " 0 := flat_of (by decide)
  have hname : Leads (Inside k 0) [.text f.name, .text "("] (Inside k 0) :=
    .cons hl.name.whole.leads.ofInside (Leads.text hopen.flat).ofSolid
  have hhead : Leads (Begun k)
      ((if f.isExtern then [.text "extern "] else []) ++ [.text "fn ", .text f.name, .text "("])
      (Inside k 0) := by
    cases f.isExtern with
    | true =>
      exact (Leads.first hextern ⟨'e', rfl, rfl, by decide⟩).append (.cons (Leads.text hfn) hname)
    | false => exact .cons (Leads.first hfn ⟨'f', rfl, rfl, by decide⟩) hname
  have hvariadic :
      Leads (Inside k 0) (if f.isVariadic then [.text ", ..."] else []) (Inside k 0) := by
    cases f.isVariadic with
    | true => exact Leads.text hmark
    | false => exact .refl
  have hreturn : Leads (Solid k 0)
      (if f.returnType = .unit then [] else [.text " -> ", .text f.returnType.text])
      (Solid k 0) := by
    split
    · exact .refl
    · exact .cons (Leads.text harrow).ofSolid (TypeExpr.whole _ hl.returnType).leads.ofInside
  have hsignature := ((((hhead.append (parameters_drawn hl.params)).append hvariadic).append
    hclose.leads.ofInside).append hreturn)
  rw [pieces]
  cases hbody : f.body with
  | some body =>
    have hdrawn := Expr.drawn (k := k) (hs.body body hbody) (hl.body body hbody)
    exact hsignature.append ((Leads.text hequals).ofSolid.append hdrawn.ofInside)
  | none =>
    rw [List.append_nil]
    exact hsignature

theorem Struct.drawn {s : Struct} (hl : s.Lexed) : Leads (Begun k) s.pieces (Solid k 0) := by
  have hstruct : Flat "struct " 0 := flat_of (by decide)
  have hbraces : Flat " \x7b\x7d" 0 := flat_of (by decide)
  have hopen : Flat " \x7b" 1 := flat_of (by decide)
  have hhead : Leads (Begun k) [.text "struct ", .text s.name] (Solid k 0) :=
    .cons (Leads.first hstruct ⟨'s', rfl, rfl, by decide⟩) hl.name.whole.leads.ofInside
  rw [pieces]
  by_cases hnil : s.members = []
  · rw [hnil]
    exact hhead.append (Leads.last hbraces ⟨'\x7d', rfl, by decide⟩).ofSolid
  · have hmembers := interleave_drawn Leads.semicolon
      (fun m hmem => Member.drawn (k := k) (hl.members m hmem)) hnil
    have hline : Leads (Solid k 0) [.text " \x7b"] (Solid k 1) :=
      (Leads.last hopen ⟨'\x7b', rfl, by decide⟩).ofSolid
    have hbody := (hhead.append hline).append hmembers.braces
    have hne : s.members.isEmpty = false := by simp [hnil]
    rw [hne, if_neg Bool.false_ne_true]
    simpa only [List.append_assoc, List.cons_append, List.nil_append] using hbody

theorem Declaration.drawn {d : Declaration} (hs : d.WellShaped) (hl : d.Lexed) :
    Leads (Begun k) d.pieces (Solid k 0) := by
  cases d with
  | function f => exact Function.drawn hs hl
  | struct s => exact Struct.drawn hl

/-! ## Modules -/

/-- The lines of a declaration: none of them is blank, and as many braces are closed as are
opened. -/
theorem Declaration.exists_lines {d : Declaration} (hs : d.WellShaped) (hl : d.Lexed) :
    ∃ ls part, (d.toSource k).toList = joinLines ls ++ part ∧ Rows k 0 (ls ++ [part]) 0 ∧
      (∀ line ∈ ls ++ [part], line ≠ []) ∧
        (d.toSource k).toList.splitOn '\n' = ls ++ [part] ∧
          ((Layout.empty k).run d.pieces).level = 0 := by
  obtain ⟨part, c, hc, hspace, hdrawn⟩ := Declaration.drawn hs hl _ 0 ⟨[], Layout.Drawn.empty k⟩
  obtain ⟨ls, htext, hrows, hne⟩ := hdrawn.lines hc hspace
  refine ⟨ls, part, htext, hrows, hne, ?_, hdrawn.level_eq⟩
  rw [toSource, htext]
  exact splitOn_joinLines (fun line hline => (hrows.mem line (List.mem_append_left _ hline)).1)
    hdrawn.noFeed

/-- The lines of declarations, with a blank line between each two. -/
def Module.lines (k : Nat) (m : Module) : List (List Char) :=
  [[]].intercalate (m.map fun d => (d.toSource k).toList.splitOn '\n')

theorem Module.lines_singleton (d : Declaration) :
    Module.lines k [d] = (d.toSource k).toList.splitOn '\n' := by
  simp [Module.lines, List.intercalate]

theorem Module.lines_cons_cons (d e : Declaration) (m : Module) :
    Module.lines k (d :: e :: m) =
      (d.toSource k).toList.splitOn '\n' ++ [] :: Module.lines k (e :: m) := by
  unfold Module.lines
  rw [List.map_cons, List.intercalate_cons_of_ne_nil (by simp), List.append_assoc,
    List.singleton_append]

/-- After a declaration printing goes on as at the start of a text. -/
theorem Declaration.printed_pieces {d : Declaration} (hs : d.WellShaped) (hl : d.Lexed)
    (ps : List Piece) :
    printed k 0 true (d.pieces ++ .newline :: ps) =
      joinLines ((d.toSource k).toList.splitOn '\n') ++ printed k 0 true ps := by
  obtain ⟨ls, part, htext, -, -, hsplit, hlevel⟩ := exists_lines (k := k) hs hl
  have hall := run_toList (Layout.empty k) (d.pieces ++ .newline :: ps)
  have hsize := Layout.run_indentSize (Layout.empty k) d.pieces
  rw [Layout.run_append, run_toList, hlevel, hsize] at hall
  have hsource : ((Layout.empty k).run d.pieces).text.toList = joinLines ls ++ part := htext
  rw [hsource] at hall
  rw [hsplit, joinLines_append, joinLines_cons, joinLines_nil, List.append_assoc, List.append_assoc]
  rw [List.append_assoc] at hall
  exact hall.symm

theorem Module.printed_pieces {m : Module} (hs : ∀ d ∈ m, d.WellShaped) (hl : ∀ d ∈ m, d.Lexed) :
    printed k 0 true (Module.pieces m) = joinLines (Module.lines k m) := by
  unfold Module.pieces
  induction m with
  | nil => rfl
  | cons d m ih =>
    have hd := Declaration.printed_pieces (k := k) (hs d List.mem_cons_self)
      (hl d List.mem_cons_self)
    have hm := ih (fun x hx => hs x (List.mem_cons_of_mem d hx))
      (fun x hx => hl x (List.mem_cons_of_mem d hx))
    cases m with
    | nil =>
      have hend := hd []
      rw [printed, List.append_nil] at hend
      rw [Module.lines_singleton]
      exact hend
    | cons e m =>
      rw [Module.lines_cons_cons, joinLines_append, joinLines_cons, List.nil_append, ← hm]
      simp only [List.map_cons, interleave, List.append_assoc, List.cons_append, List.nil_append]
      rw [hd, printed]

theorem Module.rows {m : Module} (hs : ∀ d ∈ m, d.WellShaped) (hl : ∀ d ∈ m, d.Lexed) :
    Rows k 0 (Module.lines k m) 0 := by
  induction m with
  | nil => exact .nil
  | cons d m ih =>
    obtain ⟨ls, part, -, hrows, -, hsplit, -⟩ := Declaration.exists_lines (k := k)
      (hs d List.mem_cons_self) (hl d List.mem_cons_self)
    have hm := ih (fun x hx => hs x (List.mem_cons_of_mem d hx))
      (fun x hx => hl x (List.mem_cons_of_mem d hx))
    cases m with
    | nil => rwa [Module.lines_singleton, hsplit]
    | cons e m =>
      rw [Module.lines_cons_cons, hsplit]
      exact hrows.append (.blank hm)

/-- The last line of declarations is not blank. -/
theorem Module.lines_last {m : Module} (hne : m ≠ []) (hs : ∀ d ∈ m, d.WellShaped)
    (hl : ∀ d ∈ m, d.Lexed) : ∃ ls part, Module.lines k m = ls ++ [part] ∧ part ≠ [] := by
  induction m with
  | nil => exact absurd rfl hne
  | cons d m ih =>
    cases m with
    | nil =>
      obtain ⟨ls, part, -, -, hlines, hsplit, -⟩ := Declaration.exists_lines (k := k)
        (hs d List.mem_cons_self) (hl d List.mem_cons_self)
      exact ⟨ls, part, by rw [Module.lines_singleton, hsplit], hlines part (by simp)⟩
    | cons e m =>
      obtain ⟨ls, part, hlines, hpart⟩ := ih (List.cons_ne_nil e m)
        (fun x hx => hs x (List.mem_cons_of_mem d hx))
        (fun x hx => hl x (List.mem_cons_of_mem d hx))
      refine ⟨(d.toSource k).toList.splitOn '\n' ++ [] :: ls, part, ?_, hpart⟩
      rw [Module.lines_cons_cons, hlines, List.append_assoc, List.cons_append]

/-- The tokens of a line and those before it, and the indentation that goes with them. The text up
to the line is lexed to the ones, with the line to both. -/
structure IndentedBy (k : Nat) (tokens : List Token) (front line : List Char) : Prop where
  exists_tokens : ∃ before first own after, tokens = before ++ (first :: own ++ after) ∧
    lex (String.ofList front) = .ok before ∧
    lex (String.ofList (front ++ line)) = .ok (before ++ first :: own) ∧
    ∃ depth body, line = List.replicate (k * depth) ' ' ++ body ∧ body ≠ [] ∧
      body.head? ≠ some ' ' ∧
      (depth : Int) = netBraces before - if first.is .symbol "\x7d" then 1 else 0

/-- The layout of a printed module, whose text is lexed to these tokens. Its lines are those of the
declarations, none of which is blank, and one blank line between each two; nothing stands behind the
last line feed. -/
structure ModuleLayout (k : Nat) (m : Module) (tokens : List Token) : Prop where
  lines : (Module.toSource k m).toList.splitOn '\n' = Module.lines k m ++ [[]]
  notBlank : ∀ d ∈ m, ∀ line ∈ (d.toSource k).toList.splitOn '\n', line ≠ []
  noSpace : ∀ line ∈ (Module.toSource k m).toList.splitOn '\n', line.getLast? ≠ some ' '
  indented : ∀ ls line ls', (Module.toSource k m).toList.splitOn '\n' = ls ++ line :: ls' →
    line ≠ [] → IndentedBy k tokens (joinLines ls) line
  empty : m = [] → Module.toSource k m = ""
  ending : m ≠ [] → ∃ front c, (Module.toSource k m).toList = front ++ [c, '\n'] ∧ c ≠ '\n'

theorem joinLines_last (ls : List (List Char)) :
    ∀ c ∈ (joinLines ls).getLast?, isBlank c = true := by
  rcases List.eq_nil_or_concat' ls with rfl | ⟨ls, line, rfl⟩
  · exact fun c hc => nomatch hc
  · intro c hc
    rw [joinLines_append, joinLines_cons, joinLines_nil, ← List.append_assoc,
      List.getLast?_concat, Option.mem_some_iff] at hc
    exact hc ▸ rfl

/-- **A line that is not blank is indented by the braces that are open before it.** -/
theorem Rows.indentedBy {text : String} {tokens : List Token} {ls ls' : List (List Char)}
    {line : List Char} {depth : Int} (h : Rows k 0 (ls ++ line :: ls') depth)
    (htext : text.toList = joinLines (ls ++ line :: ls')) (hlex : lex text = .ok tokens)
    (hne : line ≠ []) : IndentedBy k tokens (joinLines ls) line := by
  obtain ⟨start, hfront, hrest⟩ := h.of_append
  obtain ⟨houtside, hstart⟩ := hfront.outside
  cases hrest with
  | blank _ => exact absurd rfl hne
  | row hrow _ =>
    have hlexes := lexesTo_of_lex hlex
    rw [htext, joinLines_append, joinLines_cons, ← List.append_assoc] at hlexes
    obtain ⟨upTo, after, rfl, hupTo, -⟩ := hlexes.split (houtside.append hrow.outside)
      (.inr fun c hc => Option.some.inj hc ▸ rfl)
    obtain ⟨before, own, rfl, hbefore, hown⟩ := hupTo.split houtside (.inl (joinLines_last ls))
    obtain ⟨level, c, cs, rfl, hc, hlevel⟩ := hrow.indented
    have hspaces : Blanks (List.replicate (level * k) ' ') := fun d hd => by
      rw [List.eq_of_mem_replicate hd]
      rfl
    obtain ⟨first, own, rfl, hfirst⟩ := hown.first_closes hspaces hc
    refine ⟨before, first, own, after, List.append_assoc _ _ _, hbefore.lex_eq, hupTo.lex_eq,
      level, c :: cs, by rw [Nat.mul_comm], List.cons_ne_nil c cs, ?_, ?_⟩
    · rw [List.head?_cons, ne_eq, Option.some.injEq]
      rintro rfl
      cases hc
    · rw [hlevel, hstart, hbefore.depth_eq.2, Int.zero_add]
      simp only [hfirst]

/-- A well-shaped module with the words of a source is laid out by its braces. -/
theorem Module.hasLayout {m : Module} {tokens : List Token} (hs : ∀ d ∈ m, d.WellShaped)
    (hl : ∀ d ∈ m, d.Lexed) (hlex : lex (Module.toSource k m) = .ok tokens) :
    ModuleLayout k m tokens := by
  have htext : (Module.toSource k m).toList = joinLines (Module.lines k m) := by
    rw [Module.toSource_toList hs hl, Module.printed_pieces hs hl]
  have hrows := Module.rows (k := k) hs hl
  have hlines : (Module.toSource k m).toList.splitOn '\n' = Module.lines k m ++ [[]] := by
    rw [htext, ← List.append_nil (joinLines _)]
    exact splitOn_joinLines (fun line hline => (hrows.mem line hline).1) (by simp)
  refine ⟨hlines, fun d hd line hline => ?_, fun line hline => ?_, ?_, ?_, ?_⟩
  · obtain ⟨ls, part, -, -, hne, hsplit, -⟩ := Declaration.exists_lines (k := k) (hs d hd) (hl d hd)
    exact hne line (hsplit ▸ hline)
  · rw [hlines] at hline
    rcases List.mem_append.mp hline with hline | hline
    · exact (hrows.mem line hline).2
    · rw [List.mem_singleton.mp hline]
      simp
  · intro ls line ls' hsplit hne
    rw [hlines] at hsplit
    -- the line is not the blank one behind the last line feed
    rcases List.eq_nil_or_concat' ls' with rfl | ⟨ls', last, rfl⟩
    · have hlast := (List.append_inj' hsplit rfl).2
      exact absurd (List.singleton_inj.mp hlast).symm hne
    · rw [← List.cons_append, ← List.append_assoc] at hsplit
      have hmodule := (List.append_inj' hsplit rfl).1
      rw [hmodule] at hrows htext
      exact hrows.indentedBy htext hlex hne
  · rintro rfl
    rfl
  · intro hne
    obtain ⟨ls, part, hlast, hpart⟩ := Module.lines_last (k := k) hne hs hl
    obtain ⟨init, c, rfl⟩ := (List.eq_nil_or_concat' part).resolve_left hpart
    have hfeed := (hrows.mem (init ++ [c]) (by rw [hlast]; simp)).1
    refine ⟨joinLines ls ++ init, c, ?_, ?_⟩
    · rw [htext, hlast, joinLines_append, joinLines_cons, joinLines_nil]
      simp
    · rintro rfl
      exact hfeed (by simp)

end

/-- A brace in a string opens no block. -/
example :
    (lex "fn f() = \x7b g(\"\x7b\"); 1 \x7d").toOption.map
        (fun tokens => Module.toSource 2 (parseModule tokens).declarations) =
      some "fn f() = \x7b\n  g(\"\x7b\");\n  1\n\x7d\n" := by
  decide +kernel

end FrontEnd
