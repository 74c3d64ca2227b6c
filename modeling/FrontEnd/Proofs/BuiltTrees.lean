import FrontEnd.Proofs.Wording

/-!
# Printing trees that no parser built

A tree that is put together by hand may nest operations where the grammar has none. The printer puts
them in parentheses, which are read as tuples of one element.

* `Expr.Built` is what a node must be like to be printed at all.
* `Expr.parenthesized` is the tree with a tuple of one element around each operation that stands
  where the grammar has none. Which these are is said by operators and places alone, not by what the
  printer tests.
* `Expr.pieces_parenthesized`: the two trees are printed alike. The second is well shaped, so what
  is known of trees from the parser holds of it.
* `built_reparsed`: the text of a built tree is read as that second tree.
* `literal_reparsed_iff`: a literal by itself is read again exactly if it can be written.
-/

set_option autoImplicit false

namespace FrontEnd

open Grammar FrontEnd.Parser

/-! ## Built trees -/

/-- The string is one identifier token. -/
def IsIdentifier (s : String) : Prop :=
  ∃ t, lex s = .ok [t] ∧ t.kind = .identifier ∧ t.text = s

theorem IsIdentifier.isName {s : String} (h : IsIdentifier s) : IsName s := by
  obtain ⟨t, hlex, hk, rfl⟩ := h
  exact (lex_lexed hlex t (List.mem_singleton_self t)).identifier hk

/-- A literal that can be written: an integer has an integer type, a character is no single quote,
and a name is an identifier. -/
def Terminal.Built : Terminal → Prop
  | integer _ type => type.isInteger = true
  | character value => value ≠ '\''
  | identifier name => IsIdentifier name
  | _ => True

theorem Terminal.Built.lexed {a : Terminal} (h : a.Built) : a.Lexed := by
  cases a with
  | identifier name => exact IsIdentifier.isName h
  | character value => exact h
  | _ => trivial

namespace Expr

/-- A prefix form: calls and accesses after it are read as part of its operand. -/
def isPrefix : Expr → Bool
  | unary _ _ _ | loop _ _ => true
  | _ => false

/-- What a node must be like to be printed: a tuple has an element, what is called or accessed is no
prefix form, and there are no conditionals. Operations may stand anywhere. -/
def Built : Expr → Prop
  | atom _ a => a.Built
  | tuple _ elements => elements ≠ []
  | call _ callee _ => callee.isPrefix = false
  | ifChain _ _ => False
  | accessor _ object member => object.isPrefix = false ∧ IsIdentifier member
  | _ => True

/-- The operator at the root, of an infix operation. -/
def rootOperator? : Expr → Option BinaryOp
  | binary _ op _ _ => some op
  | _ => none

/-- A tuple of one element, if so asked. -/
def wrapped (inParentheses : Bool) (e : Expr) : Expr :=
  if inParentheses then tuple (Site.ofSpan e.span) [e] else e

mutual

/-- The tree with a tuple of one element around each operation that is an operand of a prefix
operator, the body of a loop, a callee, the object of an access, a statement, the left operand of
an operator that binds tighter, or the right operand of one that binds as tight or tighter. Its
slots are empty. -/
def parenthesized : Expr → Expr
  | atom site a => atom (Site.ofSpan site.span) a
  | unary site op operand =>
    unary (Site.ofSpan site.span) op (wrapped operand.rootOperator?.isSome operand.parenthesized)
  | binary site op left right =>
    binary (Site.ofSpan site.span) op
      (wrapped (left.rootOperator?.any fun l => l.precedence < op.precedence) left.parenthesized)
      (wrapped (right.rootOperator?.any fun r => r.precedence ≤ op.precedence)
        right.parenthesized)
  | tuple site elements => tuple (Site.ofSpan site.span) (parenthesizedSeries elements)
  | call site callee args =>
    call (Site.ofSpan site.span) (wrapped callee.rootOperator?.isSome callee.parenthesized)
      (parenthesizedSeries args)
  | block site statements => block (Site.ofSpan site.span) (parenthesizedStatements statements)
  | ifChain site branches => ifChain (Site.ofSpan site.span) branches
  | loop site body =>
    loop (Site.ofSpan site.span) (wrapped body.rootOperator?.isSome body.parenthesized)
  | accessor site object member =>
    accessor (Site.ofSpan site.span) (wrapped object.rootOperator?.isSome object.parenthesized)
      member

/-- Elements or arguments: an operation needs no parentheses here. -/
def parenthesizedSeries : List Expr → List Expr
  | [] => []
  | e :: es => e.parenthesized :: parenthesizedSeries es

/-- Statements. -/
def parenthesizedStatements : List Expr → List Expr
  | [] => []
  | e :: es => wrapped e.rootOperator?.isSome e.parenthesized :: parenthesizedStatements es

end

/-! ## Tuples of one element -/

theorem isSome_rootOperator? (e : Expr) : e.rootOperator?.isSome = e.isBinary := by
  cases e <;> rfl

theorem any_rootOperator? (e : Expr) (level : Nat) :
    (e.rootOperator?.any fun op => op.precedence < level) = e.isLooserThan level := by
  cases e <;> rfl

theorem any_rootOperator?_le (e : Expr) (level : Nat) :
    (e.rootOperator?.any fun op => op.precedence ≤ level) = e.isLooserThan (level + 1) := by
  simp only [← any_rootOperator?, Nat.lt_succ_iff]

theorem pieces_wrapped (b : Bool) (e : Expr) : (wrapped b e).pieces = grouped b e.pieces := by
  cases b with
  | false => rfl
  | true => simp [wrapped, grouped, pieces, listPieces, commaPieces]

theorem isBinary_wrapped (b : Bool) (e : Expr) :
    (wrapped b e).isBinary = (!b && e.isBinary) := by
  cases b <;> rfl

theorem isLooserThan_wrapped (b : Bool) (e : Expr) (level : Nat) :
    (wrapped b e).isLooserThan level = (!b && e.isLooserThan level) := by
  cases b <;> rfl

theorem isBinary_parenthesized (e : Expr) : e.parenthesized.isBinary = e.isBinary := by
  cases e <;> simp only [parenthesized, isBinary]

theorem isLooserThan_parenthesized (e : Expr) (level : Nat) :
    e.parenthesized.isLooserThan level = e.isLooserThan level := by
  cases e <;> simp only [parenthesized, isLooserThan]

/-! ## The two trees are printed alike -/

/-- Where no operation may stand there is none. -/
theorem isBinary_operand (e : Expr) :
    (wrapped e.rootOperator?.isSome e.parenthesized).isBinary = false := by
  rw [isBinary_wrapped, isSome_rootOperator?, isBinary_parenthesized, Bool.not_and_self]

theorem grouped_operand (e : Expr) :
    grouped (wrapped e.rootOperator?.isSome e.parenthesized).isBinary
        (wrapped e.rootOperator?.isSome e.parenthesized).pieces =
      grouped e.isBinary e.parenthesized.pieces := by
  rw [isBinary_operand, pieces_wrapped, isSome_rootOperator?]
  rfl

/-- Next to an operator no operation stands that binds less tight than it may. -/
theorem isLooserThan_beside (e : Expr) (level : Nat) :
    (wrapped (e.isLooserThan level) e.parenthesized).isLooserThan level = false := by
  rw [isLooserThan_wrapped, isLooserThan_parenthesized, Bool.not_and_self]

theorem grouped_beside (e : Expr) (level : Nat) :
    grouped ((wrapped (e.isLooserThan level) e.parenthesized).isLooserThan level)
        (wrapped (e.isLooserThan level) e.parenthesized).pieces =
      grouped (e.isLooserThan level) e.parenthesized.pieces := by
  rw [isLooserThan_beside, pieces_wrapped]
  rfl

/-- The parenthesis is the first character that the printer foresees for an operation. -/
theorem firstChar?_wrapped {e e' : Expr} (h : e'.firstChar? = e.firstChar?) :
    (wrapped e.rootOperator?.isSome e').firstChar? = e.firstChar? := by
  cases e with
  | binary => rfl
  | _ => exact h

theorem firstChar?_parenthesized (e : Expr) : e.parenthesized.firstChar? = e.firstChar? := by
  induction e using firstChar?.induct with
  | case5 site callee args ih =>
    rw [parenthesized, firstChar?, firstChar?]
    exact firstChar?_wrapped ih
  | case9 site object member ih =>
    rw [parenthesized, firstChar?, firstChar?]
    exact firstChar?_wrapped ih
  | _ => simp only [parenthesized, firstChar?]

mutual

/-- The tuples that are added are printed as the parentheses that the printer adds. -/
theorem pieces_parenthesized : (e : Expr) → e.parenthesized.pieces = e.pieces
  | atom _ _ => rfl
  | unary _ op operand => by
    have hchar := firstChar?_wrapped (firstChar?_parenthesized operand)
    rw [parenthesized, pieces, pieces, hchar, grouped_operand, pieces_parenthesized operand]
  | binary _ op left right => by
    rw [parenthesized, pieces, pieces, any_rootOperator?, any_rootOperator?_le, grouped_beside,
      grouped_beside, pieces_parenthesized left, pieces_parenthesized right]
  | tuple _ elements => by rw [parenthesized, pieces, pieces, listPieces_parenthesized elements]
  | call _ callee args => by
    rw [parenthesized, pieces, pieces, grouped_operand, pieces_parenthesized callee,
      listPieces_parenthesized args]
  | block _ [] => rfl
  | block _ (e :: es) => by
    rw [parenthesized, parenthesizedStatements, pieces, pieces, grouped_operand,
      pieces_parenthesized e, statementPieces_parenthesized es]
  | ifChain _ [] => rfl
  | ifChain _ (b :: bs) => by rw [parenthesized, pieces, pieces]
  | loop _ body => by
    rw [parenthesized, pieces, pieces, grouped_operand, pieces_parenthesized body]
  | accessor _ object member => by
    rw [parenthesized, pieces, pieces, grouped_operand, pieces_parenthesized object]

theorem listPieces_parenthesized :
    (es : List Expr) → listPieces (parenthesizedSeries es) = listPieces es
  | [] => rfl
  | e :: es => by
    rw [parenthesizedSeries, listPieces, listPieces, pieces_parenthesized e,
      commaPieces_parenthesized es]

theorem commaPieces_parenthesized :
    (es : List Expr) → commaPieces (parenthesizedSeries es) = commaPieces es
  | [] => rfl
  | e :: es => by
    rw [parenthesizedSeries, commaPieces, commaPieces, pieces_parenthesized e,
      commaPieces_parenthesized es]

theorem statementPieces_parenthesized :
    (es : List Expr) → statementPieces (parenthesizedStatements es) = statementPieces es
  | [] => rfl
  | e :: es => by
    rw [parenthesizedStatements, statementPieces, statementPieces, grouped_operand,
      pieces_parenthesized e, statementPieces_parenthesized es]

end

theorem toSource_parenthesized (k : Nat) (e : Expr) : e.parenthesized.toSource k = e.toSource k := by
  rw [toSource, toSource, pieces_parenthesized]

/-! ## The second tree is one that a parser may have built -/

section

variable {P : Expr → Prop}

theorem all_wrapped (added : ∀ span e, P (tuple (Site.ofSpan span) [e])) (b : Bool) {e : Expr}
    (h : e.All P) : (wrapped b e).All P := by
  cases b with
  | false => exact h
  | true => exact ⟨added e.span e, h, trivial⟩

mutual

/-- What holds of the tuples that are added and of the nodes that are kept holds everywhere. -/
theorem all_parenthesized (added : ∀ span e, P (tuple (Site.ofSpan span) [e]))
    (kept : ∀ e : Expr, e.All Built → P e.parenthesized) :
    (e : Expr) → e.All Built → e.parenthesized.All P
  | atom site a, h => kept (atom site a) h
  | unary site op operand, h =>
    ⟨kept (unary site op operand) h,
      all_wrapped added _ (all_parenthesized added kept operand h.2)⟩
  | binary site op left right, h =>
    ⟨kept (binary site op left right) h,
      all_wrapped added _ (all_parenthesized added kept left h.2.1),
      all_wrapped added _ (all_parenthesized added kept right h.2.2)⟩
  | tuple site elements, h => ⟨kept (tuple site elements) h, allIn_series added kept elements h.2⟩
  | call site callee args, h =>
    ⟨kept (call site callee args) h,
      all_wrapped added _ (all_parenthesized added kept callee h.2.1),
      allIn_series added kept args h.2.2⟩
  | block site statements, h =>
    ⟨kept (block site statements) h, allIn_statements added kept statements h.2⟩
  | ifChain _ _, h => absurd h.1 id
  | loop site body, h =>
    ⟨kept (loop site body) h, all_wrapped added _ (all_parenthesized added kept body h.2)⟩
  | accessor site object member, h =>
    ⟨kept (accessor site object member) h,
      all_wrapped added _ (all_parenthesized added kept object h.2)⟩

theorem allIn_series (added : ∀ span e, P (tuple (Site.ofSpan span) [e]))
    (kept : ∀ e : Expr, e.All Built → P e.parenthesized) :
    (es : List Expr) → AllIn Built es → AllIn P (parenthesizedSeries es)
  | [], _ => trivial
  | e :: es, h => ⟨all_parenthesized added kept e h.1, allIn_series added kept es h.2⟩

theorem allIn_statements (added : ∀ span e, P (tuple (Site.ofSpan span) [e]))
    (kept : ∀ e : Expr, e.All Built → P e.parenthesized) :
    (es : List Expr) → AllIn Built es → AllIn P (parenthesizedStatements es)
  | [], _ => trivial
  | e :: es, h =>
    ⟨all_wrapped added _ (all_parenthesized added kept e h.1), allIn_statements added kept es h.2⟩

end

end

theorem isBinary_of_mem_statements {es : List Expr} :
    ∀ e ∈ parenthesizedStatements es, e.isBinary = false := by
  induction es with
  | nil => simp [parenthesizedStatements]
  | cons e es ih =>
    intro x hx
    rw [parenthesizedStatements, List.mem_cons] at hx
    rcases hx with rfl | hx
    · exact e.isBinary_operand
    · exact ih x hx

/-- What is no prefix form and no conditional can be called, in parentheses if it is an operation. -/
theorem takesPostfix_operand {e : Expr} (hp : e.isPrefix = false) (hb : e.All Built) :
    (wrapped e.rootOperator?.isSome e.parenthesized).takesPostfix = true := by
  cases e with
  | unary => cases hp
  | loop => cases hp
  | ifChain => exact absurd hb.1 id
  | _ => rfl

theorem wellShaped_parenthesized (e : Expr) (h : e.All Built) : e.parenthesized.WellShaped := by
  cases e with
  | atom site a =>
    refine ⟨rfl, ?_⟩
    cases a with
    | integer bits type => exact h
    | _ => trivial
  | unary site op operand => exact ⟨rfl, operand.isBinary_operand⟩
  | binary site op left right =>
    refine ⟨rfl, ?_⟩
    rw [parenthesized, any_rootOperator?, any_rootOperator?_le]
    exact ⟨left.isLooserThan_beside op.precedence, right.isLooserThan_beside (op.precedence + 1)⟩
  | tuple site elements =>
    refine ⟨rfl, ?_⟩
    cases elements with
    | nil => exact absurd rfl h.1
    | cons e es => exact List.cons_ne_nil _ _
  | call site callee args => exact ⟨rfl, takesPostfix_operand h.1 h.2.1⟩
  | block site statements => exact ⟨rfl, isBinary_of_mem_statements⟩
  | ifChain site branches => exact absurd h.1 id
  | loop site body => exact ⟨rfl, body.isBinary_operand⟩
  | accessor site object member => exact ⟨rfl, takesPostfix_operand h.1.1 h.2⟩

theorem lexed_parenthesized (e : Expr) (h : e.All Built) : e.parenthesized.Lexed := by
  cases e with
  | atom site a => exact Terminal.Built.lexed h
  | accessor site object member => exact IsIdentifier.isName h.1.2
  | ifChain site branches => exact absurd h.1 id
  | _ => trivial

end Expr

/-! ## Reading the text again -/

/-- A literal that can be written is read again from its text alone. -/
theorem Terminal.Built.reparsed {a : Terminal} (h : a.Built) :
    ∃ tokens, lex a.text = .ok tokens ∧ parseTerminal tokens = .ok a := by
  have hinteger : ∀ bits type, a = .integer bits type → type.isInteger = true := by
    rintro bits type rfl
    exact h
  have hends : ∀ s, ([] : List Content).head? ≠ some (.name s) := fun s hs => nomatch hs
  have hspells := Terminal.spells h.lexed hinteger Lexer.closed_nil hends .nil
  rw [List.append_nil] at hspells
  obtain ⟨tokens, hlex, hc⟩ := lex_of_spells hspells
  obtain ⟨c', hnil, hreads⟩ := Terminal.reads_of_contents (c := Cursor.ofTokens tokens) hc
  exact ⟨tokens, hlex,
    parse_complete_eq_ok.mpr ⟨c', terminal_run_iff.mpr hreads, hnil.rest_nil⟩⟩

/-- A literal that is read again from its text can be written. -/
theorem Terminal.built_of_reparsed {a : Terminal} {tokens : List Token}
    (hlex : lex a.text = .ok tokens) (hparse : parseTerminal tokens = .ok a) : a.Built := by
  obtain ⟨c', hrun, hend⟩ := parse_complete_eq_ok.mp hparse
  have hreads := terminal_run_iff.mp hrun
  cases a with
  | integer bits type => exact hreads.integer_type
  | character value => exact hreads.lexed (lex_lexed hlex)
  | identifier name =>
    cases hreads with
    | @identifier _ t ht hk =>
      have hall : tokens = t :: (Cursor.ofTokens tokens).next.rest :=
        Cursor.peek?_eq_some_iff.mp ht
      rw [hend] at hall
      exact ⟨t, hlex.trans (congrArg Except.ok hall), hk, rfl⟩
  | _ => trivial

/-- **Printing a literal is inverted by lexing and parsing**, exactly for the literals that can be
written: booleans, the unit value, strings, characters but the single quote, integers of all bits
and all integer types, and identifiers. -/
theorem literal_reparsed_iff (a : Terminal) :
    (∃ tokens, lex a.text = .ok tokens ∧ parseTerminal tokens = .ok a) ↔ a.Built :=
  ⟨fun ⟨_, hlex, hparse⟩ => Terminal.built_of_reparsed hlex hparse, Terminal.Built.reparsed⟩

/-- A well-shaped expression with the words of a source is read again from its text. -/
theorem Expr.reparsed {e : Expr} (k : Nat) (hs : e.All WellShaped) (hl : e.All Expr.Lexed) :
    ∃ tokens e', lex (e.toSource k) = .ok tokens ∧ parseExpression tokens = .ok e' ∧
      e'.erase = e.erase := by
  obtain ⟨tokens, hlex, hc⟩ := e.lex_toSource k hs hl
  have hall : Carries (Cursor.ofTokens tokens).rest (e.contents ++ []) := by
    rw [List.append_nil]
    exact hc
  obtain ⟨c', hnil, e', hsame, hreads⟩ := (readable hs).operation hall ends_nil
  exact ⟨tokens, e', hlex,
    parse_complete_eq_ok.mpr ⟨c', operation_run_iff.mpr hreads, hnil.rest_nil⟩, hsame⟩

/-- **Printing a tree that was put together by hand preserves its grouping**: with any indentation
its text is lexed, and parsed as a whole to the same tree but for spans and for a tuple of one
element around each operation that stands where the grammar has none. -/
theorem built_reparsed (k : Nat) {e : Expr} (h : e.All Expr.Built) :
    ∃ tokens e', lex (e.toSource k) = .ok tokens ∧ parseExpression tokens = .ok e' ∧
      e'.erase = e.parenthesized.erase := by
  rw [← e.toSource_parenthesized]
  exact Expr.reparsed k
    (Expr.all_parenthesized (fun _ _ => ⟨rfl, List.cons_ne_nil _ _⟩)
      Expr.wellShaped_parenthesized e h)
    (Expr.all_parenthesized (fun _ _ => trivial) Expr.lexed_parenthesized e h)

/-- A negated difference whose right operand is one more difference: both get parentheses. -/
theorem built_reparsed_difference :
    ∃ e : Expr, e.All Expr.Built ∧ e.toSource 4 = "-(a - (1 - b))" ∧
      ∃ tokens e', lex "-(a - (1 - b))" = .ok tokens ∧ parseExpression tokens = .ok e' ∧
        e'.erase = e.parenthesized.erase := by
  let site : Site := default
  let e : Expr := .unary site .negation
    (.binary site .subtraction (.atom site (.identifier "a"))
      (.binary site .subtraction (.atom site (.integer 1 .defaultInteger))
        (.atom site (.identifier "b"))))
  have hbuilt : e.All Expr.Built :=
    ⟨trivial, trivial, ⟨_, rfl, rfl, rfl⟩, trivial, rfl, ⟨_, rfl, rfl, rfl⟩⟩
  have htext : e.toSource 4 = "-(a - (1 - b))" := by decide
  have hreparsed := built_reparsed 4 hbuilt
  rw [htext] at hreparsed
  exact ⟨e, hbuilt, htext, hreparsed⟩

end FrontEnd
