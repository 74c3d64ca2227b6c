import FrontEnd.Proofs.Runs

/-!
# Derivations of expressions

The grammar of expressions as a relation between two places of one token list, with the tests of
the next token that the productions make. Failed alternatives and fuel leave no trace in it.

* `TerminalReads` is the grammar of literals and identifiers; `terminal_run_iff` says that
  `Grammar.terminal` reads exactly it.
* `Phrase` lists what can stand between two places; `Reads` is one relation over all of them, so
  that a property of the whole grammar is one induction with a case for each production.
* `Reads.progress`: every phrase but a series of postfixes or operators takes a token.

The flag of `Reads` says whether infix operators are read.
-/

set_option autoImplicit false

namespace FrontEnd

open Grammar FrontEnd.Parser

/-! ## Literals and identifiers -/

/-- The terminal stands between the two places. -/
inductive TerminalReads : Terminal → Cursor → Cursor → Prop where
  | number {c : Cursor} {t : Token} (ht : c.peek? = some t) (hk : t.kind = .number)
      (hs : suffixAt? c.next = none) :
      TerminalReads (.integer t.value .defaultInteger) c c.next
  | suffixed {c : Cursor} {t : Token} {type : TypeExpr} (ht : c.peek? = some t)
      (hk : t.kind = .number) (hs : suffixAt? c.next = some type) :
      TerminalReads (.integer t.value type) c c.next.next
  | boolean {c : Cursor} {t : Token} (ht : c.peek? = some t) (hk : t.kind = .boolean) :
      TerminalReads (.boolean (t.value != 0)) c c.next
  | character {c : Cursor} {t : Token} {v : Char} {vs : List Char} (ht : c.peek? = some t)
      (hk : t.kind = .char) (hv : t.text.toList = v :: vs) :
      TerminalReads (.character v) c c.next
  | string {c : Cursor} {t : Token} (ht : c.peek? = some t) (hk : t.kind = .string) :
      TerminalReads (.string t.text) c c.next
  | identifier {c : Cursor} {t : Token} (ht : c.peek? = some t) (hk : t.kind = .identifier) :
      TerminalReads (.identifier t.text) c c.next
  | unit {c : Cursor} (ho : c.nextIs .symbol "(" = true)
      (hc : c.next.nextIs .symbol ")" = true) :
      TerminalReads .unit c c.next.next

/-- A suffix is the word of an integer type directly after the last token. -/
theorem suffixAt?_eq_some_iff {c : Cursor} {type : TypeExpr} :
    suffixAt? c = some type ↔
      ∃ t, c.peek? = some t ∧ t.kind = .identifier ∧ t.span.start = c.lastSpan.stop ∧
        TypeExpr.primitive? t.text = some type ∧ type.isInteger = true := by
  unfold suffixAt?
  cases c.peek? with
  | none => simp
  | some t =>
    dsimp only
    split
    · rename_i h
      simp [h.1, h.2, Option.filter_eq_some_iff]
    · rename_i h
      constructor
      · intro hn
        cases hn
      · rintro ⟨u, hu, hk, hs, _⟩
        cases hu
        exact absurd ⟨hk, hs⟩ h

theorem run_integerSuffix (c : Cursor) :
    integerSuffix.run c =
      match suffixAt? c with
      | some type => (.ok type, c.next)
      | none => (.ok .defaultInteger, c) := by
  unfold integerSuffix
  rw [run_withCursor]
  cases suffixAt? c with
  | none => rfl
  | some type =>
    dsimp only
    rw [run_bind_ok (run_read c), run_pure]

theorem run_terminal_number {c : Cursor} {t : Token} (ht : c.peek? = some t)
    (hk : t.kind = .number) :
    terminal.run c =
      match suffixAt? c.next with
      | some type => (.ok (.integer t.value type), c.next.next)
      | none => (.ok (.integer t.value .defaultInteger), c.next) := by
  unfold terminal
  rw [run_withCursor, ht]
  simp only [hk]
  rw [run_bind_ok (run_read c), run_bind, run_integerSuffix]
  cases suffixAt? c.next <;> rfl

theorem TerminalReads.run {a : Terminal} {c c' : Cursor} (h : TerminalReads a c c') :
    terminal.run c = (.ok a, c') := by
  cases h with
  | number ht hk hs => rw [run_terminal_number ht hk, hs]
  | suffixed ht hk hs => rw [run_terminal_number ht hk, hs]
  | boolean ht hk =>
    unfold terminal
    rw [run_withCursor, ht]
    simp only [hk]
    exact run_readAs _ c
  | character ht hk hv =>
    unfold terminal
    rw [run_withCursor, ht]
    simp only [hk, hv]
    exact run_readAs _ c
  | string ht hk =>
    unfold terminal
    rw [run_withCursor, ht]
    simp only [hk]
    exact run_readAs _ c
  | identifier ht hk =>
    unfold terminal
    rw [run_withCursor, ht]
    simp only [hk]
    exact run_readAs _ c
  | unit ho hc =>
    obtain ⟨t, ht, hk, hx⟩ := Cursor.nextIs_iff.mp ho
    unfold terminal
    rw [run_withCursor, ht]
    simp only [hk, hx, Cursor.nextIsAt_one ht, hc, and_self, if_true]
    rw [run_bind_ok (run_read c), run_bind_ok (run_read c.next), run_pure]

theorem TerminalReads.of_run {a : Terminal} {c c' : Cursor}
    (h : terminal.run c = (.ok a, c')) : TerminalReads a c c' := by
  cases ht : c.peek? with
  | none =>
    unfold terminal at h
    rw [run_withCursor, ht] at h
    simp at h
  | some t =>
    cases hk : t.kind with
    | number =>
      rw [run_terminal_number ht hk] at h
      split at h
      · rename_i type hs
        cases h
        exact .suffixed ht hk hs
      · rename_i hs
        cases h
        exact .number ht hk hs
    | boolean =>
      unfold terminal at h
      rw [run_withCursor, ht] at h
      simp only [hk, run_readAs] at h
      cases h
      exact .boolean ht hk
    | char =>
      unfold terminal at h
      rw [run_withCursor, ht] at h
      simp only [hk] at h
      split at h
      · simp at h
      · rename_i v vs hv
        rw [run_readAs] at h
        cases h
        exact .character ht hk hv
    | string =>
      unfold terminal at h
      rw [run_withCursor, ht] at h
      simp only [hk, run_readAs] at h
      cases h
      exact .string ht hk
    | identifier =>
      unfold terminal at h
      rw [run_withCursor, ht] at h
      simp only [hk, run_readAs] at h
      cases h
      exact .identifier ht hk
    | symbol =>
      unfold terminal at h
      rw [run_withCursor, ht] at h
      simp only [hk] at h
      split at h
      · rename_i hu
        rw [run_bind_ok (run_read c), run_bind_ok (run_read c.next), run_pure] at h
        cases h
        refine .unit (Cursor.nextIs_iff.mpr ⟨t, ht, hk, hu.1⟩) ?_
        rw [← Cursor.nextIsAt_one ht]
        exact hu.2
      · simp at h
    | unexpected =>
      unfold terminal at h
      rw [run_withCursor, ht] at h
      simp [hk] at h
    | keyword =>
      unfold terminal at h
      rw [run_withCursor, ht] at h
      simp [hk] at h
    | endOfFile =>
      unfold terminal at h
      rw [run_withCursor, ht] at h
      simp [hk] at h

/-- The parser of terminals reads exactly the terminals. -/
theorem terminal_run_iff {a : Terminal} {c c' : Cursor} :
    terminal.run c = (.ok a, c') ↔ TerminalReads a c c' :=
  ⟨TerminalReads.of_run, TerminalReads.run⟩

theorem TerminalReads.progress {a : Terminal} {c c' : Cursor} (h : TerminalReads a c c') :
    c'.rest.length < c.rest.length := by
  cases h with
  | number ht _ _ => exact Cursor.rest_next_lt ht
  | suffixed ht _ hs =>
    obtain ⟨u, hu, _⟩ := suffixAt?_eq_some_iff.mp hs
    exact Nat.lt_trans (Cursor.rest_next_lt hu) (Cursor.rest_next_lt ht)
  | boolean ht _ => exact Cursor.rest_next_lt ht
  | character ht _ _ => exact Cursor.rest_next_lt ht
  | string ht _ => exact Cursor.rest_next_lt ht
  | identifier ht _ => exact Cursor.rest_next_lt ht
  | unit ho hc =>
    exact Nat.lt_trans (Cursor.rest_next_lt_of_nextIs hc) (Cursor.rest_next_lt_of_nextIs ho)

/-! ## Operators -/

theorem operatorAt?_eq_some {c : Cursor} {level : Nat} {op : BinaryOp}
    (h : operatorAt? c level = some op) :
    ∃ t, c.peek? = some t ∧ t.kind = .symbol ∧ t.text = op.symbol ∧ level ≤ op.precedence := by
  unfold operatorAt? at h
  rw [Option.filter_eq_some_iff, Option.bind_eq_some_iff] at h
  obtain ⟨⟨t, ht, hop⟩, hle⟩ := h
  unfold binaryOp? at hop
  split at hop
  · rename_i hk
    exact ⟨t, ht, hk, (BinaryOp.symbol_of_ofSymbol? hop).symm, by simpa using hle⟩
  · cases hop

theorem unaryOp?_eq_some {t : Token} {op : UnaryOp} (h : unaryOp? t = some op) :
    t.kind = .symbol ∧ t.text = op.symbol := by
  unfold unaryOp? at h
  split at h
  · rename_i hk
    exact ⟨hk, (UnaryOp.symbol_of_ofSymbol? h).symm⟩
  · cases h

/-- Reading an operator moves the place on. -/
theorem rest_next_lt_of_operatorAt? {c : Cursor} {level : Nat} {op : BinaryOp}
    (h : operatorAt? c level = some op) : c.next.rest.length < c.rest.length := by
  obtain ⟨t, ht, _⟩ := operatorAt?_eq_some h
  exact Cursor.rest_next_lt ht

/-! ## Expressions -/

namespace Cursor

/-- A call or a member access starts here. -/
def startsPostfix (c : Cursor) : Bool :=
  c.nextIs .symbol "(" || (c.nextIs .symbol "." && c.next.peek?.any (fun t => t.kind == .identifier))

/-- The place of a node that reaches from the next token to the last one before `stop`. -/
def siteUpTo (c stop : Cursor) : Site := Site.ofSpan (c.nextSpan.merge stop.lastSpan)

end Cursor

/-- What stands between two places. -/
inductive Phrase where
  | operand (e : Expr)
  /-- An operand without calls and accesses after it. -/
  | primary (e : Expr)
  /-- The calls and accesses that make `e` of `first`. -/
  | postfixes (first e : Expr)
  | operation (e : Expr)
  /-- The operators from a level on, with right operands, that make `e` of `left`. -/
  | climb (level : Nat) (left e : Expr)
  /-- Operations with a comma between each two, at least one. -/
  | elements (es : List Expr)
  /-- Statements through the closing brace. -/
  | statements (es : List Expr)
  /-- Arms from after an `if`. -/
  | arms (branches : List Branch)

/-- The phrase stands between the two places. -/
inductive Reads (infixed : Bool) : Phrase → Cursor → Cursor → Prop where
  | operand {c c₁ c' : Cursor} {first e : Expr} (hp : Reads infixed (.primary first) c c₁)
      (hx : Reads infixed (.postfixes first e) c₁ c') :
      Reads infixed (.operand e) c c'
  | unary {c c' : Cursor} {t : Token} {op : UnaryOp} {e : Expr} (ht : c.peek? = some t)
      (hop : unaryOp? t = some op) (he : Reads infixed (.operand e) c.next c') :
      Reads infixed (.primary (.unary (c.siteUpTo c') op e)) c c'
  | atom {c c' : Cursor} {a : Terminal} (ha : TerminalReads a c c') :
      Reads infixed (.primary (.atom (c.siteUpTo c') a)) c c'
  | tuple {c c₁ : Cursor} {es : List Expr} (ho : c.nextIs .symbol "(" = true)
      (hes : Reads infixed (.elements es) c.next c₁) (hc : c₁.nextIs .symbol ")" = true) :
      Reads infixed (.primary (.tuple (c.siteUpTo c₁.next) es)) c c₁.next
  | block {c c' : Cursor} {es : List Expr} (ho : c.nextIs .symbol "\x7b" = true)
      (hes : Reads infixed (.statements es) c.next c') :
      Reads infixed (.primary (.block (c.siteUpTo c') es)) c c'
  | ifChain {c c' : Cursor} {bs : List Branch} (ho : c.nextIs .keyword "if" = true)
      (hbs : Reads infixed (.arms bs) c.next c') :
      Reads infixed (.primary (.ifChain (c.siteUpTo c') bs)) c c'
  | loop {c c' : Cursor} {e : Expr} (ho : c.nextIs .keyword "loop" = true)
      (he : Reads infixed (.operand e) c.next c') :
      Reads infixed (.primary (.loop (c.siteUpTo c') e)) c c'
  | postfixesDone {c : Cursor} {e : Expr} (hn : c.startsPostfix = false) :
      Reads infixed (.postfixes e e) c c
  | emptyCall {c c' : Cursor} {f e : Expr} (ho : c.nextIs .symbol "(" = true)
      (hc : c.next.nextIs .symbol ")" = true)
      (hx : Reads infixed (.postfixes
        (.call (Site.ofSpan (f.span.merge c.next.next.lastSpan)) f []) e) c.next.next c') :
      Reads infixed (.postfixes f e) c c'
  | call {c c₁ c' : Cursor} {f e : Expr} {args : List Expr} (ho : c.nextIs .symbol "(" = true)
      (hes : Reads infixed (.elements args) c.next c₁) (hc : c₁.nextIs .symbol ")" = true)
      (hx : Reads infixed (.postfixes
        (.call (Site.ofSpan (f.span.merge c₁.next.lastSpan)) f args) e) c₁.next c') :
      Reads infixed (.postfixes f e) c c'
  | access {c c' : Cursor} {t : Token} {f e : Expr} (ho : c.nextIs .symbol "." = true)
      (ht : c.next.peek? = some t) (hk : t.kind = .identifier)
      (hx : Reads infixed (.postfixes
        (.accessor (Site.ofSpan (f.span.merge c.next.next.lastSpan)) f t.text) e)
        c.next.next c') :
      Reads infixed (.postfixes f e) c c'
  | operation {c c₁ c' : Cursor} {first e : Expr} (hp : Reads infixed (.operand first) c c₁)
      (hx : Reads infixed (.climb 0 first e) c₁ c') :
      Reads infixed (.operation e) c c'
  | climbDone {c : Cursor} {level : Nat} {left : Expr}
      (hn : infixed = true → operatorAt? c level = none) :
      Reads infixed (.climb level left left) c c
  | climbStep {c c₁ c₂ c' : Cursor} {level : Nat} {op : BinaryOp} {left first right e : Expr}
      (hi : infixed = true) (hop : operatorAt? c level = some op)
      (hp : Reads infixed (.operand first) c.next c₁)
      (hr : Reads infixed (.climb (op.precedence + 1) first right) c₁ c₂)
      (hx : Reads infixed (.climb level (binaryNode op left right) e) c₂ c') :
      Reads infixed (.climb level left e) c c'
  | lastElement {c c' : Cursor} {e : Expr} (he : Reads infixed (.operation e) c c') :
      Reads infixed (.elements [e]) c c'
  | element {c c₁ c' : Cursor} {e : Expr} {es : List Expr}
      (he : Reads infixed (.operation e) c c₁) (hd : c₁.nextIs .symbol "," = true)
      (hes : Reads infixed (.elements es) c₁.next c') :
      Reads infixed (.elements (e :: es)) c c'
  | noStatement {c : Cursor} (hc : c.nextIs .symbol "\x7d" = true) :
      Reads infixed (.statements []) c c.next
  | statement {c c₁ c' : Cursor} {e : Expr} {es : List Expr}
      (hn : c.nextIs .symbol "\x7d" = false) (he : Reads infixed (.operand e) c c₁)
      (hes : Reads infixed (.statements es) (c₁.skipIf .symbol ";") c') :
      Reads infixed (.statements (e :: es)) c c'
  | lastArm {c c₁ c' : Cursor} {condition body : Expr}
      (hc : Reads infixed (.operand condition) c c₁)
      (hb : Reads infixed (.operand body) (c₁.skipIf .keyword "then") c')
      (hn : c'.nextIs .keyword "else" = false) :
      Reads infixed (.arms [.guarded condition body]) c c'
  | elseArm {c c₁ c₂ c' : Cursor} {condition body last : Expr}
      (hc : Reads infixed (.operand condition) c c₁)
      (hb : Reads infixed (.operand body) (c₁.skipIf .keyword "then") c₂)
      (he : c₂.nextIs .keyword "else" = true) (hn : c₂.next.nextIs .keyword "if" = false)
      (hl : Reads infixed (.operand last) c₂.next c') :
      Reads infixed (.arms [.guarded condition body, .always last]) c c'
  | elseIfArm {c c₁ c₂ c' : Cursor} {condition body : Expr} {bs : List Branch}
      (hc : Reads infixed (.operand condition) c c₁)
      (hb : Reads infixed (.operand body) (c₁.skipIf .keyword "then") c₂)
      (he : c₂.nextIs .keyword "else" = true) (hi : c₂.next.nextIs .keyword "if" = true)
      (hbs : Reads infixed (.arms bs) c₂.next.next c') :
      Reads infixed (.arms (.guarded condition body :: bs)) c c'

/-- The phrase may take no token. -/
def Phrase.mayBeEmpty : Phrase → Bool
  | postfixes _ _ | climb _ _ _ => true
  | _ => false

/-- Every phrase takes a token, except a series of postfixes or operators. -/
theorem Reads.progress {infixed : Bool} {p : Phrase} {c c' : Cursor} (h : Reads infixed p c c') :
    c'.rest.length + (if p.mayBeEmpty then 0 else 1) ≤ c.rest.length := by
  induction h with
  | operand _ _ ihp ihx => simp [Phrase.mayBeEmpty] at *; omega
  | unary ht _ _ ih =>
    have := Cursor.rest_next_lt ht
    simp [Phrase.mayBeEmpty] at *; omega
  | atom ha =>
    have := ha.progress
    simp [Phrase.mayBeEmpty] at *; omega
  | tuple ho _ hc ih =>
    have := Cursor.rest_next_lt_of_nextIs ho
    have := Cursor.rest_next_lt_of_nextIs hc
    simp [Phrase.mayBeEmpty] at *; omega
  | block ho _ ih =>
    have := Cursor.rest_next_lt_of_nextIs ho
    simp [Phrase.mayBeEmpty] at *; omega
  | ifChain ho _ ih =>
    have := Cursor.rest_next_lt_of_nextIs ho
    simp [Phrase.mayBeEmpty] at *; omega
  | loop ho _ ih =>
    have := Cursor.rest_next_lt_of_nextIs ho
    simp [Phrase.mayBeEmpty] at *; omega
  | postfixesDone _ => simp [Phrase.mayBeEmpty]
  | emptyCall ho hc _ ih =>
    have := Cursor.rest_next_lt_of_nextIs ho
    have := Cursor.rest_next_lt_of_nextIs hc
    simp [Phrase.mayBeEmpty] at *; omega
  | call ho _ hc _ ihes ih =>
    have := Cursor.rest_next_lt_of_nextIs ho
    have := Cursor.rest_next_lt_of_nextIs hc
    simp [Phrase.mayBeEmpty] at *; omega
  | access ho ht _ _ ih =>
    have := Cursor.rest_next_lt_of_nextIs ho
    have := Cursor.rest_next_lt ht
    simp [Phrase.mayBeEmpty] at *; omega
  | operation _ _ ihp ihx => simp [Phrase.mayBeEmpty] at *; omega
  | climbDone _ => simp [Phrase.mayBeEmpty]
  | climbStep _ hop _ _ _ ihp ihr ihx =>
    have := rest_next_lt_of_operatorAt? hop
    simp [Phrase.mayBeEmpty] at *; omega
  | lastElement _ ih => simp [Phrase.mayBeEmpty] at *; omega
  | element _ hd _ ih ihes =>
    have := Cursor.rest_next_lt_of_nextIs hd
    simp [Phrase.mayBeEmpty] at *; omega
  | noStatement hc =>
    have := Cursor.rest_next_lt_of_nextIs hc
    simp [Phrase.mayBeEmpty] at *; omega
  | @statement _ c₁ _ _ _ _ _ _ ih ihes =>
    have := c₁.rest_skipIf_le .symbol ";"
    simp [Phrase.mayBeEmpty] at *; omega
  | @lastArm _ c₁ _ _ _ _ _ _ ihc ihb =>
    have := c₁.rest_skipIf_le .keyword "then"
    simp [Phrase.mayBeEmpty] at *; omega
  | @elseArm _ c₁ _ _ _ _ _ _ _ he _ _ ihc ihb ihl =>
    have := c₁.rest_skipIf_le .keyword "then"
    have := Cursor.rest_next_lt_of_nextIs he
    simp [Phrase.mayBeEmpty] at *; omega
  | @elseIfArm _ c₁ _ _ _ _ _ _ _ he hi _ ihc ihb ihbs =>
    have := c₁.rest_skipIf_le .keyword "then"
    have := Cursor.rest_next_lt_of_nextIs he
    have := Cursor.rest_next_lt_of_nextIs hi
    simp [Phrase.mayBeEmpty] at *; omega

end FrontEnd
