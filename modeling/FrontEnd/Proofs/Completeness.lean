import FrontEnd.Proofs.Soundness

/-!
# Every derivation is read

The converse of soundness: where a phrase stands between two places, the parser that reads it
succeeds with it, if its depth and fuel exceed the number of tokens left. Together the two say that
the parser and the grammar agree, and that the grammar gives one result.

* The alternatives of an operand start with different tokens, so those before the right one fail.
* `Phrase.Accepted` is what it means that a phrase is read; `Reads.accepted` proves it by induction
  on the derivation.
* `operand_run_iff`, `operation_run_iff`: the parsers read exactly what is derived.
-/

set_option autoImplicit false

namespace FrontEnd

open Grammar FrontEnd.Parser

/-! ## The alternatives that fail -/

variable {infixed : Bool} {inner op : Parser Expr} {c : Cursor}

theorem unary_fails_of_kind {t : Token} (ht : c.peek? = some t) (hk : t.kind ≠ .symbol) :
    (unary inner).Fails c := by
  unfold Fails unary
  rw [run_withCursor, ht]
  simp only [Option.bind_some, unaryOp?, hk, if_false]
  exact ⟨_, _, rfl⟩

theorem unary_fails_of_symbol {s : String} (h : c.nextIs .symbol s = true)
    (hs : UnaryOp.ofSymbol? s = none) : (unary inner).Fails c := by
  obtain ⟨t, ht, hk, rfl⟩ := Cursor.nextIs_iff.mp h
  unfold Fails unary
  rw [run_withCursor, ht]
  simp only [Option.bind_some, unaryOp?, hk, if_true, hs]
  exact ⟨_, _, rfl⟩

theorem unary_fails_of_keyword {s : String} (h : c.nextIs .keyword s = true) :
    (unary inner).Fails c := by
  obtain ⟨t, ht, hk, _⟩ := Cursor.nextIs_iff.mp h
  exact unary_fails_of_kind ht (by simp [hk])

theorem unitAtom_fails_of_open (h : c.nextIs .symbol "(" = false) : unitAtom.Fails c := by
  obtain ⟨e, c', he⟩ := fails_require h
  refine ⟨e, c', ?_⟩
  unfold unitAtom
  rw [run_bind_ok (run_nextSpan c), run_bind_error he]

theorem unitAtom_fails_of_close (ho : c.nextIs .symbol "(" = true)
    (hc : c.next.nextIs .symbol ")" = false) : unitAtom.Fails c := by
  obtain ⟨t, _, ht⟩ := run_require_of ho
  obtain ⟨e, c', he⟩ := fails_require hc
  refine ⟨e, c', ?_⟩
  unfold unitAtom
  rw [run_bind_ok (run_nextSpan c), run_bind_ok ht, run_bind_error he]

theorem tuple_fails (h : c.nextIs .symbol "(" = false) : (tuple op).Fails c := by
  unfold Fails tuple
  rw [run_withCursor, h, if_neg (by simp)]
  exact ⟨_, _, rfl⟩

theorem block_fails (h : c.nextIs .symbol "\x7b" = false) : (block inner).Fails c := by
  obtain ⟨e, c', he⟩ := fails_require h
  refine ⟨e, c', ?_⟩
  unfold block
  rw [run_bind_ok (run_nextSpan c), run_bind_error he]

theorem conditional_fails (h : c.nextIs .keyword "if" = false) : (conditional inner).Fails c := by
  obtain ⟨e, c', he⟩ := fails_require h
  refine ⟨e, c', ?_⟩
  unfold conditional
  rw [run_bind_ok (run_nextSpan c), run_bind_error he]

theorem loop_fails (h : c.nextIs .keyword "loop" = false) : (loop inner).Fails c := by
  obtain ⟨e, c', he⟩ := fails_require h
  refine ⟨e, c', ?_⟩
  unfold loop
  rw [run_bind_ok (run_nextSpan c), run_bind_error he]

/-! ## The alternative that is taken -/

variable {c' : Cursor} {e : Expr}

theorem run_primary_unary (h : (unary inner).run c = (.ok e, c')) :
    (primary op inner).run c = (.ok e, c') :=
  run_oneOf_eq_ok.mpr (tryEach_of_ok h _ _)

theorem run_primary_unit (ho : c.nextIs .symbol "(" = true)
    (h : unitAtom.run c = (.ok e, c')) : (primary op inner).run c = (.ok e, c') := by
  refine run_oneOf_eq_ok.mpr (tryEach_of_fails (unary_fails_of_symbol ho (by decide)) ?_ _)
  intro best
  exact tryEach_of_ok h _ _

theorem run_primary_tuple (ho : c.nextIs .symbol "(" = true)
    (hc : c.next.nextIs .symbol ")" = false) (h : (tuple op).run c = (.ok e, c')) :
    (primary op inner).run c = (.ok e, c') := by
  refine run_oneOf_eq_ok.mpr (tryEach_of_fails (unary_fails_of_symbol ho (by decide)) ?_ _)
  refine tryEach_of_fails (unitAtom_fails_of_close ho hc) ?_
  intro best
  exact tryEach_of_ok h _ _

theorem run_primary_block (ho : c.nextIs .symbol "\x7b" = true)
    (h : (block inner).run c = (.ok e, c')) : (primary op inner).run c = (.ok e, c') := by
  have hp : c.nextIs .symbol "(" = false := Cursor.nextIs_disjoint ho (.inr (by decide))
  refine run_oneOf_eq_ok.mpr (tryEach_of_fails (unary_fails_of_symbol ho (by decide)) ?_ _)
  refine tryEach_of_fails (unitAtom_fails_of_open hp) ?_
  refine tryEach_of_fails (tuple_fails hp) ?_
  intro best
  exact tryEach_of_ok h _ _

theorem run_primary_conditional (ho : c.nextIs .keyword "if" = true)
    (h : (conditional inner).run c = (.ok e, c')) : (primary op inner).run c = (.ok e, c') := by
  have hp : c.nextIs .symbol "(" = false := Cursor.nextIs_disjoint ho (.inl (by decide))
  have hb : c.nextIs .symbol "\x7b" = false := Cursor.nextIs_disjoint ho (.inl (by decide))
  refine run_oneOf_eq_ok.mpr (tryEach_of_fails (unary_fails_of_keyword ho) ?_ _)
  refine tryEach_of_fails (unitAtom_fails_of_open hp) ?_
  refine tryEach_of_fails (tuple_fails hp) ?_
  refine tryEach_of_fails (block_fails hb) ?_
  intro best
  exact tryEach_of_ok h _ _

theorem run_primary_loop (ho : c.nextIs .keyword "loop" = true)
    (h : (loop inner).run c = (.ok e, c')) : (primary op inner).run c = (.ok e, c') := by
  have hp : c.nextIs .symbol "(" = false := Cursor.nextIs_disjoint ho (.inl (by decide))
  have hb : c.nextIs .symbol "\x7b" = false := Cursor.nextIs_disjoint ho (.inl (by decide))
  have hi : c.nextIs .keyword "if" = false := Cursor.nextIs_disjoint ho (.inr (by decide))
  refine run_oneOf_eq_ok.mpr (tryEach_of_fails (unary_fails_of_keyword ho) ?_ _)
  refine tryEach_of_fails (unitAtom_fails_of_open hp) ?_
  refine tryEach_of_fails (tuple_fails hp) ?_
  refine tryEach_of_fails (block_fails hb) ?_
  refine tryEach_of_fails (conditional_fails hi) ?_
  intro best
  exact tryEach_of_ok h _ _

theorem run_primary_atom {t : Token} (ht : c.peek? = some t) (hs : t.kind ≠ .symbol)
    (hk : t.kind ≠ .keyword) (h : atom.run c = (.ok e, c')) :
    (primary op inner).run c = (.ok e, c') := by
  have hsym := Cursor.nextIs_of_kind_ne ht hs
  have hkey := Cursor.nextIs_of_kind_ne ht hk
  refine run_oneOf_eq_ok.mpr (tryEach_of_fails (unary_fails_of_kind ht hs) ?_ _)
  refine tryEach_of_fails (unitAtom_fails_of_open (hsym _)) ?_
  refine tryEach_of_fails (tuple_fails (hsym _)) ?_
  refine tryEach_of_fails (block_fails (hsym _)) ?_
  refine tryEach_of_fails (conditional_fails (hkey _)) ?_
  refine tryEach_of_fails (loop_fails (hkey _)) ?_
  intro best
  exact tryEach_of_ok h _ _

/-- A terminal is the unit value, or starts with a token that is neither symbol nor keyword. -/
theorem TerminalReads.cases_start {a : Terminal} (h : TerminalReads a c c') :
    (a = .unit ∧ c.nextIs .symbol "(" = true ∧ c.next.nextIs .symbol ")" = true ∧
        c' = c.next.next) ∨
      ∃ t, c.peek? = some t ∧ t.kind ≠ .symbol ∧ t.kind ≠ .keyword := by
  cases h with
  | number ht hk _ => exact .inr ⟨_, ht, by simp [hk], by simp [hk]⟩
  | suffixed ht hk _ => exact .inr ⟨_, ht, by simp [hk], by simp [hk]⟩
  | boolean ht hk => exact .inr ⟨_, ht, by simp [hk], by simp [hk]⟩
  | character ht hk _ => exact .inr ⟨_, ht, by simp [hk], by simp [hk]⟩
  | string ht hk => exact .inr ⟨_, ht, by simp [hk], by simp [hk]⟩
  | identifier ht hk => exact .inr ⟨_, ht, by simp [hk], by simp [hk]⟩
  | unit ho hc => exact .inl ⟨rfl, ho, hc, rfl⟩

theorem run_primary_terminal {a : Terminal} (h : TerminalReads a c c') :
    (primary op inner).run c = (.ok (.atom (c.siteUpTo c') a), c') := by
  rcases h.cases_start with ⟨rfl, ho, hc, rfl⟩ | ⟨t, ht, hs, hk⟩
  · exact run_primary_unit ho (run_unitAtom_of ho hc)
  · refine run_primary_atom ht hs hk ?_
    unfold atom
    rw [run_bind_ok (run_nextSpan c), run_bind_ok h.run]
    rfl

/-- An expression does not start with a symbol that is no prefix operator and opens nothing. -/
theorem Reads.not_symbol {p : Phrase} {s : String} (h : Reads infixed p c c')
    (hu : UnaryOp.ofSymbol? s = none) (hp : "(" ≠ s) (hb : "\x7b" ≠ s) :
    (match p with
      | .operand _ | .primary _ | .operation _ | .elements _ => True
      | _ => False) → c.nextIs .symbol s = false := by
  induction h with
  | operand _ _ ih _ => exact fun _ => ih trivial
  | unary ht hop _ _ =>
    intro _
    rw [Cursor.nextIs_eq_of_peek ht, Bool.eq_false_iff]
    intro his
    obtain ⟨hk, hx⟩ := Token.is_iff.mp his
    rw [unaryOp?, if_pos hk, hx, hu] at hop
    cases hop
  | atom ha =>
    intro _
    rcases ha.cases_start with ⟨_, ho, _⟩ | ⟨t, ht, hs, _⟩
    · exact Cursor.nextIs_disjoint ho (.inr hp)
    · exact Cursor.nextIs_of_kind_ne ht hs _
  | tuple ho _ _ _ => exact fun _ => Cursor.nextIs_disjoint ho (.inr hp)
  | block ho _ _ => exact fun _ => Cursor.nextIs_disjoint ho (.inr hb)
  | ifChain ho _ _ => exact fun _ => Cursor.nextIs_disjoint ho (.inl (by decide))
  | loop ho _ _ => exact fun _ => Cursor.nextIs_disjoint ho (.inl (by decide))
  | operation _ _ ih _ => exact fun _ => ih trivial
  | lastElement _ ih => exact fun _ => ih trivial
  | element _ _ _ ih _ => exact fun _ => ih trivial
  | _ => exact fun h => h.elim

/-- The elements of a list do not start with what closes it. -/
theorem Reads.not_close {es : List Expr} (h : Reads infixed (.elements es) c c') :
    c.nextIs .symbol ")" = false :=
  h.not_symbol (by decide) (by decide) (by decide) trivial

/-! ## Productions

What each production gives where the parsers that it is made of succeed. -/

theorem run_unary_of {t : Token} {uop : UnaryOp} (ht : c.peek? = some t)
    (hop : unaryOp? t = some uop) (he : inner.run c.next = (.ok e, c')) :
    (unary inner).run c = (.ok (.unary (c.siteUpTo c') uop e), c') := by
  unfold unary
  rw [run_withCursor, ht, Option.bind_some, hop]
  dsimp only
  rw [run_bind_ok (run_read c), run_bind_ok he]
  rfl

theorem run_tuple_of {es : List Expr} (ho : c.nextIs .symbol "(" = true)
    (hes : (parenthesized op).run c = (.ok es, c')) :
    (tuple op).run c = (.ok (.tuple (c.siteUpTo c') es), c') := by
  unfold tuple
  rw [run_withCursor, ho, if_pos rfl, run_bind_ok (run_within_eq_ok.mpr hes)]
  rfl

theorem run_block_of {es : List Expr} (ho : c.nextIs .symbol "\x7b" = true)
    (hes : (statements inner (c.next.rest.length + 1)).run c.next = (.ok es, c')) :
    (block inner).run c = (.ok (.block (c.siteUpTo c') es), c') := by
  obtain ⟨t, _, ht⟩ := run_require_of ho
  unfold block
  rw [run_bind_ok (run_nextSpan c), run_bind_ok ht]
  rw [run_bind_ok (by rw [run_withFuel]; exact hes)]
  rfl

theorem run_conditional_of {bs : List Branch} (ho : c.nextIs .keyword "if" = true)
    (hbs : (arms inner (c.next.rest.length + 1)).run c.next = (.ok bs, c')) :
    (conditional inner).run c = (.ok (.ifChain (c.siteUpTo c') bs), c') := by
  obtain ⟨t, _, ht⟩ := run_require_of ho
  unfold conditional
  rw [run_bind_ok (run_nextSpan c), run_bind_ok ht]
  rw [run_bind_ok (by rw [run_withFuel]; exact hbs)]
  rfl

theorem run_loop_of (ho : c.nextIs .keyword "loop" = true)
    (he : inner.run c.next = (.ok e, c')) :
    (loop inner).run c = (.ok (.loop (c.siteUpTo c') e), c') := by
  obtain ⟨t, _, ht⟩ := run_require_of ho
  unfold loop
  rw [run_bind_ok (run_nextSpan c), run_bind_ok ht, run_bind_ok (run_within_eq_ok.mpr he)]
  rfl

variable {c₁ c₂ : Cursor} {f : Expr} {fuel : Nat}

theorem run_postfixes_done (hn : c.startsPostfix = false) :
    (postfixes op (fuel + 1) e).run c = (.ok e, c) := by
  unfold Cursor.startsPostfix at hn
  rw [Bool.or_eq_false_iff] at hn
  unfold postfixes
  rw [run_withCursor, hn.1, if_neg (by simp), if_neg ?_]
  · rfl
  · rw [Bool.not_eq_true]
    cases hd : c.nextIs .symbol "." with
    | false => rfl
    | true =>
      obtain ⟨t, ht, _⟩ := Cursor.nextIs_iff.mp hd
      rw [Cursor.peekAt?_one ht, ← hd]
      exact hn.2

theorem run_callArgs_empty (ho : c.nextIs .symbol "(" = true)
    (hc : c.next.nextIs .symbol ")" = true) :
    (callArgs op).run c = (.ok [], c.next.next) := by
  obtain ⟨t, ht, _⟩ := Cursor.nextIs_iff.mp ho
  unfold callArgs
  rw [run_withCursor, Cursor.nextIsAt_one ht, hc, if_pos rfl, run_bind_ok (run_read c),
    run_bind_ok (run_read c.next)]
  rfl

theorem run_callArgs_of {args : List Expr} (ho : c.nextIs .symbol "(" = true)
    (hc : c.next.nextIs .symbol ")" = false)
    (hargs : (parenthesized op).run c = (.ok args, c')) :
    (callArgs op).run c = (.ok args, c') := by
  obtain ⟨t, ht, _⟩ := Cursor.nextIs_iff.mp ho
  unfold callArgs
  rw [run_withCursor, Cursor.nextIsAt_one ht, hc, if_neg (by simp)]
  exact hargs

theorem run_postfixes_call {args : List Expr} (ho : c.nextIs .symbol "(" = true)
    (hargs : (callArgs op).run c = (.ok args, c₁))
    (hx : (postfixes op fuel (.call (Site.ofSpan (f.span.merge c₁.lastSpan)) f args)).run c₁ =
      (.ok e, c')) :
    (postfixes op (fuel + 1) f).run c = (.ok e, c') := by
  unfold postfixes
  rw [run_withCursor, ho, if_pos rfl, run_bind_ok (run_within_eq_ok.mpr hargs),
    run_bind_ok (run_nodeFrom _ _ _)]
  exact hx

theorem run_postfixes_access {t : Token} (ho : c.nextIs .symbol "." = true)
    (ht : c.next.peek? = some t) (hk : t.kind = .identifier)
    (hx : (postfixes op fuel (.accessor (Site.ofSpan (f.span.merge c.next.next.lastSpan)) f
      t.text)).run c.next.next = (.ok e, c')) :
    (postfixes op (fuel + 1) f).run c = (.ok e, c') := by
  obtain ⟨u, hu, _⟩ := Cursor.nextIs_iff.mp ho
  have hname := run_requireIdentifier_eq_ok.mpr ⟨ht, hk, rfl⟩
  unfold postfixes
  rw [run_withCursor, Cursor.nextIs_disjoint ho (.inr (by decide)), if_neg (by simp), ho,
    Cursor.peekAt?_one hu, ht, if_pos (by simp [hk]), run_bind_ok (run_read c),
    run_bind_ok (run_within_eq_ok.mpr hname), run_bind_ok (run_nodeFrom _ _ _)]
  exact hx

theorem run_climb_done {level : Nat} (hn : operatorAt? c level = none) :
    (climb inner (fuel + 1) level f).run c = (.ok f, c) := by
  unfold climb
  rw [run_withCursor, hn]
  rfl

theorem run_climb_step {level : Nat} {bop : BinaryOp} {first right : Expr}
    (hop : operatorAt? c level = some bop) (hp : inner.run c.next = (.ok first, c₁))
    (hr : (climb inner fuel (bop.precedence + 1) first).run c₁ = (.ok right, c₂))
    (hx : (climb inner fuel level (binaryNode bop f right)).run c₂ = (.ok e, c')) :
    (climb inner (fuel + 1) level f).run c = (.ok e, c') := by
  unfold climb
  rw [run_withCursor, hop]
  dsimp only
  rw [run_bind_ok (run_read c), run_bind_ok hp, run_bind_ok hr]
  exact hx

theorem run_statements_done (hc : c.nextIs .symbol "\x7d" = true) :
    (statements inner (fuel + 1)).run c = (.ok [], c.next) := by
  unfold statements
  rw [run_bind_ok (run_accept _ _ c), hc, if_pos rfl, Cursor.skipIf_of hc]
  rfl

theorem run_statements_step {es : List Expr} (hn : c.nextIs .symbol "\x7d" = false)
    (hend : c.atEnd = false) (he : inner.run c = (.ok e, c₁))
    (hes : (statements inner fuel).run (c₁.skipIf .symbol ";") = (.ok es, c')) :
    (statements inner (fuel + 1)).run c = (.ok (e :: es), c') := by
  unfold statements
  rw [run_bind_ok (run_accept _ _ c), hn, if_neg (by simp), Cursor.skipIf_of_not hn,
    run_withCursor, hend, if_neg (by simp), run_bind_ok (run_within_eq_ok.mpr he),
    run_bind_ok (run_accept _ _ c₁), run_bind_ok hes]
  rfl

section

variable {condition body : Expr} (hc : inner.run c = (.ok condition, c₁))
  (hb : inner.run (c₁.skipIf .keyword "then") = (.ok body, c₂))

include hc hb

theorem run_arms_last (hn : c₂.nextIs .keyword "else" = false) :
    (arms inner (fuel + 1)).run c = (.ok [.guarded condition body], c₂) := by
  unfold arms
  rw [run_bind_ok (run_within_eq_ok.mpr hc), run_bind_ok (run_accept _ _ c₁),
    run_bind_ok (run_within_eq_ok.mpr hb), run_bind_ok (run_accept _ _ c₂), hn, if_neg (by simp),
    Cursor.skipIf_of_not hn]
  rfl

theorem run_arms_else {last : Expr} (he : c₂.nextIs .keyword "else" = true)
    (hn : c₂.next.nextIs .keyword "if" = false) (hl : inner.run c₂.next = (.ok last, c')) :
    (arms inner (fuel + 1)).run c = (.ok [.guarded condition body, .always last], c') := by
  unfold arms
  rw [run_bind_ok (run_within_eq_ok.mpr hc), run_bind_ok (run_accept _ _ c₁),
    run_bind_ok (run_within_eq_ok.mpr hb), run_bind_ok (run_accept _ _ c₂), he, if_pos rfl,
    Cursor.skipIf_of he, run_bind_ok (run_accept _ _ c₂.next), hn, if_neg (by simp),
    Cursor.skipIf_of_not hn, run_bind_ok (run_within_eq_ok.mpr hl)]
  rfl

theorem run_arms_elseIf {bs : List Branch} (he : c₂.nextIs .keyword "else" = true)
    (hi : c₂.next.nextIs .keyword "if" = true)
    (hbs : (arms inner fuel).run c₂.next.next = (.ok bs, c')) :
    (arms inner (fuel + 1)).run c = (.ok (.guarded condition body :: bs), c') := by
  unfold arms
  rw [run_bind_ok (run_within_eq_ok.mpr hc), run_bind_ok (run_accept _ _ c₁),
    run_bind_ok (run_within_eq_ok.mpr hb), run_bind_ok (run_accept _ _ c₂), he, if_pos rfl,
    Cursor.skipIf_of he, run_bind_ok (run_accept _ _ c₂.next), hi, if_pos rfl,
    Cursor.skipIf_of hi, run_bind_ok hbs]
  rfl

end

/-! ## Derivations are accepted -/

/-- The operands that the parsers of a depth are made of, and the operations over them. -/
abbrev operandsAt (infixed : Bool) (depth : Nat) : Parser Expr :=
  operandAt (layerOf infixed) depth

/-- The operations over the operands of a depth. -/
abbrev operationsAt (infixed : Bool) (depth : Nat) : Parser Expr :=
  layerOf infixed (operandsAt infixed depth)

/-- The parser of a phrase reads it, given depth and fuel beyond the tokens left. -/
def Accepted (infixed : Bool) : Phrase → Cursor → Cursor → Prop
  | .operand e, c, c' => ∀ depth, c.rest.length < depth →
      (operandsAt infixed depth).run c = (.ok e, c')
  | .primary e, c, c' => ∀ depth, c.rest.length ≤ depth →
      (primary (operationsAt infixed depth) (operandsAt infixed depth)).run c = (.ok e, c')
  | .postfixes first e, c, c' => ∀ depth fuel, c.rest.length < depth → c.rest.length < fuel →
      (postfixes (operationsAt infixed depth) fuel first).run c = (.ok e, c')
  | .operation e, c, c' => ∀ depth, c.rest.length < depth →
      (operationsAt infixed depth).run c = (.ok e, c')
  | .climb level left e, c, c' => infixed = true → ∀ depth fuel, c.rest.length < depth →
      c.rest.length < fuel → (climb (operandsAt infixed depth) fuel level left).run c = (.ok e, c')
  | .elements es, c, c' => ∀ depth, c.rest.length < depth → c'.nextIs .symbol "," = false →
      ∃ e rest c₁, es = e :: rest ∧ (operationsAt infixed depth).run c = (.ok e, c₁) ∧
        ∀ fuel, c₁.rest.length < fuel →
          (moreElements (operationsAt infixed depth) .symbol "," fuel).run c₁ = (.ok rest, c')
  | .statements es, c, c' => ∀ depth fuel, c.rest.length < depth → c.rest.length < fuel →
      (statements (operandsAt infixed depth) fuel).run c = (.ok es, c')
  | .arms bs, c, c' => ∀ depth fuel, c.rest.length < depth → c.rest.length < fuel →
      (arms (operandsAt infixed depth) fuel).run c = (.ok bs, c')

/-- A list of elements is read where its closing parenthesis follows. -/
theorem run_parenthesized_of {es : List Expr} {c₁ : Cursor} {depth : Nat}
    (ho : c.nextIs .symbol "(" = true) (hes : Accepted infixed (.elements es) c.next c₁)
    (hc : c₁.nextIs .symbol ")" = true) (hd : c.next.rest.length < depth) :
    (parenthesized (operationsAt infixed depth)).run c = (.ok es, c₁.next) := by
  obtain ⟨e, rest, c₂, rfl, he, hrest⟩ :=
    hes depth hd (Cursor.nextIs_disjoint hc (.inr (by decide)))
  refine run_enclosed_eq_ok.mpr ⟨ho, c₁, ?_, hc, rfl⟩
  unfold sepBy
  dsimp only
  rw [he]
  dsimp only
  rw [run_map, run_withFuel, hrest _ (Nat.lt_succ_self _)]
  rfl

/-- **Every derivation is read by its parser.** -/
theorem Reads.accepted {p : Phrase} (h : Reads infixed p c c') : Accepted infixed p c c' := by
  induction h with
  | @operand c c₁ c' first e hp hx ihp ihx =>
    intro depth hd
    cases depth with
    | zero => omega
    | succ depth =>
      have hlt := hp.progress
      simp [Phrase.mayBeEmpty] at hlt
      unfold operandsAt
      rw [operandAt_succ]
      unfold Grammar.operandStep
      rw [run_bind_ok (ihp depth (by omega)), run_withFuel]
      exact ihx depth _ (by omega) (Nat.lt_succ_self _)
  | unary ht hop _ ih =>
    intro depth hd
    have hlt := Cursor.rest_next_lt ht
    exact run_primary_unary (run_unary_of ht hop (ih depth (by omega)))
  | atom ha =>
    intro depth _
    exact run_primary_terminal ha
  | tuple ho hes hc ih =>
    intro depth hd
    have hlt := Cursor.rest_next_lt_of_nextIs ho
    have hlist := @run_parenthesized_of _ _ _ _ depth ho ih hc (by omega)
    exact run_primary_tuple ho hes.not_close (run_tuple_of ho hlist)
  | block ho _ ih =>
    intro depth hd
    have hlt := Cursor.rest_next_lt_of_nextIs ho
    have hes := ih depth _ (by omega) (Nat.lt_succ_self _)
    exact run_primary_block ho (run_block_of ho hes)
  | ifChain ho _ ih =>
    intro depth hd
    have hlt := Cursor.rest_next_lt_of_nextIs ho
    have hbs := ih depth _ (by omega) (Nat.lt_succ_self _)
    exact run_primary_conditional ho (run_conditional_of ho hbs)
  | loop ho _ ih =>
    intro depth hd
    have hlt := Cursor.rest_next_lt_of_nextIs ho
    exact run_primary_loop ho (run_loop_of ho (ih depth (by omega)))
  | postfixesDone hn =>
    intro depth fuel _ hf
    cases fuel with
    | zero => omega
    | succ fuel => exact run_postfixes_done hn
  | emptyCall ho hc _ ih =>
    intro depth fuel hd hf
    cases fuel with
    | zero => omega
    | succ fuel =>
      have hlt := Cursor.rest_next_lt_of_nextIs ho
      have hlt' := Cursor.rest_next_lt_of_nextIs hc
      exact run_postfixes_call ho (run_callArgs_empty ho hc) (ih depth fuel (by omega) (by omega))
  | call ho hes hc _ ihes ih =>
    intro depth fuel hd hf
    cases fuel with
    | zero => omega
    | succ fuel =>
      have hlt := Cursor.rest_next_lt_of_nextIs ho
      have hlt' := Cursor.rest_next_lt_of_nextIs hc
      have hes' := hes.progress
      simp [Phrase.mayBeEmpty] at hes'
      have hlist := @run_parenthesized_of _ _ _ _ depth ho ihes hc (by omega)
      exact run_postfixes_call ho (run_callArgs_of ho hes.not_close hlist)
        (ih depth fuel (by omega) (by omega))
  | access ho ht hk _ ih =>
    intro depth fuel hd hf
    cases fuel with
    | zero => omega
    | succ fuel =>
      have hlt := Cursor.rest_next_lt_of_nextIs ho
      have hlt' := Cursor.rest_next_lt ht
      exact run_postfixes_access ho ht hk (ih depth fuel (by omega) (by omega))
  | operation hp hx ihp ihx =>
    intro depth hd
    have hlt := hp.progress
    simp [Phrase.mayBeEmpty] at hlt
    cases infixed with
    | false =>
      cases hx with
      | climbDone _ => exact ihp depth hd
      | climbStep hi _ _ _ _ => cases hi
    | true =>
      change (climbing (operandsAt true depth)).run _ = _
      unfold Grammar.climbing
      rw [run_bind_ok (ihp depth hd), run_withFuel]
      exact ihx rfl depth _ (by omega) (Nat.lt_succ_self _)
  | climbDone hn =>
    intro hi depth fuel _ hf
    cases fuel with
    | zero => omega
    | succ fuel => exact run_climb_done (hn hi)
  | climbStep hi hop hp hr _ ihp ihr ihx =>
    intro _ depth fuel hd hf
    cases fuel with
    | zero => omega
    | succ fuel =>
      have hlt := rest_next_lt_of_operatorAt? hop
      have hp' := hp.progress
      have hr' := hr.progress
      simp [Phrase.mayBeEmpty] at hp' hr'
      exact run_climb_step hop (ihp depth (by omega)) (ihr hi depth fuel (by omega) (by omega))
        (ihx hi depth fuel (by omega) (by omega))
  | @lastElement c c' e _ ih =>
    intro depth hd hn
    refine ⟨e, [], c', rfl, ih depth hd, ?_⟩
    intro fuel hf
    cases fuel with
    | zero => omega
    | succ fuel => exact run_moreElements_done (.inl hn)
  | @element c c₁ c' e es he hcomma _ ih ihes =>
    intro depth hd hn
    have hlt := he.progress
    have hlt' := Cursor.rest_next_lt_of_nextIs hcomma
    simp [Phrase.mayBeEmpty] at hlt
    obtain ⟨e', rest, c₂, rfl, he', hrest⟩ := ihes depth (by omega) hn
    refine ⟨e, e' :: rest, c₁, rfl, ih depth hd, ?_⟩
    intro fuel hf
    cases fuel with
    | zero => omega
    | succ fuel =>
      refine run_moreElements_step hcomma he' (hrest fuel ?_)
      have hlt'' := (layerOf_reads (operandAt_yields infixed depth) _ _ _ he').progress
      simp [Phrase.mayBeEmpty] at hlt''
      omega
  | noStatement hc =>
    intro depth fuel _ hf
    cases fuel with
    | zero => omega
    | succ fuel => exact run_statements_done hc
  | @statement c c₁ c' e es hn he _ ih ihes =>
    intro depth fuel hd hf
    cases fuel with
    | zero => omega
    | succ fuel =>
      have hlt := he.progress
      have hskip := c₁.rest_skipIf_le .symbol ";"
      simp [Phrase.mayBeEmpty] at hlt
      have hend : c.atEnd = false := by
        unfold Cursor.atEnd
        cases hrest : c.rest with
        | nil => rw [hrest] at hlt; simp at hlt
        | cons t ts => rfl
      exact run_statements_step hn hend (ih depth hd) (ihes depth fuel (by omega) (by omega))
  | @lastArm c c₁ c' condition body hc _ hn ihc ihb =>
    intro depth fuel hd hf
    cases fuel with
    | zero => omega
    | succ fuel =>
      have hlt := hc.progress
      have hskip := c₁.rest_skipIf_le .keyword "then"
      simp [Phrase.mayBeEmpty] at hlt
      exact run_arms_last (ihc depth hd) (ihb depth (by omega)) hn
  | @elseArm c c₁ c₂ c' condition body last hc hb he hn _ ihc ihb ihl =>
    intro depth fuel hd hf
    cases fuel with
    | zero => omega
    | succ fuel =>
      have hlt := hc.progress
      have hskip := c₁.rest_skipIf_le .keyword "then"
      have hlt' := hb.progress
      have helse := Cursor.rest_next_lt_of_nextIs he
      simp [Phrase.mayBeEmpty] at hlt hlt'
      exact run_arms_else (ihc depth hd) (ihb depth (by omega)) he hn (ihl depth (by omega))
  | @elseIfArm c c₁ c₂ c' condition body bs hc hb he hi _ ihc ihb ihbs =>
    intro depth fuel hd hf
    cases fuel with
    | zero => omega
    | succ fuel =>
      have hlt := hc.progress
      have hskip := c₁.rest_skipIf_le .keyword "then"
      have hlt' := hb.progress
      have helse := Cursor.rest_next_lt_of_nextIs he
      have hif := Cursor.rest_next_lt_of_nextIs hi
      simp [Phrase.mayBeEmpty] at hlt hlt'
      exact run_arms_elseIf (ihc depth hd) (ihb depth (by omega)) he hi
        (ihbs depth fuel (by omega) (by omega))

/-- **The parser of operands reads exactly the operands of the grammar.** -/
theorem operand_run_iff :
    (operand (layerOf infixed)).run c = (.ok e, c') ↔ Reads infixed (.operand e) c c' :=
  ⟨operand_yields infixed c e c', fun h => h.accepted _ (Nat.lt_succ_self _)⟩

/-- Operators are read over any operands that include those read. -/
theorem climb_mono {p q : Parser Expr}
    (hpq : ∀ c e c', p.run c = (.ok e, c') → q.run c = (.ok e, c')) :
    ∀ (fuel level : Nat) (left : Expr) (c c' : Cursor) (e : Expr),
      (climb p fuel level left).run c = (.ok e, c') →
      (climb q fuel level left).run c = (.ok e, c') := by
  intro fuel
  induction fuel with
  | zero => exact fun _ _ _ _ _ h => h
  | succ fuel ih =>
    intro level left c c' e h
    unfold climb at h ⊢
    rw [run_withCursor] at h ⊢
    split at h
    · exact h
    · rename_i bop hbop
      rw [run_bind_ok (run_read c)] at h ⊢
      obtain ⟨first, c₁, hfirst, h⟩ := run_bind_eq_ok.mp h
      obtain ⟨right, c₂, hright, h⟩ := run_bind_eq_ok.mp h
      rw [run_bind_ok (hpq _ _ _ hfirst), run_bind_ok (ih _ _ _ _ _ hright)]
      exact ih _ _ _ _ _ h

theorem layerOf_mono {p q : Parser Expr}
    (hpq : ∀ c e c', p.run c = (.ok e, c') → q.run c = (.ok e, c')) {c c' : Cursor} {e : Expr}
    (h : (layerOf infixed p).run c = (.ok e, c')) : (layerOf infixed q).run c = (.ok e, c') := by
  cases infixed with
  | false => exact hpq _ _ _ h
  | true =>
    change (climbing p).run c = _ at h
    change (climbing q).run c = _
    unfold climbing at h ⊢
    obtain ⟨first, c₁, hfirst, h⟩ := run_bind_eq_ok.mp h
    rw [run_bind_ok (hpq _ _ _ hfirst), run_withFuel]
    rw [run_withFuel] at h
    exact climb_mono hpq _ _ _ _ _ _ h

/-- **The parser of operations reads exactly the operations of the grammar.** -/
theorem operation_run_iff :
    (operation (layerOf infixed)).run c = (.ok e, c') ↔ Reads infixed (.operation e) c c' := by
  constructor
  · exact operation_yields infixed c e c'
  · intro h
    have hdepth := h.accepted _ (Nat.lt_succ_self _)
    refine layerOf_mono ?_ hdepth
    intro c₁ e₁ c₂ h₁
    exact operand_run_iff.mpr (operandAt_yields infixed _ _ _ _ h₁)

end FrontEnd
