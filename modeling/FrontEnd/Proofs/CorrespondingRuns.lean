import FrontEnd.Proofs.Correspondence

/-!
# Every production keeps a correspondence

From places that correspond each production of the grammar gives results that correspond.

* One lemma for each production, over the parsers it is made of.
* `corresponds_terminal`, `corresponds_typeExpr`, `corresponds_operation` are the results for whole
  phrases.
* `agree_declaration`: a declaration starts with tokens that are no part of any other phrase, so
  `Correspondence.Start` says what two places must have in common for it.
-/

set_option autoImplicit false

namespace FrontEnd

open Grammar FrontEnd.Parser Cursor

namespace Correspondence

variable {K : Correspondence} {α : Type} {R : α → α → Prop} {c d : Cursor}

/-! ## Terminals and types -/

theorem place_symbol {t : Token} (h : K.place c d) (ht : c.peek? = some t)
    (hk : t.kind = .symbol) : K.place c.next d.next :=
  K.next h ht (startsDeclaration_of_kind (by simp [hk]))

/-- Two symbols are passed. -/
theorem agree_readPair {a b : α} {first second : String} (hr : R a b) (h : K.place c d)
    (ho : c.nextIs .symbol first = true) (hc : c.nextIsAt .symbol second 1 = true) :
    K.Agree R (do let _ ← read; let _ ← read; pure a) (do let _ ← read; let _ ← read; pure b)
      c d := by
  obtain ⟨t, ht, _⟩ := nextIs_iff.mp ho
  rw [nextIsAt_one ht] at hc
  exact agree_read (agree_readAs hr (place_next (place_next h ho rfl) hc rfl))

theorem agree_integerSuffix (h : K.place c d) (hs : suffixAt? c = suffixAt? d) :
    K.Agree Eq integerSuffix integerSuffix c d := by
  cases hc : suffixAt? c with
  | none =>
    have hd := hs.symm.trans hc
    exact .ok (by rw [run_integerSuffix, hc]) (by rw [run_integerSuffix, hd]) rfl h
  | some type =>
    have hd := hs.symm.trans hc
    obtain ⟨t, ht, hk, _⟩ := suffixAt?_eq_some_iff.mp hc
    exact .ok (by rw [run_integerSuffix, hc]) (by rw [run_integerSuffix, hd]) rfl
      (K.next h ht (startsDeclaration_of_kind (by simp [hk])))

theorem corresponds_terminal : K.Corresponds Eq terminal terminal := by
  refine .withCursor fun c d h => ?_
  rcases peek?_of_words (K.words h) with ⟨hc, hd⟩ | ⟨t, s, hc, hd⟩
  · simp only [hc, hd]
    exact agree_fail (sameError_next h _ _)
  · have hnext : t.kind ≠ .keyword → K.place c.next d.next :=
      fun hk => K.next h hc (startsDeclaration_of_kind hk)
    have hsuffix := K.suffix h hc
    obtain ⟨kind, text, value, span⟩ := t
    simp only [hc, hd]
    cases kind with
    | number =>
      refine agree_read ((agree_integerSuffix (hnext (by simp)) (hsuffix rfl)).bind ?_)
      intro type type' htype
      rw [htype]
      exact corresponds_pure rfl
    | boolean => exact agree_readAs rfl (hnext (by simp))
    | char =>
      cases text.toList with
      | nil => exact agree_fail (sameError_token h hc hd _ _)
      | cons v vs => exact agree_readAs rfl (hnext (by simp))
    | string => exact agree_readAs rfl (hnext (by simp))
    | identifier => exact agree_readAs rfl (hnext (by simp))
    | symbol =>
      refine .ite ?_ (fun hunit => ?_) (fun _ => agree_fail (sameError_token h hc hd _ _))
      · rw [nextIsAt_of_words (K.words h)]
      · exact agree_readPair rfl h (nextIs_iff.mpr ⟨_, hc, rfl, hunit.1⟩) hunit.2
    | unexpected => exact agree_fail (sameError_token h hc hd _ _)
    | keyword => exact agree_fail (sameError_token h hc hd _ _)
    | endOfFile => exact agree_fail (sameError_token h hc hd _ _)

/-- The error of a length that is no length is at all that was read for it. -/
theorem corresponds_arrayLength : K.Corresponds Eq arrayLength arrayLength := by
  intro c d h
  cases corresponds_terminal c d h with
  | error hc hd he =>
    exact .error ((run_bind_ok (run_nextSpan c)).trans (run_bind_error hc))
      ((run_bind_ok (run_nextSpan d)).trans (run_bind_error hd)) he
  | @ok a b c' d' hc hd hab h' =>
    subst hab
    have hreads := TerminalReads.of_run hc
    refine Agree.of_run ((run_bind_ok (run_nextSpan c)).trans (run_bind_ok hc))
      ((run_bind_ok (run_nextSpan d)).trans (run_bind_ok hd)) ?_
    cases arraySize? a with
    | some size => exact agree_pure rfl h'
    | none =>
      refine Agree.of_run (run_bind_ok (run_spanSince _ c')) (run_bind_ok (run_spanSince _ d')) ?_
      exact agree_fail ⟨rfl, rfl, rfl, K.errorSince h h' hreads.progress⟩

theorem corresponds_arrayTail {inner : Parser TypeExpr} (hin : K.Corresponds Eq inner inner) :
    K.Corresponds Eq (arrayTail inner) (arrayTail inner) := by
  refine hin.bindEq fun element => (corresponds_accept rfl).bindEq fun sized => .ite ?_ ?_
  · exact corresponds_arrayLength.bindEq fun size =>
      (corresponds_require rfl).seq (corresponds_pure rfl)
  · exact (corresponds_require rfl).seq (corresponds_pure rfl)

theorem corresponds_typeStep {inner : Parser TypeExpr} (hin : K.Corresponds Eq inner inner) :
    K.Corresponds Eq (typeStep inner) (typeStep inner) := by
  refine .withCursor fun c d h => ?_
  rcases peek?_of_words (K.words h) with ⟨hc, hd⟩ | ⟨t, s, hc, hd⟩
  · simp only [hc, hd]
    exact agree_fail (sameError_next h _ _)
  · have symbol_next : ∀ {text}, t.is .symbol text = true → K.place c.next d.next :=
      fun his => place_symbol h hc (Token.is_iff.mp his).1
    simp only [hc, hd]
    refine .ite Iff.rfl (fun hk => ?_) fun _ => ?_
    · exact agree_readAs rfl (K.next h hc (startsDeclaration_of_kind (by simp [hk])))
    refine .ite ?_ (fun hunit => ?_) fun _ => ?_
    · rw [nextIsAt_of_words (K.words h)]
      exact Iff.rfl
    · rw [Bool.and_eq_true] at hunit
      rw [← nextIs_eq_of_peek hc] at hunit
      exact agree_readPair rfl h hunit.1 hunit.2
    refine .ite Iff.rfl (fun ho => ?_) fun _ => ?_
    · exact agree_read ((corresponds_arrayTail hin).within _ _ _ (symbol_next ho))
    refine .ite Iff.rfl (fun ho => ?_) fun _ => ?_
    · exact agree_read (hin.bindEq (fun _ => corresponds_pure rfl) _ _ (symbol_next ho))
    refine .ite Iff.rfl (fun ho => ?_) fun _ => ?_
    · exact agree_read (hin.bindEq (fun _ => corresponds_pure rfl) _ _ (symbol_next ho))
    refine .ite Iff.rfl (fun ho => ?_) fun _ => ?_
    · exact agree_read (hin.bindEq (fun _ => corresponds_pure rfl) _ _ (symbol_next ho))
    · exact agree_fail (sameError_token h hc hd _ _)

theorem corresponds_typeAt (depth : Nat) : K.Corresponds Eq (typeAt depth) (typeAt depth) := by
  induction depth with
  | zero =>
    refine .withCursor fun c d h => agree_fail ?_
    exact sameError_found h _ fun found => "expected type, found " ++ found
  | succ depth ih =>
    rw [typeAt_succ]
    exact corresponds_typeStep ih

theorem corresponds_typeExpr : K.Corresponds Eq typeExpr typeExpr :=
  .withFuel corresponds_typeAt

/-! ## Expressions -/

variable {inner operation : Parser Expr}

theorem corresponds_nodeFrom {start start' : Span} {node node' : Site → Expr}
    (hstart : K.span start start')
    (hnode : ∀ {s s'}, K.span s s' → K.expr (node (Site.ofSpan s)) (node' (Site.ofSpan s'))) :
    K.Corresponds K.expr (nodeFrom start node) (nodeFrom start' node') :=
  (corresponds_spanSince hstart).bind fun _ _ hs => corresponds_pure (hnode hs)

theorem corresponds_unary (hin : K.Corresponds K.expr inner inner) :
    K.Corresponds K.expr (unary inner) (unary inner) := by
  refine .withCursor fun c d h => ?_
  rcases peek?_of_words (K.words h) with ⟨hc, hd⟩ | ⟨t, s, hc, hd⟩
  · simp only [hc, hd, Option.bind_none]
    exact agree_fail (sameError_next h _ _)
  · have hsame : unaryOp? { t with span := s } = unaryOp? t := rfl
    simp only [hc, hd, Option.bind_some, hsame]
    cases hop : unaryOp? t with
    | none => exact agree_fail (sameError_next h _ _)
    | some op =>
      have hnext := place_symbol h hc (unaryOp?_eq_some hop).1
      exact agree_read ((hin _ _ hnext).bind fun e f he =>
        corresponds_nodeFrom (K.nextSpan h) fun hs => K.unary op hs he)

theorem corresponds_unitAtom : K.Corresponds K.expr unitAtom unitAtom :=
  corresponds_nextSpan.bind fun _ _ hstart =>
    (corresponds_require rfl).seq ((corresponds_require rfl).seq
      (corresponds_nodeFrom hstart fun hs => K.atom _ hs))

theorem corresponds_parenthesized (hop : K.Corresponds K.expr operation operation) :
    K.Corresponds (List.Forall₂ K.expr) (parenthesized operation) (parenthesized operation) :=
  (hop.sepBy rfl).enclosed rfl rfl

theorem corresponds_tuple (hop : K.Corresponds K.expr operation operation) :
    K.Corresponds K.expr (tuple operation) (tuple operation) := by
  refine .withCursor fun c d h => .ite ?_ (fun _ => ?_) fun _ => agree_fail ?_
  · rw [nextIs_of_words (K.words h)]
  · exact (((corresponds_parenthesized hop).within _) c d h).bind fun es fs hes =>
      corresponds_nodeFrom (K.nextSpan h) fun hs => K.tuple hs hes
  · exact sameError_found h _ fun found => "expected `" ++ "(" ++ "`, found " ++ found

theorem corresponds_statements (hin : K.Corresponds K.expr inner inner) (fuel : Nat) :
    K.Corresponds (List.Forall₂ K.expr) (statements inner fuel) (statements inner fuel) := by
  induction fuel with
  | zero => exact corresponds_pure .nil
  | succ fuel ih =>
    refine (corresponds_accept rfl).bindEq fun closed => .ite (corresponds_pure .nil) ?_
    refine .withCursor fun c d h => .ite ?_ (fun _ => ?_) fun _ => ?_
    · have hlength := length_of_words (K.words h)
      rw [atEnd, atEnd, List.isEmpty_iff_length_eq_zero, List.isEmpty_iff_length_eq_zero, hlength]
    · exact agree_fail ((sameError_next h _ _).within _)
    · refine ((hin.within _) c d h).bind fun e f he => (corresponds_accept rfl).seq ?_
      exact ih.bind fun es fs hes => corresponds_pure (.cons he hes)

theorem corresponds_block (hin : K.Corresponds K.expr inner inner) :
    K.Corresponds K.expr (block inner) (block inner) :=
  corresponds_nextSpan.bind fun _ _ hstart => (corresponds_require rfl).seq
    ((Corresponds.withFuel (corresponds_statements hin)).bind fun _ _ hes =>
      corresponds_nodeFrom hstart fun hs => K.block hs hes)

theorem corresponds_arms (hin : K.Corresponds K.expr inner inner) (fuel : Nat) :
    K.Corresponds (List.Forall₂ (Branch.Related K.expr)) (arms inner fuel) (arms inner fuel) := by
  induction fuel with
  | zero => exact corresponds_pure .nil
  | succ fuel ih =>
    refine (hin.within _).bind fun condition condition' hc => (corresponds_accept rfl).seq ?_
    refine (hin.within _).bind fun body body' hb => (corresponds_accept rfl).bindEq fun more => ?_
    refine .ite ((corresponds_accept rfl).bindEq fun chained => .ite ?_ ?_) ?_
    · exact ih.bind fun bs bs' hbs => corresponds_pure (.cons (.guarded hc hb) hbs)
    · exact (hin.within _).bind fun last last' hl =>
        corresponds_pure (.cons (.guarded hc hb) (.cons (.always hl) .nil))
    · exact corresponds_pure (.cons (.guarded hc hb) .nil)

theorem corresponds_conditional (hin : K.Corresponds K.expr inner inner) :
    K.Corresponds K.expr (conditional inner) (conditional inner) :=
  corresponds_nextSpan.bind fun _ _ hstart => (corresponds_require rfl).seq
    ((Corresponds.withFuel (corresponds_arms hin)).bind fun _ _ hbs =>
      corresponds_nodeFrom hstart fun hs => K.ifChain hs hbs)

theorem corresponds_loop (hin : K.Corresponds K.expr inner inner) :
    K.Corresponds K.expr (Grammar.loop inner) (Grammar.loop inner) :=
  corresponds_nextSpan.bind fun _ _ hstart => (corresponds_require rfl).seq
    ((hin.within _).bind fun _ _ hb => corresponds_nodeFrom hstart fun hs => K.loop hs hb)

theorem corresponds_atom : K.Corresponds K.expr Grammar.atom Grammar.atom :=
  corresponds_nextSpan.bind fun _ _ hstart => corresponds_terminal.bindEq fun a =>
    corresponds_nodeFrom hstart fun hs => K.atom a hs

theorem sameError_noOperand (h : K.place c d) :
    K.SameError (noOperandError c) (noOperandError d) := by
  unfold noOperandError
  rcases peek?_of_words (K.words h) with ⟨hc, hd⟩ | ⟨t, s, hc, hd⟩
  · simp only [hc, hd]
    exact sameError_next h _ _
  · simp only [hc, hd]
    split
    · exact sameError_token h hc hd _ _
    split
    · exact sameError_token h hc hd _ _
    · exact sameError_token h hc hd _ _

theorem corresponds_primary (hop : K.Corresponds K.expr operation operation)
    (hin : K.Corresponds K.expr inner inner) :
    K.Corresponds K.expr (primary operation inner) (primary operation inner) := by
  intro c d h
  refine agree_oneOf ?_ (K.errorNext h) (sameError_noOperand h)
  intro p hp
  simp only [List.mem_cons, List.not_mem_nil, or_false] at hp
  rcases hp with rfl | rfl | rfl | rfl | rfl | rfl | rfl
  · exact corresponds_unary hin c d h
  · exact corresponds_unitAtom c d h
  · exact corresponds_tuple hop c d h
  · exact corresponds_block hin c d h
  · exact corresponds_conditional hin c d h
  · exact corresponds_loop hin c d h
  · exact corresponds_atom c d h

theorem agree_callArgs (hop : K.Corresponds K.expr operation operation) (h : K.place c d)
    (ho : c.nextIs .symbol "(" = true) :
    K.Agree (List.Forall₂ K.expr) (callArgs operation) (callArgs operation) c d := by
  refine Agree.of_run (run_withCursor _ c) (run_withCursor _ d) (.ite ?_ (fun hc => ?_) fun _ => ?_)
  · rw [nextIsAt_of_words (K.words h)]
  · exact agree_readPair .nil h ho hc
  · exact corresponds_parenthesized hop c d h

theorem corresponds_postfixes (hop : K.Corresponds K.expr operation operation) (fuel : Nat) :
    ∀ e f, K.expr e f →
      K.Corresponds K.expr (postfixes operation fuel e) (postfixes operation fuel f) := by
  induction fuel with
  | zero => exact fun e f he => corresponds_pure he
  | succ fuel ih =>
    intro e f he
    refine .withCursor fun c d h => .ite ?_ (fun ho => ?_) fun _ => .ite ?_ (fun hdot => ?_) fun _ => ?_
    · rw [nextIs_of_words (K.words h)]
    · refine ((agree_callArgs hop h ho).within _).bind fun args args' hargs => ?_
      exact (corresponds_nodeFrom (K.spanOf he) fun hs => K.call hs he hargs).bind ih
    · rw [nextIs_of_words (K.words h), peekAt?_any_of_words (K.words h) 1 fun _ _ => rfl]
    · rw [Bool.and_eq_true] at hdot
      refine agree_read ((corresponds_requireIdentifier.within _).bind ?_ _ _
        (place_next h hdot.1 rfl))
      intro t u htu
      rw [htu.text]
      exact (corresponds_nodeFrom (K.spanOf he) fun hs => K.accessor u.text hs he).bind ih
    · exact agree_pure he h

theorem corresponds_operandStep (hop : K.Corresponds K.expr operation operation)
    (hin : K.Corresponds K.expr inner inner) :
    K.Corresponds K.expr (operandStep operation inner) (operandStep operation inner) :=
  (corresponds_primary hop hin).bind fun e f he =>
    .withFuel fun fuel => corresponds_postfixes hop fuel e f he

variable (K) in
/-- Over operands that keep the correspondence the layer keeps it. -/
def KeptBy (layer : OperatorLayer) : Prop :=
  ∀ p, K.Corresponds K.expr p p → K.Corresponds K.expr (layer p) (layer p)

theorem corresponds_climb (hin : K.Corresponds K.expr inner inner) (fuel : Nat) :
    ∀ level e f, K.expr e f →
      K.Corresponds K.expr (climb inner fuel level e) (climb inner fuel level f) := by
  induction fuel with
  | zero => exact fun _ e f he => corresponds_pure he
  | succ fuel ih =>
    intro level e f he
    refine .withCursor fun c d h => ?_
    have hsame : operatorAt? c level = operatorAt? d level := by
      rcases peek?_of_words (K.words h) with ⟨hc, hd⟩ | ⟨t, s, hc, hd⟩
      · rw [operatorAt?, operatorAt?, hc, hd]
      · rw [operatorAt?, operatorAt?, hc, hd]
        rfl
    rw [← hsame]
    cases hop : operatorAt? c level with
    | none => exact agree_pure he h
    | some op =>
      obtain ⟨t, ht, hk, _⟩ := operatorAt?_eq_some hop
      refine agree_read ((hin _ _ (place_symbol h ht hk)).bind fun first first' hfirst => ?_)
      refine (ih _ first first' hfirst).bind fun right right' hright => ih level _ _ ?_
      exact K.binary op (K.merge (K.spanOf he) (K.spanOf hright)) he hright

theorem keptBy_climbing : K.KeptBy climbing :=
  fun _ hp => hp.bind fun first first' hfirst =>
    .withFuel fun fuel => corresponds_climb hp fuel 0 first first' hfirst

variable {layer : OperatorLayer}

theorem corresponds_operandAt (hl : K.KeptBy layer) (depth : Nat) :
    K.Corresponds K.expr (operandAt layer depth) (operandAt layer depth) := by
  induction depth with
  | zero => exact .withCursor fun c d h => agree_fail (sameError_noOperand h)
  | succ depth ih =>
    rw [operandAt_succ]
    exact corresponds_operandStep (hl _ ih) ih

theorem corresponds_operation (hl : K.KeptBy layer) :
    K.Corresponds K.expr (Grammar.operation layer) (Grammar.operation layer) :=
  hl _ (.withFuel (corresponds_operandAt hl))

/-! ## Bindings -/

theorem corresponds_parameter : K.Corresponds K.parameter Grammar.parameter Grammar.parameter := by
  refine corresponds_nextSpan.bind fun start start' hstart =>
    corresponds_requireIdentifier.bind fun t u htu => ?_
  rw [htu.text]
  refine ((corresponds_requireSymbol _).within _).seq ((corresponds_typeExpr.within _).bindEq ?_)
  exact fun type => (corresponds_spanSince hstart).bind fun s s' hs =>
    corresponds_pure (K.parameterNode _ type hs)

theorem corresponds_member : K.Corresponds K.member Grammar.member Grammar.member := by
  refine corresponds_nextSpan.bind fun start start' hstart =>
    (corresponds_accept rfl).bindEq fun isPublic =>
    corresponds_requireIdentifier.bind fun t u htu => ?_
  rw [htu.text]
  refine ((corresponds_requireSymbol _).within _).seq ((corresponds_typeExpr.within _).bindEq ?_)
  exact fun type => (corresponds_spanSince hstart).bind fun s s' hs =>
    corresponds_pure (K.memberNode _ type isPublic hs)

variable (K) in
/-- Related parameters, with the same mark. -/
structure SameParameters (p q : Parameters) : Prop where
  bindings : List.Forall₂ K.parameter p.bindings q.bindings
  isVariadic : p.isVariadic = q.isVariadic

theorem corresponds_variadicMark {ps qs : List Parameter} (h : List.Forall₂ K.parameter ps qs) :
    K.Corresponds K.SameParameters (variadicMark ps) (variadicMark qs) := by
  have hempty : ps.isEmpty = qs.isEmpty := by
    cases h with
    | nil => rfl
    | cons _ _ => rfl
  refine .withCursor fun c d hplace => .ite (by rw [hempty]) (fun _ => ?_) fun _ => ?_
  · refine .ite ?_ (fun _ => agree_fail (sameError_next hplace _ _)) fun _ => ?_
    · rw [nextIs_of_words (K.words hplace)]
    · exact agree_pure ⟨h, rfl⟩ hplace
  · refine .ite ?_ (fun hmark => ?_) fun _ => agree_pure ⟨h, rfl⟩ hplace
    · rw [nextIs_of_words (K.words hplace), nextIsAt_of_words (K.words hplace)]
    · rw [Bool.and_eq_true] at hmark
      exact agree_readPair ⟨h, rfl⟩ hplace hmark.1 hmark.2

theorem corresponds_parameters : K.Corresponds K.SameParameters parameters parameters :=
  (corresponds_parameter.sepBy rfl).bind fun _ _ => corresponds_variadicMark

theorem corresponds_parameterList :
    K.Corresponds K.SameParameters parameterList parameterList := by
  refine .withCursor fun c d h => .ite ?_ (fun hunit => ?_) fun _ => .ite ?_ (fun _ => ?_) fun _ => ?_
  · rw [nextIs_of_words (K.words h), nextIsAt_of_words (K.words h)]
  · rw [Bool.and_eq_true] at hunit
    exact agree_readPair ⟨.nil, rfl⟩ h hunit.1 hunit.2
  · have hsome : c.peek?.isSome = d.peek?.isSome := by
      rcases peek?_of_words (K.words h) with ⟨hc, hd⟩ | ⟨t, s, hc, hd⟩
      · rw [hc, hd]
      · rw [hc, hd, Option.isSome_some, Option.isSome_some]
    rw [hsome, nextHasText_of_words (K.words h), nextHasText_of_words (K.words h)]
  · exact (corresponds_parameters.enclosed rfl rfl).within _ c d h
  · exact agree_pure ⟨.nil, rfl⟩ h

theorem corresponds_returnType : K.Corresponds Eq returnType returnType :=
  (corresponds_accept rfl).bindEq fun _ => .ite (corresponds_typeExpr.within _) (corresponds_pure rfl)

theorem corresponds_functionBody (hl : K.KeptBy layer) :
    K.Corresponds (Option.Rel K.expr) (functionBody layer) (functionBody layer) :=
  (corresponds_accept rfl).bindEq fun _ => .ite
    (((corresponds_operation hl).within _).bind fun _ _ he => corresponds_pure (.some he))
    (corresponds_pure .none)

/-! ## Declarations -/

variable (K) in
/-- What two places have in common where a function is read from each: the words ahead, the error
of a head that is missing, and places after one that is there. -/
structure FunctionStart (c d : Cursor) : Prop where
  words : c.rest.map Token.word = d.rest.map Token.word
  nextSpan : K.span c.nextSpan d.nextSpan
  missing : (c.skipIf .keyword "extern").nextIs .keyword "fn" = false →
    K.errorSpan (c.skipIf .keyword "extern").nextSpan (d.skipIf .keyword "extern").nextSpan
  found : (c.skipIf .keyword "extern").nextIs .keyword "fn" = true →
    K.place c.afterHead d.afterHead

variable (K) in
/-- What two places have in common where a structure is read from each. -/
structure StructStart (c d : Cursor) : Prop where
  words : c.rest.map Token.word = d.rest.map Token.word
  nextSpan : K.span c.nextSpan d.nextSpan
  missing : c.nextIs .keyword "struct" = false → K.errorSpan c.nextSpan d.nextSpan
  found : c.nextIs .keyword "struct" = true → K.place c.next d.next

variable (K) in
/-- What two places have in common where a declaration is read from each. -/
structure Start (c d : Cursor) : Prop where
  function : K.FunctionStart c d
  struct : K.StructStart c d
  errorNext : K.errorSpan c.nextSpan d.nextSpan

theorem words_next (h : c.rest.map Token.word = d.rest.map Token.word) :
    c.next.rest.map Token.word = d.next.rest.map Token.word := by
  have hnext : ∀ c : Cursor, c.next.rest.map Token.word = (c.rest.map Token.word).tail := by
    rintro ⟨passed, rest⟩
    cases rest with
    | nil => rfl
    | cons t ts => rfl
  rw [hnext, hnext, h]

/-- A keyword is required, and what follows runs after it. -/
theorem agree_require_bind {p q : Parser α} {kind : TokenKind} {text : String}
    (hw : c.rest.map Token.word = d.rest.map Token.word)
    (hspan : c.nextIs kind text = false → K.errorSpan c.nextSpan d.nextSpan)
    (h : c.nextIs kind text = true → K.Agree R p q c.next d.next) :
    K.Agree R (require kind text >>= fun _ => p) (require kind text >>= fun _ => q) c d := by
  have hnext := nextIs_of_words hw kind text
  cases hn : c.nextIs kind text with
  | false =>
    rw [hn] at hnext
    refine .error (run_bind_error (run_require_of_not hn))
      (run_bind_error (run_require_of_not hnext.symm)) ?_
    exact sameError_of_words hw (hspan hn) _
      fun found => "expected `" ++ text ++ "`, found " ++ found
  | true =>
    rw [hn] at hnext
    obtain ⟨t, _, hc⟩ := run_require_of hn
    obtain ⟨u, _, hd⟩ := run_require_of hnext.symm
    exact (h hn).of_run (run_bind_ok hc) (run_bind_ok hd)

theorem agree_function (hl : K.KeptBy layer) (h : K.FunctionStart c d) :
    K.Agree K.function (Grammar.function layer) (Grammar.function layer) c d := by
  have hsame := nextIs_of_words h.words .keyword "extern"
  have hhead : (c.skipIf .keyword "extern").rest.map Token.word =
      (d.skipIf .keyword "extern").rest.map Token.word := by
    unfold Cursor.skipIf
    rw [← hsame]
    split
    · exact words_next h.words
    · exact h.words
  refine Agree.of_run ((run_bind_ok (run_nextSpan c)).trans (run_bind_ok (run_accept _ _ c)))
    ((run_bind_ok (run_nextSpan d)).trans (run_bind_ok (run_accept _ _ d))) ?_
  refine agree_require_bind hhead h.missing fun hf => ?_
  rw [hsame]
  refine (corresponds_requireIdentifier.within _).bind ?_ _ _ (h.found hf)
  intro t u htu
  rw [htu.text]
  refine corresponds_parameterList.bind fun ps qs hps => corresponds_returnType.bindEq fun type =>
    (corresponds_functionBody hl).bind fun body body' hbody =>
    (corresponds_spanSince h.nextSpan).bind fun s s' hs => ?_
  rw [hps.isVariadic]
  exact corresponds_pure (K.functionNode _ _ _ _ hs hps.bindings hbody)

theorem agree_struct (h : K.StructStart c d) :
    K.Agree K.struct Grammar.struct Grammar.struct c d := by
  refine Agree.of_run (run_bind_ok (run_nextSpan c)) (run_bind_ok (run_nextSpan d)) ?_
  refine agree_require_bind h.words h.missing fun hs => ?_
  refine (corresponds_requireIdentifier.within _).bind ?_ _ _ (h.found hs)
  intro t u htu
  rw [htu.text]
  exact (((corresponds_member.sepBy rfl).enclosed rfl rfl).within _).bind fun ms ns hms =>
    (corresponds_spanSince h.nextSpan).bind fun s s' hs => corresponds_pure (K.structNode _ hs hms)

/-- **Declarations correspond**, read from places that have a start in common. -/
theorem agree_declaration (hl : K.KeptBy layer) (h : K.Start c d) :
    K.Agree K.Declarations (declaration layer) (declaration layer) c d := by
  refine agree_oneOf ?_ h.errorNext ?_
  · intro p hp
    simp only [List.mem_cons, List.not_mem_nil, or_false] at hp
    rcases hp with rfl | rfl
    · exact (agree_function hl h.function).map fun _ _ => .function
    · exact (agree_struct h.struct).map fun _ _ => .struct
  · exact sameError_of_words h.function.words h.errorNext _
      fun found => "expected `fn`, `extern` or `struct`, found " ++ found

end Correspondence

end FrontEnd
