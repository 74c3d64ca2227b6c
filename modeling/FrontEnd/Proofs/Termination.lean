import FrontEnd.Proofs.Progress
import FrontEnd.Proofs.ErrorOrder

/-!
# Parsing ends

Every production of the grammar ends and makes progress, from every place in every list of tokens.

* One lemma for each production: it takes a token, and what it calls is called where fewer tokens
  are left.
* `RecursionsEnd` lists the recursions of the grammar, each with its body; the loop over the
  declarations is one of them.
* `ProductionsProgress` lists the productions with what they do to the position.
* `parsing_terminates` is the result.
-/

set_option autoImplicit false

namespace FrontEnd

open Grammar FrontEnd.Parser Cursor

variable {c : Cursor} {m n : Nat}

/-! ## Terminals and types -/

theorem runsAlike_integerSuffix (c : Cursor) : RunsAlike 0 integerSuffix integerSuffix c := by
  refine .withCursor ?_
  cases hsuffix : suffixAt? c with
  | none => exact runsAlike_pure _ c
  | some type =>
    obtain ⟨t, ht, _⟩ := suffixAt?_eq_some_iff.mp hsuffix
    exact (runsAlike_readAs ht type).weaken

theorem runsAlike_terminal (c : Cursor) : RunsAlike 1 terminal terminal c := by
  refine .withCursor ?_
  cases ht : c.peek? with
  | none => exact runsAlike_fail _ 1 c
  | some t =>
    obtain ⟨kind, text, value, span⟩ := t
    cases kind with
    | number =>
      refine RunsAlike.read ht ((runsAlike_integerSuffix _).andThen fun type d _ => ?_)
      exact runsAlike_pure _ d
    | boolean => exact runsAlike_readAs ht _
    | char =>
      cases htext : text.toList with
      | nil =>
        simp only [htext]
        exact runsAlike_fail _ 1 c
      | cons v vs =>
        simp only [htext]
        exact runsAlike_readAs ht _
    | string => exact runsAlike_readAs ht _
    | identifier => exact runsAlike_readAs ht _
    | symbol =>
      refine .ite (fun hunit => ?_) fun _ => runsAlike_fail _ 1 c
      have hopen : c.nextIs .symbol "(" = true := nextIs_iff.mpr ⟨_, ht, rfl, hunit.1⟩
      exact (runsAlike_readPair hopen hunit.2 _).mono (Nat.le_succ 1)
    | unexpected => exact runsAlike_fail _ 1 c
    | keyword => exact runsAlike_fail _ 1 c
    | endOfFile => exact runsAlike_fail _ 1 c

theorem runsAlike_arrayLength (c : Cursor) : RunsAlike 1 arrayLength arrayLength c := by
  refine (runsAlike_look _ c).before fun start d _ => ?_
  refine (runsAlike_terminal d).andThen fun t d' _ => ?_
  cases arraySize? t with
  | some size => exact runsAlike_pure size d'
  | none => exact (runsAlike_look _ d').andThen fun span d'' _ => runsAlike_fail _ 0 d''

section Types

variable {inner inner' : Parser TypeExpr}

theorem runsAlike_arrayTail (hin : AlikeBelow 1 m inner inner') (hc : c.rest.length < m) :
    RunsAlike 1 (arrayTail inner) (arrayTail inner') c := by
  refine (hin c hc).andThen fun element d _ => ?_
  refine .acceptThen (l := 1) (Nat.zero_le _) (fun _ => ?_) fun _ => ?_
  · refine (runsAlike_arrayLength d.next).andThen fun size d' _ => ?_
    exact (runsAlike_require _ _ d').weaken.andThen fun _ d'' _ => runsAlike_pure _ d''
  · exact (runsAlike_require _ _ d).weaken.andThen fun _ d' _ => runsAlike_pure _ d'

theorem guards_typeStep (m : Nat) : Guards 1 m (alone typeStep) (alone typeStep) := by
  intro X Y c _ hX _
  refine .withCursor ?_
  cases ht : c.peek? with
  | none => exact runsAlike_fail _ 1 c
  | some t =>
    have hlt := rest_next_lt ht
    -- a prefix symbol and the type after it
    have hnested : ∀ f : TypeExpr → TypeExpr,
        RunsAlike 1 (do let _ ← read; let target ← X (); pure (f target))
          (do let _ ← read; let target ← Y (); pure (f target)) c :=
      fun f => RunsAlike.read ht
        ((hX () c.next hlt).weaken.andThen fun target d _ => runsAlike_pure (f target) d)
    refine .ite (fun _ => runsAlike_readAs ht _) fun _ => ?_
    refine .ite (fun hunit => ?_) fun _ => ?_
    · rw [Bool.and_eq_true, ← nextIs_eq_of_peek ht] at hunit
      exact (runsAlike_readPair hunit.1 hunit.2 _).mono (Nat.le_succ 1)
    refine .ite (fun _ => ?_) fun _ => ?_
    · exact RunsAlike.read ht ((runsAlike_arrayTail (hX ()) hlt).within _).weaken
    refine .ite (fun _ => hnested _) fun _ => ?_
    refine .ite (fun _ => hnested _) fun _ => ?_
    exact .ite (fun _ => hnested _) fun _ => runsAlike_fail _ 1 c

theorem runsAlike_typeExpr (c : Cursor) : RunsAlike 1 typeExpr typeExpr c :=
  (guards_typeStep _).withFuel_alone typeAt_succ typeAt_succ (Nat.lt_succ_self _)

end Types

/-! ## Operands -/

section Expressions

variable {inner inner' operation operation' : Parser Expr}

theorem runsAlike_nodeFrom (start : Span) (node : Site → Expr) (c : Cursor) :
    RunsAlike 0 (nodeFrom start node) (nodeFrom start node) c :=
  (runsAlike_look _ c).andThen fun span d _ => runsAlike_pure (node (Site.ofSpan span)) d

theorem runsAlike_unary (hin : AlikeBelow 1 n inner inner') (hc : c.rest.length ≤ n) :
    RunsAlike 1 (unary inner) (unary inner') c := by
  refine .withCursor ?_
  cases hop : c.peek?.bind unaryOp? with
  | none => exact runsAlike_fail _ 1 c
  | some op =>
    obtain ⟨t, ht, _⟩ := Option.bind_eq_some_iff.mp hop
    have hlt := rest_next_lt ht
    exact RunsAlike.read ht ((hin c.next (by omega)).weaken.andThen fun e d _ =>
      runsAlike_nodeFrom c.nextSpan (.unary · op e) d)

theorem runsAlike_unitAtom (c : Cursor) : RunsAlike 1 unitAtom unitAtom c := by
  refine (runsAlike_look _ c).before fun start d _ => ?_
  refine (runsAlike_require _ _ d).andThen fun _ d' _ => ?_
  exact (runsAlike_require _ _ d').weaken.andThen fun _ d'' _ => runsAlike_nodeFrom start _ d''

/-- The opening parenthesis stands here, so the expressions are read after it. -/
theorem runsAlike_parenthesized (hop : AlikeBelow 1 n operation operation')
    (hc : c.rest.length ≤ n) (hopen : c.nextIs .symbol "(" = true) :
    RunsAlike 1 (parenthesized operation) (parenthesized operation') c := by
  have hlt := rest_next_lt_of_nextIs hopen
  refine .enclosed (fun _ => .sepBy hop.weaken (by omega)) fun hmissing => ?_
  exact absurd (hopen.symm.trans hmissing) (by decide)

theorem runsAlike_tuple (hop : AlikeBelow 1 n operation operation') (hc : c.rest.length ≤ n) :
    RunsAlike 1 (tuple operation) (tuple operation') c := by
  refine .withCursor (.ite (fun hopen => ?_) fun _ => runsAlike_fail _ 1 c)
  exact ((runsAlike_parenthesized hop hc hopen).within _).andThen fun elements d _ =>
    runsAlike_nodeFrom c.nextSpan (.tuple · elements) d

/-- A statement of a block, after which `more` reads the others. -/
def statementsStep (inner : Parser Expr) (more : Parser (List Expr)) : Parser (List Expr) := do
  if ← accept .symbol "\x7d" then
    pure []
  else
    withCursor fun c =>
      if c.atEnd then
        fail ((ParseError.expectedToken "\x7d" none c.nextSpan).within "a block")
      else do
        let e ← inner.within "a block"
        let _ ← accept .symbol ";"
        let es ← more
        pure (e :: es)

theorem statements_succ (fuel : Nat) :
    statements inner (fuel + 1) = statementsStep inner (statements inner fuel) := rfl

theorem guards_statements (hin : AlikeBelow 1 m inner inner') :
    Guards 0 m (alone (statementsStep inner)) (alone (statementsStep inner')) := by
  intro X Y c hm hX _
  refine .acceptThen (l := 0) (Nat.zero_le _) (fun _ => runsAlike_pure _ c.next) fun _ => ?_
  refine .withCursor (.ite (fun _ => runsAlike_fail _ 0 c) fun _ => ?_)
  refine (((hin c hm).within _).andThen fun e d hd => ?_).weaken
  refine (runsAlike_accept _ _ d).andThen fun _ d' hd' => ?_
  exact (hX () d' (by omega)).andThen fun es d'' _ => runsAlike_pure (e :: es) d''

theorem runsAlike_statements (hin : AlikeBelow 1 m inner inner') (hc : c.rest.length < m) :
    RunsAlike 0 (withFuel (statements inner)) (withFuel (statements inner')) c :=
  (guards_statements hin).withFuel_alone statements_succ statements_succ hc

theorem runsAlike_block (hin : AlikeBelow 1 n inner inner') (hc : c.rest.length ≤ n) :
    RunsAlike 1 (block inner) (block inner') c := by
  refine (runsAlike_look _ c).before fun start d hd => ?_
  refine (runsAlike_require _ _ d).andThen fun _ d' hd' => ?_
  exact (runsAlike_statements hin (by omega)).andThen fun es d'' _ =>
    runsAlike_nodeFrom start (.block · es) d''

/-- An arm of a conditional, after which `more` reads the others. -/
def armsStep (inner : Parser Expr) (more : Parser (List Branch)) : Parser (List Branch) := do
  let condition ← inner.within "an if condition"
  let _ ← accept .keyword "then"
  let body ← inner.within "an if branch"
  if ← accept .keyword "else" then
    if ← accept .keyword "if" then
      let rest ← more
      pure (.guarded condition body :: rest)
    else
      let last ← inner.within "an else branch"
      pure [.guarded condition body, .always last]
  else
    pure [.guarded condition body]

theorem arms_succ (fuel : Nat) :
    arms inner (fuel + 1) = armsStep inner (arms inner fuel) := rfl

theorem guards_arms (hin : AlikeBelow 1 m inner inner') :
    Guards 0 m (alone (armsStep inner)) (alone (armsStep inner')) := by
  intro X Y c hm hX _
  refine (((hin c hm).within _).andThen fun condition d hd => ?_).weaken
  refine (runsAlike_accept _ _ d).andThen fun _ d₁ hd₁ => ?_
  refine (((hin d₁ (by omega)).within _).andThen fun body d₂ hd₂ => ?_).weaken
  refine .acceptThen (l := 0) (Nat.zero_le _) (fun helse => ?_) fun _ => runsAlike_pure _ d₂
  have hlt := rest_next_lt_of_nextIs helse
  refine .acceptThen (l := 0) (Nat.zero_le _) (fun hif => ?_) fun _ => ?_
  · have hlt' := rest_next_lt_of_nextIs hif
    exact (hX () _ (by omega)).andThen fun rest d₃ _ => runsAlike_pure _ d₃
  · exact (((hin d₂.next (by omega)).within _).andThen fun last d₃ _ => runsAlike_pure _ d₃).weaken

theorem runsAlike_conditional (hin : AlikeBelow 1 n inner inner') (hc : c.rest.length ≤ n) :
    RunsAlike 1 (conditional inner) (conditional inner') c := by
  refine (runsAlike_look _ c).before fun start d hd => ?_
  refine (runsAlike_require _ _ d).andThen fun _ d' hd' => ?_
  have harms : RunsAlike 0 (withFuel (arms inner)) (withFuel (arms inner')) d' :=
    (guards_arms hin).withFuel_alone arms_succ arms_succ (by omega)
  exact harms.andThen fun branches d'' _ => runsAlike_nodeFrom start (.ifChain · branches) d''

theorem runsAlike_loop (hin : AlikeBelow 1 n inner inner') (hc : c.rest.length ≤ n) :
    RunsAlike 1 (Grammar.loop inner) (Grammar.loop inner') c := by
  refine (runsAlike_look _ c).before fun start d hd => ?_
  refine (runsAlike_require _ _ d).andThen fun _ d' hd' => ?_
  exact ((hin d' (by omega)).within _).weaken.andThen fun body d'' _ =>
    runsAlike_nodeFrom start (.loop · body) d''

theorem runsAlike_atom (c : Cursor) : RunsAlike 1 Grammar.atom Grammar.atom c := by
  refine (runsAlike_look _ c).before fun start d _ => ?_
  exact (runsAlike_terminal d).andThen fun t d' _ => runsAlike_nodeFrom start (.atom · t) d'

theorem runsAlike_primary (hop : AlikeBelow 1 n operation operation')
    (hin : AlikeBelow 1 n inner inner') (hc : c.rest.length ≤ n) :
    RunsAlike 1 (primary operation inner) (primary operation' inner') c :=
  .oneOf (.cons (runsAlike_unary hin hc) <| .cons (runsAlike_unitAtom c) <|
    .cons (runsAlike_tuple hop hc) <| .cons (runsAlike_block hin hc) <|
    .cons (runsAlike_conditional hin hc) <| .cons (runsAlike_loop hin hc) <|
    .cons (runsAlike_atom c) .nil) noOperandError

theorem runsAlike_callArgs (hop : AlikeBelow 1 n operation operation') (hc : c.rest.length ≤ n)
    (hopen : c.nextIs .symbol "(" = true) :
    RunsAlike 1 (callArgs operation) (callArgs operation') c := by
  refine .withCursor (.ite (fun hclose => ?_) fun _ => runsAlike_parenthesized hop hc hopen)
  exact (runsAlike_readPair hopen hclose []).mono (Nat.le_succ 1)

/-- A call or member access after an expression, after which `more` reads the others. -/
def postfixesStep (operation : Parser Expr) (more : Expr → Parser Expr) (e : Expr) : Parser Expr :=
  withCursor fun c =>
    if c.nextIs .symbol "(" then do
      let args ← (callArgs operation).within "call arguments"
      let call ← nodeFrom e.span (.call · e args)
      more call
    else if c.nextIs .symbol "." && (c.peekAt? 1).any (fun t => t.kind == .identifier) then do
      let _ ← read
      let member ← requireIdentifier.within "a member access"
      let access ← nodeFrom e.span (.accessor · e member.text)
      more access
    else pure e

theorem postfixes_succ (fuel : Nat) :
    postfixes operation (fuel + 1) = postfixesStep operation (postfixes operation fuel) := rfl

theorem guards_postfixes (hop : AlikeBelow 1 m operation operation') :
    Guards 0 m (postfixesStep operation) (postfixesStep operation') := by
  intro X Y c hm hX e
  refine .withCursor (.ite (fun hopen => ?_) fun _ => .ite (fun hdot => ?_) fun _ => ?_)
  · have hargs := (runsAlike_callArgs hop (Nat.le_of_lt hm) hopen).within "call arguments"
    refine (hargs.andThen fun args d hd => ?_).weaken
    refine (runsAlike_nodeFrom e.span (.call · e args) d).andThen fun call d' hd' => ?_
    exact hX call d' (by omega)
  · rw [Bool.and_eq_true] at hdot
    obtain ⟨t, ht, _⟩ := nextIs_iff.mp hdot.1
    have hlt := rest_next_lt ht
    refine (RunsAlike.read (k := 0) ht ?_).weaken
    refine ((runsAlike_requireIdentifier c.next).within _).weaken.andThen fun member d hd => ?_
    refine (runsAlike_nodeFrom e.span (.accessor · e member.text) d).andThen
      fun access d' hd' => ?_
    exact hX access d' (by omega)
  · exact runsAlike_pure e c

theorem runsAlike_operandStep (hop : AlikeBelow 1 n operation operation')
    (hin : AlikeBelow 1 n inner inner') (hc : c.rest.length ≤ n) :
    RunsAlike 1 (operandStep operation inner) (operandStep operation' inner') c := by
  refine (runsAlike_primary hop hin hc).andThen fun e d hd => ?_
  exact (guards_postfixes hop).withFuel postfixes_succ postfixes_succ (by omega) e

/-! ## Operations -/

/-- An operator with its right operand, after which `more` reads those that follow. -/
def climbStep (operand : Parser Expr) (more : Nat × Expr → Parser Expr) :
    Nat × Expr → Parser Expr := fun (level, left) =>
  withCursor fun c =>
    match operatorAt? c level with
    | none => pure left
    | some op => do
      let _ ← read
      let first ← operand
      let right ← more (op.precedence + 1, first)
      more (level, binaryNode op left right)

theorem climb_succ (fuel : Nat) :
    (fun i : Nat × Expr => climb inner (fuel + 1) i.1 i.2) =
      climbStep inner fun i => climb inner fuel i.1 i.2 := rfl

theorem guards_climb (hin : AlikeBelow 1 m inner inner') :
    Guards 0 m (climbStep inner) (climbStep inner') := by
  intro X Y c hm hX ⟨level, left⟩
  refine .withCursor ?_
  cases hop : operatorAt? c level with
  | none => exact runsAlike_pure left c
  | some op =>
    obtain ⟨t, ht, _⟩ := operatorAt?_eq_some hop
    have hlt := rest_next_lt ht
    refine (RunsAlike.read (k := 0) ht ?_).weaken
    refine (hin c.next (by omega)).weaken.andThen fun first d hd => ?_
    refine (hX _ d (by omega)).andThen fun right d' hd' => ?_
    exact hX _ d' (by omega)

theorem alikeBelow_climbing (hin : AlikeBelow 1 m inner inner') :
    AlikeBelow 1 m (climbing inner) (climbing inner') := by
  intro c hc
  refine (hin c hc).andThen fun first d hd => ?_
  have hd' : d.rest.length < m := by omega
  exact (guards_climb hin).withFuel (r := fun n i => climb inner n i.1 i.2)
    (s := fun n i => climb inner' n i.1 i.2) climb_succ climb_succ hd' (0, first)

theorem guards_operandStep (m : Nat) :
    Guards 1 m (alone fun X => operandStep (climbing X) X)
      (alone fun X => operandStep (climbing X) X) := by
  intro X Y c _ hX _
  exact runsAlike_operandStep (alikeBelow_climbing (hX ())) (hX ()) (Nat.le_refl _)

theorem runsAlike_operand (c : Cursor) :
    RunsAlike 1 (operand climbing) (operand climbing) c :=
  (guards_operandStep _).withFuel_alone (operandAt_succ climbing) (operandAt_succ climbing)
    (Nat.lt_succ_self _)

theorem runsAlike_operation (c : Cursor) :
    RunsAlike 1 (Grammar.operation climbing) (Grammar.operation climbing) c :=
  alikeBelow_climbing (fun d _ => runsAlike_operand d) c (Nat.lt_succ_self _)

end Expressions

/-! ## Bindings -/

theorem runsAlike_parameter (c : Cursor) :
    RunsAlike 1 Grammar.parameter Grammar.parameter c := by
  refine (runsAlike_look _ c).before fun start d _ => ?_
  refine (runsAlike_requireIdentifier d).andThen fun name d₁ _ => ?_
  refine ((runsAlike_requireSymbol _ d₁).within _).weaken.andThen fun _ d₂ _ => ?_
  refine ((runsAlike_typeExpr d₂).within _).weaken.andThen fun type d₃ _ => ?_
  exact (runsAlike_look _ d₃).andThen fun span d₄ _ => runsAlike_pure _ d₄

theorem runsAlike_member (c : Cursor) : RunsAlike 1 Grammar.member Grammar.member c := by
  refine (runsAlike_look _ c).before fun start d _ => ?_
  refine (runsAlike_accept _ _ d).before fun isPublic d₁ _ => ?_
  refine (runsAlike_requireIdentifier d₁).andThen fun name d₂ _ => ?_
  refine ((runsAlike_requireSymbol _ d₂).within _).weaken.andThen fun _ d₃ _ => ?_
  refine ((runsAlike_typeExpr d₃).within _).weaken.andThen fun type d₄ _ => ?_
  exact (runsAlike_look _ d₄).andThen fun span d₅ _ => runsAlike_pure _ d₅

theorem runsAlike_variadicMark (bindings : List Parameter) (c : Cursor) :
    RunsAlike 0 (variadicMark bindings) (variadicMark bindings) c := by
  refine .withCursor (.ite (fun _ => ?_) fun _ => .ite (fun hmark => ?_) fun _ => ?_)
  · exact .ite (fun _ => runsAlike_fail _ 0 c) fun _ => runsAlike_pure _ c
  · rw [Bool.and_eq_true] at hmark
    exact (runsAlike_readPair hmark.1 hmark.2 _).weaken
  · exact runsAlike_pure _ c

/-- Series of bindings are read anywhere, also where the bracket before them is missing. -/
theorem runsAlike_sepBy {α : Type} {element : Parser α} (h : ∀ c, RunsAlike 1 element element c)
    (delimiter : String) (c : Cursor) :
    RunsAlike 0 (sepBy element .symbol delimiter) (sepBy element .symbol delimiter) c :=
  .sepBy (fun d _ => (h d).weaken) (Nat.lt_succ_self _)

theorem runsAlike_parameterList (c : Cursor) :
    RunsAlike 0 parameterList parameterList c := by
  have hparameters : ∀ d, RunsAlike 0 parameters parameters d := fun d =>
    (runsAlike_sepBy runsAlike_parameter "," d).andThen fun bindings d' _ =>
      runsAlike_variadicMark bindings d'
  refine .withCursor (.ite (fun hunit => ?_) fun _ => .ite (fun _ => ?_) fun _ => ?_)
  · rw [Bool.and_eq_true] at hunit
    exact (runsAlike_readPair hunit.1 hunit.2 _).weaken
  · exact ((RunsAlike.enclosed (fun _ => hparameters _) fun _ => hparameters c).within _).weaken
  · exact runsAlike_pure _ c

theorem runsAlike_returnType (c : Cursor) : RunsAlike 0 returnType returnType c :=
  .acceptThen (l := 1) (Nat.zero_le _) (fun _ => (runsAlike_typeExpr c.next).within _)
    fun _ => runsAlike_pure _ c

theorem runsAlike_functionBody (c : Cursor) :
    RunsAlike 0 (functionBody climbing) (functionBody climbing) c := by
  refine .acceptThen (l := 1) (Nat.zero_le _) (fun _ => ?_) fun _ => runsAlike_pure _ c
  exact ((runsAlike_operation c.next).within _).andThen fun body d _ => runsAlike_pure _ d

/-! ## Declarations -/

theorem runsAlike_function (c : Cursor) :
    RunsAlike 1 (Grammar.function climbing) (Grammar.function climbing) c := by
  refine (runsAlike_look _ c).before fun start d _ => ?_
  refine (runsAlike_accept _ _ d).before fun isExtern d₁ _ => ?_
  refine (runsAlike_require _ _ d₁).andThen fun _ d₂ _ => ?_
  refine ((runsAlike_requireIdentifier d₂).within _).weaken.andThen fun name d₃ _ => ?_
  refine (runsAlike_parameterList d₃).andThen fun params d₄ _ => ?_
  refine (runsAlike_returnType d₄).andThen fun returns d₅ _ => ?_
  refine (runsAlike_functionBody d₅).andThen fun body d₆ _ => ?_
  exact (runsAlike_look _ d₆).andThen fun span d₇ _ => runsAlike_pure _ d₇

theorem runsAlike_struct (c : Cursor) : RunsAlike 1 Grammar.struct Grammar.struct c := by
  refine (runsAlike_look _ c).before fun start d _ => ?_
  refine (runsAlike_require _ _ d).andThen fun _ d₁ _ => ?_
  refine ((runsAlike_requireIdentifier d₁).within _).weaken.andThen fun name d₂ _ => ?_
  have hmembers := runsAlike_sepBy runsAlike_member ";"
  refine ((RunsAlike.enclosed (fun _ => hmembers _) fun _ => hmembers d₂).within _).weaken.andThen
    fun members d₃ _ => ?_
  exact (runsAlike_look _ d₃).andThen fun span d₄ _ => runsAlike_pure _ d₄

theorem runsAlike_declaration (c : Cursor) :
    RunsAlike 1 (declaration climbing) (declaration climbing) c :=
  .oneOf (.cons ((runsAlike_function c).map _) <| .cons ((runsAlike_struct c).map _) .nil)
    noDeclarationError

/-- A declaration, or recovery from one that fails, after which `more` reads the others. -/
def declarationsStep (layer : OperatorLayer) (more : Cursor → ParsedModule × Cursor)
    (c : Cursor) : ParsedModule × Cursor :=
  if c.atEnd then (ParsedModule.empty, c)
  else
    match (declaration layer).run c with
    | (.ok d, c') =>
      let (p, stop) := more c'
      (p.consDeclaration d, stop)
    | (.error e, c') =>
      let (p, stop) := more (skipToDeclaration c')
      (p.consError e, stop)

theorem declarationsAux_succ (layer : OperatorLayer) (fuel : Nat) :
    declarationsAux layer (fuel + 1) = declarationsStep layer (declarationsAux layer fuel) := rfl

/-- What is read next depends on what is read from places where fewer tokens are left. -/
theorem declarationsStep_congr {more more' : Cursor → ParsedModule × Cursor}
    (h : ∀ d : Cursor, d.rest.length < c.rest.length → more d = more' d) :
    declarationsStep climbing more c = declarationsStep climbing more' c := by
  unfold declarationsStep
  by_cases hend : c.atEnd = true
  · rw [if_pos hend, if_pos hend]
  · rw [if_neg hend, if_neg hend]
    have hne : c.rest ≠ [] := fun hnil => hend (by rw [atEnd, hnil]; rfl)
    cases hrun : (declaration climbing).run c with
    | mk r c' =>
      cases r with
      | ok d =>
        dsimp only
        rw [h c' ((runsAlike_declaration c).takes d c' hrun)]
      | error e =>
        dsimp only
        rw [run_oneOf_error hrun, h _ (skipToDeclaration_lt hne)]

/-- Unrolled more often than tokens are left, the loop does not come to its innermost call. -/
theorem declarationsStep_iterate (innermost : Cursor → ParsedModule × Cursor) :
    ∀ n fuel (c : Cursor), c.rest.length < n → c.rest.length < fuel →
      (declarationsStep climbing)^[n] innermost c = declarationsAux climbing fuel c := by
  intro n
  induction n with
  | zero => exact fun fuel c hn => absurd hn (Nat.not_lt_zero _)
  | succ n ih =>
    intro fuel c hn hfuel
    cases fuel with
    | zero => exact absurd hfuel (Nat.not_lt_zero _)
    | succ fuel =>
      rw [Function.iterate_succ_apply', declarationsAux_succ]
      exact declarationsStep_congr fun d hd => ih fuel d (by omega) (by omega)

/-- What reading the declarations from a place comes to: the end of the tokens, with no more
declarations and errors than there were tokens. -/
structure DeclarationsEnd (c : Cursor) (r : ParsedModule × Cursor) : Prop where
  rest : r.2.rest = []
  tokens : r.2.tokens = c.tokens
  count : r.1.declarations.length + r.1.errors.length ≤ c.rest.length

theorem declarationsAux_ends :
    ∀ fuel (c : Cursor), c.rest.length < fuel →
      DeclarationsEnd c (declarationsAux climbing fuel c) := by
  intro fuel
  induction fuel with
  | zero => exact fun c hc => absurd hc (Nat.not_lt_zero _)
  | succ fuel ih =>
    intro c hc
    by_cases hne : c.rest = []
    · rw [declarationsAux_end hne]
      exact ⟨hne, rfl, Nat.zero_le _⟩
    cases hrun : (declaration climbing).run c with
    | mk r c' =>
      cases r with
      | ok d =>
        have hlt := (runsAlike_declaration c).takes d c' hrun
        have htokens := (runsAlike_declaration c).tokens
        rw [hrun] at htokens
        have hrest := ih c' (by omega)
        rw [declarationsAux_ok hne hrun]
        refine ⟨hrest.rest, hrest.tokens.trans htokens, ?_⟩
        have hcount := hrest.count
        simp only [ParsedModule.consDeclaration, List.length_cons]
        omega
      | error e =>
        have hlt := skipToDeclaration_lt hne
        have hrest := ih (skipToDeclaration c) (by omega)
        rw [declarationsAux_error hne hrun]
        refine ⟨hrest.rest, hrest.tokens.trans (tokens_skipToDeclaration c), ?_⟩
        have hcount := hrest.count
        simp only [ParsedModule.consError, List.length_cons]
        omega

/-! ## The grammar -/

/-- The recursions of the grammar end, each with its body: nested types, nested operands, the
operators after an operand, the calls and member accesses after an expression, the statements of a
block, the arms of a conditional, the further elements of each kind of series, and the loop over
the declarations. -/
structure RecursionsEnd : Prop where
  types : Settles (alone typeStep) fun _ => typeExpr
  operands : Settles (alone fun X => operandStep (climbing X) X) fun _ => operand climbing
  operators : Settles (climbStep (operand climbing)) fun i =>
    withFuel fun n => climb (operand climbing) n i.1 i.2
  postfixes : Settles (postfixesStep (Grammar.operation climbing)) fun e =>
    withFuel fun n => postfixes (Grammar.operation climbing) n e
  statements : Settles (alone (statementsStep (operand climbing))) fun _ =>
    withFuel (statements (operand climbing))
  arms : Settles (alone (armsStep (operand climbing))) fun _ => withFuel (arms (operand climbing))
  operations : Settles (alone (moreElementsStep (Grammar.operation climbing) .symbol ",")) fun _ =>
    withFuel (moreElements (Grammar.operation climbing) .symbol ",")
  parameters : Settles (alone (moreElementsStep Grammar.parameter .symbol ",")) fun _ =>
    withFuel (moreElements Grammar.parameter .symbol ",")
  members : Settles (alone (moreElementsStep Grammar.member .symbol ";")) fun _ =>
    withFuel (moreElements Grammar.member .symbol ";")
  declarations : declarationsStep climbing (declarations climbing) = declarations climbing ∧
    ∀ innermost n (c : Cursor), c.rest.length < n →
      (declarationsStep climbing)^[n] innermost c = declarations climbing c

theorem recursionsEnd : RecursionsEnd where
  types := .of_guards_alone guards_typeStep typeAt_succ
  operands := .of_guards_alone guards_operandStep (operandAt_succ climbing)
  operators := .of_guards (r := fun n i => climb (operand climbing) n i.1 i.2)
    (fun _ => guards_climb fun d _ => runsAlike_operand d) climb_succ
  postfixes := .of_guards (fun _ => guards_postfixes fun d _ => runsAlike_operation d) postfixes_succ
  statements := .of_guards_alone (fun _ => guards_statements fun d _ => runsAlike_operand d)
    statements_succ
  arms := .of_guards_alone (fun _ => guards_arms fun d _ => runsAlike_operand d) arms_succ
  operations := .of_guards_alone
    (fun _ => guards_moreElements fun d _ => (runsAlike_operation d).weaken) moreElements_succ
  parameters := .of_guards_alone
    (fun _ => guards_moreElements fun d _ => (runsAlike_parameter d).weaken) moreElements_succ
  members := .of_guards_alone
    (fun _ => guards_moreElements fun d _ => (runsAlike_member d).weaken) moreElements_succ
  declarations := by
    have hends : ∀ innermost n (c : Cursor), c.rest.length < n →
        (declarationsStep climbing)^[n] innermost c = declarations climbing c :=
      fun innermost n c hn => declarationsStep_iterate innermost n _ c hn (Nat.lt_succ_self _)
    refine ⟨funext fun c => ?_, hends⟩
    -- the step over `declarations` is the step over enough unrollings of it
    have hstep : ∀ d : Cursor, d.rest.length < c.rest.length →
        declarations climbing d = (declarationsStep climbing)^[c.rest.length]
          (declarations climbing) d := fun d hd => (hends _ _ d hd).symm
    rw [declarationsStep_congr hstep, ← Function.iterate_succ_apply' (declarationsStep climbing)]
    exact hends _ _ c (Nat.lt_succ_self _)

/-- The productions of the grammar progress, and a declaration that fails stays where it started. -/
structure ProductionsProgress : Prop where
  terminal : terminal.Progresses
  typeExpr : typeExpr.Progresses
  operand : (operand climbing).Progresses
  operation : (Grammar.operation climbing).Progresses
  parameter : Grammar.parameter.Progresses
  member : Grammar.member.Progresses
  function : (Grammar.function climbing).Progresses
  struct : Grammar.struct.Progresses
  declaration : (declaration climbing).Progresses
  stays : ∀ c e c', (Grammar.declaration climbing).run c = (.error e, c') → c' = c

theorem productionsProgress : ProductionsProgress where
  terminal := progresses_of_runsAlike runsAlike_terminal
  typeExpr := progresses_of_runsAlike runsAlike_typeExpr
  operand := progresses_of_runsAlike runsAlike_operand
  operation := progresses_of_runsAlike runsAlike_operation
  parameter := progresses_of_runsAlike runsAlike_parameter
  member := progresses_of_runsAlike runsAlike_member
  function := progresses_of_runsAlike runsAlike_function
  struct := progresses_of_runsAlike runsAlike_struct
  declaration := progresses_of_runsAlike runsAlike_declaration
  stays _ _ _ hrun := run_oneOf_error hrun

/-- **Parsing ends and makes progress**, whatever the tokens are and from every place in them. Each
recursion of the grammar ends, each production passes a token where it succeeds and does not go
back where it fails, and the declarations are read to the end of the tokens. -/
theorem parsing_terminates :
    RecursionsEnd ∧ ProductionsProgress ∧ ∀ c, DeclarationsEnd c (declarations climbing c) := by
  refine ⟨recursionsEnd, productionsProgress, fun c => ?_⟩
  exact declarationsAux_ends _ c (Nat.lt_succ_self _)

end FrontEnd
