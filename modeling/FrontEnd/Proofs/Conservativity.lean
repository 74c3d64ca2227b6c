import FrontEnd.Proofs.Recovery
import FrontEnd.Token.Lexer

/-!
# Infix operators extend the base grammar conservatively

The base grammar reads operands wherever operations are read, so it has no infix operators. Reading
them changes nothing of an input that the base grammar accepts.

* `Reads.widen`: a derivation without infix operators is one with them, if no operator stands after
  an operation. In brackets a comma or the closing bracket stands there, so the induction goes
  through every element of a list.
* `declarationsAux_widen`: after a function body of a module without errors the next declaration
  starts, or the module ends.
* `parseModule_conservative` is the statement for modules and for whole expressions.
-/

set_option autoImplicit false

namespace FrontEnd

open Grammar FrontEnd.Parser

/-! ## The base grammar -/

/-- The module in a list of tokens, without infix operators. -/
def Grammar.baseModule (tokens : List Token) : ParsedModule :=
  (declarations bareOperands (Cursor.ofTokens tokens)).1

/-- The expression that a list of tokens is, without infix operators. -/
def Grammar.baseExpression (tokens : List Token) : Except ParseError Expr :=
  (complete (operation bareOperands)).parse tokens

/-! ## Where no operator stands -/

section

variable {c c' : Cursor}

theorem operatorAt?_of_rest_nil (h : c.rest = []) (level : Nat) : operatorAt? c level = none := by
  unfold operatorAt? Cursor.peek?
  rw [h]
  rfl

/-- A token that is no operator stands here. -/
theorem operatorAt?_of_nextIs {kind : TokenKind} {text : String} (h : c.nextIs kind text = true)
    (hno : kind ≠ .symbol ∨ BinaryOp.ofSymbol? text = none) (level : Nat) :
    operatorAt? c level = none := by
  cases hop : operatorAt? c level with
  | none => rfl
  | some op =>
    obtain ⟨t, ht, hk, hx, _⟩ := operatorAt?_eq_some hop
    obtain ⟨u, hu, rfl, rfl⟩ := Cursor.nextIs_iff.mp h
    rw [ht] at hu
    cases hu
    rcases hno with hno | hno
    · exact absurd hk hno
    · rw [hx, BinaryOp.ofSymbol?_symbol] at hno
      cases hno

/-- Where no operator of any level stands there is none from a level on. -/
theorem operatorAt?_of_zero (h : operatorAt? c 0 = none) (level : Nat) :
    operatorAt? c level = none := by
  unfold operatorAt? at h ⊢
  rw [Option.filter_eq_none_iff] at h ⊢
  intro op hop
  exact absurd (decide_eq_true (Nat.zero_le op.precedence)) (h op hop)

end

/-! ## Expressions -/

/-- No operator stands after the phrase, if it is one that would go on with it. -/
def Phrase.StopsAt : Phrase → Cursor → Prop
  | .operation _, c | .climb _ _ _, c | .elements _, c => operatorAt? c 0 = none
  | _, _ => True

/-- **A derivation of the base grammar is one with infix operators**, where none of them follows. -/
theorem Reads.widen {p : Phrase} {c c' : Cursor} (h : Reads false p c c') :
    p.StopsAt c' → Reads true p c c' := by
  induction h with
  | operand _ _ ihp ihx => exact fun _ => .operand (ihp trivial) (ihx trivial)
  | unary ht hop _ ih => exact fun _ => .unary ht hop (ih trivial)
  | atom ha => exact fun _ => .atom ha
  | tuple ho _ hc ih =>
    have hstop := operatorAt?_of_nextIs hc (.inr rfl) 0
    exact fun _ => .tuple ho (ih hstop) hc
  | block ho _ ih => exact fun _ => .block ho (ih trivial)
  | ifChain ho _ ih => exact fun _ => .ifChain ho (ih trivial)
  | loop ho _ ih => exact fun _ => .loop ho (ih trivial)
  | postfixesDone hn => exact fun _ => .postfixesDone hn
  | emptyCall ho hc _ ih => exact fun _ => .emptyCall ho hc (ih trivial)
  | call ho _ hc _ ihes ih =>
    have hstop := operatorAt?_of_nextIs hc (.inr rfl) 0
    exact fun _ => .call ho (ihes hstop) hc (ih trivial)
  | access ho ht hk _ ih => exact fun _ => .access ho ht hk (ih trivial)
  | operation _ _ ihp ihx => exact fun hstop => .operation (ihp trivial) (ihx hstop)
  | climbDone _ => exact fun hstop => .climbDone fun _ => operatorAt?_of_zero hstop _
  | climbStep hi _ _ _ _ _ _ _ => cases hi
  | lastElement _ ih => exact fun hstop => .lastElement (ih hstop)
  | element _ hd _ ih ihes =>
    have hcomma := operatorAt?_of_nextIs hd (.inr rfl) 0
    exact fun hstop => .element (ih hcomma) hd (ihes hstop)
  | noStatement hc => exact fun _ => .noStatement hc
  | statement hn _ _ ih ihes => exact fun _ => .statement hn (ih trivial) (ihes trivial)
  | lastArm _ _ hn ihc ihb => exact fun _ => .lastArm (ihc trivial) (ihb trivial) hn
  | elseArm _ _ he hn _ ihc ihb ihl =>
    exact fun _ => .elseArm (ihc trivial) (ihb trivial) he hn (ihl trivial)
  | elseIfArm _ _ he hi _ ihc ihb ihbs =>
    exact fun _ => .elseIfArm (ihc trivial) (ihb trivial) he hi (ihbs trivial)

/-! ## Declarations -/

theorem BodyReads.widen {body : Option Expr} {c c' : Cursor} (h : BodyReads false body c c')
    (hno : operatorAt? c' 0 = none) : BodyReads true body c c' := by
  cases h with
  | written ho he => exact .written ho (he.widen hno)
  | omitted hn => exact .omitted hn

theorem DeclarationReads.widen {d : Declaration} {c c' : Cursor}
    (h : DeclarationReads false d c c') (hno : operatorAt? c' 0 = none) :
    DeclarationReads true d c c' := by
  cases h with
  | function h =>
    cases h with
    | mk hhead hf ht hk hp hr hb => exact .function (.mk hhead hf ht hk hp hr (hb.widen hno))
  | struct h => exact .struct h

/-- A declaration starts with a keyword, so with no operator. -/
theorem DeclarationReads.noOperator {infixed : Bool} {d : Declaration} {c c' : Cursor}
    (h : DeclarationReads infixed d c c') : operatorAt? c 0 = none := by
  have hkeyword : ∀ s, c.nextIs .keyword s = true → operatorAt? c 0 = none :=
    fun s hs => operatorAt?_of_nextIs hs (.inl (by decide)) 0
  rcases h.passes.1 with hf | hs
  · cases hx : c.nextIs .keyword "extern" with
    | true => exact hkeyword _ hx
    | false =>
      rw [Cursor.skipIf_of_not hx] at hf
      exact hkeyword _ hf
  · exact hkeyword _ hs

/-- From where a module is read without an error there is no operator first: a declaration starts
there, or nothing is left. -/
theorem declarationsAux_noOperator {infixed : Bool} {fuel : Nat} {c : Cursor}
    (hf : c.rest.length < fuel)
    (h : (declarationsAux (layerOf infixed) fuel c).1.errors = []) : operatorAt? c 0 = none := by
  by_cases hne : c.rest = []
  · exact operatorAt?_of_rest_nil hne 0
  cases fuel with
  | zero => omega
  | succ fuel =>
    cases hrun : (declaration (layerOf infixed)).run c with
    | mk r c' =>
      cases r with
      | ok d => exact (declaration_run_iff.mp hrun).noOperator
      | error e =>
        rw [declarationsAux_error hne hrun] at h
        cases h

/-- What the base grammar reads without an error is read alike with infix operators. -/
theorem declarationsAux_widen :
    ∀ (fuel : Nat) (c : Cursor), c.rest.length < fuel →
      (declarationsAux (layerOf false) fuel c).1.errors = [] →
      declarationsAux (layerOf true) fuel c = declarationsAux (layerOf false) fuel c := by
  intro fuel
  induction fuel with
  | zero => intro c hf; omega
  | succ fuel ih =>
    intro c hf herrors
    by_cases hne : c.rest = []
    · rw [declarationsAux_end hne, declarationsAux_end hne]
    cases hrun : (declaration (layerOf false)).run c with
    | mk r c' =>
      cases r with
      | error e =>
        rw [declarationsAux_error hne hrun] at herrors
        cases herrors
      | ok d =>
        have hreads := declaration_run_iff.mp hrun
        have hlt := hreads.progress
        rw [declarationsAux_ok hne hrun] at herrors ⊢
        have hno := declarationsAux_noOperator (by omega) herrors
        have hrun' := declaration_run_iff.mpr (hreads.widen hno)
        rw [declarationsAux_ok hne hrun', ih c' (by omega) herrors]

/-- **Reading infix operators changes nothing of what the base grammar accepts**: not the module,
spans included, that it reads without an error, and not the expression that it reads of a whole
input. -/
theorem parseModule_conservative (tokens : List Token) :
    ((baseModule tokens).errors = [] → parseModule tokens = baseModule tokens) ∧
      ∀ e, baseExpression tokens = .ok e → parseExpression tokens = .ok e := by
  constructor
  · intro herrors
    exact congrArg Prod.fst (declarationsAux_widen _ _ (Nat.lt_succ_self _) herrors)
  · intro e he
    obtain ⟨c', hrun, hend⟩ := parse_complete_eq_ok.mp he
    have hreads : Reads false (.operation e) (Cursor.ofTokens tokens) c' :=
      operation_run_iff.mp hrun
    have hno := operatorAt?_of_rest_nil hend 0
    have hrun' : (operation (layerOf true)).run (Cursor.ofTokens tokens) = (.ok e, c') :=
      operation_run_iff.mpr (hreads.widen hno)
    exact parse_complete_eq_ok.mpr ⟨c', hrun', hend⟩

theorem parseModule_conservative_tuple :
    ∃ tokens tokens' e, lex "fn f = g((a, - 1)) extern fn h" = .ok tokens ∧
      (baseModule tokens).errors = [] ∧ parseModule tokens = baseModule tokens ∧
      lex "loop f(- a)" = .ok tokens' ∧ baseExpression tokens' = .ok e ∧
      parseExpression tokens' = .ok e := by
  obtain ⟨tokens, hlex, herrors⟩ : ∃ tokens, lex "fn f = g((a, - 1)) extern fn h" = .ok tokens ∧
      (baseModule tokens).errors = [] := ⟨_, rfl, rfl⟩
  obtain ⟨tokens', e, hlex', he⟩ : ∃ tokens' e, lex "loop f(- a)" = .ok tokens' ∧
      baseExpression tokens' = .ok e := ⟨_, _, rfl, rfl⟩
  exact ⟨tokens, tokens', e, hlex, herrors, (parseModule_conservative tokens).1 herrors, hlex', he,
    (parseModule_conservative tokens').2 e he⟩

end FrontEnd
