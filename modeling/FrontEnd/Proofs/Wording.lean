import FrontEnd.Proofs.Printing

/-!
# No token is lost in an expression

What the tokens of an expression say, but for two tokens that may be left out, is what its tree
records; and the printed tree says the same again.

* `wording` is what tokens say: kind and text of each, value and type of a number and its suffix,
  and nothing for `then` and `;`. `essence` is the same of contents.
* `Reads.worded`: what a derivation takes is what its tree records, by induction on the derivation.
* `parseExpression_wording`: the text that is printed for an expression is lexed to tokens that say
  what those of its source say.
-/

set_option autoImplicit false

namespace FrontEnd

open Grammar FrontEnd.Parser

/-! ## What tokens say -/

/-- What a token of a kind says with its text. A `then` and a `;` say nothing: where they may stand
they may be left out. -/
def wordOf (kind : TokenKind) (text : String) : List Content :=
  if (kind = .keyword ∧ text = "then") ∨ (kind = .symbol ∧ text = ";") then []
  else [.plain kind text]

/-- What tokens say. A number says its value and the type that its suffix stands for, or the
default one. -/
def wording : List Token → List Content
  | [] => []
  | [t] => if t.kind = .number then [.integer t.value .defaultInteger] else wordOf t.kind t.text
  | t :: u :: ts =>
    if t.kind = .number then
      match suffixAt? ⟨[t], u :: ts⟩ with
      | some type => .integer t.value type :: wording ts
      | none => .integer t.value .defaultInteger :: wording (u :: ts)
    else wordOf t.kind t.text ++ wording (u :: ts)

/-- What a content says. -/
def Content.essence : Content → List Content
  | .integer bits type => [.integer bits type]
  | .boolean value => wordOf .boolean (if value then "true" else "false")
  | .plain kind text => wordOf kind text

/-- What contents say. -/
def essence (ws : List Content) : List Content := ws.flatMap Content.essence

@[simp] theorem essence_nil : essence [] = [] := rfl

@[simp] theorem essence_cons (w : Content) (ws : List Content) :
    essence (w :: ws) = w.essence ++ essence ws := by
  rw [essence, List.flatMap_cons]
  rfl

@[simp] theorem essence_append (ws vs : List Content) :
    essence (ws ++ vs) = essence ws ++ essence vs := by
  rw [essence, List.flatMap_append]
  rfl

theorem wordOf_symbol {s : String} (hs : s ≠ ";") : wordOf .symbol s = [.symbol s] := by
  simp [wordOf, hs]

theorem wordOf_keyword {s : String} (hs : s ≠ "then") : wordOf .keyword s = [.keyword s] := by
  simp [wordOf, hs]

theorem essence_unary (op : UnaryOp) :
    (Content.symbol op.symbol).essence = [.symbol op.symbol] := by
  cases op <;> rfl

theorem essence_binary (op : BinaryOp) :
    (Content.symbol op.symbol).essence = [.symbol op.symbol] := by
  cases op <;> rfl

theorem wording_number {t : Token} {ts : List Token} (hk : t.kind = .number)
    (hs : suffixAt? ⟨[t], ts⟩ = none) :
    wording (t :: ts) = .integer t.value .defaultInteger :: wording ts := by
  cases ts with
  | nil => simp [wording, hk]
  | cons u ts => rw [wording, if_pos hk, hs]

theorem wording_suffixed {t u : Token} {ts : List Token} {type : TypeExpr} (hk : t.kind = .number)
    (hs : suffixAt? ⟨[t], u :: ts⟩ = some type) :
    wording (t :: u :: ts) = .integer t.value type :: wording ts := by
  rw [wording, if_pos hk, hs]

theorem wording_cons {t : Token} (ts : List Token) (hk : t.kind ≠ .number) :
    wording (t :: ts) = wordOf t.kind t.text ++ wording ts := by
  cases ts with
  | nil => simp [wording, hk]
  | cons u ts => rw [wording, if_neg hk]

/-- Tokens of a source say what their contents say. -/
theorem Carries.wording {ts : List Token} {ws : List Content} (h : Carries ts ws) :
    (∀ t ∈ ts, t.Lexed) → wording ts = essence ws := by
  induction h with
  | nil => exact fun _ => rfl
  | integer hk hs _ ih =>
    intro hl
    rw [wording_number hk hs, ih (List.forall_mem_cons.mp hl).2, essence_cons]
    rfl
  | suffixed hk hs _ ih =>
    intro hl
    rw [wording_suffixed hk hs, ih (List.forall_mem_cons.mp (List.forall_mem_cons.mp hl).2).2,
      essence_cons]
    rfl
  | @boolean t ts ws hk _ ih =>
    intro hl
    obtain ⟨ht, hts⟩ := List.forall_mem_cons.mp hl
    rw [wording_cons ts (by simp [hk]), ih hts, essence_cons, Content.essence, hk, ht.boolean hk]
  | @plain t ts ws hn _ _ ih =>
    intro hl
    rw [wording_cons ts hn, ih (List.forall_mem_cons.mp hl).2, essence_cons, Content.essence]

/-! ## What a derivation takes -/

section

variable {c c' : Cursor}

theorem wording_next {t : Token} (ht : c.peek? = some t) (hk : t.kind ≠ .number) :
    wording c.rest = wordOf t.kind t.text ++ wording c.next.rest := by
  rw [Cursor.peek?_eq_some_iff.mp ht, wording_cons _ hk]

theorem wording_nextIs {kind : TokenKind} {text : String} (h : c.nextIs kind text = true)
    (hk : kind ≠ .number) : wording c.rest = wordOf kind text ++ wording c.next.rest := by
  obtain ⟨t, ht, rfl, rfl⟩ := Cursor.nextIs_iff.mp h
  exact wording_next ht hk

theorem wording_symbol {s : String} (h : c.nextIs .symbol s = true) (hs : s ≠ ";") :
    wording c.rest = .symbol s :: wording c.next.rest := by
  rw [wording_nextIs h (by decide), wordOf_symbol hs]
  rfl

theorem wording_keyword {s : String} (h : c.nextIs .keyword s = true) (hs : s ≠ "then") :
    wording c.rest = .keyword s :: wording c.next.rest := by
  rw [wording_nextIs h (by decide), wordOf_keyword hs]
  rfl

/-- A token that may be left out says nothing. -/
theorem wording_skipIf {kind : TokenKind} {text : String} (hw : wordOf kind text = [])
    (hk : kind ≠ .number) : wording (c.skipIf kind text).rest = wording c.rest := by
  cases hn : c.nextIs kind text with
  | true => rw [Cursor.skipIf_of hn, wording_nextIs hn hk, hw, List.nil_append]
  | false => rw [Cursor.skipIf_of_not hn]

theorem TerminalReads.worded {a : Terminal} (h : TerminalReads a c c') (hc : c.Lexed) :
    wording c.rest = essence a.contents ++ wording c'.rest := by
  cases h with
  | number ht hk hs =>
    obtain ⟨passed, rest⟩ := c
    cases rest with
    | nil => cases ht
    | cons t ts =>
      cases ht
      exact wording_number hk hs
  | suffixed ht hk hs =>
    obtain ⟨u, hu, _⟩ := suffixAt?_eq_some_iff.mp hs
    obtain ⟨passed, rest⟩ := c
    cases rest with
    | nil => cases ht
    | cons t ts =>
      cases ts with
      | nil => cases hu
      | cons u ts =>
        cases ht
        exact wording_suffixed hk hs
  | boolean ht hk =>
    rw [wording_next ht (by simp [hk]), hk, (hc.token ht).boolean hk]
    rfl
  | character ht hk hv =>
    obtain ⟨v, hx, _⟩ := (hc.token ht).char hk
    rw [hx, Char.toString_eq_singleton, String.toList_singleton] at hv
    cases hv
    rw [wording_next ht (by simp [hk]), hk, hx]
    rfl
  | string ht hk =>
    rw [wording_next ht (by simp [hk]), hk]
    rfl
  | identifier ht hk =>
    rw [wording_next ht (by simp [hk]), hk]
    rfl
  | unit ho hclose =>
    rw [wording_symbol ho (by decide), wording_symbol hclose (by decide)]
    rfl

end

/-- What a phrase takes is what it records. Where it goes on with a tree, the tokens of that tree
stand before it; the `if` before the first arm is recorded with the arm. -/
def Phrase.Worded : Phrase → Cursor → Cursor → Prop
  | .operand e, c, c' | .primary e, c, c' | .operation e, c, c' =>
    wording c.rest = essence e.contents ++ wording c'.rest
  | .postfixes first e, c, c' | .climb _ first e, c, c' =>
    essence first.contents ++ wording c.rest = essence e.contents ++ wording c'.rest
  | .elements es, c, c' =>
    wording c.rest = essence (Expr.seriesContents "," es) ++ wording c'.rest
  | .statements es, c, c' =>
    wording c.rest = essence (Expr.seriesContents ";" es) ++ .symbol "\x7d" :: wording c'.rest
  | .arms bs, c, c' =>
    .keyword "if" :: wording c.rest = essence (Expr.armsContents bs) ++ wording c'.rest

/-- Semicolons say nothing, wherever between statements they stand. -/
theorem essence_statements (es : List Expr) :
    essence (Expr.moreContents ";" es) = essence (Expr.seriesContents ";" es) := by
  cases es with
  | nil => rfl
  | cons e es =>
    rw [Expr.moreContents, Expr.seriesContents, List.cons_append, essence_cons]
    rfl

/-- **What a derivation takes from the tokens of a source is what its tree records.** -/
theorem Reads.worded {infixed : Bool} {p : Phrase} {c c' : Cursor} (h : Reads infixed p c c') :
    c.Lexed → p.Worded c c' := by
  induction h with
  | operand hp _ ihp ihx =>
    intro hc
    exact (ihp hc).trans (ihx (hc.after hp.reaches))
  | unary ht hop _ ih =>
    intro hc
    obtain ⟨hk, hx⟩ := unaryOp?_eq_some hop
    have he := ih hc.next
    simp only [Phrase.Worded, Expr.contents, essence_cons, essence_unary] at he ⊢
    rw [wording_next ht (by simp [hk]), he, hk, hx]
    exact congrArg (· ++ _) (essence_unary _)
  | atom ha => exact fun hc => ha.worded hc
  | tuple ho hes hclose ih =>
    intro hc
    have hin := ih hc.next
    simp only [Phrase.Worded, Expr.contents, List.cons_append, essence_cons, essence_append] at hin ⊢
    rw [wording_symbol ho (by decide), hin, wording_symbol hclose (by decide)]
    simp [Content.essence, wordOf]
  | block ho _ ih =>
    intro hc
    have hin := ih hc.next
    simp only [Phrase.Worded, Expr.contents, List.cons_append, essence_cons, essence_append] at hin ⊢
    rw [wording_symbol ho (by decide), hin]
    simp [Content.essence, wordOf]
  | ifChain ho _ ih =>
    intro hc
    have hin := ih hc.next
    simp only [Phrase.Worded, Expr.contents] at hin ⊢
    rw [wording_keyword ho (by decide), hin]
  | loop ho _ ih =>
    intro hc
    have hin := ih hc.next
    simp only [Phrase.Worded, Expr.contents, essence_cons] at hin ⊢
    rw [wording_keyword ho (by decide), hin]
    simp [Content.essence, wordOf]
  | postfixesDone _ => exact fun _ => rfl
  | emptyCall ho hclose _ ih =>
    intro hc
    have hrest := ih hc.next.next
    simp only [Phrase.Worded] at hrest ⊢
    rw [← hrest, wording_symbol ho (by decide), wording_symbol hclose (by decide)]
    simp [Expr.contents, Expr.seriesContents, Content.essence, wordOf]
  | call ho hes hclose _ ihes ih =>
    intro hc
    have hin := ihes hc.next
    have hrest := ih (hc.next.after hes.reaches).next
    simp only [Phrase.Worded] at hin hrest ⊢
    rw [← hrest, wording_symbol ho (by decide), hin, wording_symbol hclose (by decide)]
    simp [Expr.contents, Content.essence, wordOf]
  | access ho ht hk _ ih =>
    intro hc
    have hrest := ih hc.next.next
    simp only [Phrase.Worded] at hrest ⊢
    rw [← hrest, wording_symbol ho (by decide), wording_next ht (by simp [hk]), hk]
    simp [Expr.contents, Content.essence, wordOf]
  | operation hp _ ihp ihx =>
    intro hc
    exact (ihp hc).trans (ihx (hc.after hp.reaches))
  | climbDone _ => exact fun _ => rfl
  | climbStep _ hop hp hr _ ihp ihr ihx =>
    intro hc
    obtain ⟨t, ht, hk, hx, _⟩ := operatorAt?_eq_some hop
    have hc₁ := hc.next.after hp.reaches
    have hfirst := ihp hc.next
    have hright := ihr hc₁
    have hrest := ihx (hc₁.after hr.reaches)
    simp only [Phrase.Worded] at hfirst hright hrest ⊢
    have hop' : wordOf .symbol t.text = [.symbol t.text] := by
      rw [hx]
      exact essence_binary _
    rw [← hrest, wording_next ht (by simp [hk]), hk, hop', hfirst, hright]
    simp [binaryNode, Expr.contents, essence_binary, hx]
  | lastElement _ ih =>
    intro hc
    have he := ih hc
    simp only [Phrase.Worded, Expr.seriesContents, Expr.moreContents, List.append_nil] at he ⊢
    exact he
  | @element c c₁ c' e es he hd hes ih ihes =>
    intro hc
    have hfirst := ih hc
    have hrest := ihes (hc.after he.reaches).next
    cases es with
    | nil => cases hes
    | cons e₂ es =>
      simp only [Phrase.Worded] at hfirst hrest ⊢
      rw [hfirst, wording_symbol hd (by decide), hrest]
      simp [Expr.seriesContents, Expr.moreContents, Content.essence, wordOf]
  | noStatement hclose =>
    intro _
    exact wording_symbol hclose (by decide)
  | @statement c c₁ _ e es _ he _ ih ihes =>
    intro hc
    have hc₁ := (hc.after he.reaches).skipIf .symbol ";"
    have hfirst := ih hc
    have hrest := ihes hc₁
    simp only [Phrase.Worded] at hfirst hrest ⊢
    rw [wording_skipIf (by rfl) (by decide)] at hrest
    rw [hfirst, hrest, Expr.seriesContents, essence_append, essence_statements, List.append_assoc]
  | lastArm hcond _ _ ihc ihb =>
    intro hc
    have hc₁ := (hc.after hcond.reaches).skipIf .keyword "then"
    have hfirst := ihc hc
    have hbody := ihb hc₁
    simp only [Phrase.Worded] at hfirst hbody ⊢
    rw [wording_skipIf (by rfl) (by decide)] at hbody
    rw [hfirst, hbody]
    simp [Expr.armsContents, Expr.armContents, Expr.elseContents, Content.essence, wordOf]
  | elseArm hcond hb he _ _ ihc ihb ihl =>
    intro hc
    have hc₁ := (hc.after hcond.reaches).skipIf .keyword "then"
    have hfirst := ihc hc
    have hbody := ihb hc₁
    have hlast := ihl (hc₁.after hb.reaches).next
    simp only [Phrase.Worded] at hfirst hbody hlast ⊢
    rw [wording_skipIf (by rfl) (by decide)] at hbody
    rw [hfirst, hbody, wording_keyword he (by decide), hlast]
    simp [Expr.armsContents, Expr.armContents, Expr.elseContents, Content.essence, wordOf]
  | @elseIfArm _ _ _ _ _ _ bs hcond hb he hi hbs ihc ihb ihbs =>
    intro hc
    have hc₁ := (hc.after hcond.reaches).skipIf .keyword "then"
    have hfirst := ihc hc
    have hbody := ihb hc₁
    have hrest := ihbs (hc₁.after hb.reaches).next.next
    simp only [Phrase.Worded] at hfirst hbody hrest ⊢
    rw [wording_skipIf (by rfl) (by decide)] at hbody
    rw [hfirst, hbody, wording_keyword he (by decide), wording_keyword hi (by decide), hrest]
    cases bs with
    | nil => cases hbs
    | cons b bs =>
      simp [Expr.armsContents, Expr.armContents, Expr.elseContents, Content.essence, wordOf]

/-! ## Printing -/

/-- The text of a well-shaped expression with the words of a source is lexed to its contents. -/
theorem Expr.lex_toSource {e : Expr} (k : Nat) (hs : e.All WellShaped) (hl : e.All Expr.Lexed) :
    ∃ tokens, lex (e.toSource k) = .ok tokens ∧ Carries tokens e.contents := by
  have hwrites := (Expr.printed (k := k) hs hl).writes [] [] .nil 0 true
  rw [List.append_nil, List.append_nil] at hwrites
  apply lex_of_spells
  unfold Expr.toSource
  rw [run_toList]
  exact hwrites

/-- **No token of an expression is lost or invented**: its text is lexed to tokens that say what the
tokens of its source say. -/
theorem parseExpression_wording (k : Nat) {source : String} {tokens : List Token} {e : Expr}
    (hlex : lex source = .ok tokens) (hparse : parseExpression tokens = .ok e) :
    ∃ tokens', lex (e.toSource k) = .ok tokens' ∧ wording tokens' = wording tokens := by
  obtain ⟨c', hrun, hend⟩ := parse_complete_eq_ok.mp hparse
  have hreads : Reads true (.operation e) (Cursor.ofTokens tokens) c' :=
    operation_run_iff.mp hrun
  have hsource : (Cursor.ofTokens tokens).Lexed := lex_lexed hlex
  have hworded : wording tokens = essence e.contents ++ wording c'.rest := hreads.worded hsource
  obtain ⟨tokens', hlex', hc⟩ := e.lex_toSource k hreads.shaped (hreads.lexed hsource)
  refine ⟨tokens', hlex', ?_⟩
  rw [hworded, hend, hc.wording (lex_lexed hlex'), wording, List.append_nil]

/-- A conditional without `then`, a number with a suffix, and one whose neighbour is none. -/
theorem parseExpression_wording_conditional :
    ∃ tokens tokens' e,
      lex "if a \x7b f(0x10uint8, - 1); \x7d else b" = .ok tokens ∧
      parseExpression tokens = .ok e ∧ lex (e.toSource 2) = .ok tokens' ∧
      wording tokens' = wording tokens := by
  obtain ⟨tokens, e, hlex, hparse⟩ : ∃ tokens e,
      lex "if a \x7b f(0x10uint8, - 1); \x7d else b" = .ok tokens ∧
      parseExpression tokens = .ok e := ⟨_, _, rfl, rfl⟩
  obtain ⟨tokens', hlex', hsame⟩ := parseExpression_wording 2 hlex hparse
  exact ⟨tokens, tokens', e, hlex, hparse, hlex', hsame⟩

end FrontEnd
