import FrontEnd.Proofs.Declarations

/-!
# Which tokens a declaration takes

No production takes a keyword that starts a declaration, except for the head of a declaration
itself. So a declaration never reaches beyond the next such keyword.

* `Cursor.Reaches`: the tokens between two places start no declaration.
* `Reads.reaches`, `TypeReads.reaches` say so of expressions and types.
* `DeclarationReads.tokens`: a declaration takes its head, and then only such tokens.
* `mem_declarationsAux`: what is read as a module is declarations that stand in it.
-/

set_option autoImplicit false

namespace FrontEnd

open Grammar FrontEnd.Parser

theorem startsDeclaration_of_kind {t : Token} (h : t.kind ≠ .keyword) :
    startsDeclaration t = false := by
  simp [startsDeclaration, h]

theorem startsDeclaration_of_text {t : Token}
    (h : ["fn", "extern", "struct"].contains t.text = false) : startsDeclaration t = false := by
  rw [startsDeclaration, h, Bool.and_false]

namespace Cursor

/-- From the first place the tokens up to the second are passed, and none of them starts a
declaration. -/
def Reaches (c c' : Cursor) : Prop :=
  ∃ ts, c.rest = ts ++ c'.rest ∧ c'.passed = ts.reverse ++ c.passed ∧
    ∀ t ∈ ts, startsDeclaration t = false

theorem Reaches.refl (c : Cursor) : c.Reaches c := ⟨[], rfl, rfl, by simp⟩

theorem Reaches.trans {c c₁ c' : Cursor} (h : c.Reaches c₁) (h' : c₁.Reaches c') :
    c.Reaches c' := by
  obtain ⟨ts, hr, hp, ht⟩ := h
  obtain ⟨us, hr', hp', hu⟩ := h'
  refine ⟨ts ++ us, ?_, ?_, ?_⟩
  · rw [hr, hr', List.append_assoc]
  · rw [hp', hp, List.reverse_append, List.append_assoc]
  · intro t hmem
    rcases List.mem_append.mp hmem with hmem | hmem
    · exact ht t hmem
    · exact hu t hmem

theorem Reaches.next {c : Cursor} {t : Token} (h : c.peek? = some t)
    (ht : startsDeclaration t = false) : c.Reaches c.next :=
  ⟨[t], peek?_eq_some_iff.mp h, passed_next h, by simp [ht]⟩

theorem Reaches.nextOfKind {c : Cursor} {t : Token} (h : c.peek? = some t)
    (hk : t.kind ≠ .keyword) : c.Reaches c.next :=
  .next h (startsDeclaration_of_kind hk)

theorem Reaches.symbol {c : Cursor} {s : String} (h : c.nextIs .symbol s = true) :
    c.Reaches c.next := by
  obtain ⟨t, ht, hk, _⟩ := nextIs_iff.mp h
  exact .nextOfKind ht (by simp [hk])

theorem Reaches.keyword {c : Cursor} {s : String} (h : c.nextIs .keyword s = true)
    (hs : ["fn", "extern", "struct"].contains s = false) : c.Reaches c.next := by
  obtain ⟨t, ht, _, rfl⟩ := nextIs_iff.mp h
  exact .next ht (startsDeclaration_of_text hs)

theorem Reaches.skipSymbol (c : Cursor) (s : String) : c.Reaches (c.skipIf .symbol s) := by
  cases h : c.nextIs .symbol s with
  | true => rw [skipIf_of h]; exact .symbol h
  | false => rw [skipIf_of_not h]; exact .refl c

theorem Reaches.skipKeyword (c : Cursor) {s : String}
    (hs : ["fn", "extern", "struct"].contains s = false) : c.Reaches (c.skipIf .keyword s) := by
  cases h : c.nextIs .keyword s with
  | true => rw [skipIf_of h]; exact .keyword h hs
  | false => rw [skipIf_of_not h]; exact .refl c

theorem Reaches.mem {c c' : Cursor} (h : c.Reaches c') {t : Token} (ht : t ∈ c'.rest) :
    t ∈ c.rest := by
  obtain ⟨ts, hr, _⟩ := h
  rw [hr]
  exact List.mem_append_right ts ht

end Cursor

open Cursor

/-! ## Types and expressions -/

theorem TerminalReads.reaches {a : Terminal} {c c' : Cursor} (h : TerminalReads a c c') :
    c.Reaches c' := by
  cases h with
  | number ht hk _ => exact .nextOfKind ht (by simp [hk])
  | suffixed ht hk hs =>
    obtain ⟨u, hu, hku, _⟩ := suffixAt?_eq_some_iff.mp hs
    exact (Reaches.nextOfKind ht (by simp [hk])).trans (.nextOfKind hu (by simp [hku]))
  | boolean ht hk => exact .nextOfKind ht (by simp [hk])
  | character ht hk _ => exact .nextOfKind ht (by simp [hk])
  | string ht hk => exact .nextOfKind ht (by simp [hk])
  | identifier ht hk => exact .nextOfKind ht (by simp [hk])
  | unit ho hc => exact (Reaches.symbol ho).trans (.symbol hc)

theorem TypeReads.reaches {e : TypeExpr} {c c' : Cursor} (h : TypeReads e c c') :
    c.Reaches c' := by
  induction h with
  | word ht hk => exact .nextOfKind ht (by simp [hk])
  | unit ho hc => exact (Reaches.symbol ho).trans (.symbol hc)
  | slice ho _ hc ih => exact ((Reaches.symbol ho).trans ih).trans (.symbol hc)
  | array ho _ hd ha _ hc ih =>
    have hhead := (Reaches.symbol ho).trans ih
    have htail := ((Reaches.symbol hd).trans ha.reaches).trans (.symbol hc)
    exact hhead.trans htail
  | ref ho _ ih => exact (Reaches.symbol ho).trans ih
  | refRef ho _ ih => exact (Reaches.symbol ho).trans ih
  | pointer ho _ ih => exact (Reaches.symbol ho).trans ih

/-- **An expression takes no keyword that starts a declaration.** -/
theorem Reads.reaches {infixed : Bool} {p : Phrase} {c c' : Cursor} (h : Reads infixed p c c') :
    c.Reaches c' := by
  induction h with
  | operand _ _ ihp ihx => exact ihp.trans ihx
  | unary ht hop _ ih =>
    obtain ⟨hk, _⟩ := unaryOp?_eq_some hop
    exact (Reaches.nextOfKind ht (by simp [hk])).trans ih
  | atom ha => exact ha.reaches
  | tuple ho _ hc ih => exact ((Reaches.symbol ho).trans ih).trans (.symbol hc)
  | block ho _ ih => exact (Reaches.symbol ho).trans ih
  | ifChain ho _ ih => exact (Reaches.keyword ho (by decide)).trans ih
  | loop ho _ ih => exact (Reaches.keyword ho (by decide)).trans ih
  | postfixesDone _ => exact .refl _
  | emptyCall ho hc _ ih => exact ((Reaches.symbol ho).trans (.symbol hc)).trans ih
  | call ho _ hc _ ihes ih =>
    exact (((Reaches.symbol ho).trans ihes).trans (.symbol hc)).trans ih
  | access ho ht hk _ ih =>
    exact ((Reaches.symbol ho).trans (.nextOfKind ht (by simp [hk]))).trans ih
  | operation _ _ ihp ihx => exact ihp.trans ihx
  | climbDone _ => exact .refl _
  | climbStep _ hop _ _ _ ihp ihr ihx =>
    obtain ⟨t, ht, hk, _⟩ := operatorAt?_eq_some hop
    exact (((Reaches.nextOfKind ht (by simp [hk])).trans ihp).trans ihr).trans ihx
  | lastElement _ ih => exact ih
  | element _ hd _ ih ihes => exact (ih.trans (.symbol hd)).trans ihes
  | noStatement hc => exact .symbol hc
  | statement _ _ _ ih ihes => exact (ih.trans (.skipSymbol _ _)).trans ihes
  | lastArm _ _ _ ihc ihb => exact (ihc.trans (.skipKeyword _ (by decide))).trans ihb
  | elseArm _ _ he _ _ ihc ihb ihl =>
    have hbody := (ihc.trans (.skipKeyword _ (by decide))).trans ihb
    exact (hbody.trans (.keyword he (by decide))).trans ihl
  | elseIfArm _ _ he hi _ ihc ihb ihbs =>
    have hbody := (ihc.trans (.skipKeyword _ (by decide))).trans ihb
    exact ((hbody.trans (.keyword he (by decide))).trans (.keyword hi (by decide))).trans ihbs

/-! ## Declarations -/

theorem Parser.SeriesReads.reaches {α : Type} {R : α → Cursor → Cursor → Prop} {s : String}
    (hR : ∀ a c c', R a c c' → c.Reaches c') {c c' : Cursor} {as : List α}
    (h : SeriesReads R .symbol s as c c') : c.Reaches c' := by
  induction h with
  | last ha => exact hR _ _ _ ha
  | more ha hd _ ih => exact ((hR _ _ _ ha).trans (.symbol hd)).trans ih

theorem BindingReads.reaches {name : String} {type : TypeExpr} {c c' : Cursor}
    (h : BindingReads name type c c') : c.Reaches c' := by
  obtain ⟨⟨t, ht, hk, _⟩, hcolon, htype⟩ := h
  exact ((Reaches.nextOfKind ht (by simp [hk])).trans (.symbol hcolon)).trans htype.reaches

theorem ParameterReads.reaches {p : Parameter} {c c' : Cursor} (h : ParameterReads p c c') :
    c.Reaches c' := by
  cases h with
  | mk h => exact h.reaches

theorem MemberReads.reaches {m : Member} {c c' : Cursor} (h : MemberReads m c c') :
    c.Reaches c' := by
  cases h with
  | mk h => exact (Reaches.skipKeyword c (by decide)).trans h.reaches

theorem ParameterListReads.reaches {ps : Parameters} {c c' : Cursor}
    (h : ParameterListReads ps c c') : c.Reaches c' := by
  cases h with
  | empty ho hc => exact (Reaches.symbol ho).trans (.symbol hc)
  | fixed ho hps hc =>
    have hseries := hps.reaches (fun _ _ _ h => h.reaches)
    exact ((Reaches.symbol ho).trans hseries).trans (.symbol hc)
  | variadic ho hps hd he hc =>
    have hseries := hps.reaches (fun _ _ _ h => h.reaches)
    have hmark := ((Reaches.symbol hd).trans (.symbol he)).trans (.symbol hc)
    exact ((Reaches.symbol ho).trans hseries).trans hmark
  | omitted _ => exact .refl c

theorem ReturnReads.reaches {type : TypeExpr} {c c' : Cursor} (h : ReturnReads type c c') :
    c.Reaches c' := by
  cases h with
  | written ho ht => exact (Reaches.symbol ho).trans ht.reaches
  | omitted _ => exact .refl c

theorem BodyReads.reaches {infixed : Bool} {body : Option Expr} {c c' : Cursor}
    (h : BodyReads infixed body c c') : c.Reaches c' := by
  cases h with
  | written ho he => exact (Reaches.symbol ho).trans he.reaches
  | omitted _ => exact .refl c

/-- The place after the keywords that a declaration starts with. -/
def Cursor.afterHead (c : Cursor) : Cursor := (c.skipIf .keyword "extern").next

/-- A declaration starts with `fn`, `extern fn` or `struct` and takes no such keyword after that. -/
theorem DeclarationReads.passes {infixed : Bool} {d : Declaration} {c c' : Cursor}
    (h : DeclarationReads infixed d c c') :
    ((c.skipIf .keyword "extern").nextIs .keyword "fn" = true ∨
        c.nextIs .keyword "struct" = true) ∧
      c.afterHead.Reaches c' := by
  cases h with
  | function h =>
    cases h with
    | mk hhead hf ht hk hp hr hb =>
      subst hhead
      have hname := Reaches.nextOfKind ht (by simp [hk])
      exact ⟨.inl hf, ((hname.trans hp.reaches).trans hr.reaches).trans hb.reaches⟩
  | struct h =>
    cases h with
    | mk hs ht hk ho hm hc =>
      have hno : c.nextIs .keyword "extern" = false :=
        Cursor.nextIs_disjoint hs (.inr (by decide))
      refine ⟨.inr hs, ?_⟩
      unfold Cursor.afterHead
      rw [Cursor.skipIf_of_not hno]
      have hname := (Reaches.nextOfKind ht (by simp [hk])).trans (.symbol ho)
      rcases hm with ⟨_, rfl⟩ | hm
      · exact hname.trans (.symbol hc)
      · have hseries := hm.reaches (fun _ _ _ h => h.reaches)
        exact (hname.trans hseries).trans (.symbol hc)

/-- The tokens that a declaration takes: one or two of its head, and then such as start none. -/
theorem DeclarationReads.tokens {infixed : Bool} {d : Declaration} {c c' : Cursor}
    (h : DeclarationReads infixed d c c') :
    ∃ t head ts, c.rest = t :: (head ++ ts) ++ c'.rest ∧
      c'.passed = (t :: (head ++ ts)).reverse ++ c.passed ∧
      (head = [] ∨ ∃ f, head = [f] ∧ t.is .keyword "extern" = true ∧
        f.is .keyword "fn" = true) ∧
      ∀ u ∈ ts, startsDeclaration u = false := by
  obtain ⟨hhead, us, hr, hp, hus⟩ := h.passes
  unfold Cursor.afterHead at hr hp
  cases hx : c.nextIs .keyword "extern" with
  | false =>
    rw [Cursor.skipIf_of_not hx] at hhead hr hp
    have hpeek : ∃ t, c.peek? = some t := by
      rcases hhead with hf | hs
      · obtain ⟨t, ht, _⟩ := Cursor.nextIs_iff.mp hf
        exact ⟨t, ht⟩
      · obtain ⟨t, ht, _⟩ := Cursor.nextIs_iff.mp hs
        exact ⟨t, ht⟩
    obtain ⟨t, ht⟩ := hpeek
    refine ⟨t, [], us, ?_, ?_, .inl rfl, hus⟩
    · rw [Cursor.peek?_eq_some_iff.mp ht, hr, List.nil_append, List.cons_append]
    · rw [hp, Cursor.passed_next ht, List.nil_append, List.reverse_cons, List.append_assoc,
        List.singleton_append]
  | true =>
    rw [Cursor.skipIf_of hx] at hhead hr hp
    have hf : c.next.nextIs .keyword "fn" = true := by
      rcases hhead with hf | hs
      · exact hf
      · rw [Cursor.nextIs_disjoint hx (.inr (by decide))] at hs
        cases hs
    obtain ⟨t, ht, hk, hxt⟩ := Cursor.nextIs_iff.mp hx
    obtain ⟨f, hu, hku, hxu⟩ := Cursor.nextIs_iff.mp hf
    refine ⟨t, [f], us, ?_, ?_, .inr ⟨f, rfl, ?_, ?_⟩, hus⟩
    · rw [Cursor.peek?_eq_some_iff.mp ht, Cursor.peek?_eq_some_iff.mp hu, hr]
      rfl
    · rw [hp, Cursor.passed_next hu, Cursor.passed_next ht]
      simp
    · exact Token.is_iff.mpr ⟨hk, hxt⟩
    · exact Token.is_iff.mpr ⟨hku, hxu⟩

theorem DeclarationReads.progress {infixed : Bool} {d : Declaration} {c c' : Cursor}
    (h : DeclarationReads infixed d c c') : c'.rest.length < c.rest.length := by
  obtain ⟨t, head, ts, hr, _⟩ := h.tokens
  rw [hr, List.length_append, List.length_cons]
  omega

/-! ## Modules -/

theorem skipFrom_suffix (passed ts : List Token) : (skipFrom passed ts).rest <:+ ts := by
  induction ts generalizing passed with
  | nil => exact List.suffix_refl []
  | cons t ts ih =>
    unfold skipFrom
    split
    · exact List.suffix_refl _
    · exact (ih (t :: passed)).trans (List.suffix_cons t ts)

theorem skipToDeclaration_suffix (c : Cursor) : (skipToDeclaration c).rest <:+ c.rest := by
  unfold skipToDeclaration
  split
  · rename_i t ts hr
    rw [hr]
    exact (skipFrom_suffix _ ts).trans (List.suffix_cons t ts)
  · exact List.suffix_refl _

theorem DeclarationReads.suffix {infixed : Bool} {d : Declaration} {c c' : Cursor}
    (h : DeclarationReads infixed d c c') : c'.rest <:+ c.rest := by
  obtain ⟨t, head, ts, hr, _⟩ := h.tokens
  exact ⟨t :: (head ++ ts), hr.symm⟩

/-- Every declaration of a module stands between two places of its tokens. -/
theorem mem_declarationsAux {infixed : Bool} :
    ∀ (fuel : Nat) (c : Cursor),
      ∀ d ∈ (declarationsAux (layerOf infixed) fuel c).1.declarations,
        ∃ c₁ c₂, c₁.rest <:+ c.rest ∧ DeclarationReads infixed d c₁ c₂ := by
  intro fuel
  induction fuel with
  | zero =>
    intro c d hd
    simp [declarationsAux, ParsedModule.empty] at hd
  | succ fuel ih =>
    intro c d hd
    unfold declarationsAux at hd
    split at hd
    · simp [ParsedModule.empty] at hd
    split at hd
    · rename_i d' c' hrun
      have hreads := declaration_run_iff.mp hrun
      rcases List.mem_cons.mp hd with rfl | hd
      · exact ⟨c, c', List.suffix_refl _, hreads⟩
      · obtain ⟨c₁, c₂, hsuffix, h⟩ := ih c' d hd
        exact ⟨c₁, c₂, hsuffix.trans hreads.suffix, h⟩
    · rename_i e c' hrun
      obtain ⟨c₁, c₂, hsuffix, h⟩ := ih _ d hd
      rw [run_oneOf_error hrun] at hsuffix
      exact ⟨c₁, c₂, hsuffix.trans (skipToDeclaration_suffix c), h⟩

theorem mem_parseModule {tokens : List Token} {d : Declaration}
    (h : d ∈ (parseModule tokens).declarations) :
    ∃ c₁ c₂, c₁.rest <:+ tokens ∧ DeclarationReads true d c₁ c₂ :=
  mem_declarationsAux _ (Cursor.ofTokens tokens) d h

end FrontEnd
