import FrontEnd.Proofs.Completeness
import FrontEnd.Proofs.Types

/-!
# Derivations of declarations

The grammar of functions and structures as relations between two places of one token list.

* `ParameterReads`, `MemberReads`, `ParameterListReads`, `ReturnReads`, `BodyReads` are the parts;
  `DeclarationReads` is the whole.
* `declaration_run_iff`: `Grammar.declaration` reads exactly the declarations of the grammar.
-/

set_option autoImplicit false

namespace FrontEnd

open Grammar FrontEnd.Parser

variable {infixed : Bool}

/-! ## Bindings -/

/-- A name, a colon and a type stand between the two places. -/
structure BindingReads (name : String) (type : TypeExpr) (c c' : Cursor) : Prop where
  token : ∃ t, c.peek? = some t ∧ t.kind = .identifier ∧ t.text = name
  colon : c.next.nextIs .symbol ":" = true
  type : TypeReads type c.next.next c'

/-- The parameter stands between the two places. -/
inductive ParameterReads : Parameter → Cursor → Cursor → Prop where
  | mk {c c' : Cursor} {name : String} {type : TypeExpr} (h : BindingReads name type c c') :
      ParameterReads ⟨name, type, c.nextSpan.merge c'.lastSpan, TypeSlot.empty⟩ c c'

/-- The member stands between the two places. -/
inductive MemberReads : Member → Cursor → Cursor → Prop where
  | mk {c c' : Cursor} {name : String} {type : TypeExpr}
      (h : BindingReads name type (c.skipIf .keyword "public") c') :
      MemberReads ⟨name, type, c.nextIs .keyword "public", c.nextSpan.merge c'.lastSpan,
        TypeSlot.empty⟩ c c'

theorem BindingReads.progress {name : String} {type : TypeExpr} {c c' : Cursor}
    (h : BindingReads name type c c') : c'.rest.length < c.rest.length := by
  obtain ⟨⟨t, ht, _⟩, hc, htype⟩ := h
  have h₁ := Cursor.rest_next_lt ht
  have h₂ := Cursor.rest_next_lt_of_nextIs hc
  have h₃ := htype.progress
  omega

theorem ParameterReads.progress {p : Parameter} {c c' : Cursor} (h : ParameterReads p c c') :
    c'.rest.length < c.rest.length := by
  cases h with
  | mk h => exact h.progress

theorem MemberReads.progress {m : Member} {c c' : Cursor} (h : MemberReads m c c') :
    c'.rest.length < c.rest.length := by
  cases h with
  | mk h =>
    have := h.progress
    have := c.rest_skipIf_le .keyword "public"
    omega

/-- What a parser of a binding does after its name: the colon and the type. -/
theorem run_binding_eq_ok {α : Type} {outer inner : String} {k : Token → TypeExpr → Parser α}
    {c c' : Cursor} {a : α} :
    (do
      let name ← requireIdentifier
      let _ ← (requireSymbol ":").within outer
      let type ← typeExpr.within inner
      k name type : Parser α).run c = (.ok a, c') ↔
      ∃ t type c₁, c.peek? = some t ∧ BindingReads t.text type c c₁ ∧
        (k t type).run c₁ = (.ok a, c') := by
  constructor
  · intro h
    obtain ⟨t, c₁, hn, h⟩ := run_bind_eq_ok.mp h
    obtain ⟨ht, hk, rfl⟩ := run_requireIdentifier_eq_ok.mp hn
    obtain ⟨u, c₂, hcolon, h⟩ := run_bind_eq_ok.mp h
    obtain ⟨hu, hku, hxu, rfl⟩ := run_requireSymbol_eq_ok.mp (run_within_eq_ok.mp hcolon)
    obtain ⟨type, c₃, htype, h⟩ := run_bind_eq_ok.mp h
    have htr := typeExpr_run_iff.mp (run_within_eq_ok.mp htype)
    exact ⟨t, type, c₃, ht, ⟨⟨t, ht, hk, rfl⟩, Cursor.nextIs_iff.mpr ⟨u, hu, hku, hxu⟩, htr⟩, h⟩
  · rintro ⟨t, type, c₁, ht, ⟨⟨t', ht', hk, _⟩, hcolon, htype⟩, h⟩
    rw [ht] at ht'
    cases ht'
    obtain ⟨u, hu, hku, hxu⟩ := Cursor.nextIs_iff.mp hcolon
    rw [run_bind_ok (run_requireIdentifier_eq_ok.mpr ⟨ht, hk, rfl⟩),
      run_bind_ok (run_within_eq_ok.mpr (run_requireSymbol_eq_ok.mpr ⟨hu, hku, hxu, rfl⟩)),
      run_bind_ok (run_within_eq_ok.mpr (typeExpr_run_iff.mpr htype))]
    exact h

theorem parameter_run_iff {p : Parameter} {c c' : Cursor} :
    parameter.run c = (.ok p, c') ↔ ParameterReads p c c' := by
  unfold parameter
  rw [run_bind_ok (run_nextSpan c), run_binding_eq_ok]
  constructor
  · rintro ⟨t, type, c₁, _, hb, h⟩
    rw [run_bind_ok (run_spanSince _ c₁), run_pure] at h
    cases h
    exact .mk hb
  · intro h
    cases h with
    | mk hb =>
      obtain ⟨t, ht, _, rfl⟩ := hb.token
      exact ⟨t, _, c', ht, hb, rfl⟩

theorem member_run_iff {m : Member} {c c' : Cursor} :
    member.run c = (.ok m, c') ↔ MemberReads m c c' := by
  unfold member
  rw [run_bind_ok (run_nextSpan c), run_bind_ok (run_accept _ _ c), run_binding_eq_ok]
  constructor
  · rintro ⟨t, type, c₁, _, hb, h⟩
    rw [run_bind_ok (run_spanSince _ c₁), run_pure] at h
    cases h
    exact .mk hb
  · intro h
    cases h with
    | mk hb =>
      obtain ⟨t, ht, _, rfl⟩ := hb.token
      exact ⟨t, _, c', ht, hb, rfl⟩

theorem requireIdentifier_fails {c : Cursor} (h : ∀ t, c.peek? = some t → t.kind ≠ .identifier) :
    requireIdentifier.Fails c := by
  cases hrun : requireIdentifier.run c with
  | mk r c' =>
    cases r with
    | error e => exact ⟨e, c', hrun⟩
    | ok t =>
      obtain ⟨ht, hk, _⟩ := run_requireIdentifier_eq_ok.mp hrun
      exact absurd hk (h t ht)

theorem parameter_fails {c : Cursor} (h : ∀ t, c.peek? = some t → t.kind ≠ .identifier) :
    parameter.Fails c := by
  obtain ⟨e, c', he⟩ := (requireIdentifier_fails h).bind (fun name => do
    let _ ← (requireSymbol ":").within "a parameter"
    let type ← typeExpr.within "a parameter type"
    let span ← spanSince c.nextSpan
    pure (⟨name.text, type, span, TypeSlot.empty⟩ : Parameter))
  refine ⟨e, c', ?_⟩
  unfold parameter
  rw [run_bind_ok (run_nextSpan c)]
  exact he

theorem nextIs_kind_ne {c : Cursor} {kind : TokenKind} {s : String} (h : c.nextIs kind s = true)
    (hk : kind ≠ .identifier) : ∀ t, c.peek? = some t → t.kind ≠ .identifier := by
  intro t ht
  obtain ⟨u, hu, hku, _⟩ := Cursor.nextIs_iff.mp h
  rw [hu] at ht
  cases ht
  rw [hku]
  exact hk

/-! ## Functions -/

/-- The parameter list, or nothing where it is left out, stands between the two places. -/
inductive ParameterListReads : Parameters → Cursor → Cursor → Prop where
  | empty {c : Cursor} (ho : c.nextIs .symbol "(" = true)
      (hc : c.next.nextIs .symbol ")" = true) :
      ParameterListReads .none c c.next.next
  | fixed {c c₁ : Cursor} {ps : List Parameter} (ho : c.nextIs .symbol "(" = true)
      (hps : SeriesReads ParameterReads .symbol "," ps c.next c₁)
      (hc : c₁.nextIs .symbol ")" = true) :
      ParameterListReads ⟨ps, false⟩ c c₁.next
  | variadic {c c₁ : Cursor} {ps : List Parameter} (ho : c.nextIs .symbol "(" = true)
      (hps : SeriesReads ParameterReads .symbol "," ps c.next c₁)
      (hd : c₁.nextIs .symbol "," = true) (he : c₁.next.nextIs .symbol "..." = true)
      (hc : c₁.next.next.nextIs .symbol ")" = true) :
      ParameterListReads ⟨ps, true⟩ c c₁.next.next.next
  | omitted {c : Cursor}
      (hn : c.peek? = none ∨ c.nextHasText "->" = true ∨ c.nextHasText "=" = true) :
      ParameterListReads .none c c

/-- The type a function returns, which is the unit type where nothing stands. -/
inductive ReturnReads : TypeExpr → Cursor → Cursor → Prop where
  | written {c c' : Cursor} {type : TypeExpr} (ho : c.nextIs .symbol "->" = true)
      (ht : TypeReads type c.next c') : ReturnReads type c c'
  | omitted {c : Cursor} (hn : c.nextIs .symbol "->" = false) : ReturnReads .unit c c

/-- The body of a function, if it has one. -/
inductive BodyReads (infixed : Bool) : Option Expr → Cursor → Cursor → Prop where
  | written {c c' : Cursor} {e : Expr} (ho : c.nextIs .symbol "=" = true)
      (he : Reads infixed (.operation e) c.next c') : BodyReads infixed (some e) c c'
  | omitted {c : Cursor} (hn : c.nextIs .symbol "=" = false) : BodyReads infixed none c c

/-- The function stands between the two places. -/
inductive FunctionReads (infixed : Bool) : Function → Cursor → Cursor → Prop where
  | mk {c head c₁ c₂ c' : Cursor} {t : Token} {params : Parameters} {returns : TypeExpr}
      {body : Option Expr} (hhead : head = c.skipIf .keyword "extern")
      (hf : head.nextIs .keyword "fn" = true) (ht : head.next.peek? = some t)
      (hk : t.kind = .identifier) (hp : ParameterListReads params head.next.next c₁)
      (hr : ReturnReads returns c₁ c₂) (hb : BodyReads infixed body c₂ c') :
      FunctionReads infixed ⟨c.nextIs .keyword "extern", t.text, params.bindings,
        params.isVariadic, returns, body, c.nextSpan.merge c'.lastSpan, TypeSlot.empty⟩ c c'

/-- No more arguments may follow the parameters of an empty list. -/
theorem variadicMark_run_eq_ok {bindings : List Parameter} {params : Parameters} {c c' : Cursor} :
    (variadicMark bindings).run c = (.ok params, c') ↔
      (params = ⟨bindings, true⟩ ∧ bindings ≠ [] ∧ c.nextIs .symbol "," = true ∧
          c.next.nextIs .symbol "..." = true ∧ c' = c.next.next) ∨
        (params = ⟨bindings, false⟩ ∧ c' = c ∧ (bindings = [] → c.nextIs .symbol "..." = false) ∧
          (bindings ≠ [] →
            c.nextIs .symbol "," = false ∨ c.next.nextIs .symbol "..." = false)) := by
  unfold variadicMark
  rw [run_withCursor]
  cases bindings with
  | nil =>
    rw [List.isEmpty_nil, if_pos rfl]
    cases hd : c.nextIs .symbol "..." with
    | true =>
      rw [if_pos rfl, run_fail]
      constructor
      · intro h
        cases h
      · rintro (⟨_, hne, _⟩ | ⟨_, _, hd', _⟩)
        · exact absurd rfl hne
        · cases hd' rfl
    | false =>
      rw [if_neg (by simp), run_pure]
      constructor
      · intro h
        cases h
        exact .inr ⟨rfl, rfl, fun _ => rfl, fun hne => absurd rfl hne⟩
      · rintro (⟨_, hne, _⟩ | ⟨rfl, rfl, _⟩)
        · exact absurd rfl hne
        · rfl
  | cons p ps =>
    rw [List.isEmpty_cons, if_neg (by simp)]
    cases hd : c.nextIs .symbol "," with
    | false =>
      rw [Bool.false_and, if_neg (by simp), run_pure]
      constructor
      · intro h
        cases h
        exact .inr ⟨rfl, rfl, by simp, fun _ => .inl rfl⟩
      · rintro (⟨_, _, hd', _⟩ | ⟨rfl, rfl, _⟩)
        · cases hd'
        · rfl
    | true =>
      obtain ⟨t, ht, _⟩ := Cursor.nextIs_iff.mp hd
      rw [Cursor.nextIsAt_one ht]
      cases he : c.next.nextIs .symbol "..." with
      | false =>
        rw [Bool.and_false, if_neg (by simp), run_pure]
        constructor
        · intro h
          cases h
          exact .inr ⟨rfl, rfl, by simp, fun _ => .inr rfl⟩
        · rintro (⟨_, _, _, he', _⟩ | ⟨rfl, rfl, _⟩)
          · cases he'
          · rfl
      | true =>
        rw [Bool.and_self, if_pos rfl, run_bind_ok (run_read c), run_bind_ok (run_read c.next),
          run_pure]
        constructor
        · intro h
          cases h
          exact .inl ⟨rfl, by simp, rfl, rfl, rfl⟩
        · rintro (⟨rfl, _, _, _, rfl⟩ | ⟨_, _, _, hno⟩)
          · rfl
          · rcases hno (by simp) with hno | hno
            · cases hno
            · cases hno

theorem parameters_reads {params : Parameters} {c c' : Cursor} (ho : c.nextIs .symbol "(" = true)
    (h : parameters.run c.next = (.ok params, c')) (hc : c'.nextIs .symbol ")" = true) :
    ParameterListReads params c c'.next := by
  unfold parameters at h
  obtain ⟨ps, c₁, hps, hm⟩ := run_bind_eq_ok.mp h
  have hseries := sepBy_reads (R := ParameterReads) (fun _ _ _ h => parameter_run_iff.mp h) hps
  rcases variadicMark_run_eq_ok.mp hm with ⟨rfl, hne, hd, he, rfl⟩ | ⟨rfl, rfl, _, _⟩
  · rcases hseries with ⟨rfl, _⟩ | hseries
    · exact absurd rfl hne
    · exact .variadic ho hseries hd he hc
  · rcases hseries with ⟨rfl, rfl⟩ | hseries
    · exact .empty ho hc
    · exact .fixed ho hseries hc

/-- Whether a parameter list is left out before this token. -/
def omitsParameters (c : Cursor) : Prop :=
  c.peek? = none ∨ c.nextHasText "->" = true ∨ c.nextHasText "=" = true

theorem not_omitsParameters {c : Cursor} (ho : c.nextIs .symbol "(" = true) :
    ¬ omitsParameters c := by
  obtain ⟨t, ht, _, hx⟩ := Cursor.nextIs_iff.mp ho
  simp [omitsParameters, ht, Cursor.nextHasText, hx]

theorem run_parameterList (c : Cursor) :
    (omitsParameters c ∧ parameterList.run c = (.ok Parameters.none, c)) ∨
      (¬ omitsParameters c ∧ c.nextIs .symbol "(" = true ∧ c.next.nextIs .symbol ")" = true ∧
        parameterList.run c = (.ok Parameters.none, c.next.next)) ∨
      (¬ omitsParameters c ∧ (c.nextIs .symbol "(" = true → c.next.nextIs .symbol ")" = false) ∧
        parameterList.run c =
          ((enclosed parameters (.symbols "(" ")")).within "a parameter list").run c) := by
  unfold parameterList
  rw [run_withCursor]
  cases ht : c.peek? with
  | none =>
    refine .inl ⟨.inl ht, ?_⟩
    simp [Cursor.nextIs, ht]
  | some t =>
    rw [Cursor.nextIsAt_one ht]
    have hnot : omitsParameters c ↔ c.nextHasText "->" = true ∨ c.nextHasText "=" = true := by
      simp [omitsParameters, ht]
    cases ho : c.nextIs .symbol "(" with
    | true =>
      have hno := not_omitsParameters ho
      rw [hnot, not_or, Bool.not_eq_true, Bool.not_eq_true] at hno
      cases hc : c.next.nextIs .symbol ")" with
      | true =>
        refine .inr (.inl ⟨not_omitsParameters ho, rfl, rfl, ?_⟩)
        rw [if_pos (by simp), run_bind_ok (run_read c), run_bind_ok (run_read c.next), run_pure]
      | false =>
        refine .inr (.inr ⟨not_omitsParameters ho, fun _ => rfl, ?_⟩)
        rw [if_neg (by simp), if_pos (by simp [hno.1, hno.2])]
    | false =>
      rw [if_neg (by simp)]
      by_cases hom : c.nextHasText "->" = true ∨ c.nextHasText "=" = true
      · refine .inl ⟨hnot.mpr hom, ?_⟩
        rw [if_neg (by rcases hom with hom | hom <;> simp [hom])]
        rfl
      · refine .inr (.inr ⟨fun h => hom (hnot.mp h), by simp, ?_⟩)
        rw [not_or, Bool.not_eq_true, Bool.not_eq_true] at hom
        rw [if_pos (by simp [hom.1, hom.2])]

theorem parameterList_run_iff {params : Parameters} {c c' : Cursor} :
    parameterList.run c = (.ok params, c') ↔ ParameterListReads params c c' := by
  constructor
  · intro h
    rcases run_parameterList c with ⟨hom, hrun⟩ | ⟨_, ho, hc, hrun⟩ | ⟨_, _, hrun⟩
    · rw [hrun] at h
      cases h
      exact .omitted hom
    · rw [hrun] at h
      cases h
      exact .empty ho hc
    · rw [hrun, run_within_eq_ok] at h
      obtain ⟨ho, c₁, hp, hc, rfl⟩ := run_enclosed_eq_ok.mp h
      exact parameters_reads ho hp hc
  · intro h
    have hrun := run_parameterList c
    have enclosed_of : c.nextIs .symbol "(" = true → c.next.nextIs .symbol ")" = false →
        ∀ c₁, parameters.run c.next = (.ok params, c₁) → c₁.nextIs .symbol ")" = true →
          parameterList.run c = (.ok params, c₁.next) := by
      intro ho hne c₁ hp hc
      rcases hrun with ⟨hom, _⟩ | ⟨_, _, hc', _⟩ | ⟨_, _, hrun⟩
      · exact absurd hom (not_omitsParameters ho)
      · simp [hne] at hc'
      · rw [hrun, run_within_eq_ok]
        exact run_enclosed_eq_ok.mpr ⟨ho, c₁, hp, hc, rfl⟩
    have not_close : ∀ ps c₁, SeriesReads ParameterReads .symbol "," ps c.next c₁ →
        c.next.nextIs .symbol ")" = false := by
      intro ps c₁ hps
      have hstart : ∃ t, c.next.peek? = some t ∧ t.kind = .identifier := by
        cases hps with
        | last ha | more ha _ _ =>
          cases ha with
          | mk hb =>
            obtain ⟨t, ht, hk, _⟩ := hb.token
            exact ⟨t, ht, hk⟩
      obtain ⟨t, ht, hk⟩ := hstart
      exact Cursor.nextIs_of_kind_ne ht (by simp [hk]) _
    cases h with
    | empty ho hc =>
      rcases hrun with ⟨hom, _⟩ | ⟨_, _, _, hrun⟩ | ⟨_, hne, _⟩
      · exact absurd hom (not_omitsParameters ho)
      · exact hrun
      · simp [hne ho] at hc
    | @fixed _ c₁ ps ho hps hc =>
      refine enclosed_of ho (not_close _ _ hps) c₁ ?_ hc
      have hcomma : c₁.nextIs .symbol "," = false := Cursor.nextIs_disjoint hc (.inr (by decide))
      have hdots : c₁.nextIs .symbol "..." = false := Cursor.nextIs_disjoint hc (.inr (by decide))
      unfold parameters
      rw [run_bind_ok (hps.run_sepBy (fun _ _ _ h => parameter_run_iff.mpr h)
        (fun _ _ _ h => h.progress) (.inl hcomma))]
      exact variadicMark_run_eq_ok.mpr (.inr ⟨rfl, rfl, fun _ => hdots, fun _ => .inl hcomma⟩)
    | @variadic _ c₁ ps ho hps hd he hc =>
      refine enclosed_of ho (not_close _ _ hps) c₁.next.next ?_ hc
      have hfail : parameter.Fails c₁.next := parameter_fails (nextIs_kind_ne he (by decide))
      unfold parameters
      rw [run_bind_ok (hps.run_sepBy (fun _ _ _ h => parameter_run_iff.mpr h)
        (fun _ _ _ h => h.progress) (.inr hfail))]
      refine variadicMark_run_eq_ok.mpr (.inl ⟨rfl, ?_, hd, he, rfl⟩)
      cases hps with
      | last _ | more _ _ _ => simp
    | omitted hom =>
      rcases hrun with ⟨_, hrun⟩ | ⟨hno, _⟩ | ⟨hno, _⟩
      · exact hrun
      · exact absurd hom hno
      · exact absurd hom hno

theorem returnType_run_iff {type : TypeExpr} {c c' : Cursor} :
    returnType.run c = (.ok type, c') ↔ ReturnReads type c c' := by
  unfold returnType
  rw [run_bind_ok (run_accept _ _ c)]
  cases ho : c.nextIs .symbol "->" with
  | true =>
    rw [if_pos rfl, Cursor.skipIf_of ho, run_within_eq_ok, typeExpr_run_iff]
    constructor
    · exact fun h => .written ho h
    · intro h
      cases h with
      | written _ ht => exact ht
      | omitted hn => simp [ho] at hn
  | false =>
    rw [if_neg (by simp), Cursor.skipIf_of_not ho, run_pure]
    constructor
    · intro h
      cases h
      exact .omitted ho
    · intro h
      cases h with
      | written hw _ => simp [ho] at hw
      | omitted _ => rfl

theorem functionBody_run_iff {body : Option Expr} {c c' : Cursor} :
    (functionBody (layerOf infixed)).run c = (.ok body, c') ↔ BodyReads infixed body c c' := by
  unfold functionBody
  rw [run_bind_ok (run_accept _ _ c)]
  cases ho : c.nextIs .symbol "=" with
  | true =>
    rw [if_pos rfl, Cursor.skipIf_of ho, run_bind_eq_ok]
    constructor
    · rintro ⟨e, c₁, he, h⟩
      rw [run_pure] at h
      cases h
      exact .written ho (operation_run_iff.mp (run_within_eq_ok.mp he))
    · intro h
      cases h with
      | written _ he => exact ⟨_, _, run_within_eq_ok.mpr (operation_run_iff.mpr he), rfl⟩
      | omitted hn => simp [ho] at hn
  | false =>
    rw [if_neg (by simp), Cursor.skipIf_of_not ho, run_pure]
    constructor
    · intro h
      cases h
      exact .omitted ho
    · intro h
      cases h with
      | written hw _ => simp [ho] at hw
      | omitted _ => rfl

theorem function_run_iff {f : Function} {c c' : Cursor} :
    (function (layerOf infixed)).run c = (.ok f, c') ↔ FunctionReads infixed f c c' := by
  unfold function
  rw [run_bind_ok (run_nextSpan c), run_bind_ok (run_accept _ _ c), run_require_skip]
  constructor
  · rintro ⟨hf, h⟩
    obtain ⟨t, c₁, hn, h⟩ := run_bind_eq_ok.mp h
    obtain ⟨ht, hk, rfl⟩ := run_requireIdentifier_eq_ok.mp (run_within_eq_ok.mp hn)
    obtain ⟨params, c₂, hp, h⟩ := run_bind_eq_ok.mp h
    obtain ⟨returns, c₃, hr, h⟩ := run_bind_eq_ok.mp h
    obtain ⟨body, c₄, hb, h⟩ := run_bind_eq_ok.mp h
    rw [run_bind_ok (run_spanSince _ c₄), run_pure] at h
    cases h
    exact .mk rfl hf ht hk (parameterList_run_iff.mp hp) (returnType_run_iff.mp hr)
      (functionBody_run_iff.mp hb)
  · intro h
    cases h with
    | mk hhead hf ht hk hp hr hb =>
      subst hhead
      refine ⟨hf, ?_⟩
      have hn := run_within_ok (run_requireIdentifier_eq_ok.mpr ⟨ht, hk, rfl⟩) "a function name"
      rw [run_bind_ok hn, run_bind_ok (parameterList_run_iff.mpr hp),
        run_bind_ok (returnType_run_iff.mpr hr), run_bind_ok (functionBody_run_iff.mpr hb)]
      rfl

/-! ## Structures -/

/-- The structure stands between the two places. -/
inductive StructReads : Struct → Cursor → Cursor → Prop where
  | mk {c c' : Cursor} {t : Token} {members : List Member} (hs : c.nextIs .keyword "struct" = true)
      (ht : c.next.peek? = some t) (hk : t.kind = .identifier)
      (ho : c.next.next.nextIs .symbol "\x7b" = true)
      (hm : (members = [] ∧ c' = c.next.next.next) ∨
        SeriesReads MemberReads .symbol ";" members c.next.next.next c')
      (hc : c'.nextIs .symbol "\x7d" = true) :
      StructReads ⟨t.text, members, c.nextSpan.merge c'.next.lastSpan, TypeSlot.empty⟩ c c'.next

theorem member_fails_of_close {c : Cursor} (h : c.nextIs .symbol "\x7d" = true) :
    member.Fails c := by
  have hp : c.nextIs .keyword "public" = false := Cursor.nextIs_disjoint h (.inl (by decide))
  cases hrun : member.run c with
  | mk r c' =>
    cases r with
    | error e => exact ⟨e, c', hrun⟩
    | ok m =>
      cases member_run_iff.mp hrun with
      | mk hb =>
        rw [Cursor.skipIf_of_not hp] at hb
        obtain ⟨t, ht, hk, _⟩ := hb.token
        exact absurd hk (nextIs_kind_ne h (by decide) t ht)

theorem struct_run_iff {s : Struct} {c c' : Cursor} :
    struct.run c = (.ok s, c') ↔ StructReads s c c' := by
  unfold struct
  rw [run_bind_ok (run_nextSpan c), run_require_skip]
  constructor
  · rintro ⟨hs, h⟩
    obtain ⟨t, c₁, hn, h⟩ := run_bind_eq_ok.mp h
    obtain ⟨ht, hk, rfl⟩ := run_requireIdentifier_eq_ok.mp (run_within_eq_ok.mp hn)
    obtain ⟨members, c₂, hm, h⟩ := run_bind_eq_ok.mp h
    obtain ⟨ho, c₃, hms, hc, rfl⟩ := run_enclosed_eq_ok.mp (run_within_eq_ok.mp hm)
    rw [run_bind_ok (run_spanSince _ _), run_pure] at h
    cases h
    exact .mk hs ht hk ho
      (sepBy_reads (R := MemberReads) (fun _ _ _ h => member_run_iff.mp h) hms) hc
  · intro h
    cases h with
    | @mk _ c₁ t members hs ht hk ho hm hc =>
      refine ⟨hs, ?_⟩
      have hn := run_within_ok (run_requireIdentifier_eq_ok.mpr ⟨ht, hk, rfl⟩) "a struct name"
      have hms : (sepBy member .symbol ";").run c.next.next.next = (.ok members, c₁) := by
        rcases hm with ⟨rfl, rfl⟩ | hm
        · exact run_sepBy_nil (member_fails_of_close hc)
        · exact hm.run_sepBy (fun _ _ _ h => member_run_iff.mpr h) (fun _ _ _ h => h.progress)
            (.inl (Cursor.nextIs_disjoint hc (.inr (by decide))))
      have hbraces := run_enclosed_eq_ok (b := .symbols "\x7b" "\x7d").mpr ⟨ho, c₁, hms, hc, rfl⟩
      have hbody := run_within_ok hbraces "a struct body"
      rw [run_bind_ok hn, run_bind_ok hbody]
      rfl

/-! ## Declarations -/

/-- The declaration stands between the two places. -/
inductive DeclarationReads (infixed : Bool) : Declaration → Cursor → Cursor → Prop where
  | function {c c' : Cursor} {f : Function} (h : FunctionReads infixed f c c') :
      DeclarationReads infixed (.function f) c c'
  | struct {c c' : Cursor} {s : Struct} (h : StructReads s c c') :
      DeclarationReads infixed (.struct s) c c'

theorem function_fails_of_struct {c : Cursor} (h : c.nextIs .keyword "struct" = true) :
    (Declaration.function <$> function (layerOf infixed)).Fails c := by
  have he : c.nextIs .keyword "extern" = false := Cursor.nextIs_disjoint h (.inr (by decide))
  cases hrun : (Declaration.function <$> function (layerOf infixed)).run c with
  | mk r c' =>
    cases r with
    | error e => exact ⟨e, c', hrun⟩
    | ok d =>
      obtain ⟨f, hf, _⟩ := run_map_eq_ok.mp hrun
      cases function_run_iff.mp hf with
      | mk hhead hfn _ _ _ _ _ =>
        subst hhead
        rw [Cursor.skipIf_of_not he, Cursor.nextIs_disjoint h (.inr (by decide))] at hfn
        cases hfn

/-- **The parser of declarations reads exactly the declarations of the grammar.** -/
theorem declaration_run_iff {d : Declaration} {c c' : Cursor} :
    (declaration (layerOf infixed)).run c = (.ok d, c') ↔ DeclarationReads infixed d c c' := by
  unfold declaration
  rw [run_oneOf_eq_ok]
  constructor
  · intro h
    rcases tryEach_cons_ok h with h | ⟨_, best, h⟩
    · obtain ⟨f, hf, rfl⟩ := run_map_eq_ok.mp h
      exact .function (function_run_iff.mp hf)
    rcases tryEach_cons_ok h with h | ⟨_, best, h⟩
    · obtain ⟨s, hs, rfl⟩ := run_map_eq_ok.mp h
      exact .struct (struct_run_iff.mp hs)
    · simp [tryEach] at h
  · intro h
    cases h with
    | function hf =>
      exact tryEach_of_ok (run_map_eq_ok.mpr ⟨_, function_run_iff.mpr hf, rfl⟩) _ _
    | struct hs =>
      have hfail : (Declaration.function <$> function (layerOf infixed)).Fails c := by
        cases hs with
        | mk hkey _ _ _ _ _ => exact function_fails_of_struct hkey
      refine tryEach_of_fails hfail ?_ _
      intro best
      exact tryEach_of_ok (run_map_eq_ok.mpr ⟨_, struct_run_iff.mpr hs, rfl⟩) _ _

end FrontEnd
