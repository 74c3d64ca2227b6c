import FrontEnd.Proofs.Contents
import FrontEnd.Proofs.Erasure

/-!
# Expressions are read from their contents

Where the contents of a well-shaped expression stand, that expression is derived, given that what
follows does not go on with it.

* `Ends` says that nothing goes on here with an expression; `Expr.OperandBefore` and
  `Expr.OperationBefore` are the conditions on what follows one expression.
* `Expr.ReadsOpen` is an operand that calls and accesses may still follow, `Expr.ReadsLevel` an
  operation that operators may still follow: the tree grows to the left while it is read, so the
  induction keeps what comes after it open.
* `Expr.readable`: a well-shaped expression is read from its contents, by induction on the tree.
-/

set_option autoImplicit false

namespace FrontEnd

open Grammar

variable {c : Cursor} {ws : List Content}

/-! ## What follows -/

/-- No call and no member access starts here. -/
def NoPostfix (ws : List Content) : Prop :=
  ws.head? ≠ some (.symbol "(") ∧ ws.head? ≠ some (.symbol ".")

/-- No `else` stands here. -/
def NoElse (ws : List Content) : Prop := ws.head? ≠ some (.keyword "else")

/-- Nothing goes on here with an expression. -/
structure Ends (ws : List Content) : Prop where
  noPostfix : NoPostfix ws
  noElse : NoElse ws
  noOperator : ∀ op : BinaryOp, ws.head? ≠ some (.symbol op.symbol)

/-- What follows an operand does not go on with it, except for calls and accesses where it takes
them. -/
structure Expr.OperandBefore (e : Expr) (ws : List Content) : Prop where
  noPostfix : e.takesPostfix = false → NoPostfix ws
  noElse : e.endsOpen = true → NoElse ws

/-- What follows an operation does not go on with it, except for an operator that binds no tighter
than its own. -/
structure Expr.OperationBefore (e : Expr) (ws : List Content) : Prop where
  noPostfix : NoPostfix ws
  noElse : NoElse ws
  noTighter : ∀ op : BinaryOp, ws.head? = some (.symbol op.symbol) →
    e.isLooserThan op.precedence = false

theorem noPostfix_symbol {s : String} (ho : s ≠ "(") (hd : s ≠ ".") :
    NoPostfix (.symbol s :: ws) :=
  ⟨by simp [ho], by simp [hd]⟩

theorem noPostfix_keyword (s : String) : NoPostfix (.keyword s :: ws) := ⟨by simp, by simp⟩

theorem noElse_symbol (s : String) : NoElse (.symbol s :: ws) := by simp [NoElse]

theorem noElse_keyword {s : String} (h : s ≠ "else") : NoElse (.keyword s :: ws) := by
  simp [NoElse, h]

theorem ends_nil : Ends [] := ⟨⟨by simp, by simp⟩, by simp [NoElse], by simp⟩

theorem ends_symbol {s : String} (h : BinaryOp.ofSymbol? s = none) (ho : s ≠ "(") (hd : s ≠ ".") :
    Ends (.symbol s :: ws) := by
  refine ⟨noPostfix_symbol ho hd, noElse_symbol s, ?_⟩
  intro op hop
  rw [List.head?_cons, Option.some.injEq, Content.plain.injEq] at hop
  rw [hop.2, BinaryOp.ofSymbol?_symbol] at h
  cases h

theorem ends_keyword {s : String} (h : s ≠ "else") : Ends (.keyword s :: ws) :=
  ⟨noPostfix_keyword s, noElse_keyword h, by simp⟩

theorem Ends.before (h : Ends ws) (e : Expr) : e.OperationBefore ws :=
  ⟨h.noPostfix, h.noElse, fun op hop => absurd hop (h.noOperator op)⟩

theorem NoPostfix.startsPostfix (h : NoPostfix ws) (hc : Carries c.rest ws) :
    c.startsPostfix = false := by
  unfold Cursor.startsPostfix
  rw [hc.nextIs_false_of_head (by decide) (by decide) h.1,
    hc.nextIs_false_of_head (by decide) (by decide) h.2]
  rfl

theorem NoElse.nextIs (h : NoElse ws) (hc : Carries c.rest ws) :
    c.nextIs .keyword "else" = false :=
  hc.nextIs_false_of_head (by decide) (by decide) h

/-- The next operator is the one that the contents start with. -/
theorem operatorAt?_of_contents {level : Nat} {op : BinaryOp}
    (hc : Carries c.rest (.symbol op.symbol :: ws)) (hl : level ≤ op.precedence) :
    operatorAt? c level = some op := by
  obtain ⟨t, ht, hk, hx⟩ := hc.peek?_plain
  unfold operatorAt?
  rw [ht, Option.bind_some, binaryOp?, if_pos hk, hx, BinaryOp.ofSymbol?_symbol]
  simp [hl]

theorem operatorAt?_eq_none {level : Nat} (hc : Carries c.rest ws)
    (h : ∀ op : BinaryOp, ws.head? = some (.symbol op.symbol) → op.precedence < level) :
    operatorAt? c level = none := by
  cases hop : operatorAt? c level with
  | none => rfl
  | some op =>
    obtain ⟨t, ht, hk, hx, hle⟩ := operatorAt?_eq_some hop
    by_cases hhead : ws.head? = some (.symbol op.symbol)
    · have hlt := h op hhead
      omega
    · have hno := hc.nextIs_false_of_head (by decide) (by decide) hhead
      rw [Cursor.nextIs_eq_of_peek ht] at hno
      simp [Token.is, hk, hx] at hno

/-! ## Ways to be read -/

namespace Expr

/-- The operand is read from one place to the other, where calls and accesses may follow. -/
def ReadsOpen (e : Expr) (c c' : Cursor) : Prop :=
  ∃ first mid e', e'.erase = e.erase ∧ Reads true (.primary first) c mid ∧
    ∀ x stop, Reads true (.postfixes e' x) c' stop → Reads true (.postfixes first x) mid stop

/-- The operand is read from one place to the other. -/
def ReadsOperand (e : Expr) (c c' : Cursor) : Prop :=
  ∃ e', e'.erase = e.erase ∧ Reads true (.operand e') c c'

/-- The operation is read from one place to the other, where operators of a level may follow. -/
def ReadsLevel (level : Nat) (e : Expr) (c c' : Cursor) : Prop :=
  ∃ first mid e', e'.erase = e.erase ∧ Reads true (.operand first) c mid ∧
    ∀ x stop, Reads true (.climb level e' x) c' stop → Reads true (.climb level first x) mid stop

/-- The operation is read from one place to the other. -/
def ReadsOperation (e : Expr) (c c' : Cursor) : Prop :=
  ∃ e', e'.erase = e.erase ∧ Reads true (.operation e') c c'

/-- The expression is read where its contents stand. -/
structure Readable (e : Expr) : Prop where
  opened : e.isBinary = false → ∀ c ws, Carries c.rest (e.contents ++ ws) → e.OperandBefore ws →
    ∃ c', Carries c'.rest ws ∧ e.ReadsOpen c c'
  leveled : ∀ level c ws, e.isLooserThan level = false → Carries c.rest (e.contents ++ ws) →
    e.OperationBefore ws → ∃ c', Carries c'.rest ws ∧ e.ReadsLevel level c c'

theorem readsOpen_of_primary {e e' : Expr} {c c' : Cursor} (he : e'.erase = e.erase)
    (h : Reads true (.primary e') c c') : e.ReadsOpen c c' :=
  ⟨e', c', e', he, h, fun _ _ hx => hx⟩

theorem ReadsOpen.operand {e : Expr} {c c' : Cursor} (h : e.ReadsOpen c c')
    (hp : c'.startsPostfix = false) : e.ReadsOperand c c' := by
  obtain ⟨first, mid, e', he, hprimary, hrest⟩ := h
  exact ⟨e', he, .operand hprimary (hrest e' c' (.postfixesDone hp))⟩

theorem ReadsOperand.level {e : Expr} {c c' : Cursor} (h : e.ReadsOperand c c') (level : Nat) :
    e.ReadsLevel level c c' := by
  obtain ⟨e', he, h⟩ := h
  exact ⟨e', c', e', he, h, fun _ _ hx => hx⟩

theorem Readable.operand {e : Expr} (h : e.Readable) (hb : e.isBinary = false)
    (hc : Carries c.rest (e.contents ++ ws)) (hp : NoPostfix ws)
    (he : e.endsOpen = true → NoElse ws) : ∃ c', Carries c'.rest ws ∧ e.ReadsOperand c c' := by
  obtain ⟨c', hc', hopen⟩ := h.opened hb c ws hc ⟨fun _ => hp, he⟩
  exact ⟨c', hc', hopen.operand (hp.startsPostfix hc')⟩

theorem isLooserThan_zero (e : Expr) : e.isLooserThan 0 = false := by
  cases e <;> simp [isLooserThan]

theorem Readable.operation {e : Expr} (h : e.Readable) (hc : Carries c.rest (e.contents ++ ws))
    (he : Ends ws) : ∃ c', Carries c'.rest ws ∧ e.ReadsOperation c c' := by
  obtain ⟨c', hc', first, mid, e', hee, hfirst, hrest⟩ :=
    h.leveled 0 c ws e.isLooserThan_zero hc (he.before e)
  have hno : operatorAt? c' 0 = none :=
    operatorAt?_eq_none hc' fun op hop => absurd hop (he.noOperator op)
  exact ⟨c', hc', e', hee, .operation hfirst (hrest e' c' (.climbDone fun _ => hno))⟩

/-- An expression that is no operation is read as an operation if it is read as an operand. -/
theorem readable_of_opened {e : Expr}
    (h : ∀ c ws, Carries c.rest (e.contents ++ ws) → e.OperandBefore ws →
      ∃ c', Carries c'.rest ws ∧ e.ReadsOpen c c') : e.Readable := by
  refine ⟨fun _ => h, ?_⟩
  intro level c ws _ hc hbefore
  obtain ⟨c', hc', hopen⟩ := h c ws hc ⟨fun _ => hbefore.noPostfix, fun _ => hbefore.noElse⟩
  exact ⟨c', hc', (hopen.operand (hbefore.noPostfix.startsPostfix hc')).level level⟩

end Expr

/-! ## Lists -/

/-- A literal or identifier is read where its contents stand. -/
theorem Terminal.reads_of_contents {a : Terminal} (h : Carries c.rest (a.contents ++ ws)) :
    ∃ c', Carries c'.rest ws ∧ TerminalReads a c c' := by
  cases a with
  | boolean b =>
    obtain ⟨ha, h⟩ := h.boolean_inv
    exact ⟨c.next, h, ha⟩
  | integer bits type =>
    obtain ⟨c', ha, h⟩ := h.integer_inv
    exact ⟨c', h, ha⟩
  | character v =>
    obtain ⟨t, ht, hk, hx⟩ := h.peek?_plain
    refine ⟨c.next, h.plain_inv.2, @TerminalReads.character c t v [] ht hk ?_⟩
    rw [hx, Char.toString_eq_singleton, String.toList_singleton]
  | string s =>
    obtain ⟨t, ht, hk, rfl⟩ := h.peek?_plain
    exact ⟨c.next, h.plain_inv.2, .string ht hk⟩
  | identifier s =>
    obtain ⟨t, ht, hk, rfl⟩ := h.peek?_plain
    exact ⟨c.next, h.plain_inv.2, .identifier ht hk⟩
  | unit =>
    obtain ⟨ho, h⟩ := h.plain_inv
    obtain ⟨hc, h⟩ := h.plain_inv
    exact ⟨c.next.next, h, .unit ho hc⟩

namespace Expr

theorem moreContents_cons (delimiter : String) (e : Expr) (es : List Expr) :
    moreContents delimiter (e :: es) =
      .symbol delimiter :: seriesContents delimiter (e :: es) := rfl

/-- Elements are read where their contents and a closing parenthesis stand. -/
theorem elements_of_contents {es : List Expr} (hes : ∀ e ∈ es, e.Readable) :
    es ≠ [] → ∀ c, Carries c.rest (seriesContents "," es ++ .symbol ")" :: ws) →
      ∃ c' es', eraseSeries es' = eraseSeries es ∧ Reads true (.elements es') c c' ∧
        c'.nextIs .symbol ")" = true ∧ Carries c'.next.rest ws := by
  induction es with
  | nil => exact fun h => absurd rfl h
  | cons e es ih =>
    intro _ c hc
    have he := hes e List.mem_cons_self
    rw [seriesContents, List.append_assoc] at hc
    cases es with
    | nil =>
      obtain ⟨c₁, hc₁, e', hee, hr⟩ :=
        he.operation hc (ends_symbol (by decide) (by decide) (by decide))
      obtain ⟨hclose, hws⟩ := hc₁.plain_inv
      exact ⟨c₁, [e'], by simp only [eraseSeries, hee], .lastElement hr, hclose, hws⟩
    | cons e₂ es =>
      rw [moreContents_cons, List.cons_append] at hc
      obtain ⟨c₁, hc₁, e', hee, hr⟩ :=
        he.operation hc (ends_symbol (by decide) (by decide) (by decide))
      obtain ⟨hcomma, hc₂⟩ := hc₁.plain_inv
      obtain ⟨c', es', hees, hrs, hclose, hws⟩ :=
        ih (fun x hx => hes x (List.mem_cons_of_mem e hx)) (by simp) c₁.next hc₂
      exact ⟨c', e' :: es', by rw [eraseSeries, eraseSeries, hee, hees], .element hr hcomma hrs,
        hclose, hws⟩

/-- Statements are read where their contents and a closing brace stand. -/
theorem statements_of_contents {es : List Expr} (hes : ∀ e ∈ es, e.Readable)
    (hbs : ∀ e ∈ es, e.isBinary = false) :
    ∀ c, Carries c.rest (seriesContents ";" es ++ .symbol "\x7d" :: ws) →
      ∃ c' es', eraseSeries es' = eraseSeries es ∧ Reads true (.statements es') c c' ∧
        Carries c'.rest ws := by
  induction es with
  | nil =>
    intro c hc
    obtain ⟨hclose, hws⟩ := hc.plain_inv
    exact ⟨c.next, [], rfl, .noStatement hclose, hws⟩
  | cons e es ih =>
    intro c hc
    have he := hes e List.mem_cons_self
    have hb := hbs e List.mem_cons_self
    have hrest := ih (fun x hx => hes x (List.mem_cons_of_mem e hx))
      (fun x hx => hbs x (List.mem_cons_of_mem e hx))
    rw [seriesContents, List.append_assoc] at hc
    -- the place after the statement, and what stands after its semicolon if it has one
    have hstep : ∃ c₁, e.ReadsOperand c c₁ ∧ Carries (c₁.skipIf .symbol ";").rest
        (seriesContents ";" es ++ .symbol "\x7d" :: ws) := by
      cases es with
      | nil =>
        obtain ⟨c₁, hc₁, hr⟩ :=
          he.operand hb hc (noPostfix_symbol (by decide) (by decide)) (fun _ => noElse_symbol _)
        refine ⟨c₁, hr, ?_⟩
        rw [Cursor.skipIf_of_not (hc₁.nextIs_false (by decide) (by decide) (by decide))]
        exact hc₁
      | cons e₂ es =>
        rw [moreContents_cons, List.cons_append] at hc
        obtain ⟨c₁, hc₁, hr⟩ :=
          he.operand hb hc (noPostfix_symbol (by decide) (by decide)) (fun _ => noElse_symbol _)
        obtain ⟨hsemi, hc₂⟩ := hc₁.plain_inv
        refine ⟨c₁, hr, ?_⟩
        rw [Cursor.skipIf_of hsemi]
        exact hc₂
    obtain ⟨c₁, ⟨e', hee, hr⟩, hc₂⟩ := hstep
    obtain ⟨c', es', hees, hrs, hws⟩ := hrest _ hc₂
    have hn := hr.not_symbol (s := "\x7d") (by decide) (by decide) (by decide) trivial
    exact ⟨c', e' :: es', by rw [eraseSeries, eraseSeries, hee, hees], .statement hn hr hrs, hws⟩

/-- An operand that starts with `if` is a conditional. -/
theorem isConditional_of_reads {e : Expr} {c c' : Cursor} (h : Reads true (.operand e) c c')
    (hi : c.nextIs .keyword "if" = true) : e.isConditional = true := by
  cases h with
  | operand hp hx =>
    have hshape := hp.shaped
    cases hp with
    | ifChain _ _ =>
      have hstop := hshape.2.1 rfl
      cases hx with
      | postfixesDone _ => rfl
      | emptyCall ho _ _ => simp [Cursor.startsPostfix, ho] at hstop
      | call ho _ _ _ => simp [Cursor.startsPostfix, ho] at hstop
      | access ho ht hk _ => simp [Cursor.startsPostfix, ho, ht, hk] at hstop
    | unary ht hop _ =>
      obtain ⟨hk, _⟩ := unaryOp?_eq_some hop
      rw [Cursor.nextIs_of_kind_ne ht (by simp [hk])] at hi
      cases hi
    | atom ha =>
      rcases ha.cases_start with ⟨_, ho, _⟩ | ⟨t, ht, _, hk⟩
      · rw [Cursor.nextIs_disjoint ho (.inl (by decide))] at hi
        cases hi
      · rw [Cursor.nextIs_of_kind_ne ht hk] at hi
        cases hi
    | tuple ho _ _ =>
      rw [Cursor.nextIs_disjoint ho (.inl (by decide))] at hi
      cases hi
    | block ho _ =>
      rw [Cursor.nextIs_disjoint ho (.inl (by decide))] at hi
      cases hi
    | loop ho _ =>
      rw [Cursor.nextIs_disjoint ho (.inr (by decide))] at hi
      cases hi

end Expr

/-! ## Conditionals -/

namespace Branches.WellShaped

theorem tail {b : Branch} {bs : List Branch} (h : Branches.WellShaped (b :: bs)) (hne : bs ≠ [])
    (hfirst : ∀ b ∈ bs.head?, b.condition?.isSome = true) : Branches.WellShaped bs where
  nonempty := hne
  first := hfirst
  guarded := by
    intro b' hb'
    refine h.guarded b' ?_
    rw [List.dropLast_cons_of_ne_nil hne]
    exact List.mem_cons_of_mem b hb'
  closed := by
    intro b' hb'
    refine h.closed b' ?_
    rw [List.dropLast_cons_of_ne_nil hne]
    exact List.mem_cons_of_mem b hb'
  last := fun body hbody => h.last body (List.mem_cons_of_mem b hbody)
  conditions := fun b' hb' => h.conditions b' (List.mem_cons_of_mem b hb')
  bodies := fun b' hb' => h.bodies b' (List.mem_cons_of_mem b hb')

end Branches.WellShaped

namespace Expr

/-- Arms are read where their contents stand, from after the first `if`. -/
theorem arms_of_contents {bs : List Branch} (hparts : ∀ x ∈ bs.flatMap armParts, x.Readable) :
    Branches.WellShaped bs → NoPostfix ws → (armsEndOpen bs = true → NoElse ws) →
      ∀ c : Cursor, c.nextIs .keyword "if" = true → Carries c.rest (armsContents bs ++ ws) →
        ∃ c' bs', eraseArms bs' = eraseArms bs ∧ Reads true (.arms bs') c.next c' ∧
          Carries c'.rest ws := by
  induction bs with
  | nil => exact fun h => absurd rfl h.nonempty
  | cons b bs ih =>
    intro hshape hpost helse c hif hc
    have hrest := ih fun x hx => hparts x (by rw [List.flatMap_cons]; exact List.mem_append_right _ hx)
    cases b with
    | always body => simpa [Branch.condition?] using hshape.first (.always body) rfl
    | guarded condition body =>
      have hrc := hparts condition (by simp [armParts])
      have hrb := hparts body (by simp [armParts])
      have hbc := hshape.conditions (.guarded condition body) List.mem_cons_self condition rfl
      have hbb := hshape.bodies (.guarded condition body) List.mem_cons_self
      simp only [armsContents, armContents, List.cons_append, List.append_assoc] at hc
      obtain ⟨_, hc⟩ := hc.plain_inv
      obtain ⟨c₁, hc₁, e₁, he₁, hr₁⟩ :=
        hrc.operand hbc hc (noPostfix_keyword _) (fun _ => noElse_keyword (by decide))
      obtain ⟨hthen, hc₁⟩ := hc₁.plain_inv
      rw [← Cursor.skipIf_of hthen] at hc₁
      cases bs with
      | nil =>
        have hno : NoElse ws := helse rfl
        simp only [elseContents, List.nil_append] at hc₁
        obtain ⟨c₂, hc₂, e₂, he₂, hr₂⟩ := hrb.operand hbb hc₁ hpost (fun _ => hno)
        refine ⟨c₂, [.guarded e₁ e₂], ?_, .lastArm hr₁ hr₂ (hno.nextIs hc₂), hc₂⟩
        simp only [eraseArms, eraseArm, he₁, he₂]
      | cons b₂ bs =>
        have hclosed : body.endsOpen = false :=
          hshape.closed (.guarded condition body) (by simp)
        simp only [elseContents, List.cons_append, List.append_assoc] at hc₁
        obtain ⟨c₂, hc₂, e₂, he₂, hr₂⟩ := hrb.operand hbb hc₁ (noPostfix_keyword _)
          (fun hopen => absurd hopen (by simp [hclosed]))
        obtain ⟨helse₂, hc₂⟩ := hc₂.plain_inv
        cases b₂ with
        | guarded condition₂ body₂ =>
          have htail := hshape.tail (by simp) (by simp [Branch.condition?])
          have hif₂ : c₂.next.nextIs .keyword "if" = true := by
            simp only [armContents, List.cons_append] at hc₂
            exact hc₂.plain_inv.1
          obtain ⟨c', bs', hbs', hr₃, hws⟩ := hrest htail hpost helse c₂.next hif₂ (by
            simpa only [armsContents, List.append_assoc] using hc₂)
          refine ⟨c', .guarded e₁ e₂ :: bs', ?_, .elseIfArm hr₁ hr₂ helse₂ hif₂ hr₃, hws⟩
          rw [eraseArms, eraseArms, hbs', eraseArm, eraseArm, he₁, he₂]
        | always last =>
          have hnil : bs = [] := by
            cases bs with
            | nil => rfl
            | cons b₃ bs => simpa [Branch.condition?] using hshape.guarded (.always last) (by simp)
          subst hnil
          have hrl := hparts last (by simp [armParts])
          have hbl := hshape.bodies (.always last) (by simp)
          simp only [armContents, elseContents, List.nil_append] at hc₂
          obtain ⟨c₃, hc₃, e₃, he₃, hr₃⟩ := hrl.operand hbl hc₂ hpost helse
          have hnot : c₂.next.nextIs .keyword "if" = false := by
            rw [Bool.eq_false_iff]
            intro hif₂
            have hcond := isConditional_of_reads hr₃ hif₂
            rw [← isConditional_erase, he₃, isConditional_erase,
              hshape.last last (by simp)] at hcond
            cases hcond
          refine ⟨c₃, [.guarded e₁ e₂, .always e₃], ?_, .elseArm hr₁ hr₂ helse₂ hnot hr₃, hc₃⟩
          simp only [eraseArms, eraseArm, he₁, he₂, he₃]

/-! ## Expressions -/

theorem endsOpen_of_takesPostfix {e : Expr} (h : e.takesPostfix = true) : e.endsOpen = false := by
  cases e with
  | unary _ _ _ | ifChain _ _ | loop _ _ => cases h
  | _ => rfl

theorem isBinary_of_takesPostfix {e : Expr} (h : e.takesPostfix = true) : e.isBinary = false := by
  cases e with
  | binary _ _ _ _ => cases h
  | _ => rfl

/-- Anything may stand after what takes a call or a member access. -/
theorem Readable.beforePostfix {e : Expr} (h : e.Readable) (ht : e.takesPostfix = true)
    (hc : Carries c.rest (e.contents ++ ws)) : ∃ c', Carries c'.rest ws ∧ e.ReadsOpen c c' := by
  refine h.opened (isBinary_of_takesPostfix ht) c ws hc ⟨?_, ?_⟩
  · intro hpost
    rw [ht] at hpost
    cases hpost
  · intro hopen
    rw [endsOpen_of_takesPostfix ht] at hopen
    cases hopen

/-- An operator between two operands that are read is read. -/
theorem binary_leveled {site : Site} {op : BinaryOp} {left right : Expr}
    (hshape : (binary site op left right).WellShaped) (hl : left.Readable) (hr : right.Readable)
    {level : Nat} (hlevel : (binary site op left right).isLooserThan level = false)
    (hc : Carries c.rest ((binary site op left right).contents ++ ws))
    (hbefore : (binary site op left right).OperationBefore ws) :
    ∃ c', Carries c'.rest ws ∧ (binary site op left right).ReadsLevel level c c' := by
  obtain ⟨hslot, hleft, hright⟩ := hshape
  have hle : level ≤ op.precedence := by
    simpa [isLooserThan] using hlevel
  have hleftLevel : left.isLooserThan level = false := by
    cases left with
    | binary _ _ _ _ =>
      simp only [isLooserThan, decide_eq_false_iff_not] at hleft ⊢
      omega
    | _ => rfl
  rw [contents, List.append_assoc, List.cons_append] at hc
  have hopPost : op.symbol ≠ "(" ∧ op.symbol ≠ "." := by cases op <;> decide
  obtain ⟨c₁, hc₁, first, mid, l', hel, hfirst, hrestl⟩ := hl.leveled level c _ hleftLevel hc
    ⟨noPostfix_symbol hopPost.1 hopPost.2, noElse_symbol _, fun op' hop' => by
      rw [List.head?_cons, Option.some.injEq, Content.plain.injEq] at hop'
      have hsame := BinaryOp.ofSymbol?_symbol op
      rw [hop'.2, BinaryOp.ofSymbol?_symbol, Option.some.injEq] at hsame
      rw [hsame]
      exact hleft⟩
  have hop := operatorAt?_of_contents hc₁ hle
  obtain ⟨_, hc₁⟩ := hc₁.plain_inv
  have hafter : ∀ op' : BinaryOp, ws.head? = some (.symbol op'.symbol) →
      op'.precedence < op.precedence + 1 := by
    intro op' hop'
    have := hbefore.noTighter op' hop'
    simp only [isLooserThan, decide_eq_false_iff_not] at this
    omega
  obtain ⟨c₂, hc₂, firstr, midr, r', her, hfirstr, hrestr⟩ :=
    hr.leveled (op.precedence + 1) c₁.next ws hright hc₁
      ⟨hbefore.noPostfix, hbefore.noElse, fun op' hop' => by
        have hlt := hafter op' hop'
        cases right with
        | binary _ _ _ _ =>
          simp only [isLooserThan, decide_eq_false_iff_not] at hright ⊢
          omega
        | _ => rfl⟩
  have hdone : Reads true (.climb (op.precedence + 1) r' r') c₂ c₂ :=
    .climbDone fun _ => operatorAt?_eq_none hc₂ hafter
  refine ⟨c₂, hc₂, first, mid, binaryNode op l' r', ?_, hfirst, ?_⟩
  · have hsite : site.erase = (Site.ofSpan (l'.span.merge r'.span)).erase := by
      rw [Site.erase, show site.slot = TypeSlot.empty from hslot]
      rfl
    rw [binaryNode, erase, erase, hel, her, hsite]
  · intro x stop hx
    exact hrestl x stop (.climbStep rfl hop hfirstr (hrestr r' c₂ hdone) hx)

/-- What an empty slot and any span are worth. -/
theorem erase_ofSpan {site : Site} (h : site.slot = TypeSlot.empty) (span : Span) :
    (Site.ofSpan span).erase = site.erase := by
  rw [Site.erase, Site.erase, h]
  rfl

/-- **A well-shaped expression is read where its contents stand.** -/
theorem readable {e : Expr} (h : e.All WellShaped) : e.Readable := by
  refine All.everywhere ?_ e h
  intro e hshape ih
  have hsite : ∀ span, (Site.ofSpan span).erase = e.site.erase := erase_ofSpan hshape.1
  cases e with
  | atom site a =>
    refine readable_of_opened fun c ws hc _ => ?_
    obtain ⟨c', hws, ha⟩ := Terminal.reads_of_contents hc
    refine ⟨c', hws, readsOpen_of_primary ?_ (.atom ha)⟩
    rw [erase, erase, Cursor.siteUpTo, hsite]
    rfl
  | unary site op operand =>
    refine readable_of_opened fun c ws hc hbefore => ?_
    rw [contents, List.cons_append] at hc
    obtain ⟨t, ht, hk, hx⟩ := hc.peek?_plain
    have hop : unaryOp? t = some op := by
      rw [unaryOp?, if_pos hk, hx, UnaryOp.ofSymbol?_symbol]
    obtain ⟨c', hws, e', hee, hr⟩ := (ih operand (by simp [children])).operand hshape.2
      hc.plain_inv.2 (hbefore.noPostfix rfl) hbefore.noElse
    refine ⟨c', hws, readsOpen_of_primary ?_ (.unary ht hop hr)⟩
    rw [erase, erase, hee, Cursor.siteUpTo, hsite]
    rfl
  | binary site op left right =>
    refine ⟨fun hb => (by cases hb), fun level c ws hlevel hc hbefore => ?_⟩
    exact binary_leveled hshape (ih left (by simp [children])) (ih right (by simp [children]))
      hlevel hc hbefore
  | tuple site elements =>
    refine readable_of_opened fun c ws hc _ => ?_
    simp only [contents, List.cons_append, List.append_assoc, List.nil_append] at hc
    obtain ⟨ho, hc⟩ := hc.plain_inv
    obtain ⟨c₁, es', hees, hr, hclose, hws⟩ := elements_of_contents ih hshape.2 c.next hc
    refine ⟨c₁.next, hws, readsOpen_of_primary ?_ (.tuple ho hr hclose)⟩
    rw [erase, erase, hees, Cursor.siteUpTo, hsite]
    rfl
  | call site callee args =>
    refine readable_of_opened fun c ws hc _ => ?_
    have hcallee : callee.takesPostfix = true := hshape.2
    simp only [contents, List.cons_append, List.append_assoc, List.nil_append] at hc
    obtain ⟨c₁, hc₁, first, mid, f', hef, hfirst, hrest⟩ :=
      (ih callee (by simp [children])).beforePostfix hcallee hc
    obtain ⟨ho, hc₁⟩ := hc₁.plain_inv
    have hargs : ∀ x ∈ args, x.Readable := fun x hx => ih x (by simp [children, hx])
    by_cases hnil : args = []
    · subst hnil
      obtain ⟨hclose, hws⟩ := hc₁.plain_inv
      refine ⟨c₁.next.next, hws, first, mid, _, ?_, hfirst, fun x stop hx =>
        hrest x stop (.emptyCall ho hclose hx)⟩
      rw [erase, erase, hef, hsite]
      rfl
    · obtain ⟨c₂, es', hees, hr, hclose, hws⟩ := elements_of_contents hargs hnil c₁.next hc₁
      refine ⟨c₂.next, hws, first, mid, _, ?_, hfirst, fun x stop hx =>
        hrest x stop (.call ho hr hclose hx)⟩
      rw [erase, erase, hef, hees, hsite]
      rfl
  | block site statements =>
    refine readable_of_opened fun c ws hc _ => ?_
    simp only [contents, List.cons_append, List.append_assoc, List.nil_append] at hc
    obtain ⟨ho, hc⟩ := hc.plain_inv
    obtain ⟨c', es', hees, hr, hws⟩ := statements_of_contents ih hshape.2 c.next hc
    refine ⟨c', hws, readsOpen_of_primary ?_ (.block ho hr)⟩
    rw [erase, erase, hees, Cursor.siteUpTo, hsite]
    rfl
  | ifChain site branches =>
    refine readable_of_opened fun c ws hc hbefore => ?_
    have hif : c.nextIs .keyword "if" = true := by
      cases branches with
      | nil => exact absurd rfl hshape.2.nonempty
      | cons b bs =>
        cases b with
        | always body => simpa [Branch.condition?] using hshape.2.first (.always body) rfl
        | guarded condition body =>
          simp only [contents, armsContents, armContents, List.cons_append] at hc
          exact hc.plain_inv.1
    obtain ⟨c', bs', hebs, hr, hws⟩ :=
      arms_of_contents ih hshape.2 (hbefore.noPostfix rfl) hbefore.noElse c hif hc
    refine ⟨c', hws, readsOpen_of_primary ?_ (.ifChain hif hr)⟩
    rw [erase, erase, hebs, Cursor.siteUpTo, hsite]
    rfl
  | loop site body =>
    refine readable_of_opened fun c ws hc hbefore => ?_
    rw [contents, List.cons_append] at hc
    obtain ⟨ho, hc⟩ := hc.plain_inv
    obtain ⟨c', hws, e', hee, hr⟩ := (ih body (by simp [children])).operand hshape.2 hc
      (hbefore.noPostfix rfl) hbefore.noElse
    refine ⟨c', hws, readsOpen_of_primary ?_ (.loop ho hr)⟩
    rw [erase, erase, hee, Cursor.siteUpTo, hsite]
    rfl
  | accessor site object member =>
    refine readable_of_opened fun c ws hc _ => ?_
    have hobject : object.takesPostfix = true := hshape.2
    simp only [contents, List.cons_append, List.append_assoc, List.nil_append] at hc
    obtain ⟨c₁, hc₁, first, mid, o', heo, hfirst, hrest⟩ :=
      (ih object (by simp [children])).beforePostfix hobject hc
    obtain ⟨ho, hc₁⟩ := hc₁.plain_inv
    obtain ⟨t, ht, hk, rfl⟩ := hc₁.peek?_plain
    refine ⟨c₁.next.next, hc₁.plain_inv.2, first, mid, _, ?_, hfirst, fun x stop hx =>
      hrest x stop (.access ho ht hk hx)⟩
    rw [erase, erase, heo, hsite]
    rfl

end Expr

end FrontEnd
