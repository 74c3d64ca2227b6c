import FrontEnd.Proofs.Layout

/-!
# Errors come in source order

The errors of a module start at greater and greater offsets. The error of a declaration that cannot
be read is where the declaration was tried or after it, and no further than where reading resumes.

* `confined` compares a run with itself: it and its errors stay between two places, of which the
  second is the end or the keyword of a declaration.
* `declaration_fails_from`, `declaration_fails_upto`, `declaration_fails_past` bound the error of
  one declaration. One that starts with its keyword fails after that keyword, which makes the order
  strict.
* `Recovers` is the run over a module with the declarations that fail on the way;
  `Recovers.errors_ordered` goes by induction on it.
* `parseModule_errors_ordered` is the statement for sources.
-/

set_option autoImplicit false

namespace FrontEnd

open Grammar FrontEnd.Parser Cursor

/-! ## Runs between two places -/

section

variable {ts : List Token} {low high : Nat}

/-- At least `low` and at most `high` tokens of the list are passed. -/
structure Cursor.Between (ts : List Token) (low high : Nat) (c : Cursor) : Prop where
  tokens : c.tokens = ts
  low : low ≤ c.position
  high : c.position ≤ high

/-- The place is the end of the tokens, or a keyword that starts a declaration stands there. -/
structure Barrier (ts : List Token) (high : Nat) : Prop where
  le_length : high ≤ ts.length
  starts : ∀ t, ts[high]? = some t → startsDeclaration t = true

/-- The span starts where one of the tokens between the two places does. -/
def Span.Between (ts : List Token) (low high : Nat) (s : Span) : Prop :=
  ∃ i, low ≤ i ∧ i ≤ high ∧ s.start = offsetAt ts i

theorem Cursor.Between.nextSpan {c : Cursor} (h : c.Between ts low high) :
    c.nextSpan.Between ts low high :=
  ⟨c.position, h.low, h.high, by rw [c.nextSpan_start, h.tokens]⟩

theorem Cursor.Between.mono {low' : Nat} {c : Cursor} (h : c.Between ts low high)
    (hle : low' ≤ low) : c.Between ts low' high :=
  ⟨h.tokens, Nat.le_trans hle h.low, h.high⟩

/-- A token that starts no declaration is not the last before the barrier is passed. -/
theorem Cursor.Between.next {c : Cursor} {t : Token} (h : c.Between ts low high)
    (hb : Barrier ts high) (ht : c.peek? = some t) (hplain : startsDeclaration t = false) :
    c.next.Between ts low high := by
  have hne : c.position ≠ high := by
    intro heq
    have hstarts := hb.starts t (by rw [← heq, ← h.tokens, ← c.peek?_eq_getElem?, ht])
    rw [hplain] at hstarts
    cases hstarts
  have hrest : c.rest ≠ [] := by
    rw [peek?_eq_some_iff.mp ht]
    simp
  have hlow := h.low
  have hhigh := h.high
  refine ⟨c.tokens_next.trans h.tokens, ?_, ?_⟩ <;>
    · rw [position_next, if_neg hrest]
      omega

/-- A run and itself, as long as it stays between the two places. -/
def confined (hts : Ordered ts) (hb : Barrier ts high) (low : Nat) : Correspondence where
  toTreeRelation := .equality
  place c d := c = d ∧ c.Between ts low high
  errorSpan s s' := s = s' ∧ s.Between ts low high
  words := by
    rintro c _ ⟨rfl, _⟩
    rfl
  next := by
    rintro c _ t ⟨rfl, h⟩ ht hplain
    exact ⟨rfl, h.next hb ht hplain⟩
  suffix := by
    rintro c _ t ⟨rfl, _⟩ _ _
    rfl
  nextSpan := by
    rintro c _ ⟨rfl, _⟩
    rfl
  lastSpan := by
    rintro c _ ⟨rfl, _⟩
    rfl
  errorNext := by
    rintro c _ ⟨rfl, h⟩
    exact ⟨rfl, h.nextSpan⟩
  errorSince := by
    rintro c _ c' _ ⟨rfl, h⟩ ⟨rfl, h'⟩ hlt
    have hsame := h'.tokens.trans h.tokens.symm
    have hstart := since_start (h.tokens ▸ hts) hsame (position_lt hsame hlt)
    obtain ⟨i, hlow, hhigh, hi⟩ := h.nextSpan
    exact ⟨rfl, i, hlow, hhigh, hstart.trans hi⟩
  errorOrder := by
    rintro s _ t _ ⟨rfl, _⟩ ⟨rfl, _⟩
    exact Iff.rfl

theorem confined_function {hts : Ordered ts} {hb : Barrier ts high} {c : Cursor}
    (hmissing : (c.skipIf .keyword "extern").nextIs .keyword "fn" = false →
      (c.skipIf .keyword "extern").Between ts low high)
    (hfound : (c.skipIf .keyword "extern").nextIs .keyword "fn" = true →
      c.afterHead.Between ts low high) : (confined hts hb low).FunctionStart c c :=
  ⟨rfl, rfl, fun hf => ⟨rfl, (hmissing hf).nextSpan⟩, fun hf => ⟨rfl, hfound hf⟩⟩

theorem confined_struct {hts : Ordered ts} {hb : Barrier ts high} {c : Cursor}
    (hmissing : c.nextIs .keyword "struct" = false → c.Between ts low high)
    (hfound : c.nextIs .keyword "struct" = true → c.next.Between ts low high) :
    (confined hts hb low).StructStart c c :=
  ⟨rfl, rfl, fun hs => ⟨rfl, (hmissing hs).nextSpan⟩, fun hs => ⟨rfl, hfound hs⟩⟩

/-- An error of a run that stays between two places starts there. -/
theorem Correspondence.Agree.error_between {hts : Ordered ts} {hb : Barrier ts high} {α : Type}
    {R : α → α → Prop} {p : Parser α} {c c' : Cursor} {e : ParseError}
    (h : (confined hts hb low).Agree R p p c c) (hrun : p.run c = (.error e, c')) :
    e.span.Between ts low high := by
  cases h with
  | error hp _ he =>
    rw [hrun] at hp
    cases hp
    exact he.span.2
  | ok hp _ _ _ =>
    rw [hrun] at hp
    cases hp

end

/-! ## Where reading resumes -/

theorem skipFrom_resumes (passed ts : List Token) :
    (skipFrom passed ts).tokens = passed.reverse ++ ts ∧
      passed.length ≤ (skipFrom passed ts).position ∧
      ∀ t, (skipFrom passed ts).peek? = some t → startsDeclaration t = true := by
  induction ts generalizing passed with
  | nil => exact ⟨rfl, Nat.le_refl _, fun t ht => by cases ht⟩
  | cons u ts ih =>
    unfold skipFrom
    split
    · rename_i hstop
      refine ⟨rfl, Nat.le_refl _, fun t ht => ?_⟩
      cases ht
      exact (Bool.and_eq_true _ _ ▸ hstop).1
    · obtain ⟨htokens, hle, hstarts⟩ := ih (u :: passed)
      refine ⟨?_, ?_, hstarts⟩
      · rw [htokens, List.reverse_cons, List.append_assoc, List.singleton_append]
      · exact Nat.le_trans (Nat.le_succ _) hle

section

variable {c : Cursor}

theorem tokens_skipToDeclaration (c : Cursor) : (skipToDeclaration c).tokens = c.tokens := by
  obtain ⟨passed, rest⟩ := c
  cases rest with
  | nil => rfl
  | cons t ts =>
    rw [skipToDeclaration, (skipFrom_resumes (t :: passed) ts).1, List.reverse_cons,
      List.append_assoc, List.singleton_append]
    rfl

theorem exists_peek (hne : c.rest ≠ []) : ∃ t, c.peek? = some t := by
  obtain ⟨t, ts, hrest⟩ := List.exists_cons_of_ne_nil hne
  exact ⟨t, by rw [Cursor.peek?, hrest, List.head?_cons]⟩

theorem position_next_of (hne : c.rest ≠ []) : c.next.position = c.position + 1 := by
  rw [position_next, if_neg hne]

theorem position_skipToDeclaration (hne : c.rest ≠ []) :
    c.next.position ≤ (skipToDeclaration c).position := by
  obtain ⟨passed, rest⟩ := c
  cases rest with
  | nil => exact absurd rfl hne
  | cons t ts => exact (skipFrom_resumes (t :: passed) ts).2.1

/-- Reading does not resume within the head of the declaration that failed. -/
theorem position_afterHead (hf : (c.skipIf .keyword "extern").nextIs .keyword "fn" = true) :
    c.afterHead.position ≤ (skipToDeclaration c).position := by
  obtain ⟨f, hpeek, hkind, htext⟩ := nextIs_iff.mp hf
  unfold Cursor.afterHead
  cases hx : c.nextIs .keyword "extern" with
  | false =>
    rw [skipIf_of_not hx] at hpeek ⊢
    exact position_skipToDeclaration (by rw [peek?_eq_some_iff.mp hpeek]; simp)
  | true =>
    rw [skipIf_of hx] at hpeek ⊢
    obtain ⟨x, hxpeek, hxkind, hxtext⟩ := nextIs_iff.mp hx
    have hrest : c.rest = x :: f :: c.next.next.rest := by
      rw [peek?_eq_some_iff.mp hxpeek, peek?_eq_some_iff.mp hpeek]
    have hpassed : c.next.next.passed = f :: x :: c.passed := by
      rw [passed_next hpeek, passed_next hxpeek]
    have hgoes : continuesExtern (x :: c.passed) f = true := by
      rw [continuesExtern, List.head?_cons, Option.any_some, Bool.and_eq_true, Token.is_iff,
        Token.is_iff]
      exact ⟨⟨hkind, htext⟩, hxkind, hxtext⟩
    rw [skipToDeclaration, hrest]
    dsimp only
    rw [skipFrom, hgoes, Bool.not_true, Bool.and_false, if_neg Bool.false_ne_true]
    unfold position
    rw [hpassed]
    exact (skipFrom_resumes (f :: x :: c.passed) c.next.next.rest).2.1

/-- Where reading resumes the keyword of a declaration stands. -/
theorem startsDeclaration_resume (hne : c.rest ≠ []) :
    ∀ t, (skipToDeclaration c).peek? = some t → startsDeclaration t = true := by
  obtain ⟨passed, rest⟩ := c
  cases rest with
  | nil => exact absurd rfl hne
  | cons u ts => exact (skipFrom_resumes (u :: passed) ts).2.2

theorem barrier_skipToDeclaration (hne : c.rest ≠ []) :
    Barrier c.tokens (skipToDeclaration c).position where
  le_length := position_le_length (tokens_skipToDeclaration c)
  starts t ht := by
    rw [← tokens_skipToDeclaration, ← peek?_eq_getElem?] at ht
    exact startsDeclaration_resume hne t ht

/-- After the head of a function reading has passed a token, and is not where it resumes yet. -/
theorem afterHead_between (hf : (c.skipIf .keyword "extern").nextIs .keyword "fn" = true) :
    c.afterHead.Between c.tokens (c.position + 1) (skipToDeclaration c).position := by
  have hskip : (c.skipIf .keyword "extern").tokens = c.tokens ∧
      c.position ≤ (c.skipIf .keyword "extern").position := by
    unfold Cursor.skipIf
    split
    · exact ⟨c.tokens_next, by rw [position_next]; exact Nat.le_add_right _ _⟩
    · exact ⟨rfl, Nat.le_refl _⟩
  obtain ⟨f, hpeek, _⟩ := nextIs_iff.mp hf
  have hne : (c.skipIf .keyword "extern").rest ≠ [] := by
    rw [peek?_eq_some_iff.mp hpeek]
    simp
  refine ⟨(tokens_next _).trans hskip.1, ?_, position_afterHead hf⟩
  unfold Cursor.afterHead
  rw [position_next_of hne]
  exact Nat.succ_le_succ hskip.2

theorem next_between (hne : c.rest ≠ []) :
    c.next.Between c.tokens (c.position + 1) (skipToDeclaration c).position :=
  ⟨c.tokens_next, Nat.le_of_eq (position_next_of hne).symm, position_skipToDeclaration hne⟩

theorem startsDeclaration_cases {t : Token} (ht : c.peek? = some t)
    (hstarts : startsDeclaration t = true) :
    c.nextIs .keyword "fn" = true ∨ c.nextIs .keyword "extern" = true ∨
      c.nextIs .keyword "struct" = true := by
  rw [nextIs_eq_of_peek ht, nextIs_eq_of_peek ht, nextIs_eq_of_peek ht, Token.is_iff,
    Token.is_iff, Token.is_iff]
  simp only [startsDeclaration, Bool.and_eq_true, beq_iff_eq, List.contains_eq_mem,
    decide_eq_true_eq, List.mem_cons, List.not_mem_nil, or_false] at hstarts
  obtain ⟨hkind, hfn | hextern | hstruct⟩ := hstarts
  · exact .inl ⟨hkind, hfn⟩
  · exact .inr (.inl ⟨hkind, hextern⟩)
  · exact .inr (.inr ⟨hkind, hstruct⟩)

/-! ## The error of a declaration -/

theorem ParseError.le_further (e f : ParseError) :
    e.span.start ≤ (e.further f).span.start ∧ f.span.start ≤ (e.further f).span.start := by
  unfold ParseError.further
  split <;> omega

theorem le_furthestSoFar (best : Option ParseError) (e : ParseError) :
    e.span.start ≤ (furthestSoFar best e).span.start ∧
      ∀ x ∈ best, x.span.start ≤ (furthestSoFar best e).span.start := by
  cases best with
  | none => exact ⟨Nat.le_refl _, fun x hx => by cases hx⟩
  | some z =>
    refine ⟨(z.le_further e).2, fun x hx => ?_⟩
    cases hx
    exact (z.le_further e).1

theorem le_tryEach {α : Type} {ps : List (Parser α)} :
    ∀ {best b : Option ParseError}, tryEach c ps best = .error b →
      (∀ x ∈ best, ∃ y ∈ b, x.span.start ≤ y.span.start) ∧
        ∀ p ∈ ps, ∃ e c', p.run c = (.error e, c') ∧ ∃ y ∈ b, e.span.start ≤ y.span.start := by
  induction ps with
  | nil =>
    intro best b h
    cases h
    exact ⟨fun x hx => ⟨x, hx, Nat.le_refl _⟩, fun p hp => absurd hp List.not_mem_nil⟩
  | cons p ps ih =>
    intro best b h
    cases hrun : p.run c with
    | mk r c' =>
      cases r with
      | ok a =>
        rw [tryEach_of_ok hrun] at h
        cases h
      | error e =>
        rw [tryEach_of_error hrun] at h
        obtain ⟨hbest, hrest⟩ := ih h
        obtain ⟨y, hy, hle⟩ := hbest _ rfl
        have hfurther := le_furthestSoFar best e
        refine ⟨fun x hx => ⟨y, hy, Nat.le_trans (hfurther.2 x hx) hle⟩, fun q hq => ?_⟩
        rcases List.mem_cons.mp hq with rfl | hq
        · exact ⟨e, c', hrun, y, hy, Nat.le_trans hfurther.1 hle⟩
        · exact hrest q hq

/-- A choice fails no nearer than an alternative that got beyond the start. -/
theorem le_oneOf_error {α : Type} {ps : List (Parser α)} {otherwise : Cursor → ParseError}
    {c' : Cursor} {e : ParseError} (h : (oneOf ps otherwise).run c = (.error e, c'))
    {p : Parser α} (hp : p ∈ ps) :
    ∃ f c₁, p.run c = (.error f, c₁) ∧
      (c.nextSpan.start < f.span.start → f.span.start ≤ e.span.start) := by
  cases htry : tryEach c ps none with
  | ok r =>
    obtain ⟨a, c₁⟩ := r
    rw [run_oneOf_eq_ok.mpr htry] at h
    cases h
  | error b =>
    rw [run_oneOf_of_error htry] at h
    cases h
    obtain ⟨f, c₁, hf, y, hy, hle⟩ := (le_tryEach htry).2 p hp
    refine ⟨f, c₁, hf, fun hlt => ?_⟩
    cases hy
    rw [choiceError, if_pos (Nat.lt_of_lt_of_le hlt hle)]
    exact hle

variable {c' : Cursor} {e : ParseError}

/-- The error stands at a token from where the declaration was tried to where reading resumes. -/
theorem declaration_fails_between (hts : Ordered c.tokens) (hne : c.rest ≠ [])
    (h : (declaration climbing).run c = (.error e, c')) :
    e.span.Between c.tokens c.position (skipToDeclaration c).position := by
  have hafter := (next_between hne).mono (Nat.le_succ _)
  have hafter' := (next_between hne).low
  have hhere : c.Between c.tokens c.position (skipToDeclaration c).position :=
    ⟨rfl, Nat.le_refl _, Nat.le_of_succ_le (Nat.le_trans hafter' hafter.high)⟩
  have hskip : (c.skipIf .keyword "extern").Between c.tokens c.position
      (skipToDeclaration c).position := by
    unfold Cursor.skipIf
    split
    · exact hafter
    · exact hhere
  have hstart : (confined hts (barrier_skipToDeclaration hne) c.position).Start c c :=
    ⟨confined_function (fun _ => hskip) fun hf => (afterHead_between hf).mono (Nat.le_succ _),
      confined_struct (fun _ => hhere) fun _ => hafter, rfl, hhere.nextSpan⟩
  exact (Correspondence.agree_declaration Correspondence.keptBy_climbing hstart).error_between h

/-- The error is not before the place where the declaration was tried. -/
theorem declaration_fails_from (hts : Ordered c.tokens) (hne : c.rest ≠ [])
    (h : (declaration climbing).run c = (.error e, c')) :
    offsetAt c.tokens c.position ≤ e.span.start := by
  obtain ⟨i, hlow, hhigh, hi⟩ := declaration_fails_between hts hne h
  rw [hi]
  exact hts.offsetAt_le hlow (Nat.le_trans hhigh (barrier_skipToDeclaration hne).le_length)

/-- The error is not beyond the place where reading resumes. -/
theorem declaration_fails_upto (hts : Ordered c.tokens) (hne : c.rest ≠ [])
    (h : (declaration climbing).run c = (.error e, c')) :
    e.span.start ≤ offsetAt c.tokens (skipToDeclaration c).position := by
  obtain ⟨i, _, hhigh, hi⟩ := declaration_fails_between hts hne h
  rw [hi]
  exact hts.offsetAt_le hhigh (barrier_skipToDeclaration hne).le_length

/-- **A declaration that starts with its keyword fails after that keyword.** -/
theorem declaration_fails_past {t : Token} (hts : Ordered c.tokens) (ht : c.peek? = some t)
    (hstarts : startsDeclaration t = true) (h : (declaration climbing).run c = (.error e, c')) :
    offsetAt c.tokens c.position < e.span.start := by
  have hne : c.rest ≠ [] := by
    rw [peek?_eq_some_iff.mp ht]
    simp
  have hb := barrier_skipToDeclaration hne
  have hafter := next_between hne
  -- one of the two alternatives takes the keyword, and so its error lies beyond
  suffices hpast : ∃ p ∈ [Declaration.function <$> function climbing,
      Declaration.struct <$> struct], (confined hts hb (c.position + 1)).Agree
        (confined hts hb (c.position + 1)).Declarations p p c c by
    obtain ⟨p, hp, hagree⟩ := hpast
    obtain ⟨f, c₁, hf, hle⟩ := le_oneOf_error h hp
    obtain ⟨i, hlow, hhigh, hi⟩ := hagree.error_between hf
    have hlt := hts.offsetAt_lt hlow (Nat.le_trans hhigh hb.le_length)
    rw [c.nextSpan_start, hi] at hle
    exact Nat.lt_of_lt_of_le hlt (hle hlt)
  have hfunction (hmissing : (c.skipIf .keyword "extern").nextIs .keyword "fn" = false →
      (c.skipIf .keyword "extern").Between c.tokens (c.position + 1)
        (skipToDeclaration c).position) :
      (confined hts hb (c.position + 1)).Agree (confined hts hb (c.position + 1)).Declarations
        (Declaration.function <$> function climbing)
        (Declaration.function <$> function climbing) c c :=
    (Correspondence.agree_function Correspondence.keptBy_climbing
      (confined_function hmissing afterHead_between)).map fun _ _ => .function
  rcases startsDeclaration_cases ht hstarts with hfn | hextern | hstruct
  · refine ⟨_, List.mem_cons_self, hfunction fun hmissing => ?_⟩
    rw [skipIf_of_not (nextIs_disjoint hfn (.inr (by decide))), hfn] at hmissing
    cases hmissing
  · refine ⟨_, List.mem_cons_self, hfunction fun _ => ?_⟩
    rw [skipIf_of hextern]
    exact hafter
  · refine ⟨_, List.mem_cons_of_mem _ List.mem_cons_self, ?_⟩
    refine (Correspondence.agree_struct (confined_struct (fun hmissing => ?_) fun _ => hafter)).map
      fun _ _ => .struct
    rw [hstruct] at hmissing
    cases hmissing

end

/-! ## The run over a module -/

/-- A declaration that cannot be read: where it was tried, what is wrong, and where reading
resumes. -/
structure Failure where
  start : Cursor
  error : ParseError
  resume : Cursor

/-- Reading declarations from a place to the end of the tokens, with those that fail on the way. -/
inductive Recovers (layer : OperatorLayer) : Cursor → List Failure → Prop where
  | done {c : Cursor} (hend : c.rest = []) : Recovers layer c []
  | declared {c c' : Cursor} {d : Declaration} {fs : List Failure} (hne : c.rest ≠ [])
      (hrun : (declaration layer).run c = (.ok d, c')) (hrest : Recovers layer c' fs) :
      Recovers layer c fs
  | failed {c c' : Cursor} {e : ParseError} {fs : List Failure} (hne : c.rest ≠ [])
      (hrun : (declaration layer).run c = (.error e, c'))
      (hrest : Recovers layer (skipToDeclaration c') fs) :
      Recovers layer c (⟨c, e, skipToDeclaration c'⟩ :: fs)

/-- The errors of a module are those of the declarations that fail. -/
theorem declarationsAux_recovers :
    ∀ (fuel : Nat) (c : Cursor), c.rest.length < fuel → ∃ fs, Recovers climbing c fs ∧
      (declarationsAux climbing fuel c).1.errors = fs.map Failure.error := by
  intro fuel
  induction fuel with
  | zero => intro c hf; omega
  | succ fuel ih =>
    intro c hf
    by_cases hne : c.rest = []
    · rw [declarationsAux_end hne]
      exact ⟨[], .done hne, rfl⟩
    cases hrun : (declaration climbing).run c with
    | mk r c' =>
      cases r with
      | ok d =>
        have hreads : DeclarationReads true d c c' := declaration_run_iff.mp hrun
        have hlt := hreads.progress
        obtain ⟨fs, hfs, herrors⟩ := ih c' (by omega)
        rw [declarationsAux_ok hne hrun]
        exact ⟨fs, .declared hne hrun hfs, herrors⟩
      | error e =>
        have hlt := skipToDeclaration_lt hne
        obtain ⟨fs, hfs, herrors⟩ := ih (skipToDeclaration c) (by omega)
        obtain rfl : c' = c := run_oneOf_error hrun
        rw [declarationsAux_error hne hrun]
        exact ⟨_ :: fs, .failed hne hrun hfs, congrArg (e :: ·) herrors⟩

/-- The error lies from the first token of the declaration that was tried to the first of the next
one, or to the end of the last token. -/
structure Failure.Located (f : Failure) : Prop where
  start : ∃ t, f.start.peek? = some t ∧ t.span.start ≤ f.error.span.start
  resume : (∃ t, f.resume.peek? = some t ∧ f.error.span.start ≤ t.span.start) ∨
    f.resume.peek? = none ∧
      ∃ last, f.resume.tokens.getLast? = some last ∧ f.error.span.start ≤ last.span.stop

/-- A declaration leaves the tokens as they are and passes some. -/
theorem declaration_passes {c c' : Cursor} {d : Declaration}
    (hrun : (declaration climbing).run c = (.ok d, c')) :
    c'.tokens = c.tokens ∧ c.position < c'.position := by
  have hreads : DeclarationReads true d c c' := declaration_run_iff.mp hrun
  obtain ⟨t, head, ts, hrest, hpassed, _⟩ := hreads.tokens
  refine ⟨?_, ?_⟩
  · unfold tokens
    rw [hpassed, hrest, List.reverse_append, List.reverse_reverse, List.append_assoc]
  · unfold position
    rw [hpassed, List.length_append, List.length_reverse, List.length_cons]
    omega

/-- Recovery leaves the tokens as they are and passes some. -/
theorem recovery_passes {c : Cursor} (hne : c.rest ≠ []) :
    (skipToDeclaration c).tokens = c.tokens ∧ c.position < (skipToDeclaration c).position :=
  ⟨tokens_skipToDeclaration c,
    Nat.lt_of_succ_le (Nat.le_trans (next_between hne).low (next_between hne).high)⟩

theorem located_failure {c c' : Cursor} {e : ParseError} (hts : Ordered c.tokens)
    (hne : c.rest ≠ []) (hrun : (declaration climbing).run c = (.error e, c')) :
    Failure.Located ⟨c, e, skipToDeclaration c⟩ where
  start := by
    obtain ⟨t, ht⟩ := exists_peek hne
    have hfrom := declaration_fails_from hts hne hrun
    rw [← c.nextSpan_start, nextSpan_of_peek ht] at hfrom
    exact ⟨t, ht, hfrom⟩
  resume := by
    have hupto := declaration_fails_upto hts hne hrun
    rw [← tokens_skipToDeclaration, ← nextSpan_start] at hupto
    cases hpeek : (skipToDeclaration c).peek? with
    | some t =>
      rw [nextSpan_of_peek hpeek] at hupto
      exact .inl ⟨t, rfl, hupto⟩
    | none =>
      have hlast : c.tokens ≠ [] := by
        unfold tokens
        simp [hne]
      rw [nextSpan_start, offsetAt, ← peek?_eq_getElem?, hpeek, tokens_skipToDeclaration,
        List.getLast?_eq_some_getLast hlast] at hupto
      refine .inr ⟨rfl, _, ?_, hupto⟩
      rw [tokens_skipToDeclaration, List.getLast?_eq_some_getLast hlast]

namespace Recovers

variable {ts : List Token} {c : Cursor} {fs : List Failure}

/-- No error is before the place from where on it is read. -/
theorem errors_from (hts : Ordered ts) (h : Recovers climbing c fs) (htokens : c.tokens = ts) :
    ∀ f ∈ fs, offsetAt ts c.position ≤ f.error.span.start := by
  induction h with
  | done => exact fun f hf => absurd hf List.not_mem_nil
  | @declared c c' d fs hne hrun hrest ih =>
    obtain ⟨htokens', hlt⟩ := declaration_passes hrun
    rw [htokens] at htokens'
    have hle := hts.offsetAt_le (Nat.le_of_lt hlt) (position_le_length htokens')
    exact fun f hf => Nat.le_trans hle (ih htokens' f hf)
  | @failed c c' e fs hne hrun hrest ih =>
    obtain rfl : c' = c := run_oneOf_error hrun
    obtain ⟨htokens', hlt⟩ := recovery_passes hne
    rw [htokens] at htokens'
    have hle := hts.offsetAt_le (Nat.le_of_lt hlt) (position_le_length htokens')
    intro f hf
    rcases List.mem_cons.mp hf with rfl | hf
    · subst htokens
      exact declaration_fails_from hts hne hrun
    · exact Nat.le_trans hle (ih htokens' f hf)

/-- Where a declaration starts with its keyword, every error is after that keyword. -/
theorem errors_past (hts : Ordered ts) (h : Recovers climbing c fs) (htokens : c.tokens = ts)
    (hstarts : ∀ t, c.peek? = some t → startsDeclaration t = true) :
    ∀ f ∈ fs, offsetAt ts c.position < f.error.span.start := by
  cases h with
  | done => exact fun f hf => absurd hf List.not_mem_nil
  | @declared _ c' d _ hne hrun hrest =>
    obtain ⟨htokens', hlt⟩ := declaration_passes hrun
    rw [htokens] at htokens'
    have hlt' := hts.offsetAt_lt hlt (position_le_length htokens')
    exact fun f hf => Nat.lt_of_lt_of_le hlt' (hrest.errors_from hts htokens' f hf)
  | @failed _ c' e fs hne hrun hrest =>
    obtain rfl : c' = c := run_oneOf_error hrun
    obtain ⟨htokens', hlt⟩ := recovery_passes hne
    rw [htokens] at htokens'
    have hlt' := hts.offsetAt_lt hlt (position_le_length htokens')
    intro f hf
    rcases List.mem_cons.mp hf with rfl | hf
    · obtain ⟨t, ht⟩ := exists_peek hne
      subst htokens
      exact declaration_fails_past hts ht (hstarts t ht) hrun
    · exact Nat.lt_of_lt_of_le hlt' (hrest.errors_from hts htokens' f hf)

/-- **The errors start at greater and greater offsets.** -/
theorem errors_ordered (hts : Ordered ts) (h : Recovers climbing c fs) (htokens : c.tokens = ts) :
    (fs.map Failure.error).Pairwise fun e f => e.span.start < f.span.start := by
  induction h with
  | done => exact List.Pairwise.nil
  | @declared c c' d fs hne hrun hrest ih => exact ih ((declaration_passes hrun).1.trans htokens)
  | @failed c c' e fs hne hrun hrest ih =>
    obtain rfl : c' = c := run_oneOf_error hrun
    have htokens' := (recovery_passes hne).1.trans htokens
    refine List.Pairwise.cons ?_ (ih htokens')
    intro f hf
    obtain ⟨g, hg, rfl⟩ := List.mem_map.mp hf
    -- recovery stops at a keyword, which the next error is beyond and this one is not
    have hnext := hrest.errors_past hts htokens' (startsDeclaration_resume hne) g hg
    subst htokens
    exact Nat.lt_of_le_of_lt (declaration_fails_upto hts hne hrun) hnext

/-- **Every error lies within the declaration that failed.** -/
theorem located (hts : Ordered ts) (h : Recovers climbing c fs) (htokens : c.tokens = ts) :
    ∀ f ∈ fs, f.Located := by
  induction h with
  | done => exact fun f hf => absurd hf List.not_mem_nil
  | @declared c c' d fs hne hrun hrest ih => exact ih ((declaration_passes hrun).1.trans htokens)
  | @failed c c' e fs hne hrun hrest ih =>
    obtain rfl : c' = c := run_oneOf_error hrun
    have htokens' := (recovery_passes hne).1.trans htokens
    intro f hf
    rcases List.mem_cons.mp hf with rfl | hf
    · subst htokens
      exact located_failure hts hne hrun
    · exact ih htokens' f hf

end Recovers

/-- **Parse errors come in source order, one to a place.** The errors of a module are those of the
declarations that fail, in order. They start at greater and greater offsets, each from the start of
the declaration that was tried to where reading resumes. -/
theorem parseModule_errors_ordered {source : String} {tokens : List Token}
    (hsize : Text.byteLength source.toList ≤ Span.limit) (hlex : lex source = .ok tokens) :
    ∃ failures, Recovers climbing (Cursor.ofTokens tokens) failures ∧
      (parseModule tokens).errors = failures.map Failure.error ∧
      (parseModule tokens).errors.Pairwise (fun e f => e.span.start < f.span.start) ∧
      ∀ f ∈ failures, f.Located := by
  have hts := lex_ordered hsize hlex
  obtain ⟨fs, hfs, herrors⟩ :=
    declarationsAux_recovers (tokens.length + 1) (Cursor.ofTokens tokens) (Nat.lt_succ_self _)
  refine ⟨fs, hfs, herrors, ?_, hfs.located hts rfl⟩
  show (declarationsAux climbing (tokens.length + 1) (Cursor.ofTokens tokens)).1.errors.Pairwise _
  rw [herrors]
  exact hfs.errors_ordered hts rfl

/-- Three declarations that cannot be read: the errors are at the first token of one, within one,
and at the end of the source. -/
theorem parseModule_errors_ordered_three :
    ∃ tokens, lex "1 fn a(:) struct" = .ok tokens ∧
      (parseModule tokens).errors.map (·.span.start) = [0, 7, 16] ∧
      ∃ failures, Recovers climbing (Cursor.ofTokens tokens) failures ∧
        (parseModule tokens).errors = failures.map Failure.error ∧
        (parseModule tokens).errors.Pairwise (fun e f => e.span.start < f.span.start) ∧
        ∀ f ∈ failures, f.Located := by
  obtain ⟨tokens, hlex, hstarts⟩ : ∃ tokens, lex "1 fn a(:) struct" = .ok tokens ∧
      (parseModule tokens).errors.map (·.span.start) = [0, 7, 16] := ⟨_, rfl, rfl⟩
  exact ⟨tokens, hlex, hstarts, parseModule_errors_ordered (by decide) hlex⟩

end FrontEnd
