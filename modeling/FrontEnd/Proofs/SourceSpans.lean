import FrontEnd.Proofs.ErrorOrder
import FrontEnd.Proofs.LexerStates

/-!
# Spans point into their source

Every span that is recorded while a source is read lies in the source, with both ends between two
characters, so the source can be cut there.

* `Span.PointsInto` is that condition. `Span.Closed` says of a condition on spans that it holds
  wherever a span is made of others; `closed_pointsInto` that this one does.
* `lex_error_pointsInto`: the span of a lexical error, however much of a literal was read.
* `placed` compares a run of the parser with itself to follow the spans: what holds of those of the
  tokens holds of those of every error and node. `parseModule_spans` goes on over a module.
-/

set_option autoImplicit false

namespace FrontEnd

open Grammar FrontEnd.Parser Cursor Lexer Text

/-! ## Spans of a source -/

/-- The span lies in the source, from one character or the end to another. -/
structure Span.PointsInto (s : Span) (source : String) : Prop where
  ordered : s.start ≤ s.stop
  inside : s.stop ≤ byteLength source.toList
  start : IsBoundary source s.start
  stop : IsBoundary source s.stop

/-- A condition that holds of a span wherever it is made of spans of which it holds. -/
structure Span.Closed (P : Span → Prop) : Prop where
  none : P Span.none
  point : ∀ s, P s → P (Span.point s.stop)
  merge : ∀ s t, P s → P t → P (s.merge t)

section

variable {source : String} {s t : Span}

theorem Text.IsBoundary.le_byteLength {offset : Nat} (h : IsBoundary source offset) :
    offset ≤ byteLength source.toList := by
  obtain ⟨front, back, hs, rfl⟩ := h
  rw [hs, byteLength_append]
  exact Nat.le_add_right _ _

theorem Span.PointsInto.of_boundaries (ho : s.start ≤ s.stop) (hs : IsBoundary source s.start)
    (ht : IsBoundary source s.stop) : s.PointsInto source :=
  ⟨ho, ht.le_byteLength, hs, ht⟩

/-- **The source can be cut at the ends of the span.** -/
theorem Span.PointsInto.between (h : s.PointsInto source) :
    ∃ cs, Text.between source.toList s.start s.stop = some cs := by
  obtain ⟨ho, _, ⟨front, back, hs, hfront⟩, front', back', hs', hfront'⟩ := h
  rw [hs] at hs'
  rw [Text.between, if_pos ho, hs, ← hfront, dropBytes_append]
  rcases List.append_eq_append_iff.mp hs' with ⟨middle, rfl, rfl⟩ | ⟨middle, rfl, rfl⟩
  · have hlength : s.stop - byteLength front = byteLength middle := by
      rw [← hfront', byteLength_append]
      omega
    dsimp only
    rw [hlength, takeBytes_append]
    exact ⟨middle, rfl⟩
  · have hlength : s.stop - byteLength (front' ++ middle) = 0 := by
      rw [byteLength_append]
      omega
    dsimp only
    rw [hlength]
    exact ⟨[], by cases back <;> rfl⟩

theorem closed_pointsInto (source : String) : Span.Closed fun s => s.PointsInto source where
  none := .of_boundaries (Nat.le_refl _) ⟨[], source.toList, rfl, rfl⟩ ⟨[], source.toList, rfl, rfl⟩
  point _ hs := .of_boundaries (Nat.le_refl _) hs.stop hs.stop
  merge s t hs ht := by
    refine .of_boundaries ?_ ?_ ?_
    · exact Nat.le_trans (Nat.min_le_left _ _) (Nat.le_trans hs.ordered (Nat.le_max_left _ _))
    · rw [Span.merge_start]
      rcases Nat.le_total s.start t.start with hle | hle
      · rw [Nat.min_eq_left hle]
        exact hs.start
      · rw [Nat.min_eq_right hle]
        exact ht.start
    · rw [Span.merge_stop]
      rcases Nat.le_total s.stop t.stop with hle | hle
      · rw [Nat.max_eq_right hle]
        exact ht.stop
      · rw [Nat.max_eq_left hle]
        exact hs.stop

end

/-! ## Spans of the lexer -/

section

variable {source : String} {l l' : Lexer}

/-- The characters that were read for an error are a part of the source. -/
theorem nextToken_error_pointsInto (hsize : byteLength source.toList ≤ Span.limit)
    (h : l.StandsIn source) {e : LexError} (he : l.nextToken.1 = .error e) :
    e.span.PointsInto source := by
  obtain ⟨front, hs, ho⟩ := h
  rcases nextToken_cases l with ⟨-, hcall⟩ | ⟨gap, x, hr, -, -, -, hcall⟩
  · rw [hcall] at he
    cases he
  · rw [hr] at hs
    obtain ⟨hstart, hstop, -⟩ := source_splits hs
    have hspan := @lexeme_span source front gap x.taken x.rest .string "" 0 hsize hs
    have herror : e.span = ⟨byteLength (front ++ gap),
        byteLength (front ++ gap) + byteLength x.taken⟩ := by
      rw [← hspan, ho]
      rw [hcall] at he
      unfold Lexeme.answer at he
      split at he
      · cases he
      · cases he
        rfl
    rw [herror]
    exact .of_boundaries (Nat.le_add_right _ _) ⟨_, _, hstart, rfl⟩
      ⟨_, _, hstop, byteLength_append _ _⟩

theorem lexAux_error_pointsInto (hsize : byteLength source.toList ≤ Span.limit) :
    ∀ (fuel : Nat) (l : Lexer), l.StandsIn source →
      ∀ e, (lexAux fuel l).1 = .error e → e.span.PointsInto source := by
  intro fuel
  induction fuel with
  | zero => intro l _ e h; cases h
  | succ fuel ih =>
    intro l hl e h
    have hnext := hl.nextToken
    have herror := @nextToken_error_pointsInto source l hsize hl
    rw [lexAux] at h
    cases hread : l.nextToken with
    | mk r l' =>
      rw [hread] at h hnext herror
      cases r with
      | error e' =>
        cases h
        exact herror rfl
      | ok t =>
        dsimp only at h
        split at h
        · cases h
        · cases hrest : lexAux fuel l' with
          | mk r' l'' =>
            have hlater := ih l' hnext
            rw [hrest] at h hlater
            cases r' with
            | ok ts => cases h
            | error e' =>
              cases h
              exact hlater e rfl

/-- **A lexical error points into the source.** -/
theorem lex_error_pointsInto (hsize : byteLength source.toList ≤ Span.limit) {e : LexError}
    (h : lex source = .error e) : e.span.PointsInto source :=
  lexAux_error_pointsInto hsize _ _ (standsIn_ofSource source) e h

/-- The tokens of a source point into it. -/
theorem lex_tokens_pointInto (hsize : byteLength source.toList ≤ Span.limit) {ts : List Token}
    (h : lex source = .ok ts) : ∀ t ∈ ts, t.span.PointsInto source := by
  intro t ht
  obtain ⟨_, hstands⟩ := (lex_lexes h).standsIn hsize [] rfl rfl t ht
  exact .of_boundaries (Nat.le_of_lt hstands.nonempty) hstands.start hstands.stop

end

/-! ## Spans of the parser -/

section

variable {P : Span → Prop}

/-- The span of a declaration and those of its parameters or members. -/
def Declaration.spans : Declaration → List Span
  | function f => f.span :: f.params.map Parameter.span
  | struct s => s.span :: s.members.map Member.span

theorem forall₂_same {α : Type} {Q : α → Prop} {as bs : List α}
    (h : List.Forall₂ (fun a b => Q a ∧ a = b) as bs) : (∀ a ∈ as, Q a) ∧ as = bs := by
  rw [List.forall₂_and_left, List.forall₂_eq_eq_eq] at h
  exact h

theorem Branch.eq_of_same {Q : Expr → Prop} {b b' : Branch}
    (h : Branch.Related (fun e f => Q e ∧ e = f) b b') : b = b' := by
  cases h with
  | guarded hc hb => rw [hc.2, hb.2]
  | always hb => rw [hb.2]

/-- Trees that are equal, with the condition on the spans of their nodes. -/
def TreeRelation.placed (hP : Span.Closed P) : TreeRelation where
  span s s' := P s ∧ s = s'
  expr e f := P e.span ∧ e = f
  parameter p q := P p.span ∧ p = q
  member m n := P m.span ∧ m = n
  function f g := (∀ s ∈ (Declaration.function f).spans, P s) ∧ f = g
  struct s t := (∀ x ∈ (Declaration.struct s).spans, P x) ∧ s = t
  merge := by
    rintro s _ t _ ⟨hs, rfl⟩ ⟨ht, rfl⟩
    exact ⟨hP.merge s t hs ht, rfl⟩
  spanOf := by
    rintro e _ ⟨he, rfl⟩
    exact ⟨he, rfl⟩
  atom := by
    rintro s _ a ⟨hs, rfl⟩
    exact ⟨hs, rfl⟩
  unary := by
    rintro s _ e _ op ⟨hs, rfl⟩ ⟨_, rfl⟩
    exact ⟨hs, rfl⟩
  binary := by
    rintro s _ e _ f _ op ⟨hs, rfl⟩ ⟨_, rfl⟩ ⟨_, rfl⟩
    exact ⟨hs, rfl⟩
  tuple := by
    rintro s _ es fs ⟨hs, rfl⟩ hes
    exact ⟨hs, by rw [(forall₂_same hes).2]⟩
  call := by
    rintro s _ e _ es fs ⟨hs, rfl⟩ ⟨_, rfl⟩ hes
    exact ⟨hs, by rw [(forall₂_same hes).2]⟩
  block := by
    rintro s _ es fs ⟨hs, rfl⟩ hes
    exact ⟨hs, by rw [(forall₂_same hes).2]⟩
  ifChain := by
    rintro s _ bs bs' ⟨hs, rfl⟩ hbs
    exact ⟨hs, by rw [eq_of_forall₂ (fun _ _ => Branch.eq_of_same) hbs]⟩
  loop := by
    rintro s _ e _ ⟨hs, rfl⟩ ⟨_, rfl⟩
    exact ⟨hs, rfl⟩
  accessor := by
    rintro s _ e _ name ⟨hs, rfl⟩ ⟨_, rfl⟩
    exact ⟨hs, rfl⟩
  parameterNode := by
    rintro s _ name type ⟨hs, rfl⟩
    exact ⟨hs, rfl⟩
  memberNode := by
    rintro s _ name type isPublic ⟨hs, rfl⟩
    exact ⟨hs, rfl⟩
  functionNode := by
    rintro s _ ps qs body body' isExtern name isVariadic type ⟨hs, rfl⟩ hps hbody
    obtain ⟨hspans, rfl⟩ := forall₂_same hps
    refine ⟨List.forall_mem_cons.mpr ⟨hs, List.forall_mem_map.mpr hspans⟩, ?_⟩
    cases hbody with
    | none => rfl
    | some he => rw [he.2]
  structNode := by
    rintro s _ ms ns name ⟨hs, rfl⟩ hms
    obtain ⟨hspans, rfl⟩ := forall₂_same hms
    exact ⟨List.forall_mem_cons.mpr ⟨hs, List.forall_mem_map.mpr hspans⟩, rfl⟩

/-- The condition holds of the spans of all tokens. -/
def Cursor.Placed (P : Span → Prop) (c : Cursor) : Prop := ∀ t ∈ c.tokens, P t.span

variable {c : Cursor}

theorem Cursor.Placed.next (h : c.Placed P) : c.next.Placed P := by
  unfold Cursor.Placed
  rw [c.tokens_next]
  exact h

theorem Cursor.Placed.skipIf (h : c.Placed P) (kind : TokenKind) (text : String) :
    (c.skipIf kind text).Placed P := by
  unfold Cursor.skipIf
  split
  · exact h.next
  · exact h

theorem Cursor.Placed.lastSpan (h : c.Placed P) (hP : Span.Closed P) : P c.lastSpan := by
  obtain ⟨passed, rest⟩ := c
  cases passed with
  | nil => exact hP.none
  | cons t ts => exact h t (by simp [Cursor.tokens])

theorem Cursor.Placed.nextSpan (h : c.Placed P) (hP : Span.Closed P) : P c.nextSpan := by
  obtain ⟨passed, rest⟩ := c
  cases rest with
  | cons t ts => exact h t (by simp [Cursor.tokens])
  | nil =>
    cases passed with
    | nil => exact hP.none
    | cons t ts => exact hP.point t.span (h t (by simp [Cursor.tokens]))

/-- A run and itself, with the condition on the spans of tokens, errors and nodes. -/
def placed (hP : Span.Closed P) : Correspondence where
  toTreeRelation := .placed hP
  place c d := c.Placed P ∧ c = d
  errorSpan s s' := P s ∧ s = s'
  words := by
    rintro c _ ⟨_, rfl⟩
    rfl
  next := by
    rintro c _ t ⟨h, rfl⟩ _ _
    exact ⟨h.next, rfl⟩
  suffix := by
    rintro c _ t ⟨_, rfl⟩ _ _
    rfl
  nextSpan := by
    rintro c _ ⟨h, rfl⟩
    exact ⟨h.nextSpan hP, rfl⟩
  lastSpan := by
    rintro c _ ⟨h, rfl⟩
    exact ⟨h.lastSpan hP, rfl⟩
  errorNext := by
    rintro c _ ⟨h, rfl⟩
    exact ⟨h.nextSpan hP, rfl⟩
  errorSince := by
    rintro c _ c' _ ⟨h, rfl⟩ ⟨h', rfl⟩ _
    exact ⟨hP.merge _ _ (h.nextSpan hP) (h'.lastSpan hP), rfl⟩
  errorOrder := by
    rintro s _ t _ ⟨_, rfl⟩ ⟨_, rfl⟩
    exact Iff.rfl

theorem placed_start (hP : Span.Closed P) (h : c.Placed P) : (placed hP).Start c c where
  function := ⟨rfl, ⟨h.nextSpan hP, rfl⟩, fun _ => ⟨(h.skipIf _ _).nextSpan hP, rfl⟩,
    fun _ => ⟨(h.skipIf _ _).next, rfl⟩⟩
  struct := ⟨rfl, ⟨h.nextSpan hP, rfl⟩, fun _ => ⟨h.nextSpan hP, rfl⟩, fun _ => ⟨h.next, rfl⟩⟩
  errorNext := ⟨h.nextSpan hP, rfl⟩

theorem spans_of_declarations {hP : Span.Closed P} {d d' : Declaration}
    (h : (placed hP).Declarations d d') : ∀ s ∈ d.spans, P s := by
  cases h with
  | function hf => exact hf.1
  | struct hs => exact hs.1

theorem Cursor.Placed.skipToDeclaration (h : c.Placed P) : (skipToDeclaration c).Placed P := by
  unfold Cursor.Placed
  rw [tokens_skipToDeclaration]
  exact h

theorem declarationsAux_spans (hP : Span.Closed P) (fuel : Nat) (c : Cursor) (h : c.Placed P) :
    (∀ e ∈ (declarationsAux climbing fuel c).1.errors, P e.span) ∧
      ∀ d ∈ (declarationsAux climbing fuel c).1.declarations, ∀ s ∈ d.spans, P s := by
  induction fuel generalizing c with
  | zero => exact ⟨fun e he => absurd he List.not_mem_nil, fun d hd => absurd hd List.not_mem_nil⟩
  | succ fuel ih =>
    by_cases hne : c.rest = []
    · rw [declarationsAux_end hne]
      exact ⟨fun e he => absurd he List.not_mem_nil, fun d hd => absurd hd List.not_mem_nil⟩
    cases Correspondence.agree_declaration Correspondence.keptBy_climbing (placed_start hP h) with
    | error hrun _ he =>
      obtain rfl := run_oneOf_error hrun
      obtain ⟨herrors, hdeclarations⟩ := ih _ h.skipToDeclaration
      rw [declarationsAux_error hne hrun]
      exact ⟨List.forall_mem_cons.mpr ⟨he.span.1, herrors⟩, hdeclarations⟩
    | ok hrun _ hr hplace =>
      obtain ⟨herrors, hdeclarations⟩ := ih _ hplace.1
      rw [declarationsAux_ok hne hrun]
      exact ⟨herrors, List.forall_mem_cons.mpr ⟨spans_of_declarations hr, hdeclarations⟩⟩

/-- **The spans of a module and of its errors are made of those of the tokens.** -/
theorem parseModule_spans (hP : Span.Closed P) {tokens : List Token}
    (h : ∀ t ∈ tokens, P t.span) :
    (∀ e ∈ (parseModule tokens).errors, P e.span) ∧
      ∀ d ∈ (parseModule tokens).declarations, ∀ s ∈ d.spans, P s :=
  declarationsAux_spans hP _ (Cursor.ofTokens tokens) h

end

end FrontEnd
