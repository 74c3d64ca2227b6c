import FrontEnd.Grammar.Module

/-!
# Runs of parsers

What a successful run says about its parts: the rules by which a production is taken apart.

* `Cursor.next` is the place after the next token.
* `Parser.run_bind_eq_ok` splits a sequence; the rules after it are for the primitive readers.
* `Parser.Yields` says what every successful run of a parser has read.
* `Parser.SeriesReads` is a series of elements; `sepBy_reads` and `SeriesReads.run_sepBy` say that
  `Parser.sepBy` reads it.
-/

set_option autoImplicit false

namespace FrontEnd

namespace Cursor

/-- The place after the next token; at the end, the same place. -/
def next (c : Cursor) : Cursor := c.read.2

theorem peek?_eq_some_iff {c : Cursor} {t : Token} :
    c.peek? = some t ↔ c.rest = t :: c.next.rest := by
  obtain ⟨passed, rest⟩ := c
  cases rest with
  | nil => simp [peek?, next, read]
  | cons u rest => simp [peek?, next, read]

theorem passed_next {c : Cursor} {t : Token} (h : c.peek? = some t) :
    c.next.passed = t :: c.passed := by
  obtain ⟨passed, rest⟩ := c
  cases rest with
  | nil => simp [peek?] at h
  | cons u rest =>
    simp only [peek?, List.head?_cons, Option.some.injEq] at h
    subst h
    rfl

theorem lastSpan_next {c : Cursor} {t : Token} (h : c.peek? = some t) :
    c.next.lastSpan = t.span := by
  rw [lastSpan, passed_next h]

theorem rest_next_lt {c : Cursor} {t : Token} (h : c.peek? = some t) :
    c.next.rest.length < c.rest.length := by
  rw [peek?_eq_some_iff.mp h]
  simp

theorem peekAt?_one {c : Cursor} {t : Token} (h : c.peek? = some t) :
    c.peekAt? 1 = c.next.peek? := by
  unfold peekAt?
  rw [peek?_eq_some_iff.mp h, List.getElem?_cons_succ]
  exact List.head?_eq_getElem?.symm

theorem nextIs_iff {c : Cursor} {kind : TokenKind} {text : String} :
    c.nextIs kind text = true ↔ ∃ t, c.peek? = some t ∧ t.kind = kind ∧ t.text = text := by
  unfold nextIs
  cases c.peek? with
  | none => simp
  | some t => simp [Token.is_iff]

theorem nextIs_eq_of_peek {c : Cursor} {t : Token} (h : c.peek? = some t) (kind : TokenKind)
    (text : String) : c.nextIs kind text = t.is kind text := by
  simp [nextIs, h]

theorem nextIsAt_one {c : Cursor} {t : Token} (h : c.peek? = some t) (kind : TokenKind)
    (text : String) : c.nextIsAt kind text 1 = c.next.nextIs kind text := by
  simp [nextIsAt, nextIs, peekAt?_one h]

/-- A token of one text is no token of another. -/
theorem nextIs_disjoint {c : Cursor} {kind kind' : TokenKind} {text text' : String}
    (h : c.nextIs kind text = true) (hne : kind ≠ kind' ∨ text ≠ text') :
    c.nextIs kind' text' = false := by
  obtain ⟨t, ht, hk, hx⟩ := nextIs_iff.mp h
  rw [nextIs_eq_of_peek ht, Bool.eq_false_iff]
  intro his
  obtain ⟨hk', hx'⟩ := Token.is_iff.mp his
  rcases hne with hne | hne
  · exact hne (hk.symm.trans hk')
  · exact hne (hx.symm.trans hx')

theorem nextIs_of_kind_ne {c : Cursor} {t : Token} (ht : c.peek? = some t) {kind : TokenKind}
    (hk : t.kind ≠ kind) (text : String) : c.nextIs kind text = false := by
  rw [nextIs_eq_of_peek ht, Bool.eq_false_iff]
  intro his
  exact hk (Token.is_iff.mp his).1

theorem rest_next_lt_of_nextIs {c : Cursor} {kind : TokenKind} {text : String}
    (h : c.nextIs kind text = true) : c.next.rest.length < c.rest.length := by
  obtain ⟨t, ht, _⟩ := nextIs_iff.mp h
  exact rest_next_lt ht

theorem read_of_peek {c : Cursor} {t : Token} (h : c.peek? = some t) :
    c.read = (some t, c.next) := by
  obtain ⟨passed, rest⟩ := c
  cases rest with
  | nil => simp [peek?] at h
  | cons u rest =>
    simp only [peek?, List.head?_cons, Option.some.injEq] at h
    subst h
    rfl

theorem readIf_eq (c : Cursor) (kind : TokenKind) (text : String) :
    c.readIf kind text =
      if c.nextIs kind text then (c.peek?, c.next) else (none, c) := by
  unfold readIf
  split
  · rename_i h
    obtain ⟨t, ht, _⟩ := nextIs_iff.mp h
    rw [read_of_peek ht, ht]
  · rfl

/-- The place after an optional token. -/
def skipIf (c : Cursor) (kind : TokenKind) (text : String) : Cursor :=
  if c.nextIs kind text then c.next else c

theorem rest_skipIf_le (c : Cursor) (kind : TokenKind) (text : String) :
    (c.skipIf kind text).rest.length ≤ c.rest.length := by
  unfold skipIf
  split
  · rename_i h
    exact Nat.le_of_lt (rest_next_lt_of_nextIs h)
  · exact Nat.le_refl _

theorem skipIf_of_not {c : Cursor} {kind : TokenKind} {text : String}
    (h : c.nextIs kind text = false) : c.skipIf kind text = c := by
  simp [skipIf, h]

theorem skipIf_of {c : Cursor} {kind : TokenKind} {text : String}
    (h : c.nextIs kind text = true) : c.skipIf kind text = c.next := by
  simp [skipIf, h]

end Cursor

namespace Parser

variable {α β : Type}

/-! ## Sequencing -/

theorem run_bind_eq_ok {p : Parser α} {f : α → Parser β} {c c' : Cursor} {b : β} :
    (p >>= f).run c = (.ok b, c') ↔
      ∃ a c₁, p.run c = (.ok a, c₁) ∧ (f a).run c₁ = (.ok b, c') := by
  rw [run_bind]
  constructor
  · intro h
    split at h
    · rename_i a c₁ hp
      exact ⟨a, c₁, hp, h⟩
    · simp at h
  · rintro ⟨a, c₁, hp, hf⟩
    rw [hp]
    exact hf

theorem run_map (f : α → β) (p : Parser α) (c : Cursor) :
    (f <$> p).run c = ((p.run c).1.map f, (p.run c).2) := by
  rw [← bind_pure_comp, run_bind]
  cases hp : p.run c with
  | mk r c' => cases r <;> rfl

theorem run_map_eq_ok {f : α → β} {p : Parser α} {c c' : Cursor} {b : β} :
    (f <$> p).run c = (.ok b, c') ↔ ∃ a, p.run c = (.ok a, c') ∧ f a = b := by
  rw [← bind_pure_comp, run_bind_eq_ok]
  constructor
  · rintro ⟨a, c₁, hp, hf⟩
    cases hf
    exact ⟨a, hp, rfl⟩
  · rintro ⟨a, hp, rfl⟩
    exact ⟨a, c', hp, rfl⟩

/-! ## Primitive readers -/

@[simp] theorem run_fail (e : ParseError) (c : Cursor) :
    (fail e : Parser α).run c = (.error e, c) := rfl

@[simp] theorem run_withCursor (f : Cursor → Parser α) (c : Cursor) :
    (withCursor f).run c = (f c).run c := rfl

@[simp] theorem run_withFuel (p : Nat → Parser α) (c : Cursor) :
    (withFuel p).run c = (p (c.rest.length + 1)).run c := rfl

@[simp] theorem run_nextSpan (c : Cursor) : nextSpan.run c = (.ok c.nextSpan, c) := rfl

@[simp] theorem run_spanSince (start : Span) (c : Cursor) :
    (spanSince start).run c = (.ok (start.merge c.lastSpan), c) := rfl

@[simp] theorem run_read (c : Cursor) : read.run c = (.ok c.peek?, c.next) := by
  obtain ⟨passed, rest⟩ := c
  cases rest <;> rfl

theorem run_readIf (kind : TokenKind) (text : String) (c : Cursor) :
    (readIf kind text).run c =
      (.ok (if c.nextIs kind text then c.peek? else none), c.skipIf kind text) := by
  show (Except.ok (c.readIf kind text).1, (c.readIf kind text).2) = _
  rw [Cursor.readIf_eq, Cursor.skipIf]
  split <;> rfl

theorem run_readKind (kind : TokenKind) (c : Cursor) :
    (readKind kind).run c = if c.nextHasKind kind then (.ok c.peek?, c.next) else (.ok none, c) := by
  unfold readKind Cursor.readKind
  dsimp only
  split
  · exact run_read c
  · rfl

@[simp] theorem run_accept (kind : TokenKind) (text : String) (c : Cursor) :
    (accept kind text).run c = (.ok (c.nextIs kind text), c.skipIf kind text) := by
  unfold accept
  rw [run_map, run_readIf]
  cases h : c.nextIs kind text with
  | false => rfl
  | true =>
    obtain ⟨t, ht, _⟩ := Cursor.nextIs_iff.mp h
    simp [Except.map, ht]

theorem run_require_eq_ok {kind : TokenKind} {text : String} {c c' : Cursor} {t : Token} :
    (require kind text).run c = (.ok t, c') ↔
      c.peek? = some t ∧ t.kind = kind ∧ t.text = text ∧ c' = c.next := by
  unfold require
  rw [run_bind_eq_ok]
  constructor
  · rintro ⟨a, c₁, hr, hk⟩
    rw [run_readIf] at hr
    cases h : c.nextIs kind text with
    | false =>
      rw [h] at hr
      cases hr
      simp at hk
    | true =>
      obtain ⟨u, hu, hkind, htext⟩ := Cursor.nextIs_iff.mp h
      rw [h, hu] at hr
      cases hr
      cases hk
      exact ⟨hu, hkind, htext, Cursor.skipIf_of h⟩
  · rintro ⟨ht, hk, hx, rfl⟩
    have h : c.nextIs kind text = true := Cursor.nextIs_iff.mpr ⟨t, ht, hk, hx⟩
    refine ⟨some t, c.next, ?_, rfl⟩
    rw [run_readIf, h, if_pos rfl, ht, Cursor.skipIf_of h]

theorem run_require_of {kind : TokenKind} {text : String} {c : Cursor}
    (h : c.nextIs kind text = true) :
    ∃ t, c.peek? = some t ∧ (require kind text).run c = (.ok t, c.next) := by
  obtain ⟨t, ht, hk, hx⟩ := Cursor.nextIs_iff.mp h
  exact ⟨t, ht, run_require_eq_ok.mpr ⟨ht, hk, hx, rfl⟩⟩

theorem run_require_of_not {kind : TokenKind} {text : String} {c : Cursor}
    (h : c.nextIs kind text = false) :
    (require kind text).run c = (.error (.expectedToken text c.peek? c.nextSpan), c) := by
  unfold require
  rw [run_bind, run_readIf, h, Cursor.skipIf_of_not h]
  rfl

theorem run_require_skip {α : Type} {p : Parser α} {kind : TokenKind} {text : String}
    {c c' : Cursor} {a : α} :
    (do let _ ← require kind text; p : Parser α).run c = (.ok a, c') ↔
      c.nextIs kind text = true ∧ p.run c.next = (.ok a, c') := by
  rw [run_bind_eq_ok]
  constructor
  · rintro ⟨t, c₁, hr, h⟩
    obtain ⟨ht, hk, hx, rfl⟩ := run_require_eq_ok.mp hr
    exact ⟨Cursor.nextIs_iff.mpr ⟨t, ht, hk, hx⟩, h⟩
  · rintro ⟨hn, h⟩
    obtain ⟨t, _, ht⟩ := run_require_of hn
    exact ⟨t, c.next, ht, h⟩

theorem run_requireSymbol_eq_ok {text : String} {c c' : Cursor} {t : Token} :
    (requireSymbol text).run c = (.ok t, c') ↔
      c.peek? = some t ∧ t.kind = .symbol ∧ t.text = text ∧ c' = c.next := by
  unfold requireSymbol
  rw [run_bind_eq_ok]
  constructor
  · rintro ⟨a, c₁, hr, hk⟩
    rw [run_readIf] at hr
    cases h : c.nextIs .symbol text with
    | false =>
      rw [h] at hr
      cases hr
      simp at hk
    | true =>
      obtain ⟨u, hu, hkind, htext⟩ := Cursor.nextIs_iff.mp h
      rw [h, hu] at hr
      cases hr
      cases hk
      exact ⟨hu, hkind, htext, Cursor.skipIf_of h⟩
  · rintro ⟨ht, hk, hx, rfl⟩
    have h : c.nextIs .symbol text = true := Cursor.nextIs_iff.mpr ⟨t, ht, hk, hx⟩
    refine ⟨some t, c.next, ?_, rfl⟩
    rw [run_readIf, h, if_pos rfl, ht, Cursor.skipIf_of h]

theorem run_requireIdentifier_eq_ok {c c' : Cursor} {t : Token} :
    requireIdentifier.run c = (.ok t, c') ↔
      c.peek? = some t ∧ t.kind = .identifier ∧ c' = c.next := by
  obtain ⟨passed, rest⟩ := c
  unfold requireIdentifier
  rw [run_bind_eq_ok]
  cases rest with
  | nil =>
    simp [readKind, Cursor.readKind, Cursor.nextHasKind, Cursor.peek?]
  | cons u rest =>
    by_cases hu : u.kind = .identifier
    · simp only [readKind, Cursor.readKind, Cursor.nextHasKind, Cursor.peek?, List.head?_cons,
        Option.any_some, hu, beq_self_eq_true, if_true, Cursor.read, Cursor.next]
      constructor
      · rintro ⟨a, c₁, hr, hk⟩
        cases hr
        cases hk
        exact ⟨rfl, hu, rfl⟩
      · rintro ⟨ht, _, rfl⟩
        cases ht
        exact ⟨some t, _, rfl, rfl⟩
    · simp only [readKind, Cursor.readKind, Cursor.nextHasKind, Cursor.peek?, List.head?_cons,
        Option.any_some, beq_iff_eq, hu, if_false]
      constructor
      · rintro ⟨a, c₁, hr, hk⟩
        cases hr
        simp at hk
      · rintro ⟨ht, hk, _⟩
        cases ht
        exact absurd hk hu

@[simp] theorem run_within_eq_ok {p : Parser α} {context : String} {c c' : Cursor} {a : α} :
    (p.within context).run c = (.ok a, c') ↔ p.run c = (.ok a, c') := by
  unfold within
  dsimp only
  split
  · rename_i b c₁ h
    rw [h]
  · rename_i e c₁ h
    simp [h]

theorem run_within_ok {p : Parser α} {c c' : Cursor} {a : α} (h : p.run c = (.ok a, c'))
    (context : String) : (p.within context).run c = (.ok a, c') :=
  run_within_eq_ok.mpr h

theorem run_within_error {p : Parser α} {c c' : Cursor} {e : ParseError}
    (h : p.run c = (.error e, c')) (context : String) :
    (p.within context).run c = (.error (e.within context), c') := by
  unfold within
  dsimp only
  rw [h]

theorem run_readAs (a : α) (c : Cursor) : (Grammar.readAs a).run c = (.ok a, c.next) := by
  unfold Grammar.readAs
  rw [run_bind_ok (run_read c), run_pure]

theorem run_nodeFrom (start : Span) (node : Site → Expr) (c : Cursor) :
    (Grammar.nodeFrom start node).run c =
      (.ok (node (Site.ofSpan (start.merge c.lastSpan))), c) := rfl

/-! ## What a parser reads -/

/-- Every successful run of the parser gives a value that stands between its two places. -/
def Yields (p : Parser α) (R : α → Cursor → Cursor → Prop) : Prop :=
  ∀ c a c', p.run c = (.ok a, c') → R a c c'

theorem Yields.within {p : Parser α} {R : α → Cursor → Cursor → Prop} (h : p.Yields R)
    (context : String) : (p.within context).Yields R := by
  intro c a c' hrun
  exact h c a c' (run_within_eq_ok.mp hrun)

/-- The alternative that a choice takes is its first that succeeds. -/
theorem tryEach_cons_ok {c c' : Cursor} {p : Parser α} {ps : List (Parser α)}
    {best : Option ParseError} {a : α} (h : tryEach c (p :: ps) best = .ok (a, c')) :
    p.run c = (.ok a, c') ∨
      (∃ e c'', p.run c = (.error e, c'')) ∧ ∃ best', tryEach c ps best' = .ok (a, c') := by
  unfold tryEach at h
  split at h
  · rename_i b c₁ hp
    cases h
    exact .inl hp
  · rename_i e c₁ hp
    exact .inr ⟨⟨e, c₁, hp⟩, _, h⟩

theorem tryEach_of_ok {c c' : Cursor} {p : Parser α} {a : α} (h : p.run c = (.ok a, c'))
    (ps : List (Parser α)) (best : Option ParseError) :
    tryEach c (p :: ps) best = .ok (a, c') := by
  simp [tryEach, h]

theorem tryEach_of_error {c c' : Cursor} {p : Parser α} {e : ParseError}
    (h : p.run c = (.error e, c')) (ps : List (Parser α)) (best : Option ParseError) :
    tryEach c (p :: ps) best = tryEach c ps (some (furthestSoFar best e)) := by
  simp [tryEach, h]

theorem run_oneOf_of_error {alternatives : List (Parser α)} {otherwise : Cursor → ParseError}
    {c : Cursor} {best : Option ParseError} (h : tryEach c alternatives none = .error best) :
    (oneOf alternatives otherwise).run c = (.error (choiceError c best otherwise), c) := by
  unfold oneOf
  dsimp only
  rw [h]

theorem run_oneOf_eq_ok {alternatives : List (Parser α)} {otherwise : Cursor → ParseError}
    {c c' : Cursor} {a : α} :
    (oneOf alternatives otherwise).run c = (.ok a, c') ↔
      tryEach c alternatives none = .ok (a, c') := by
  unfold oneOf
  dsimp only
  split
  · rename_i b c₁ h
    simp [h]
  · rename_i best h
    simp [h]

/-! ## What a parser refuses -/

/-- The parser does not succeed here. -/
def Fails (p : Parser α) (c : Cursor) : Prop := ∃ e c', p.run c = (.error e, c')

theorem Fails.bind {p : Parser α} {c : Cursor} (h : p.Fails c) (f : α → Parser β) :
    (p >>= f).Fails c := by
  obtain ⟨e, c', he⟩ := h
  exact ⟨e, c', run_bind_error he⟩

theorem fails_require {kind : TokenKind} {text : String} {c : Cursor}
    (h : c.nextIs kind text = false) : (require kind text).Fails c :=
  ⟨_, _, run_require_of_not h⟩

theorem tryEach_of_fails {c c' : Cursor} {p : Parser α} {ps : List (Parser α)} {a : α}
    (h : p.Fails c) (hps : ∀ best, tryEach c ps best = .ok (a, c')) (best : Option ParseError) :
    tryEach c (p :: ps) best = .ok (a, c') := by
  obtain ⟨e, c'', he⟩ := h
  rw [tryEach_of_error he]
  exact hps _

/-! ## Whole inputs -/

theorem run_peek? (c : Cursor) : peek?.run c = (.ok c.peek?, c) := rfl

/-- What is read from the whole input is what is read at the start and leaves nothing. -/
theorem parse_complete_eq_ok {p : Parser α} {tokens : List Token} {a : α} :
    p.complete.parse tokens = .ok a ↔
      ∃ c', p.run (Cursor.ofTokens tokens) = (.ok a, c') ∧ c'.rest = [] := by
  unfold parse complete
  cases hrun : p.run (Cursor.ofTokens tokens) with
  | mk r c' =>
    cases r with
    | error e =>
      rw [run_bind_error hrun]
      simp
    | ok b =>
      rw [run_bind_ok hrun, run_bind_ok (run_peek? c')]
      cases hr : c'.rest with
      | nil =>
        simp only [Cursor.peek?, hr, List.head?_nil, run_pure, Except.ok.injEq, Prod.mk.injEq]
        constructor
        · rintro rfl
          exact ⟨c', ⟨rfl, rfl⟩, hr⟩
        · rintro ⟨_, ⟨rfl, _⟩, _⟩
          rfl
      | cons t ts => simp [Cursor.peek?, hr]

/-! ## Series -/

/-- Elements with a delimiter between each two, at least one, stand between the two places. -/
inductive SeriesReads (R : α → Cursor → Cursor → Prop) (kind : TokenKind) (delimiter : String) :
    List α → Cursor → Cursor → Prop where
  | last {a : α} {c c' : Cursor} (ha : R a c c') : SeriesReads R kind delimiter [a] c c'
  | more {a : α} {as : List α} {c c₁ c' : Cursor} (ha : R a c c₁)
      (hd : c₁.nextIs kind delimiter = true)
      (has : SeriesReads R kind delimiter as c₁.next c') :
      SeriesReads R kind delimiter (a :: as) c c'

variable {R : α → Cursor → Cursor → Prop} {element : Parser α} {kind : TokenKind}
  {delimiter : String}

theorem moreElements_reads (hel : element.Yields R) :
    ∀ (fuel : Nat) (c₀ c c' : Cursor) (a : α) (as : List α), R a c₀ c →
      (moreElements element kind delimiter fuel).run c = (.ok as, c') →
      SeriesReads R kind delimiter (a :: as) c₀ c' := by
  intro fuel
  induction fuel with
  | zero =>
    intro c₀ c c' a as ha h
    simp only [moreElements, run_pure] at h
    cases h
    exact .last ha
  | succ fuel ih =>
    intro c₀ c c' a as ha h
    unfold moreElements at h
    dsimp only at h
    rw [Cursor.readIf_eq] at h
    cases hd : c.nextIs kind delimiter with
    | false =>
      simp only [hd] at h
      cases h
      exact .last ha
    | true =>
      obtain ⟨t, ht, _⟩ := Cursor.nextIs_iff.mp hd
      simp only [hd, ht, if_true] at h
      split at h
      · cases h
        exact .last ha
      · rename_i b c₂ hb
        obtain ⟨rest, hrest, rfl⟩ := run_map_eq_ok.mp h
        exact .more ha hd (ih c.next c₂ c' b rest (hel _ _ _ hb) hrest)

/-- What is read as a series is empty, and then no token is taken, or it is a series. -/
theorem sepBy_reads (hel : element.Yields R) {c c' : Cursor} {as : List α}
    (h : (sepBy element kind delimiter).run c = (.ok as, c')) :
    (as = [] ∧ c' = c) ∨ SeriesReads R kind delimiter as c c' := by
  unfold sepBy at h
  dsimp only at h
  split at h
  · cases h
    exact .inl ⟨rfl, rfl⟩
  · rename_i a c₁ ha
    obtain ⟨rest, hrest, rfl⟩ := run_map_eq_ok.mp h
    rw [run_withFuel] at hrest
    exact .inr (moreElements_reads hel _ c c₁ c' a rest (hel _ _ _ ha) hrest)

/-- A further element, after which `more` reads the others. -/
def moreElementsStep (element : Parser α) (kind : TokenKind) (delimiter : String)
    (more : Parser (List α)) : Parser (List α) :=
  ⟨fun c =>
    match c.readIf kind delimiter with
    | (none, _) => (.ok [], c)
    | (some _, afterDelimiter) =>
      match element.run afterDelimiter with
      | (.error _, _) => (.ok [], c)
      | (.ok a, afterElement) => ((a :: ·) <$> more).run afterElement⟩

theorem moreElements_succ (fuel : Nat) :
    moreElements element kind delimiter (fuel + 1) =
      moreElementsStep element kind delimiter (moreElements element kind delimiter fuel) := rfl

theorem run_moreElementsStep_done {more : Parser (List α)} {c : Cursor}
    (h : c.nextIs kind delimiter = false ∨ element.Fails c.next) :
    (moreElementsStep element kind delimiter more).run c = (.ok [], c) := by
  unfold moreElementsStep
  dsimp only
  rw [Cursor.readIf_eq]
  cases hd : c.nextIs kind delimiter with
  | false => rfl
  | true =>
    obtain ⟨t, ht, _⟩ := Cursor.nextIs_iff.mp hd
    obtain ⟨e, c', he⟩ := h.resolve_left (by simp [hd])
    rw [if_pos rfl, ht]
    dsimp only
    rw [he]

theorem run_moreElementsStep_next {more : Parser (List α)} {c c' : Cursor} {a : α}
    (hd : c.nextIs kind delimiter = true) (ha : element.run c.next = (.ok a, c')) :
    (moreElementsStep element kind delimiter more).run c = ((a :: ·) <$> more).run c' := by
  obtain ⟨t, ht, _⟩ := Cursor.nextIs_iff.mp hd
  unfold moreElementsStep
  dsimp only
  rw [Cursor.readIf_eq, hd, if_pos rfl, ht]
  dsimp only
  rw [ha]

theorem run_moreElements_done {fuel : Nat} {c : Cursor}
    (h : c.nextIs kind delimiter = false ∨ element.Fails c.next) :
    (moreElements element kind delimiter (fuel + 1)).run c = (.ok [], c) := by
  rw [moreElements_succ]
  exact run_moreElementsStep_done h

/-- Where a delimiter and an element stand, the others are read after them. -/
theorem run_moreElements_next {fuel : Nat} {c c₁ : Cursor} {a : α}
    (h : c.nextIs kind delimiter = true) (ha : element.run c.next = (.ok a, c₁)) :
    (moreElements element kind delimiter (fuel + 1)).run c =
      ((a :: ·) <$> moreElements element kind delimiter fuel).run c₁ := by
  rw [moreElements_succ]
  exact run_moreElementsStep_next h ha

theorem run_moreElements_step {fuel : Nat} {c c₁ c' : Cursor} {a : α} {as : List α}
    (h : c.nextIs kind delimiter = true) (ha : element.run c.next = (.ok a, c₁))
    (has : (moreElements element kind delimiter fuel).run c₁ = (.ok as, c')) :
    (moreElements element kind delimiter (fuel + 1)).run c = (.ok (a :: as), c') := by
  rw [run_moreElements_next h ha, run_map, has]
  rfl

/-- A first element and what follows it, as the loop for the others reads them. -/
theorem SeriesReads.run_moreElements (hrun : ∀ a c c', R a c c' → element.run c = (.ok a, c'))
    (hlt : ∀ a c c', R a c c' → c'.rest.length < c.rest.length) {c c' : Cursor} {as : List α}
    (h : SeriesReads R kind delimiter as c c')
    (hend : c'.nextIs kind delimiter = false ∨ element.Fails c'.next) :
    ∃ a rest c₁, as = a :: rest ∧ element.run c = (.ok a, c₁) ∧
      c₁.rest.length < c.rest.length ∧ ∀ fuel, c₁.rest.length < fuel →
        (moreElements element kind delimiter fuel).run c₁ = (.ok rest, c') := by
  induction h with
  | @last a c c' ha =>
    refine ⟨a, [], c', rfl, hrun _ _ _ ha, hlt _ _ _ ha, ?_⟩
    intro fuel hf
    cases fuel with
    | zero => omega
    | succ fuel => exact run_moreElements_done hend
  | @more a as c c₁ c' ha hd has ih =>
    obtain ⟨b, rest, c₂, rfl, hb, hlt₂, hrest⟩ := ih hend
    refine ⟨a, b :: rest, c₁, rfl, hrun _ _ _ ha, hlt _ _ _ ha, ?_⟩
    intro fuel hf
    have hlt₁ := Cursor.rest_next_lt_of_nextIs hd
    cases fuel with
    | zero => omega
    | succ fuel => exact run_moreElements_step hd hb (hrest fuel (by omega))

theorem run_sepBy_next {c c₁ : Cursor} {a : α} (ha : element.run c = (.ok a, c₁)) :
    (sepBy element kind delimiter).run c =
      ((a :: ·) <$> withFuel (moreElements element kind delimiter)).run c₁ := by
  unfold sepBy
  dsimp only
  rw [ha]

theorem SeriesReads.run_sepBy (hrun : ∀ a c c', R a c c' → element.run c = (.ok a, c'))
    (hlt : ∀ a c c', R a c c' → c'.rest.length < c.rest.length) {c c' : Cursor} {as : List α}
    (h : SeriesReads R kind delimiter as c c')
    (hend : c'.nextIs kind delimiter = false ∨ element.Fails c'.next) :
    (sepBy element kind delimiter).run c = (.ok as, c') := by
  obtain ⟨a, rest, c₁, rfl, ha, _, hrest⟩ := h.run_moreElements hrun hlt hend
  rw [run_sepBy_next ha, run_map, run_withFuel, hrest _ (Nat.lt_succ_self _)]
  rfl

theorem run_sepBy_nil {c : Cursor} (h : element.Fails c) :
    (sepBy element kind delimiter).run c = (.ok [], c) := by
  obtain ⟨e, c', he⟩ := h
  unfold sepBy
  dsimp only
  rw [he]

end Parser

end FrontEnd
