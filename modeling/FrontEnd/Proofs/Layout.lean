import FrontEnd.Proofs.Covering
import FrontEnd.Proofs.Erasure
import FrontEnd.Proofs.Locality
import FrontEnd.Proofs.Recovery

/-!
# Layout does not change what is parsed

Two sources with the same tokens, and the same numbers with a word directly after them, are parsed
alike whatever stands between their tokens: to trees that differ in their spans only, or with errors
that say the same.

* `Respaced` says what two lists of tokens must have in common.
* `layout` is the correspondence of places with the same number of tokens before them. The order of
  errors is that of these numbers, since the offsets where tokens start grow with them.
* `parseModule_respaced`, `parse_respaced`: modules and whole phrases are parsed alike.
* `parse_layout` is the statement for sources.
-/

set_option autoImplicit false

namespace FrontEnd

open Grammar FrontEnd.Parser Cursor

/-! ## Trees that differ in their spans -/

theorem eraseSeries_of_forall₂ {es fs : List Expr}
    (h : List.Forall₂ (fun e f => e.erase = f.erase) es fs) :
    Expr.eraseSeries es = Expr.eraseSeries fs := by
  induction h with
  | nil => rfl
  | cons he _ ih => rw [Expr.eraseSeries, Expr.eraseSeries, he, ih]

theorem eraseArms_of_forall₂ {bs bs' : List Branch}
    (h : List.Forall₂ (Branch.Related fun e f => e.erase = f.erase) bs bs') :
    Expr.eraseArms bs = Expr.eraseArms bs' := by
  induction h with
  | nil => rfl
  | cons hb _ ih =>
    rw [Expr.eraseArms, Expr.eraseArms, ih]
    cases hb with
    | guarded hc hb => rw [Expr.eraseArm, Expr.eraseArm, hc, hb]
    | always hb => rw [Expr.eraseArm, Expr.eraseArm, hb]

theorem map_of_forall₂ {α β : Type} {f : α → β} {as bs : List α}
    (h : List.Forall₂ (fun a b => f a = f b) as bs) : as.map f = bs.map f := by
  induction h with
  | nil => rfl
  | cons hab _ ih => rw [List.map_cons, List.map_cons, hab, ih]

/-- Trees that are the same without their spans. -/
def TreeRelation.erasure : TreeRelation where
  span _ _ := True
  expr e f := e.erase = f.erase
  parameter p q := p.erase = q.erase
  member m n := m.erase = n.erase
  function f g := f.erase = g.erase
  struct s t := s.erase = t.erase
  merge _ _ := trivial
  spanOf _ := trivial
  atom _ _ := rfl
  unary _ _ he := by rw [Expr.erase, Expr.erase, he]; rfl
  binary _ _ hl hr := by rw [Expr.erase, Expr.erase, hl, hr]; rfl
  tuple _ hes := by rw [Expr.erase, Expr.erase, eraseSeries_of_forall₂ hes]; rfl
  call _ he hes := by rw [Expr.erase, Expr.erase, he, eraseSeries_of_forall₂ hes]; rfl
  block _ hes := by rw [Expr.erase, Expr.erase, eraseSeries_of_forall₂ hes]; rfl
  ifChain _ hbs := by rw [Expr.erase, Expr.erase, eraseArms_of_forall₂ hbs]; rfl
  loop _ he := by rw [Expr.erase, Expr.erase, he]; rfl
  accessor _ _ he := by rw [Expr.erase, Expr.erase, he]; rfl
  parameterNode _ _ _ := rfl
  memberNode _ _ _ _ := rfl
  functionNode _ _ _ _ _ hps hbody := by
    unfold Function.erase
    dsimp only
    rw [map_of_forall₂ hps]
    cases hbody with
    | none => rfl
    | some he => rw [Option.map_some, Option.map_some, he]
  structNode _ _ hms := by
    unfold Struct.erase
    dsimp only
    rw [map_of_forall₂ hms]

/-- The error without its place in the source. -/
def ParseError.erase (e : ParseError) : ParseError := { e with span := Span.none }

/-! ## Tokens with other blanks between them -/

/-- Which numbers have a word directly after them. -/
def glued (ts : List Token) : List Bool :=
  ts.zipWith
    (fun t u => t.kind == .number && u.kind == .identifier && t.span.stop == u.span.start) ts.tail

/-- Every token covers something, and none starts before the one before it stops. -/
structure Ordered (ts : List Token) : Prop where
  nonempty : ∀ t ∈ ts, t.span.start < t.span.stop
  ordered : ts.Pairwise fun t u => t.span.stop ≤ u.span.start

/-- The same tokens in the same order, with other blanks between them, but not between a number and
a word that is or may be its suffix. -/
structure Respaced (ts us : List Token) : Prop where
  words : ts.map Token.word = us.map Token.word
  glued : glued ts = glued us
  left : Ordered ts
  right : Ordered us

theorem glued_getElem? {ts : List Token} {i : Nat} {t u : Token} (ht : ts[i]? = some t)
    (hu : ts[i + 1]? = some u) :
    (glued ts)[i]? =
      some (t.kind == .number && u.kind == .identifier && t.span.stop == u.span.start) := by
  rw [glued, List.getElem?_zipWith, ht, List.getElem?_tail, hu]

/-- The offset where the token at an index starts; beyond the last token, the offset where that
stops. -/
def offsetAt (ts : List Token) (i : Nat) : Nat :=
  match ts[i]? with
  | some t => t.span.start
  | none => (ts.getLast?.map fun t => t.span.stop).getD 0

section

variable {ts us : List Token}

theorem Ordered.stop_le (h : Ordered ts) {i j : Nat} {t u : Token} (hij : i < j)
    (hi : ts[i]? = some t) (hj : ts[j]? = some u) : t.span.stop ≤ u.span.start := by
  obtain ⟨hilt, rfl⟩ := List.getElem?_eq_some_iff.mp hi
  obtain ⟨hjlt, rfl⟩ := List.getElem?_eq_some_iff.mp hj
  exact List.pairwise_iff_getElem.mp h.ordered i j hilt hjlt hij

theorem Ordered.start_lt (h : Ordered ts) {i : Nat} {t : Token} (hi : ts[i]? = some t) :
    t.span.start < t.span.stop :=
  h.nonempty t (List.mem_of_getElem? hi)

/-- Offsets grow from one token to the next, and to the end. -/
theorem Ordered.offsetAt_lt (h : Ordered ts) {i j : Nat} (hij : i < j) (hj : j ≤ ts.length) :
    offsetAt ts i < offsetAt ts j := by
  have hi : ts[i]? = some ts[i] := List.getElem?_eq_getElem (by omega)
  have hlt := h.start_lt hi
  unfold offsetAt
  rw [hi]
  dsimp only
  by_cases hjl : j < ts.length
  · have hj' : ts[j]? = some ts[j] := List.getElem?_eq_getElem hjl
    have hle := h.stop_le hij hi hj'
    rw [hj']
    dsimp only
    omega
  · have hend : ts[j]? = none := List.getElem?_eq_none (by omega)
    have hlast : ts[ts.length - 1]? = some ts[ts.length - 1] :=
      List.getElem?_eq_getElem (by omega)
    have hlt' := h.start_lt hlast
    rw [hend, List.getLast?_eq_getElem?, hlast]
    dsimp only [Option.map_some, Option.getD_some]
    rcases Nat.lt_or_ge i (ts.length - 1) with hil | hil
    · have hle := h.stop_le hil hi hlast
      omega
    · obtain rfl : i = ts.length - 1 := by omega
      exact hlt

theorem Ordered.offsetAt_le (h : Ordered ts) {i j : Nat} (hij : i ≤ j) (hj : j ≤ ts.length) :
    offsetAt ts i ≤ offsetAt ts j := by
  rcases Nat.lt_or_eq_of_le hij with hlt | rfl
  · exact Nat.le_of_lt (h.offsetAt_lt hlt hj)
  · exact Nat.le_refl _

theorem Ordered.offsetAt_lt_iff (h : Ordered ts) {i j : Nat} (hi : i ≤ ts.length)
    (hj : j ≤ ts.length) : offsetAt ts i < offsetAt ts j ↔ i < j := by
  constructor
  · intro hlt
    rcases Nat.lt_trichotomy i j with hij | rfl | hij
    · exact hij
    · exact absurd hlt (Nat.lt_irrefl _)
    · exact absurd hlt (Nat.lt_asymm (h.offsetAt_lt hij hi))
  · exact fun hij => h.offsetAt_lt hij hj

end

/-! ## Places -/

namespace Cursor

theorem position_le_length {ts : List Token} {c : Cursor} (htokens : c.tokens = ts) :
    c.position ≤ ts.length := by
  rw [← htokens, ← tokenCount_eq_length]
  exact c.position_le_tokenCount

/-- With fewer tokens ahead more have been passed. -/
theorem position_lt {c c' : Cursor} (htokens : c'.tokens = c.tokens)
    (hlt : c'.rest.length < c.rest.length) : c.position < c'.position := by
  have hcount : c'.tokenCount = c.tokenCount := by
    rw [tokenCount_eq_length, tokenCount_eq_length, htokens]
  unfold tokenCount at hcount
  unfold position
  omega

theorem rest_eq_drop (c : Cursor) : c.rest = c.tokens.drop c.position := by
  simp [tokens, position]

theorem passed_eq_take (c : Cursor) : c.passed = (c.tokens.take c.position).reverse := by
  simp [tokens, position]

theorem peek?_eq_getElem? (c : Cursor) : c.peek? = c.tokens[c.position]? := by
  rw [peek?, c.rest_eq_drop, List.head?_drop]

theorem nextSpan_start (c : Cursor) : c.nextSpan.start = offsetAt c.tokens c.position := by
  unfold offsetAt
  rw [← c.peek?_eq_getElem?]
  obtain ⟨passed, rest⟩ := c
  cases rest with
  | cons t ts => rfl
  | nil =>
    cases passed with
    | nil => rfl
    | cons t ts => simp [peek?, tokens, nextSpan, Span.point]

theorem tokens_next (c : Cursor) : c.next.tokens = c.tokens := c.tokens_read

theorem position_next (c : Cursor) :
    c.next.position = c.position + (if c.rest = [] then 0 else 1) := by
  obtain ⟨passed, rest⟩ := c
  cases rest with
  | nil => rfl
  | cons t ts => rfl

theorem peek?_next {c : Cursor} {t : Token} (h : c.peek? = some t) :
    c.next.peek? = c.tokens[c.position + 1]? := by
  have hne : c.rest ≠ [] := by
    rw [peek?_eq_some_iff.mp h]
    simp
  rw [c.next.peek?_eq_getElem?, tokens_next, position_next, if_neg hne]

theorem lastSpan_of_getElem? {c : Cursor} {t : Token} (hpos : 0 < c.position)
    (ht : c.tokens[c.position - 1]? = some t) : c.lastSpan = t.span := by
  have hhead : c.passed.head? = some t := by
    rw [passed_eq_take, List.head?_reverse, List.getLast?_eq_getElem?, List.length_take,
      Nat.min_eq_left (position_le_length rfl),
      List.getElem?_take_of_lt (by omega), ht]
  obtain ⟨passed, rest⟩ := c
  cases passed with
  | nil => cases hhead
  | cons u us =>
    cases hhead
    rfl

/-- What was read since a place starts where the next token starts there. -/
theorem since_start {c c' : Cursor} (h : Ordered c.tokens) (hs : c'.tokens = c.tokens)
    (hlt : c.position < c'.position) :
    (c.nextSpan.merge c'.lastSpan).start = c.nextSpan.start := by
  have hle : c'.position ≤ c.tokens.length := position_le_length hs
  have hfirst : c.tokens[c.position]? = some c.tokens[c.position] :=
    List.getElem?_eq_getElem (by omega)
  have hlast : c.tokens[c'.position - 1]? = some c.tokens[c'.position - 1] :=
    List.getElem?_eq_getElem (by omega)
  have hnext : c.nextSpan = c.tokens[c.position].span :=
    nextSpan_of_peek (c.peek?_eq_getElem?.trans hfirst)
  have hspan : c'.lastSpan = c.tokens[c'.position - 1].span :=
    lastSpan_of_getElem? (by omega) (by rw [hs, hlast])
  rw [Span.merge_start, hnext, hspan]
  apply Nat.min_eq_left
  rcases Nat.lt_or_ge c.position (c'.position - 1) with hij | hij
  · exact Nat.le_trans (Nat.le_of_lt (h.start_lt hfirst)) (h.stop_le hij hfirst hlast)
  · obtain hij : c'.position - 1 = c.position := by omega
    simp only [hij]
    exact Nat.le_refl _

/-- Two places with the same number of tokens before them. -/
structure Parallel (ts us : List Token) (c d : Cursor) : Prop where
  left : c.tokens = ts
  right : d.tokens = us
  position : c.position = d.position

namespace Parallel

variable {ts us : List Token} {c d : Cursor}

theorem words (h : Parallel ts us c d) (hr : Respaced ts us) :
    c.rest.map Token.word = d.rest.map Token.word := by
  rw [c.rest_eq_drop, d.rest_eq_drop, h.left, h.right, h.position, List.map_drop, List.map_drop,
    hr.words]

theorem passedWords (h : Parallel ts us c d) (hr : Respaced ts us) :
    c.passed.map Token.word = d.passed.map Token.word := by
  rw [c.passed_eq_take, d.passed_eq_take, h.left, h.right, h.position, List.map_reverse,
    List.map_reverse, List.map_take, List.map_take, hr.words]

theorem rest_nil_iff (h : Parallel ts us c d) (hr : Respaced ts us) : c.rest = [] ↔ d.rest = [] := by
  rw [← List.length_eq_zero_iff, ← List.length_eq_zero_iff, length_of_words (h.words hr)]

theorem next (h : Parallel ts us c d) (hr : Respaced ts us) : Parallel ts us c.next d.next where
  left := c.tokens_next.trans h.left
  right := d.tokens_next.trans h.right
  position := by
    rw [position_next, position_next, h.position]
    simp only [h.rest_nil_iff hr]

theorem ofTokens (ts us : List Token) : Parallel ts us (Cursor.ofTokens ts) (Cursor.ofTokens us) :=
  ⟨rfl, rfl, rfl⟩

theorem position_le (h : Parallel ts us c d) : c.position ≤ ts.length := position_le_length h.left

/-- A number has the same suffix in both. -/
theorem suffixAt? (h : Parallel ts us c d) (hr : Respaced ts us) {t : Token}
    (ht : c.peek? = some t) (hk : t.kind = .number) :
    Grammar.suffixAt? c.next = Grammar.suffixAt? d.next := by
  have hnext := h.next hr
  rcases peek?_of_words (h.words hr) with ⟨hc, _⟩ | ⟨t', s, hc, hd⟩
  · rw [ht] at hc
    cases hc
  obtain rfl : t = t' := Option.some.inj (ht.symm.trans hc)
  unfold Grammar.suffixAt?
  rw [lastSpan_next hc, lastSpan_next hd]
  rcases peek?_of_words (hnext.words hr) with ⟨hc', hd'⟩ | ⟨u, s', hc', hd'⟩
  · rw [hc', hd']
  · have hl := glued_getElem? (hc ▸ c.peek?_eq_getElem?.symm) (hc' ▸ (peek?_next hc).symm)
    have hl' := glued_getElem? (hd ▸ d.peek?_eq_getElem?.symm) (hd' ▸ (peek?_next hd).symm)
    rw [h.left, hr.glued, h.position] at hl
    rw [h.right, hl] at hl'
    rw [hc', hd']
    dsimp only at hl' ⊢
    by_cases hu : u.kind = .identifier
    · have hsame : t.span.stop = u.span.start ↔ s.stop = s'.start := by
        simpa [hk, hu] using hl'
      simp only [hu, true_and, eq_comm, hsame]
    · simp only [hu, false_and, if_false]

end Parallel

end Cursor

/-- Places with the same number of tokens before them, with trees that are the same without their
spans, and errors that start at one token or at the end. -/
def layout {ts us : List Token} (hr : Respaced ts us) : Correspondence where
  toTreeRelation := .erasure
  place := Parallel ts us
  errorSpan s s' := ∃ i ≤ ts.length, s.start = offsetAt ts i ∧ s'.start = offsetAt us i
  words h := h.words hr
  next h _ _ := h.next hr
  suffix h ht hk := h.suffixAt? hr ht hk
  nextSpan _ := trivial
  lastSpan _ := trivial
  errorNext {c d} h := by
    refine ⟨c.position, h.position_le, ?_, ?_⟩
    · rw [c.nextSpan_start, h.left]
    · rw [d.nextSpan_start, h.right, h.position]
  errorSince {c d c' d'} h h' hlt := by
    have hpast := position_lt (h'.left.trans h.left.symm) hlt
    have hpast' : d.position < d'.position := h.position ▸ h'.position ▸ hpast
    have hc := since_start (h.left ▸ hr.left) (h'.left.trans h.left.symm) hpast
    have hd := since_start (h.right ▸ hr.right) (h'.right.trans h.right.symm) hpast'
    refine ⟨c.position, h.position_le, ?_, ?_⟩
    · rw [hc, c.nextSpan_start, h.left]
    · rw [hd, d.nextSpan_start, h.right, h.position]
  errorOrder := by
    rintro s s' t t' ⟨i, hi, hs, hs'⟩ ⟨j, hj, ht, ht'⟩
    have hlength : ts.length = us.length := by
      have hwords := congrArg List.length hr.words
      rwa [List.length_map, List.length_map] at hwords
    rw [hs, hs', ht, ht', hr.left.offsetAt_lt_iff hi hj,
      hr.right.offsetAt_lt_iff (hlength ▸ hi) (hlength ▸ hj)]

section

variable {ts us : List Token} {c d : Cursor}

theorem Cursor.Parallel.start (h : Parallel ts us c d) (hr : Respaced ts us) :
    (layout hr).Start c d := by
  have hsame := nextIs_of_words (h.words hr) .keyword "extern"
  have hskip : Parallel ts us (c.skipIf .keyword "extern") (d.skipIf .keyword "extern") := by
    unfold Cursor.skipIf
    rw [← hsame]
    split
    · exact h.next hr
    · exact h
  have herror := (layout hr).errorNext h
  exact ⟨⟨h.words hr, trivial, fun _ => (layout hr).errorNext hskip, fun _ => hskip.next hr⟩,
    ⟨h.words hr, trivial, fun _ => herror, fun _ => h.next hr⟩, herror⟩

theorem erase_of_sameError {hr : Respaced ts us} {e f : ParseError}
    (h : (layout hr).SameError e f) : e.erase = f.erase := by
  unfold ParseError.erase
  rw [h.kind, h.message, h.context]

theorem erase_of_declarations {d e : Declaration}
    (h : TreeRelation.erasure.Declarations d e) : d.erase = e.erase := by
  cases h with
  | function hf => exact congrArg Declaration.function hf
  | struct hs => exact congrArg Declaration.struct hs

/-! ## Modules -/

/-- Skipping passes as many tokens in both. -/
theorem skipFrom_parallel (hr : Respaced ts us) :
    ∀ (r : List Token) (p q r' : List Token), Parallel ts us ⟨p, r⟩ ⟨q, r'⟩ →
      Parallel ts us (skipFrom p r) (skipFrom q r') := by
  intro r
  induction r with
  | nil =>
    intro p q r' h
    cases r' with
    | nil => exact h
    | cons u us' => cases h.words hr
  | cons t r ih =>
    intro p q r' h
    cases r' with
    | nil => cases h.words hr
    | cons u r' =>
      have hword : t.word = u.word := (List.cons.inj (h.words hr)).1
      have hpast : p.head?.map Token.word = q.head?.map Token.word := by
        rw [← List.head?_map, ← List.head?_map]
        exact congrArg List.head? (h.passedWords hr)
      have hstarts : startsDeclaration t = startsDeclaration u := by
        show startsDeclaration t.word = startsDeclaration u.word
        rw [hword]
      have hcontinues : continuesExtern p t = continuesExtern q u := by
        have hany : ∀ o : Option Token, (o.any fun last => last.is .keyword "extern") =
            (o.map Token.word).any fun last => last.is .keyword "extern" := by
          intro o
          cases o <;> rfl
        unfold continuesExtern
        rw [hany, hany q.head?, hpast]
        show (t.word.is .keyword "fn" && _) = (u.word.is .keyword "fn" && _)
        rw [hword]
      unfold skipFrom
      rw [hstarts, hcontinues]
      split
      · exact h
      · exact ih _ _ _ (h.next hr)

theorem skipToDeclaration_parallel (h : Parallel ts us c d) (hr : Respaced ts us) :
    Parallel ts us (skipToDeclaration c) (skipToDeclaration d) := by
  obtain ⟨p, r⟩ := c
  obtain ⟨q, r'⟩ := d
  cases r with
  | nil =>
    cases r' with
    | nil => exact h
    | cons u us' => cases h.words hr
  | cons t r =>
    cases r' with
    | nil => cases h.words hr
    | cons u r' => exact skipFrom_parallel hr r _ _ r' (h.next hr)

/-- The same module but for its spans, with errors that say the same. -/
structure ParsedModule.SameButSpans (p q : ParsedModule) : Prop where
  declarations : Module.erase p.declarations = Module.erase q.declarations
  errors : p.errors.map ParseError.erase = q.errors.map ParseError.erase

theorem declarationsAux_respaced (hr : Respaced ts us) :
    ∀ (fuel : Nat) (c d : Cursor), Parallel ts us c d →
      (declarationsAux climbing fuel c).1.SameButSpans (declarationsAux climbing fuel d).1 := by
  intro fuel
  induction fuel with
  | zero => exact fun _ _ _ => ⟨rfl, rfl⟩
  | succ fuel ih =>
    intro c d h
    by_cases hne : c.rest = []
    · rw [declarationsAux_end hne, declarationsAux_end ((h.rest_nil_iff hr).mp hne)]
      exact ⟨rfl, rfl⟩
    have hne' : d.rest ≠ [] := fun hd => hne ((h.rest_nil_iff hr).mpr hd)
    cases Correspondence.agree_declaration Correspondence.keptBy_climbing (h.start hr) with
    | error hc hd he =>
      have hrest := ih _ _ (skipToDeclaration_parallel h hr)
      rw [declarationsAux_error hne hc, declarationsAux_error hne' hd]
      exact ⟨hrest.declarations, congrArg₂ List.cons (erase_of_sameError he) hrest.errors⟩
    | ok hc hd hsame h' =>
      have hrest := ih _ _ h'
      rw [declarationsAux_ok hne hc, declarationsAux_ok hne' hd]
      exact ⟨congrArg₂ List.cons (erase_of_declarations hsame) hrest.declarations, hrest.errors⟩

theorem parseModule_respaced (hr : Respaced ts us) :
    (parseModule ts).SameButSpans (parseModule us) := by
  have hlength := length_of_words (c := Cursor.ofTokens ts) (d := Cursor.ofTokens us) hr.words
  unfold parseModule declarations
  rw [hlength]
  exact declarationsAux_respaced hr _ _ _ (.ofTokens ts us)

/-! ## Whole phrases -/

/-- The results are the same, seen through a view of the values, and errors say the same. -/
def SameOutcome {α β : Type} (view : α → β) (r r' : Except ParseError α) : Prop :=
  (r.map view).mapError ParseError.erase = (r'.map view).mapError ParseError.erase

theorem parse_respaced {α β : Type} {view : α → β} {p : Parser α} (hr : Respaced ts us)
    (hp : (layout hr).Corresponds (fun a b => view a = view b) p p) :
    SameOutcome view (p.complete.parse ts) (p.complete.parse us) := by
  have hcomplete : (layout hr).Corresponds (fun a b => view a = view b) p.complete p.complete := by
    refine hp.bind fun a b hab c d h => ?_
    refine Correspondence.Agree.of_run (run_bind_ok (run_peek? c)) (run_bind_ok (run_peek? d)) ?_
    rcases peek?_of_words (h.words hr) with ⟨hc, hd⟩ | ⟨t, s, hc, hd⟩
    · rw [hc, hd]
      exact Correspondence.agree_pure hab h
    · rw [hc, hd]
      exact Correspondence.agree_fail (Correspondence.sameError_token h hc hd _ _)
  unfold SameOutcome parse
  cases hcomplete _ _ (.ofTokens ts us) with
  | error hc hd he =>
    rw [hc, hd]
    exact congrArg Except.error (erase_of_sameError he)
  | ok hc hd hab _ =>
    rw [hc, hd]
    exact congrArg Except.ok hab

end

/-! ## Sources -/

/-- The tokens of a source are in order. -/
theorem lex_ordered {source : String} {ts : List Token}
    (hsize : Text.byteLength source.toList ≤ Span.limit) (hlex : lex source = .ok ts) : Ordered ts where
  nonempty t ht := ((lex_lexes hlex).standsIn hsize [] rfl rfl t ht).2.nonempty
  ordered := (lex_lexes hlex).ordered hsize [] rfl rfl

/-- **Layout never changes the parse.** Two sources with the same tokens, in which the same numbers
have a word directly after them, give the same module but for its spans, with errors that say the
same; and the same expression, type or literal as a whole input, or errors that say the same. -/
theorem parse_layout {source source' : String} {ts us : List Token}
    (hsize : Text.byteLength source.toList ≤ Span.limit)
    (hsize' : Text.byteLength source'.toList ≤ Span.limit) (hlex : lex source = .ok ts)
    (hlex' : lex source' = .ok us) (hwords : ts.map Token.word = us.map Token.word)
    (hglued : glued ts = glued us) :
    (parseModule ts).SameButSpans (parseModule us) ∧
      SameOutcome Expr.erase (parseExpression ts) (parseExpression us) ∧
      SameOutcome id (parseType ts) (parseType us) ∧
      SameOutcome id (parseTerminal ts) (parseTerminal us) := by
  have hr : Respaced ts us :=
    ⟨hwords, hglued, lex_ordered hsize hlex, lex_ordered hsize' hlex'⟩
  exact ⟨parseModule_respaced hr,
    parse_respaced hr (Correspondence.corresponds_operation Correspondence.keptBy_climbing),
    parse_respaced hr Correspondence.corresponds_typeExpr,
    parse_respaced hr Correspondence.corresponds_terminal⟩

/-- A function that is read and a structure that is not, on one line and on two. -/
theorem parse_layout_lines :
    ∃ ts us, lex "fn f=1int8 struct \x7b x" = .ok ts ∧ lex "fn f = 1int8\nstruct\t\x7bx" = .ok us ∧
      ts.map Token.word = us.map Token.word ∧ glued ts = glued us ∧
      (parseModule ts).SameButSpans (parseModule us) := by
  obtain ⟨ts, us, hlex, hlex', hsame⟩ : ∃ ts us, lex "fn f=1int8 struct \x7b x" = .ok ts ∧
      lex "fn f = 1int8\nstruct\t\x7bx" = .ok us ∧
      decide (ts.map Token.word = us.map Token.word ∧ glued ts = glued us) = true :=
    ⟨_, _, rfl, rfl, rfl⟩
  obtain ⟨hwords, hglued⟩ := of_decide_eq_true hsame
  exact ⟨ts, us, hlex, hlex', hwords, hglued,
    (parse_layout (by decide) (by decide) hlex hlex' hwords hglued).1⟩

end FrontEnd
