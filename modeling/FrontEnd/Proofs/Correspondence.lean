import FrontEnd.Proofs.Passing
import Mathlib.Data.List.Forall2

/-!
# Corresponding runs

Two runs of one parser from two places, in the same tokens or in others. If the places correspond,
so do the results: both runs fail with one message, or both give a value, and end in places that
correspond again.

* `TreeRelation` is a relation of trees that holds of nodes whose parts are related;
  `Correspondence` adds a relation of places and one of the spans of errors.
* `Correspondence.Agree` is the agreement of two runs, `Correspondence.Corresponds` that of two
  parsers wherever places correspond. Each way to combine parsers keeps it.

What a place is may be said as the use needs it. It has to be kept only where a token is passed
that starts no declaration, for no expression, type or binding passes another one.
-/

set_option autoImplicit false

namespace FrontEnd

open Grammar

/-- The token without its place in the source. -/
def Token.word (t : Token) : Token := { t with span := Span.none }

/-- Two arms of one form with related expressions. -/
inductive Branch.Related (R : Expr → Expr → Prop) : Branch → Branch → Prop where
  | guarded {condition condition' body body' : Expr} (hc : R condition condition')
      (hb : R body body') : Related R (.guarded condition body) (.guarded condition' body')
  | always {body body' : Expr} (hb : R body body') : Related R (.always body) (.always body')

/-- Relations of spans and of the nodes of trees. A node with an empty slot is related to another
of its form if their spans and parts are. -/
structure TreeRelation where
  span : Span → Span → Prop
  expr : Expr → Expr → Prop
  parameter : Parameter → Parameter → Prop
  member : Member → Member → Prop
  function : Function → Function → Prop
  struct : Struct → Struct → Prop
  merge : ∀ {s s' t t'}, span s s' → span t t' → span (s.merge t) (s'.merge t')
  spanOf : ∀ {e f}, expr e f → span e.span f.span
  atom : ∀ {s s'} (a), span s s' → expr (.atom (Site.ofSpan s) a) (.atom (Site.ofSpan s') a)
  unary : ∀ {s s' e f} (op), span s s' → expr e f →
    expr (.unary (Site.ofSpan s) op e) (.unary (Site.ofSpan s') op f)
  binary : ∀ {s s' e e' f f'} (op), span s s' → expr e f → expr e' f' →
    expr (.binary (Site.ofSpan s) op e e') (.binary (Site.ofSpan s') op f f')
  tuple : ∀ {s s' es fs}, span s s' → List.Forall₂ expr es fs →
    expr (.tuple (Site.ofSpan s) es) (.tuple (Site.ofSpan s') fs)
  call : ∀ {s s' e f es fs}, span s s' → expr e f → List.Forall₂ expr es fs →
    expr (.call (Site.ofSpan s) e es) (.call (Site.ofSpan s') f fs)
  block : ∀ {s s' es fs}, span s s' → List.Forall₂ expr es fs →
    expr (.block (Site.ofSpan s) es) (.block (Site.ofSpan s') fs)
  ifChain : ∀ {s s' bs bs'}, span s s' → List.Forall₂ (Branch.Related expr) bs bs' →
    expr (.ifChain (Site.ofSpan s) bs) (.ifChain (Site.ofSpan s') bs')
  loop : ∀ {s s' e f}, span s s' → expr e f →
    expr (.loop (Site.ofSpan s) e) (.loop (Site.ofSpan s') f)
  accessor : ∀ {s s' e f} (name), span s s' → expr e f →
    expr (.accessor (Site.ofSpan s) e name) (.accessor (Site.ofSpan s') f name)
  parameterNode : ∀ {s s'} (name type), span s s' →
    parameter ⟨name, type, s, .empty⟩ ⟨name, type, s', .empty⟩
  memberNode : ∀ {s s'} (name type isPublic), span s s' →
    member ⟨name, type, isPublic, s, .empty⟩ ⟨name, type, isPublic, s', .empty⟩
  functionNode : ∀ {s s' ps qs body body'} (isExtern name isVariadic type), span s s' →
    List.Forall₂ parameter ps qs → Option.Rel expr body body' →
    function ⟨isExtern, name, ps, isVariadic, type, body, s, .empty⟩
      ⟨isExtern, name, qs, isVariadic, type, body', s', .empty⟩
  structNode : ∀ {s s' ms ns} (name), span s s' → List.Forall₂ member ms ns →
    struct ⟨name, ms, s, .empty⟩ ⟨name, ns, s', .empty⟩

/-- Two functions that are related, or two structures. -/
inductive TreeRelation.Declarations (T : TreeRelation) : Declaration → Declaration → Prop where
  | function {f g : Function} (h : T.function f g) : Declarations T (.function f) (.function g)
  | struct {s t : Struct} (h : T.struct s t) : Declarations T (.struct s) (.struct t)

/-- Related trees with related places. From corresponding places the same words stand ahead, a
number has the same suffix, and errors there are in one order. -/
structure Correspondence extends TreeRelation where
  place : Cursor → Cursor → Prop
  errorSpan : Span → Span → Prop
  words : ∀ {c d}, place c d → c.rest.map Token.word = d.rest.map Token.word
  next : ∀ {c d t}, place c d → c.peek? = some t → startsDeclaration t = false →
    place c.next d.next
  suffix : ∀ {c d t}, place c d → c.peek? = some t → t.kind = .number →
    suffixAt? c.next = suffixAt? d.next
  nextSpan : ∀ {c d}, place c d → span c.nextSpan d.nextSpan
  lastSpan : ∀ {c d}, place c d → span c.lastSpan d.lastSpan
  errorNext : ∀ {c d}, place c d → errorSpan c.nextSpan d.nextSpan
  errorSince : ∀ {c d c' d'}, place c d → place c' d' → c'.rest.length < c.rest.length →
    errorSpan (c.nextSpan.merge c'.lastSpan) (d.nextSpan.merge d'.lastSpan)
  errorOrder : ∀ {s s' t t'}, errorSpan s s' → errorSpan t t' →
    (s.start < t.start ↔ s'.start < t'.start)

/-! ## The words ahead -/

namespace Cursor

variable {c d : Cursor}

theorem nextSpan_of_peek {t : Token} (h : c.peek? = some t) : c.nextSpan = t.span := by
  obtain ⟨passed, rest⟩ := c
  cases rest with
  | nil => cases h
  | cons u us =>
    cases h
    rfl

/-- Both places are too near the end, or the tokens there differ in their spans only. -/
theorem peekAt?_of_words (h : c.rest.map Token.word = d.rest.map Token.word) (offset : Nat) :
    (c.peekAt? offset = none ∧ d.peekAt? offset = none) ∨
      ∃ t s, c.peekAt? offset = some t ∧ d.peekAt? offset = some { t with span := s } := by
  have hword : (c.rest.map Token.word)[offset]? = (d.rest.map Token.word)[offset]? := by rw [h]
  rw [List.getElem?_map, List.getElem?_map] at hword
  unfold peekAt?
  cases hc : c.rest[offset]? with
  | none =>
    rw [hc, Option.map_none] at hword
    exact .inl ⟨rfl, Option.map_eq_none_iff.mp hword.symm⟩
  | some t =>
    rw [hc, Option.map_some] at hword
    obtain ⟨u, hu, hsame⟩ := Option.map_eq_some_iff.mp hword.symm
    obtain ⟨kind, text, value, span⟩ := u
    unfold Token.word at hsame
    cases hsame
    exact .inr ⟨t, span, rfl, hu⟩

theorem peek?_of_words (h : c.rest.map Token.word = d.rest.map Token.word) :
    (c.peek? = none ∧ d.peek? = none) ∨
      ∃ t s, c.peek? = some t ∧ d.peek? = some { t with span := s } := by
  unfold peek?
  rw [List.head?_eq_getElem?, List.head?_eq_getElem?]
  exact peekAt?_of_words h 0

theorem peekAt?_any_of_words (h : c.rest.map Token.word = d.rest.map Token.word) (offset : Nat)
    {f : Token → Bool} (hf : ∀ t s, f { t with span := s } = f t) :
    (c.peekAt? offset).any f = (d.peekAt? offset).any f := by
  rcases peekAt?_of_words h offset with ⟨hc, hd⟩ | ⟨t, s, hc, hd⟩
  · rw [hc, hd]
  · rw [hc, hd, Option.any_some, Option.any_some]
    exact (hf t s).symm

theorem nextIs_of_words (h : c.rest.map Token.word = d.rest.map Token.word) (kind : TokenKind)
    (text : String) : c.nextIs kind text = d.nextIs kind text := by
  unfold nextIs peek?
  rw [List.head?_eq_getElem?, List.head?_eq_getElem?]
  exact peekAt?_any_of_words h 0 fun _ _ => rfl

theorem nextIsAt_of_words (h : c.rest.map Token.word = d.rest.map Token.word) (kind : TokenKind)
    (text : String) (offset : Nat) : c.nextIsAt kind text offset = d.nextIsAt kind text offset :=
  peekAt?_any_of_words h offset fun _ _ => rfl

theorem nextHasText_of_words (h : c.rest.map Token.word = d.rest.map Token.word) (text : String) :
    c.nextHasText text = d.nextHasText text := by
  unfold nextHasText peek?
  rw [List.head?_eq_getElem?, List.head?_eq_getElem?]
  exact peekAt?_any_of_words h 0 fun _ _ => rfl

theorem foundWords_of_words (h : c.rest.map Token.word = d.rest.map Token.word) :
    ParseError.foundWords c.peek? = ParseError.foundWords d.peek? := by
  rcases peek?_of_words h with ⟨hc, hd⟩ | ⟨t, s, hc, hd⟩
  · rw [hc, hd]
  · rw [hc, hd]
    rfl

theorem length_of_words (h : c.rest.map Token.word = d.rest.map Token.word) :
    c.rest.length = d.rest.length := by
  have hlength := congrArg List.length h
  rwa [List.length_map, List.length_map] at hlength

end Cursor

open Cursor FrontEnd.Parser

namespace Correspondence

variable {K : Correspondence} {α β : Type} {R : α → α → Prop} {S : β → β → Prop}
  {c d : Cursor}

/-! ## Runs -/

variable (K) in
/-- Errors that say the same, with related spans. -/
structure SameError (e f : ParseError) : Prop where
  kind : e.kind = f.kind
  message : e.message = f.message
  context : e.context = f.context
  span : K.errorSpan e.span f.span

variable (K) in
/-- Both runs fail with errors that say the same, or both give related values and end in places
that correspond. -/
inductive Agree (R : α → α → Prop) (p q : Parser α) (c d : Cursor) : Prop where
  | error {e f : ParseError} {c' d' : Cursor} (hp : p.run c = (.error e, c'))
      (hq : q.run d = (.error f, d')) (he : K.SameError e f) : Agree R p q c d
  | ok {a b : α} {c' d' : Cursor} (hp : p.run c = (.ok a, c')) (hq : q.run d = (.ok b, d'))
      (hr : R a b) (h : K.place c' d') : Agree R p q c d

variable (K) in
/-- From places that correspond the runs agree. -/
def Corresponds (R : α → α → Prop) (p q : Parser α) : Prop :=
  ∀ c d, K.place c d → K.Agree R p q c d

/-- What two runs do is what two others do. -/
theorem Agree.of_run {p p' q q' : Parser α} {c' d' : Cursor} (hp : p.run c = p'.run c')
    (hq : q.run d = q'.run d') (h : K.Agree R p' q' c' d') : K.Agree R p q c d := by
  cases h with
  | error hp' hq' he => exact .error (hp.trans hp') (hq.trans hq') he
  | ok hp' hq' hr hplace => exact .ok (hp.trans hp') (hq.trans hq') hr hplace

theorem Agree.bind {p q : Parser α} {f g : α → Parser β} (h : K.Agree R p q c d)
    (hf : ∀ a b, R a b → K.Corresponds S (f a) (g b)) : K.Agree S (p >>= f) (q >>= g) c d := by
  cases h with
  | error hp hq he => exact .error (run_bind_error hp) (run_bind_error hq) he
  | ok hp hq hr hplace => exact .of_run (run_bind_ok hp) (run_bind_ok hq) (hf _ _ hr _ _ hplace)

theorem Agree.map {p q : Parser α} {f g : α → β} (h : K.Agree R p q c d)
    (hf : ∀ a b, R a b → S (f a) (g b)) : K.Agree S (f <$> p) (g <$> q) c d := by
  cases h with
  | error hp hq he => exact .error (by rw [run_map, hp]; rfl) (by rw [run_map, hq]; rfl) he
  | ok hp hq hr hplace =>
    exact .ok (by rw [run_map, hp]; rfl) (by rw [run_map, hq]; rfl) (hf _ _ hr) hplace

theorem SameError.within {e f : ParseError} (h : K.SameError e f) (context : String) :
    K.SameError (e.within context) (f.within context) where
  kind := h.kind
  message := h.message
  context := by
    unfold ParseError.within
    rw [h.context]
  span := h.span

theorem Agree.within {p q : Parser α} (h : K.Agree R p q c d) (context : String) :
    K.Agree R (p.within context) (q.within context) c d := by
  cases h with
  | error hp hq he =>
    exact .error (run_within_error hp context) (run_within_error hq context) (he.within context)
  | ok hp hq hr hplace => exact .ok (run_within_ok hp _) (run_within_ok hq _) hr hplace

theorem agree_pure {a b : α} (hr : R a b) (h : K.place c d) : K.Agree R (pure a) (pure b) c d :=
  .ok rfl rfl hr h

theorem agree_fail {e f : ParseError} (h : K.SameError e f) :
    K.Agree R (fail e) (fail f) c d :=
  .error rfl rfl h

theorem Agree.ite {p p' q q' : Parser α} {P P' : Prop} [Decidable P] [Decidable P']
    (hP : P ↔ P') (hp : P → K.Agree R p q c d) (hq : ¬ P → K.Agree R p' q' c d) :
    K.Agree R (if P then p else p') (if P' then q else q') c d := by
  by_cases h : P
  · rw [if_pos h, if_pos (hP.mp h)]
    exact hp h
  · rw [if_neg h, if_neg (fun h' => h (hP.mpr h'))]
    exact hq h

theorem Corresponds.bind {p q : Parser α} {f g : α → Parser β} (h : K.Corresponds R p q)
    (hf : ∀ a b, R a b → K.Corresponds S (f a) (g b)) : K.Corresponds S (p >>= f) (q >>= g) :=
  fun c d hplace => (h c d hplace).bind hf

/-- What follows does not depend on the value read. -/
theorem Corresponds.seq {p q : Parser α} {p' q' : Parser β} (h : K.Corresponds R p q)
    (h' : K.Corresponds S p' q') : K.Corresponds S (p >>= fun _ => p') (q >>= fun _ => q') :=
  h.bind fun _ _ _ => h'

/-- The two values read are the same. -/
theorem Corresponds.bindEq {p q : Parser α} {f g : α → Parser β} (h : K.Corresponds Eq p q)
    (hf : ∀ a, K.Corresponds S (f a) (g a)) : K.Corresponds S (p >>= f) (q >>= g) := by
  refine h.bind fun a b hab => ?_
  subst hab
  exact hf a

theorem Corresponds.map {p q : Parser α} {f g : α → β} (h : K.Corresponds R p q)
    (hf : ∀ a b, R a b → S (f a) (g b)) : K.Corresponds S (f <$> p) (g <$> q) :=
  fun c d hplace => (h c d hplace).map hf

theorem Corresponds.within {p q : Parser α} (h : K.Corresponds R p q) (context : String) :
    K.Corresponds R (p.within context) (q.within context) :=
  fun c d hplace => (h c d hplace).within context

theorem Corresponds.ite {p p' q q' : Parser α} {P : Prop} [Decidable P]
    (hp : K.Corresponds R p q) (hq : K.Corresponds R p' q') :
    K.Corresponds R (if P then p else p') (if P then q else q') :=
  fun c d h => .ite Iff.rfl (fun _ => hp c d h) (fun _ => hq c d h)

theorem corresponds_pure {a b : α} (hr : R a b) : K.Corresponds R (pure a) (pure b) :=
  fun _ _ h => agree_pure hr h

theorem Corresponds.withCursor {f g : Cursor → Parser α}
    (h : ∀ c d, K.place c d → K.Agree R (f c) (g d) c d) :
    K.Corresponds R (withCursor f) (withCursor g) :=
  fun c d hplace => (h c d hplace).of_run (run_withCursor f c) (run_withCursor g d)

theorem Corresponds.withFuel {p q : Nat → Parser α} (h : ∀ fuel, K.Corresponds R (p fuel) (q fuel)) :
    K.Corresponds R (withFuel p) (withFuel q) := by
  refine .withCursor fun c d hplace => ?_
  rw [length_of_words (K.words hplace)]
  exact h _ c d hplace

/-! ## Errors here -/

theorem sameError_next (h : K.place c d) (kind : ParseErrorKind) (message : String) :
    K.SameError (.ofKind kind message c.nextSpan) (.ofKind kind message d.nextSpan) :=
  ⟨rfl, rfl, rfl, K.errorNext h⟩

/-- An error whose message names the next token. -/
theorem sameError_of_words (hw : c.rest.map Token.word = d.rest.map Token.word)
    (hspan : K.errorSpan c.nextSpan d.nextSpan) (kind : ParseErrorKind)
    (message : String → String) :
    K.SameError (.ofKind kind (message (ParseError.foundWords c.peek?)) c.nextSpan)
      (.ofKind kind (message (ParseError.foundWords d.peek?)) d.nextSpan) := by
  rw [foundWords_of_words hw]
  exact ⟨rfl, rfl, rfl, hspan⟩

theorem sameError_found (h : K.place c d) (kind : ParseErrorKind) (message : String → String) :
    K.SameError (.ofKind kind (message (ParseError.foundWords c.peek?)) c.nextSpan)
      (.ofKind kind (message (ParseError.foundWords d.peek?)) d.nextSpan) :=
  sameError_of_words (K.words h) (K.errorNext h) kind message

/-- An error at the next token. -/
theorem sameError_token {t : Token} {s : Span} (h : K.place c d) (ht : c.peek? = some t)
    (hu : d.peek? = some { t with span := s }) (kind : ParseErrorKind) (message : String) :
    K.SameError (.ofKind kind message t.span) (.ofKind kind message s) := by
  have herror := sameError_next h kind message
  rwa [nextSpan_of_peek ht, nextSpan_of_peek hu] at herror

/-! ## Primitive readers -/

/-- A token of this kind and text starts no declaration. -/
abbrev IsPlain (kind : TokenKind) (text : String) : Prop :=
  startsDeclaration ⟨kind, text, 0, Span.none⟩ = false

theorem place_next (h : K.place c d) {kind : TokenKind} {text : String}
    (hn : c.nextIs kind text = true) (hp : IsPlain kind text) : K.place c.next d.next := by
  obtain ⟨t, ht, rfl, rfl⟩ := nextIs_iff.mp hn
  exact K.next h ht hp

theorem place_skipIf (h : K.place c d) {kind : TokenKind} {text : String} (hp : IsPlain kind text) :
    K.place (c.skipIf kind text) (d.skipIf kind text) := by
  unfold Cursor.skipIf
  rw [← nextIs_of_words (K.words h)]
  split
  · rename_i hn
    exact place_next h hn hp
  · exact h

theorem corresponds_nextSpan : K.Corresponds K.span Parser.nextSpan Parser.nextSpan :=
  fun _ _ h => .ok rfl rfl (K.nextSpan h) h

theorem corresponds_spanSince {start start' : Span} (h : K.span start start') :
    K.Corresponds K.span (spanSince start) (spanSince start') :=
  fun _ _ hplace => .ok rfl rfl (K.merge h (K.lastSpan hplace)) hplace

theorem corresponds_accept {kind : TokenKind} {text : String} (hp : IsPlain kind text) :
    K.Corresponds Eq (accept kind text) (accept kind text) :=
  fun c d h => .ok (run_accept kind text c) (run_accept kind text d)
    (nextIs_of_words (K.words h) kind text) (place_skipIf h hp)

/-- A token is passed, and what follows runs after it. -/
theorem agree_read {p q : Parser β} (h : K.Agree S p q c.next d.next) :
    K.Agree S (read >>= fun _ => p) (read >>= fun _ => q) c d :=
  h.of_run (run_bind_ok (run_read c)) (run_bind_ok (run_read d))

theorem agree_readAs {a b : α} (hr : R a b) (h : K.place c.next d.next) :
    K.Agree R (readAs a) (readAs b) c d :=
  agree_read (agree_pure hr h)

/-- Two tokens of the same word. -/
def SameWord (t u : Token) : Prop := t.word = u.word

theorem SameWord.text {t u : Token} (h : SameWord t u) : t.text = u.text := by
  show t.word.text = u.word.text
  exact congrArg Token.text h

theorem corresponds_readIf {kind : TokenKind} {text : String} (hp : IsPlain kind text) :
    K.Corresponds (Option.Rel SameWord) (readIf kind text) (readIf kind text) := by
  intro c d h
  refine .ok (run_readIf kind text c) (run_readIf kind text d) ?_ (place_skipIf h hp)
  rw [← nextIs_of_words (K.words h)]
  split
  · rcases peek?_of_words (K.words h) with ⟨hc, hd⟩ | ⟨t, s, hc, hd⟩
    · rw [hc, hd]
      exact .none
    · rw [hc, hd]
      exact .some rfl
  · exact .none

theorem corresponds_require {kind : TokenKind} {text : String} (hp : IsPlain kind text) :
    K.Corresponds SameWord (require kind text) (require kind text) := by
  refine (corresponds_readIf hp).bind fun a b hab => ?_
  cases hab with
  | some hr => exact corresponds_pure hr
  | none =>
    refine .withCursor fun c d h => agree_fail ?_
    exact sameError_found h _ fun found => "expected `" ++ text ++ "`, found " ++ found

theorem corresponds_requireSymbol (text : String) :
    K.Corresponds SameWord (requireSymbol text) (requireSymbol text) := by
  refine (corresponds_readIf rfl).bind fun a b hab => ?_
  cases hab with
  | some hr => exact corresponds_pure hr
  | none =>
    refine .withCursor fun c d h => agree_fail ?_
    exact sameError_found h _ fun found => "expected `" ++ text ++ "`, found " ++ found

theorem corresponds_readKind {kind : TokenKind} (hk : kind ≠ .keyword) :
    K.Corresponds (Option.Rel SameWord) (readKind kind) (readKind kind) := by
  intro c d h
  rcases peek?_of_words (K.words h) with ⟨hc, hd⟩ | ⟨t, s, hc, hd⟩
  · have hcrun : (readKind kind).run c = (.ok none, c) := by
      simp [run_readKind, nextHasKind, hc]
    have hdrun : (readKind kind).run d = (.ok none, d) := by
      simp [run_readKind, nextHasKind, hd]
    exact .ok hcrun hdrun .none h
  · by_cases ht : t.kind = kind
    · have hcrun : (readKind kind).run c = (.ok (some t), c.next) := by
        simp [run_readKind, nextHasKind, hc, ht]
      have hdrun : (readKind kind).run d = (.ok (some { t with span := s }), d.next) := by
        simp [run_readKind, nextHasKind, hd, ht]
      exact .ok hcrun hdrun (.some rfl) (K.next h hc (startsDeclaration_of_kind (ht ▸ hk)))
    · have hcrun : (readKind kind).run c = (.ok none, c) := by
        simp [run_readKind, nextHasKind, hc, ht]
      have hdrun : (readKind kind).run d = (.ok none, d) := by
        simp [run_readKind, nextHasKind, hd, ht]
      exact .ok hcrun hdrun .none h

theorem corresponds_requireIdentifier :
    K.Corresponds SameWord requireIdentifier requireIdentifier := by
  refine (corresponds_readKind (by decide)).bind fun a b hab => ?_
  cases hab with
  | some hr => exact corresponds_pure hr
  | none =>
    refine .withCursor fun c d h => agree_fail ?_
    exact sameError_found h _ fun found => "expected identifier, found " ++ found

/-! ## Series, brackets and choices -/

theorem Corresponds.moreElements {element : Parser α} (h : K.Corresponds R element element)
    {kind : TokenKind} {delimiter : String} (hp : IsPlain kind delimiter) (fuel : Nat) :
    K.Corresponds (List.Forall₂ R) (moreElements element kind delimiter fuel)
      (moreElements element kind delimiter fuel) := by
  induction fuel with
  | zero => exact corresponds_pure .nil
  | succ fuel ih =>
    intro c d hplace
    have hnext := nextIs_of_words (K.words hplace) kind delimiter
    cases hn : c.nextIs kind delimiter with
    | false =>
      rw [hn] at hnext
      exact .ok (run_moreElements_done (.inl hn)) (run_moreElements_done (.inl hnext.symm)) .nil
        hplace
    | true =>
      rw [hn] at hnext
      cases h _ _ (place_next hplace hn hp) with
      | error hc hd _ =>
        exact .ok (run_moreElements_done (.inr ⟨_, _, hc⟩))
          (run_moreElements_done (.inr ⟨_, _, hd⟩)) .nil hplace
      | ok hc hd hr hplace' =>
        have hmore := (ih _ _ hplace').map fun _ _ hs => List.Forall₂.cons hr hs
        exact hmore.of_run (run_moreElements_next hn hc) (run_moreElements_next hnext.symm hd)

theorem Corresponds.sepBy {element : Parser α} (h : K.Corresponds R element element)
    {kind : TokenKind} {delimiter : String} (hp : IsPlain kind delimiter) :
    K.Corresponds (List.Forall₂ R) (sepBy element kind delimiter)
      (sepBy element kind delimiter) := by
  intro c d hplace
  cases h c d hplace with
  | error hc hd _ => exact .ok (run_sepBy_nil ⟨_, _, hc⟩) (run_sepBy_nil ⟨_, _, hd⟩) .nil hplace
  | ok hc hd hr hplace' =>
    have hmore := (Corresponds.withFuel (h.moreElements hp) _ _ hplace').map
      fun _ _ hs => List.Forall₂.cons hr hs
    exact hmore.of_run (run_sepBy_next hc) (run_sepBy_next hd)

/-- What is inside is read also where the opening token is missing, but then for nothing. -/
theorem Corresponds.enclosed {inner : Parser α} (h : K.Corresponds R inner inner) {b : Brackets}
    (ho : IsPlain b.openKind b.openText) (hc : IsPlain b.closeKind b.closeText) :
    K.Corresponds R (enclosed inner b) (enclosed inner b) := by
  refine .withCursor fun c d hplace => (corresponds_accept ho c d hplace).bind fun a a' ha => ?_
  subst ha
  refine .ite ?_ ?_
  · refine h.bind fun x y hr => (corresponds_accept hc).bindEq fun closed => .ite ?_ ?_
    · exact corresponds_pure hr
    · refine .withCursor fun c d hplace => agree_fail ?_
      exact sameError_found hplace _ fun found => "expected `" ++ b.closeText ++ "`, found " ++ found
  · intro c' d' _
    refine .error rfl rfl ?_
    exact sameError_found hplace _ fun found => "expected `" ++ b.openText ++ "`, found " ++ found

theorem SameError.further {e f e' f' : ParseError} (h : K.SameError e f) (h' : K.SameError e' f') :
    K.SameError (e.further e') (f.further f') := by
  unfold ParseError.further
  by_cases hlt : e.span.start < e'.span.start
  · rw [if_pos hlt, if_pos ((K.errorOrder h.span h'.span).mp hlt)]
    exact h'
  · rw [if_neg hlt, if_neg fun hlt' => hlt ((K.errorOrder h.span h'.span).mpr hlt')]
    exact h

theorem sameError_furthestSoFar {e f : ParseError} {best best' : Option ParseError}
    (hbest : Option.Rel K.SameError best best') (h : K.SameError e f) :
    K.SameError (furthestSoFar best e) (furthestSoFar best' f) := by
  cases hbest with
  | none => exact h
  | some hs => exact hs.further h

/-- Either all alternatives fail in both runs, or one and the same succeeds in both. -/
theorem tryEach_agree {ps : List (Parser α)} (hps : ∀ p ∈ ps, K.Agree R p p c d) :
    ∀ best best', Option.Rel K.SameError best best' →
      (∃ b b', tryEach c ps best = .error b ∧ tryEach d ps best' = .error b' ∧
        Option.Rel K.SameError b b') ∨
      ∃ x y c' d', tryEach c ps best = .ok (x, c') ∧ tryEach d ps best' = .ok (y, d') ∧ R x y ∧
        K.place c' d' := by
  induction ps with
  | nil => exact fun best best' hbest => .inl ⟨best, best', rfl, rfl, hbest⟩
  | cons p ps ih =>
    intro best best' hbest
    cases hps p List.mem_cons_self with
    | error hc hd he =>
      rw [tryEach_of_error hc, tryEach_of_error hd]
      exact ih (fun q hq => hps q (List.mem_cons_of_mem p hq)) _ _
        (.some (sameError_furthestSoFar hbest he))
    | ok hc hd hr hplace =>
      exact .inr ⟨_, _, _, _, tryEach_of_ok hc ps best, tryEach_of_ok hd ps best', hr, hplace⟩

theorem sameError_choice {best best' : Option ParseError} {otherwise : Cursor → ParseError}
    (hspan : K.errorSpan c.nextSpan d.nextSpan)
    (hother : K.SameError (otherwise c) (otherwise d))
    (hbest : Option.Rel K.SameError best best') :
    K.SameError (choiceError c best otherwise) (choiceError d best' otherwise) := by
  cases hbest with
  | none => exact hother
  | @some e f he =>
    unfold choiceError
    by_cases hlt : c.nextSpan.start < e.span.start
    · simp only [if_pos hlt, if_pos ((K.errorOrder hspan he.span).mp hlt)]
      exact he
    · simp only [if_neg hlt, if_neg fun hlt' => hlt ((K.errorOrder hspan he.span).mpr hlt')]
      exact hother

theorem agree_oneOf {ps : List (Parser α)} {otherwise : Cursor → ParseError}
    (hps : ∀ p ∈ ps, K.Agree R p p c d) (hspan : K.errorSpan c.nextSpan d.nextSpan)
    (hother : K.SameError (otherwise c) (otherwise d)) :
    K.Agree R (oneOf ps otherwise) (oneOf ps otherwise) c d := by
  rcases tryEach_agree hps none none .none with
    ⟨b, b', hc, hd, hbest⟩ | ⟨x, y, c', d', hc, hd, hr, hplace⟩
  · exact .error (run_oneOf_of_error hc) (run_oneOf_of_error hd)
      (sameError_choice hspan hother hbest)
  · exact .ok (run_oneOf_eq_ok.mpr hc) (run_oneOf_eq_ok.mpr hd) hr hplace

end Correspondence

end FrontEnd
