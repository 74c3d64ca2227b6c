import FrontEnd.Proofs.ErrorOrder
import FrontEnd.Proofs.TreeTokens

/-!
# The spans of a tree

Spans follow the structure of a tree: those of the parts of a node lie inside that of the node,
apart from each other and in source order.

* `LaidOut` says of spans that they are those of stretches of tokens, one after the other.
* `Span.Encloses` is what follows for the node and its parts: `Expr.Nested`, `Function.Nested`,
  `Struct.Nested`.
* `Expr.Faithful`, `Declaration.Faithful` and `Module.Faithful` put together that the spans are
  those of the tokens that were taken and that they are nested.
* `tree_spans_faithful` is the statement for every production at every place in the tokens of a
  source, for whole expressions and for modules.
-/

set_option autoImplicit false

namespace FrontEnd

open Grammar FrontEnd.Parser Cursor

/-! ## Stretches of tokens in order -/

/-- The spans are those of stretches of the tokens, one after the other. -/
inductive LaidOut : List Span → List Token → Prop where
  | nil (ts : List Token) : LaidOut [] ts
  | cons (gap : List Token) {ss : List Span} {us ts : List Token} (hne : us ≠ [])
      (h : LaidOut ss ts) :
      LaidOut (spanOf us :: ss) (gap ++ (us ++ ts))

/-- The span covers something, and inside it lie the others, apart from each other and in order. -/
structure Span.Encloses (s : Span) (parts : List Span) : Prop where
  nonempty : s.start < s.stop
  inside : ∀ t ∈ parts, s.start ≤ t.start ∧ t.stop ≤ s.stop
  ordered : parts.Pairwise fun t u => t.stop ≤ u.start

namespace LaidOut

variable {ss ss' : List Span} {ts us : List Token}

theorem single (h : us ≠ []) : LaidOut [spanOf us] us := by
  have hone := LaidOut.cons [] h (.nil [])
  rwa [List.append_nil] at hone

theorem prepend (gap : List Token) (h : LaidOut ss ts) : LaidOut ss (gap ++ ts) := by
  cases h with
  | nil => exact .nil _
  | cons gap' hne h =>
    rw [← List.append_assoc]
    exact .cons _ hne h

theorem append (h : LaidOut ss ts) (h' : LaidOut ss' us) : LaidOut (ss ++ ss') (ts ++ us) := by
  induction h with
  | nil ts => exact h'.prepend ts
  | cons gap hne _ ih =>
    rw [List.append_assoc, List.append_assoc]
    exact .cons gap hne ih

theorem extend (h : LaidOut ss ts) (us : List Token) : LaidOut ss (ts ++ us) := by
  have happend := h.append (.nil us)
  rwa [List.append_nil] at happend

theorem ne_nil {s : Span} (h : LaidOut ss ts) (hs : s ∈ ss) : ts ≠ [] := by
  cases h with
  | nil => exact absurd hs List.not_mem_nil
  | cons gap hne _ => simp [hne]

/-- Of ordered tokens the stretches lie inside the whole, and each before those after it. -/
theorem bounds (h : LaidOut ss ts) (hts : Ordered ts) :
    (∀ s ∈ ss, (spanOf ts).start ≤ s.start ∧ s.stop ≤ (spanOf ts).stop) ∧
      ss.Pairwise fun s t => s.stop ≤ t.start := by
  induction h with
  | nil => exact ⟨fun s hs => absurd hs List.not_mem_nil, List.Pairwise.nil⟩
  | @cons gap ss us ts hne h ih =>
    obtain ⟨hinside, hordered⟩ := ih hts.right.right
    have hne' : us ++ ts ≠ [] := by simp [hne]
    have hlow := hts.start_le hne'
    have hstop : (spanOf (gap ++ (us ++ ts))).stop = (spanOf (us ++ ts)).stop :=
      spanOf_append_stop hne'
    rw [spanOf_append_start hne] at hlow
    have hus := hts.right.left.start_lt_stop hne
    have hhigh := hts.right.le_stop hne
    have hafter : ∀ s ∈ ss, (spanOf us).stop ≤ s.start ∧ s.stop ≤ (spanOf (us ++ ts)).stop := by
      intro s hs
      have hnil := h.ne_nil hs
      obtain ⟨hstart, hend⟩ := hinside s hs
      rw [spanOf_append_stop hnil]
      exact ⟨Nat.le_trans (hts.right.stop_le_start hne hnil) hstart, hend⟩
    refine ⟨?_, List.Pairwise.cons (fun s hs => (hafter s hs).1) hordered⟩
    rw [hstop]
    intro s hs
    rcases List.mem_cons.mp hs with rfl | hs
    · exact ⟨hlow, hhigh⟩
    · obtain ⟨hstart, hend⟩ := hafter s hs
      exact ⟨by omega, hend⟩

theorem encloses (h : LaidOut ss ts) (hts : Ordered ts) (hne : ts ≠ []) :
    (spanOf ts).Encloses ss :=
  ⟨hts.start_lt_stop hne, (h.bounds hts).1, (h.bounds hts).2⟩

end LaidOut

/-! ## Expressions -/

/-- The span of the root encloses those of its parts. -/
def Expr.Nested (e : Expr) : Prop := e.span.Encloses (e.children.map Expr.span)

/-- The spans of the expressions that a part of a tree is made of. -/
def TreePart.spans : TreePart → List Span
  | .expr e => e.children.map Expr.span
  | .elements es | .statements es => es.map Expr.span
  | .arms bs => (bs.flatMap Expr.armParts).map Expr.span

/-- In every expression of the part the parts are nested. -/
def TreePart.Nested : TreePart → Prop
  | .expr e => e.All Expr.Nested
  | .elements es | .statements es => Expr.AllIn Expr.Nested es
  | .arms bs => Expr.AllInArms Expr.Nested bs

theorem Takes.single {e : Expr} {ts : List Token} (h : Takes (.expr e) ts) :
    LaidOut [e.span] ts := by
  rw [h.span]
  exact .single h.ne_nil

/-- The expressions that a part is made of were read from stretches of its tokens, in order. -/
theorem Takes.laidOut {p : TreePart} {ts : List Token} (h : Takes p ts) : LaidOut p.spans ts := by
  induction h with
  | atom _ _ _ => exact .nil _
  | @unary _ _ _ o _ _ he _ _ => exact he.single.prepend [o]
  | @binary _ _ _ _ o _ _ hl _ hr _ _ _ => exact hl.single.append (hr.single.prepend [o])
  | @tuple _ _ o c _ _ _ _ _ ih => exact (ih.extend [c]).prepend [o]
  | emptyCall hf _ _ _ _ => exact hf.single.extend _
  | @call _ _ _ o c _ _ hf _ _ _ _ _ ih => exact hf.single.append ((ih.extend [c]).prepend [o])
  | @block _ _ o c _ _ _ _ _ ih => exact (ih.extend [c]).prepend [o]
  | @ifChain _ _ o _ _ _ _ ih => exact ih.prepend [o]
  | @loop _ _ o _ _ he _ _ => exact he.single.prepend [o]
  | accessor he _ _ _ _ => exact he.single.extend _
  | lastElement he _ => exact he.single
  | @element _ _ d _ _ he _ _ _ ih => exact he.single.append (ih.prepend [d])
  | noStatement => exact .nil _
  | @statement _ _ _ ds _ he _ _ _ ih => exact he.single.append (ih.prepend ds)
  | @lastArm _ _ _ ds _ hc _ hb _ _ => exact hc.single.append (hb.single.prepend ds)
  | @elseArm _ _ _ d _ ds _ _ hc _ hb _ hl _ _ _ =>
    exact hc.single.append ((hb.single.append (hl.single.prepend [d])).prepend ds)
  | @elseIfArm _ _ _ d i _ ds _ _ hc _ hb _ _ _ _ _ ih =>
    exact hc.single.append ((hb.single.append (ih.prepend [d, i])).prepend ds)

theorem Takes.encloses {e : Expr} {ts : List Token} (h : Takes (.expr e) ts) (hts : Ordered ts) :
    e.Nested := by
  unfold Expr.Nested
  rw [h.span]
  exact h.laidOut.encloses hts h.ne_nil

/-- In a tree that was read from ordered tokens every node encloses its parts. -/
theorem Takes.nested {p : TreePart} {ts : List Token} (h : Takes p ts) : Ordered ts → p.Nested := by
  induction h with
  | atom htook ha hspan => exact fun hts => (Takes.atom htook ha hspan).encloses hts
  | unary hop he hspan ih => exact fun hts => ⟨(Takes.unary hop he hspan).encloses hts, ih hts.tail⟩
  | binary hl hop hr hspan ihl ihr =>
    exact fun hts => ⟨(Takes.binary hl hop hr hspan).encloses hts, ihl hts.left, ihr hts.right.tail⟩
  | tuple ho hes hc hspan ih =>
    exact fun hts => ⟨(Takes.tuple ho hes hc hspan).encloses hts, ih hts.tail.left⟩
  | emptyCall hf ho hc hspan ih =>
    exact fun hts => ⟨(Takes.emptyCall hf ho hc hspan).encloses hts, ih hts.left, trivial⟩
  | call hf ho hargs hc hspan ihf ihargs =>
    exact fun hts =>
      ⟨(Takes.call hf ho hargs hc hspan).encloses hts, ihf hts.left, ihargs hts.right.tail.left⟩
  | block ho hes hc hspan ih =>
    exact fun hts => ⟨(Takes.block ho hes hc hspan).encloses hts, ih hts.tail.left⟩
  | ifChain ho hbs hspan ih =>
    exact fun hts => ⟨(Takes.ifChain ho hbs hspan).encloses hts, ih hts.tail⟩
  | loop ho he hspan ih => exact fun hts => ⟨(Takes.loop ho he hspan).encloses hts, ih hts.tail⟩
  | accessor he hd hm hspan ih =>
    exact fun hts => ⟨(Takes.accessor he hd hm hspan).encloses hts, ih hts.left⟩
  | lastElement _ ih => exact fun hts => ⟨ih hts, trivial⟩
  | element _ _ _ ih ihes => exact fun hts => ⟨ih hts.left, ihes hts.right.tail⟩
  | noStatement => exact fun _ => trivial
  | statement _ _ _ ih ihes => exact fun hts => ⟨ih hts.left, ihes hts.right.right⟩
  | lastArm _ _ _ ihc ihb => exact fun hts => ⟨⟨ihc hts.left, ihb hts.right.right⟩, trivial⟩
  | elseArm _ _ _ _ _ ihc ihb ihl =>
    exact fun hts => ⟨⟨ihc hts.left, ihb hts.right.right.left⟩, ihl hts.right.right.right.tail,
      trivial⟩
  | elseIfArm _ _ _ _ _ _ ihc ihb ihbs =>
    exact fun hts => ⟨⟨ihc hts.left, ihb hts.right.right.left⟩, ihbs hts.right.right.right.tail.tail⟩

/-! ## Declarations -/

/-- The spans of the bindings of a function and of its body. -/
def Function.parts (f : Function) : List Span :=
  f.params.map Parameter.span ++ f.body.toList.map Expr.span

/-- The function encloses its bindings and its body, and every expression in it its parts. -/
structure Function.Nested (f : Function) : Prop where
  parts : f.span.Encloses f.parts
  body : ∀ e ∈ f.body, e.All Expr.Nested

/-- The structure encloses its bindings. -/
def Struct.Nested (s : Struct) : Prop := s.span.Encloses (s.members.map Member.span)

/-- The declaration encloses its parts. -/
def Declaration.Nested : Declaration → Prop
  | .function f => f.Nested
  | .struct s => s.Nested

section

variable {ts : List Token}

theorem ParameterTakes.single {p : Parameter} (h : ParameterTakes p ts) : LaidOut [p.span] ts := by
  cases h with
  | mk _ _ _ _ hspan =>
    rw [hspan]
    exact .single (by simp)

theorem MemberTakes.single {m : Member} (h : MemberTakes m ts) : LaidOut [m.span] ts := by
  cases h with
  | mk _ _ _ _ _ hspan =>
    rw [hspan]
    exact .single (by simp)

theorem SeriesTakes.laidOut {α : Type} {R : α → List Token → Prop} {span : α → Span}
    {delimiter : String} {as : List α} (hR : ∀ a ts, R a ts → LaidOut [span a] ts)
    (h : SeriesTakes R delimiter as ts) : LaidOut (as.map span) ts := by
  induction h with
  | last ha => exact hR _ _ ha
  | @more _ _ d _ _ ha _ _ ih => exact (hR _ _ ha).append (ih.prepend [d])

theorem ParameterListTakes.laidOut {ps : Parameters} (h : ParameterListTakes ps ts) :
    LaidOut (ps.bindings.map Parameter.span) ts := by
  cases h with
  | empty => exact .nil _
  | fixed _ hps _ => exact ((hps.laidOut fun _ _ h => h.single).extend _).prepend [_]
  | variadic _ hps _ _ _ => exact ((hps.laidOut fun _ _ h => h.single).extend _).prepend [_]
  | omitted => exact .nil _

theorem BodyTakes.laidOut {body : Option Expr} (h : BodyTakes body ts) :
    LaidOut (body.toList.map Expr.span) ts := by
  cases h with
  | written _ he => exact he.single.prepend [_]
  | omitted => exact .nil _

/-- The bindings of a function and its body were read from stretches of its tokens, in order. -/
theorem FunctionTakes.laidOut {f : Function} (h : FunctionTakes f ts) : LaidOut f.parts ts := by
  cases h with
  | @mk k n xs ps rs bs _ _ _ _ hps _ hbs _ =>
    exact ((hps.laidOut.append (hbs.laidOut.prepend rs)).prepend [k, n]).prepend xs

theorem FunctionTakes.span {f : Function} (h : FunctionTakes f ts) :
    f.span = spanOf ts ∧ ts ≠ [] := by
  cases h with
  | mk _ _ _ _ _ _ _ hspan => exact ⟨hspan, by simp⟩

theorem BodyTakes.nested {body : Option Expr} (h : BodyTakes body ts) (hts : Ordered ts) :
    ∀ e ∈ body, e.All Expr.Nested := by
  cases h with
  | written _ he =>
    intro e hmem
    cases hmem
    exact he.nested hts.tail
  | omitted => exact fun e hmem => absurd hmem (by simp)

theorem FunctionTakes.nested {f : Function} (h : FunctionTakes f ts) (hts : Ordered ts) :
    f.Nested where
  parts := by
    obtain ⟨hspan, hne⟩ := h.span
    rw [hspan]
    exact h.laidOut.encloses hts hne
  body := by
    cases h with
    | mk _ _ _ _ _ _ hbs _ => exact hbs.nested hts.right.tail.tail.right.right

theorem StructTakes.span {s : Struct} (h : StructTakes s ts) : s.span = spanOf ts ∧ ts ≠ [] := by
  cases h with
  | mk _ _ _ _ _ _ hspan => exact ⟨hspan, by simp⟩

theorem StructTakes.laidOut {s : Struct} (h : StructTakes s ts) :
    LaidOut (s.members.map Member.span) ts := by
  cases h with
  | @mk k n o c ms _ _ _ _ hms _ _ =>
    have hseries : LaidOut (s.members.map Member.span) ms := by
      rcases hms with ⟨hnil, rfl⟩ | hms
      · rw [hnil]
        exact .nil _
      · exact hms.laidOut fun _ _ h => h.single
    exact (hseries.extend [c]).prepend [k, n, o]

theorem StructTakes.nested {s : Struct} (h : StructTakes s ts) (hts : Ordered ts) : s.Nested := by
  obtain ⟨hspan, hne⟩ := h.span
  unfold Struct.Nested
  rw [hspan]
  exact h.laidOut.encloses hts hne

theorem DeclarationTakes.nested {d : Declaration} (h : DeclarationTakes d ts) (hts : Ordered ts) :
    d.Nested := by
  cases h with
  | function h => exact h.nested hts
  | struct h => exact h.nested hts

theorem DeclarationTakes.single {d : Declaration} (h : DeclarationTakes d ts) :
    LaidOut [d.span] ts := by
  have hspan : d.span = spanOf ts ∧ ts ≠ [] := by
    cases h with
    | function h => exact h.span
    | struct h => exact h.span
  rw [hspan.1]
  exact .single hspan.2

end

/-! ## Trees with the spans of their tokens -/

/-- Every span in the expression is that of the tokens it was read from, and encloses those of its
parts. -/
structure Expr.Faithful (e : Expr) (ts : List Token) : Prop where
  takes : Takes (.expr e) ts
  nested : e.All Expr.Nested

/-- The same of a function. -/
structure Function.Faithful (f : Function) (ts : List Token) : Prop where
  takes : FunctionTakes f ts
  nested : f.Nested

/-- The same of a structure. -/
structure Struct.Faithful (s : Struct) (ts : List Token) : Prop where
  takes : StructTakes s ts
  nested : s.Nested

/-- The same of a declaration. -/
structure Declaration.Faithful (d : Declaration) (ts : List Token) : Prop where
  takes : DeclarationTakes d ts
  nested : d.Nested

/-- Every declaration was read from a stretch of the tokens, and their spans are apart from each
other and in order. -/
structure Module.Faithful (m : Module) (tokens : List Token) : Prop where
  declarations : ∀ d ∈ m, ∃ ts, ts <:+: tokens ∧ d.Faithful ts
  ordered : m.Pairwise fun d d' => d.span.stop ≤ d'.span.start

/-- Wherever in the tokens the parser succeeds, what it gives is so related to the tokens that it
took. -/
def Parser.TakesFrom {α : Type} (p : Parser α) (tokens : List Token)
    (R : α → List Token → Prop) : Prop :=
  ∀ c c' a, c.tokens = tokens → p.run c = (.ok a, c') → ∃ ts, Took ts c c' ∧ R a ts

/-- Every production, and the reading of a whole expression or module, gives trees with the spans of
the tokens they were read from. -/
structure TreesFaithful (tokens : List Token) : Prop where
  operand : (operand climbing).TakesFrom tokens Expr.Faithful
  operation : (operation climbing).TakesFrom tokens Expr.Faithful
  parameter : parameter.TakesFrom tokens ParameterTakes
  member : member.TakesFrom tokens MemberTakes
  function : (function climbing).TakesFrom tokens Function.Faithful
  struct : struct.TakesFrom tokens Struct.Faithful
  declaration : (declaration climbing).TakesFrom tokens Declaration.Faithful
  expression : ∀ e, parseExpression tokens = .ok e → e.Faithful tokens
  module : Module.Faithful (parseModule tokens).declarations tokens

theorem Reads.faithful {c c' : Cursor} {p : Phrase} {e : Expr} (h : Reads true p c c')
    (hp : p.Taken c c' → ∃ ts, Took ts c c' ∧ Takes (.expr e) ts) (hc : Ordered c.tokens) :
    ∃ ts, Took ts c c' ∧ e.Faithful ts := by
  obtain ⟨ts, htook, he⟩ := hp (h.taken hc)
  exact ⟨ts, htook, he, he.nested (htook.ordered hc)⟩

theorem DeclarationReads.faithful {c c' : Cursor} {d : Declaration}
    (h : DeclarationReads true d c c') (hc : Ordered c.tokens) :
    ∃ ts, Took ts c c' ∧ d.Faithful ts := by
  obtain ⟨ts, htook, hd⟩ := h.taken hc
  exact ⟨ts, htook, hd, hd.nested (htook.ordered hc)⟩

/-- The declarations that are read from a place on were read from stretches of the tokens there, in
order: a declaration takes the first of them, and recovery passes some. -/
theorem declarationsAux_laidOut :
    ∀ (fuel : Nat) (c : Cursor), Ordered c.tokens →
      (∀ d ∈ (declarationsAux climbing fuel c).1.declarations,
          ∃ ts, ts <:+: c.tokens ∧ d.Faithful ts) ∧
        LaidOut ((declarationsAux climbing fuel c).1.declarations.map Declaration.span) c.rest := by
  intro fuel
  induction fuel with
  | zero => exact fun c _ => ⟨fun d hd => absurd hd List.not_mem_nil, .nil _⟩
  | succ fuel ih =>
    intro c hc
    by_cases hne : c.rest = []
    · rw [declarationsAux_end hne]
      exact ⟨fun d hd => absurd hd List.not_mem_nil, .nil _⟩
    cases hrun : (declaration climbing).run c with
    | mk r c' =>
      cases r with
      | ok d =>
        have hreads : DeclarationReads true d c c' := declaration_run_iff.mp hrun
        obtain ⟨ts, htook, hd⟩ := hreads.faithful hc
        obtain ⟨hrest, hlaid⟩ := ih c' (htook.ordered_tokens hc)
        rw [htook.tokens_eq] at hrest
        rw [declarationsAux_ok hne hrun]
        refine ⟨List.forall_mem_cons.mpr ⟨⟨ts, ?_, hd⟩, hrest⟩, ?_⟩
        · exact ⟨c.passed.reverse, c'.rest, by rw [tokens, htook.1, List.append_assoc]⟩
        · rw [htook.1]
          exact hd.takes.single.append hlaid
      | error e =>
        obtain rfl : c' = c := run_oneOf_error hrun
        have htokens := tokens_skipToDeclaration c'
        obtain ⟨hrest, hlaid⟩ := ih (skipToDeclaration c') (htokens ▸ hc)
        rw [htokens] at hrest
        rw [declarationsAux_error hne hrun]
        obtain ⟨gap, hgap⟩ := skipToDeclaration_suffix c'
        refine ⟨hrest, ?_⟩
        rw [← hgap]
        exact hlaid.prepend gap

/-- **The spans of a tree are faithful.** Every expression, parameter, member, function and
structure that is read from a source has the span from the start of the first token that was taken
for it to the end of the last; the spans of its parts lie inside, apart from each other and in
source order, and those of the declarations of a module follow one another. -/
theorem tree_spans_faithful {source : String} {tokens : List Token}
    (hsize : Text.byteLength source.toList ≤ Span.limit) (hlex : lex source = .ok tokens) :
    TreesFaithful tokens := by
  have hts : Ordered tokens := lex_ordered hsize hlex
  have hoperation : (Grammar.operation climbing).TakesFrom tokens Expr.Faithful := by
    rintro c c' e rfl hrun
    have hreads : Reads true (.operation e) c c' := operation_run_iff.mp hrun
    exact hreads.faithful id hts
  constructor
  case operand =>
    rintro c c' e rfl hrun
    have hreads : Reads true (.operand e) c c' := operand_run_iff.mp hrun
    exact hreads.faithful id hts
  case operation => exact hoperation
  case parameter =>
    rintro c c' p rfl hrun
    exact (parameter_run_iff.mp hrun).taken hts
  case member =>
    rintro c c' m rfl hrun
    exact (member_run_iff.mp hrun).taken hts
  case function =>
    rintro c c' f rfl hrun
    have hreads : FunctionReads true f c c' := function_run_iff.mp hrun
    obtain ⟨ts, htook, hf⟩ := hreads.taken hts
    exact ⟨ts, htook, hf, hf.nested (htook.ordered hts)⟩
  case struct =>
    rintro c c' s rfl hrun
    obtain ⟨ts, htook, hs⟩ := (struct_run_iff.mp hrun).taken hts
    exact ⟨ts, htook, hs, hs.nested (htook.ordered hts)⟩
  case declaration =>
    rintro c c' d rfl hrun
    have hreads : DeclarationReads true d c c' := declaration_run_iff.mp hrun
    exact hreads.faithful hts
  case expression =>
    intro e hparse
    obtain ⟨c', hrun, hend⟩ := parse_complete_eq_ok.mp hparse
    obtain ⟨ts, htook, he⟩ := hoperation (Cursor.ofTokens tokens) c' e rfl hrun
    have hall : tokens = ts ++ c'.rest := htook.1
    rw [hend, List.append_nil] at hall
    rwa [hall]
  case module =>
    obtain ⟨hdeclarations, hlaid⟩ :=
      declarationsAux_laidOut (tokens.length + 1) (Cursor.ofTokens tokens) hts
    exact ⟨hdeclarations, List.pairwise_map.mp (hlaid.bounds hts).2⟩

/-- A function whose body has a suffix, postfixes and operators, and a structure after it. -/
theorem tree_spans_faithful_postfixes :
    ∃ tokens, lex "fn f(a: str) = a(2uint8).b + -c struct s \x7b\x7d" = .ok tokens ∧
      (parseModule tokens).declarations.map Declaration.span = [⟨0, 31⟩, ⟨32, 43⟩] ∧
      TreesFaithful tokens := by
  obtain ⟨tokens, hlex, hspans⟩ : ∃ tokens,
      lex "fn f(a: str) = a(2uint8).b + -c struct s \x7b\x7d" = .ok tokens ∧
        (parseModule tokens).declarations.map Declaration.span = [⟨0, 31⟩, ⟨32, 43⟩] :=
    ⟨_, rfl, rfl⟩
  exact ⟨tokens, hlex, hspans, tree_spans_faithful (by decide) hlex⟩

end FrontEnd
