import FrontEnd.Proofs.Declarations
import FrontEnd.Proofs.TypeGrammar

/-!
# The tokens of a tree

Which tokens a tree was read from, node by node, and with them the span of each node: it goes from
the start of the first token to the end of the last.

* `spanOf` is the span of a list of tokens.
* `TreePart` lists the parts of a tree that have tokens of their own; `Takes` is one relation over
  all of them, so that a property of the whole tree is one induction with a case for each kind of
  node. It says nothing of precedence or of how far a phrase goes: those are questions of the
  parser, this one is of the tree.
* `Reads.taken`: a derivation takes just the tokens between its two places for its tree. The spans
  that the productions put together from snapshots, the last token and the spans of operands are
  those of the tokens that were taken.
-/

set_option autoImplicit false

namespace FrontEnd

open Grammar FrontEnd.Parser Cursor

/-! ## Spans of tokens -/

/-- The span from the start of the first token to the end of the last. -/
def spanOf (ts : List Token) : Span :=
  ⟨(ts.head?.map fun t => t.span.start).getD 0, (ts.getLast?.map fun t => t.span.stop).getD 0⟩

@[simp] theorem spanOf_singleton (t : Token) : spanOf [t] = t.span := rfl

section

variable {ts us vs : List Token}

theorem spanOf_append_start (h : ts ≠ []) : (spanOf (ts ++ us)).start = (spanOf ts).start := by
  cases ts with
  | nil => exact absurd rfl h
  | cons t ts => rfl

theorem spanOf_append_stop (h : us ≠ []) : (spanOf (ts ++ us)).stop = (spanOf us).stop := by
  unfold spanOf
  rw [List.getLast?_append_of_ne_nil ts h]

theorem Ordered.left (h : Ordered (ts ++ us)) : Ordered ts :=
  ⟨fun t ht => h.nonempty t (List.mem_append_left us ht), (List.pairwise_append.mp h.ordered).1⟩

theorem Ordered.right (h : Ordered (ts ++ us)) : Ordered us :=
  ⟨fun t ht => h.nonempty t (List.mem_append_right ts ht), (List.pairwise_append.mp h.ordered).2.1⟩

theorem Ordered.tail {t : Token} (h : Ordered (t :: ts)) : Ordered ts := by
  rw [← List.singleton_append] at h
  exact h.right

/-- What comes first in the list stops before the other starts. -/
theorem Ordered.stop_le_start (h : Ordered (ts ++ us)) (hts : ts ≠ []) (hus : us ≠ []) :
    (spanOf ts).stop ≤ (spanOf us).start := by
  obtain ⟨u, us, rfl⟩ := List.exists_cons_of_ne_nil hus
  have hlast := List.getLast?_eq_some_getLast hts
  have hle := (List.pairwise_append.mp h.ordered).2.2 _ (List.getLast_mem hts) u
    List.mem_cons_self
  simpa [spanOf, hlast] using hle

/-- Tokens cover something. -/
theorem Ordered.start_lt_stop (h : Ordered ts) (hts : ts ≠ []) :
    (spanOf ts).start < (spanOf ts).stop := by
  induction ts with
  | nil => exact absurd rfl hts
  | cons t us ih =>
    have ht := h.nonempty t List.mem_cons_self
    by_cases hus : us = []
    · subst hus
      exact ht
    · have hlt := ih h.tail hus
      rw [← List.singleton_append] at h ⊢
      have hle := h.stop_le_start (by simp) hus
      rw [spanOf_append_start (by simp), spanOf_append_stop hus]
      rw [spanOf_singleton] at hle ⊢
      omega

/-- More tokens in front let the span start earlier. -/
theorem Ordered.start_le (h : Ordered (ts ++ us)) (hus : us ≠ []) :
    (spanOf (ts ++ us)).start ≤ (spanOf us).start := by
  by_cases hts : ts = []
  · exact Nat.le_of_eq (by rw [hts, List.nil_append])
  · rw [spanOf_append_start hts]
    exact Nat.le_of_lt (Nat.lt_of_lt_of_le (h.left.start_lt_stop hts) (h.stop_le_start hts hus))

/-- More tokens at the end let the span stop later. -/
theorem Ordered.le_stop (h : Ordered (ts ++ us)) (hts : ts ≠ []) :
    (spanOf ts).stop ≤ (spanOf (ts ++ us)).stop := by
  by_cases hus : us = []
  · exact Nat.le_of_eq (by rw [hus, List.append_nil])
  · rw [spanOf_append_stop hus]
    exact Nat.le_of_lt (Nat.lt_of_le_of_lt (h.stop_le_start hts hus) (h.right.start_lt_stop hus))

/-- The spans of the two ends make the span of the whole. -/
theorem Ordered.merge_ends (h : Ordered (ts ++ (us ++ vs))) (hts : ts ≠ []) (hvs : vs ≠ []) :
    (spanOf ts).merge (spanOf vs) = spanOf (ts ++ (us ++ vs)) := by
  have hne : us ++ vs ≠ [] := by simp [hvs]
  have hstart : (spanOf (ts ++ (us ++ vs))).start = (spanOf ts).start := spanOf_append_start hts
  have hstop : (spanOf (ts ++ (us ++ vs))).stop = (spanOf vs).stop := by
    rw [spanOf_append_stop hne, spanOf_append_stop hvs]
  have hfirst := h.start_le hne
  have hrest := h.right.start_le hvs
  have hlast := h.le_stop hts
  unfold Span.merge
  rw [Nat.min_eq_left (by omega), Nat.max_eq_right (by omega), ← hstart, ← hstop]

end

/-! ## Tokens between places -/

namespace Cursor

variable {c c' c'' : Cursor} {ts us : List Token}

theorem Took.tokens_eq (h : Took ts c c') : c'.tokens = c.tokens := by
  unfold Cursor.tokens
  rw [h.2, h.1, List.reverse_append, List.reverse_reverse, List.append_assoc]

theorem Took.trans (h : Took ts c c') (h' : Took us c' c'') : Took (ts ++ us) c c'' :=
  took_append.mpr ⟨c', h, h'⟩

theorem Took.ordered (h : Took ts c c') (hc : Ordered c.tokens) : Ordered ts := by
  unfold Cursor.tokens at hc
  rw [h.1] at hc
  exact hc.right.left

theorem Took.lastSpan {t : Token} (h : Took (ts ++ [t]) c c') : c'.lastSpan = t.span := by
  obtain ⟨c₁, _, hlast⟩ := took_append.mp h
  obtain ⟨ht, rfl⟩ := took_singleton.mp hlast
  exact lastSpan_next ht

/-- What is merged with the span of the last token covers all the tokens. -/
theorem Took.merge_lastSpan (h : Took (ts ++ us) c c') (hc : Ordered c.tokens) (hts : ts ≠ [])
    (hus : us ≠ []) : (spanOf ts).merge c'.lastSpan = spanOf (ts ++ us) := by
  obtain ⟨mid, last, rfl⟩ : ∃ mid last, us = mid ++ [last] :=
    ⟨us.dropLast, us.getLast hus, (List.dropLast_append_getLast hus).symm⟩
  rw [← List.append_assoc] at h
  rw [h.lastSpan, ← spanOf_singleton last]
  rw [List.append_assoc] at h
  exact (h.ordered hc).merge_ends hts (by simp)

/-- What is read from one place to another covers the tokens between them. -/
theorem Took.nextSpan_merge (h : Took ts c c') (hc : Ordered c.tokens) (hts : ts ≠ []) :
    c.nextSpan.merge c'.lastSpan = spanOf ts := by
  obtain ⟨t, us, rfl⟩ := List.exists_cons_of_ne_nil hts
  have hnext : c.nextSpan = spanOf [t] := nextSpan_of_peek (took_cons.mp h).1
  rw [hnext]
  by_cases hus : us = []
  · subst hus
    rw [← List.nil_append [t]] at h
    rw [h.lastSpan, spanOf_singleton, Span.merge_self]
  · rw [← List.singleton_append] at h ⊢
    exact h.merge_lastSpan hc (by simp) hus

end Cursor

/-- One such token, or none. -/
def Optionally (kind : TokenKind) (text : String) (ts : List Token) : Prop :=
  ts = [] ∨ ∃ t, ts = [t] ∧ t.is kind text = true

theorem took_skipIf (c : Cursor) (kind : TokenKind) (text : String) :
    ∃ ts, Took ts c (c.skipIf kind text) ∧ Optionally kind text ts := by
  cases h : c.nextIs kind text with
  | true =>
    obtain ⟨t, htook, ht⟩ := took_of_nextIs h
    rw [skipIf_of h]
    exact ⟨[t], htook, .inr ⟨t, rfl, ht⟩⟩
  | false =>
    rw [skipIf_of_not h]
    exact ⟨[], took_nil.mpr rfl, .inl rfl⟩

/-! ## The tokens of an expression -/

/-- The parts of a tree that have tokens of their own. -/
inductive TreePart where
  | expr (e : Expr)
  /-- Expressions with a comma between each two, at least one. -/
  | elements (es : List Expr)
  /-- Statements up to the closing brace. -/
  | statements (es : List Expr)
  /-- Arms from after an `if`. -/
  | arms (branches : List Branch)

/-- The part is written as the tokens, and the span of every node in it is that of its tokens. -/
inductive Takes : TreePart → List Token → Prop where
  | atom {site : Site} {a : Terminal} {ts : List Token} {c c' : Cursor} (htook : Took ts c c')
      (ha : TerminalReads a c c') (hspan : site.span = spanOf ts) :
      Takes (.expr (.atom site a)) ts
  | unary {site : Site} {op : UnaryOp} {e : Expr} {o : Token} {ts : List Token}
      (hop : unaryOp? o = some op) (he : Takes (.expr e) ts)
      (hspan : site.span = spanOf (o :: ts)) :
      Takes (.expr (.unary site op e)) (o :: ts)
  | binary {site : Site} {op : BinaryOp} {left right : Expr} {o : Token} {ts us : List Token}
      (hl : Takes (.expr left) ts) (hop : binaryOp? o = some op) (hr : Takes (.expr right) us)
      (hspan : site.span = spanOf (ts ++ o :: us)) :
      Takes (.expr (.binary site op left right)) (ts ++ o :: us)
  | tuple {site : Site} {es : List Expr} {o c : Token} {ts : List Token}
      (ho : o.is .symbol "(" = true) (hes : Takes (.elements es) ts)
      (hc : c.is .symbol ")" = true) (hspan : site.span = spanOf (o :: (ts ++ [c]))) :
      Takes (.expr (.tuple site es)) (o :: (ts ++ [c]))
  | emptyCall {site : Site} {f : Expr} {o c : Token} {ts : List Token} (hf : Takes (.expr f) ts)
      (ho : o.is .symbol "(" = true) (hc : c.is .symbol ")" = true)
      (hspan : site.span = spanOf (ts ++ [o, c])) :
      Takes (.expr (.call site f [])) (ts ++ [o, c])
  | call {site : Site} {f : Expr} {args : List Expr} {o c : Token} {ts us : List Token}
      (hf : Takes (.expr f) ts) (ho : o.is .symbol "(" = true) (hargs : Takes (.elements args) us)
      (hc : c.is .symbol ")" = true) (hspan : site.span = spanOf (ts ++ o :: (us ++ [c]))) :
      Takes (.expr (.call site f args)) (ts ++ o :: (us ++ [c]))
  | block {site : Site} {es : List Expr} {o c : Token} {ts : List Token}
      (ho : o.is .symbol "\x7b" = true) (hes : Takes (.statements es) ts)
      (hc : c.is .symbol "\x7d" = true) (hspan : site.span = spanOf (o :: (ts ++ [c]))) :
      Takes (.expr (.block site es)) (o :: (ts ++ [c]))
  | ifChain {site : Site} {bs : List Branch} {o : Token} {ts : List Token}
      (ho : o.is .keyword "if" = true) (hbs : Takes (.arms bs) ts)
      (hspan : site.span = spanOf (o :: ts)) :
      Takes (.expr (.ifChain site bs)) (o :: ts)
  | loop {site : Site} {e : Expr} {o : Token} {ts : List Token} (ho : o.is .keyword "loop" = true)
      (he : Takes (.expr e) ts) (hspan : site.span = spanOf (o :: ts)) :
      Takes (.expr (.loop site e)) (o :: ts)
  | accessor {site : Site} {e : Expr} {d m : Token} {ts : List Token} (he : Takes (.expr e) ts)
      (hd : d.is .symbol "." = true) (hm : m.kind = .identifier)
      (hspan : site.span = spanOf (ts ++ [d, m])) :
      Takes (.expr (.accessor site e m.text)) (ts ++ [d, m])
  | lastElement {e : Expr} {ts : List Token} (he : Takes (.expr e) ts) : Takes (.elements [e]) ts
  | element {e : Expr} {es : List Expr} {d : Token} {ts us : List Token} (he : Takes (.expr e) ts)
      (hd : d.is .symbol "," = true) (hes : Takes (.elements es) us) :
      Takes (.elements (e :: es)) (ts ++ d :: us)
  | noStatement : Takes (.statements []) []
  | statement {e : Expr} {es : List Expr} {ts ds us : List Token} (he : Takes (.expr e) ts)
      (hd : Optionally .symbol ";" ds) (hes : Takes (.statements es) us) :
      Takes (.statements (e :: es)) (ts ++ (ds ++ us))
  | lastArm {condition body : Expr} {ts ds us : List Token} (hc : Takes (.expr condition) ts)
      (hd : Optionally .keyword "then" ds) (hb : Takes (.expr body) us) :
      Takes (.arms [.guarded condition body]) (ts ++ (ds ++ us))
  | elseArm {condition body last : Expr} {d : Token} {ts ds us vs : List Token}
      (hc : Takes (.expr condition) ts) (hd : Optionally .keyword "then" ds)
      (hb : Takes (.expr body) us) (he : d.is .keyword "else" = true) (hl : Takes (.expr last) vs) :
      Takes (.arms [.guarded condition body, .always last]) (ts ++ (ds ++ (us ++ d :: vs)))
  | elseIfArm {condition body : Expr} {bs : List Branch} {d i : Token} {ts ds us vs : List Token}
      (hc : Takes (.expr condition) ts) (hd : Optionally .keyword "then" ds)
      (hb : Takes (.expr body) us) (he : d.is .keyword "else" = true)
      (hi : i.is .keyword "if" = true) (hbs : Takes (.arms bs) vs) :
      Takes (.arms (.guarded condition body :: bs)) (ts ++ (ds ++ (us ++ d :: i :: vs)))

theorem Takes.span {e : Expr} {ts : List Token} (h : Takes (.expr e) ts) : e.span = spanOf ts := by
  cases h <;> assumption

theorem Takes.ne_nil {e : Expr} {ts : List Token} (h : Takes (.expr e) ts) : ts ≠ [] := by
  cases h with
  | atom htook ha _ =>
    rintro rfl
    have hlt := ha.progress
    rw [took_nil.mp htook] at hlt
    exact absurd hlt (Nat.lt_irrefl _)
  | _ => simp

/-! ## Derivations take the tokens of their trees -/

/-- What lies between the two places is taken for the phrase. Postfixes and operators go on with
the tokens of the expression that they are added to. -/
def Phrase.Taken : Phrase → Cursor → Cursor → Prop
  | .operand e, c, c' | .primary e, c, c' | .operation e, c, c' =>
    ∃ ts, Took ts c c' ∧ Takes (.expr e) ts
  | .postfixes first e, c, c' | .climb _ first e, c, c' =>
    ∀ c₀ us, Took us c₀ c → Takes (.expr first) us → ∃ ts, Took ts c₀ c' ∧ Takes (.expr e) ts
  | .elements es, c, c' => ∃ ts, Took ts c c' ∧ Takes (.elements es) ts
  | .statements es, c, c' =>
    ∃ ts t, Took (ts ++ [t]) c c' ∧ Takes (.statements es) ts ∧ t.is .symbol "\x7d" = true
  | .arms bs, c, c' => ∃ ts, Took ts c c' ∧ Takes (.arms bs) ts

theorem Cursor.Took.ordered_tokens {ts : List Token} {c c' : Cursor} (h : Took ts c c')
    (hc : Ordered c.tokens) : Ordered c'.tokens := by
  rwa [h.tokens_eq]

/-- The site of a node that is read from one place to another has the span of its tokens. -/
theorem Cursor.Took.siteUpTo {ts : List Token} {c c' : Cursor} (h : Took ts c c')
    (hc : Ordered c.tokens) (hts : ts ≠ []) : (c.siteUpTo c').span = spanOf ts :=
  h.nextSpan_merge hc hts

/-- The site of a call or an access has the span of the tokens from the start of the expression that
it is added to. -/
theorem Takes.postfix_span {e : Expr} {ts us : List Token} {c₀ c' : Cursor}
    (he : Takes (.expr e) ts) (htook : Took (ts ++ us) c₀ c') (hc : Ordered c₀.tokens)
    (hus : us ≠ []) : (Site.ofSpan (e.span.merge c'.lastSpan)).span = spanOf (ts ++ us) := by
  rw [he.span]
  exact htook.merge_lastSpan hc he.ne_nil hus

/-- **A derivation takes the tokens between its two places for its tree**, and the span of every
node of the tree is that of the tokens taken for it. -/
theorem Reads.taken {infixed : Bool} {p : Phrase} {c c' : Cursor} (h : Reads infixed p c c') :
    Ordered c.tokens → p.Taken c c' := by
  induction h with
  | operand _ _ ihp ihx =>
    intro hc
    obtain ⟨ts, htook, hfirst⟩ := ihp hc
    exact ihx (htook.ordered_tokens hc) _ ts htook hfirst
  | @unary c c' t op e ht hop _ ih =>
    intro hc
    have ho := took_singleton.mpr ⟨ht, rfl⟩
    obtain ⟨ts, htook, he⟩ := ih (ho.ordered_tokens hc)
    have hall : Took (t :: ts) c c' := ho.trans htook
    exact ⟨t :: ts, hall, .unary hop he (hall.siteUpTo hc (by simp))⟩
  | @atom c c' a ha =>
    intro hc
    obtain ⟨ts, hrest, hpassed, _⟩ := ha.reaches
    have htook : Took ts c c' := ⟨hrest, hpassed⟩
    have hne : ts ≠ [] := by
      rintro rfl
      have hlt := ha.progress
      rw [took_nil.mp htook] at hlt
      exact absurd hlt (Nat.lt_irrefl _)
    exact ⟨ts, htook, .atom htook ha (htook.siteUpTo hc hne)⟩
  | @tuple c c₁ es ho _ hclose ih =>
    intro hc
    obtain ⟨o, hto, ho⟩ := took_of_nextIs ho
    obtain ⟨ts, hts, hes⟩ := ih (hto.ordered_tokens hc)
    obtain ⟨t, htt, ht⟩ := took_of_nextIs hclose
    have hall : Took (o :: (ts ++ [t])) c c₁.next := hto.trans (hts.trans htt)
    exact ⟨_, hall, .tuple ho hes ht (hall.siteUpTo hc (by simp))⟩
  | @block c c' es ho _ ih =>
    intro hc
    obtain ⟨o, hto, ho⟩ := took_of_nextIs ho
    obtain ⟨ts, t, hts, hes, ht⟩ := ih (hto.ordered_tokens hc)
    have hall : Took (o :: (ts ++ [t])) c c' := hto.trans hts
    exact ⟨_, hall, .block ho hes ht (hall.siteUpTo hc (by simp))⟩
  | @ifChain c c' bs ho _ ih =>
    intro hc
    obtain ⟨o, hto, ho⟩ := took_of_nextIs ho
    obtain ⟨ts, hts, hbs⟩ := ih (hto.ordered_tokens hc)
    have hall : Took (o :: ts) c c' := hto.trans hts
    exact ⟨_, hall, .ifChain ho hbs (hall.siteUpTo hc (by simp))⟩
  | @loop c c' e ho _ ih =>
    intro hc
    obtain ⟨o, hto, ho⟩ := took_of_nextIs ho
    obtain ⟨ts, hts, he⟩ := ih (hto.ordered_tokens hc)
    have hall : Took (o :: ts) c c' := hto.trans hts
    exact ⟨_, hall, .loop ho he (hall.siteUpTo hc (by simp))⟩
  | postfixesDone _ => exact fun _ c₀ us htook hfirst => ⟨us, htook, hfirst⟩
  | @emptyCall c c' f e ho hclose _ ih =>
    intro hc c₀ us htook hf
    obtain ⟨o, hto, ho⟩ := took_of_nextIs ho
    obtain ⟨t, htt, ht⟩ := took_of_nextIs hclose
    have hall : Took (us ++ [o, t]) c₀ c.next.next := htook.trans (hto.trans htt)
    have hc₀ : Ordered c₀.tokens := htook.tokens_eq ▸ hc
    exact ih (hall.ordered_tokens hc₀) c₀ _ hall
      (.emptyCall hf ho ht (hf.postfix_span hall hc₀ (by simp)))
  | @call c c₁ c' f e args ho _ hclose _ ihes ih =>
    intro hc c₀ us htook hf
    obtain ⟨o, hto, ho⟩ := took_of_nextIs ho
    obtain ⟨ts, hts, hes⟩ := ihes (hto.ordered_tokens hc)
    obtain ⟨t, htt, ht⟩ := took_of_nextIs hclose
    have hall : Took (us ++ o :: (ts ++ [t])) c₀ c₁.next :=
      htook.trans (hto.trans (hts.trans htt))
    have hc₀ : Ordered c₀.tokens := htook.tokens_eq ▸ hc
    exact ih (hall.ordered_tokens hc₀) c₀ _ hall
      (.call hf ho hes ht (hf.postfix_span hall hc₀ (by simp)))
  | @access c c' t f e ho ht hk _ ih =>
    intro hc c₀ us htook hf
    obtain ⟨d, htd, hd⟩ := took_of_nextIs ho
    have htt := took_singleton.mpr ⟨ht, rfl⟩
    have hall : Took (us ++ [d, t]) c₀ c.next.next := htook.trans (htd.trans htt)
    have hc₀ : Ordered c₀.tokens := htook.tokens_eq ▸ hc
    exact ih (hall.ordered_tokens hc₀) c₀ _ hall
      (.accessor hf hd hk (hf.postfix_span hall hc₀ (by simp)))
  | operation _ _ ihp ihx =>
    intro hc
    obtain ⟨ts, htook, hfirst⟩ := ihp hc
    exact ihx (htook.ordered_tokens hc) _ ts htook hfirst
  | climbDone _ => exact fun _ c₀ us htook hfirst => ⟨us, htook, hfirst⟩
  | @climbStep c c₁ c₂ c' level op left first right e _ hop _ _ _ ihp ihr ihx =>
    intro hc c₀ us htook hleft
    obtain ⟨o, ht, hk, hx, _⟩ := operatorAt?_eq_some hop
    have hto := took_singleton.mpr ⟨ht, rfl⟩
    have hop' : binaryOp? o = some op := by
      rw [binaryOp?, if_pos hk, hx, BinaryOp.ofSymbol?_symbol]
    obtain ⟨ts, hts, hfirst⟩ := ihp (hto.ordered_tokens hc)
    obtain ⟨vs, hvs, hright⟩ :=
      ihr (hts.ordered_tokens (hto.ordered_tokens hc)) _ ts hts hfirst
    have hall : Took (us ++ o :: vs) c₀ c₂ := htook.trans (hto.trans hvs)
    have hc₀ : Ordered c₀.tokens := htook.tokens_eq ▸ hc
    have hspan : (left.span.merge right.span) = spanOf (us ++ o :: vs) := by
      have hends : Ordered (us ++ ([o] ++ vs)) := hall.ordered hc₀
      rw [hleft.span, hright.span]
      exact hends.merge_ends hleft.ne_nil hright.ne_nil
    exact ihx (hall.ordered_tokens hc₀) c₀ _ hall (.binary hleft hop' hright hspan)
  | lastElement _ ih =>
    intro hc
    obtain ⟨ts, htook, he⟩ := ih hc
    exact ⟨ts, htook, .lastElement he⟩
  | element _ hd _ ih ihes =>
    intro hc
    obtain ⟨ts, hts, he⟩ := ih hc
    obtain ⟨d, htd, hd⟩ := took_of_nextIs hd
    obtain ⟨us, hus, hes⟩ := ihes (htd.ordered_tokens (hts.ordered_tokens hc))
    exact ⟨ts ++ d :: us, hts.trans (htd.trans hus), .element he hd hes⟩
  | noStatement hclose =>
    intro _
    obtain ⟨t, htt, ht⟩ := took_of_nextIs hclose
    exact ⟨[], t, htt, .noStatement, ht⟩
  | @statement c c₁ c' e es _ _ _ ih ihes =>
    intro hc
    obtain ⟨ts, hts, he⟩ := ih hc
    obtain ⟨ds, htd, hd⟩ := took_skipIf c₁ .symbol ";"
    obtain ⟨us, t, hus, hes, ht⟩ := ihes (htd.ordered_tokens (hts.ordered_tokens hc))
    refine ⟨ts ++ (ds ++ us), t, ?_, .statement he hd hes, ht⟩
    rw [List.append_assoc, List.append_assoc]
    exact hts.trans (htd.trans hus)
  | @lastArm c c₁ c' condition body _ _ _ ihc ihb =>
    intro hc
    obtain ⟨ts, hts, hcond⟩ := ihc hc
    obtain ⟨ds, htd, hd⟩ := took_skipIf c₁ .keyword "then"
    obtain ⟨us, hus, hbody⟩ := ihb (htd.ordered_tokens (hts.ordered_tokens hc))
    exact ⟨_, hts.trans (htd.trans hus), .lastArm hcond hd hbody⟩
  | @elseArm c c₁ c₂ c' condition body last _ _ he _ _ ihc ihb ihl =>
    intro hc
    obtain ⟨ts, hts, hcond⟩ := ihc hc
    obtain ⟨ds, htd, hd⟩ := took_skipIf c₁ .keyword "then"
    obtain ⟨us, hus, hbody⟩ := ihb (htd.ordered_tokens (hts.ordered_tokens hc))
    obtain ⟨t, htt, ht⟩ := took_of_nextIs he
    have hfront := hts.trans (htd.trans (hus.trans htt))
    obtain ⟨vs, hvs, hlast⟩ := ihl (hfront.ordered_tokens hc)
    exact ⟨_, hts.trans (htd.trans (hus.trans (htt.trans hvs))),
      .elseArm hcond hd hbody ht hlast⟩
  | @elseIfArm c c₁ c₂ c' condition body bs _ _ he hi _ ihc ihb ihbs =>
    intro hc
    obtain ⟨ts, hts, hcond⟩ := ihc hc
    obtain ⟨ds, htd, hd⟩ := took_skipIf c₁ .keyword "then"
    obtain ⟨us, hus, hbody⟩ := ihb (htd.ordered_tokens (hts.ordered_tokens hc))
    obtain ⟨t, htt, ht⟩ := took_of_nextIs he
    obtain ⟨i, hti, hi⟩ := took_of_nextIs hi
    have hfront := hts.trans (htd.trans (hus.trans (htt.trans hti)))
    obtain ⟨vs, hvs, hrest⟩ := ihbs (hfront.ordered_tokens hc)
    exact ⟨_, hts.trans (htd.trans (hus.trans (htt.trans (hti.trans hvs)))),
      .elseIfArm hcond hd hbody ht hi hrest⟩

/-! ## The tokens of declarations -/

/-- The parameter is written as the tokens and has their span. -/
inductive ParameterTakes : Parameter → List Token → Prop where
  | mk {p : Parameter} {n d : Token} {ts : List Token} (hn : n.kind = .identifier)
      (hname : n.text = p.name) (hd : d.is .symbol ":" = true) (htype : TypeGrammar ts p.type)
      (hspan : p.span = spanOf (n :: d :: ts)) :
      ParameterTakes p (n :: d :: ts)

/-- The member is written as the tokens and has their span. -/
inductive MemberTakes : Member → List Token → Prop where
  | mk {m : Member} {n d : Token} {ps ts : List Token} (hp : Optionally .keyword "public" ps)
      (hn : n.kind = .identifier) (hname : n.text = m.name) (hd : d.is .symbol ":" = true)
      (htype : TypeGrammar ts m.type) (hspan : m.span = spanOf (ps ++ n :: d :: ts)) :
      MemberTakes m (ps ++ n :: d :: ts)

/-- One or more are written as the tokens, with a delimiter between each two. -/
inductive SeriesTakes {α : Type} (R : α → List Token → Prop) (delimiter : String) :
    List α → List Token → Prop where
  | last {a : α} {ts : List Token} (ha : R a ts) : SeriesTakes R delimiter [a] ts
  | more {a : α} {as : List α} {d : Token} {ts us : List Token} (ha : R a ts)
      (hd : d.is .symbol delimiter = true) (has : SeriesTakes R delimiter as us) :
      SeriesTakes R delimiter (a :: as) (ts ++ d :: us)

/-- The parameter list is written as the tokens, or left out. -/
inductive ParameterListTakes : Parameters → List Token → Prop where
  | empty {o c : Token} (ho : o.is .symbol "(" = true) (hc : c.is .symbol ")" = true) :
      ParameterListTakes .none [o, c]
  | fixed {o c : Token} {ts : List Token} {ps : List Parameter} (ho : o.is .symbol "(" = true)
      (hps : SeriesTakes ParameterTakes "," ps ts) (hc : c.is .symbol ")" = true) :
      ParameterListTakes ⟨ps, false⟩ (o :: (ts ++ [c]))
  | variadic {o d e c : Token} {ts : List Token} {ps : List Parameter}
      (ho : o.is .symbol "(" = true) (hps : SeriesTakes ParameterTakes "," ps ts)
      (hd : d.is .symbol "," = true) (he : e.is .symbol "..." = true)
      (hc : c.is .symbol ")" = true) :
      ParameterListTakes ⟨ps, true⟩ (o :: (ts ++ [d, e, c]))
  | omitted : ParameterListTakes .none []

/-- The type that a function returns is written as the tokens, or left out. -/
inductive ReturnTakes : TypeExpr → List Token → Prop where
  | written {o : Token} {ts : List Token} {type : TypeExpr} (ho : o.is .symbol "->" = true)
      (htype : TypeGrammar ts type) :
      ReturnTakes type (o :: ts)
  | omitted : ReturnTakes .unit []

/-- The body of a function is written as the tokens, or left out. -/
inductive BodyTakes : Option Expr → List Token → Prop where
  | written {o : Token} {ts : List Token} {e : Expr} (ho : o.is .symbol "=" = true)
      (he : Takes (.expr e) ts) :
      BodyTakes (some e) (o :: ts)
  | omitted : BodyTakes none []

/-- The function is written as the tokens and has their span. -/
inductive FunctionTakes : Function → List Token → Prop where
  | mk {f : Function} {k n : Token} {xs ps rs bs : List Token}
      (hx : Optionally .keyword "extern" xs) (hk : k.is .keyword "fn" = true)
      (hn : n.kind = .identifier) (hname : n.text = f.name)
      (hps : ParameterListTakes ⟨f.params, f.isVariadic⟩ ps) (hrs : ReturnTakes f.returnType rs)
      (hbs : BodyTakes f.body bs) (hspan : f.span = spanOf (xs ++ k :: n :: (ps ++ (rs ++ bs)))) :
      FunctionTakes f (xs ++ k :: n :: (ps ++ (rs ++ bs)))

/-- The structure is written as the tokens and has their span. -/
inductive StructTakes : Struct → List Token → Prop where
  | mk {s : Struct} {k n o c : Token} {ts : List Token} (hk : k.is .keyword "struct" = true)
      (hn : n.kind = .identifier) (hname : n.text = s.name) (ho : o.is .symbol "\x7b" = true)
      (hms : (s.members = [] ∧ ts = []) ∨ SeriesTakes MemberTakes ";" s.members ts)
      (hc : c.is .symbol "\x7d" = true) (hspan : s.span = spanOf (k :: n :: o :: (ts ++ [c]))) :
      StructTakes s (k :: n :: o :: (ts ++ [c]))

/-- The declaration is written as the tokens. -/
inductive DeclarationTakes : Declaration → List Token → Prop where
  | function {f : Function} {ts : List Token} (h : FunctionTakes f ts) :
      DeclarationTakes (.function f) ts
  | struct {s : Struct} {ts : List Token} (h : StructTakes s ts) :
      DeclarationTakes (.struct s) ts

section

variable {c c' : Cursor}

theorem ParameterReads.taken {p : Parameter} (h : ParameterReads p c c')
    (hc : Ordered c.tokens) : ∃ ts, Took ts c c' ∧ ParameterTakes p ts := by
  cases h with
  | mk h =>
    obtain ⟨⟨n, hn, hk, hname⟩, hcolon, htype⟩ := h
    have hto := took_singleton.mpr ⟨hn, rfl⟩
    obtain ⟨d, htd, hd⟩ := took_of_nextIs hcolon
    obtain ⟨ts, hts, hgrammar⟩ := htype.grammar
    have hall : Took (n :: d :: ts) c c' := hto.trans (htd.trans hts)
    exact ⟨_, hall, .mk hk hname hd hgrammar (hall.nextSpan_merge hc (by simp))⟩

theorem MemberReads.taken {m : Member} (h : MemberReads m c c') (hc : Ordered c.tokens) :
    ∃ ts, Took ts c c' ∧ MemberTakes m ts := by
  cases h with
  | mk h =>
    obtain ⟨⟨n, hn, hk, hname⟩, hcolon, htype⟩ := h
    obtain ⟨ps, htp, hp⟩ := took_skipIf c .keyword "public"
    have hto := took_singleton.mpr ⟨hn, rfl⟩
    obtain ⟨d, htd, hd⟩ := took_of_nextIs hcolon
    obtain ⟨ts, hts, hgrammar⟩ := htype.grammar
    have hall : Took (ps ++ n :: d :: ts) c c' := htp.trans (hto.trans (htd.trans hts))
    exact ⟨_, hall, .mk hp hk hname hd hgrammar (hall.nextSpan_merge hc (by simp))⟩

theorem Parser.SeriesReads.taken {α : Type} {R : α → Cursor → Cursor → Prop}
    {S : α → List Token → Prop} {delimiter : String} {as : List α}
    (hR : ∀ a c c', R a c c' → Ordered c.tokens → ∃ ts, Took ts c c' ∧ S a ts)
    (h : SeriesReads R .symbol delimiter as c c') (hc : Ordered c.tokens) :
    ∃ ts, Took ts c c' ∧ SeriesTakes S delimiter as ts := by
  induction h with
  | last ha =>
    obtain ⟨ts, hts, hs⟩ := hR _ _ _ ha hc
    exact ⟨ts, hts, .last hs⟩
  | more ha hd _ ih =>
    obtain ⟨ts, hts, hs⟩ := hR _ _ _ ha hc
    obtain ⟨d, htd, hd⟩ := took_of_nextIs hd
    obtain ⟨us, hus, hrest⟩ := ih (htd.ordered_tokens (hts.ordered_tokens hc))
    exact ⟨_, hts.trans (htd.trans hus), .more hs hd hrest⟩

theorem ParameterListReads.taken {ps : Parameters} (h : ParameterListReads ps c c')
    (hc : Ordered c.tokens) : ∃ ts, Took ts c c' ∧ ParameterListTakes ps ts := by
  cases h with
  | empty ho hclose =>
    obtain ⟨o, hto, ho⟩ := took_of_nextIs ho
    obtain ⟨t, htt, ht⟩ := took_of_nextIs hclose
    exact ⟨_, hto.trans htt, .empty ho ht⟩
  | fixed ho hps hclose =>
    obtain ⟨o, hto, ho⟩ := took_of_nextIs ho
    obtain ⟨ts, hts, hseries⟩ :=
      hps.taken (fun _ _ _ h => h.taken) (hto.ordered_tokens hc)
    obtain ⟨t, htt, ht⟩ := took_of_nextIs hclose
    exact ⟨_, hto.trans (hts.trans htt), .fixed ho hseries ht⟩
  | variadic ho hps hd he hclose =>
    obtain ⟨o, hto, ho⟩ := took_of_nextIs ho
    obtain ⟨ts, hts, hseries⟩ :=
      hps.taken (fun _ _ _ h => h.taken) (hto.ordered_tokens hc)
    obtain ⟨d, htd, hd⟩ := took_of_nextIs hd
    obtain ⟨e, hte, he⟩ := took_of_nextIs he
    obtain ⟨t, htt, ht⟩ := took_of_nextIs hclose
    exact ⟨_, hto.trans (hts.trans (htd.trans (hte.trans htt))), .variadic ho hseries hd he ht⟩
  | omitted _ => exact ⟨[], took_nil.mpr rfl, .omitted⟩

theorem ReturnReads.taken {type : TypeExpr} (h : ReturnReads type c c') :
    ∃ ts, Took ts c c' ∧ ReturnTakes type ts := by
  cases h with
  | written ho htype =>
    obtain ⟨o, hto, ho⟩ := took_of_nextIs ho
    obtain ⟨ts, hts, hgrammar⟩ := htype.grammar
    exact ⟨_, hto.trans hts, .written ho hgrammar⟩
  | omitted _ => exact ⟨[], took_nil.mpr rfl, .omitted⟩

theorem BodyReads.taken {infixed : Bool} {body : Option Expr} (h : BodyReads infixed body c c')
    (hc : Ordered c.tokens) : ∃ ts, Took ts c c' ∧ BodyTakes body ts := by
  cases h with
  | written ho he =>
    obtain ⟨o, hto, ho⟩ := took_of_nextIs ho
    obtain ⟨ts, hts, he⟩ := he.taken (hto.ordered_tokens hc)
    exact ⟨_, hto.trans hts, .written ho he⟩
  | omitted _ => exact ⟨[], took_nil.mpr rfl, .omitted⟩

theorem FunctionReads.taken {infixed : Bool} {f : Function} (h : FunctionReads infixed f c c')
    (hc : Ordered c.tokens) : ∃ ts, Took ts c c' ∧ FunctionTakes f ts := by
  cases h with
  | @mk _ head c₁ c₂ _ n params returns body hhead hf hn hk hp hr hb =>
    obtain ⟨xs, htx, hx⟩ := took_skipIf c .keyword "extern"
    rw [← hhead] at htx
    obtain ⟨k, htk, hkey⟩ := took_of_nextIs hf
    have htn := took_singleton.mpr ⟨hn, rfl⟩
    have hhead : Took (xs ++ ([k] ++ [n])) c head.next.next := htx.trans (htk.trans htn)
    obtain ⟨ps, htp, hps⟩ := hp.taken (hhead.ordered_tokens hc)
    obtain ⟨rs, htr, hrs⟩ := hr.taken
    obtain ⟨bs, htb, hbs⟩ :=
      hb.taken (htr.ordered_tokens (htp.ordered_tokens (hhead.ordered_tokens hc)))
    have hall : Took (xs ++ k :: n :: (ps ++ (rs ++ bs))) c c' :=
      htx.trans (htk.trans (htn.trans (htp.trans (htr.trans htb))))
    exact ⟨_, hall, .mk hx hkey hk rfl hps hrs hbs (hall.nextSpan_merge hc (by simp))⟩

theorem StructReads.taken {s : Struct} (h : StructReads s c c') (hc : Ordered c.tokens) :
    ∃ ts, Took ts c c' ∧ StructTakes s ts := by
  cases h with
  | @mk _ c₁ n members hs hn hk ho hm hclose =>
    obtain ⟨k, htk, hkey⟩ := took_of_nextIs hs
    have htn := took_singleton.mpr ⟨hn, rfl⟩
    obtain ⟨o, hto, ho⟩ := took_of_nextIs ho
    have hhead : Took [k, n, o] c c.next.next.next := htk.trans (htn.trans hto)
    obtain ⟨ts, hts, hms⟩ : ∃ ts, Took ts c.next.next.next c₁ ∧
        ((members = [] ∧ ts = []) ∨ SeriesTakes MemberTakes ";" members ts) := by
      rcases hm with ⟨hnil, rfl⟩ | hm
      · exact ⟨[], took_nil.mpr rfl, .inl ⟨hnil, rfl⟩⟩
      · obtain ⟨ts, hts, hseries⟩ := hm.taken (fun _ _ _ h => h.taken) (hhead.ordered_tokens hc)
        exact ⟨ts, hts, .inr hseries⟩
    obtain ⟨t, htt, ht⟩ := took_of_nextIs hclose
    have hall : Took (k :: n :: o :: (ts ++ [t])) c c₁.next := hhead.trans (hts.trans htt)
    exact ⟨_, hall, .mk hkey hk rfl ho hms ht (hall.nextSpan_merge hc (by simp))⟩

theorem DeclarationReads.taken {infixed : Bool} {d : Declaration}
    (h : DeclarationReads infixed d c c') (hc : Ordered c.tokens) :
    ∃ ts, Took ts c c' ∧ DeclarationTakes d ts := by
  cases h with
  | function h =>
    obtain ⟨ts, hts, hf⟩ := h.taken hc
    exact ⟨ts, hts, .function hf⟩
  | struct h =>
    obtain ⟨ts, hts, hs⟩ := h.taken hc
    exact ⟨ts, hts, .struct hs⟩

end

end FrontEnd
