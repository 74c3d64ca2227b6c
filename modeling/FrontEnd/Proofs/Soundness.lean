import FrontEnd.Proofs.Derivation

/-!
# Every expression read is derived

A successful run of a production of the expression grammar is a derivation: what the parser returns
stands between the place where it started and the place where it stopped.

* One lemma for each production, over the parsers `inner` and `operation` it is made of.
* `operandAt_yields` ties the knot by induction on the depth; `operand_yields` and
  `operation_yields` are the same for the parsers that supply it.

A loop that has more fuel than there are tokens ends because it has read what it can.
-/

set_option autoImplicit false

namespace FrontEnd

open Grammar FrontEnd.Parser

/-- The layer that reads infix operators, or the one that reads none. -/
def layerOf (infixed : Bool) : OperatorLayer := if infixed then climbing else bareOperands

variable {infixed : Bool} {inner op : Parser Expr}

/-! ## Lists between brackets -/

theorem run_enclosed_eq_ok {α : Type} {p : Parser α} {b : Brackets} {c c' : Cursor} {a : α} :
    (enclosed p b).run c = (.ok a, c') ↔
      c.nextIs b.openKind b.openText = true ∧
        ∃ c₁, p.run c.next = (.ok a, c₁) ∧ c₁.nextIs b.closeKind b.closeText = true ∧
          c' = c₁.next := by
  unfold enclosed
  rw [run_withCursor, run_bind_ok (run_accept _ _ c)]
  cases ho : c.nextIs b.openKind b.openText with
  | false =>
    rw [if_neg (by simp), run_bind_eq_ok]
    constructor
    · rintro ⟨r, c₁, _, hf⟩
      simp at hf
    · rintro ⟨h, _⟩
      cases h
  | true =>
    rw [if_pos rfl, Cursor.skipIf_of ho, run_bind_eq_ok]
    constructor
    · rintro ⟨a', c₁, hp, hrest⟩
      rw [run_bind_ok (run_accept _ _ c₁)] at hrest
      cases hc : c₁.nextIs b.closeKind b.closeText with
      | false => simp [hc] at hrest
      | true =>
        rw [hc, if_pos rfl, run_pure, Cursor.skipIf_of hc] at hrest
        cases hrest
        exact ⟨rfl, c₁, hp, hc, rfl⟩
    · rintro ⟨_, c₁, hp, hc, rfl⟩
      refine ⟨a, c₁, hp, ?_⟩
      rw [run_bind_ok (run_accept _ _ c₁), hc, if_pos rfl, run_pure, Cursor.skipIf_of hc]

/-- A series of operations is the elements of a list. -/
theorem elements_of_series {c c' : Cursor} {es : List Expr}
    (h : SeriesReads (fun e => Reads infixed (.operation e)) .symbol "," es c c') :
    Reads infixed (.elements es) c c' := by
  induction h with
  | last he => exact .lastElement he
  | more he hd _ ih => exact .element he hd ih

theorem parenthesized_reads (hop : op.Yields (fun e => Reads infixed (.operation e)))
    {c c' : Cursor} {es : List Expr} (h : (parenthesized op).run c = (.ok es, c'))
    (hne : c.next.nextIs .symbol ")" = false) :
    c.nextIs .symbol "(" = true ∧ ∃ c₁, Reads infixed (.elements es) c.next c₁ ∧
      c₁.nextIs .symbol ")" = true ∧ c' = c₁.next := by
  obtain ⟨ho, c₁, hes, hc, rfl⟩ := run_enclosed_eq_ok.mp h
  refine ⟨ho, c₁, ?_, hc, rfl⟩
  rcases sepBy_reads hop hes with ⟨rfl, rfl⟩ | hr
  · exact absurd hc (by simp [hne, Brackets.symbols])
  · exact elements_of_series hr

/-! ## Operands -/

theorem unary_reads (hin : inner.Yields (fun e => Reads infixed (.operand e))) :
    (unary inner).Yields (fun e => Reads infixed (.primary e)) := by
  intro c e c' h
  unfold unary at h
  rw [run_withCursor] at h
  split at h
  · simp at h
  · rename_i uop hu
    obtain ⟨t, ht, htop⟩ := Option.bind_eq_some_iff.mp hu
    rw [run_bind_ok (run_read c), run_bind_eq_ok] at h
    obtain ⟨e', c₁, he, hn⟩ := h
    rw [run_nodeFrom] at hn
    cases hn
    exact .unary ht htop (hin _ _ _ he)

theorem unitAtom_reads : unitAtom.Yields (fun e => Reads infixed (.primary e)) := by
  intro c e c' h
  unfold unitAtom at h
  rw [run_bind_ok (run_nextSpan c), run_bind_eq_ok] at h
  obtain ⟨t, c₁, ho, h⟩ := h
  obtain ⟨ht, hk, hx, rfl⟩ := run_require_eq_ok.mp ho
  obtain ⟨u, c₂, hc, h⟩ := run_bind_eq_ok.mp h
  obtain ⟨hu, hk', hx', rfl⟩ := run_require_eq_ok.mp hc
  rw [run_nodeFrom] at h
  cases h
  exact .atom (.unit (Cursor.nextIs_iff.mpr ⟨t, ht, hk, hx⟩)
    (Cursor.nextIs_iff.mpr ⟨u, hu, hk', hx'⟩))

theorem run_unitAtom_of {c : Cursor} (ho : c.nextIs .symbol "(" = true)
    (hc : c.next.nextIs .symbol ")" = true) :
    unitAtom.run c = (.ok (.atom (c.siteUpTo c.next.next) .unit), c.next.next) := by
  obtain ⟨t, _, ht⟩ := run_require_of ho
  obtain ⟨u, _, hu⟩ := run_require_of hc
  unfold unitAtom
  rw [run_bind_ok (run_nextSpan c), run_bind_ok ht, run_bind_ok hu]
  rfl

/-- A tuple is read where no unit value is, so it has an element. -/
theorem tuple_reads (hop : op.Yields (fun e => Reads infixed (.operation e))) {c c' : Cursor}
    {e : Expr} (h : (tuple op).run c = (.ok e, c'))
    (hu : ∃ err c'', unitAtom.run c = (.error err, c'')) : Reads infixed (.primary e) c c' := by
  unfold tuple at h
  rw [run_withCursor] at h
  split at h
  · rename_i ho
    obtain ⟨es, c₁, hes, h⟩ := run_bind_eq_ok.mp h
    have hne : c.next.nextIs .symbol ")" = false := by
      rw [Bool.eq_false_iff]
      intro hc
      obtain ⟨err, c'', herr⟩ := hu
      rw [run_unitAtom_of ho hc] at herr
      simp at herr
    obtain ⟨_, c₂, hr, hc, rfl⟩ := parenthesized_reads hop (run_within_eq_ok.mp hes) hne
    rw [run_nodeFrom] at h
    cases h
    exact .tuple ho hr hc
  · simp at h

theorem statements_reads (hin : inner.Yields (fun e => Reads infixed (.operand e))) :
    ∀ (fuel : Nat) (c c' : Cursor) (es : List Expr), c.rest.length < fuel →
      (statements inner fuel).run c = (.ok es, c') → Reads infixed (.statements es) c c' := by
  intro fuel
  induction fuel with
  | zero => intro c c' es hf; omega
  | succ fuel ih =>
    intro c c' es hf h
    unfold statements at h
    rw [run_bind_ok (run_accept _ _ c)] at h
    cases hc : c.nextIs .symbol "\x7d" with
    | true =>
      rw [hc, if_pos rfl, run_pure, Cursor.skipIf_of hc] at h
      cases h
      exact .noStatement hc
    | false =>
      rw [hc, if_neg (by simp), Cursor.skipIf_of_not hc, run_withCursor] at h
      split at h
      · simp at h
      · obtain ⟨e, c₁, he, h⟩ := run_bind_eq_ok.mp h
        have hr := hin _ _ _ (run_within_eq_ok.mp he)
        rw [run_bind_ok (run_accept _ _ c₁)] at h
        obtain ⟨es', c₂, hes, h⟩ := run_bind_eq_ok.mp h
        rw [run_pure] at h
        cases h
        have hp := hr.progress
        have hs := c₁.rest_skipIf_le .symbol ";"
        simp only [Phrase.mayBeEmpty] at hp
        exact .statement hc hr (ih _ _ _ (by simp at hp; omega) hes)

theorem block_reads (hin : inner.Yields (fun e => Reads infixed (.operand e))) :
    (block inner).Yields (fun e => Reads infixed (.primary e)) := by
  intro c e c' h
  unfold block at h
  rw [run_bind_ok (run_nextSpan c), run_bind_eq_ok] at h
  obtain ⟨t, c₁, ho, h⟩ := h
  obtain ⟨ht, hk, hx, rfl⟩ := run_require_eq_ok.mp ho
  obtain ⟨es, c₂, hes, h⟩ := run_bind_eq_ok.mp h
  rw [run_withFuel] at hes
  rw [run_nodeFrom] at h
  cases h
  exact .block (Cursor.nextIs_iff.mpr ⟨t, ht, hk, hx⟩)
    (statements_reads hin _ _ _ _ (by omega) hes)

theorem arms_reads (hin : inner.Yields (fun e => Reads infixed (.operand e))) :
    ∀ (fuel : Nat) (c c' : Cursor) (bs : List Branch), c.rest.length < fuel →
      (arms inner fuel).run c = (.ok bs, c') → Reads infixed (.arms bs) c c' := by
  intro fuel
  induction fuel with
  | zero => intro c c' bs hf; omega
  | succ fuel ih =>
    intro c c' bs hf h
    unfold arms at h
    obtain ⟨condition, c₁, hcond, h⟩ := run_bind_eq_ok.mp h
    have hrc := hin _ _ _ (run_within_eq_ok.mp hcond)
    rw [run_bind_ok (run_accept _ _ c₁)] at h
    obtain ⟨body, c₂, hbody, h⟩ := run_bind_eq_ok.mp h
    have hrb := hin _ _ _ (run_within_eq_ok.mp hbody)
    rw [run_bind_ok (run_accept _ _ c₂)] at h
    cases he : c₂.nextIs .keyword "else" with
    | false =>
      rw [he, if_neg (by simp), run_pure, Cursor.skipIf_of_not he] at h
      cases h
      exact .lastArm hrc hrb he
    | true =>
      rw [he, if_pos rfl, Cursor.skipIf_of he, run_bind_ok (run_accept _ _ c₂.next)] at h
      cases hi : c₂.next.nextIs .keyword "if" with
      | false =>
        rw [hi, if_neg (by simp), Cursor.skipIf_of_not hi] at h
        obtain ⟨last, c₃, hlast, h⟩ := run_bind_eq_ok.mp h
        rw [run_pure] at h
        cases h
        exact .elseArm hrc hrb he hi (hin _ _ _ (run_within_eq_ok.mp hlast))
      | true =>
        rw [hi, if_pos rfl, Cursor.skipIf_of hi] at h
        obtain ⟨rest, c₃, hrest, h⟩ := run_bind_eq_ok.mp h
        rw [run_pure] at h
        cases h
        have hp := hrc.progress
        have hb := hrb.progress
        have hs := c₁.rest_skipIf_le .keyword "then"
        have he' := Cursor.rest_next_lt_of_nextIs he
        have hi' := Cursor.rest_next_lt_of_nextIs hi
        simp [Phrase.mayBeEmpty] at hp hb
        exact .elseIfArm hrc hrb he hi (ih _ _ _ (by omega) hrest)

theorem conditional_reads (hin : inner.Yields (fun e => Reads infixed (.operand e))) :
    (conditional inner).Yields (fun e => Reads infixed (.primary e)) := by
  intro c e c' h
  unfold conditional at h
  rw [run_bind_ok (run_nextSpan c), run_bind_eq_ok] at h
  obtain ⟨t, c₁, ho, h⟩ := h
  obtain ⟨ht, hk, hx, rfl⟩ := run_require_eq_ok.mp ho
  obtain ⟨bs, c₂, hbs, h⟩ := run_bind_eq_ok.mp h
  rw [run_withFuel] at hbs
  rw [run_nodeFrom] at h
  cases h
  exact .ifChain (Cursor.nextIs_iff.mpr ⟨t, ht, hk, hx⟩) (arms_reads hin _ _ _ _ (by omega) hbs)

theorem loop_reads (hin : inner.Yields (fun e => Reads infixed (.operand e))) :
    (loop inner).Yields (fun e => Reads infixed (.primary e)) := by
  intro c e c' h
  unfold loop at h
  rw [run_bind_ok (run_nextSpan c), run_bind_eq_ok] at h
  obtain ⟨t, c₁, ho, h⟩ := h
  obtain ⟨ht, hk, hx, rfl⟩ := run_require_eq_ok.mp ho
  obtain ⟨body, c₂, hbody, h⟩ := run_bind_eq_ok.mp h
  rw [run_nodeFrom] at h
  cases h
  exact .loop (Cursor.nextIs_iff.mpr ⟨t, ht, hk, hx⟩) (hin _ _ _ (run_within_eq_ok.mp hbody))

theorem atom_reads : atom.Yields (fun e => Reads infixed (.primary e)) := by
  intro c e c' h
  unfold atom at h
  rw [run_bind_ok (run_nextSpan c), run_bind_eq_ok] at h
  obtain ⟨a, c₁, ha, h⟩ := h
  rw [run_nodeFrom] at h
  cases h
  exact .atom (.of_run ha)

theorem primary_reads (hin : inner.Yields (fun e => Reads infixed (.operand e)))
    (hop : op.Yields (fun e => Reads infixed (.operation e))) :
    (primary op inner).Yields (fun e => Reads infixed (.primary e)) := by
  intro c e c' h
  rcases tryEach_cons_ok (run_oneOf_eq_ok.mp h) with h | ⟨_, best, h⟩
  · exact unary_reads hin _ _ _ h
  rcases tryEach_cons_ok h with h | ⟨hunit, best, h⟩
  · exact unitAtom_reads _ _ _ h
  rcases tryEach_cons_ok h with h | ⟨_, best, h⟩
  · exact tuple_reads hop h hunit
  rcases tryEach_cons_ok h with h | ⟨_, best, h⟩
  · exact block_reads hin _ _ _ h
  rcases tryEach_cons_ok h with h | ⟨_, best, h⟩
  · exact conditional_reads hin _ _ _ h
  rcases tryEach_cons_ok h with h | ⟨_, best, h⟩
  · exact loop_reads hin _ _ _ h
  rcases tryEach_cons_ok h with h | ⟨_, best, h⟩
  · exact atom_reads _ _ _ h
  · simp [tryEach] at h

/-! ## Postfixes and operators -/

/-- What the arguments of a call can be, and where they end. -/
theorem callArgs_reads (hop : op.Yields (fun e => Reads infixed (.operation e))) {c c' : Cursor}
    {args : List Expr} (ho : c.nextIs .symbol "(" = true)
    (h : (callArgs op).run c = (.ok args, c')) :
    (args = [] ∧ c.next.nextIs .symbol ")" = true ∧ c' = c.next.next) ∨
      ∃ c₁, Reads infixed (.elements args) c.next c₁ ∧ c₁.nextIs .symbol ")" = true ∧
        c' = c₁.next := by
  obtain ⟨t, ht, _⟩ := Cursor.nextIs_iff.mp ho
  unfold callArgs at h
  rw [run_withCursor, Cursor.nextIsAt_one ht] at h
  split at h
  · rename_i hc
    rw [run_bind_ok (run_read c), run_bind_ok (run_read c.next), run_pure] at h
    cases h
    exact .inl ⟨rfl, hc, rfl⟩
  · rename_i hc
    exact .inr (parenthesized_reads hop h (by simpa using hc)).2

theorem postfixes_reads (hop : op.Yields (fun e => Reads infixed (.operation e))) :
    ∀ (fuel : Nat) (c c' : Cursor) (f e : Expr), c.rest.length < fuel →
      (postfixes op fuel f).run c = (.ok e, c') → Reads infixed (.postfixes f e) c c' := by
  intro fuel
  induction fuel with
  | zero => intro c c' f e hf; omega
  | succ fuel ih =>
    intro c c' f e hf h
    unfold postfixes at h
    rw [run_withCursor] at h
    split at h
    · rename_i ho
      have hlt := Cursor.rest_next_lt_of_nextIs ho
      obtain ⟨args, c₁, hargs, h⟩ := run_bind_eq_ok.mp h
      rw [run_bind_ok (run_nodeFrom _ _ c₁)] at h
      rcases callArgs_reads hop ho (run_within_eq_ok.mp hargs) with
        ⟨rfl, hc, rfl⟩ | ⟨c₂, hr, hc, rfl⟩
      · have hlt' := Cursor.rest_next_lt_of_nextIs hc
        exact .emptyCall ho hc (ih _ _ _ _ (by omega) h)
      · have hp := hr.progress
        have hlt' := Cursor.rest_next_lt_of_nextIs hc
        simp [Phrase.mayBeEmpty] at hp
        exact .call ho hr hc (ih _ _ _ _ (by omega) h)
    · rename_i hno
      split at h
      · rename_i ha
        simp only [Bool.and_eq_true] at ha
        obtain ⟨hd, hm⟩ := ha
        have hlt := Cursor.rest_next_lt_of_nextIs hd
        rw [run_bind_ok (run_read c)] at h
        obtain ⟨t, c₁, ht, h⟩ := run_bind_eq_ok.mp h
        obtain ⟨htk, hk, rfl⟩ := run_requireIdentifier_eq_ok.mp (run_within_eq_ok.mp ht)
        have hlt' := Cursor.rest_next_lt htk
        rw [run_bind_ok (run_nodeFrom _ _ _)] at h
        exact .access hd htk hk (ih _ _ _ _ (by omega) h)
      · rename_i hna
        rw [run_pure] at h
        cases h
        refine .postfixesDone ?_
        unfold Cursor.startsPostfix
        cases hd : c.nextIs .symbol "." with
        | false => simpa using hno
        | true =>
          obtain ⟨t, ht, _⟩ := Cursor.nextIs_iff.mp hd
          rw [hd, Cursor.peekAt?_one ht, Bool.true_and] at hna
          simp only [Bool.true_and, Bool.or_eq_false_iff]
          exact ⟨by simpa using hno, by simpa using hna⟩

theorem operandStep_reads (hin : inner.Yields (fun e => Reads infixed (.operand e)))
    (hop : op.Yields (fun e => Reads infixed (.operation e))) :
    (operandStep op inner).Yields (fun e => Reads infixed (.operand e)) := by
  intro c e c' h
  unfold operandStep at h
  obtain ⟨first, c₁, hp, h⟩ := run_bind_eq_ok.mp h
  rw [run_withFuel] at h
  exact .operand (primary_reads hin hop _ _ _ hp) (postfixes_reads hop _ _ _ _ _ (by omega) h)

theorem climb_reads (hin : inner.Yields (fun e => Reads true (.operand e))) :
    ∀ (fuel level : Nat) (c c' : Cursor) (left e : Expr), c.rest.length < fuel →
      (climb inner fuel level left).run c = (.ok e, c') →
      Reads true (.climb level left e) c c' := by
  intro fuel
  induction fuel with
  | zero => intro level c c' left e hf; omega
  | succ fuel ih =>
    intro level c c' left e hf h
    unfold climb at h
    rw [run_withCursor] at h
    split at h
    · rename_i hn
      rw [run_pure] at h
      cases h
      exact .climbDone (fun _ => hn)
    · rename_i bop hbop
      have hlt := rest_next_lt_of_operatorAt? hbop
      rw [run_bind_ok (run_read c)] at h
      obtain ⟨first, c₁, hfirst, h⟩ := run_bind_eq_ok.mp h
      have hrf := hin _ _ _ hfirst
      have hp := hrf.progress
      simp [Phrase.mayBeEmpty] at hp
      obtain ⟨right, c₂, hright, h⟩ := run_bind_eq_ok.mp h
      have hrr := ih _ _ _ _ _ (by omega) hright
      have hp' := hrr.progress
      simp [Phrase.mayBeEmpty] at hp'
      exact .climbStep rfl hbop hrf hrr (ih _ _ _ _ _ (by omega) h)

theorem layerOf_reads (hin : inner.Yields (fun e => Reads infixed (.operand e))) :
    (layerOf infixed inner).Yields (fun e => Reads infixed (.operation e)) := by
  intro c e c' h
  cases infixed with
  | false => exact .operation (hin _ _ _ h) (.climbDone (by simp))
  | true =>
    change (climbing inner).run c = _ at h
    unfold climbing at h
    obtain ⟨first, c₁, hp, h⟩ := run_bind_eq_ok.mp h
    rw [run_withFuel] at h
    exact .operation (hin _ _ _ hp) (climb_reads hin _ _ _ _ _ _ (by omega) h)

/-- **An operand that is read is derived**, at every depth. -/
theorem operandAt_yields (infixed : Bool) (depth : Nat) :
    (operandAt (layerOf infixed) depth).Yields (fun e => Reads infixed (.operand e)) := by
  induction depth with
  | zero =>
    intro c e c' h
    simp [operandAt] at h
  | succ depth ih =>
    rw [operandAt_succ]
    exact operandStep_reads ih (layerOf_reads ih)

theorem operand_yields (infixed : Bool) :
    (operand (layerOf infixed)).Yields (fun e => Reads infixed (.operand e)) := by
  intro c e c' h
  unfold operand at h
  rw [run_withFuel] at h
  exact operandAt_yields infixed _ _ _ _ h

theorem operation_yields (infixed : Bool) :
    (operation (layerOf infixed)).Yields (fun e => Reads infixed (.operation e)) :=
  layerOf_reads (operand_yields infixed)

end FrontEnd
