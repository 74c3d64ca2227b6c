import FrontEnd.Proofs.Locality
import FrontEnd.Proofs.Passing

/-!
# Recovery isolates declarations

What stands before a keyword that starts a declaration, well formed or not, changes nothing of what
is read or reported from that keyword on.

* `declarationsAux_fuel`, `declarationsAux_rest`: the reading of a module depends on the tokens
  ahead alone.
* `DeclarationReads.stops`, `skipToDeclaration_stops`: neither a declaration nor the recovery after
  an error goes beyond a keyword that starts a declaration.
* `declarationsAux_suffix`: so the reading comes to every such keyword, by induction on the tokens
  before it.

The keyword `fn` directly after `extern` is no such place: it goes on with a declaration.
-/

set_option autoImplicit false

namespace FrontEnd

open Grammar FrontEnd.Parser

variable {infixed : Bool}

theorem skipToDeclaration_lt {c : Cursor} (h : c.rest ≠ []) :
    (skipToDeclaration c).rest.length < c.rest.length := by
  obtain ⟨passed, rest⟩ := c
  cases rest with
  | nil => exact absurd rfl h
  | cons t ts =>
    have hle := (skipFrom_suffix (t :: passed) ts).length_le
    simp only [skipToDeclaration, List.length_cons]
    omega

/-! ## One step -/

variable {layer : OperatorLayer}

theorem declarationsAux_end {c : Cursor} (h : c.rest = []) (fuel : Nat) :
    declarationsAux layer fuel c = (ParsedModule.empty, c) := by
  cases fuel with
  | zero => rfl
  | succ fuel =>
    unfold declarationsAux
    rw [Cursor.atEnd, h]
    rfl

theorem declarationsAux_ok {c c' : Cursor} {d : Declaration} (hne : c.rest ≠ [])
    (h : (declaration layer).run c = (.ok d, c')) (fuel : Nat) :
    declarationsAux layer (fuel + 1) c =
      ((declarationsAux layer fuel c').1.consDeclaration d, (declarationsAux layer fuel c').2) := by
  rw [declarationsAux, Cursor.atEnd, h]
  cases hr : c.rest with
  | nil => exact absurd hr hne
  | cons t ts => rfl

theorem declarationsAux_error {c c' : Cursor} {e : ParseError} (hne : c.rest ≠ [])
    (h : (declaration layer).run c = (.error e, c')) (fuel : Nat) :
    declarationsAux layer (fuel + 1) c =
      ((declarationsAux layer fuel (skipToDeclaration c)).1.consError e,
        (declarationsAux layer fuel (skipToDeclaration c)).2) := by
  rw [declarationsAux, Cursor.atEnd, h, run_oneOf_error h]
  cases hr : c.rest with
  | nil => exact absurd hr hne
  | cons t ts => rfl

/-! ## What the reading depends on -/

/-- Steps beyond those that the tokens need change nothing. -/
theorem declarationsAux_fuel :
    ∀ (fuel fuel' : Nat) (c : Cursor), c.rest.length < fuel → c.rest.length < fuel' →
      declarationsAux (layerOf infixed) fuel c = declarationsAux (layerOf infixed) fuel' c := by
  intro fuel
  induction fuel with
  | zero => intro fuel' c hf; omega
  | succ fuel ih =>
    intro fuel' c hf hf'
    cases fuel' with
    | zero => omega
    | succ fuel' =>
      by_cases hne : c.rest = []
      · rw [declarationsAux_end hne, declarationsAux_end hne]
      cases hrun : (declaration (layerOf infixed)).run c with
      | mk r c' =>
        cases r with
        | ok d =>
          have hlt := (declaration_run_iff.mp hrun).progress
          rw [declarationsAux_ok hne hrun, declarationsAux_ok hne hrun,
            ih fuel' c' (by omega) (by omega)]
        | error e =>
          have hlt := skipToDeclaration_lt hne
          rw [declarationsAux_error hne hrun, declarationsAux_error hne hrun,
            ih fuel' _ (by omega) (by omega)]

/-- Where skipping stops depends on the last token passed, not on those before. -/
theorem skipFrom_rest {p q : List Token} (h : p.head? = q.head?) (ts : List Token) :
    (skipFrom p ts).rest = (skipFrom q ts).rest := by
  induction ts generalizing p q with
  | nil => rfl
  | cons t ts ih =>
    unfold skipFrom
    rw [continuesExtern, continuesExtern, h]
    split
    · rfl
    · exact ih rfl

theorem skipToDeclaration_rest {c d : Cursor} (h : c.rest = d.rest) :
    (skipToDeclaration c).rest = (skipToDeclaration d).rest := by
  unfold skipToDeclaration
  cases hr : d.rest with
  | nil =>
    rw [h, hr]
    exact h.trans hr
  | cons t ts =>
    rw [h, hr]
    exact skipFrom_rest (p := t :: c.passed) (q := t :: d.passed) rfl ts

/-- What is read depends on the tokens ahead alone. -/
theorem declarationsAux_rest (hl : LocalLayer layer) :
    ∀ (fuel : Nat) (c d : Cursor), c.rest = d.rest →
      (declarationsAux layer fuel c).1 = (declarationsAux layer fuel d).1 := by
  intro fuel
  induction fuel with
  | zero => exact fun _ _ _ => rfl
  | succ fuel ih =>
    intro c d h
    by_cases hne : c.rest = []
    · rw [declarationsAux_end hne, declarationsAux_end (h ▸ hne)]
    have hne' : d.rest ≠ [] := h ▸ hne
    rcases declaration_agrees hl h hne with ⟨e, c', d', hc, hd⟩ | ⟨a, c', d', hc, hd, h'⟩
    · rw [declarationsAux_error hne hc, declarationsAux_error hne' hd,
        ih _ _ (skipToDeclaration_rest h)]
    · rw [declarationsAux_ok hne hc, declarationsAux_ok hne' hd, ih _ _ h'.rest]

/-! ## Where a step ends -/

/-- The place `pre` tokens on, seen from another place on the way to it. -/
def Cursor.IsBefore (c : Cursor) (pre : List Token) (target : Cursor) : Prop :=
  c.rest = pre ++ target.rest ∧ target.passed = pre.reverse ++ c.passed

/-- A declaration starts at the place: a keyword that can start one, and no `fn` that goes on with
an `extern`. -/
def Cursor.IsStart (target : Cursor) : Prop :=
  ∃ t ts, target.rest = t :: ts ∧ startsDeclaration t = true ∧
    continuesExtern target.passed t = false

/-- **A declaration does not go beyond the start of the next.** -/
theorem DeclarationReads.stops {d : Declaration} {c c' target : Cursor} {pre : List Token}
    (h : DeclarationReads infixed d c c') (hb : c.IsBefore pre target) (hne : pre ≠ [])
    (hs : target.IsStart) : ∃ pre', c'.IsBefore pre' target := by
  obtain ⟨t, ts, htarget, hstart, hext⟩ := hs
  obtain ⟨hrest, hpassed⟩ := hb
  obtain ⟨u, head, us, hr, hp, hhead, hus⟩ := h.tokens
  obtain ⟨w, pre₁, rfl⟩ := List.exists_cons_of_ne_nil hne
  rw [hr, List.append_eq_append_iff] at hrest
  rcases hrest with ⟨as, hpre, hc'⟩ | ⟨bs, htaken, htail⟩
  · refine ⟨as, hc', ?_⟩
    rw [hpassed, hpre, hp, List.reverse_append, List.append_assoc]
  · -- the tokens taken reach beyond the target, so its first is among them
    cases bs with
    | nil =>
      rw [List.append_nil] at htaken
      refine ⟨[], by simpa using htail.symm, ?_⟩
      rw [hpassed, hp, htaken]
      rfl
    | cons b bs =>
      rw [htarget, List.cons_append, List.cons.injEq] at htail
      obtain ⟨rfl, _⟩ := htail
      rw [List.cons_append, List.cons.injEq] at htaken
      obtain ⟨rfl, htaken⟩ := htaken
      exfalso
      have hnot : t ∉ us := by
        intro hmem
        rw [hus t hmem] at hstart
        cases hstart
      rcases hhead with rfl | ⟨f, rfl, hpast, hfn⟩
      · rw [List.nil_append] at htaken
        exact hnot (htaken ▸ List.mem_append_right pre₁ List.mem_cons_self)
      · cases pre₁ with
        | nil =>
          rw [List.singleton_append, List.nil_append, List.cons.injEq] at htaken
          obtain ⟨rfl, _⟩ := htaken
          rw [hpassed] at hext
          simp [continuesExtern, hfn, hpast] at hext
        | cons v pre₂ =>
          rw [List.singleton_append, List.cons_append, List.cons.injEq] at htaken
          exact hnot (htaken.2 ▸ List.mem_append_right pre₂ List.mem_cons_self)

theorem skipFrom_stops {target : Cursor} (hs : target.IsStart) :
    ∀ (pre passed : List Token), target.passed = pre.reverse ++ passed →
      ∃ pre', (skipFrom passed (pre ++ target.rest)).IsBefore pre' target := by
  obtain ⟨t, ts, htarget, hstart, hext⟩ := hs
  intro pre
  induction pre with
  | nil =>
    intro passed hp
    rw [List.reverse_nil, List.nil_append] at hp
    refine ⟨[], ?_⟩
    rw [hp] at hext
    rw [List.nil_append, htarget, skipFrom, hstart, hext]
    exact ⟨htarget.symm, hp⟩
  | cons u pre ih =>
    intro passed hp
    rw [List.cons_append, skipFrom]
    split
    · exact ⟨u :: pre, rfl, hp⟩
    · refine ih (u :: passed) ?_
      rw [hp, List.reverse_cons, List.append_assoc, List.singleton_append]

/-- **Recovery does not skip the start of a declaration.** -/
theorem skipToDeclaration_stops {c target : Cursor} {pre : List Token} (hb : c.IsBefore pre target)
    (hne : pre ≠ []) (hs : target.IsStart) :
    ∃ pre', (skipToDeclaration c).IsBefore pre' target := by
  obtain ⟨hrest, hpassed⟩ := hb
  obtain ⟨u, pre, rfl⟩ := List.exists_cons_of_ne_nil hne
  rw [skipToDeclaration, hrest, List.cons_append]
  refine skipFrom_stops hs pre (u :: c.passed) ?_
  rw [hpassed, List.reverse_cons, List.append_assoc, List.singleton_append]

/-! ## The run -/

theorem isBefore_nil {c target : Cursor} (h : c.IsBefore [] target) : target = c := by
  obtain ⟨passed, rest⟩ := c
  obtain ⟨passed', rest'⟩ := target
  obtain ⟨hrest, hpassed⟩ := h
  rw [List.nil_append] at hrest
  rw [List.reverse_nil, List.nil_append] at hpassed
  obtain rfl : passed' = passed := hpassed
  obtain rfl : rest = rest' := hrest
  rfl

/-- **The reading comes to every start of a declaration**, and what it gives from there on is the
end of what it gives in all. -/
theorem declarationsAux_suffix {target : Cursor} (hs : target.IsStart) :
    ∀ (fuel : Nat) (c : Cursor) (pre : List Token), c.IsBefore pre target →
      c.rest.length < fuel → ∃ fuel', target.rest.length < fuel' ∧
        (declarationsAux (layerOf infixed) fuel' target).1.declarations <:+
          (declarationsAux (layerOf infixed) fuel c).1.declarations ∧
        (declarationsAux (layerOf infixed) fuel' target).1.errors <:+
          (declarationsAux (layerOf infixed) fuel c).1.errors := by
  intro fuel
  induction fuel with
  | zero => intro c pre _ hf; omega
  | succ fuel ih =>
    intro c pre hb hf
    by_cases hpre : pre = []
    · subst hpre
      rw [isBefore_nil hb]
      exact ⟨fuel + 1, hf, List.suffix_refl _, List.suffix_refl _⟩
    have hne : c.rest ≠ [] := by
      rw [hb.1]
      simp [hpre]
    cases hrun : (declaration (layerOf infixed)).run c with
    | mk r c' =>
      cases r with
      | ok d =>
        have hreads := declaration_run_iff.mp hrun
        have hlt := hreads.progress
        obtain ⟨pre', hb'⟩ := hreads.stops hb hpre hs
        obtain ⟨fuel', hf', hds, hes⟩ := ih c' pre' hb' (by omega)
        rw [declarationsAux_ok hne hrun]
        exact ⟨fuel', hf', hds.trans (List.suffix_cons _ _), hes⟩
      | error e =>
        have hlt := skipToDeclaration_lt hne
        obtain ⟨pre', hb'⟩ := skipToDeclaration_stops hb hpre hs
        obtain ⟨fuel', hf', hds, hes⟩ := ih _ pre' hb' (by omega)
        rw [declarationsAux_error hne hrun]
        exact ⟨fuel', hf', hds, hes.trans (List.suffix_cons _ _)⟩

/-- **Recovery isolates declarations.** From a keyword that starts a declaration on, the module is
read as if nothing stood before: the declarations and the errors of the whole end with exactly
those of what is left from there. -/
theorem parseModule_drop_suffix {tokens : List Token} {i : Nat} {t : Token}
    (ht : tokens[i]? = some t) (hs : startsDeclaration t = true)
    (hx : ¬ (t.is .keyword "fn" = true ∧
      ∃ u, 0 < i ∧ tokens[i - 1]? = some u ∧ u.is .keyword "extern" = true)) :
    (parseModule (tokens.drop i)).declarations <:+ (parseModule tokens).declarations ∧
      (parseModule (tokens.drop i)).errors <:+ (parseModule tokens).errors := by
  obtain ⟨hi, htoken⟩ := List.getElem?_eq_some_iff.mp ht
  have hdrop : tokens.drop i = t :: tokens.drop (i + 1) := by
    rw [List.drop_eq_getElem_cons hi, htoken]
  have hlast : continuesExtern (tokens.take i).reverse t = false := by
    rw [Bool.eq_false_iff]
    intro hext
    rw [continuesExtern, Bool.and_eq_true, List.head?_reverse, List.getLast?_eq_getElem?,
      List.length_take_of_le (Nat.le_of_lt hi), Option.any_eq_true] at hext
    obtain ⟨hfn, u, hu, hpast⟩ := hext
    have hpos : 0 < i := by
      rcases Nat.eq_zero_or_pos i with rfl | hpos
      · simp at hu
      · exact hpos
    rw [List.getElem?_take_of_lt (by omega)] at hu
    exact hx ⟨hfn, u, hpos, hu, hpast⟩
  obtain ⟨fuel, hf, hds, hes⟩ := @declarationsAux_suffix true
    ⟨(tokens.take i).reverse, tokens.drop i⟩ ⟨t, _, hdrop, hs, hlast⟩
    (tokens.length + 1) (Cursor.ofTokens tokens) (tokens.take i)
    ⟨(List.take_append_drop i tokens).symm, (List.append_nil _).symm⟩ (Nat.lt_succ_self _)
  have hlocal := declarationsAux_rest localLayer_climbing ((tokens.drop i).length + 1)
    (Cursor.ofTokens (tokens.drop i)) ⟨(tokens.take i).reverse, tokens.drop i⟩ rfl
  have hfuel := @declarationsAux_fuel true fuel ((tokens.drop i).length + 1)
    ⟨(tokens.take i).reverse, tokens.drop i⟩ hf (Nat.lt_succ_self _)
  rw [hfuel] at hds hes
  unfold parseModule declarations
  rw [show (Cursor.ofTokens (tokens.drop i)).rest = tokens.drop i from rfl, hlocal]
  exact ⟨hds, hes⟩

/-- A structure that cannot be read, and the tokens of a function after it. -/
def brokenStruct : List Token :=
  [⟨.keyword, "struct", 0, Span.none⟩, ⟨.keyword, "fn", 0, Span.none⟩,
    ⟨.identifier, "f", 0, Span.none⟩]

theorem parseModule_drop_suffix_struct :
    brokenStruct[1]?.any startsDeclaration = true ∧
      (parseModule (brokenStruct.drop 1)).declarations <:+ (parseModule brokenStruct).declarations ∧
      (parseModule (brokenStruct.drop 1)).errors <:+ (parseModule brokenStruct).errors := by
  refine ⟨rfl, parseModule_drop_suffix rfl rfl ?_⟩
  rintro ⟨_, u, _, hu, hext⟩
  cases hu
  cases hext

end FrontEnd
