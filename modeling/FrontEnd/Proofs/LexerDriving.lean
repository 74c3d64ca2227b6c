import FrontEnd.Proofs.LexerStates
import Mathlib.Logic.Function.Iterate

/-!
# Driving a lexer

A lexer may be asked for one token after the other, be iterated, or be asked for all tokens that are
left. The three ways agree, and none of them stays where it is.

* `Lexer.Exhausted`, `Lexer.Advances` are the two outcomes of a call for a token:
  `Lexer.StandsIn.exhausted_or_advances`, in any state of the lexer. As calls advance, the end comes
  (`Lexer.StandsIn.exists_endsAfter`).
* `Lexer.Yields` is what an iteration answers for ever. There is one such answer
  (`Lexer.Yields.unique`), and collecting finds it (`Lexer.yields_iterate`).
* `Lexer.StandsIn.lex_ok_iff` and `Lexer.StandsIn.lex_error_iff` compare reading all tokens with it,
  `Lexer.Yields.call` compares single calls, and `Lexer.lex_called` reading on after some of them.
* `lexer_driven` is the statement for the states of a lexer of a source.

An iteration is over after an error, while calls go on: it is compared with the calls up to there.
-/

set_option autoImplicit false

namespace FrontEnd

open Lexer Text

namespace Lexer

/-- The lexer after some calls for a token. -/
def called (l : Lexer) (n : Nat) : Lexer := (fun l => l.nextToken.2)^[n] l

/-- The lexer after some steps of an iteration. -/
def iterated (l : Lexer) (n : Nat) : Lexer := (fun l => l.next.2)^[n] l

/-- The iteration answers the results, one a step, and nothing for ever after. -/
def Yields (l : Lexer) (results : List (Except LexError Token)) : Prop :=
  ∀ n, (l.iterated n).next.1 = results[n]?

/-- The token that ends a source. -/
def endToken (source : String) : Token :=
  ⟨.endOfFile, Token.endText, 0, Span.point (byteLength source.toList)⟩

/-- The call answers the token that ends the source and leaves the lexer at the end of it, and so
does every later call. -/
structure Exhausted (l : Lexer) (source : String) : Prop where
  answer : ∀ n, (l.called n).nextToken.1 = .ok (endToken source)
  offset : ∀ n, (l.called (n + 1)).offset = byteLength source.toList

/-- The call answers an error or a token that does not end the source, and the lexer goes on to the
next character or further. -/
structure Advances (l : Lexer) (source : String) : Prop where
  answer : ∀ t, l.nextToken.1 = .ok t → t.isEnd = false
  forward : l.offset < l.nextToken.2.offset
  boundary : IsBoundary source l.nextToken.2.offset

/-- The first call to answer the token that ends the source comes after `n` others. -/
structure EndsAfter (l : Lexer) (source : String) (n : Nat) : Prop where
  earlier : ∀ m < n, ∀ t, (l.called m).nextToken.1 = .ok t → t.isEnd = false
  last : (l.called n).nextToken.1 = .ok (endToken source)

/-! ## Calls -/

section

variable {source : String} {l : Lexer}

theorem called_succ (l : Lexer) (n : Nat) : l.called (n + 1) = l.nextToken.2.called n := rfl

theorem StandsIn.length (h : l.StandsIn source) :
    l.offset + byteLength l.rest = byteLength source.toList := by
  obtain ⟨front, hs, ho⟩ := h
  rw [hs, byteLength_append, ho]

theorem endOfFile_eq (hsize : byteLength source.toList ≤ Span.limit) :
    Token.endOfFile (byteLength source.toList) = endToken source := by
  unfold Token.endOfFile endToken
  rw [Span.ofRange_eq hsize hsize]
  rfl

/-- Where nothing is left, calls change nothing. -/
theorem called_of_rest_nil (h : l.rest = []) (n : Nat) : l.called n = l := by
  refine Function.iterate_fixed ?_ n
  rw [nextToken_of_blanks (by rw [h]; exact fun c hc => nomatch hc), h]
  obtain ⟨source, offset, rest, finished⟩ := l
  cases h
  rfl

/-- Where only blanks are left, calls answer the end, however often. -/
theorem StandsIn.exhausted (hsize : byteLength source.toList ≤ Span.limit) (h : l.StandsIn source)
    (hb : Blanks l.rest) : l.Exhausted source := by
  have hcall {l : Lexer} (h : l.StandsIn source) (hb : Blanks l.rest) :
      l.nextToken = (.ok (endToken source),
        { l with offset := byteLength source.toList, rest := [] }) := by
    rw [nextToken_of_blanks hb, h.length, endOfFile_eq hsize]
  have hrest : l.nextToken.2.rest = [] := by rw [hcall h hb]
  have hstay (n : Nat) : l.called (n + 1) = l.nextToken.2 := called_of_rest_nil hrest n
  refine ⟨fun n => ?_, fun n => ?_⟩
  · cases n with
    | zero => exact congrArg Prod.fst (hcall h hb)
    | succ n =>
      rw [hstay, hcall h.nextToken (by rw [hrest]; exact fun c hc => nomatch hc)]
  · rw [hstay, hcall h hb]

/-- A token that is answered where more than blanks is left does not end the source and takes a
character. -/
theorem nextToken_goesOn {t : Token} (hb : ¬Blanks l.rest) (ht : l.nextToken.1 = .ok t) :
    t.isEnd = false ∧ l.nextToken.2.rest.length < l.rest.length := by
  rcases @nextToken_ok l l.nextToken.2 t (Prod.ext ht rfl) with
    ⟨hb', -⟩ | ⟨_, _, _, _, _, _, _, _, _, hend, _, hlt⟩
  · exact absurd hb' hb
  · exact ⟨hend, hlt⟩

/-- **What one call does in any state.** -/
theorem StandsIn.exhausted_or_advances (hsize : byteLength source.toList ≤ Span.limit)
    (h : l.StandsIn source) : l.Exhausted source ∨ l.Advances source := by
  by_cases hb : Blanks l.rest
  · exact .inl (h.exhausted hsize hb)
  · obtain ⟨front, hs, ho⟩ := h.nextToken
    refine .inr ⟨fun t ht => (nextToken_goesOn hb ht).1, ?_, front, _, hs, ho⟩
    rcases nextToken_cases l with ⟨hb', -⟩ | ⟨gap, x, -, -, -, hx, hcall⟩
    · exact absurd hb' hb
    · have hpos := List.length_pos_iff.mpr (scan_taken_ne_nil hx)
      have hle := length_le_byteLength x.taken
      rw [hcall]
      show l.offset < l.offset + byteLength gap + byteLength x.taken
      omega

/-- The end comes after no more calls than bytes are left. -/
theorem StandsIn.exists_endsAfter (hsize : byteLength source.toList ≤ Span.limit)
    (h : l.StandsIn source) :
    ∃ n ≤ byteLength source.toList - l.offset, l.EndsAfter source n := by
  induction hleft : byteLength source.toList - l.offset using Nat.strong_induction_on
    generalizing l with
  | h left ih =>
    rcases h.exhausted_or_advances hsize with hend | hadv
    · exact ⟨0, Nat.zero_le _, fun m hm => absurd hm (Nat.not_lt_zero m), hend.answer 0⟩
    · have hforward := hadv.forward
      have hbound := h.nextToken.length
      obtain ⟨n, hn, hends⟩ := ih _ (by omega) h.nextToken rfl
      refine ⟨n + 1, by omega, fun m hm => ?_, hends.last⟩
      cases m with
      | zero => exact hadv.answer
      | succ m => exact hends.earlier m (by omega)

end

/-! ## Iteration -/

section

variable {l : Lexer} {r : Except LexError Token} {rs results : List (Except LexError Token)}

theorem next_of_finished (h : l.finished = true) : l.next = (none, l) := by
  rw [next, if_pos h]

theorem next_of_unfinished (h : l.finished = false) :
    l.next = (some l.nextToken.1, { l.nextToken.2 with finished := isLast l.nextToken.1 }) := by
  rw [next, h]
  rfl

/-- After an answer that does not end it, the iteration stands where a call leads to. -/
theorem next_goesOn (h : l.finished = false) (hlast : isLast l.nextToken.1 = false) :
    l.next = (some l.nextToken.1, l.nextToken.2) := by
  have hfin : l.nextToken.2.finished = false := by rw [nextToken_finished, h]
  rw [next_of_unfinished h, hlast, ← hfin]

/-- An answer that does not end an iteration has taken a character. -/
theorem rest_lt_of_goesOn (hlast : isLast l.nextToken.1 = false) :
    l.nextToken.2.rest.length < l.rest.length := by
  by_cases hb : Blanks l.rest
  · rw [nextToken_of_blanks hb] at hlast
    cases hlast
  · cases ht : l.nextToken.1 with
    | error e =>
      rw [ht] at hlast
      cases hlast
    | ok t => exact (nextToken_goesOn hb ht).2

theorem iterated_of_finished (h : l.finished = true) (n : Nat) : l.iterated n = l :=
  Function.iterate_fixed (congrArg Prod.snd (next_of_finished h)) n

/-- An iteration that is over answers nothing for ever. -/
theorem yields_nil (h : l.finished = true) : l.Yields [] := by
  intro n
  rw [iterated_of_finished h, next_of_finished h]
  rfl

theorem yields_cons_iff : l.Yields (r :: rs) ↔ l.next.1 = some r ∧ l.next.2.Yields rs := by
  constructor
  · exact fun h => ⟨h 0, fun n => h (n + 1)⟩
  · rintro ⟨hhead, htail⟩ n
    cases n with
    | zero => exact hhead
    | succ n => exact htail n

theorem yields_last (hfin : l.finished = false) (hlast : isLast l.nextToken.1 = true) :
    l.Yields [l.nextToken.1] := by
  refine yields_cons_iff.mpr ?_
  rw [next_of_unfinished hfin]
  exact ⟨rfl, yields_nil hlast⟩

theorem yields_cons (hfin : l.finished = false) (hlast : isLast l.nextToken.1 = false)
    (h : l.nextToken.2.Yields rs) : l.Yields (l.nextToken.1 :: rs) := by
  refine yields_cons_iff.mpr ?_
  rw [next_goesOn hfin hlast]
  exact ⟨rfl, h⟩

/-- There is one answer to an iteration. -/
theorem Yields.unique (h : l.Yields rs) (h' : l.Yields results) : rs = results :=
  List.ext_getElem? fun n => (h n).symm.trans (h' n)

/-- What ends an iteration leaves nothing. -/
theorem Yields.eq_nil_of_finished (h : l.Yields results) (hfin : l.finished = true) :
    results = [] :=
  h.unique (yields_nil hfin)

theorem yields_iterateAux :
    ∀ (fuel : Nat) (l : Lexer), l.rest.length < fuel → l.Yields (iterateAux fuel l) := by
  intro fuel
  induction fuel with
  | zero => exact fun l hf => absurd hf (Nat.not_lt_zero _)
  | succ fuel ih =>
    intro l hf
    cases hfin : l.finished with
    | true =>
      rw [iterateAux_finished hfin]
      exact yields_nil hfin
    | false =>
      cases hlast : isLast l.nextToken.1 with
      | true =>
        rw [iterateAux, next_of_unfinished hfin, hlast]
        show l.Yields (l.nextToken.1 :: iterateAux fuel _)
        rw [iterateAux_finished rfl]
        exact yields_last hfin hlast
      | false =>
        rw [iterateAux, next_goesOn hfin hlast]
        have hlt := rest_lt_of_goesOn hlast
        exact yields_cons hfin hlast (ih _ (by omega))

/-- **Collecting an iteration finds all that it answers.** -/
theorem yields_iterate (l : Lexer) : l.Yields l.iterate :=
  yields_iterateAux _ l (Nat.lt_succ_self _)

/-- An iteration answers what as many calls for a token answer. -/
theorem Yields.call (hfin : l.finished = false) (h : l.Yields results) :
    ∀ n r, results[n]? = some r → (l.called n).nextToken.1 = r := by
  intro n
  induction n generalizing l results with
  | zero =>
    intro r hr
    have hanswer := (h 0).trans hr
    change l.next.1 = some r at hanswer
    rw [next_of_unfinished hfin] at hanswer
    exact Option.some.inj hanswer
  | succ n ih =>
    intro r hr
    cases results with
    | nil => cases hr
    | cons first results =>
      obtain ⟨-, htail⟩ := yields_cons_iff.mp h
      cases hlast : isLast l.nextToken.1 with
      | true =>
        -- the iteration is over after its first answer, so there is no further one
        have hnil := htail.eq_nil_of_finished (by rw [next_of_unfinished hfin]; exact hlast)
        rw [hnil] at hr
        cases hr
      | false =>
        rw [next_goesOn hfin hlast] at htail
        exact ih (by rw [nextToken_finished, hfin]) htail r hr

end

/-! ## Reading all tokens -/

section

variable {source : String} {l : Lexer} {ts : List Token} {e : LexError}

/-- If reading all tokens fails, iteration answers tokens up to the error. -/
theorem yields_of_lexAux_error :
    ∀ (fuel : Nat) (l l' : Lexer), l.finished = false → lexAux fuel l = (.error e, l') →
      ∃ ts : List Token, l.Yields (ts.map .ok ++ [.error e]) := by
  intro fuel
  -- the rounds do not run out before the error, as it was answered
  induction fuel with
  | zero => intro l l' _ h; cases h
  | succ fuel ih =>
    intro l l' hfin h
    rw [lexAux] at h
    split at h
    · rename_i l₁ hcall
      cases h
      have hyields := yields_last hfin (by rw [hcall]; rfl)
      rw [hcall] at hyields
      exact ⟨[], hyields⟩
    rename_i t l₁ hcall
    split at h
    · cases h
    rename_i hend
    split at h
    · cases h
    rename_i l₂ hrest
    cases h
    have hfin₁ := l.nextToken_finished.trans hfin
    have hlast : isLast l.nextToken.1 = false := by
      rw [hcall]
      exact Bool.eq_false_iff.mpr hend
    rw [hcall] at hfin₁
    obtain ⟨ts, hts⟩ := ih l₁ _ hfin₁ hrest
    have hyields := @yields_cons l (ts.map .ok ++ [.error e]) hfin hlast (by rw [hcall]; exact hts)
    rw [hcall] at hyields
    exact ⟨t :: ts, hyields⟩

/-- What iteration answers, by what reading all tokens answers. -/
theorem StandsIn.yields_lex (hsize : byteLength source.toList ≤ Span.limit)
    (h : l.StandsIn source) (hfin : l.finished = false) :
    (∃ ts, l.lex.1 = .ok ts ∧ l.Yields (ts.map .ok ++ [.ok (endToken source)])) ∨
      ∃ e, l.lex.1 = .error e ∧ ∃ ts : List Token, l.Yields (ts.map .ok ++ [.error e]) := by
  rcases hlex : l.lex with ⟨_ | _, l'⟩
  · exact .inr ⟨_, rfl, yields_of_lexAux_error _ l l' hfin hlex⟩
  · -- the rounds of both loops are more than the characters, and each takes one
    have hiter := iterateAux_of_lexAux _ l l' _ (Nat.lt_succ_self _) hfin hlex
    rw [h.length, endOfFile_eq hsize] at hiter
    exact .inl ⟨_, rfl, hiter ▸ yields_iterate l⟩

/-- **Reading all tokens succeeds if the iteration comes to the end.** -/
theorem StandsIn.lex_ok_iff (hsize : byteLength source.toList ≤ Span.limit)
    (h : l.StandsIn source) (hfin : l.finished = false) :
    l.lex.1 = .ok ts ↔ l.Yields (ts.map .ok ++ [.ok (endToken source)]) := by
  rcases h.yields_lex hsize hfin with ⟨us, hlex, hus⟩ | ⟨e, hlex, us, hus⟩
  · constructor
    · intro h
      cases hlex.symm.trans h
      exact hus
    · intro hts
      have heq := List.append_cancel_right (hus.unique hts)
      rw [hlex, List.map_injective_iff.mpr (fun _ _ => Except.ok.inj) heq]
  · constructor
    · intro h
      cases hlex.symm.trans h
    · intro hts
      cases (List.append_inj' (hus.unique hts) rfl).2

/-- **Reading all tokens fails if the iteration comes to an error.** -/
theorem StandsIn.lex_error_iff (hsize : byteLength source.toList ≤ Span.limit)
    (h : l.StandsIn source) (hfin : l.finished = false) :
    l.lex.1 = .error e ↔ ∃ ts : List Token, l.Yields (ts.map .ok ++ [.error e]) := by
  rcases h.yields_lex hsize hfin with ⟨us, hlex, hus⟩ | ⟨e', hlex, us, hus⟩
  · constructor
    · intro h
      cases hlex.symm.trans h
    · rintro ⟨ts, hts⟩
      cases (List.append_inj' (hus.unique hts) rfl).2
  · constructor
    · intro h
      cases hlex.symm.trans h
      exact ⟨us, hus⟩
    · rintro ⟨ts, hts⟩
      cases (List.append_inj' (hus.unique hts) rfl).2
      exact hlex

/-! ## Reading on -/

/-- Whether an iteration is over changes nothing for a call. -/
theorem nextToken_withFinished (l : Lexer) (ended : Bool) :
    ({ l with finished := ended } : Lexer).nextToken =
      (l.nextToken.1, { l.nextToken.2 with finished := ended }) := by
  unfold nextToken lexemeStart
  dsimp only
  split <;> rfl

theorem lexAux_withFinished (ended : Bool) :
    ∀ (fuel : Nat) (l : Lexer), lexAux fuel { l with finished := ended } =
      ((lexAux fuel l).1, { (lexAux fuel l).2 with finished := ended }) := by
  intro fuel
  induction fuel with
  | zero => exact fun _ => rfl
  | succ fuel ih =>
    intro l
    rw [lexAux, lexAux, nextToken_withFinished]
    rcases l.nextToken with ⟨_ | t, l'⟩
    · rfl
    · dsimp only
      rw [ih l']
      split
      · rfl
      · rcases lexAux fuel l' with ⟨_ | _, _⟩ <;> rfl

/-- Calls and the steps of an iteration lead to the same place, if none of the calls but the last
one fails. -/
theorem iterated_eq_called (hfin : l.finished = false) (n : Nat)
    (hok : ∀ k, k + 1 < n → ∃ t, (l.called k).nextToken.1 = .ok t) :
    ∃ ended, l.iterated n = { l.called n with finished := ended } := by
  induction n generalizing l with
  | zero => exact ⟨l.finished, rfl⟩
  | succ n ih =>
    cases hlast : isLast l.nextToken.1 with
    | false =>
      have hnext : l.iterated (n + 1) = l.nextToken.2.iterated n :=
        congrArg (fun m : Option (Except LexError Token) × Lexer => m.2.iterated n)
          (next_goesOn hfin hlast)
      rw [hnext]
      exact ih (l.nextToken_finished.trans hfin) fun k hk => hok (k + 1) (by omega)
    | true =>
      have hnext : l.next.2 = { l.nextToken.2 with finished := true } := by
        rw [next_of_unfinished hfin, hlast]
      have hstay : l.iterated (n + 1) = { l.nextToken.2 with finished := true } := by
        show l.next.2.iterated n = _
        rw [hnext]
        exact iterated_of_finished rfl n
      refine ⟨true, ?_⟩
      rw [hstay, called_succ]
      cases n with
      | zero => rfl
      | succ n =>
        -- the iteration is over without an error, so the source is
        obtain ⟨t, ht⟩ := hok 0 (by omega)
        have hb : Blanks l.rest := by
          by_contra hb
          have hgoes := (nextToken_goesOn hb ht).1
          change l.nextToken.1 = _ at ht
          rw [ht] at hlast
          exact Bool.eq_false_iff.mp hgoes hlast
        rw [called_of_rest_nil (by rw [nextToken_of_blanks hb])]

/-- **Reading all tokens goes on from where calls or an iteration have come.** -/
theorem lex_called (hfin : l.finished = false) (n : Nat)
    (hok : ∀ k, k + 1 < n → ∃ t, (l.called k).nextToken.1 = .ok t) :
    (l.called n).lex.1 = (l.iterated n).lex.1 := by
  obtain ⟨ended, hplace⟩ := iterated_eq_called hfin n hok
  rw [hplace]
  exact (congrArg Prod.fst (lexAux_withFinished ended _ (l.called n))).symm

theorem Reached.lexAux (h : Reached source l) (fuel : Nat) :
    Reached source (lexAux fuel l).2 := by
  induction fuel generalizing l with
  | zero => exact h
  | succ fuel ih =>
    have hnext := h.nextToken
    rw [Lexer.lexAux]
    rcases hcall : l.nextToken with ⟨_ | t, l'⟩ <;> rw [hcall] at hnext
    · exact hnext
    · have hrest := ih hnext
      dsimp only at hrest ⊢
      split
      · exact hnext
      · rcases hrun : Lexer.lexAux fuel l' with ⟨_ | _, l''⟩ <;> rw [hrun] at hrest <;>
          exact hrest

/-- What reading all tokens leaves is a state of the lexer, too. -/
theorem Reached.lex (h : Reached source l) : Reached source l.lex.2 := h.lexAux _

end

end Lexer

/-! ## The states of a lexer of a source -/

/-- Every call comes to the end of the source or goes on to another character, so the end comes
after no more calls than bytes are left. -/
structure Lexer.Progresses (l : Lexer) (source : String) : Prop where
  call : l.Exhausted source ∨ l.Advances source
  ends : ∃ n ≤ byteLength source.toList - l.offset, l.EndsAfter source n

/-- What the ways to drive a lexer have in common: reading all tokens answers what iteration does,
iteration answers what single calls do, and all tokens are read on from the same place. -/
structure Lexer.DrivenAlike (l : Lexer) (source : String) : Prop where
  collected : l.Yields l.iterate
  calls : ∀ results, l.Yields results → ∀ n r, results[n]? = some r → (l.called n).nextToken.1 = r
  lex_ok : ∀ ts, l.lex.1 = .ok ts ↔ l.Yields (ts.map .ok ++ [.ok (endToken source)])
  lex_error : ∀ e, l.lex.1 = .error e ↔ ∃ ts : List Token, l.Yields (ts.map .ok ++ [.error e])
  resumed : ∀ n, (∀ k, k + 1 < n → ∃ t, (l.called k).nextToken.1 = .ok t) →
    (l.called n).lex.1 = (l.iterated n).lex.1

/-- **In every state a lexer progresses, and until its iteration is over it can be driven in any of
three ways.** -/
theorem lexer_driven {source : String} {l : Lexer}
    (hsize : byteLength source.toList ≤ Span.limit) (h : Lexer.Reached source l) :
    l.Progresses source ∧ Lexer.Reached source l.lex.2 ∧
      (l.finished = false → l.DrivenAlike source) := by
  have hstands := h.standsIn
  refine ⟨⟨hstands.exhausted_or_advances hsize, hstands.exists_endsAfter hsize⟩, h.lex,
    fun hfin => ?_⟩
  exact {
    collected := yields_iterate l
    calls := fun results hyields => hyields.call hfin
    lex_ok := fun ts => hstands.lex_ok_iff hsize hfin
    lex_error := fun e => hstands.lex_error_iff hsize hfin
    resumed := fun n => lex_called hfin n }

/-- The state after a malformed literal, with a character behind it that a look-up outside the
source gives, too. -/
theorem lexer_driven_after_error :
    byteLength "a '' \x00".toList ≤ Span.limit ∧
      (∃ e, (Lexer.ofSource "a '' \x00").nextToken.2.nextToken.1 = .error e) ∧
      ((Lexer.ofSource "a '' \x00").nextToken.2.nextToken.2.Progresses "a '' \x00") ∧
      (Lexer.ofSource "a '' \x00").nextToken.2.nextToken.2.DrivenAlike "a '' \x00" :=
  have hsize : byteLength "a '' \x00".toList ≤ Span.limit := by decide
  have h := lexer_driven hsize (Lexer.Reached.nextToken (.nextToken .start))
  ⟨hsize, ⟨_, rfl⟩, h.1, h.2.2 rfl⟩

end FrontEnd
